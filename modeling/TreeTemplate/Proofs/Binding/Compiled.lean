import TreeTemplate.Proofs.Binding.Meaning
import TreeTemplate.Report.Check

/-!
The evaluators of a binding set, binding by binding.  Building a set compiles the expressions inside the
bindings one after another, whatever the compiler remembers, and leaves nothing out
(`BindingSet.build_evaluators`).
-/

namespace TreeTemplate

/-- The expressions that checking finds in a list are the ones that the compiler finds. -/
theorem snd_labelledSources (v : String) :
    (labelledSources v).map Prod.snd = (splitList v).filterMap fun token =>
      (Text.cutChars '=' token.toList).map fun p => String.ofList p.2 := by
  simp only [labelledSources, List.map_filterMap, splitLabel?, Option.map_map, Function.comp_def]

namespace Compiler

variable {α : Type} (c : Compiler)

theorem compileAll_append (sources rest : List String) :
    c.compileAll (sources ++ rest) =
      ((c.compileAll sources).1 ++ ((c.compileAll sources).2.compileAll rest).1,
        ((c.compileAll sources).2.compileAll rest).2) := by
  induction sources generalizing c with
  | nil => rfl
  | cons source sources ih => simp only [List.cons_append, compileAll, ih]

theorem compilePairs_append (pairs rest : List (α × String)) :
    c.compilePairs (pairs ++ rest) =
      ((c.compilePairs pairs).1 ++ ((c.compilePairs pairs).2.compilePairs rest).1,
        ((c.compilePairs pairs).2.compilePairs rest).2) := by
  simp only [compilePairs, List.map_append, compileAll_append]
  rw [List.zip_append (by simp [length_compileAll])]

/-- What is listed under one thing is compiled as it stands. -/
theorem compilePairs_map (a : α) (sources : List String) :
    c.compilePairs (sources.map fun source => (a, source)) =
      ((c.compileAll sources).1.map fun e => (a, e), (c.compileAll sources).2) := by
  have hlength := c.length_compileAll sources
  simp only [compilePairs, List.map_map, Function.comp_def, List.map_const', List.map_id']
  generalize c.compileAll sources = compiled at hlength ⊢
  rw [← hlength, ← List.map_const', List.map_prod_right_eq_zip]

end Compiler

namespace BindingSet

variable {s : BindingSet} {k : Compiler} {b b' : Binding}

/-- The evaluators of a binding. -/
def compiled (s : BindingSet) : Binding → List Evaluator
  | .select => s.select?.toList
  | .gate => s.gate?.toList
  | .values => (s.values?.getD []).map Prod.snd
  | .vars => (s.vars?.getD []).map Prod.snd
  | .eval => s.eval?.getD []
  | .include =>
    match s.include? with
    | some (.computed e) => [e]
    | _ => []
  | .content => s.content?.toList
  | .skip => s.skip?.toList
  | .hide => s.hide?.toList
  | .show => s.show?.toList
  | .idExpr => s.idExpr?.toList
  | .data => (s.data?.getD []).map Prod.snd
  | .id | .overwrite => []

/-- The evaluators of a set, each with its binding, in the order of fingerprints. -/
def evaluators (s : BindingSet) : List (Binding × Evaluator) :=
  Binding.all.flatMap fun b => (s.compiled b).map fun e => (b, e)

/-- A binding is compiled into the evaluators of the expressions inside it. -/
theorem compiled_add (s : BindingSet) (k : Compiler) (b : Binding) (v : String) :
    ((s.add k (b, v)).1.compiled b, (s.add k (b, v)).2) =
      k.compileAll (RawBinding.expressions (b, v)) := by
  have hlist := k.compileList_snd v
  rw [snd_labelledSources] at hlist
  cases b with
  | select | gate | content | skip | hide | «show» | idExpr =>
    simp only [add, compiled, RawBinding.expressions, Binding.form, Compiler.compileAll,
      Option.toList_some]
  | values | vars | data =>
    simp only [add, compiled, RawBinding.expressions, Binding.form, Option.getD_some, hlist]
  | eval =>
    simp only [add, compiled, RawBinding.expressions, Binding.form, Option.getD_some,
      Compiler.compileSequence]
  | «include» =>
    simp only [add, RawBinding.expressions, Binding.form]
    cases literalReference? v <;>
      simp only [compiled, Option.isSome, Bool.false_eq_true, if_true, if_false, Compiler.compileAll]
  | id | overwrite => simp only [add, compiled, RawBinding.expressions, Binding.form, Compiler.compileAll]

/-- Other bindings are not touched. -/
theorem compiled_add_of_ne (s : BindingSet) (k : Compiler) (v : String) (h : b' ≠ b) :
    (s.add k (b, v)).1.compiled b' = s.compiled b' := by
  cases b with
  | «include» =>
    simp only [add]
    cases literalReference? v <;> cases b' <;> first | exact absurd rfl h | rfl
  | _ =>
    simp only [add]
    cases b' <;> first | exact absurd rfl h | rfl

theorem compiled_addAll_of_not_mem {raw : List RawBinding} (h : b ∉ raw.map Prod.fst) :
    (s.addAll k raw).1.compiled b = s.compiled b := by
  induction raw generalizing s k with
  | nil => rfl
  | cons r rest ih =>
    rw [List.map_cons, List.mem_cons, not_or] at h
    rw [addAll]
    dsimp only
    rw [ih h.2]
    exact compiled_add_of_ne s k r.2 h.1

/-- Some of the bindings are compiled, each at most once, into a set that has none of them. -/
theorem addAll_evaluators (value? : Binding → Option String) {bs : List Binding} (hbs : bs.Nodup)
    (hs : ∀ b ∈ bs, s.compiled b = []) :
    let raw := bs.filterMap fun b => (value? b).map fun v => (b, v)
    (bs.flatMap fun b => ((s.addAll k raw).1.compiled b).map fun e => (b, e), (s.addAll k raw).2) =
      k.compilePairs (RawBinding.requests raw) := by
  dsimp only
  induction bs generalizing s k with
  | nil => rfl
  | cons b rest ih =>
    obtain ⟨hb, hrest⟩ := List.nodup_cons.mp hbs
    have hnot : ∀ (s : BindingSet) (k : Compiler),
        (s.addAll k (rest.filterMap fun b => (value? b).map fun v => (b, v))).1.compiled b =
          s.compiled b := by
      intro s k
      apply compiled_addAll_of_not_mem
      simp only [List.mem_map, List.mem_filterMap, Option.map_eq_some_iff]
      rintro ⟨-, ⟨b', hb', v, -, rfl⟩, rfl⟩
      exact hb hb'
    cases hv : value? b with
    | none =>
      rw [List.filterMap_cons_none (by rw [hv, Option.map_none]), List.flatMap_cons, hnot,
        hs b List.mem_cons_self]
      exact ih hrest fun b' hb' => hs b' (List.mem_cons_of_mem b hb')
    | some v =>
      have hclear : ∀ b' ∈ rest, (s.add k (b, v)).1.compiled b' = [] := by
        intro b' hb'
        have hne : b' ≠ b := fun heq => hb (heq ▸ hb')
        rw [compiled_add_of_ne s k v hne, hs b' (List.mem_cons_of_mem b hb')]
      obtain ⟨hhere, hcompiler⟩ := Prod.ext_iff.mp (compiled_add s k b v)
      dsimp only at hhere hcompiler
      rw [List.filterMap_cons_some (b := (b, v)) (by rw [hv, Option.map_some]), addAll]
      dsimp only
      rw [List.flatMap_cons, hnot, hhere, RawBinding.requests, List.flatMap_cons,
        ← RawBinding.requests, Compiler.compilePairs_append, Compiler.compilePairs_map, ← hcompiler,
        ← ih hrest hclear]

/-- Building the set of the bindings that a node may have compiles the expressions inside them one after
another, and the set holds what becomes of them. -/
theorem build_evaluators (value? : Binding → Option String) (fingerprint : String) (k : Compiler) :
    let raw := Binding.all.filterMap fun b => (value? b).map fun v => (b, v)
    ((build fingerprint raw k).1.evaluators, (build fingerprint raw k).2) =
      k.compilePairs (RawBinding.requests raw) := by
  have hempty : ∀ b ∈ Binding.all, (empty fingerprint).compiled b = [] := by
    intro b _
    cases b <;> rfl
  exact addAll_evaluators value? (by decide) hempty

/-! ### Sets of one meaning -/

theorem compiled_plain (s : BindingSet) (b : Binding) :
    s.plain.compiled b = (s.compiled b).map Evaluator.plain := by
  have hlabelled : ∀ es? : Option Labelled, (((es?.map Labelled.plain).getD []).map Prod.snd) =
      ((es?.getD []).map Prod.snd).map Evaluator.plain := by
    rintro (_ | es)
    · rfl
    · simp [Labelled.plain]
  cases b with
  | select | gate | content | skip | hide | «show» | idExpr =>
    simp only [compiled, plain, Option.toList_map]
  | values | vars | data => exact hlabelled _
  | eval =>
    simp only [compiled, plain]
    cases s.eval? <;> rfl
  | «include» =>
    simp only [compiled, plain]
    rcases s.include? with _ | _ | _ <;> rfl
  | id | overwrite => rfl

theorem evaluators_plain (s : BindingSet) :
    s.plain.evaluators = s.evaluators.map (Prod.map id Evaluator.plain) := by
  simp only [evaluators, List.map_flatMap, compiled_plain, List.map_map]
  rfl

/-- The evaluators of a set that means the bindings of a node are what the expressions inside the
bindings compile to. -/
theorem evaluators_of_meaning (value? : Binding → Option String) {raw : List RawBinding}
    (hraw : raw = Binding.all.filterMap fun b => (value? b).map fun v => (b, v))
    (hs : s.plain = meaning raw) :
    s.evaluators.map (Prod.map id Evaluator.plain) =
      (RawBinding.requests raw).map (Prod.map id (Compiler.evaluator · 0)) := by
  subst hraw
  obtain ⟨hbuilt, -⟩ := Prod.ext_iff.mp
    (build_evaluators value? (TreeTemplate.fingerprint _) (Compiler.new .retry))
  obtain ⟨hpairs, -⟩ := Compiler.compilePairs_faithful (Compiler.new_faithful .retry)
    (RawBinding.requests (Binding.all.filterMap fun b => (value? b).map fun v => (b, v)))
  rw [← evaluators_plain, hs, meaning, evaluators_plain, ← hpairs, ← hbuilt]

end BindingSet

end TreeTemplate
