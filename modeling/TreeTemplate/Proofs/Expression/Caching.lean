import TreeTemplate.Expression.Cache
import TreeTemplate.Proofs.Dict

/-!
What the cache of compiled expressions can change.  A compiler that remembers nothing but what its
sources compile to (`Compiler.Faithful`) gives every source the evaluator that a new compiler gives it,
serials aside.
-/

namespace TreeTemplate

def Evaluator.plain (e : Evaluator) : Evaluator :=
  { e with serial := 0 }

namespace Compiler

variable {α : Type} {c : Compiler}

/-- The evaluators of several expressions, each with what it is listed under. -/
def compilePairs (c : Compiler) (pairs : List (α × String)) : List (α × Evaluator) × Compiler :=
  let (es, c) := c.compileAll (pairs.map Prod.snd)
  ((pairs.map Prod.fst).zip es, c)

theorem length_compileAll (c : Compiler) (sources : List String) :
    (c.compileAll sources).1.length = sources.length := by
  induction sources generalizing c with
  | nil => rfl
  | cons source sources ih => simp only [compileAll, List.length_cons, ih]

/-- The expressions of a list are compiled one after another. -/
theorem compileList_snd (c : Compiler) (source : String) :
    ((c.compileList source).1.map Prod.snd, (c.compileList source).2) =
      c.compileAll ((labelledSources source).map Prod.snd) := by
  rw [compileList]
  dsimp only
  rw [List.map_snd_zip (by simp [length_compileAll])]

/-- What is remembered for a source is what the source compiles to. -/
def Faithful (c : Compiler) : Prop :=
  ∀ source e, Dict.get? c.cache source = some e → e.plain = evaluator source 0

theorem new_faithful (policy : FailurePolicy) : (new policy).Faithful := by
  intro source e he
  simp [new, Dict.get?] at he

theorem clear_faithful (c : Compiler) : c.clear.Faithful := by
  intro source e he
  simp [clear, Dict.get?] at he

theorem compile_faithful (hc : c.Faithful) (source : String) :
    (c.compile source).1.plain = evaluator source 0 ∧ (c.compile source).2.Faithful := by
  unfold compile
  cases hget : Dict.get? c.cache source with
  | some e => exact ⟨hc source e hget, hc⟩
  | none =>
    refine ⟨rfl, fun other e he => ?_⟩
    dsimp only at he
    split at he
    · rw [Dict.get?_put] at he
      split at he
      · next heq =>
        obtain rfl := Option.some.inj he
        rw [heq]
        rfl
      · exact hc other e he
    · exact hc other e he

theorem compileAll_faithful (hc : c.Faithful) (sources : List String) :
    (c.compileAll sources).1.map Evaluator.plain = sources.map (evaluator · 0) ∧
      (c.compileAll sources).2.Faithful := by
  induction sources generalizing c with
  | nil => exact ⟨rfl, hc⟩
  | cons source rest ih =>
    obtain ⟨hhead, hc₁⟩ := compile_faithful hc source
    obtain ⟨htail, hc₂⟩ := ih hc₁
    refine ⟨?_, hc₂⟩
    rw [compileAll, List.map_cons, hhead, htail, List.map_cons]

theorem compileSequence_faithful (hc : c.Faithful) (source : String) :
    (c.compileSequence source).1.map Evaluator.plain = (splitSequence source).map (evaluator · 0) ∧
      (c.compileSequence source).2.Faithful :=
  compileAll_faithful hc (splitSequence source)

theorem compilePairs_faithful (hc : c.Faithful) (pairs : List (α × String)) :
    (c.compilePairs pairs).1.map (Prod.map id Evaluator.plain) =
        pairs.map (Prod.map id (evaluator · 0)) ∧
      (c.compilePairs pairs).2.Faithful := by
  obtain ⟨hall, hc₁⟩ := compileAll_faithful hc (pairs.map Prod.snd)
  refine ⟨?_, hc₁⟩
  unfold compilePairs
  dsimp only
  rw [← List.zip_map_right, hall, List.map_map, List.zip_map']
  rfl

theorem compileList_faithful (hc : c.Faithful) (source : String) :
    (c.compileList source).1.map (Prod.map id Evaluator.plain) =
        (labelledSources source).map (Prod.map id (evaluator · 0)) ∧
      (c.compileList source).2.Faithful :=
  compilePairs_faithful hc (labelledSources source)

inductive Reached : Compiler → Prop
  | new (policy : FailurePolicy) : Reached (new policy)
  | compile {c : Compiler} (h : Reached c) (source : String) : Reached (c.compile source).2
  | compileList {c : Compiler} (h : Reached c) (source : String) : Reached (c.compileList source).2
  | compileSequence {c : Compiler} (h : Reached c) (source : String) :
    Reached (c.compileSequence source).2
  | clear {c : Compiler} (h : Reached c) : Reached c.clear

theorem Reached.faithful (h : c.Reached) : c.Faithful := by
  induction h with
  | new policy => exact new_faithful policy
  | compile _ source ih => exact (compile_faithful ih source).2
  | compileList _ source ih => exact (compileList_faithful ih source).2
  | compileSequence _ source ih => exact (compileSequence_faithful ih source).2
  | clear => exact clear_faithful _

end Compiler

end TreeTemplate
