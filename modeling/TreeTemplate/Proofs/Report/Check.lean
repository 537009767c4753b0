import TreeTemplate.Proofs.Binding.Compiled
import TreeTemplate.Proofs.Render.Crew
import TreeTemplate.Proofs.Render.Frame
import TreeTemplate.Proofs.Termination

/-!
Checking a document finds what a render of it would meet.  The checker cuts the values of bindings by
itself; it comes to the same expressions as the compiler, in the same order, and complains of those that
become evaluators without an expression (`CheckReport.ofDocument_agrees`).
-/

namespace TreeTemplate

open Document (root)

/-! ### Evaluators -/

namespace Evaluator

variable {e : Evaluator} {source : String}

theorem source_of_plain (h : e.plain = Compiler.evaluator source 0) : e.source = source :=
  (congrArg Evaluator.source h :)

theorem isValid_of_plain (h : e.plain = Compiler.evaluator source 0) :
    e.isValid = (parse source).toOption.isSome :=
  (congrArg Evaluator.isValid h :)

end Evaluator

/-- What a complaint is about: the tag, the name of the attribute and the expression. -/
def Complaint.subject (c : Complaint) : String × String × String :=
  (c.tag, c.name, c.expression)

namespace CheckReport

variable {bindings : BindingCache} {tag : String} {b : Binding} {expression : String}

theorem complaint?_eq_some {c : Complaint} (h : complaint? bindings tag b expression = some c) :
    c.subject = (tag, bindings.attributeName b, expression) ∧ parse c.expression = .error c.error := by
  unfold complaint? at h
  split at h
  · simp at h
  · next e he =>
    obtain rfl := Option.some.inj h
    exact ⟨rfl, he⟩

theorem map_subject_complaint? (bindings : BindingCache) (tag : String) (b : Binding)
    (expression : String) :
    (complaint? bindings tag b expression).map Complaint.subject =
      if (parse expression).toOption.isSome then none
      else some (tag, bindings.attributeName b, expression) := by
  unfold complaint?
  cases parse expression <;> rfl

/-- The complaints about a node are about the evaluators that have no expression. -/
theorem map_subject_complaints {requests : List (Binding × String)}
    {evaluators : List (Binding × Evaluator)}
    (h : evaluators.map (Prod.map id Evaluator.plain) =
      requests.map (Prod.map id (Compiler.evaluator · 0))) :
    (requests.filterMap fun e => complaint? bindings tag e.1 e.2).map Complaint.subject =
      (evaluators.filter fun p => !p.2.isValid).map fun p =>
        (tag, bindings.attributeName p.1, p.2.source) := by
  rw [List.map_filterMap]
  simp only [map_subject_complaint?]
  induction requests generalizing evaluators with
  | nil =>
    obtain rfl : evaluators = [] := List.map_eq_nil_iff.mp h
    rfl
  | cons r requests ih =>
    obtain ⟨p, rest, rfl, hp, hrest⟩ := List.map_eq_cons_iff.mp h
    obtain ⟨hbinding, hplain⟩ := Prod.ext_iff.mp hp
    have hbinding : p.1 = r.1 := hbinding
    have hsource : p.2.source = r.2 := Evaluator.source_of_plain hplain
    have hvalid := Evaluator.isValid_of_plain hplain
    rw [List.filterMap_cons, List.filter_cons, ih hrest, hvalid]
    cases (parse r.2).toOption.isSome with
    | true => rfl
    | false => simp [hbinding, hsource]

end CheckReport

/-! ### The sets of a document -/

/-- An element of a document that comes from a markup text is a live node. -/
theorem Document.exists_of_mem_descendants {source : String} {d : Document} {top h : Handle}
    (hd : ofMarkup source = .ok d) (hh : h ∈ d.descendants top) : ∃ n, d.get? h = some n := by
  obtain ⟨nodes, -, rfl⟩ := ofMarkup_eq_ok hd
  obtain ⟨-, hvacant, -⟩ := plantAll_empty_holds nodes
  have helement := (List.mem_filter.mp hh).2
  rw [← Option.ne_none_iff_exists']
  intro hnone
  rw [node, hnone, Option.getD_none, hvacant] at helement
  simp [Node.isElement, Node.new] at helement

namespace Engine

variable {e : Engine} {d : Document} {source : String} {h : Handle} {n : Node}

/-- Whatever an engine that remembers nothing is about to render, the set of a node is the set of the
bindings written on it. -/
theorem bindingsUnder_plain (hd : Document.ofMarkup source = .ok d) (owner : Nat) (top : Handle)
    (hn : d.get? h = some n) :
    (((e.anew owner).stage d).bindingsUnder top h).plain =
      BindingSet.meaning (n.rawBindings e.config.attributePrefix) := by
  have hattuned : Attuned e (fun _ : Unit => e.anew owner) d :=
    .anew (fun _ _ _ => rfl) (Document.unclaimed_of_ofMarkup hd _ _)
  have hcoherent := Scan.prime_keeps (P := Scan.Coherent _) (fun _ h hs => (hs.lookup h).2.1)
    (hattuned.coherent ()) top
  obtain ⟨hset, -, -⟩ := hcoherent.lookup h
  obtain ⟨n', hn', heq⟩ := Scan.prime_retains ((e.anew owner).stage d).toScan top h n hn
  rw [Document.node_of_get? hn', Node.rawBindings_congr (Node.content_of_unscanned heq)] at hset
  exact hset

end Engine

namespace CheckReport

/-- The bindings written on a node, as a checker of the given settings reads them. -/
theorem expressionsOf_new (config : Config) (d : Document) (h : Handle) :
    expressionsOf (BindingCache.new 0 config.attributePrefix) d h =
      RawBinding.requests ((d.node h).rawBindings config.attributePrefix) :=
  rfl

/-- The report tells of each element what becomes of its bindings: the set that it has is given by
`setOf`. -/
structure Agrees (r : CheckReport) (config : Config) (d : Document) (setOf : Handle → BindingSet) :
    Prop where
  /-- The evaluators of an element are those of the expressions that are checked, in order. -/
  examined : ∀ h ∈ d.descendants root,
    (setOf h).evaluators.map (Prod.map id Evaluator.source) =
      expressionsOf (BindingCache.new 0 config.attributePrefix) d h
  /-- The complaints are about the evaluators that have no expression, in order. -/
  subjects : r.complaints.map Complaint.subject =
    (d.descendants root).flatMap fun h =>
      ((setOf h).evaluators.filter fun p => !p.2.isValid).map fun p =>
        ((d.tag? h).getD "?", config.attributePrefix ++ p.1.suffix, p.2.source)
  /-- Each complaint says why there is no expression. -/
  errors : ∀ c ∈ r.complaints, parse c.expression = .error c.error
  checked : r.checked = ((d.descendants root).map fun h => (setOf h).evaluators.length).sum
  failed : r.complaints.length =
    ((d.descendants root).map fun h => (setOf h).evaluators.countP fun p => !p.2.isValid).sum

/-- A report agrees with every assignment of sets that mean the bindings of their elements. -/
theorem agrees_of_evaluators {config : Config} {d : Document} {setOf : Handle → BindingSet}
    (hset : ∀ h ∈ d.descendants root, (setOf h).evaluators.map (Prod.map id Evaluator.plain) =
      (expressionsOf (BindingCache.new 0 config.attributePrefix) d h).map
        (Prod.map id (Compiler.evaluator · 0))) :
    (ofDocument config d).Agrees config d setOf := by
  have hsubjects : (ofDocument config d).complaints.map Complaint.subject =
      (d.descendants root).flatMap fun h =>
        ((setOf h).evaluators.filter fun p => !p.2.isValid).map fun p =>
          ((d.tag? h).getD "?", config.attributePrefix ++ p.1.suffix, p.2.source) := by
    simp only [ofDocument, List.map_flatMap]
    exact List.flatMap_congr fun h hh => map_subject_complaints (hset h hh)
  constructor
  · intro h hh
    have hsources := congrArg (List.map (Prod.map id Evaluator.source)) (hset h hh)
    rw [List.map_map, List.map_map] at hsources
    exact hsources.trans (List.map_id _)
  · exact hsubjects
  · intro c hc
    simp only [ofDocument, List.mem_flatMap, List.mem_filterMap] at hc
    obtain ⟨h, -, e, -, hc⟩ := hc
    exact (complaint?_eq_some hc).2
  · simp only [ofDocument, List.length_flatMap]
    refine congrArg List.sum (List.map_congr_left fun h hh => ?_)
    simpa using (congrArg List.length (hset h hh)).symm
  · have hlength := congrArg List.length hsubjects
    simpa [List.length_flatMap, List.countP_eq_length_filter] using hlength

/-- Building the set of a node compiles, whatever the compiler remembers, exactly the expressions that
checking the node examines. -/
theorem build_expressionsOf (bindings : BindingCache) (d : Document) (h : Handle) (k : Compiler) :
    let raw := bindings.rawBindings d h
    ((BindingSet.build (fingerprint raw) raw k).1.evaluators,
        (BindingSet.build (fingerprint raw) raw k).2) =
      k.compilePairs (expressionsOf bindings d h) :=
  BindingSet.build_evaluators _ _ k

/-- Checking a document that comes from a markup text and rendering it agree on every expression: the
check examines the expressions that building the sets of its elements compiles, in order, and complains
of those for which an engine that remembers nothing has an evaluator without an expression. -/
theorem ofDocument_agrees {source : String} {d : Document} (hd : Document.ofMarkup source = .ok d)
    (config : Config) (owner : Nat) (top : Handle) :
    (∀ h k, let raw := (BindingCache.new 0 config.attributePrefix).rawBindings d h
      ((BindingSet.build (fingerprint raw) raw k).1.evaluators,
          (BindingSet.build (fingerprint raw) raw k).2) =
        k.compilePairs (expressionsOf (BindingCache.new 0 config.attributePrefix) d h)) ∧
      (ofDocument config d).Agrees config d
        fun h => ((Engine.new owner config).stage d).bindingsUnder top h := by
  refine ⟨build_expressionsOf _ d, agrees_of_evaluators fun h hh => ?_⟩
  obtain ⟨n, hn⟩ := Document.exists_of_mem_descendants hd hh
  have hplain := Engine.bindingsUnder_plain (e := Engine.new owner config) hd owner top hn
  rw [expressionsOf_new, Document.node_of_get? hn]
  exact BindingSet.evaluators_of_meaning _ rfl hplain

/-- Two elements with five expressions, two of which do not parse. -/
theorem ofDocument_agrees_nested :
    ∃ d, Document.ofMarkup ("<div data-jst-if=\"ok\"><p data-jst-values=\"a=1 + | b=2\" " ++
        "data-jst-eval=\"f(); g(\"></p></div>") = .ok d ∧
      (ofDocument .default d).checked = 5 ∧ (ofDocument .default d).complaints.length = 2 ∧
      (ofDocument .default d).Agrees .default d
        fun h => ((Engine.new 0 .default).stage d).bindingsUnder root h := by
  have hparse : parseMarkup ("<div data-jst-if=\"ok\"><p data-jst-values=\"a=1 + | b=2\" " ++
      "data-jst-eval=\"f(); g(\"></p></div>") =
        .ok [.element "div" [("data-jst-if", "ok")]
          [.element "p" [("data-jst-values", "a=1 + | b=2"), ("data-jst-eval", "f(); g(")] []]] := by
    decide +kernel
  have hd := Document.ofMarkup_of_parseMarkup hparse
  refine ⟨_, hd, ?_, ?_, (ofDocument_agrees hd .default 0 root).2⟩
  · decide +kernel
  · decide +kernel

end CheckReport

end TreeTemplate
