import TreeTemplate.Proofs.Lifetime
import TreeTemplate.Proofs.Render.Events

/-!
Handles over the life of a document.  A course is any sequence of operations, with whatever handles,
live ones or not, and of renders, each looked at wherever it has got to; its log holds the slots that
are given out and vacated on the way.  While no slot is vacated `2 ^ 32` times, no handle is given out
twice, and a handle that is dead stays dead (`Document.Course.handles_once`).
-/

namespace TreeTemplate

open Document (root)

namespace Document

variable {d d₀ d₁ d₂ d' : Document} {h : Handle} {log log' past : List Event}

/-- An operation, with what it does to the slots. -/
inductive Change : Document → List Event → Document → Prop
  | parse {source : String} {nodes : List Markup} (h : parseMarkup source = .ok nodes) :
      Change empty (plantAllEvents empty root nodes) (plantAll empty root nodes)
  | createElement (d : Document) (tag : String) :
      Change d [.allocated (d.createElement tag).1] (d.createElement tag).2
  | appendChild (d : Document) (p h : Handle) : Change d [] (d.appendChild p h)
  | appendText (d : Document) (h : Handle) (text : String) :
      Change d (d.appendTextEvents text) (d.appendText h text)
  | appendMarkup {d d' : Document} {h : Handle} {source : String}
      (happend : d.appendMarkup h source = .ok d') : Change d (d.appendMarkupEvents h source) d'
  | insertBefore (d : Document) (h reference : Handle) : Change d [] (d.insertBefore h reference)
  | insertAfter (d : Document) (h reference : Handle) : Change d [] (d.insertAfter h reference)
  | replace (d : Document) (h old : Handle) : Change d [] (d.replace h old)
  | remove (d : Document) (h : Handle) : Change d (d.removeEvents h) (d.remove h)
  | clearChildren (d : Document) (h : Handle) :
      Change d (d.clearChildrenEvents h) (d.clearChildren h)
  | deepClone (d : Document) (h : Handle) : Change d (d.deepCloneEvents h) (d.deepClone h).2
  | createHiddenContainer (d : Document) (name value : String) :
      Change d [.allocated (d.createHiddenContainer name value).1]
        (d.createHiddenContainer name value).2
  | setAttribute (d : Document) (h : Handle) (name value : String) :
      Change d [] (d.setAttribute h name value)
  | removeAttribute (d : Document) (h : Handle) (name : String) :
      Change d [] (d.removeAttribute h name)
  | setVisible (d : Document) (h : Handle) (visible : Bool) : Change d [] (d.setVisible h visible)
  /-- Any write of properties, data, callbacks, list positions or binding sets. -/
  | record (d : Document) (h : Handle) (f : Node → Node) : Change d [] (d.modify h f)
  | resetMutations (d : Document) : Change d [] d.resetMutations
  | findTemplate (e : Engine) (d : Document) (id : String) :
      Change d (e.templates.findEvents e.loader? d id) (e.findTemplate d id).document
  | resolveTemplate (e : Engine) (d : Document) (reference : String) :
      Change d ((e.stage d).resolveEvents (e.plan true) reference)
        (e.resolveTemplate d reference).document
  /-- A render that has done the steps of the record. -/
  | render {e : Engine} {d : Document} {data : Value} {parent? : Option Value} {node : Handle}
      {inPlace : Bool} {steps : List (Stage × Step)} {w : WorkStack Step} {s : Stage}
      (h : e.Reaches (e.stage d) data parent? node inPlace steps w s) :
      Change d (Stage.eventsOf (e.plan inPlace) steps) s.document
  /-- A render into a copy that has done the steps of the record. -/
  | renderClone {e : Engine} {d : Document} {data : Value} {node : Handle}
      {steps : List (Stage × Step)} {w : WorkStack Step} {s : Stage}
      (h : e.Reaches ((e.stage d).cloneTemplate (e.plan false) node).2 data none
        ((e.stage d).cloneTemplate (e.plan false) node).1 false steps w s) :
      Change d (Templates.cloneEvents (e.stage d).toScan node ++
        Stage.eventsOf (e.plan false) steps) s.document

end Document

namespace Engine

open Document (Annals Change)

variable {e : Engine} {d : Document} {data : Value} {parent? : Option Value} {node : Handle}
  {inPlace : Bool} {budget : Nat} {s s' : Stage}

theorem Reaches.annals {steps : List (Stage × Step)} {w : WorkStack Step}
    (h : e.Reaches s data parent? node inPlace steps w s') :
    Annals s.document (Stage.eventsOf (e.plan inPlace) steps) s'.document := by
  induction h with
  | start => exact .of_sameSlots (Scan.prime_sameSlots s.toScan node)
  | step before _ ih =>
    rw [Stage.eventsOf_concat]
    exact ih.append (Stage.step_annals _ _ _ _)

/-- A render that has an outcome is such an operation. -/
theorem change_of_render {o : Outcome WalkStats}
    (h : e.render budget d data parent? node inPlace = some o) :
    ∃ log, Change d log o.document := by
  obtain ⟨⟨s', stats⟩, hrender, rfl⟩ := Option.map_eq_some_iff.mp h
  obtain ⟨steps, w, last, hreaches, -, rfl⟩ := exists_reaches_of_renderOn hrender
  have hchange := Change.render hreaches
  exact ⟨_, hchange⟩

/-- A render into a copy that has an outcome is such an operation, and the copy is given out. -/
theorem change_of_renderClone {o : Outcome Handle}
    (h : e.renderClone budget d data node = some o) :
    ∃ log, Change d log o.document ∧ o.value ∈ Document.allocations log := by
  have hmem := Templates.fst_clone_mem (e.plan false).templates (e.stage d).toScan node
  obtain ⟨⟨s', stats⟩, hrender, ho⟩ := Option.map_eq_some_iff.mp
    (show Option.map _ (e.renderOn budget ((e.stage d).cloneTemplate (e.plan false) node).2 data none
      ((e.stage d).cloneTemplate (e.plan false) node).1 false) = some o from h)
  obtain ⟨steps, w, last, hreaches, -, rfl⟩ := exists_reaches_of_renderOn hrender
  have hchange := Change.renderClone hreaches
  rw [← ho]
  refine ⟨_, hchange, ?_⟩
  rw [Document.allocations_append]
  exact List.mem_append_left _ hmem

end Engine

namespace Document

variable {d d₀ d₁ d₂ d' : Document} {h : Handle} {log log' past : List Event}

theorem Change.annals (hc : Change d log d') : Annals d log d' := by
  cases hc with
  | parse h => exact plantAll_annals empty root _
  | createElement d tag => exact createElement_annals d tag
  | appendChild d p h => exact .of_sameSlots (.appendChild d p h)
  | appendText d h text => exact appendText_annals d h text
  | appendMarkup happend => exact appendMarkup_annals happend
  | insertBefore d h reference => exact .of_sameSlots (.insertBefore d h reference)
  | insertAfter d h reference => exact .of_sameSlots (.insertAfter d h reference)
  | replace d h old => exact .of_sameSlots (.replace d h old)
  | remove d h => exact remove_annals d h
  | clearChildren d h => exact clearChildren_annals d h
  | deepClone d h => exact deepClone_annals d h
  | createHiddenContainer d name value => exact createHiddenContainer_annals d name value
  | setAttribute d h name value => exact .of_sameSlots (.setAttribute d h name value)
  | removeAttribute d h name => exact .of_sameSlots (.removeAttribute d h name)
  | setVisible d h visible => exact .of_sameSlots (.setVisible d h visible)
  | record d h f => exact .of_sameSlots (.modify d h f)
  | resetMutations d => exact .of_sameSlots (.resetMutations d)
  | findTemplate e d id => exact Stage.findTemplate_annals (e.plan true) (e.stage d) id
  | resolveTemplate e d reference =>
    exact Stage.resolveTemplate_annals (e.plan true) (e.stage d) reference
  | render h => exact h.annals
  | renderClone h => exact (Templates.clone_annals _ _ _).append h.annals

/-- Any number of operations one after another. -/
inductive Course : Document → List Event → Document → Prop
  | start (d : Document) : Course d [] d
  | step {d d₁ d' : Document} {log log' : List Event} (before : Course d log d₁)
      (change : Change d₁ log' d') : Course d (log ++ log') d'

theorem Course.annals (hc : Course d log d') : Annals d log d' := by
  induction hc with
  | start => exact .done d
  | step _ change ih => exact ih.append change.annals

/-- The register of a course that no slot is vacated too often in. -/
theorem Course.register (hpast : Course empty past d₀) (hc : Course d₀ log d)
    (hbound : ∀ i, vacancies i log < 2 ^ 32) : Register d₀ log d :=
  hc.annals.register (.start (hpast.annals.tidy empty_tidy)) hbound

/-- From any document that a program comes by, as long as no slot is vacated `2 ^ 32` times: what is
given out is given out once, and was not live before; and a handle that was live, or was given out, and
is dead by now stays dead, and reads as the vacant node. -/
theorem Course.handles_once (hpast : Course empty past d₀) (hnow : Course d₀ log d₁)
    (hlater : Course d₁ log' d₂) (hbound : ∀ i, vacancies i (log ++ log') < 2 ^ 32) :
    (allocations (log ++ log')).Nodup ∧
      (∀ h ∈ allocations (log ++ log'), d₀.contains h = false) ∧
      ∀ h, d₀.contains h = true ∨ h ∈ allocations log → d₁.contains h = false →
        d₂.contains h = false ∧ d₂.node h = d₂.vacant := by
  have hbound₁ : ∀ i, vacancies i log < 2 ^ 32 := by
    intro i
    have hi := hbound i
    rw [vacancies_append] at hi
    omega
  have hr₁ := hpast.register hnow hbound₁
  have hr₂ := hlater.annals.register hr₁ hbound
  refine ⟨hr₂.nodup, hr₂.fresh, fun h hh hdead => ?_⟩
  have hspent := (hr₁.spent hh hdead).mono log'
  have hgone := hr₂.not_contains_of_spent hbound hspent
  refine ⟨hgone, ?_⟩
  rw [contains, Option.isSome_eq_false_iff, Option.isNone_iff_eq_none] at hgone
  rw [node, hgone, Option.getD_none]

/-- An element is made and removed; the next one takes its slot, but not its handle. -/
theorem Course.handles_once_reused :
    ∃ log log' d₁ d₂, Course empty log d₁ ∧ Course d₁ log' d₂ ∧
      (∀ i, vacancies i (log ++ log') < 2 ^ 32) ∧ d₂.contains ⟨1, 1⟩ = true ∧
      (allocations (log ++ log')).Nodup ∧ d₂.contains ⟨1, 0⟩ = false ∧
      d₂.node ⟨1, 0⟩ = d₂.vacant := by
  have hmade := (Course.start empty).step (.createElement empty "ul")
  have hremoved := hmade.step (.remove _ ⟨1, 0⟩)
  have hlater := (Course.start _).step
    (.createElement ((empty.createElement "ul").2.remove ⟨1, 0⟩) "ol")
  have hbound : ∀ i : Nat, vacancies i ([.allocated ⟨1, 0⟩, .vacated ⟨1, 0⟩, .allocated ⟨1, 1⟩]) <
      2 ^ 32 := by
    intro i
    exact Nat.lt_of_le_of_lt List.countP_le_length (by decide)
  have hhandles := Course.handles_once (Course.start empty) hremoved hlater hbound
  obtain ⟨hdead, hvacant⟩ := hhandles.2.2 ⟨1, 0⟩ (Or.inr (List.mem_singleton_self _)) rfl
  exact ⟨_, _, _, _, hremoved, hlater, hbound, rfl, hhandles.1, hdead, hvacant⟩

/-! ### The bound -/

/-- An element that is removed at once only takes its slot and leaves it. -/
theorem remove_createElement (ht : d.Tidy) (hroot : d.contains root = true) (tag : String) :
    (d.createElement tag).2.remove (d.createElement tag).1 =
        d.revolved (Node.new (.element tag [])) ∧
      (d.createElement tag).2.removeEvents (d.createElement tag).1 =
        [.vacated (d.createElement tag).1] := by
  have hlive : (d.createElement tag).2.get? (d.createElement tag).1 =
      some (Node.new (.element tag [])) := by
    rw [createElement, get?_alloc ht, if_pos rfl]
  have hne : (d.createElement tag).1 ≠ root := by
    intro heq
    have hfresh := get?_fst_alloc ht (Node.new (.element tag []))
    rw [show (d.alloc (Node.new (.element tag []))).1 = root from heq] at hfresh
    simp [contains, hfresh] at hroot
  have hreach : (d.createElement tag).2.reach = (d.createElement tag).2.slots.size + 1 := rfl
  constructor
  · rw [remove, hlive]
    dsimp only
    rw [if_neg hne, if_neg (by simp [Node.new]), release, hreach, releaseWithin, hlive]
    rfl
  · rw [removeEvents, hlive]
    dsimp only
    rw [if_neg hne, if_neg (by simp [Node.new]), releaseEvents, hreach, releaseEventsWithin, hlive]
    rfl

/-- Elements are made and removed one after another. -/
theorem course_revolved (tag : String) (k : Nat) :
    ((revolved · (Node.new (.element tag [])))^[k] empty).Tidy ∧
      ((revolved · (Node.new (.element tag [])))^[k] empty).contains root = true ∧
      ∃ log, Course empty log ((revolved · (Node.new (.element tag [])))^[k] empty) ∧
        (∀ i, vacancies i log ≤ k) ∧ (0 < k → (empty.createElement tag).1 ∈ allocations log) := by
  induction k with
  | zero => exact ⟨empty_tidy, rfl, [], .start empty, fun i => Nat.le_refl 0, by simp⟩
  | succ k ih =>
    rw [Function.iterate_succ_apply']
    generalize hd : (revolved · (Node.new (.element tag [])))^[k] empty = d at ih
    obtain ⟨ht, hroot, log, hcourse, hcount, hfirst⟩ := ih
    obtain ⟨hremove, hevents⟩ := remove_createElement ht hroot tag
    have hround := (hcourse.step (.createElement d tag)).step (.remove _ (d.createElement tag).1)
    rw [hremove, hevents] at hround
    refine ⟨revolved_tidy ht _, ?_, _, hround, fun i => ?_, fun _ => ?_⟩
    · have hlive : (d.alloc (Node.new (.element tag []))).2.get?
          (d.alloc (Node.new (.element tag []))).1 = some (Node.new (.element tag [])) := by
        rw [get?_alloc ht, if_pos rfl]
      have hne : root ≠ (d.alloc (Node.new (.element tag []))).1 := by
        intro heq
        rw [contains, heq, get?_fst_alloc ht] at hroot
        simp at hroot
      rw [contains, revolved, get?_vacate hlive, if_neg hne, get?_alloc ht, if_neg hne]
      exact hroot
    · rw [vacancies_append, vacancies_append, vacancies_allocated, vacancies_vacated]
      have hi := hcount i
      split <;> omega
    · rw [allocations_append, allocations_append, allocations_allocated]
      cases k with
      | zero =>
        obtain rfl : d = empty := hd.symm
        simp
      | succ k => simp [hfirst (Nat.succ_pos k)]

/-- With the last vacancy that the bound rules out, a handle is given out twice. -/
theorem exists_course_of_all_generations :
    ∃ log d, Course empty log d ∧ (∀ i, vacancies i log ≤ 2 ^ 32) ∧ ¬ (allocations log).Nodup := by
  obtain ⟨-, -, log, hcourse, hcount, hfirst⟩ := course_revolved "a" (2 ^ 32)
  refine ⟨_, _, hcourse.step (.createElement _ "a"), fun i => ?_, ?_⟩
  · rw [vacancies_append, vacancies_allocated]
    exact hcount i
  · rw [allocations_append, allocations_allocated, createElement,
      alloc_after_all_generations empty_tidy, List.nodup_append']
    exact fun hnodup => hnodup.2.2 (hfirst (by decide)) (List.mem_singleton_self _)

end Document

end TreeTemplate
