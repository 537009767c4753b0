import TreeTemplate.Proofs.Render.Frame

/-!
What becomes of identities.  A render that is not in place takes the identity off a node when it fills it,
and bindings give it back only by `id` or `idexpr`, or by a label of `values` with the name of the attribute
(`fillNode_nameless`).  A node that was filled is not touched again (`Nameless.act`), so it stays without
identity up to the end (`Engine.Reaches.nameless`).  Identities are taken off nowhere else: inside a node
whose children are not visited they stay.
-/

namespace TreeTemplate

open Document (root)

variable {d : Document} {n n' : Node} {x node : Handle} {name idAttribute : String} {set : BindingSet}
  {c : Context}

/-! ### Changes that leave an attribute alone -/

namespace Node

theorem attribute?_erase (h : n.content.Orderly) (name : String) :
    { n with content := n.content.erase name }.attribute? name = none := by
  unfold attribute? Content.erase
  cases hcontent : n.content with
  | element tag attributes =>
    rw [hcontent] at h
    exact Dict.get?_eq_none_iff.mpr (Dict.not_mem_keys_erase h)
  | root | text s | comment s => rfl

theorem attribute?_put {other : String} (h : other ≠ name) (n : Node) (value : String) :
    { n with content := n.content.put other value }.attribute? name = n.attribute? name := by
  unfold attribute? Content.put
  cases n.content with
  | element tag attributes =>
    dsimp only
    rw [Dict.get?_put, if_neg (Ne.symm h)]
  | root | text s | comment s => rfl

theorem attribute?_putValue {other : String} (h : other ≠ name) (n : Node) (v : Value) :
    { n with content := n.content.putValue other v }.attribute? name = n.attribute? name := by
  cases v with
  | bool b =>
    cases b with
    | true => exact attribute?_put h n other
    | false =>
      unfold attribute? Content.putValue Content.erase
      cases n.content with
      | element tag attributes => exact Dict.get?_erase_of_ne (Ne.symm h)
      | root | text s | comment s => rfl
  | null | number _ | string _ | array _ | object _ => exact attribute?_put h n _

end Node

/-- The change leaves the attribute alone. -/
def Edit.Avoids (name : String) : Edit → Prop
  | identity other _ => other ≠ name
  | value other _ => other ≠ name
  | _ => True

theorem Node.attribute?_edited {edits : List Edit} (h : ∀ e ∈ edits, e.Avoids name) (n : Node) :
    (n.edited edits).attribute? name = n.attribute? name := by
  induction edits generalizing n with
  | nil => rfl
  | cons e rest ih =>
    rw [List.forall_mem_cons] at h
    refine (ih h.2 (e.record n)).trans ?_
    cases e with
    | identity other id => exact attribute?_put h.1 n id
    | value other v => exact attribute?_putValue h.1 n v
    | property path v => rfl
    | data other v => rfl
    | visible v => rfl

structure BindingSet.Anonymous (idAttribute : String) (set : BindingSet) : Prop where
  id : set.id? = none
  idExpr : set.idExpr? = none
  values : ∀ entry ∈ set.values?.getD [], entry.1 ≠ idAttribute

theorem Context.labels_readings (bind : Context → String → Value → Context) (es : Labelled)
    (c : Context) : (c.readings bind es).1.map Prod.fst = es.map Prod.fst := by
  induction es generalizing c with
  | nil => rfl
  | cons entry rest ih => exact congrArg _ (ih _)

namespace Survey

theorem valueEdits_avoid {p : String × Value} (h : p.1 ≠ name) : ∀ e ∈ valueEdits p, e.Avoids name := by
  unfold valueEdits
  split
  · simp
  · simp
  · simp [Edit.Avoids]
  · simpa [Edit.Avoids] using h

theorem assign_avoids (h : set.Anonymous name) (callbacks : List Callback) (c : Context) :
    ∀ e ∈ (assign set callbacks c).1, e.Avoids name := by
  intro e he
  rcases List.mem_append.mp he with he | he
  · obtain ⟨p, hp, he⟩ := List.mem_flatMap.mp he
    have hlabel := List.mem_map_of_mem (f := Prod.fst) hp
    rw [Context.labels_readings] at hlabel
    obtain ⟨entry, hentry, heq⟩ := List.mem_map.mp hlabel
    exact valueEdits_avoid (heq ▸ h.values entry hentry) e he
  · obtain ⟨p, -, rfl⟩ := List.mem_map.mp he
    trivial

end Survey

/-- Bindings that give no identity ask for no change of it. -/
theorem survey_avoids (h : set.Anonymous idAttribute) (callbacks : List Callback) (c : Context) :
    ∀ e ∈ (survey idAttribute set callbacks c).edits, e.Avoids idAttribute := by
  have hidentity : ∀ e ∈ (Survey.identity idAttribute set c).1, e.Avoids idAttribute := by
    simp [Survey.identity, h.id, h.idExpr]
  have hgate : ∀ c, ∀ e ∈ (Survey.gate set c).2.1, e.Avoids idAttribute := by
    intro c
    unfold Survey.gate
    split <;> simp [Edit.Avoids]
  have hreveal : ∀ c, ∀ e ∈ (Survey.reveal set c).1, e.Avoids idAttribute := by
    intro c e he
    unfold Survey.reveal at he
    rcases List.mem_append.mp he with he | he
    · split at he <;> simp_all [Edit.Avoids]
    · split at he <;> simp_all [Edit.Avoids]
  unfold survey
  dsimp only
  split
  · simp only [List.forall_mem_append]
    exact ⟨⟨⟨hidentity, hgate _⟩, Survey.assign_avoids h callbacks _⟩, hreveal _⟩
  · simp only [List.forall_mem_append]
    exact ⟨hidentity, hgate _⟩

namespace Stage

variable {plan : Plan} {s s₁ : Stage} {context : ContextId} {steps : List Step} {st : Step}

/-! ### Filling -/

/-- A node with other content has the same attributes and the same parent. -/
theorem applyContent_record (hd : d.Forest) (hn : d.get? x = some n) (v : Value) (clear : Bool) :
    ∃ n', (d.applyContent x v clear).get? x = some n' ∧ n'.content = n.content ∧
      n'.parent? = n.parent? := by
  obtain ⟨ks, hs⟩ := hd.seated hn
  obtain ⟨-, ks', -, hr⟩ := Document.applyContent_regrown hs hd.tidy v clear
  exact ⟨_, (hr.held _ (List.mem_singleton_self _)).get?_handle, rfl, rfl⟩

/-- A node that is filled otherwise than in place loses its identity, if no binding gives it one. -/
theorem fillNode_nameless (hd : s.document.Forest) (hn : s.document.get? node = some n)
    (horderly : n.content.Orderly) (hplan : plan.inPlace = false)
    (hlive : (s.bindingsOf node).2.pool.get? context = some c)
    (hset : (s.bindingsOf node).1.Anonymous plan.templates.idAttribute) :
    ∃ n', (s.fillNode plan context node).1.document.get? node = some n' ∧
      n'.attribute? plan.templates.idAttribute = none ∧ n'.parent? = n.parent? := by
  have hseen := bindingsOf_retains s node
  have hunmoved := bindingsOf_unmoved s node
  unfold fillNode
  generalize s.bindingsOf node = b at hseen hunmoved hlive hset ⊢
  obtain ⟨set, s₁⟩ := b
  dsimp only at hseen hunmoved hlive hset ⊢
  rw [hlive, hplan]
  dsimp only
  rw [if_neg Bool.false_ne_true]
  generalize plan.templates.idAttribute = idAttribute at hset ⊢
  obtain ⟨n₀, hn₀, heq⟩ := hseen node n hn
  have hcontent : n₀.content = n.content := Node.content_of_unscanned heq
  have hstripped := Document.removeAttribute_rewritten hn₀ idAttribute
  have hmoved := hunmoved.trans (Document.removeAttribute_unmoved s₁.document node idAttribute)
  generalize s₁.document.removeAttribute node idAttribute = d₁ at hstripped hmoved ⊢
  obtain ⟨-, hdocument, -⟩ := Filling.fill_eq idAttribute set ⟨d₁, c, []⟩ hstripped.get?_self
  have havoids := survey_avoids hset n₀.callbacks c
  generalize survey idAttribute set _ c = v at hdocument havoids
  generalize (Filling.identify idAttribute set node ⟨d₁, c, []⟩).fill set node = r at hdocument ⊢
  have hedited := Document.edited_rewritten hstripped.get?_self v.edits
  have hmoved' := hmoved.trans (Document.edited_unmoved hstripped.get?_self v.edits)
  have hnone : (Node.edited { n₀ with content := n₀.content.erase idAttribute } v.edits).attribute?
      idAttribute = none :=
    (Node.attribute?_edited havoids _).trans (Node.attribute?_erase (hcontent ▸ horderly) _)
  have hparent : (Node.edited { n₀ with content := n₀.content.erase idAttribute } v.edits).parent? =
      n.parent? :=
    (Node.edited_links _ v.edits).1.trans (show n₀.parent? = n.parent? from Node.parent_of_unscanned heq)
  have hresult : ∃ n', r.2.document.get? node = some n' ∧ n'.attribute? idAttribute = none ∧
      n'.parent? = n.parent? := by
    rw [hdocument]
    cases v.verdict with
    | leave | descend => exact ⟨_, hedited.get?_self, hnone, hparent⟩
    | write value clear =>
      obtain ⟨n', hn', hsame, hsame'⟩ :=
        applyContent_record (hd.unmoved hmoved') hedited.get?_self value clear
      exact ⟨n', hn', (Node.attribute?_of_content hsame _).trans hnone, hsame'.trans hparent⟩
  obtain ⟨descends, f⟩ := r
  cases descends with
  | false => exact hresult
  | true => exact hresult

/-- What filling a node pushes are steps at its children. -/
theorem parentOf_of_mem_fillNode {y : Handle} (hd : s.document.Forest)
    (hn : s.document.get? node = some n) (hy : y ∈ targets (s.fillNode plan context node).2) :
    (s.fillNode plan context node).1.document.ParentOf node y := by
  have hlinks := (fillNode_yields hd hn plan context).forest.links
  obtain ⟨n₁, hn₁, -⟩ := (bindingsOf_unmoved s node).get?_after hn
  have hfilled := fillNode_filled hn plan context
  generalize s.fillNode plan context node = r at hfilled hlinks hy ⊢
  cases hfilled with
  | left _ _ | written _ _ _ _ => simp [targets] at hy
  | @opened s' edits hdocument =>
    have hn₂ := (Document.edited_rewritten hn₁ edits).get?_self
    rw [← hdocument] at hn₂
    obtain ⟨z, hz, rfl⟩ : ∃ z ∈ s'.document.elementChildren node, z = y := by
      simpa [targets, Step.node?] using hy
    rw [Document.elementChildren, Document.node_of_get? hn₂] at hz
    exact (hlinks.mem_children hn₂).mp (List.mem_filter.mp hz).1

/-! ### From then on -/

/-- The step fills the node, in a live context and with bindings that give no identity. -/
inductive FillsNameless (plan : Plan) (s : Stage) (x : Handle) : Step → Prop
  | fill {context : ContextId} {c : Context} (hlive : (s.bindingsOf x).2.pool.get? context = some c)
    (hset : (s.bindingsOf x).1.Anonymous plan.templates.idAttribute) :
    FillsNameless plan s x (.fill context x)
  | place {context : ContextId} {c : Context} (hinclude : (s.bindingsOf x).1.include? = none)
    (hselect : (s.bindingsOf x).1.select? = none)
    (hlive : ((s.bindingsOf x).2.bindingsOf x).2.pool.get? context = some c)
    (hset : ((s.bindingsOf x).2.bindingsOf x).1.Anonymous plan.templates.idAttribute) :
    FillsNameless plan s x (.place context x)

/-- The node has no identity, and none of the steps that wait is at it or above it. -/
structure Nameless (idAttribute : String) (s : Stage) (steps : List Step) (x : Handle) : Prop where
  bare : ∃ n, s.document.get? x = some n ∧ n.attribute? idAttribute = none
  past : ∀ y ∈ steps.filterMap Step.node?, ¬ s.document.Above y x

theorem FillsNameless.act_eq (h : FillsNameless plan s x st) :
    st.node? = some x ∧ ∃ (s₁ : Stage) (context : ContextId) (c : Context),
      act plan s st = s₁.fillNode plan context x ∧
      Document.Retains s.document s₁.document ∧ Document.Unmoved s.document s₁.document ∧
      (s₁.bindingsOf x).2.pool.get? context = some c ∧
      (s₁.bindingsOf x).1.Anonymous plan.templates.idAttribute := by
  cases h with
  | fill hlive hset => exact ⟨rfl, s, _, _, rfl, .refl, .refl, hlive, hset⟩
  | place hinclude hselect hlive hset =>
    refine ⟨rfl, (s.bindingsOf x).2, _, _, ?_, bindingsOf_retains s x, bindingsOf_unmoved s x, hlive, hset⟩
    simp only [act, step, placeNode, hinclude, hselect]

/-- A node that is filled has no identity afterwards, and the render is done with it. -/
theorem FillsNameless.nameless (hr : Ranged s (st :: steps)) (hplan : plan.inPlace = false)
    (hn : s.document.get? x = some n) (horderly : n.content.Orderly) (h : FillsNameless plan s x st) :
    Nameless plan.templates.idAttribute (act plan s st).1
      ((act plan s st).2.reverse.flatten ++ steps) x := by
  obtain ⟨hnode, s₁, context, c, heq, hseen, hunmoved, hlive, hset⟩ := h.act_eq
  have hyields := act_yields hr.forest hnode hn plan
  have hscattered := hr.scattered
  rw [List.filterMap_cons_some hnode] at hscattered
  rw [heq] at hyields ⊢
  obtain ⟨n₁, hn₁, hsame⟩ := hseen x n hn
  obtain ⟨n', hn', hnone, hparent⟩ := fillNode_nameless (hr.forest.unmoved hunmoved) hn₁
    (Node.content_of_unscanned hsame ▸ horderly) hplan hlive hset
  refine ⟨⟨n', hn', hnone⟩, fun y hy habove => ?_⟩
  rw [List.filterMap_append, List.mem_append] at hy
  rcases hy with hy | hy
  · exact hyields.forest.links.not_above
      (parentOf_of_mem_fillNode (hr.forest.unmoved hunmoved) hn₁ hy) habove
  · obtain ⟨hxy, hyx⟩ := (List.pairwise_cons.mp hscattered.apart).1 y hy
    rcases Document.above_iff.mp habove with rfl | ⟨p, hpx, hyp⟩
    · exact hxy .refl
    · have hpx' : s.document.ParentOf p x := by
        rw [Document.parentOf_iff, hn', Option.bind_some, hparent, Node.parent_of_unscanned hsame] at hpx
        rwa [Document.parentOf_iff, hn, Option.bind_some]
      have hlinks := hr.forest.links
      have hyp' := (hlinks.above_iff_of_spared hyields.spared (hlinks.not_above hpx')
        (hlinks.parent_live _ _ hpx')).mp hyp
      exact hyx (hyp'.tail hpx')

/-- A step leaves a node alone that the render is done with. -/
theorem Nameless.act (hr : Ranged s (st :: steps)) (hloader : plan.loader? = none)
    (h : Nameless idAttribute s (st :: steps) x) :
    Nameless idAttribute (act plan s st).1 ((act plan s st).2.reverse.flatten ++ steps) x := by
  cases hnode : st.node? with
  | none =>
    cases st with
    | place context y => simp [Step.node?] at hnode
    | fill context y => simp [Step.node?] at hnode
    | release context => exact ⟨h.bare, h.past⟩
  | some node =>
    obtain ⟨n, hn, hnone⟩ := h.bare
    have hpast := h.past
    have hscattered := hr.scattered
    rw [List.filterMap_cons_some hnode] at hpast hscattered
    rw [List.forall_mem_cons] at hpast
    obtain ⟨m, hm⟩ := hscattered.head_live
    have hlinks := hr.forest.links
    have hspares := act_spares hr.forest hnode hm hloader
    have hyields := act_yields hr.forest hnode hm plan
    obtain ⟨n', hn', run, hrelists⟩ := hspares x n hn hpast.1
    have hcontent : n'.content = n.content := by
      simpa [Node.unscanned] using congrArg Node.content hrelists
    refine ⟨⟨n', hn', (Node.attribute?_of_content hcontent _).trans hnone⟩, fun y hy habove => ?_⟩
    rw [hlinks.above_iff_of_spared hspares.keeps hpast.1 ⟨n, hn⟩] at habove
    rw [List.filterMap_append, List.mem_append] at hy
    rcases hy with hy | hy
    · rcases hyields.inside y hy with hfresh | hbelow
      · obtain ⟨k, hk⟩ := hlinks.live_of_above habove ⟨n, hn⟩
        simp [hfresh] at hk
      · exact hpast.1 (hbelow.trans habove)
    · exact hpast.2 y hy habove

end Stage

namespace Engine

variable {e : Engine} {s : Stage} {data : Value} {parent? : Option Value} {budget : Nat}

/-- Every node that a render without a loader has filled otherwise than in place, by bindings that give no
identity, has none at any later point of it. -/
theorem Reaches.nameless {log : List (Stage × Step)} {w : WorkStack Step} {s' : Stage}
    (h : e.Reaches s data parent? node false log w s') (hd : s.document.Forest)
    (hn : s.document.get? node = some n) (hloader : e.loader? = none) :
    ∀ p ∈ log, ∀ x m, p.1.document.get? x = some m → m.content.Orderly →
      Stage.FillsNameless (e.plan false) p.1 x p.2 →
        Stage.Nameless e.config.idAttribute s' w.pending x := by
  have hunmoved : Document.Unmoved s.document (e.begun s data parent? node).document :=
    Scan.prime_unmoved s.toScan node
  obtain ⟨n', hn', -⟩ := hunmoved.get?_after hn
  refine (h.invariant (fun log s₁ steps => Stage.Ranged s₁ steps ∧ ∀ p ∈ log, ∀ x m,
    p.1.document.get? x = some m → m.content.Orderly →
      Stage.FillsNameless (e.plan false) p.1 x p.2 →
        Stage.Nameless e.config.idAttribute s₁ steps x) ?_ ?_).2
  · exact ⟨⟨hd.unmoved hunmoved, .single hn'⟩, by simp⟩
  · rintro log s₁ st waiting ⟨hranged, hbefore⟩
    refine ⟨hranged.act (e.plan false), fun p hp x m hm horderly hfills => ?_⟩
    rcases List.mem_append.mp hp with hp | hp
    · exact (hbefore p hp x m hm horderly hfills).act hranged hloader
    · obtain rfl := List.mem_singleton.mp hp
      exact hfills.nameless hranged rfl hm horderly

/-- Inside a node that is not open nothing is filled, and identities stay: the copy of the first node has
lost both, that of the second one only its own. -/
example :
    let d := Document.plantAll .empty root
      [.element "div" [("id", "a")] [.element "p" [("id", "x")] []],
        .element "div" [("id", "b"), ("data-jst-if", "false")] [.element "p" [("id", "y")] []]]
    let copy := fun h => ((new 0 .default).renderClone 9 d .null h).map fun o =>
      o.document.outerMarkup o.value
    (d.elementChildren root).map copy =
      [some "<div><p></p></div>",
        some "<div data-jst-if=\"false\" style=\"display:none\"><p id=\"y\"></p></div>"] := by
  decide +kernel

end Engine

end TreeTemplate
