import TreeTemplate.Proofs.Render.Frame
import TreeTemplate.Proofs.Render.Round
import TreeTemplate.Proofs.Termination

/-!
Templates that are lists.  A copy of a template carries the list position that the template has on
record, and what a list makes of the copy goes by that position: an include node gives way to the
instances that are left over from it (`Stage.included_list`).  These are the whole list if the template
was never made an instance, or is the last one at position 0 (`ListChange.positions_eq_row_iff`).
-/

namespace TreeTemplate

open Document (Regrown)

namespace ListChange

variable {d : Document} {home : Option Handle} {t : NodeTree} {count : Nat} {marker? : Option Marker}

/-- The positions on record at the nodes that a list leaves in the place of a node. -/
def positions (count : Nat) : ListChange → List (Option Marker)
  | conceal => [some (.ofIndex 0 1)]
  | discard => []
  | change => Marker.row (change.extent count).1 (change.extent count).2 count

theorem map_marker_stamped (count first : Nat) (us : List NodeTree) :
    (NodeTree.stamped count first us).map (fun u => u.record.marker?) =
      Marker.row first us.length count := by
  induction us generalizing first with
  | nil => rfl
  | cons u us ih =>
    rw [NodeTree.stamped, List.map_cons, ih, List.length_cons, Marker.row_succ, NodeTree.marked,
      NodeTree.record_retop]

/-- A node other than the root gives way to trees with these positions. -/
theorem exists_apply_positions (change : ListChange) (count : Nat) (hs : d.Seated home [t])
    (ht : d.Tidy) (hroot : t.handle ≠ Document.root) :
    ∃ us, Regrown d (change.apply t.handle count d).2 home [t] us ∧
      us.map (fun u => u.record.marker?) = change.positions count := by
  by_cases hconceal : change = conceal
  · subst hconceal
    exact ⟨_, (conceal_regrown count hs ht).2, by simp [positions, NodeTree.shown, NodeTree.marked]⟩
  by_cases hdiscard : change = discard
  · subst hdiscard
    exact ⟨[], (Document.remove_regrown hs ht hroot).2, rfl⟩
  obtain ⟨-, us, hlength, -, -, hregrown⟩ := apply_regrown count hs ht hconceal hdiscard
  refine ⟨_, hregrown, ?_⟩
  rw [map_marker_stamped, hlength]
  cases change with
  | conceal => exact absurd rfl hconceal
  | discard => exact absurd rfl hdiscard
  | spread | grow index | keep index => rfl

/-- The whole list stands there just for a node that carries no position, or position 0 and is the last
instance or the only one that is wanted. -/
theorem positions_eq_row_iff :
    (ListChange.of marker? count).positions count = Marker.row 0 (max 1 count) (max 1 count) ↔
      ∀ m ∈ marker?, m.index = 0 ∧ (m.isLast = true ∨ count ≤ 1) := by
  rcases Nat.eq_zero_or_pos count with rfl | hpos
  · cases marker? with
    | none => simp [ListChange.of, positions, Marker.row]
    | some m =>
      by_cases hindex : m.index = 0 <;> simp [ListChange.of, positions, Marker.row, hindex]
  have hne : count ≠ 0 := by omega
  rw [Nat.max_eq_right hpos]
  cases marker? with
  | none => simp [ListChange.of, positions, extent, hne, Nat.sub_add_cancel hpos]
  | some m =>
    have hrow : ∀ {first length : Nat}, Marker.row first length count = Marker.row 0 count count →
        length = count := fun h => by simpa [Marker.length_row] using congrArg List.length h
    simp only [ListChange.of, hne, if_false, Option.mem_some_iff, forall_eq']
    split
    · next hgrow =>
      simp only [Bool.and_eq_true, decide_eq_true_eq] at hgrow
      simp only [positions, extent, hgrow.1, true_or, and_true]
      refine ⟨fun h => ?_, fun hindex => ?_⟩
      · have := hrow h
        omega
      · rw [hindex, Nat.sub_zero, Nat.sub_add_cancel hpos]
    next hgrow =>
    split
    · next hlt =>
      simp only [positions, extent]
      constructor
      · intro h
        have := hrow h
        omega
      · rintro ⟨hindex, hlast⟩
        have hone : count = 1 := by
          rcases hlast with hlast | hle
          · simp only [hlast, Bool.true_and, decide_eq_true_eq] at hgrow
            omega
          · omega
        rw [hindex, hone]
    · next hlt =>
      refine ⟨fun h => ?_, fun h => by omega⟩
      have := congrArg List.length h
      simp [positions, Marker.length_row] at this
      omega

/-- A copy of the first of several instances stays alone, whatever the list is now. -/
example : (ListChange.of (some ⟨0, false⟩) 3).positions 3 = [some ⟨0, false⟩] := rfl

end ListChange

namespace Templates

/-- A copy of a template has the position of the template on record, and the binding set that a look at
the template finds. -/
theorem clone_carries {s : Scan} {t : Handle} {m : Node} (templates : Templates)
    (hd : s.document.Forest) (hb : s.bindings.Sound) (hm : s.document.get? t = some m) :
    ∃ m', (templates.clone s t).2.document.get? (templates.clone s t).1 = some m' ∧
      m'.parent? = none ∧ m'.marker? = m.marker? ∧
      (templates.clone s t).2.bindings.setOf? m' = some (s.lookup t).1 := by
  obtain ⟨ks, hs⟩ := hd.seated hm
  obtain ⟨t', hadvanced, hprimed, -, hset⟩ := Scan.prime_spec hs hd.tidy hb
  rw [NodeTree.handle_node] at hadvanced hset
  have hheld : (s.prime t).document.Holds t' := hadvanced.regrown.held _ (List.mem_singleton_self _)
  obtain ⟨-, u, hu, halike, hg⟩ := Document.deepClone_grown hadvanced.tidy hheld
  have hhandle : t'.handle = t := hprimed.handle_eq
  rw [hhandle] at hu hg
  have huu := List.mem_singleton_self u
  have hcopy := (hg.held u huu).get?_handle
  rw [hu] at hcopy
  have hfree := hg.parents u huu
  obtain ⟨_, n₁, _⟩ := t'
  obtain ⟨_, n₂, _⟩ := u
  obtain ⟨hrecord, -⟩ := hprimed
  obtain ⟨hrecord', -⟩ := halike
  have hmarker : n₂.marker? = n₁.marker? := by
    simpa [Node.unlinked] using congrArg Node.marker? hrecord'
  have href : n₂.bindingRef? = n₁.bindingRef? := by
    simpa [Node.unlinked] using congrArg Node.bindingRef? hrecord'
  have hmarker' : n₁.marker? = m.marker? := by
    rcases hrecord with rfl | ⟨-, r, rfl⟩ <;> rfl
  rw [NodeTree.record_node] at hset hcopy hfree
  unfold clone
  dsimp only
  refine ⟨_, (Document.removeAttribute_rewritten hcopy templates.idAttribute).get?_self, hfree,
    hmarker.trans hmarker', ?_⟩
  rw [← hset]
  exact BindingCache.setOf?_congr _ href

end Templates

/-- In the document `d'` the nodes `run` stand where `x` stands below `p` in `d`. -/
def Document.Supplants (d d' : Document) (p x : Handle) (run : List Handle) : Prop :=
  ∃ k k' pre post, d.get? p = some k ∧ k.children = pre ++ x :: post ∧ d'.get? p = some k' ∧
    k'.children = pre ++ run ++ post

/-- What stands for a node may give way in its turn. -/
theorem Document.Supplants.trans {d d₁ d₂ : Document} {p x c : Handle} {run : List Handle}
    (h : d.Supplants d₁ p x [c]) (h' : d₁.Supplants d₂ p c run) (hd : d₁.Links) :
    d.Supplants d₂ p x run := by
  obtain ⟨k, k₁, pre, post, hk, hchildren, hk₁, hchildren₁⟩ := h
  obtain ⟨k₁', k₂, pre', post', hk₁', hchildren₁', hk₂, hchildren₂⟩ := h'
  obtain rfl := Option.some.inj (hk₁.symm.trans hk₁')
  have hnodup := hd.nodup p k₁ hk₁
  rw [hchildren₁, List.append_assoc, List.singleton_append, List.nodup_middle, List.nodup_cons,
    List.mem_append, not_or] at hnodup
  rw [hchildren₁, List.append_assoc, List.singleton_append] at hchildren₁'
  obtain ⟨rfl, -, rfl⟩ :=
    (List.append_cons_inj_of_notMem hnodup.1.1 hnodup.1.2).mp hchildren₁'
  exact ⟨k, k₂, pre, post, hk, hchildren, hk₂, hchildren₂⟩

/-- Records may change before. -/
theorem Document.Unmoved.supplants {d d₁ d₂ : Document} {p x : Handle} {run : List Handle}
    (hu : d.Unmoved d₁) (h : d₁.Supplants d₂ p x run) : d.Supplants d₂ p x run := by
  obtain ⟨k₁, k₂, pre, post, hk₁, hchildren, hk₂, hchildren₂⟩ := h
  obtain ⟨k, hk, hlinks⟩ := hu.get?_before hk₁
  exact ⟨k, k₂, pre, post, hk, (congrArg Prod.snd hlinks).trans hchildren, hk₂, hchildren₂⟩

namespace Stage

variable {plan : Plan} {s : Stage} {id : ContextId} {p t x : Handle} {m : Node} {reference : String}

/-- On the stage `s'` a copy of the template `t` stands below `p` in the place of `x`, as a node that is
next to be placed. -/
structure Transcluded (s : Stage) (p x t copy : Handle) (m : Node) (s' : Stage) : Prop where
  forest : s'.document.Forest
  pool : s'.pool = s.pool
  supplants : s.document.Supplants s'.document p x [copy]
  carries : ∃ m', s'.document.get? copy = some m' ∧ m'.parent? = some p ∧ m'.marker? = m.marker? ∧
    s'.bindings.setOf? m' = some (s.bindingsOf t).1

theorem resolveTemplate_of_named (hreference : reference ≠ "")
    (hfound : plan.templates.named? s.document reference = some t) :
    s.resolveTemplate plan reference =
      (some (plan.templates.clone s.toScan t).1,
        { s with toScan := (plan.templates.clone s.toScan t).2 }) := by
  have hempty : reference.isEmpty = false := by simpa using hreference
  simp only [resolveTemplate, findTemplate, Templates.find, hempty, hfound, cloneTemplate]
  rfl

/-- Including a template that the document holds. -/
theorem exists_transcluded (hd : s.document.Forest) (hb : s.bindings.Sound)
    (hpx : s.document.ParentOf p x) (hreference : reference ≠ "")
    (hfound : plan.templates.named? s.document reference = some t)
    (hm : s.document.get? t = some m) (id : ContextId) :
    ∃ copy s', s.transclude plan id x reference = (s', [[.place id copy]]) ∧
      Transcluded s p x t copy m s' := by
  obtain ⟨n, hn, hparent⟩ := hpx
  have hc := Templates.clone_copies plan.templates (s := s.toScan) hd hm
  have hk := Templates.clone_retains plan.templates (s := s.toScan) hd hm
  have hcarries := Templates.clone_carries plan.templates (s := s.toScan) hd hb hm
  unfold transclude
  rw [resolveTemplate_of_named hreference hfound]
  generalize plan.templates.clone s.toScan t = c at hc hk hcarries ⊢
  obtain ⟨copy, scan⟩ := c
  obtain ⟨m', hm', hfree, hmarker, hset⟩ := hcarries
  obtain ⟨n₁, hn₁, hn₁n⟩ := hk x n hn
  have hparent₁ := (Node.parent_of_unscanned hn₁n).trans hparent
  have habove := hd.links.not_above_of_fresh hc.kept hc.fresh ⟨n, hn⟩
  have hyields := Document.Yields.exchange hd hn hc.kept hc.forest hc.fresh hm' hfree
  obtain ⟨k₁, pre, post, hk₁, hchildren, -, -, hget⟩ :=
    hc.forest.links.get?_replace hm' hfree hn₁ habove hparent₁
  obtain ⟨k, hkp⟩ := hd.links.parent_live p x ⟨n, hn, hparent⟩
  obtain ⟨k₂, hk₂, hsame⟩ := hk p k hkp
  obtain rfl := Option.some.inj (hk₁.symm.trans hk₂)
  have hpcopy : p ≠ copy := by
    rintro rfl
    exact habove (.single ⟨n₁, hn₁, hparent₁⟩)
  have hpx' : p ≠ x := by
    rintro rfl
    exact hd.links.acyclic _ (.single ⟨n, hn, hparent⟩)
  refine ⟨copy, _, rfl, hyields.forest, rfl, ⟨k, { k₁ with children := pre ++ copy :: post }, pre,
    post, hkp, ?_, ?_, by simp⟩, { m' with parent? := some p }, ?_, rfl, hmarker, hset⟩
  · rw [← hchildren, Node.children_of_unscanned hsame]
  · simp only [edit]
    rw [hget, if_neg hpcopy, if_neg hpx', if_pos rfl]
  · simp only [edit]
    rw [hget, if_pos rfl]

/-- An include node below `p` whose template selects a list gives way, in two steps, to the nodes that the
list leaves in the place of a node with the position of the template. -/
theorem included_list {e : Evaluator} {items : List Value} {s₁ : Stage} (hd : s.document.Forest)
    (hb : s.bindings.Sound) (hpx : s.document.ParentOf p x) (hreference : reference ≠ "")
    (hfound : plan.templates.named? s.document reference = some t)
    (hm : s.document.get? t = some m) (hinclude : (s.bindingsOf t).1.include? = none)
    (hselect : (s.bindingsOf t).1.select? = some e)
    (heval : s.execute? id e = some (.array items, s₁)) :
    ∃ copy s₂ run, s.transclude plan id x reference = (s₂, [[.place id copy]]) ∧
      s.document.Supplants (s₂.placeNode plan id copy).1.document p x run ∧
      (s₂.placeNode plan id copy).1.document.markers run =
        (ListChange.of m.marker? items.length).positions items.length := by
  obtain ⟨copy, s₂, htransclude, hincluded⟩ :=
    exists_transcluded hd hb hpx hreference hfound hm id
  obtain ⟨m', hm', hparent, hmarker, hset⟩ := hincluded.carries
  have hroot : copy ≠ Document.root := by
    rintro rfl
    exact hincluded.forest.links.not_parentOf_root ⟨m', hm', hparent⟩
  obtain ⟨ks, hs⟩ := hincluded.forest.seated hm'
  rw [hparent] at hs
  obtain ⟨us, hregrown, hpositions⟩ := (ListChange.of m.marker? items.length).exists_apply_positions
    items.length hs hincluded.forest.tidy hroot
  have hlook : s₂.bindingsOf copy = ((s.bindingsOf t).1, s₂) := by
    rw [bindingsOf, Scan.lookup_of_setOf? (by rw [Document.node_of_get? hm', hset])]
  obtain ⟨c, hc, hce⟩ := Option.map_eq_some_iff.mp heval
  have hplaced : (s₂.placeNode plan id copy).1.document =
      ((ListChange.of m.marker? items.length).apply copy items.length s₂.document).2 := by
    have hvalue : (c.execute e).1 = .array items := congrArg Prod.fst hce
    simp only [placeNode, hlook, hinclude, hselect, execute?, hincluded.pool, hc, Option.map_some,
      hvalue, select, selectList, Document.node_of_get? hm', hmarker]
    rfl
  rw [NodeTree.handle_node] at hregrown
  refine ⟨copy, s₂, us.map NodeTree.handle, htransclude, ?_⟩
  rw [hplaced]
  refine ⟨hincluded.supplants.trans ?_ hincluded.forest.links, ?_⟩
  · obtain ⟨k, hk⟩ := hs.home_live rfl
    obtain ⟨pre, post, hchildren⟩ := hs.listed p rfl k hk
    exact ⟨k, _, pre, post, hk, by simpa using hchildren, hregrown.siblings p rfl k pre post hk hchildren,
      rfl⟩
  · rw [← hpositions, Document.markers, List.map_map]
    refine List.map_congr_left fun u hu => ?_
    rw [Function.comp_apply, Document.node_of_get? (hregrown.held u hu).get?_handle]

end Stage

/-- At every point of a render: once an include node that is to be placed was looked at, it gives way to
what the list makes of a node with the position of the template. -/
theorem Engine.Reaches.included_list {e : Engine} {s s' s₁ : Stage} {data : Value}
    {parent? : Option Value} {node p t x : Handle} {inPlace : Bool} {log : List (Stage × Step)}
    {w : WorkStack Step} {n m : Node} {id : ContextId} {reference : String} {items : List Value}
    {set : BindingSet} {evaluator : Evaluator}
    (h : e.Reaches s data parent? node inPlace log w s') (hd : s.document.Forest)
    (hb : s.bindings.Sound) (hn : s.document.get? node = some n)
    (hlook : s'.bindingsOf x = (set, s₁)) (hinclude : set.include? = some (.literal reference))
    (hpx : s'.document.ParentOf p x) (hreference : reference ≠ "")
    (hfound : e.templates.named? s₁.document reference = some t)
    (hm : s₁.document.get? t = some m) (hplain : (s₁.bindingsOf t).1.include? = none)
    (hselect : (s₁.bindingsOf t).1.select? = some evaluator)
    (heval : (s₁.execute? id evaluator).map Prod.fst = some (.array items)) :
    ∃ copy s₂ run, Stage.act (e.plan inPlace) s' (.place id x) = (s₂, [[.place id copy]]) ∧
      s'.document.Supplants (Stage.act (e.plan inPlace) s₂ (.place id copy)).1.document p x run ∧
      (Stage.act (e.plan inPlace) s₂ (.place id copy)).1.document.markers run =
        (ListChange.of m.marker? items.length).positions items.length := by
  have hunmoved := Stage.bindingsOf_unmoved s' x
  have hsound := Stage.bindingsOf_sound (h.bindings_sound hb) x
  rw [hlook] at hunmoved hsound
  obtain ⟨⟨_, s₂⟩, heval, rfl⟩ := Option.map_eq_some_iff.mp heval
  have hfound : (e.plan inPlace).templates.named? s₁.document reference = some t := hfound
  obtain ⟨copy, s₂, run, htransclude, hsupplants, hmarkers⟩ := Stage.included_list
    ((h.ranged hd hn).1.forest.unmoved hunmoved) hsound (hunmoved.parentOf_iff.mpr hpx) hreference
    hfound hm hplain hselect heval
  refine ⟨copy, s₂, run, ?_, hunmoved.supplants hsupplants, hmarkers⟩
  rw [← htransclude]
  simp only [Stage.act, Stage.step, Stage.placeNode, hlook, hinclude, Stage.reference?]

end TreeTemplate
