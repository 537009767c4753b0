import TreeTemplate.Proofs.Render.Bare
import TreeTemplate.Proofs.Render.Lineup
import TreeTemplate.Proofs.Render.Settling

/-!
A row of instances in a render.  The nodes of the row select the same value, one after another; the
record of the render tells what each of them selected and which nodes stand in its place
(`heirs`).
-/

namespace TreeTemplate

/-! ### Reading the record of a render -/

/-- The value that a node selects in a live context. -/
def Stage.selected? (s : Stage) (id : ContextId) (h : Handle) : Option Value :=
  (s.bindingsOf h).1.select?.bind fun e => (s.execute? id e).map (·.1)

/-- The first step that places a node: its context, and the stage that it is done on. -/
def placing? (log : List (Stage × Step)) (h : Handle) : Option (ContextId × Stage) :=
  log.findSome? fun entry =>
    match entry.2 with
    | .place id x => if x = h then some (id, entry.1) else none
    | _ => none

def selection? (log : List (Stage × Step)) (h : Handle) : Option Value :=
  (placing? log h).bind fun p => p.2.selected? p.1 h

/-- The nodes that stand in the place of a node after a render. -/
def heirs (log : List (Stage × Step)) (h : Handle) : List Handle :=
  match placing? log h, selection? log h with
  | some p, some v => p.2.standing h v
  | _, _ => [h]

section

variable {log log' : List (Stage × Step)} {h : Handle} {p : ContextId × Stage}

theorem placing?_append_of_some (hp : placing? log h = some p) :
    placing? (log ++ log') h = some p := by
  rw [placing?, List.findSome?_append, ← placing?, hp]
  rfl

theorem placing?_append_of_none (hnone : placing? log h = none) :
    placing? (log ++ log') h = placing? log' h := by
  rw [placing?, List.findSome?_append, ← placing?, hnone]
  rfl

theorem placing?_eq_none (hne : ∀ entry ∈ log, ∀ x ∈ entry.2.node?, x ≠ h) :
    placing? log h = none := by
  refine List.findSome?_eq_none_iff.mpr fun entry hentry => ?_
  obtain ⟨s, st⟩ := entry
  cases st with
  | place id x => exact if_neg (hne _ hentry x rfl)
  | fill _ _ | release _ => rfl

end

/-- Nothing shows or hides the node. -/
def BindingSet.Calm (set : BindingSet) : Prop :=
  set.gate? = none ∧ set.show? = none ∧ set.hide? = none

/-- Without a binding that shows or hides the node there is no such change. -/
theorem Survey.visibilities_eq_nil {set : BindingSet} (hcalm : set.Calm) (idAttribute : String)
    (callbacks : List Callback) (c : Context) :
    (survey idAttribute set callbacks c).edits.filterMap Edit.visibility? = [] := by
  obtain ⟨hgate, hshow, hhide⟩ := hcalm
  have hidentity : (identity idAttribute set c).1.filterMap Edit.visibility? = [] := by
    unfold identity
    split
    · rfl
    · dsimp only
      split <;> rfl
    · rfl
  have hvalues : ∀ p : String × Value, (valueEdits p).filterMap Edit.visibility? = [] := by
    intro p
    unfold valueEdits
    split <;> rfl
  have hassign : ∀ c, (assign set callbacks c).1.filterMap Edit.visibility? = [] := by
    intro c
    rw [assign, List.filterMap_append, List.append_eq_nil_iff]
    refine ⟨?_, ?_⟩
    · rw [List.filterMap_flatMap]
      exact List.flatMap_eq_nil_iff.mpr fun p _ => hvalues p
    · rw [List.filterMap_map]
      exact List.filterMap_eq_nil_iff.mpr fun _ _ => rfl
  have hreveal : ∀ c, (reveal set c).1 = [] := by
    intro c
    simp [reveal, hshow, hhide, Context.holds]
  simp [survey, gate, hgate, hidentity, hassign, hreveal]

namespace Sketch

/-- What stands for a node keeps the position that it was given, and it is shown as it was unless it is
filled and something shows or hides it. -/
theorem stand_eq (idAttribute : String) (visit : Context → List Sketch × Context) (set : BindingSet)
    (ks : List Sketch) (c : Context) (p : Face × Option Item) :
    ∃ f ks', stand idAttribute visit set ks c p = node set f ks' ∧ f.marker? = p.1.marker? ∧
      (p.2 = none ∨ set.Calm → f.visible = p.1.visible) := by
  obtain ⟨g, i?⟩ := p
  cases i? with
  | none => exact ⟨g, ks, rfl, rfl, fun _ => rfl⟩
  | some i =>
    have hedited := g.edited_eq (survey idAttribute set g.callbacks (c.within i)).edits
    have hmarker : (g.edited (survey idAttribute set g.callbacks (c.within i)).edits).marker? =
        g.marker? := by rw [hedited]
    have hvisible : some i = none ∨ set.Calm →
        (g.edited (survey idAttribute set g.callbacks (c.within i)).edits).visible = g.visible := by
      rintro (hnone | hcalm)
      · simp at hnone
      · rw [hedited, Survey.visibilities_eq_nil hcalm]
        rfl
    simp only [stand, fill]
    split <;> exact ⟨_, _, rfl, hmarker, hvisible⟩

end Sketch

namespace NodeTree

variable {b : BindingCache} {F : Registry → Prop} {u : NodeTree} {set : BindingSet} {f : Face}
  {ks : List Sketch}

theorem face_of_sketch_eq (h : u.sketch b = .node set f ks) : u.record.face = f := by
  obtain ⟨x, n, us⟩ := u
  rw [sketch_eq, Sketch.node.injEq] at h
  exact h.2.1

theorem Sighted.setOf?_of_sketch_eq (hu : Sighted b F u) (h : u.sketch b = .node set f ks) :
    b.setOf? u.record = some set := by
  obtain ⟨htop, -, -, -⟩ := hu
  rw [sketch_node htop, Sketch.node.injEq] at h
  rw [record_node, htop, h.1]

end NodeTree

namespace Stage

open NodeTree (Sighted handlesOf inside)

variable {plan : Plan} {b : BindingCache} {F : Registry → Prop} {s s' : Stage} {id : ContextId}
  {c c' : Context} {home : Option Handle} {ts us old new : List NodeTree} {t u : NodeTree}
  {h : Handle} {n : Node} {log log' : List (Stage × Step)} {set : BindingSet} {v : Value}
  {steps : List Step} {p : Face × Option Item} {ev : Evaluator}

/-- A visit places only nodes of its trees, and fresh ones. -/
theorem Visit.placing?_eq_none (hv : Visit plan F s s' id c home old new steps log)
    (hlive : s.document.get? h = some n) (hnot : h ∉ handlesOf old) : placing? log h = none := by
  refine TreeTemplate.placing?_eq_none fun entry hentry x hx hxh => ?_
  rcases hv.near entry hentry x hx with hmem | hnone
  · exact hnot (hxh ▸ hmem)
  · rw [hxh, hlive] at hnone
    simp at hnone

/-- The tree `u` is what became of a node that was selected with `p`: it has its position, it is shown
as selected, and it was filled in the context of its item. -/
structure Matches (log : List (Stage × Step)) (set : BindingSet) (c : Context) (u : NodeTree)
    (p : Face × Option Item) : Prop where
  marker? : u.record.marker? = p.1.marker?
  visible : p.2 = none ∨ set.Calm → u.record.visible = p.1.visible
  filled : ∀ i ∈ p.2, ∃ s id, (s, Step.fill id u.handle) ∈ log ∧
    s.pool.get? id = some (c.within i)

/-- The trees `us` stand in the place of a tree that selected `v`. -/
structure Replaced (log : List (Stage × Step)) (set : BindingSet) (c : Context) (v : Value)
    (t : NodeTree) (us : List NodeTree) : Prop where
  selection : selection? log t.handle = some v
  heirs : heirs log t.handle = us.map NodeTree.handle
  standing : ∃ s : Stage, (s.document.node t.handle).marker? = t.record.marker? ∧
    us.map NodeTree.handle = s.standing t.handle v
  matched : List.Forall₂ (Matches log set c) us (t.record.face.select v)

/-- The record of a longer render tells the same, if the node is not placed before. -/
theorem Replaced.lift (hr : Replaced log set c v t us) (before after : List (Stage × Step))
    (hbefore : placing? before t.handle = none) :
    Replaced (before ++ (log ++ after)) set c v t us := by
  obtain ⟨hselection, hheirs, hstanding, hmatched⟩ := hr
  obtain ⟨place, hplace, -⟩ := Option.bind_eq_some_iff.mp hselection
  have hsame : placing? (before ++ (log ++ after)) t.handle = placing? log t.handle := by
    rw [placing?_append_of_none hbefore, placing?_append_of_some hplace, hplace]
  have hsame' : selection? (before ++ (log ++ after)) t.handle = selection? log t.handle := by
    rw [selection?, hsame, selection?]
  refine ⟨hsame'.trans hselection, ?_, hstanding, hmatched.imp fun u p hup =>
    ⟨hup.marker?, hup.visible, fun i hi => ?_⟩⟩
  · rw [TreeTemplate.heirs, hsame, hsame', ← TreeTemplate.heirs, hheirs]
  · obtain ⟨s, id, hmem, hcontext⟩ := hup.filled i hi
    exact ⟨s, id, by simp [hmem], hcontext⟩

/-- The sketches of what stands for a node that selects a value. -/
theorem map_sketch_of_select (hplan : plan.inPlace = true) (htop : b.setOf? t.record = some set)
    (hselect : set.select? = some ev)
    (hshapes : us.map NodeTree.shape = (t.shape.place plan b c).value) :
    us.map (NodeTree.sketch b) = (t.record.face.select (c.execute ev).1).map
      (Sketch.stand plan.templates.idAttribute
        (Sketch.placeAll plan.templates.idAttribute (inside b set t.kids)) set (inside b set t.kids)
        (c.execute ev).2) := by
  have hsketch := congrArg Prod.fst (Shape.sketch_place (b := b) hplan t.shape c)
  rw [NodeTree.sketch_shape, NodeTree.sketch_eq_node htop, Sketch.place_of_some _ hselect]
    at hsketch
  rw [NodeTree.map_sketch_of_map_shape hshapes]
  exact hsketch

/-- A node that selects a value gives way to what the record says. -/
theorem replaced_visit (hplan : plan.inPlace = true) (hr : Ready b F s id c home [t])
    (ha : s.document.Away [t]) (hsight : Sighted b F t) (htop : b.setOf? t.record = some set)
    (hselect : set.select? = some ev) :
    ∃ s' us log, Visit plan F s s' id (c.execute ev).2 home [t] us [.place id t.handle] log ∧
      (∀ u ∈ us, Sighted b F u ∧ u.record.isElement = t.record.isElement ∧
        b.setOf? u.record = some set) ∧
      Replaced log set (c.execute ev).2 (c.execute ev).1 t us := by
  have hnode := Document.node_of_get? (hr.seated.held t (List.mem_singleton_self t)).get?_handle
  obtain ⟨s', us, log, hv, hus, hhandles, hshapes, -, hfilled⟩ :=
    select_visit plan hr ha.rootOnTop (fun hroot => absurd hroot ha.handle_ne_root) hsight
      htop hselect fun u _ => fillable u
  have hsketches := map_sketch_of_select hplan htop hselect hshapes
  have hplacing : placing? ((s, .place id t.handle) :: log) t.handle = some (id, s) := by
    simp [placing?]
  have hselection : selection? ((s, .place id t.handle) :: log) t.handle =
      some (c.execute ev).1 := by
    rw [selection?, hplacing, Option.bind_some, selected?,
      bindingsOf_eq (by rw [hr.bindings, hnode, htop]), hselect, Option.bind_some, execute?,
      hr.context]
    rfl
  have hstand : List.Forall₂ (fun u p => u.sketch b = Sketch.stand plan.templates.idAttribute
      (Sketch.placeAll plan.templates.idAttribute (inside b set t.kids)) set (inside b set t.kids)
      (c.execute ev).2 p) us (t.record.face.select (c.execute ev).1) :=
    List.forall₂_map_left_iff.mp (List.forall₂_map_right_iff.mp
      (List.forall₂_eq_eq_eq ▸ hsketches))
  refine ⟨s', us, _, hv, fun u hu => ⟨(hus u hu).1, (hus u hu).2, ?_⟩, hselection, ?_,
    ⟨s, by rw [hnode], hhandles⟩, ?_⟩
  · obtain ⟨p, -, hp⟩ := List.mem_map.mp (hsketches ▸ List.mem_map_of_mem hu)
    obtain ⟨f, ks', heq, -, -⟩ := Sketch.stand_eq plan.templates.idAttribute
      (Sketch.placeAll plan.templates.idAttribute (inside b set t.kids)) set (inside b set t.kids)
      (c.execute ev).2 p
    exact (hus u hu).1.setOf?_of_sketch_eq (hp.symm.trans heq)
  · rw [TreeTemplate.heirs, hplacing, hselection]
    exact hhandles.symm
  · refine List.forall₂_iff_zip.mpr ⟨hstand.length_eq, fun {u p} hup => ?_⟩
    have hsketch := (List.forall₂_iff_zip.mp hstand).2 hup
    obtain ⟨f, ks', heq, hmarker, hvisible⟩ := Sketch.stand_eq plan.templates.idAttribute
      (Sketch.placeAll plan.templates.idAttribute (inside b set t.kids)) set (inside b set t.kids)
      (c.execute ev).2 p
    have hface := NodeTree.face_of_sketch_eq (hsketch.trans heq)
    refine ⟨?_, fun hp => ?_, fun i hi => ?_⟩
    · rw [← hmarker, ← hface]
      rfl
    · rw [← hvisible hp, ← hface]
      rfl
    · have hmem : (u.handle, some i) ∈ (us.map NodeTree.handle).zip
          ((t.record.face.select (c.execute ev).1).map Prod.snd) := by
        rw [List.zip_map]
        exact List.mem_map.mpr ⟨(u, p), hup, by rw [← hi]; rfl⟩
      obtain ⟨s'', id', hlog, hcontext⟩ := hfilled u.handle i hmem
      exact ⟨s'', id', List.mem_cons_of_mem _ hlog, hcontext⟩

/-! ### What a row gives way to -/

section

variable {fam : List NodeTree} {uss : List (List NodeTree)} {items : List Value}

/-- All that stands for a row was filled as its nodes selected. -/
theorem matches_of_replaced (h : List.Forall₂ (Replaced log set c v) fam uss) :
    List.Forall₂ (Matches log set c) uss.flatten
      ((fam.map fun t => t.record.face).flatMap fun f => f.select v) := by
  induction h with
  | nil => exact .nil
  | cons ht _ ih =>
    rw [List.map_cons, List.flatten_cons, List.flatMap_cons]
    exact List.rel_append ht.matched ih

/-- The record names all that stands for a row. -/
theorem heirs_of_replaced (h : List.Forall₂ (Replaced log set c v) fam uss) :
    (fam.map NodeTree.handle).flatMap (heirs log) = uss.flatten.map NodeTree.handle := by
  induction h with
  | nil => rfl
  | cons ht _ ih =>
    rw [List.map_cons, List.flatMap_cons, ht.heirs, ih, List.flatten_cons, List.map_append]

/-- An instance whose position is still there stays, alone unless it is the last one. -/
theorem standing_of_position {index length : Nat}
    (hmarker : (s.document.node h).marker? = some (.ofIndex index length))
    (hindex : index < max 1 items.length) :
    ∃ rest, s.standing h (.array items) = h :: rest ∧ (index + 1 ≠ length → rest = []) := by
  rw [standing, hmarker, ListChange.of_ofIndex]
  by_cases hzero : items.length = 0
  · rw [if_pos hzero, if_pos (by omega)]
    exact ⟨[], rfl, fun _ => rfl⟩
  · rw [if_neg hzero]
    by_cases hgrow : index + 1 = length ∧ index + 1 < items.length
    · rw [if_pos hgrow]
      exact ⟨_, rfl, fun hne => absurd hgrow.1 hne⟩
    · rw [if_neg hgrow, if_pos (by omega)]
      exact ⟨[], rfl, fun _ => rfl⟩

/-- The nodes of a row keep their places as far as the old list and the new one go. -/
theorem take_of_replaced {first count : Nat}
    (h : List.Forall₂ (Replaced log set c (.array items)) fam uss)
    (hrow : fam.map (fun t => t.record.marker?) = Marker.row first fam.length count)
    (hcount : first + fam.length = count) :
    (uss.flatten.map NodeTree.handle).take (min count (max 1 items.length) - first) =
      (fam.map NodeTree.handle).take (min count (max 1 items.length) - first) := by
  induction h generalizing first with
  | nil => rfl
  | @cons t us rest uss ht _ ih =>
    rw [List.map_cons, List.length_cons, Marker.row_succ, List.cons.injEq] at hrow
    rw [List.length_cons] at hcount
    obtain ⟨s, hmarker, hstanding⟩ := ht.standing
    by_cases hfirst : first < max 1 items.length
    · obtain ⟨more, hmore, halone⟩ := standing_of_position (hmarker.trans hrow.1) hfirst
      obtain ⟨k, hk⟩ : ∃ k, min count (max 1 items.length) - first = k + 1 :=
        ⟨min count (max 1 items.length) - (first + 1), by omega⟩
      rw [List.flatten_cons, List.map_append, hstanding, hmore, List.map_cons, hk, List.cons_append,
        List.take_succ_cons, List.take_succ_cons]
      congr 1
      cases rest with
      | nil =>
        rw [List.length_nil] at hcount
        obtain rfl : k = 0 := by omega
        rfl
      | cons t' rest =>
        have hpos : 0 < (t' :: rest).length := by simp
        rw [halone (by omega), List.nil_append]
        have hrest := ih hrow.2 (by omega)
        rwa [show min count (max 1 items.length) - (first + 1) = k by omega] at hrest
    · rw [show min count (max 1 items.length) - first = 0 by omega]
      rfl

end

/-- Nodes in a row that select without assigning select the same value, and each gives way to what the
record says. -/
theorem family_visit (hplan : plan.inPlace = true) (hr : Ready b F s id c home ts)
    (ha : s.document.Away ts)
    (hts : ∀ t ∈ ts, Sighted b F t ∧ t.record.isElement = true ∧ b.setOf? t.record = some set)
    (hselect : set.select? = some ev) (hfree : ev.assignFree = true) :
    ∃ s' uss log, Visit plan F s s' id c home ts uss.flatten
        (ts.map fun t => .place id t.handle) log ∧
      (∀ u ∈ uss.flatten, Sighted b F u ∧ u.record.isElement = true ∧
        b.setOf? u.record = some set) ∧
      List.Forall₂ (Replaced log set c (c.execute ev).1) ts uss := by
  induction ts generalizing s with
  | nil => exact ⟨s, [], [], .refl hr, by simp, .nil⟩
  | cons t rest ih =>
    have hr : Ready b F s id c home ([t] ++ rest) := hr
    have ha : s.document.Away ([t] ++ rest) := ha
    have ht := hts t List.mem_cons_self
    obtain ⟨s₁, us, log, hv, hus, hreplaced⟩ :=
      replaced_visit hplan hr.left ha.left ht.1 ht.2.2 hselect
    rw [Context.execute_context hfree] at hv hreplaced
    have hregrown := hv.regrown.append_right hr.seated
    obtain ⟨s₂, uss, log', hv', huss, hall⟩ := ih (hv.ready_right hr)
      (hregrown.away hr.seated ha).right fun t ht => hts t (List.mem_cons_of_mem _ ht)
    refine ⟨s₂, us :: uss, log ++ log', by rw [List.flatten_cons]; exact hv.append hr hv',
      fun u hu => ?_, .cons ?_ ?_⟩
    · rw [List.flatten_cons, List.mem_append] at hu
      rcases hu with hu | hu
      · exact ⟨(hus u hu).1, (hus u hu).2.1.trans ht.2.1, (hus u hu).2.2⟩
      · exact huss u hu
    · exact hreplaced.lift [] log' rfl
    · refine NodeTree.forall₂_imp_of_mem hall fun t' ht' us' hreplaced' => ?_
      obtain ⟨m, hm⟩ := hr.seated.right.live
        (NodeTree.mem_handlesOf_of_mem ht' t'.handle_mem_handles)
      have hnot : t'.handle ∉ handlesOf [t] := fun hmem => hr.seated.disjoint hmem
        (NodeTree.mem_handlesOf_of_mem ht' t'.handle_mem_handles)
      have hlifted := hreplaced'.lift log [] (hv.placing?_eq_none hm hnot)
      rwa [List.append_nil] at hlifted

end Stage

end TreeTemplate
