import TreeTemplate.Proofs.Document.Growth
import TreeTemplate.Render.Instances

/-!
Putting copies of a node beside it.  A copy that is inserted next to a seated tree takes its place
among the siblings (`insertBefore_regrown`, `insertAfter_regrown`); a copy of a tree without a parent
stays without one.
-/

namespace TreeTemplate

namespace NodeTree

/-- The tree with another parent recorded at its top. -/
def rehomed (home : Option Handle) : NodeTree → NodeTree
  | node h n ks => node h { n with parent? := home } ks

@[simp] theorem handle_rehomed (home : Option Handle) (t : NodeTree) :
    (t.rehomed home).handle = t.handle := by
  cases t
  rfl

@[simp] theorem handles_rehomed (home : Option Handle) (t : NodeTree) :
    (t.rehomed home).handles = t.handles := by
  cases t
  simp [rehomed]

@[simp] theorem parent?_rehomed (home : Option Handle) (t : NodeTree) :
    (t.rehomed home).record.parent? = home := by
  cases t
  rfl

theorem rehomed_of_parent? {home : Option Handle} {t : NodeTree} (h : t.record.parent? = home) :
    t.rehomed home = t := by
  cases t
  subst h
  rfl

theorem Alike.rehomed {t u : NodeTree} (htu : Alike t u) (home : Option Handle) :
    Alike t (u.rehomed home) := by
  cases htu with
  | node hrecord hkids => exact .node hrecord hkids

end NodeTree

namespace Document

open NodeTree (handlesOf Alike)

variable {d d' d₁ d₂ : Document} {home : Option Handle} {A B : List NodeTree} {t u : NodeTree}
  {h p x : Handle} {n n' m : Node} {ks : List NodeTree}

/-! ### Changing what is recorded on one node -/

/-- A tree stays held when the record at its top changes but for its children. -/
theorem Holds.retop (ht : d.Holds (.node h n ks)) (htop : d'.get? h = some n')
    (hchildren : n'.children = n.children) (hsame : ∀ x ∈ handlesOf ks, d'.get? x = d.get? x) :
    d'.Holds (.node h n' ks) := by
  refine .node htop (hchildren.trans ht.children) (fun k hk => ht.parent hk) (fun k hk => ?_)
    (by simpa using ht.nodup)
  exact (ht.kid hk).congr fun x hx => hsame x (NodeTree.mem_handlesOf_of_mem hk hx)

/-- Changing the record of a seated node, its links aside. -/
theorem regrown_of_record (hs : d.Seated home [.node h n ks])
    (hget : ∀ x, d'.get? x = if x = h then some n' else d.get? x) (hvacant : d'.vacant = d.vacant)
    (hparent : n'.parent? = n.parent?) (hchildren : n'.children = n.children) :
    Regrown d d' home [.node h n ks] [.node h n' ks] := by
  have ht : d.Holds (.node h n ks) := hs.held _ (List.mem_singleton_self _)
  have hhandles : handlesOf [NodeTree.node h n' ks] = handlesOf [NodeTree.node h n ks] := by
    simp [handlesOf]
  have hmem : h ∈ handlesOf [NodeTree.node h n ks] := by simp [handlesOf]
  refine ⟨?_, ?_, by rw [hhandles]; exact hs.nodup, ?_, ?_, ?_, ?_, hvacant⟩
  · intro u hu
    obtain rfl := List.mem_singleton.mp hu
    refine ht.retop (by simp [hget]) hchildren fun x hx => ?_
    rw [hget, if_neg]
    rintro rfl
    exact ht.handle_not_mem_kids hx
  · intro u hu
    obtain rfl := List.mem_singleton.mp hu
    exact hparent.trans (hs.parents (.node h n ks) (List.mem_singleton_self _))
  · intro x hx
    exact Or.inl (hhandles ▸ hx)
  · intro x hx hnot
    exact absurd (hhandles ▸ hx) hnot
  · intro x hx _ _
    rw [hget, if_neg]
    rintro rfl
    exact hx hmem
  · intro p hp m pre post hm hchildren
    rw [hget, if_neg, hm]
    · simp only [List.map_cons, NodeTree.handle_node, List.map_nil] at hchildren ⊢
      rw [← hchildren]
    · rintro rfl
      exact hs.apart p hp hmem

theorem modify_regrown (hs : d.Seated home [.node h n ks]) (f : Node → Node)
    (hparent : (f n).parent? = n.parent?) (hchildren : (f n).children = n.children) :
    Regrown d (d.modify h f) home [.node h n ks] [.node h (f n) ks] := by
  have hn : d.get? h = some n := (hs.held _ (List.mem_singleton_self _)).get?_handle
  exact regrown_of_record hs (get?_modify hn f) (vacant_modify hn f) hparent hchildren

theorem put_regrown (hs : d.Seated home [.node h n ks]) (n' : Node)
    (hparent : n'.parent? = n.parent?) (hchildren : n'.children = n.children) :
    Regrown d (d.put h n') home [.node h n ks] [.node h n' ks] := by
  have hn : d.get? h = some n := (hs.held _ (List.mem_singleton_self _)).get?_handle
  exact regrown_of_record hs (get?_put hn n') (vacant_put hn n') hparent hchildren

theorem Regrown.mutated {new : List NodeTree} (hr : Regrown d d' home A new) :
    Regrown d d'.mutated home A new where
  held t ht := (hr.held t ht).congr fun _ _ => rfl
  parents := hr.parents
  nodup := hr.nodup
  fresh := hr.fresh
  gone x hx hnot := hr.gone x hx hnot
  frame x hx hx' hp := hr.frame x hx hx' hp
  siblings p hp n pre post hn hchildren := hr.siblings p hp n pre post hn hchildren
  vacant := hr.vacant

/-- Show or hide a node that is held. -/
theorem setVisible_regrown (hs : d.Seated home [.node h n ks]) (v : Bool) :
    Regrown d (d.setVisible h v) home [.node h n ks] [.node h { n with visible := v } ks] := by
  have hn : d.get? h = some n := (hs.held _ (List.mem_singleton_self _)).get?_handle
  unfold setVisible
  simp only [writable_of_get? hn]
  split
  · next hv =>
    subst hv
    exact put_regrown hs n rfl rfl
  · exact (put_regrown hs { n with visible := v } rfl rfl).mutated

theorem Tidy.setVisible (ht : d.Tidy) (hn : d.get? h = some n) (v : Bool) :
    (d.setVisible h v).Tidy := by
  unfold Document.setVisible
  simp only [writable_of_get? hn]
  split
  · exact ht.put hn _
  · exact (ht.put hn _).mutated

theorem setMarker_regrown (hs : d.Seated home [.node h n ks]) (m : Option Marker) :
    Regrown d (d.setMarker h m) home [.node h n ks] [.node h { n with marker? := m } ks] :=
  modify_regrown hs _ rfl rfl

theorem setBindingRef_regrown (hs : d.Seated home [.node h n ks]) (r : BindingRef) :
    Regrown d (d.setBindingRef h r) home [.node h n ks]
      [.node h { n with bindingRef? := some r } ks] :=
  modify_regrown hs _ rfl rfl

/-! ### Inserting a fresh tree -/

/-- A node without a parent is detached already. -/
theorem detach_eq_self (hn : d.get? h = some n) (hparent : n.parent? = none) : d.detach h = d := by
  have hput : d.put h { n with parent? := none } = d := by
    rw [show ({ n with parent? := none } : Node) = n by rw [← hparent]]
    exact put_self hn
  simp only [detach, writable_of_get? hn, hput, hparent]

theorem idxOf?_append_cons {α : Type} [DecidableEq α] {pre post : List α} {a : α} (h : a ∉ pre) :
    (pre ++ a :: post).idxOf? a = some pre.length := by
  induction pre with
  | nil => simp [List.idxOf?_cons]
  | cons b pre ih =>
    have hne : b ≠ a := fun hba => h (by simp [hba])
    rw [List.cons_append, List.idxOf?_cons, ih fun hmem => h (List.mem_cons_of_mem b hmem)]
    simp [hne]

theorem position?_eq (hn : d.get? h = some n) (hp : n.parent? = some p) (hm : d.get? p = some m)
    {pre post : List Handle} (hchildren : m.children = pre ++ h :: post) (hpre : h ∉ pre) :
    d.position? h = some (p, pre.length) := by
  simp [position?, node_of_get? hn, hp, node_of_get? hm, hchildren, idxOf?_append_cons hpre]

theorem position?_eq_none (hn : d.get? h = some n) (hp : n.parent? = none) :
    d.position? h = none := by
  simp [position?, node_of_get? hn, hp]

/-- A list without repetition is cut in one way only around a part of it. -/
theorem eq_of_append_eq_append {α : Type} {pre post pre' post' : List α} {a : α} {mid : List α}
    (hnodup : (pre ++ (a :: mid) ++ post).Nodup)
    (heq : pre ++ (a :: mid) ++ post = pre' ++ (a :: mid) ++ post') : pre = pre' ∧ post = post' := by
  have hnodup' := hnodup
  rw [heq] at hnodup'
  simp only [List.append_assoc, List.cons_append] at heq hnodup hnodup'
  rw [List.nodup_middle, List.nodup_cons] at hnodup hnodup'
  have hpre' : a ∉ pre' := fun h => hnodup'.1 (by simp [h])
  have hpost : a ∉ mid ++ post := fun h => hnodup.1 (by simp [h])
  rw [List.append_cons_inj_of_notMem] at heq
  · exact ⟨heq.1, List.append_cancel_left heq.2.2⟩
  · exact fun h => hnodup.1 (by simp [h])
  · exact hpost

/-- Where a fresh tree is linked among the children of a live node, every other node stays. -/
theorem get?_insertAt (hg : Grown d d₁ none [.node h n ks]) (hm : d.get? p = some m)
    {pre post : List Handle} (hchildren : m.children = pre ++ post) (x : Handle) :
    (d₁.insertAt h p pre.length).get? x =
      if x = p then some { m with children := (pre ++ h :: post) }
      else if x = h then some { n with parent? := some p } else d₁.get? x := by
  have hn : d₁.get? h = some n := (hg.held _ (List.mem_singleton_self _)).get?_handle
  have hph : p ≠ h := by
    rintro rfl
    simp [hg.fresh p (by simp [handlesOf])] at hm
  have hm₁ : d₁.get? p = some m := by
    rw [hg.frame p (hg.not_mem_new hm) (by simp), hm]
  have hm₂ : (d₁.modify h fun n => { n with parent? := some p }).get? p = some m := by
    rw [get?_modify hn, if_neg hph, hm₁]
  rw [insertAt, get?_mutated, link, get?_modify hm₂, get?_modify hn, hchildren, List.take_left,
    List.drop_left]

theorem vacant_insertAt (hg : Grown d d₁ none [.node h n ks]) (hm : d.get? p = some m)
    (index : Nat) : (d₁.insertAt h p index).vacant = d.vacant := by
  have hn : d₁.get? h = some n := (hg.held _ (List.mem_singleton_self _)).get?_handle
  have hph : p ≠ h := by
    rintro rfl
    simp [hg.fresh p (by simp [handlesOf])] at hm
  have hm₂ : (d₁.modify h fun n => { n with parent? := some p }).get? p = some m := by
    rw [get?_modify hn, if_neg hph, hg.frame p (hg.not_mem_new hm) (by simp), hm]
  rw [insertAt, vacant_mutated, link, vacant_modify hm₂, vacant_modify hn, hg.vacant]

theorem Tidy.insertAt (ht : d₁.Tidy) (hg : Grown d d₁ none [.node h n ks]) (hm : d.get? p = some m)
    (index : Nat) : (d₁.insertAt h p index).Tidy := by
  have hn : d₁.get? h = some n := (hg.held _ (List.mem_singleton_self _)).get?_handle
  have hph : p ≠ h := by
    rintro rfl
    simp [hg.fresh p (by simp [handlesOf])] at hm
  have hm₂ : (d₁.modify h fun n => { n with parent? := some p }).get? p = some m := by
    rw [get?_modify hn, if_neg hph, hg.frame p (hg.not_mem_new hm) (by simp), hm]
  exact ((ht.modify hn _).modify hm₂ _).mutated

/-- A fresh tree linked between seated trees takes its place there. -/
theorem insertAt_regrown (hs : d.Seated (some p) (A ++ B)) (hAB : A ++ B ≠ [])
    (hg : Grown d d₁ none [u]) (hm : d.get? p = some m) {pre post : List Handle}
    (hchildren : m.children = pre ++ (A ++ B).map NodeTree.handle ++ post) :
    Regrown d (d₁.insertAt u.handle p (pre.length + A.length)) (some p) (A ++ B)
      (A ++ [u.rehomed (some p)] ++ B) := by
  obtain ⟨h, n, ks⟩ := u
  rw [NodeTree.handle_node]
  have hu : d₁.Holds (.node h n ks) := hg.held _ (List.mem_singleton_self _)
  have hfresh : ∀ x ∈ (NodeTree.node h n ks).handles, d.get? x = none := fun x hx =>
    hg.fresh x (by simpa [handlesOf] using hx)
  have hsame : ∀ x, x ∉ (NodeTree.node h n ks).handles → d₁.get? x = d.get? x := fun x hx =>
    hg.frame x (by simpa [handlesOf] using hx) (by simp)
  have hpu : p ∉ (NodeTree.node h n ks).handles := fun hx => by simp [hfresh p hx] at hm
  have hph : p ≠ h := by
    rintro rfl
    simp at hpu
  have hget : ∀ x, (d₁.insertAt h p (pre.length + A.length)).get? x =
      if x = p then some { m with children :=
        (pre ++ A.map NodeTree.handle ++ h :: (B.map NodeTree.handle ++ post)) }
      else if x = h then some { n with parent? := some p } else d₁.get? x := by
    have hlength : pre.length + A.length = (pre ++ A.map NodeTree.handle).length := by simp
    rw [hlength]
    exact get?_insertAt hg hm (by simp [hchildren])
  have hmem : ∀ x, x ∈ handlesOf (A ++ [NodeTree.rehomed (some p) (.node h n ks)] ++ B) ↔
      x ∈ (NodeTree.node h n ks).handles ∨ x ∈ handlesOf (A ++ B) := by
    intro x
    simp only [NodeTree.handlesOf_append, NodeTree.handlesOf_cons, NodeTree.handlesOf_nil,
      NodeTree.handles_rehomed, List.append_nil, List.mem_append]
    tauto
  have hapart : ∀ x ∈ handlesOf (A ++ B), x ∉ (NodeTree.node h n ks).handles ∧ x ≠ p := by
    intro x hx
    refine ⟨fun hxu => ?_, ?_⟩
    · obtain ⟨k, hk⟩ := hs.live hx
      simp [hfresh x hxu] at hk
    · rintro rfl
      exact hs.apart x rfl hx
  have hheld : (d₁.insertAt h p (pre.length + A.length)).Holds
      (.node h { n with parent? := some p } ks) := by
    refine hu.retop (by simp [hget, Ne.symm hph]) rfl fun x hx => ?_
    have hxp : x ≠ p := by
      rintro rfl
      exact hpu (by simp only [NodeTree.handles_node]; exact List.mem_cons_of_mem _ hx)
    have hxh : x ≠ h := by
      rintro rfl
      exact hu.handle_not_mem_kids hx
    rw [hget, if_neg hxp, if_neg hxh]
  have hbeside : ∀ t ∈ A ++ B, (d₁.insertAt h p (pre.length + A.length)).Holds t := by
    intro t ht
    refine (hs.held t ht).congr fun x hx => ?_
    obtain ⟨hxu, hxp⟩ := hapart x (NodeTree.mem_handlesOf_of_mem ht hx)
    have hxh : x ≠ h := by
      rintro rfl
      simp at hxu
    rw [hget, if_neg hxp, if_neg hxh, hsame x hxu]
  refine ⟨?_, ?_, ?_, ?_, ?_, ?_, ?_, vacant_insertAt hg hm _⟩
  · intro t ht
    simp only [List.mem_append, List.mem_singleton] at ht
    rcases ht with (ht | rfl) | ht
    · exact hbeside t (List.mem_append_left B ht)
    · exact hheld
    · exact hbeside t (List.mem_append_right A ht)
  · intro t ht
    simp only [List.mem_append, List.mem_singleton] at ht
    rcases ht with (ht | rfl) | ht
    · exact hs.left.parents t ht
    · rfl
    · exact hs.right.parents t ht
  · have hnodupAB := hs.nodup
    simp only [NodeTree.handlesOf_append, NodeTree.handlesOf_cons, NodeTree.handlesOf_nil,
      NodeTree.handles_rehomed, List.append_nil, List.nodup_append', List.disjoint_left,
      List.mem_append] at hnodupAB hapart ⊢
    refine ⟨⟨hnodupAB.1, hu.nodup, fun x hx => (hapart x (Or.inl hx)).1⟩, hnodupAB.2.1, ?_⟩
    rintro x (hx | hx) hxB
    · exact hnodupAB.2.2 hx hxB
    · exact (hapart x (Or.inr hxB)).1 hx
  · intro x hx
    rcases (hmem x).mp hx with hx | hx
    · exact Or.inr (hfresh x hx)
    · exact Or.inl hx
  · intro x hx hnot
    exact absurd ((hmem x).mpr (Or.inr hx)) hnot
  · intro x _ hnew hp
    rw [hmem, not_or] at hnew
    have hxh : x ≠ h := by
      rintro rfl
      exact hnew.1 (by simp)
    rw [hget, if_neg fun hx => hp (by rw [hx]), if_neg hxh, hsame x hnew.1]
  · intro q hq m' pre' post' hm' hchildren'
    obtain rfl := Option.some.inj hq
    rw [hm] at hm'
    obtain rfl := Option.some.inj hm'
    obtain ⟨m', hm', hnodup, -⟩ := (hs.hearth p rfl).exists_record
    rw [hm] at hm'
    obtain rfl := Option.some.inj hm'
    have hsplit : pre = pre' ∧ post = post' := by
      cases hmid : (A ++ B).map NodeTree.handle with
      | nil => exact absurd (List.map_eq_nil_iff.mp hmid) hAB
      | cons a mid =>
        rw [hmid] at hchildren hchildren'
        rw [hchildren] at hnodup hchildren'
        exact eq_of_append_eq_append hnodup hchildren'
    obtain ⟨rfl, rfl⟩ := hsplit
    rw [hget, if_pos rfl]
    simp

/-- Fresh trees without a parent stand before and behind other trees without one. -/
theorem Grown.regrown_none (hs : d.Seated none A) (hg : Grown d d₁ none B) :
    Regrown d d₁ none A (B ++ A) ∧ Regrown d d₁ none A (A ++ B) := by
  have hA : ∀ t ∈ A, d₁.Holds t := fun t ht => hg.held_before (hs.held t ht) (by simp)
  have hapart : ∀ x ∈ handlesOf A, x ∉ handlesOf B := by
    intro x hx
    obtain ⟨k, hk⟩ := hs.live hx
    exact hg.not_mem_new hk
  have hmem : ∀ x, (x ∈ handlesOf (B ++ A) ↔ x ∈ handlesOf B ∨ x ∈ handlesOf A) ∧
      (x ∈ handlesOf (A ++ B) ↔ x ∈ handlesOf A ∨ x ∈ handlesOf B) := by simp
  refine ⟨⟨?_, ?_, ?_, ?_, ?_, ?_, by simp, hg.vacant⟩, ?_, ?_, ?_, ?_, ?_, ?_, by simp, hg.vacant⟩
  · intro t ht
    exact (List.mem_append.mp ht).elim (hg.held t) (hA t)
  · intro t ht
    exact (List.mem_append.mp ht).elim (hg.parents t) (hs.parents t)
  · rw [NodeTree.handlesOf_append, List.nodup_append']
    exact ⟨hg.nodup, hs.nodup, fun x hx hxA => hapart x hxA hx⟩
  · intro x hx
    exact ((hmem x).1.mp hx).elim (fun hx => Or.inr (hg.fresh x hx)) Or.inl
  · intro x hx hnot
    exact absurd ((hmem x).1.mpr (Or.inr hx)) hnot
  · intro x _ hnew _
    rw [(hmem x).1, not_or] at hnew
    exact hg.frame x hnew.1 (by simp)
  · intro t ht
    exact (List.mem_append.mp ht).elim (hA t) (hg.held t)
  · intro t ht
    exact (List.mem_append.mp ht).elim (hs.parents t) (hg.parents t)
  · rw [NodeTree.handlesOf_append, List.nodup_append']
    exact ⟨hs.nodup, hg.nodup, fun x hx hxB => hapart x hx hxB⟩
  · intro x hx
    exact ((hmem x).2.mp hx).elim Or.inl fun hx => Or.inr (hg.fresh x hx)
  · intro x hx hnot
    exact absurd ((hmem x).2.mpr (Or.inl hx)) hnot
  · intro x _ hnew _
    rw [(hmem x).2, not_or] at hnew
    exact hg.frame x hnew.2 (by simp)

/-- A seated tree is found at its place among the children of its parent. -/
theorem position?_seated (hs : d.Seated (some p) [t]) (hg : Grown d d₁ none [u]) :
    ∃ m pre post, d.get? p = some m ∧ m.children = pre ++ t.handle :: post ∧
      d₁.position? t.handle = some (p, pre.length) := by
  obtain ⟨m, hm, hnodup, -⟩ := (hs.hearth p rfl).exists_record
  obtain ⟨pre, post, hchildren⟩ := hs.listed p rfl m hm
  have hchildren : m.children = pre ++ t.handle :: post := by simpa using hchildren
  have ht := (hs.held t (List.mem_singleton_self t)).get?_handle
  have hpre : t.handle ∉ pre := by
    rw [hchildren, List.nodup_append'] at hnodup
    exact fun hmem => hnodup.2.2 hmem List.mem_cons_self
  refine ⟨m, pre, post, hm, hchildren, ?_⟩
  refine position?_eq (n := t.record) ?_ (hs.parents t (List.mem_singleton_self t)) ?_ hchildren hpre
  · rw [hg.frame _ (hg.not_mem_new ht) (by simp), ht]
  · rw [hg.frame _ (hg.not_mem_new hm) (by simp), hm]

theorem detach_grown (hg : Grown d d₁ none [u]) : d₁.detach u.handle = d₁ :=
  detach_eq_self (hg.held u (List.mem_singleton_self u)).get?_handle
    (hg.parents u (List.mem_singleton_self u))

/-- A fresh tree inserted before a seated one stands there. -/
theorem insertBefore_regrown (hs : d.Seated home [t]) (ht : d₁.Tidy) (hg : Grown d d₁ none [u]) :
    Regrown d (d₁.insertBefore u.handle t.handle) home [t] [u.rehomed home, t] ∧
      (d₁.insertBefore u.handle t.handle).Tidy := by
  unfold insertBefore
  simp only [detach_grown hg]
  cases home with
  | none =>
    have htop := (hs.held t (List.mem_singleton_self t)).get?_handle
    have hpos : d₁.position? t.handle = none := by
      refine position?_eq_none (n := t.record) ?_ (hs.parents t (List.mem_singleton_self t))
      rw [hg.frame _ (hg.not_mem_new htop) (by simp), htop]
    simp only [hpos]
    rw [NodeTree.rehomed_of_parent? (hg.parents u (List.mem_singleton_self u))]
    exact ⟨(hg.regrown_none hs).1, ht⟩
  | some p =>
    obtain ⟨m, pre, post, hm, hchildren, hpos⟩ := position?_seated hs hg
    simp only [hpos]
    refine ⟨?_, by cases u; exact ht.insertAt hg hm _⟩
    exact insertAt_regrown (A := []) (B := [t]) hs (by simp) hg hm (by simpa using hchildren)

/-- A fresh tree inserted after a seated one stands there. -/
theorem insertAfter_regrown (hs : d.Seated home [t]) (ht : d₁.Tidy) (hg : Grown d d₁ none [u]) :
    Regrown d (d₁.insertAfter u.handle t.handle) home [t] [t, u.rehomed home] ∧
      (d₁.insertAfter u.handle t.handle).Tidy := by
  unfold insertAfter
  simp only [detach_grown hg]
  cases home with
  | none =>
    have htop := (hs.held t (List.mem_singleton_self t)).get?_handle
    have hpos : d₁.position? t.handle = none := by
      refine position?_eq_none (n := t.record) ?_ (hs.parents t (List.mem_singleton_self t))
      rw [hg.frame _ (hg.not_mem_new htop) (by simp), htop]
    simp only [hpos]
    rw [NodeTree.rehomed_of_parent? (hg.parents u (List.mem_singleton_self u))]
    exact ⟨(hg.regrown_none hs).2, ht⟩
  | some p =>
    obtain ⟨m, pre, post, hm, hchildren, hpos⟩ := position?_seated hs hg
    simp only [hpos]
    refine ⟨?_, by cases u; exact ht.insertAt hg hm _⟩
    exact insertAt_regrown (A := [t]) (B := []) hs (by simp) hg hm (by simpa using hchildren)

/-! ### Runs of copies -/

theorem copiesBefore_succ (h : Handle) (k : Nat) (d : Document) :
    copiesBefore h (k + 1) d =
      let c := d.deepClone h
      let r := copiesBefore h k (c.2.insertBefore c.1 h)
      (c.1 :: r.1, r.2) :=
  rfl

theorem copiesAfter_succ (h anchor : Handle) (k : Nat) (d : Document) :
    copiesAfter h (k + 1) anchor d =
      let c := d.deepClone h
      let r := copiesAfter h k c.1 (c.2.insertAfter c.1 anchor)
      (c.1 :: r.1, r.2) :=
  rfl

theorem copiesBefore_regrown (k : Nat) (hs : d.Seated home [t]) (ht : d.Tidy) :
    (copiesBefore t.handle k d).2.Tidy ∧
      ∃ us : List NodeTree, us.length = k ∧ us.map NodeTree.handle = (copiesBefore t.handle k d).1 ∧
        (∀ u ∈ us, Alike t u) ∧
        Regrown d (copiesBefore t.handle k d).2 home [t] (us ++ [t]) := by
  induction k generalizing d with
  | zero => exact ⟨ht, [], rfl, rfl, by simp, Regrown.refl hs⟩
  | succ k ih =>
    obtain ⟨ht₁, u, hu, halike, hg⟩ := deepClone_grown ht (hs.held t (List.mem_singleton_self t))
    obtain ⟨hr, ht₂⟩ := insertBefore_regrown hs ht₁ hg
    have hs₂ : Seated _ home ([u.rehomed home] ++ [t]) := hr.seated hs
    obtain ⟨ht₃, us, hlength, hhandles, halikes, hr'⟩ := ih hs₂.right ht₂
    simp only [copiesBefore_succ, ← hu]
    refine ⟨ht₃, u.rehomed home :: us, by simp [hlength], by simp [hhandles], ?_,
      hr.trans hs (hr'.append_left hs₂)⟩
    intro v hv
    rcases List.mem_cons.mp hv with rfl | hv
    · exact halike.rehomed home
    · exact halikes v hv

/-- Copies of one of several seated trees, put behind the last of them. -/
theorem copiesAfter_regrown (k : Nat) (hs : d.Seated home (A ++ [u])) (hmem : t ∈ A ++ [u])
    (ht : d.Tidy) :
    (copiesAfter t.handle k u.handle d).2.Tidy ∧
      ∃ us : List NodeTree, us.length = k ∧
        us.map NodeTree.handle = (copiesAfter t.handle k u.handle d).1 ∧ (∀ v ∈ us, Alike t v) ∧
        Regrown d (copiesAfter t.handle k u.handle d).2 home (A ++ [u]) (A ++ [u] ++ us) := by
  induction k generalizing d A u with
  | zero => exact ⟨ht, [], rfl, rfl, by simp, by simpa [copiesAfter] using Regrown.refl hs⟩
  | succ k ih =>
    obtain ⟨ht₁, v, hv, halike, hg⟩ := deepClone_grown ht (hs.held t hmem)
    obtain ⟨hr, ht₂⟩ := insertAfter_regrown hs.right ht₁ hg
    have hr₂ := hr.append_left hs
    rw [show A ++ [u, v.rehomed home] = A ++ [u] ++ [v.rehomed home] by simp] at hr₂
    obtain ⟨ht₃, us, hlength, hhandles, halikes, hr'⟩ :=
      ih (hr₂.seated hs) (List.mem_append_left _ hmem) ht₂
    rw [NodeTree.handle_rehomed] at ht₃ hhandles hr'
    simp only [copiesAfter_succ, ← hv]
    refine ⟨ht₃, v.rehomed home :: us, by simp [hlength], by simp [hhandles], ?_, ?_⟩
    · intro w hw
      rcases List.mem_cons.mp hw with rfl | hw
      · exact halike.rehomed home
      · exact halikes w hw
    · simpa using hr₂.trans hs hr'

end Document

end TreeTemplate
