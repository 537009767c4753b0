import TreeTemplate.Proofs.Document.Tree

/-!
Local change of a document.  `Regrown d d' home old new` says that `d'` comes from `d` by putting the
trees `new` in the place of the sibling trees `old` below `home`, and by nothing else.  Such changes
compose (`Regrown.trans`), stay valid among further siblings (`append_left`, `append_right`) and pass
from the children of a node to the node (`inner`).
-/

namespace TreeTemplate

def NodeTree.handlesOf (ts : List NodeTree) : List Handle :=
  ts.flatMap NodeTree.handles

namespace NodeTree

variable {ts us : List NodeTree} {t : NodeTree} {x : Handle}

@[simp] theorem handlesOf_nil : handlesOf [] = [] :=
  rfl

@[simp] theorem handlesOf_append : handlesOf (ts ++ us) = handlesOf ts ++ handlesOf us :=
  List.flatMap_append

@[simp] theorem handlesOf_cons : handlesOf (t :: ts) = t.handles ++ handlesOf ts :=
  List.flatMap_cons

theorem mem_handlesOf : x ∈ handlesOf ts ↔ ∃ t ∈ ts, x ∈ t.handles :=
  List.mem_flatMap

theorem mem_handlesOf_of_mem (ht : t ∈ ts) (hx : x ∈ t.handles) : x ∈ handlesOf ts :=
  mem_handlesOf.mpr ⟨t, ht, hx⟩

theorem map_handle_subset_handlesOf : ts.map handle ⊆ handlesOf ts := by
  intro x hx
  obtain ⟨t, ht, rfl⟩ := List.mem_map.mp hx
  exact mem_handlesOf_of_mem ht t.handle_mem_handles

end NodeTree

namespace Document

open NodeTree (handlesOf)

variable {d d' d₁ d₂ : Document} {home : Option Handle} {A A' B B' C : List NodeTree}
  {t : NodeTree} {p h x : Handle} {n : Node} {ks ks' : List NodeTree}

/-- A live node whose children are different live nodes that know it as their parent. -/
structure Hearth (d : Document) (p : Handle) : Prop where
  exists_record : ∃ n, d.get? p = some n ∧ n.children.Nodup ∧
    ∀ c ∈ n.children, ∃ m, d.get? c = some m ∧ m.parent? = some p

/-- The document holds the trees, apart from each other, as neighbours among the children of `home`;
without a `home` they have no parent. -/
structure Seated (d : Document) (home : Option Handle) (ts : List NodeTree) : Prop where
  held : ∀ t ∈ ts, d.Holds t
  parents : ∀ t ∈ ts, t.record.parent? = home
  nodup : (handlesOf ts).Nodup
  apart : ∀ p ∈ home, p ∉ handlesOf ts
  hearth : ∀ p ∈ home, d.Hearth p
  listed : ∀ p ∈ home, ∀ n, d.get? p = some n →
    ∃ pre post, n.children = pre ++ ts.map NodeTree.handle ++ post

/-- The document `d'` is `d` with the trees `new` in the place of the trees `old` below `home`. -/
structure Regrown (d d' : Document) (home : Option Handle) (old new : List NodeTree) : Prop where
  held : ∀ t ∈ new, d'.Holds t
  parents : ∀ t ∈ new, t.record.parent? = home
  nodup : (handlesOf new).Nodup
  fresh : ∀ x ∈ handlesOf new, x ∈ handlesOf old ∨ d.get? x = none
  gone : ∀ x ∈ handlesOf old, x ∉ handlesOf new → d'.get? x = none
  frame : ∀ x, x ∉ handlesOf old → x ∉ handlesOf new → home ≠ some x → d'.get? x = d.get? x
  siblings : ∀ p ∈ home, ∀ n pre post, d.get? p = some n →
    n.children = pre ++ old.map NodeTree.handle ++ post →
      d'.get? p = some { n with children := pre ++ new.map NodeTree.handle ++ post }
  vacant : d'.vacant = d.vacant

namespace Seated

theorem live (hs : d.Seated home A) (hx : x ∈ handlesOf A) : ∃ m, d.get? x = some m := by
  obtain ⟨t, ht, hx⟩ := NodeTree.mem_handlesOf.mp hx
  exact (hs.held t ht).get?_of_mem hx

theorem home_live (hs : d.Seated home A) (hp : p ∈ home) : ∃ n, d.get? p = some n := by
  obtain ⟨n, hn, -⟩ := (hs.hearth p hp).exists_record
  exact ⟨n, hn⟩

theorem left (hs : d.Seated home (A ++ B)) : d.Seated home A where
  held t ht := hs.held t (List.mem_append_left B ht)
  parents t ht := hs.parents t (List.mem_append_left B ht)
  nodup := by
    have hnodup := hs.nodup
    rw [NodeTree.handlesOf_append, List.nodup_append] at hnodup
    exact hnodup.1
  apart p hp hmem := hs.apart p hp (by simp [hmem])
  hearth := hs.hearth
  listed p hp n hn := by
    obtain ⟨pre, post, hchildren⟩ := hs.listed p hp n hn
    exact ⟨pre, B.map NodeTree.handle ++ post, by simp [hchildren]⟩

theorem right (hs : d.Seated home (A ++ B)) : d.Seated home B where
  held t ht := hs.held t (List.mem_append_right A ht)
  parents t ht := hs.parents t (List.mem_append_right A ht)
  nodup := by
    have hnodup := hs.nodup
    rw [NodeTree.handlesOf_append, List.nodup_append] at hnodup
    exact hnodup.2.1
  apart p hp hmem := hs.apart p hp (by simp [hmem])
  hearth := hs.hearth
  listed p hp n hn := by
    obtain ⟨pre, post, hchildren⟩ := hs.listed p hp n hn
    exact ⟨pre ++ A.map NodeTree.handle, post, by simp [hchildren]⟩

theorem disjoint (hs : d.Seated home (A ++ B)) (hx : x ∈ handlesOf A) : x ∉ handlesOf B := by
  have hnodup := hs.nodup
  rw [NodeTree.handlesOf_append, List.nodup_append'] at hnodup
  exact fun hmem => hnodup.2.2 hx hmem

/-- The children of a held node are seated below it. -/
theorem kids (ht : d.Holds (.node h n ks)) : d.Seated (some h) ks where
  held k hk := ht.kid hk
  parents k hk := ht.parent hk
  nodup := ht.kids_nodup
  apart p hp := by
    obtain rfl := Option.some.inj hp
    exact ht.handle_not_mem_kids
  hearth p hp := by
    obtain rfl := Option.some.inj hp
    refine ⟨n, ht.get?_handle, ?_, fun c hc => ?_⟩
    · rw [ht.children]
      exact ht.kids_nodup.sublist (sublist_handlesOf ks)
    · rw [ht.children] at hc
      obtain ⟨k, hk, rfl⟩ := List.mem_map.mp hc
      exact ⟨k.record, (ht.kid hk).get?_handle, ht.parent hk⟩
  listed p hp m hm := by
    obtain rfl := Option.some.inj hp
    rw [show d.get? h = some n from ht.get?_handle] at hm
    obtain rfl := Option.some.inj hm
    exact ⟨[], [], by simp [ht.children]⟩
where
  sublist_handlesOf (ks : List NodeTree) :
      (ks.map NodeTree.handle).Sublist (ks.flatMap NodeTree.handles) := by
    induction ks with
    | nil => simp
    | cons k rest ih =>
      rw [List.map_cons, List.flatMap_cons]
      obtain ⟨h, n, ks⟩ := k
      simpa using ih.trans (List.sublist_append_right _ _)

/-- Only the tops of seated trees are children of their home. -/
theorem mem_handles_of_child (hs : d.Seated home A) (hp : p ∈ home) (hx : x ∈ handlesOf A)
    (hchild : ∃ m, d.get? x = some m ∧ m.parent? = some p) : x ∈ A.map NodeTree.handle := by
  obtain ⟨t, ht, hxt⟩ := NodeTree.mem_handlesOf.mp hx
  by_cases hne : x = t.handle
  · exact List.mem_map.mpr ⟨t, ht, hne.symm⟩
  · obtain ⟨m, hm, hmp⟩ := hchild
    obtain ⟨m', y, hm', hy, hyt⟩ := (hs.held t ht).exists_parent hxt hne
    rw [hm] at hm'
    obtain rfl := Option.some.inj hm'
    rw [hmp] at hy
    obtain rfl := Option.some.inj hy
    exact absurd (NodeTree.mem_handlesOf_of_mem ht hyt) (hs.apart _ hp)

/-- A held tree without a parent is seated by itself. -/
theorem single (ht : d.Holds t) (hp : t.record.parent? = none) : d.Seated none [t] where
  held u hu := by
    obtain rfl := List.mem_singleton.mp hu
    exact ht
  parents u hu := by
    obtain rfl := List.mem_singleton.mp hu
    exact hp
  nodup := by simpa using ht.nodup
  apart _ hp := by simp at hp
  hearth _ hp := by simp at hp
  listed _ hp := by simp at hp

end Seated

namespace Regrown

/-- A node that is live before, but none of the old trees', is none of the new trees' either. -/
theorem not_mem_new (hr : Regrown d d' home A B) (hlive : d.get? x = some n)
    (hx : x ∉ handlesOf A) : x ∉ handlesOf B := by
  intro hmem
  rcases hr.fresh x hmem with hold | hnone
  · exact hx hold
  · simp [hlive] at hnone

theorem home_live (hr : Regrown d d' home A B) (hs : d.Seated home A) (hp : p ∈ home) :
    ∃ n pre post, d.get? p = some n ∧ n.children = pre ++ A.map NodeTree.handle ++ post ∧
      d'.get? p = some { n with children := pre ++ B.map NodeTree.handle ++ post } := by
  obtain ⟨n, hn⟩ := hs.home_live hp
  obtain ⟨pre, post, hchildren⟩ := hs.listed p hp n hn
  exact ⟨n, pre, post, hn, hchildren, hr.siblings p hp n pre post hn hchildren⟩

theorem refl (hs : d.Seated home A) : Regrown d d home A A where
  held := hs.held
  parents := hs.parents
  nodup := hs.nodup
  fresh x hx := Or.inl hx
  gone x hx hnot := absurd hx hnot
  frame _ _ _ _ := rfl
  siblings p _ n pre post hn hchildren := by rw [hn, ← hchildren]
  vacant := rfl

theorem trans (hs : d.Seated home A) (hr : Regrown d d₁ home A B) (hr' : Regrown d₁ d₂ home B C) :
    Regrown d d₂ home A C where
  held := hr'.held
  parents := hr'.parents
  nodup := hr'.nodup
  fresh x hx := by
    by_cases hB : x ∈ handlesOf B
    · exact hr.fresh x hB
    by_cases hA : x ∈ handlesOf A
    · exact Or.inl hA
    rcases hr'.fresh x hx with hB' | hnone
    · exact absurd hB' hB
    · have hhome : home ≠ some x := by
        intro hhome
        obtain ⟨n, pre, post, -, -, hlive⟩ := hr.home_live hs hhome
        simp [hlive] at hnone
      exact Or.inr (hr.frame x hA hB hhome ▸ hnone)
  gone x hx hnot := by
    by_cases hB : x ∈ handlesOf B
    · exact hr'.gone x hB hnot
    · have hhome : home ≠ some x := fun hhome => hs.apart x hhome hx
      rw [hr'.frame x hB hnot hhome, hr.gone x hx hB]
  frame x hA hC hhome := by
    by_cases hB : x ∈ handlesOf B
    · rcases hr.fresh x hB with hold | hnone
      · exact absurd hold hA
      · rw [hr'.gone x hB hC, hnone]
    · rw [hr'.frame x hB hC hhome, hr.frame x hA hB hhome]
  siblings p hp n pre post hn hchildren := by
    have h₁ := hr.siblings p hp n pre post hn hchildren
    have h₂ := hr'.siblings p hp _ pre post h₁ rfl
    exact h₂
  vacant := hr'.vacant.trans hr.vacant

/-- Trees that stand next to a change are still held after it. -/
theorem held_beside (hr : Regrown d d' home A A') (ht : d.Holds t)
    (happart : ∀ x ∈ t.handles, x ∉ handlesOf A) (hhome : ∀ p ∈ home, p ∉ t.handles) :
    d'.Holds t := by
  refine ht.congr fun x hx => ?_
  obtain ⟨m, hm⟩ := ht.get?_of_mem hx
  exact hr.frame x (happart x hx) (hr.not_mem_new hm (happart x hx))
    fun hp => hhome x hp hx

theorem append_right (hs : d.Seated home (A ++ B)) (hr : Regrown d d' home A A') :
    Regrown d d' home (A ++ B) (A' ++ B) where
  held t ht := by
    rcases List.mem_append.mp ht with ht | ht
    · exact hr.held t ht
    · refine hr.held_beside (hs.held t (List.mem_append_right A ht)) (fun x hx hA => ?_)
        fun p hp hx => ?_
      · exact hs.disjoint hA (NodeTree.mem_handlesOf_of_mem ht hx)
      · exact hs.right.apart p hp (NodeTree.mem_handlesOf_of_mem ht hx)
  parents t ht := by
    rcases List.mem_append.mp ht with ht | ht
    · exact hr.parents t ht
    · exact hs.right.parents t ht
  nodup := by
    rw [NodeTree.handlesOf_append, List.nodup_append']
    refine ⟨hr.nodup, hs.right.nodup, fun x hx hB => ?_⟩
    obtain ⟨m, hm⟩ := hs.right.live hB
    exact hr.not_mem_new hm (fun hA => hs.disjoint hA hB) hx
  fresh x hx := by
    rw [NodeTree.handlesOf_append, List.mem_append] at hx ⊢
    rcases hx with hx | hx
    · exact (hr.fresh x hx).imp_left Or.inl
    · exact Or.inl (Or.inr hx)
  gone x hx hnot := by
    rw [NodeTree.handlesOf_append, List.mem_append] at hx hnot
    rcases hx with hx | hx
    · exact hr.gone x hx fun hnew => hnot (Or.inl hnew)
    · exact absurd (Or.inr hx) hnot
  frame x hold hnew hhome := by
    rw [NodeTree.handlesOf_append, List.mem_append, not_or] at hold hnew
    exact hr.frame x hold.1 hnew.1 hhome
  siblings p hp n pre post hn hchildren := by
    have hmoved := hr.siblings p hp n pre (B.map NodeTree.handle ++ post) hn
      (by simp [hchildren])
    simpa using hmoved
  vacant := hr.vacant

theorem append_left (hs : d.Seated home (A ++ B)) (hr : Regrown d d' home B B') :
    Regrown d d' home (A ++ B) (A ++ B') where
  held t ht := by
    rcases List.mem_append.mp ht with ht | ht
    · refine hr.held_beside (hs.held t (List.mem_append_left B ht)) (fun x hx => ?_)
        fun p hp hx => ?_
      · exact hs.disjoint (NodeTree.mem_handlesOf_of_mem ht hx)
      · exact hs.left.apart p hp (NodeTree.mem_handlesOf_of_mem ht hx)
    · exact hr.held t ht
  parents t ht := by
    rcases List.mem_append.mp ht with ht | ht
    · exact hs.left.parents t ht
    · exact hr.parents t ht
  nodup := by
    rw [NodeTree.handlesOf_append, List.nodup_append']
    refine ⟨hs.left.nodup, hr.nodup, fun x hA hx => ?_⟩
    obtain ⟨m, hm⟩ := hs.left.live hA
    exact hr.not_mem_new hm (hs.disjoint hA) hx
  fresh x hx := by
    rw [NodeTree.handlesOf_append, List.mem_append] at hx ⊢
    rcases hx with hx | hx
    · exact Or.inl (Or.inl hx)
    · exact (hr.fresh x hx).imp_left Or.inr
  gone x hx hnot := by
    rw [NodeTree.handlesOf_append, List.mem_append] at hx hnot
    rcases hx with hx | hx
    · exact absurd (Or.inl hx) hnot
    · exact hr.gone x hx fun hnew => hnot (Or.inr hnew)
  frame x hold hnew hhome := by
    rw [NodeTree.handlesOf_append, List.mem_append, not_or] at hold hnew
    exact hr.frame x hold.2 hnew.2 hhome
  siblings p hp n pre post hn hchildren := by
    have hmoved := hr.siblings p hp n (pre ++ A.map NodeTree.handle) post hn
      (by simp [hchildren])
    simpa using hmoved
  vacant := hr.vacant

/-- What takes the place of seated trees is seated there. -/
theorem seated (hs : d.Seated home A) (hr : Regrown d d' home A B) : d'.Seated home B where
  held := hr.held
  parents := hr.parents
  nodup := hr.nodup
  apart p hp := by
    obtain ⟨n, hn⟩ := hs.home_live hp
    exact hr.not_mem_new hn (hs.apart p hp)
  hearth p hp := by
    obtain ⟨n, pre, post, hn, hchildren, hn'⟩ := hr.home_live hs hp
    obtain ⟨m, hm, hnodup, hkids⟩ := (hs.hearth p hp).exists_record
    rw [hn] at hm
    obtain rfl := Option.some.inj hm
    rw [hchildren] at hnodup hkids
    have hside : ∀ c, c ∈ pre ∨ c ∈ post → c ∉ handlesOf A ∧ c ∉ handlesOf B := by
      intro c hc
      obtain ⟨m, hm, hmp⟩ := hkids c (by rcases hc with hc | hc <;> simp [hc])
      have hA : c ∉ handlesOf A := by
        intro hA
        have htop := hs.mem_handles_of_child hp hA ⟨m, hm, hmp⟩
        simp only [List.nodup_append', List.disjoint_left] at hnodup
        rcases hc with hc | hc
        · exact hnodup.1.2.2 hc htop
        · exact hnodup.2.2 (List.mem_append_right pre htop) hc
      exact ⟨hA, hr.not_mem_new hm hA⟩
    refine ⟨_, hn', ?_, ?_⟩
    · have hB : (B.map NodeTree.handle).Nodup :=
        hr.nodup.sublist (Seated.kids.sublist_handlesOf B)
      simp only [List.nodup_append', List.disjoint_left, List.mem_append] at hnodup ⊢
      refine ⟨⟨hnodup.1.1, hB, fun c hc hcB => ?_⟩, hnodup.2.1, fun c hc hcp => ?_⟩
      · exact (hside c (Or.inl hc)).2 (NodeTree.map_handle_subset_handlesOf hcB)
      · rcases hc with hc | hc
        · exact hnodup.2.2 (Or.inl hc) hcp
        · exact (hside c (Or.inr hcp)).2 (NodeTree.map_handle_subset_handlesOf hc)
    · intro c hc
      by_cases hcB : c ∈ B.map NodeTree.handle
      · obtain ⟨t, ht, rfl⟩ := List.mem_map.mp hcB
        exact ⟨t.record, (hr.held t ht).get?_handle, by rw [hr.parents t ht, hp]⟩
      have hc' : c ∈ pre ∨ c ∈ post := by
        simp only [List.mem_append] at hc
        tauto
      obtain ⟨m, hm, hmp⟩ := hkids c (by rcases hc' with hc' | hc' <;> simp [hc'])
      by_cases hcp : c = p
      · subst hcp
        rw [hn] at hm
        obtain rfl := Option.some.inj hm
        exact ⟨_, hn', hmp⟩
      · refine ⟨m, ?_, hmp⟩
        rw [hr.frame c (hside c hc').1 (hside c hc').2 ?_, hm]
        rintro rfl
        exact hcp (Option.some.inj hp)
  listed p hp n hn := by
    obtain ⟨m, pre, post, hm, hchildren, hm'⟩ := hr.home_live hs hp
    rw [hm'] at hn
    obtain rfl := Option.some.inj hn
    exact ⟨pre, post, rfl⟩

/-- A change among the children of a node changes the node's tree in its place. -/
theorem inner (hs : d.Seated home [.node h n ks]) (hr : Regrown d d' (some h) ks ks') :
    Regrown d d' home [.node h n ks]
      [.node h { n with children := ks'.map NodeTree.handle } ks'] := by
  have ht : d.Holds (.node h n ks) := hs.held _ (List.mem_singleton_self _)
  have hkids := Seated.kids ht
  have htop : d'.get? h = some { n with children := ks'.map NodeTree.handle } := by
    simpa using hr.siblings h rfl n [] [] ht.get?_handle (by simp [ht.children])
  have hh : h ∉ handlesOf ks' := hr.not_mem_new ht.get?_handle ht.handle_not_mem_kids
  have hnew : (handlesOf [.node h { n with children := ks'.map NodeTree.handle } ks']).Nodup := by
    simp only [NodeTree.handlesOf_cons, NodeTree.handles_node, NodeTree.handlesOf_nil,
      List.append_nil, List.nodup_cons]
    exact ⟨hh, hr.nodup⟩
  have hheld : d'.Holds (.node h { n with children := ks'.map NodeTree.handle } ks') :=
    .node htop rfl hr.parents hr.held (by simpa using hnew)
  have hmem : ∀ m us, (x : Handle) → x ∈ handlesOf [.node h m us] ↔ x = h ∨ x ∈ handlesOf us := by
    intro m us x
    simp [handlesOf]
  refine ⟨?_, ?_, hnew, ?_, ?_, ?_, ?_, hr.vacant⟩
  · intro u hu
    obtain rfl := List.mem_singleton.mp hu
    exact hheld
  · intro u hu
    obtain rfl := List.mem_singleton.mp hu
    exact hs.parents (.node h n ks) (List.mem_singleton_self _)
  · intro x hx
    rw [hmem] at hx ⊢
    rcases hx with rfl | hx
    · exact Or.inl (Or.inl rfl)
    · exact (hr.fresh x hx).imp_left Or.inr
  · intro x hx hnot
    rw [hmem, not_or] at hnot
    rw [hmem] at hx
    rcases hx with rfl | hx
    · exact absurd rfl hnot.1
    · exact hr.gone x hx hnot.2
  · intro x hold hnew _
    rw [hmem, not_or] at hold hnew
    exact hr.frame x hold.2 hnew.2 fun hx => hold.1 (Option.some.inj hx).symm
  · intro p hp m pre post hm hchildren
    have hph : p ≠ h := by
      rintro rfl
      exact hs.apart p hp (by simp [handlesOf])
    have hpk : p ∉ handlesOf ks := fun hx => hs.apart p hp (by simp [handlesOf] at hx ⊢; simp [hx])
    have hsame := hr.frame p hpk (hr.not_mem_new hm hpk) fun hx => hph (Option.some.inj hx).symm
    rw [hsame, hm]
    simp at hchildren ⊢
    rw [← hchildren]

end Regrown

end Document

end TreeTemplate
