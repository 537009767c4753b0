import Mathlib.Data.Set.Card
import Mathlib.Logic.Relation
import Mathlib.Order.WellFounded
import Mathlib.Data.Fintype.EquivFin
import TreeTemplate.Proofs.Document.Forest

/-!
Documents by their links.  `Links` says that the two sides of every link agree and that no node is
above itself; it says nothing about trees.  Since a document is finite, it holds a tree under each
live handle all the same (`Links.forest`), so an operation may be judged by the links that it changes
or by the trees that it puts in the place of others, whichever is nearer.
-/

namespace TreeTemplate.Document

open NodeTree (handlesOf)
open Relation (ReflTransGen TransGen)

variable {d d' : Document} {h p c x y : Handle} {n m : Node} {ks : List NodeTree} {t u : NodeTree}

/-- The live node `c` has the parent `p`. -/
def ParentOf (d : Document) (p c : Handle) : Prop :=
  ∃ n, d.get? c = some n ∧ n.parent? = some p

/-- The node `x` is `y` or one of its ancestors. -/
def Above (d : Document) (x y : Handle) : Prop :=
  ReflTransGen d.ParentOf x y

theorem parentOf_iff : d.ParentOf p c ↔ (d.get? c).bind Node.parent? = some p := by
  rw [Option.bind_eq_some_iff]
  rfl

theorem not_parentOf (hn : d.get? h = some n) (hfree : n.parent? = none) (p : Handle) :
    ¬ d.ParentOf p h := by
  rw [parentOf_iff, hn, Option.bind_some, hfree]
  simp

theorem ParentOf.unique (hp : d.ParentOf p c) (hx : d.ParentOf x c) : p = x := by
  obtain ⟨n, hn, hpn⟩ := hp
  obtain ⟨m, hm, hxm⟩ := hx
  obtain rfl := Option.some.inj (hn.symm.trans hm)
  exact Option.some.inj (hpn.symm.trans hxm)

/-- Above a node there is only the node itself, or its parent and what is above that. -/
theorem above_iff : d.Above x y ↔ x = y ∨ ∃ p, d.ParentOf p y ∧ d.Above x p := by
  constructor
  · intro hxy
    rcases Relation.ReflTransGen.cases_tail hxy with rfl | ⟨p, hxp, hpy⟩
    · exact Or.inl rfl
    · exact Or.inr ⟨p, hpy, hxp⟩
  · rintro (rfl | ⟨p, hpy, hxp⟩)
    · exact .refl
    · exact .tail hxp hpy

/-- A node without a parent is above nothing that is above it. -/
theorem eq_of_above (hn : d.get? y = some n) (hparent : n.parent? = none) (hxy : d.Above x y) :
    x = y := by
  rcases above_iff.mp hxy with rfl | ⟨p, ⟨m, hm, hp⟩, -⟩
  · rfl
  · obtain rfl := Option.some.inj (hn.symm.trans hm)
    simp [hparent] at hp

/-- Both sides of every link agree, every link is between live nodes, and no node is above itself. -/
structure Links (d : Document) : Prop where
  tidy : d.Tidy
  rooted : ∃ r, d.get? root = some r ∧ r.parent? = none
  mem_children_iff : ∀ p n c m, d.get? p = some n → d.get? c = some m →
    (c ∈ n.children ↔ m.parent? = some p)
  nodup : ∀ p n, d.get? p = some n → n.children.Nodup
  child_live : ∀ p n c, d.get? p = some n → c ∈ n.children → ∃ m, d.get? c = some m
  parent_live : ∀ p c, d.ParentOf p c → ∃ n, d.get? p = some n
  acyclic : ∀ h, ¬ TransGen d.ParentOf h h

namespace Links

/-- The children of a node are those that have it as their parent. -/
theorem mem_children (hd : d.Links) (hn : d.get? p = some n) : c ∈ n.children ↔ d.ParentOf p c := by
  constructor
  · intro hc
    obtain ⟨m, hm⟩ := hd.child_live p n c hn hc
    exact ⟨m, hm, (hd.mem_children_iff p n c m hn hm).mp hc⟩
  · rintro ⟨m, hm, hp⟩
    exact (hd.mem_children_iff p n c m hn hm).mpr hp

/-- The root has no parent. -/
theorem not_parentOf_root (hd : d.Links) : ¬ d.ParentOf p root := by
  obtain ⟨r, hr, hparent⟩ := hd.rooted
  exact not_parentOf hr hparent p

theorem of_mem_children (ht : d.Tidy) (hlive : ∃ r, d.get? root = some r)
    (hroot : ∀ p, ¬ d.ParentOf p root)
    (hmem : ∀ p n c, d.get? p = some n → (c ∈ n.children ↔ d.ParentOf p c))
    (hnodup : ∀ p n, d.get? p = some n → n.children.Nodup)
    (hparent : ∀ p c, d.ParentOf p c → ∃ n, d.get? p = some n)
    (hacyclic : ∀ h, ¬ TransGen d.ParentOf h h) : d.Links := by
  constructor
  · exact ht
  · obtain ⟨r, hr⟩ := hlive
    exact ⟨r, hr, Option.eq_none_iff_forall_ne_some.mpr fun p hp => hroot p ⟨r, hr, hp⟩⟩
  · intro p n c m hn hm
    rw [hmem p n c hn, parentOf_iff, hm, Option.bind_some]
  · exact hnodup
  · intro p n c hn hc
    obtain ⟨m, hm, -⟩ := (hmem p n c hn).mp hc
    exact ⟨m, hm⟩
  · exact hparent
  · exact hacyclic

end Links

/-! ### From trees to links -/

namespace Holds

/-- Inside a tree, the nodes below one of its nodes are in the tree. -/
theorem mem_of_child (ht : d.Holds t) (hx : x ∈ t.handles) (hn : d.get? x = some n)
    (hc : c ∈ n.children) : c ∈ t.handles := by
  obtain ⟨u, rfl, hu, hsub⟩ := ht.exists_below hx
  obtain ⟨h, m, ks⟩ := u
  obtain rfl : m = n := Option.some.inj (hu.get?_handle.symm.trans hn)
  rw [hu.children] at hc
  obtain ⟨k, hk, rfl⟩ := List.mem_map.mp hc
  have hmem : (k.handle, k.record) ∈ t.entries :=
    hsub (NodeTree.mem_entries_of_kid hk k.top_mem_entries)
  exact List.mem_map_of_mem hmem

/-- The top of a tree is above all its nodes. -/
theorem above_of_mem (ht : d.Holds t) (hx : x ∈ t.handles) : d.Above t.handle x := by
  induction t using NodeTree.induct with
  | step h n ks ih =>
    rw [NodeTree.handles_node, List.mem_cons, List.mem_flatMap] at hx
    rcases hx with rfl | ⟨k, hk, hx⟩
    · exact .refl
    · have hkid : d.ParentOf h k.handle := ⟨k.record, (ht.kid hk).get?_handle, ht.parent hk⟩
      exact .head hkid (ih k hk (ht.kid hk) hx)

end Holds

/-- In a forest the nodes of a tree are those that its top is above. -/
theorem Forest.mem_handles_iff (hd : d.Forest) (ht : d.Holds t) :
    x ∈ t.handles ↔ d.Above t.handle x := by
  constructor
  · exact ht.above_of_mem
  · intro hx
    induction hx with
    | refl => exact t.handle_mem_handles
    | tail _ hpc ih =>
      obtain ⟨n, hn, hp⟩ := hpc
      obtain ⟨m, hm, hmem⟩ := hd.listed _ n _ hn hp
      exact ht.mem_of_child ih hm hmem

/-- The links of a forest agree. -/
theorem Forest.links (hd : d.Forest) : d.Links := by
  obtain ⟨r, hr, hparent⟩ := hd.rooted
  apply Links.of_mem_children
  · exact hd.tidy
  · exact ⟨r, hr⟩
  · exact not_parentOf hr hparent
  · intro p n c hn
    constructor
    · intro hc
      obtain ⟨ks, ht⟩ := hd.held p n hn
      rw [ht.children] at hc
      obtain ⟨k, hk, rfl⟩ := List.mem_map.mp hc
      exact ⟨k.record, (ht.kid hk).get?_handle, ht.parent hk⟩
    · rintro ⟨m, hm, hp⟩
      obtain ⟨n', hn', hmem⟩ := hd.listed c m p hm hp
      obtain rfl := Option.some.inj (hn.symm.trans hn')
      exact hmem
  · intro p n hn
    obtain ⟨ks, ht⟩ := hd.held p n hn
    rw [ht.children]
    exact ht.kids_nodup.sublist (Seated.kids.sublist_handlesOf ks)
  · rintro p c ⟨m, hm, hp⟩
    obtain ⟨n, hn, -⟩ := hd.listed c m p hm hp
    exact ⟨n, hn⟩
  · intro h hcycle
    obtain ⟨c, ⟨m, hm, hp⟩, hch⟩ := Relation.TransGen.head'_iff.mp hcycle
    obtain ⟨n, hn, hmem⟩ := hd.listed c m h hm hp
    obtain ⟨ks, ht⟩ := hd.held h n hn
    rw [ht.children] at hmem
    obtain ⟨k, hk, rfl⟩ := List.mem_map.mp hmem
    have hhk : h ∈ k.handles := (hd.mem_handles_iff (ht.kid hk)).mpr hch
    exact ht.handle_not_mem_kids (NodeTree.mem_handlesOf_of_mem hk hhk)

/-! ### From links to trees -/

/-- There are only so many live handles. -/
theorem finite_live (d : Document) : Finite {h : Handle // ∃ n, d.get? h = some n} := by
  have hinj : Function.Injective
      fun h : {h : Handle // ∃ n, d.get? h = some n} =>
        (⟨h.1.slot, slot_lt_of_get? h.2.choose_spec⟩ : Fin d.slots.size) := by
    intro h x hslot
    apply Subtype.ext
    exact eq_of_slot_eq h.2.choose_spec x.2.choose_spec (Fin.mk.inj hslot)
  exact Finite.of_injective _ hinj

namespace Links

/-- Going down comes to an end. -/
theorem wellFounded (hd : d.Links) :
    WellFounded fun c p : {h : Handle // ∃ n, d.get? h = some n} => TransGen d.ParentOf p.1 c.1 := by
  have := finite_live d
  have htrans : IsTrans {h : Handle // ∃ n, d.get? h = some n}
      fun c p => TransGen d.ParentOf p.1 c.1 := ⟨fun _ _ _ hab hbc => hbc.trans hab⟩
  have hirrefl : Std.Irrefl fun c p : {h : Handle // ∃ n, d.get? h = some n} =>
      TransGen d.ParentOf p.1 c.1 := ⟨fun h => hd.acyclic h.1⟩
  exact Finite.wellFounded_of_trans_of_irrefl _

/-- No child is above its parent. -/
theorem not_above (hd : d.Links) (hpc : d.ParentOf p c) : ¬ d.Above c p :=
  fun hcp => hd.acyclic p (.head' hpc hcp)

/-- The tree of a child does not hold another child of the same node. -/
theorem sibling_not_mem (hd : d.Links) (ht : d.Holds t) (htop : d.ParentOf p t.handle)
    (hx : d.ParentOf p x) (hne : x ≠ t.handle) : x ∉ t.handles := by
  intro hmem
  obtain ⟨m, q, hm, hq, hqt⟩ := ht.exists_parent hmem hne
  obtain rfl : q = p := ParentOf.unique ⟨m, hm, hq⟩ hx
  exact hd.not_above htop (ht.above_of_mem hqt)

/-- The trees of different children of one node have no node in common. -/
theorem disjoint_siblings (hd : d.Links) (ht : d.Holds t) (hu : d.Holds u)
    (hpt : d.ParentOf p t.handle) (hpu : d.ParentOf p u.handle) (hne : t.handle ≠ u.handle) :
    List.Disjoint t.handles u.handles := by
  intro x hxt hxu
  have htop : t.handle ∉ u.handles := hd.sibling_not_mem hu hpu hpt hne
  have hmem : u.handle ∈ t.handles := ht.handle_mem_of_meet hu htop hxt hxu
  exact hd.sibling_not_mem ht hpt hpu hne.symm hmem

/-- Under every live handle the document holds a tree. -/
theorem exists_holds (hd : d.Links) (hn : d.get? h = some n) : ∃ ks, d.Holds (.node h n ks) := by
  suffices ∀ x : {h : Handle // ∃ n, d.get? h = some n}, ∀ n, d.get? x.1 = some n →
      ∃ ks, d.Holds (.node x.1 n ks) from this ⟨h, n, hn⟩ n hn
  intro x
  induction x using hd.wellFounded.induction with
  | _ x ih =>
    obtain ⟨h, hlive⟩ := x
    intro n hn
    have hkid : ∀ c ∈ n.children, ∃ k : NodeTree, k.handle = c ∧ d.Holds k ∧
        k.record.parent? = some h := by
      intro c hc
      obtain ⟨m, hm, hp⟩ := (hd.mem_children hn).mp hc
      obtain ⟨ks, ht⟩ := ih ⟨c, m, hm⟩ (.single ⟨m, hm, hp⟩) m hm
      exact ⟨_, rfl, ht, hp⟩
    have hkid' : ∀ c : Handle, ∃ k : NodeTree, c ∈ n.children → k.handle = c ∧ d.Holds k ∧
        k.record.parent? = some h := by
      intro c
      by_cases hc : c ∈ n.children
      · obtain ⟨k, hk⟩ := hkid c hc
        exact ⟨k, fun _ => hk⟩
      · exact ⟨.node c n [], fun hmem => absurd hmem hc⟩
    choose f hf using hkid'
    have hchildren : n.children = (n.children.map f).map NodeTree.handle := by
      rw [List.map_map]
      exact (List.map_id n.children).symm.trans
        (List.map_congr_left fun c hc => (hf c hc).1.symm)
    have hkids : ∀ k ∈ n.children.map f, d.Holds k ∧ k.record.parent? = some h := by
      intro k hk
      obtain ⟨c, hc, rfl⟩ := List.mem_map.mp hk
      exact (hf c hc).2
    have hparent : ∀ k ∈ n.children.map f, d.ParentOf h k.handle := fun k hk =>
      ⟨k.record, (hkids k hk).1.get?_handle, (hkids k hk).2⟩
    refine ⟨n.children.map f, .node hn hchildren (fun k hk => (hkids k hk).2)
      (fun k hk => (hkids k hk).1) ?_⟩
    rw [List.nodup_cons, List.mem_flatMap, List.nodup_flatMap]
    refine ⟨?_, fun k hk => (hkids k hk).1.nodup, ?_⟩
    · rintro ⟨k, hk, hmem⟩
      exact hd.not_above (hparent k hk) ((hkids k hk).1.above_of_mem hmem)
    · have hnodup := hd.nodup h n hn
      rw [hchildren, List.Nodup, List.pairwise_map] at hnodup
      refine hnodup.imp_of_mem fun hk hk' hne => ?_
      exact hd.disjoint_siblings (hkids _ hk).1 (hkids _ hk').1 (hparent _ hk) (hparent _ hk') hne

/-- A document whose links agree is a forest. -/
theorem forest (hd : d.Links) : d.Forest := by
  constructor
  · exact hd.tidy
  · exact hd.rooted
  · intro h n hn
    exact hd.exists_holds hn
  · intro h n p hn hp
    obtain ⟨m, hm⟩ := hd.parent_live p h ⟨n, hn, hp⟩
    exact ⟨m, hm, (hd.mem_children_iff p m h n hm hn).mpr hp⟩

end Links

/-! ### Counting -/

/-- The slots of live nodes are those that are not free. -/
theorem Tidy.image_slot (ht : d.Tidy) :
    Handle.slot '' {h | d.contains h = true} =
      ↑(Finset.range d.slots.size \ d.free.toFinset) := by
  ext i
  simp only [Set.mem_image, Set.mem_ofPred_eq, Finset.coe_sdiff, Finset.coe_range, Set.mem_sdiff,
    Set.mem_Iio, Finset.mem_coe, List.mem_toFinset, ht.mem_free]
  constructor
  · rintro ⟨h, hh, rfl⟩
    obtain ⟨n, hn⟩ := Option.isSome_iff_exists.mp hh
    obtain ⟨s, hs, -, hnode⟩ := get?_eq_some_iff.mp hn
    refine ⟨slot_lt_of_get? hn, ?_⟩
    rintro ⟨s', hs', hnone⟩
    obtain rfl := Option.some.inj (hs.symm.trans hs')
    simp [hnode] at hnone
  · rintro ⟨hlt, hfree⟩
    have hslot : d.slots[i]? = some d.slots[i] := Array.getElem?_eq_getElem hlt
    cases hnode : d.slots[i].node? with
    | none => exact absurd ⟨_, hslot, hnode⟩ hfree
    | some n =>
      have hn : d.get? ⟨i, d.slots[i].generation⟩ = some n :=
        get?_eq_some_iff.mpr ⟨_, hslot, rfl, hnode⟩
      exact ⟨⟨i, d.slots[i].generation⟩, contains_of_get? hn, rfl⟩

/-- The node count is the number of live handles. -/
theorem Tidy.nodeCount_eq (ht : d.Tidy) : {h | d.contains h = true}.ncard = d.nodeCount := by
  have hinj : Set.InjOn Handle.slot {h | d.contains h = true} := by
    intro h hh x hx hslot
    obtain ⟨n, hn⟩ := Option.isSome_iff_exists.mp hh
    obtain ⟨m, hm⟩ := Option.isSome_iff_exists.mp hx
    exact eq_of_slot_eq hn hm hslot
  have hsub : d.free.toFinset ⊆ Finset.range d.slots.size := by
    intro i hi
    obtain ⟨s, hs, -⟩ := (ht.mem_free i).mp (List.mem_toFinset.mp hi)
    exact Finset.mem_range.mpr (Array.getElem?_eq_some_iff.mp hs).choose
  calc {h | d.contains h = true}.ncard
      = (Handle.slot '' {h | d.contains h = true}).ncard := hinj.ncard_image.symm
    _ = (Finset.range d.slots.size \ d.free.toFinset).card := by
        rw [ht.image_slot, Set.ncard_coe_finset]
    _ = d.slots.size - d.free.length := by
        rw [Finset.card_sdiff_of_subset hsub, Finset.card_range,
          List.toFinset_card_of_nodup ht.free_nodup]

/-! ### Well-formed documents -/

/-- The arena and the tree of a document are in order. -/
structure WellFormed (d : Document) : Prop where
  /-- The free list holds every vacant slot once and nothing else. -/
  tidy : d.Tidy
  rooted : ∃ r, d.get? root = some r ∧ r.parent? = none
  mem_children_iff : ∀ p n c m, d.get? p = some n → d.get? c = some m →
    (c ∈ n.children ↔ m.parent? = some p)
  /-- A child is live, is listed once, and by nobody else. -/
  child : ∀ p n c, d.get? p = some n → c ∈ n.children →
    (∃ m, d.get? c = some m) ∧ n.children.count c = 1 ∧
      ∀ q k, d.get? q = some k → c ∈ k.children → q = p
  parent_live : ∀ p c, d.ParentOf p c → ∃ n, d.get? p = some n
  acyclic : ∀ h, ¬ TransGen d.ParentOf h h
  nodeCount_eq : {h | d.contains h = true}.ncard = d.nodeCount

theorem WellFormed.links (hd : d.WellFormed) : d.Links := by
  constructor
  · exact hd.tidy
  · exact hd.rooted
  · exact hd.mem_children_iff
  · intro p n hn
    exact List.nodup_iff_count_eq_one.mpr fun c hc => (hd.child p n c hn hc).2.1
  · intro p n c hn hc
    exact (hd.child p n c hn hc).1
  · exact hd.parent_live
  · exact hd.acyclic

theorem Links.wellFormed (hd : d.Links) : d.WellFormed := by
  constructor
  · exact hd.tidy
  · exact hd.rooted
  · exact hd.mem_children_iff
  · intro p n c hn hc
    obtain ⟨m, hm⟩ := hd.child_live p n c hn hc
    refine ⟨⟨m, hm⟩, List.count_eq_one_of_mem (hd.nodup p n hn) hc, fun q k hk hck => ?_⟩
    have hp := (hd.mem_children_iff p n c m hn hm).mp hc
    have hq := (hd.mem_children_iff q k c m hk hm).mp hck
    exact Option.some.inj (hq.symm.trans hp)
  · exact hd.parent_live
  · exact hd.acyclic
  · exact hd.tidy.nodeCount_eq

theorem WellFormed.forest (hd : d.WellFormed) : d.Forest :=
  hd.links.forest

theorem Forest.wellFormed (hd : d.Forest) : d.WellFormed :=
  hd.links.wellFormed

end TreeTemplate.Document
