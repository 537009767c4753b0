import TreeTemplate.Proofs.Document.Events
import TreeTemplate.Proofs.Document.Scatter

/-!
The live nodes without a parent.  Everything live is below one of them (`Links.exists_top`), so what is
not attached to the root is below another one (`Forest.isAttached_iff`), and a document loses track of
nodes only where an operation leaves a node without a parent (`Sheds`).  The trees of these nodes are all
that is counted (`Forest.nodeCount_eq`).
-/

namespace TreeTemplate.Document

open NodeTree (handlesOf)
open Relation (ReflTransGen TransGen)

variable {d d' d₁ d₂ : Document} {h p x y : Handle} {n m : Node} {home : Option Handle}
  {A B : List NodeTree} {t : NodeTree} {T T' : List Handle}

/-- The handle is that of a live node without a parent. -/
def Top (d : Document) (x : Handle) : Prop :=
  ∃ n, d.get? x = some n ∧ n.parent? = none

theorem top_iff : d.Top x ↔ d.contains x = true ∧ ∀ p, ¬ d.ParentOf p x := by
  constructor
  · rintro ⟨n, hn, hfree⟩
    exact ⟨contains_of_get? hn, not_parentOf hn hfree⟩
  · rintro ⟨hlive, hfree⟩
    obtain ⟨n, hn⟩ := exists_of_contains hlive
    exact ⟨n, hn, Option.eq_none_iff_forall_ne_some.mpr fun p hp => hfree p ⟨n, hn, hp⟩⟩

theorem ParentOf.not_top (hpx : d.ParentOf p x) : ¬ d.Top x :=
  fun hx => (top_iff.mp hx).2 p hpx

theorem Top.exists_parentOf (hn : d.get? x = some n) (hx : ¬ d.Top x) : ∃ p, d.ParentOf p x := by
  obtain ⟨p, hp⟩ := Option.ne_none_iff_exists'.mp fun hfree => hx ⟨n, hn, hfree⟩
  exact ⟨p, n, hn, hp⟩

/-- A node of a tree that has no parent is the top of the tree. -/
theorem Holds.eq_of_top (ht : d.Holds t) (hx : x ∈ t.handles) (htop : d.Top x) : x = t.handle := by
  by_contra hne
  obtain ⟨m, q, hm, hq, -⟩ := ht.exists_parent hx hne
  exact ParentOf.not_top ⟨m, hm, hq⟩ htop

theorem Top.eq_of_above (hy : d.Top y) (hxy : d.Above x y) : x = y := by
  obtain ⟨n, hn, hfree⟩ := hy
  exact Document.eq_of_above hn hfree hxy

/-- No live node is below two nodes without a parent. -/
theorem Top.unique (hx : d.Top x) (hy : d.Top y) (hxh : d.Above x h) (hyh : d.Above y h) : x = y := by
  induction hxh with
  | refl => exact (hx.eq_of_above hyh).symm
  | tail _ hpc ih =>
    rcases above_iff.mp hyh with rfl | ⟨q, hqc, hyq⟩
    · exact absurd hy hpc.not_top
    · exact ih (hqc.unique hpc ▸ hyq)

namespace Links

theorem root_top (hd : d.Links) : d.Top root :=
  hd.rooted

/-- Above every live node there is one without a parent. -/
theorem exists_top (hd : d.Links) (hn : d.get? x = some n) : ∃ y, d.Top y ∧ d.Above y x := by
  have := finite_live d
  have hwf : WellFounded fun p c : {h : Handle // ∃ n, d.get? h = some n} =>
      TransGen d.ParentOf p.1 c.1 := by
    have htrans : IsTrans {h : Handle // ∃ n, d.get? h = some n}
        fun p c => TransGen d.ParentOf p.1 c.1 := ⟨fun _ _ _ hab hbc => hab.trans hbc⟩
    have hirrefl : Std.Irrefl fun p c : {h : Handle // ∃ n, d.get? h = some n} =>
        TransGen d.ParentOf p.1 c.1 := ⟨fun h => hd.acyclic h.1⟩
    exact Finite.wellFounded_of_trans_of_irrefl _
  suffices ∀ c : {h : Handle // ∃ n, d.get? h = some n}, ∃ y, d.Top y ∧ d.Above y c.1 from
    this ⟨x, n, hn⟩
  intro c
  induction c using hwf.induction with
  | _ c ih =>
    obtain ⟨c, m, hm⟩ := c
    by_cases hc : d.Top c
    · exact ⟨c, hc, .refl⟩
    · obtain ⟨p, hpc⟩ := Top.exists_parentOf hm hc
      obtain ⟨y, hy, hyp⟩ := ih ⟨p, hd.parent_live p c hpc⟩ (.single hpc)
      exact ⟨y, hy, hyp.tail hpc⟩

end Links

/-! ### What is attached -/

/-- Going up from a node of a tree leads to the top of the tree, in fewer steps than it has nodes. -/
theorem Holds.exists_topWithin (ht : d.Holds t) (hx : x ∈ t.handles) :
    ∃ k < t.size, ∀ steps, d.topWithin (k + steps) x = d.topWithin steps t.handle := by
  induction t using NodeTree.induct with
  | step h n ks ih =>
    rw [NodeTree.handles_node, List.mem_cons, List.mem_flatMap] at hx
    rcases hx with rfl | ⟨k, hk, hx⟩
    · exact ⟨0, NodeTree.size_pos _, fun steps => by rw [Nat.zero_add, NodeTree.handle_node]⟩
    · obtain ⟨j, hj, hup⟩ := ih k hk (ht.kid hk) hx
      have hlt := NodeTree.size_lt_of_mem (h := h) (n := n) hk
      have hparent : d.parent? k.handle = some h := by
        rw [parent?, node_of_get? (ht.kid hk).get?_handle, ht.parent hk]
      refine ⟨j + 1, by omega, fun steps => ?_⟩
      rw [Nat.add_right_comm, Nat.add_assoc, hup, topWithin, hparent, NodeTree.handle_node]

/-- What is attached is what the root is above. -/
theorem Forest.isAttached_iff (hd : d.Forest) (hn : d.get? x = some n) :
    d.isAttached x = true ↔ d.Above root x := by
  obtain ⟨y, hy, hyx⟩ := hd.links.exists_top hn
  obtain ⟨m, hm, hfree⟩ := hy
  obtain ⟨ks, ht⟩ := hd.held y m hm
  obtain ⟨k, hk, hup⟩ := ht.exists_topWithin ((hd.mem_handles_iff ht).mpr hyx)
  have hsize := ht.size_lt_reach
  have htop : ∀ steps, d.topWithin steps y = y := by
    intro steps
    cases steps with
    | zero => rfl
    | succ steps => rw [topWithin, parent?, node_of_get? hm, hfree]
  have hreach : d.topWithin d.reach x = y := by
    rw [show d.reach = k + (d.reach - k) by omega, hup, NodeTree.handle_node, htop]
  rw [isAttached, hreach, decide_eq_true_iff]
  constructor
  · rintro rfl
    exact hyx
  · intro hroot
    exact Top.unique ⟨m, hm, hfree⟩ hd.links.root_top hyx hroot

/-! ### What operations leave without a parent -/

/-- Beside the nodes that had no parent before, just those in `T` have none now. -/
def Sheds (d d' : Document) (T : List Handle) : Prop :=
  ∀ y, d'.Top y ↔ d.Top y ∨ y ∈ T

namespace Sheds

theorem refl : Sheds d d [] := by
  intro y
  simp

theorem trans (h : Sheds d d₁ T) (h' : Sheds d₁ d₂ T') : Sheds d d₂ (T ++ T') := by
  intro y
  rw [h' y, h y, List.mem_append, or_assoc]

theorem trans_nil (h : Sheds d d₁ []) (h' : Sheds d₁ d₂ T) : Sheds d d₂ T :=
  h.trans h'

end Sheds

theorem Unmoved.sheds (hu : Unmoved d d') : Sheds d d' [] := by
  intro y
  simp only [List.not_mem_nil, or_false]
  constructor
  · rintro ⟨n, hn, hfree⟩
    obtain ⟨m, hm, hlinks⟩ := hu.get?_before hn
    exact ⟨m, hm, (congrArg Prod.fst hlinks).trans hfree⟩
  · rintro ⟨n, hn, hfree⟩
    obtain ⟨m, hm, hlinks⟩ := hu.get?_after hn
    exact ⟨m, hm, (congrArg Prod.fst hlinks).trans hfree⟩

/-- Fresh trees without a parent are shed; below a live node none is. -/
theorem Grown.sheds (hg : Grown d d' home B) (hhome : ∀ p ∈ home, ∃ n, d.get? p = some n) :
    Sheds d d' (if home = none then B.map NodeTree.handle else []) := by
  intro y
  constructor
  · rintro hy
    by_cases hB : y ∈ handlesOf B
    · obtain ⟨t, ht, hyt⟩ := NodeTree.mem_handlesOf.mp hB
      obtain rfl := (hg.held t ht).eq_of_top hyt hy
      obtain ⟨n, hn, hfree⟩ := hy
      rw [(hg.held t ht).get?_handle] at hn
      obtain rfl := Option.some.inj hn
      rw [hg.parents t ht] at hfree
      rw [if_pos hfree]
      exact Or.inr (List.mem_map_of_mem ht)
    · left
      obtain ⟨n, hn, hfree⟩ := hy
      by_cases hhy : home = some y
      · obtain ⟨m, hm⟩ := hhome y hhy
        rw [hg.parent y hhy m hm] at hn
        obtain rfl := Option.some.inj hn
        exact ⟨m, hm, hfree⟩
      · exact ⟨n, by rw [← hg.frame y hB hhy, hn], hfree⟩
  · rintro (⟨n, hn, hfree⟩ | hy)
    · obtain ⟨m, hm, hparent⟩ := hg.kept y n trivial hn
      exact ⟨m, hm, hparent.trans hfree⟩
    · split at hy
      · next hnone =>
        obtain ⟨t, ht, rfl⟩ := List.mem_map.mp hy
        exact ⟨t.record, (hg.held t ht).get?_handle, (hg.parents t ht).trans hnone⟩
      · simp at hy

/-- Trees that take the place of others have a parent if those had one. -/
theorem Regrown.top_iff (hs : d.Seated home A) (hr : Regrown d d' home A B) :
    d'.Top y ↔ d.Top y ∧ y ∉ A.map NodeTree.handle ∨ home = none ∧ y ∈ B.map NodeTree.handle := by
  constructor
  · intro hy
    by_cases hB : y ∈ handlesOf B
    · obtain ⟨t, ht, hyt⟩ := NodeTree.mem_handlesOf.mp hB
      obtain rfl := (hr.held t ht).eq_of_top hyt hy
      obtain ⟨n, hn, hfree⟩ := hy
      rw [(hr.held t ht).get?_handle] at hn
      obtain rfl := Option.some.inj hn
      exact Or.inr ⟨(hr.parents t ht).symm.trans hfree, List.mem_map_of_mem ht⟩
    · obtain ⟨n, hn, hfree⟩ := hy
      obtain ⟨hA, m, hm, hparent⟩ := hr.get?_before hs hn hB
      refine Or.inl ⟨⟨m, hm, hparent.trans hfree⟩, fun hmem => hA ?_⟩
      obtain ⟨t, ht, rfl⟩ := List.mem_map.mp hmem
      exact NodeTree.mem_handlesOf_of_mem ht t.handle_mem_handles
  · rintro (⟨⟨n, hn, hfree⟩, hA⟩ | ⟨hnone, hmem⟩)
    · have hout : y ∉ handlesOf A := by
        intro hmem
        obtain ⟨t, ht, hyt⟩ := NodeTree.mem_handlesOf.mp hmem
        obtain rfl := (hs.held t ht).eq_of_top hyt ⟨n, hn, hfree⟩
        exact hA (List.mem_map_of_mem ht)
      obtain ⟨m, hm, hparent⟩ := hr.get?_after hs hn hout
      exact ⟨m, hm, hparent.trans hfree⟩
    · obtain ⟨t, ht, rfl⟩ := List.mem_map.mp hmem
      exact ⟨t.record, (hr.held t ht).get?_handle, (hr.parents t ht).trans hnone⟩

/-- Below a parent trees take the place of others without shedding any. -/
theorem Regrown.sheds (hs : d.Seated (some p) A) (hr : Regrown d d' (some p) A B) :
    Sheds d d' [] := by
  intro y
  rw [hr.top_iff hs]
  simp only [reduceCtorEq, false_and, or_false, List.not_mem_nil, and_iff_left_iff_imp]
  intro hy hmem
  obtain ⟨t, ht, rfl⟩ := List.mem_map.mp hmem
  exact ParentOf.not_top ⟨t.record, (hs.held t ht).get?_handle, hs.parents t ht⟩ hy

/-- A node that keeps its handle sheds nothing when its tree changes. -/
theorem Regrown.sheds_of_handle_eq {t' : NodeTree} (hs : d.Seated home [t])
    (hr : Regrown d d' home [t] [t']) (hhandle : t'.handle = t.handle) : Sheds d d' [] := by
  intro y
  rw [hr.top_iff hs]
  have htop : d.Top t.handle ↔ home = none := by
    have hheld := hs.held t (List.mem_singleton_self t)
    rw [← hs.parents t (List.mem_singleton_self t)]
    exact ⟨fun ⟨n, hn, hfree⟩ => Option.some.inj (hn.symm.trans hheld.get?_handle) ▸ hfree,
      fun hfree => ⟨t.record, hheld.get?_handle, hfree⟩⟩
  simp only [List.map_cons, List.map_nil, List.mem_singleton, hhandle, List.not_mem_nil, or_false]
  by_cases hyt : y = t.handle
  · subst hyt
    simp [htop]
  · simp [hyt]

/-- A node without a parent takes the place of one that has a parent, which is left without one. -/
theorem Links.top_replace (hd : d.Links) (hh : d.Top h) (hroot : h ≠ root) (hpx : d.ParentOf p x)
    (habove : ¬ d.Above h x) : (d.replace h x).Top y ↔ d.Top y ∧ y ≠ h ∨ y = x := by
  obtain ⟨n, hn, hfree⟩ := hh
  obtain ⟨m, hm, hparent⟩ := hpx
  have hexchanged := hd.exchange hn hfree hroot hm habove
  have hpx : d.ParentOf p x := ⟨m, hm, hparent⟩
  have hhx : h ≠ x := fun heq => habove (heq ▸ .refl)
  rw [Document.top_iff, Document.top_iff, (SameSlots.replace d h x).contains_eq]
  simp only [hexchanged.parentOf_iff]
  constructor
  · rintro ⟨hlive, hfree'⟩
    by_cases hyx : y = x
    · exact Or.inr hyx
    · have hyh : y ≠ h := fun hyh => hfree' p (Or.inr ⟨hpx, hyh⟩)
      exact Or.inl ⟨⟨hlive, fun q hq => hfree' q (Or.inl ⟨hq, hyh, hyx⟩)⟩, hyh⟩
  · rintro (⟨⟨hlive, hfree'⟩, hyh⟩ | rfl)
    · refine ⟨hlive, fun q hq => ?_⟩
      rcases hq with ⟨hq, -, -⟩ | ⟨-, hyh'⟩
      · exact hfree' q hq
      · exact hyh hyh'
    · refine ⟨contains_of_get? hm, fun q hq => ?_⟩
      rcases hq with ⟨-, -, hne⟩ | ⟨-, heq⟩
      · exact hne rfl
      · exact hhx heq.symm

/-! ### Counting -/

/-- Every live node is counted once, in the tree of the one node without a parent that it is below. -/
theorem Forest.nodeCount_eq {ys : List Handle} (hd : d.Forest) (hys : ys.Nodup)
    (htop : ∀ y, d.Top y ↔ y ∈ ys) : d.nodeCount = (ys.flatMap d.subtree).length := by
  have hmem : ∀ y ∈ ys, ∀ x, x ∈ d.subtree y ↔ d.contains x = true ∧ d.Above y x := by
    intro y hy x
    obtain ⟨n, hn, -⟩ := (htop y).mpr hy
    obtain ⟨ks, ht⟩ := hd.held y n hn
    have hsubtree : d.subtree y = (NodeTree.node y n ks).handles := subtree_eq ht
    rw [hsubtree, hd.mem_handles_iff ht, NodeTree.handle_node]
    refine ⟨fun habove => ⟨?_, habove⟩, And.right⟩
    obtain ⟨m, hm⟩ := ht.get?_of_mem ((hd.mem_handles_iff ht).mpr habove)
    exact contains_of_get? hm
  have hnodup : (ys.flatMap d.subtree).Nodup := by
    rw [List.nodup_flatMap]
    refine ⟨fun y hy => ?_, hys.imp_of_mem fun {y z} hy hz hne x hxy hxz => hne ?_⟩
    · obtain ⟨n, hn, -⟩ := (htop y).mpr hy
      obtain ⟨ks, ht⟩ := hd.held y n hn
      have hsubtree : d.subtree y = (NodeTree.node y n ks).handles := subtree_eq ht
      rw [hsubtree]
      exact ht.nodup
    · exact Top.unique ((htop y).mpr hy) ((htop z).mpr hz) ((hmem y hy x).mp hxy).2
        ((hmem z hz x).mp hxz).2
  have hlive : {x | d.contains x = true} = {x | x ∈ ys.flatMap d.subtree} := by
    ext x
    simp only [Set.mem_ofPred_eq, List.mem_flatMap]
    constructor
    · intro hx
      obtain ⟨n, hn⟩ := exists_of_contains hx
      obtain ⟨y, hy, hyx⟩ := hd.links.exists_top hn
      exact ⟨y, (htop y).mp hy, (hmem y ((htop y).mp hy) x).mpr ⟨hx, hyx⟩⟩
    · rintro ⟨y, hy, hx⟩
      exact ((hmem y hy x).mp hx).1
  rw [← hd.tidy.nodeCount_eq, hlive, ← List.toFinset_card_of_nodup hnodup, ← Set.ncard_coe_finset]
  congr 1
  ext x
  simp

end TreeTemplate.Document
