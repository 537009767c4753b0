import TreeTemplate.Proofs.Document.Links
import TreeTemplate.Proofs.Document.Planting

/-!
What keeps a document in order, as long as no subtree moves.  Records may change if the links stay
(`Unmoved`), trees may take the place of others (`Forest.regrown`), and fresh trees may be added
anywhere (`Forest.grown`).
-/

namespace TreeTemplate

def Node.links (n : Node) : Option Handle × List Handle :=
  (n.parent?, n.children)

namespace Document

open NodeTree (handlesOf)
open Relation (ReflTransGen TransGen)

variable {d d' d₁ d₂ : Document} {h p x y r : Handle} {n n' m : Node} {home : Option Handle}
  {A B : List NodeTree} {t : NodeTree} {i : Nat}

/-! ### Changes of records -/

/-- The same nodes are live, under the same links. -/
structure Unmoved (d d' : Document) : Prop where
  links_eq : ∀ x, (d'.get? x).map Node.links = (d.get? x).map Node.links
  tidy : d.Tidy → d'.Tidy

namespace Unmoved

theorem refl : Unmoved d d :=
  ⟨fun _ => rfl, id⟩

theorem trans (hu : Unmoved d d₁) (hu' : Unmoved d₁ d₂) : Unmoved d d₂ :=
  ⟨fun x => (hu'.links_eq x).trans (hu.links_eq x), fun ht => hu'.tidy (hu.tidy ht)⟩

theorem get?_before (hu : Unmoved d d') (hn : d'.get? x = some n) :
    ∃ m, d.get? x = some m ∧ m.links = n.links := by
  have hlinks := hu.links_eq x
  rw [hn] at hlinks
  obtain ⟨m, hm, heq⟩ := Option.map_eq_some_iff.mp hlinks.symm
  exact ⟨m, hm, heq⟩

theorem get?_after (hu : Unmoved d d') (hn : d.get? x = some n) :
    ∃ m, d'.get? x = some m ∧ m.links = n.links := by
  have hlinks := hu.links_eq x
  rw [hn] at hlinks
  obtain ⟨m, hm, heq⟩ := Option.map_eq_some_iff.mp hlinks
  exact ⟨m, hm, heq⟩

theorem parentOf_iff (hu : Unmoved d d') : d'.ParentOf p x ↔ d.ParentOf p x := by
  constructor
  · rintro ⟨n, hn, hp⟩
    obtain ⟨m, hm, heq⟩ := hu.get?_before hn
    exact ⟨m, hm, (congrArg Prod.fst heq).trans hp⟩
  · rintro ⟨n, hn, hp⟩
    obtain ⟨m, hm, heq⟩ := hu.get?_after hn
    exact ⟨m, hm, (congrArg Prod.fst heq).trans hp⟩

theorem parentOf_eq (hu : Unmoved d d') : d'.ParentOf = d.ParentOf := by
  funext p x
  exact propext hu.parentOf_iff

theorem above_iff (hu : Unmoved d d') : d'.Above x y ↔ d.Above x y := by
  rw [Above, Above, hu.parentOf_eq]

theorem links (hu : Unmoved d d') (hd : d.Links) : d'.Links := by
  constructor
  · exact hu.tidy hd.tidy
  · obtain ⟨r, hr, hp⟩ := hd.rooted
    obtain ⟨m, hm, heq⟩ := hu.get?_after hr
    exact ⟨m, hm, (congrArg Prod.fst heq).trans hp⟩
  · intro p n c m hn hm
    obtain ⟨n', hn', hneq⟩ := hu.get?_before hn
    obtain ⟨m', hm', hmeq⟩ := hu.get?_before hm
    rw [← show n'.children = n.children from congrArg Prod.snd hneq,
      ← show m'.parent? = m.parent? from congrArg Prod.fst hmeq]
    exact hd.mem_children_iff p n' c m' hn' hm'
  · intro p n hn
    obtain ⟨n', hn', heq⟩ := hu.get?_before hn
    rw [← show n'.children = n.children from congrArg Prod.snd heq]
    exact hd.nodup p n' hn'
  · intro p n c hn hc
    obtain ⟨n', hn', heq⟩ := hu.get?_before hn
    rw [← show n'.children = n.children from congrArg Prod.snd heq] at hc
    obtain ⟨m, hm⟩ := hd.child_live p n' c hn' hc
    obtain ⟨m', hm', -⟩ := hu.get?_after hm
    exact ⟨m', hm'⟩
  · intro p c hpc
    obtain ⟨n, hn⟩ := hd.parent_live p c (hu.parentOf_iff.mp hpc)
    obtain ⟨n', hn', -⟩ := hu.get?_after hn
    exact ⟨n', hn'⟩
  · rw [hu.parentOf_eq]
    exact hd.acyclic

end Unmoved

theorem Unmoved.mutated (hu : Unmoved d d') : Unmoved d d'.mutated :=
  ⟨hu.links_eq, fun ht => (hu.tidy ht).mutated⟩

/-- A write that keeps the links moves nothing, whether its handle is live or not. -/
theorem put_unmoved (hlinks : n.links = (d.writable h).links) : Unmoved d (d.put h n) := by
  cases hm : d.get? h with
  | none =>
    have heq : d.put h n = { d with vacant := n } := by simp only [put, hm]
    rw [heq]
    exact ⟨fun _ => rfl, fun ht => ⟨ht.free_nodup, ht.mem_free⟩⟩
  | some m =>
    refine ⟨fun x => ?_, fun ht => ht.put hm n⟩
    rw [get?_put hm]
    split
    · next hx => rw [hx, hm, Option.map_some, Option.map_some, hlinks, writable_of_get? hm]
    · rfl

theorem modify_unmoved {f : Node → Node} (hf : ∀ n, (f n).links = n.links) :
    Unmoved d (d.modify h f) :=
  put_unmoved (hf _)

theorem setAttribute_unmoved (d : Document) (h : Handle) (name value : String) :
    Unmoved d (d.setAttribute h name value) := by
  unfold setAttribute
  dsimp only
  split
  · split
    · exact .refl
    · apply Unmoved.mutated
      exact put_unmoved rfl
  · exact put_unmoved rfl

theorem removeAttribute_unmoved (d : Document) (h : Handle) (name : String) :
    Unmoved d (d.removeAttribute h name) := by
  unfold removeAttribute
  dsimp only
  split
  · split
    · apply Unmoved.mutated
      exact put_unmoved rfl
    · exact .refl
  · exact put_unmoved rfl

theorem setVisible_unmoved (d : Document) (h : Handle) (v : Bool) :
    Unmoved d (d.setVisible h v) := by
  unfold setVisible
  dsimp only
  split
  · exact put_unmoved rfl
  · apply Unmoved.mutated
    exact put_unmoved rfl

/-! ### Changes of trees -/

namespace Regrown

/-- A node that is none of the old trees' keeps its parent. -/
theorem get?_after (hs : d.Seated home A) (hr : Regrown d d' home A B) (hn : d.get? x = some n)
    (hx : x ∉ handlesOf A) : ∃ m, d'.get? x = some m ∧ m.parent? = n.parent? := by
  by_cases hhome : home = some x
  · obtain ⟨m, pre, post, hm, -, hm'⟩ := hr.home_live hs hhome
    obtain rfl := Option.some.inj (hn.symm.trans hm)
    exact ⟨_, hm', rfl⟩
  · exact ⟨n, by rw [hr.frame x hx (hr.not_mem_new hn hx) hhome, hn], rfl⟩

/-- A node that is none of the new trees' was live before, and none of the old trees'. -/
theorem get?_before (hs : d.Seated home A) (hr : Regrown d d' home A B) (hn : d'.get? x = some n)
    (hx : x ∉ handlesOf B) : x ∉ handlesOf A ∧ ∃ m, d.get? x = some m ∧ m.parent? = n.parent? := by
  have hA : x ∉ handlesOf A := by
    intro hA
    simp [hr.gone x hA hx] at hn
  refine ⟨hA, ?_⟩
  cases hm : d.get? x with
  | none =>
    by_cases hhome : home = some x
    · obtain ⟨m, hm'⟩ := hs.home_live hhome
      simp [hm] at hm'
    · simp [hr.frame x hA hx hhome, hm] at hn
  | some m =>
    obtain ⟨n', hn', hparent⟩ := hr.get?_after hs hm hA
    obtain rfl := Option.some.inj (hn.symm.trans hn')
    exact ⟨m, rfl, hparent.symm⟩

/-- Where trees take the place of others in a forest, every live node still tops a tree. -/
theorem exists_holds (hd : d.Forest) (hs : d.Seated home A) (hr : Regrown d d' home A B)
    (hn : d'.get? x = some n) : ∃ ks, d'.Holds (.node x n ks) := by
  suffices ∃ u : NodeTree, u.handle = x ∧ d'.Holds u by
    obtain ⟨⟨x', n', ks⟩, rfl, hu⟩ := this
    obtain rfl : n' = n := Option.some.inj (hu.get?_handle.symm.trans hn)
    exact ⟨ks, hu⟩
  by_cases hB : x ∈ handlesOf B
  · obtain ⟨t, ht, hxt⟩ := NodeTree.mem_handlesOf.mp hB
    obtain ⟨u, hu, hheld, -⟩ := (hr.held t ht).exists_below hxt
    exact ⟨u, hu, hheld⟩
  · obtain ⟨hA, m, hm, -⟩ := hr.get?_before hs hn hB
    obtain ⟨ks, hR⟩ := hd.seated hm
    have hheld := hR.held _ (List.mem_singleton_self _)
    by_cases hinside : ∃ p ∈ home, p ∈ (NodeTree.node x m ks).handles
    · obtain ⟨p, rfl, hp⟩ := hinside
      obtain ⟨R', hhandle, hlift, -⟩ := hr.lift hR hs hp
      exact ⟨R', hhandle, hlift.held R' (List.mem_singleton_self R')⟩
    · refine ⟨_, rfl, hr.held_beside hheld (fun y hy hyA => ?_) fun p hp hmem =>
        hinside ⟨p, hp, hmem⟩⟩
      obtain ⟨t, ht, hyt⟩ := NodeTree.mem_handlesOf.mp hyA
      have htop : x ∉ t.handles := fun hxt => hA (NodeTree.mem_handlesOf_of_mem ht hxt)
      have hmem : t.handle ∈ (NodeTree.node x m ks).handles :=
        hheld.handle_mem_of_meet (hs.held t ht) htop hy hyt
      have hne : t.handle ≠ x := fun heq => htop (heq ▸ t.handle_mem_handles)
      obtain ⟨k, q, hk, hq, hqR⟩ := hheld.exists_parent hmem hne
      obtain rfl := Option.some.inj ((hs.held t ht).get?_handle.symm.trans hk)
      exact hinside ⟨q, (hs.parents t ht).symm.trans hq, hqR⟩

/-- Where trees take the place of others in a forest, every live node is still listed. -/
theorem exists_listed (hd : d.Forest) (hs : d.Seated home A) (hr : Regrown d d' home A B)
    (hn : d'.get? x = some n) (hp : n.parent? = some p) :
    ∃ m, d'.get? p = some m ∧ x ∈ m.children := by
  by_cases hB : x ∈ handlesOf B
  · obtain ⟨t, ht, hxt⟩ := NodeTree.mem_handlesOf.mp hB
    by_cases htop : x = t.handle
    · subst htop
      obtain rfl := Option.some.inj (hn.symm.trans (hr.held t ht).get?_handle)
      obtain ⟨m, pre, post, -, -, hm⟩ := hr.home_live hs ((hr.parents t ht).symm.trans hp)
      refine ⟨_, hm, ?_⟩
      simp only [List.mem_append]
      exact Or.inl (Or.inr (List.mem_map_of_mem ht))
    · obtain ⟨n', q, m, hn', hq, hm, hmem⟩ := (hr.held t ht).exists_listed hxt htop
      obtain rfl := Option.some.inj (hn.symm.trans hn')
      obtain rfl := Option.some.inj (hp.symm.trans hq)
      exact ⟨m, hm, hmem⟩
  · obtain ⟨hA, n', hn', hparent⟩ := hr.get?_before hs hn hB
    obtain ⟨m, hm, hmem⟩ := hd.listed x n' p hn' (hparent.trans hp)
    have hpA : p ∉ handlesOf A := by
      intro hpA
      obtain ⟨t, ht, hpt⟩ := NodeTree.mem_handlesOf.mp hpA
      exact hA (NodeTree.mem_handlesOf_of_mem ht ((hs.held t ht).mem_of_child hpt hm hmem))
    by_cases hhome : home = some p
    · obtain ⟨m', pre, post, hm', hchildren, hafter⟩ := hr.home_live hs hhome
      obtain rfl := Option.some.inj (hm.symm.trans hm')
      refine ⟨_, hafter, ?_⟩
      have hxA : x ∉ A.map NodeTree.handle := fun hx =>
        hA (NodeTree.map_handle_subset_handlesOf hx)
      simp only [hchildren, List.mem_append] at hmem ⊢
      tauto
    · exact ⟨m, by rw [hr.frame p hpA (hr.not_mem_new hm hpA) hhome, hm], hmem⟩

end Regrown

/-- A document in which trees take the place of others stays a forest, if the root is not lost. -/
theorem Forest.regrown (hd : d.Forest) (hs : d.Seated home A) (hr : Regrown d d' home A B)
    (ht : d'.Tidy) (hroot : root ∈ handlesOf A → root ∈ B.map NodeTree.handle) : d'.Forest := by
  constructor
  · exact ht
  · obtain ⟨r, hr₀, hparent⟩ := hd.rooted
    by_cases hmem : root ∈ handlesOf A
    · obtain ⟨u, hu, hhandle⟩ := List.mem_map.mp (hroot hmem)
      obtain ⟨t, htA, hxt⟩ := NodeTree.mem_handlesOf.mp hmem
      have htop := (hs.held t htA).eq_handle_of_parent hxt hr₀ hparent
      have hrecord := (hs.held t htA).get?_handle
      rw [← htop, hr₀] at hrecord
      refine ⟨u.record, hhandle ▸ (hr.held u hu).get?_handle, ?_⟩
      rw [hr.parents u hu, ← hs.parents t htA, ← Option.some.inj hrecord, hparent]
    · obtain ⟨r', hr', hparent'⟩ := hr.get?_after hs hr₀ hmem
      exact ⟨r', hr', hparent'.trans hparent⟩
  · intro x n hn
    exact hr.exists_holds hd hs hn
  · intro x n p hn hp
    exact hr.exists_listed hd hs hn hp

/-- A forest stays one when fresh trees are added. -/
theorem Forest.grown (hd : d.Forest) (hhome : ∀ p ∈ home, ∃ n, d.get? p = some n)
    (hg : Grown d d' home B) (ht : d'.Tidy) : d'.Forest := by
  cases home with
  | none =>
    have hs : d.Seated none [] := ⟨by simp, by simp, List.nodup_nil, by simp, by simp, by simp⟩
    exact hd.regrown hs (hg.regrown_none hs).2 ht (by simp)
  | some p =>
    obtain ⟨n, hn⟩ := hhome p rfl
    obtain ⟨ks, hheld⟩ := hd.held p n hn
    refine hd.regrown (Seated.kids hheld) (hg.regrown_kids hheld) ht fun hmem => ?_
    obtain ⟨k, hk, hmem⟩ := NodeTree.mem_handlesOf.mp hmem
    rw [← hd.handle_eq_root (hheld.kid hk) hmem, List.map_append]
    exact List.mem_append_left _ (List.mem_map_of_mem hk)

/-! ### Operations on forests -/

namespace Forest

theorem unmoved (hd : d.Forest) (hu : Unmoved d d') : d'.Forest :=
  (hu.links hd.links).forest

theorem createElement (hd : d.Forest) (tag : String) : (d.createElement tag).2.Forest := by
  apply hd.grown (by simp) (alloc_grown hd.tidy rfl rfl)
  exact hd.tidy.alloc _

theorem appendText (hd : d.Forest) (hn : d.get? h = some n) (text : String) :
    (d.appendText h text).Forest := by
  obtain ⟨ht, u, -, hg⟩ := appendText_grown hd.tidy hn text
  exact hd.grown (fun p hp => ⟨n, Option.some.inj hp ▸ hn⟩) hg ht

theorem appendMarkup (hd : d.Forest) (hn : d.get? h = some n) {source : String}
    (hsource : d.appendMarkup h source = .ok d') : d'.Forest := by
  obtain ⟨ht, us, hg⟩ := appendMarkup_grown hd.tidy hn hsource
  exact hd.grown (fun p hp => ⟨n, Option.some.inj hp ▸ hn⟩) hg ht

theorem deepClone (hd : d.Forest) (hn : d.get? h = some n) : (d.deepClone h).2.Forest := by
  obtain ⟨ks, ht⟩ := hd.held h n hn
  obtain ⟨ht', u, -, -, hg⟩ := deepClone_grown hd.tidy ht
  exact hd.grown (by simp) hg ht'

/-- Taking out a node with everything below it; the root stays. -/
theorem remove (hd : d.Forest) (hn : d.get? h = some n) : (d.remove h).Forest := by
  by_cases hroot : h = root
  · subst hroot
    have heq : d.remove root = d := by simp only [Document.remove, hn, if_true]
    rwa [heq]
  · obtain ⟨ks, hs⟩ := hd.seated hn
    obtain ⟨ht, hr⟩ := remove_regrown hs hd.tidy hroot
    refine hd.regrown hs hr ht fun hmem => ?_
    have htop := hd.handle_eq_root (hs.held _ (List.mem_singleton_self _)) (by simpa using hmem)
    exact absurd htop hroot

theorem clearChildren (hd : d.Forest) (hn : d.get? h = some n) : (d.clearChildren h).Forest := by
  obtain ⟨ks, ht⟩ := hd.held h n hn
  obtain ⟨ht', hr⟩ := clearChildren_regrown ht hd.tidy
  refine hd.regrown (Seated.kids ht) hr ht' fun hmem => ?_
  obtain ⟨k, hk, hmem⟩ := NodeTree.mem_handlesOf.mp hmem
  have hkid : d.ParentOf h k.handle := ⟨k.record, (ht.kid hk).get?_handle, ht.parent hk⟩
  rw [hd.handle_eq_root (ht.kid hk) hmem] at hkid
  exact absurd hkid hd.links.not_parentOf_root

end Forest

end Document

end TreeTemplate
