import TreeTemplate.Proofs.Document.Moves

/-!
Nodes that wait while others are worked on.  Waiting nodes are `Scattered`: none is inside the subtree
of another.  A change that stays inside the subtree of one node, and offers nodes from there in its
place (`Yields`), leaves them scattered (`Yields.scattered_append`).
-/

namespace TreeTemplate.Document

open NodeTree (handlesOf)
open Relation (ReflTransGen)

variable {d d' d₁ d₂ : Document} {h p a x y : Handle} {n m : Node} {home : Option Handle}
  {xs ys zs : List Handle} {P : Handle → Prop} {t : NodeTree} {us : List NodeTree}

/-! ### Nodes that keep their parents -/

/-- The live nodes of a kind stay live, below the same parents. -/
def Keeps (d d' : Document) (P : Handle → Prop) : Prop :=
  ∀ y n, P y → d.get? y = some n → ∃ n', d'.get? y = some n' ∧ n'.parent? = n.parent?

/-- Every live node stays live, below the same parent. -/
def Kept (d d' : Document) : Prop :=
  Keeps d d' fun _ => True

theorem Kept.refl : Kept d d :=
  fun _ n _ hn => ⟨n, hn, rfl⟩

theorem Keeps.trans (hk : Keeps d d₁ P) (hk' : Keeps d₁ d₂ P) : Keeps d d₂ P := by
  intro y n hy hn
  obtain ⟨n₁, hn₁, hp₁⟩ := hk y n hy hn
  obtain ⟨n₂, hn₂, hp₂⟩ := hk' y n₁ hy hn₁
  exact ⟨n₂, hn₂, hp₂.trans hp₁⟩

theorem Kept.keeps (hk : Kept d d') : Keeps d d' P :=
  fun y n _ hn => hk y n trivial hn

/-- What is not live after an addition was not live before. -/
theorem Kept.not_live (hk : Kept d d') (hx : d'.get? x = none) : d.get? x = none := by
  cases hn : d.get? x with
  | none => rfl
  | some n =>
    obtain ⟨n', hn', -⟩ := hk x n trivial hn
    simp [hx] at hn'

theorem Unmoved.kept (hu : Unmoved d d') : Kept d d' := by
  intro y n _ hn
  obtain ⟨n', hn', hlinks⟩ := hu.get?_after hn
  exact ⟨n', hn', congrArg Prod.fst hlinks⟩

theorem Grown.kept (hg : Grown d d' home us) : Kept d d' := by
  intro y n _ hn
  by_cases hhome : home = some y
  · exact ⟨_, hg.parent y hhome n hn, rfl⟩
  · exact ⟨n, by rw [hg.frame y (hg.not_mem_new hn) hhome, hn], rfl⟩

/-- What is above a live node is live. -/
theorem Links.live_of_above (hd : d.Links) (hxy : d.Above x y) (hy : ∃ n, d.get? y = some n) :
    ∃ n, d.get? x = some n := by
  induction hxy with
  | refl => exact hy
  | tail _ hpc ih => exact ih (hd.parent_live _ _ hpc)

/-- Above nodes that keep their parents there is what was above them. -/
theorem Links.above_iff_of_keeps (hd : d.Links) (hk : Keeps d d' P)
    (hclosed : ∀ p c, P c → d.ParentOf p c → P p) (hy : P y) (hlive : ∃ n, d.get? y = some n) :
    d'.Above a y ↔ d.Above a y := by
  have hstep : ∀ c, P c → (∃ n, d.get? c = some n) → ∀ p, d'.ParentOf p c ↔ d.ParentOf p c := by
    rintro c hc ⟨n, hn⟩ p
    obtain ⟨n', hn', hparent⟩ := hk c n hc hn
    rw [parentOf_iff, parentOf_iff, hn, hn', Option.bind_some, Option.bind_some, hparent]
  constructor
  · intro hay
    induction hay with
    | refl => exact .refl
    | tail _ hpc ih =>
      have hpc' := (hstep _ hy hlive _).mp hpc
      exact .tail (ih (hclosed _ _ hy hpc') (hd.parent_live _ _ hpc')) hpc'
  · intro hay
    induction hay with
    | refl => exact .refl
    | tail _ hpc ih =>
      exact .tail (ih (hclosed _ _ hy hpc) (hd.parent_live _ _ hpc)) ((hstep _ hy hlive _).mpr hpc)

theorem Links.above_iff_of_spared (hd : d.Links) (hk : Keeps d d' fun z => ¬ d.Above x z)
    (hy : ¬ d.Above x y) (hlive : ∃ n, d.get? y = some n) : d'.Above a y ↔ d.Above a y :=
  hd.above_iff_of_keeps hk (fun _ _ hc hpc hxp => hc (hxp.tail hpc)) hy hlive

theorem Links.above_iff_of_kept (hd : d.Links) (hk : Kept d d') (hlive : ∃ n, d.get? y = some n) :
    d'.Above a y ↔ d.Above a y :=
  hd.above_iff_of_keeps hk (fun _ _ _ _ => trivial) trivial hlive

/-- What was added is not above what was there. -/
theorem Links.not_above_of_fresh (hd : d.Links) (hk : Kept d d₁) (hfresh : d.get? h = none)
    (hlive : ∃ n, d.get? x = some n) : ¬ d₁.Above h x := by
  rw [hd.above_iff_of_kept hk hlive]
  intro hhx
  obtain ⟨n, hn⟩ := hd.live_of_above hhx hlive
  simp [hfresh] at hn

/-! ### Scattered nodes -/

/-- The nodes are live, and none is inside the subtree of another. -/
structure Scattered (d : Document) (xs : List Handle) : Prop where
  live : ∀ x ∈ xs, ∃ n, d.get? x = some n
  apart : xs.Pairwise fun x y => ¬ d.Above x y ∧ ¬ d.Above y x

namespace Scattered

theorem nil : d.Scattered [] :=
  ⟨by simp, .nil⟩

theorem single (hn : d.get? x = some n) : d.Scattered [x] :=
  ⟨fun _ hy => ⟨n, List.mem_singleton.mp hy ▸ hn⟩, List.pairwise_singleton _ _⟩

theorem sublist (hs : d.Scattered xs) (hsub : ys.Sublist xs) : d.Scattered ys :=
  ⟨fun y hy => hs.live y (hsub.subset hy), hs.apart.sublist hsub⟩

theorem tail (hs : d.Scattered (x :: xs)) : d.Scattered xs :=
  hs.sublist (List.sublist_cons_self x xs)

theorem head_live (hs : d.Scattered (x :: xs)) : ∃ n, d.get? x = some n :=
  hs.live x List.mem_cons_self

end Scattered

/-- Different children of a node are not inside each other. -/
theorem Links.siblings_apart (hd : d.Links) (hx : d.ParentOf p x) (hy : d.ParentOf p y)
    (hne : x ≠ y) : ¬ d.Above x y := by
  intro hxy
  rcases above_iff.mp hxy with heq | ⟨q, hqy, hxq⟩
  · exact hne heq
  · obtain rfl := hqy.unique hy
    exact hd.not_above hx hxq

/-- The children of a node are scattered. -/
theorem Links.scattered_children (hd : d.Links) (hn : d.get? p = some n) :
    d.Scattered n.children := by
  constructor
  · intro c hc
    exact hd.child_live p n c hn hc
  · refine (hd.nodup p n hn).imp_of_mem fun hx hy hne => ?_
    have hx' := (hd.mem_children hn).mp hx
    have hy' := (hd.mem_children hn).mp hy
    exact ⟨hd.siblings_apart hx' hy' hne, hd.siblings_apart hy' hx' hne.symm⟩

/-! ### Changes inside a subtree -/

/-- The document `d'` is `d` changed inside the subtree of `x` and by fresh nodes; the nodes `ys` come
from there, and stand where `x` stood or below, or nowhere. -/
structure Yields (d d' : Document) (x : Handle) (ys : List Handle) : Prop where
  forest : d'.Forest
  spared : Keeps d d' fun y => ¬ d.Above x y
  scattered : d'.Scattered ys
  inside : ∀ y ∈ ys, d.get? y = none ∨ d.Above x y
  above : ∀ y ∈ ys, ∀ a n, d.get? a = some n → ¬ d.Above x a → d'.Above a y → d.Above a x

namespace Yields

/-- Nodes that wait outside stay scattered, with those that come from inside before them. -/
theorem scattered_append (hd : d.Links) (hs : d.Scattered (x :: xs)) (hy : Yields d d' x ys) :
    d'.Scattered (ys ++ xs) := by
  have hout : ∀ r ∈ xs, ¬ d.Above x r ∧ ¬ d.Above r x := fun r hr =>
    (List.pairwise_cons.mp hs.apart).1 r hr
  have habove : ∀ a, ∀ r ∈ xs, d'.Above a r ↔ d.Above a r := fun a r hr =>
    hd.above_iff_of_spared hy.spared (hout r hr).1 (hs.tail.live r hr)
  constructor
  · intro z hz
    rcases List.mem_append.mp hz with hz | hz
    · exact hy.scattered.live z hz
    · obtain ⟨n, hn⟩ := hs.tail.live z hz
      obtain ⟨n', hn', -⟩ := hy.spared z n (hout z hz).1 hn
      exact ⟨n', hn'⟩
  · rw [List.pairwise_append]
    refine ⟨hy.scattered.apart, ?_, fun z hz r hr => ⟨?_, ?_⟩⟩
    · refine hs.tail.apart.imp_of_mem fun ha hb hab => ?_
      rw [habove _ _ hb, habove _ _ ha]
      exact hab
    · rw [habove z r hr]
      intro hzr
      rcases hy.inside z hz with hnone | hxz
      · obtain ⟨n, hn⟩ := hd.live_of_above hzr (hs.tail.live r hr)
        simp [hnone] at hn
      · exact (hout r hr).1 (hxz.trans hzr)
    · intro hrz
      obtain ⟨n, hn⟩ := hs.tail.live r hr
      exact (hout r hr).2 (hy.above z hz r n hn (hout r hr).1 hrz)

theorem sublist (hy : Yields d d' x ys) (hsub : zs.Sublist ys) : Yields d d' x zs :=
  ⟨hy.forest, hy.spared, hy.scattered.sublist hsub, fun z hz => hy.inside z (hsub.subset hz),
    fun z hz => hy.above z (hsub.subset hz)⟩

/-- A node stands for itself. -/
theorem self (hd : d.Forest) (hn : d.get? x = some n) : Yields d d x [x] := by
  constructor
  · exact hd
  · exact Kept.refl.keeps
  · exact .single hn
  · intro y hy
    rw [List.mem_singleton.mp hy]
    exact Or.inr .refl
  · intro y hy a _ _ _ hay
    rwa [List.mem_singleton.mp hy] at hay

/-- A node gives way to its children. -/
theorem children (hd : d.Forest) (hn : d.get? x = some n) : Yields d d x n.children := by
  have hparent : ∀ y ∈ n.children, d.ParentOf x y := fun y hy => (hd.links.mem_children hn).mp hy
  constructor
  · exact hd
  · exact Kept.refl.keeps
  · exact hd.links.scattered_children hn
  · intro y hy
    exact Or.inr (.single (hparent y hy))
  · intro y hy a _ _ hxa hay
    rcases above_iff.mp hay with rfl | ⟨q, hqy, haq⟩
    · exact absurd (.single (hparent a hy)) hxa
    · rwa [hqy.unique (hparent y hy)] at haq

/-- What only adds to the document, or changes records, may come first. -/
theorem of_kept (hd : d.Links) (hn : d.get? x = some n) (hk : Kept d d₁) (hy : Yields d₁ d₂ x ys) :
    Yields d d₂ x ys := by
  have habove : ∀ a b, (∃ m, d.get? b = some m) → (d₁.Above a b ↔ d.Above a b) := fun a b hb =>
    hd.above_iff_of_kept hk hb
  constructor
  · exact hy.forest
  · intro z m hz hm
    obtain ⟨m₁, hm₁, hp₁⟩ := hk z m trivial hm
    obtain ⟨m₂, hm₂, hp₂⟩ := hy.spared z m₁ (mt (habove x z ⟨m, hm⟩).mp hz) hm₁
    exact ⟨m₂, hm₂, hp₂.trans hp₁⟩
  · exact hy.scattered
  · intro z hz
    rcases hy.inside z hz with hnone | hxz
    · exact Or.inl (hk.not_live hnone)
    · cases hm : d.get? z with
      | none => exact Or.inl rfl
      | some m => exact Or.inr ((habove x z ⟨m, hm⟩).mp hxz)
  · intro z hz a m hm hxa haz
    obtain ⟨m₁, hm₁, -⟩ := hk a m trivial hm
    have hax := hy.above z hz a m₁ hm₁ (mt (habove x a ⟨m, hm⟩).mp hxa) haz
    exact (habove a x ⟨n, hn⟩).mp hax

/-- Records may change afterwards. -/
theorem unmoved (hy : Yields d d₁ x ys) (hu : Unmoved d₁ d₂) : Yields d d₂ x ys := by
  constructor
  · exact hy.forest.unmoved hu
  · exact hy.spared.trans hu.kept.keeps
  · constructor
    · intro z hz
      obtain ⟨n, hn⟩ := hy.scattered.live z hz
      obtain ⟨n', hn', -⟩ := hu.get?_after hn
      exact ⟨n', hn'⟩
    · simp only [hu.above_iff]
      exact hy.scattered.apart
  · exact hy.inside
  · intro z hz a n hn hxa haz
    exact hy.above z hz a n hn hxa (hu.above_iff.mp haz)

/-- Trees that take the place of a seated tree come from its subtree, and stand where it stood. -/
theorem regrown (hd : d.Forest) (hs : d.Seated home [t]) (hr : Regrown d d' home [t] us)
    (hd' : d'.Forest) : Yields d d' t.handle (us.map NodeTree.handle) := by
  have ht := hs.held t (List.mem_singleton_self t)
  have hmem : ∀ y, y ∈ handlesOf [t] ↔ d.Above t.handle y := by
    intro y
    rw [← hd.mem_handles_iff ht]
    simp
  constructor
  · exact hd'
  · intro y n hy hn
    exact hr.get?_after hs hn (mt (hmem y).mp hy)
  · constructor
    · intro y hy
      obtain ⟨u, hu, rfl⟩ := List.mem_map.mp hy
      exact ⟨u.record, (hr.held u hu).get?_handle⟩
    · rw [List.pairwise_map]
      have hnodup := (List.nodup_flatMap.mp hr.nodup).2
      refine hnodup.imp_of_mem fun {u v} hu hv hdisjoint => ⟨fun huv => ?_, fun hvu => ?_⟩
      · exact hdisjoint ((hd'.mem_handles_iff (hr.held u hu)).mpr huv) v.handle_mem_handles
      · exact hdisjoint u.handle_mem_handles ((hd'.mem_handles_iff (hr.held v hv)).mpr hvu)
  · intro y hy
    have hfresh := hr.fresh y (NodeTree.map_handle_subset_handlesOf hy)
    exact hfresh.symm.imp_right (hmem y).mp
  · intro y hy a n hn hta hay
    obtain ⟨u, hu, rfl⟩ := List.mem_map.mp hy
    rcases above_iff.mp hay with rfl | ⟨p, ⟨m, hm, hp⟩, hap⟩
    · rcases hr.fresh _ (NodeTree.mem_handlesOf_of_mem hu u.handle_mem_handles) with hold | hnone
      · exact absurd ((hmem _).mp hold) hta
      · simp [hn] at hnone
    · obtain rfl := Option.some.inj ((hr.held u hu).get?_handle.symm.trans hm)
      have hhome : home = some p := (hr.parents u hu).symm.trans hp
      have htp : d.ParentOf p t.handle :=
        ⟨t.record, ht.get?_handle, (hs.parents t (List.mem_singleton_self t)).trans hhome⟩
      have hout : ¬ d.Above t.handle p := hd.links.not_above htp
      have hkeeps : Keeps d d' fun y => ¬ d.Above t.handle y := fun y n hy hn =>
        hr.get?_after hs hn (mt (hmem y).mp hy)
      have hap' := (hd.links.above_iff_of_spared hkeeps hout (hd.links.parent_live _ _ htp)).mp hap
      exact hap'.tail htp

/-- A fresh node without a parent that takes the place of another one stands for it. -/
theorem exchange (hd : d.Forest) (hx : d.get? x = some n) (hk : Kept d d₁) (hd₁ : d₁.Forest)
    (hfresh : d.get? h = none) (hm : d₁.get? h = some m) (hfree : m.parent? = none) :
    Yields d (d₁.replace h x) x [h] := by
  obtain ⟨n₁, hx₁, -⟩ := hk x n trivial hx
  have hroot : h ≠ root := by
    rintro rfl
    obtain ⟨r, hr, -⟩ := hd.rooted
    simp [hfresh] at hr
  have habove := hd.links.not_above_of_fresh hk hfresh ⟨n, hx⟩
  have hexchanged := hd₁.links.exchange hm hfree hroot hx₁ habove
  have hspared : Keeps d (d₁.replace h x) fun y => ¬ d.Above x y := by
    intro y k hy hyk
    obtain ⟨k₁, hk₁, hp₁⟩ := hk y k trivial hyk
    obtain ⟨k₂, hk₂⟩ := hexchanged.live y k₁ hk₁
    refine ⟨k₂, hk₂, Eq.trans (Option.ext fun p => ?_) hp₁⟩
    have hyh : y ≠ h := by
      rintro rfl
      simp [hfresh] at hyk
    have hyx : y ≠ x := by
      rintro rfl
      exact hy .refl
    have hiff := hexchanged.parentOf_iff p y
    rw [parentOf_iff, parentOf_iff, hk₁, hk₂, Option.bind_some, Option.bind_some] at hiff
    simpa [hyh, hyx] using hiff
  constructor
  · exact hexchanged.links.forest
  · exact hspared
  · obtain ⟨k, hk⟩ := hexchanged.live h m hm
    exact .single hk
  · intro y hy
    rw [List.mem_singleton.mp hy]
    exact Or.inl hfresh
  · intro y hy a k hak hxa hay
    rw [List.mem_singleton.mp hy] at hay
    rcases above_iff.mp hay with rfl | ⟨p, hph, hap⟩
    · simp [hfresh] at hak
    · rcases (hexchanged.parentOf_iff p h).mp hph with ⟨-, hne, -⟩ | ⟨hpx, -⟩
      · exact absurd rfl hne
      · obtain ⟨m₁, hm₁, hp⟩ := hpx
        obtain rfl := Option.some.inj (hx₁.symm.trans hm₁)
        obtain ⟨n₁', hn₁', hsame⟩ := hk x n trivial hx
        obtain rfl := Option.some.inj (hx₁.symm.trans hn₁')
        have hpx' : d.ParentOf p x := ⟨n, hx, hsame.symm.trans hp⟩
        have hap' := (hd.links.above_iff_of_spared hspared (hd.links.not_above hpx')
          (hd.links.parent_live _ _ hpx')).mp hap
        exact hap'.tail hpx'

end Yields

end TreeTemplate.Document
