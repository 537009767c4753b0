import TreeTemplate.Proofs.Document.Frame

/-!
What only comes after what is there.  A document `d'` accretes at `c` when nothing below `c` differs from
`d` and the node `c` has at most more children, after those that it had (`Accretes`).  Changes inside a
subtree apart from that of `c` are of this kind, and so are additions anywhere but below `c`; the inner
markup of `c` then begins with what it was (`Accretes.innerMarkup_eq`).
-/

namespace TreeTemplate

namespace Document

open Relation (ReflTransGen)

variable {d d' d₁ d₂ : Document} {c p x y : Handle} {n : Node} {t : NodeTree} {us : List NodeTree}
  {P : Handle → Bool}

/-! ### Nodes above and below each other -/

/-- Of two nodes above one node, one is above the other. -/
theorem above_or_above (hx : d.Above x y) (hc : d.Above c y) : d.Above x c ∨ d.Above c x := by
  have hunique : Relator.RightUnique (Function.swap d.ParentOf) := fun _ _ _ hp hq => hp.unique hq
  rw [Above, ← Relation.reflTransGen_swap] at hx hc
  rcases ReflTransGen.total_of_right_unique hunique hx hc with hxc | hcx
  · exact Or.inr (Relation.reflTransGen_swap.mp hxc)
  · exact Or.inl (Relation.reflTransGen_swap.mp hcx)

/-- Nodes that are above each other are the same. -/
theorem Links.eq_of_above_above (hd : d.Links) (hxy : d.Above x y) (hyx : d.Above y x) : x = y := by
  rcases above_iff.mp hxy with heq | ⟨p, hpy, hxp⟩
  · exact heq
  · exact absurd (hyx.trans hxp) (hd.not_above hpy)

/-- The first node of a tree that meets a condition is not strictly below another that meets it. -/
theorem Links.eq_of_find?_handles (hd : d.Links) (ht : d.Holds t) (hc : c ∈ t.handles)
    (hPc : P c = true) (hfound : t.handles.find? P = some p) (habove : d.Above c p) : p = c := by
  induction t using NodeTree.induct with
  | step h n ks ih =>
    have hhc : d.Above h c := ht.above_of_mem hc
    rw [NodeTree.handles_node] at hc hfound
    cases hPh : P h with
    | true =>
      rw [List.find?_cons_of_pos hPh] at hfound
      obtain rfl := Option.some.inj hfound
      exact hd.eq_of_above_above hhc habove
    | false =>
      rw [List.find?_cons_of_neg (by simp [hPh]), List.find?_flatMap] at hfound
      obtain ⟨k, hk, hkp⟩ := List.exists_of_findSome?_eq_some hfound
      have hne : c ≠ h := by
        rintro rfl
        simp [hPc] at hPh
      have hkh : d.ParentOf h k.handle := ⟨k.record, (ht.kid hk).get?_handle, ht.parent hk⟩
      have hbelow : d.Above k.handle c := by
        have hkp := (ht.kid hk).above_of_mem (List.mem_of_find?_eq_some hkp)
        rcases above_or_above hkp habove with hkc | hck
        · exact hkc
        · rcases above_iff.mp hck with rfl | ⟨q, hqk, hcq⟩
          · exact .refl
          · obtain rfl := hqk.unique hkh
            exact absurd (hd.eq_of_above_above hcq hhc) hne
      exact ih k hk (ht.kid hk) ((hd.forest.mem_handles_iff (ht.kid hk)).mpr hbelow) hkp

/-! ### What comes after what is there -/

/-- Nothing below `c` differs, and `c` itself only by children after those that it had.  Sets on record
may differ. -/
structure Accretes (d d' : Document) (c : Handle) : Prop where
  top : ∀ n, d.get? c = some n → ∃ n' more, d'.get? c = some n' ∧
    n'.unscanned = { n.unscanned with children := n.children ++ more }
  below : ∀ y n, d.get? y = some n → d.Above c y → y ≠ c →
    ∃ n', d'.get? y = some n' ∧ n'.unscanned = n.unscanned

theorem Retains.accretes (hr : Retains d d') : Accretes d d' c := by
  constructor
  · intro n hn
    obtain ⟨n', hn', heq⟩ := hr c n hn
    refine ⟨n', [], hn', ?_⟩
    rw [List.append_nil, heq]
    rfl
  · intro y n hn _ _
    exact hr y n hn

/-- A change inside the subtree of a node that is neither above `c` nor below. -/
theorem Spares.accretes (hd : d.Links) (hs : Spares d d' x) (hxc : ¬ d.Above x c)
    (hcx : ¬ d.Above c x) : Accretes d d' c := by
  have hkept : ∀ y n, d.get? y = some n → d.Above c y →
      ∃ n', d'.get? y = some n' ∧ n'.unscanned = n.unscanned := by
    intro y n hn hcy
    have hxy : ¬ d.Above x y := fun hxy => (above_or_above hxy hcy).elim hxc hcx
    obtain ⟨n', hn', hrelists⟩ := hs y n hn hxy
    refine ⟨n', hn', hrelists.unscanned_eq fun hmem => ?_⟩
    exact hcx (hcy.tail ((hd.mem_children hn).mp hmem))
  constructor
  · intro n hn
    obtain ⟨n', hn', heq⟩ := hkept c n hn .refl
    refine ⟨n', [], hn', ?_⟩
    rw [List.append_nil, heq]
    rfl
  · intro y n hn hcy _
    exact hkept y n hn hcy

/-- Trees that are added to `c`, or anywhere but below it. -/
theorem Grown.accretes (hg : Grown d d' (some p) us) (hp : d.Above c p → p = c) :
    Accretes d d' c := by
  constructor
  · intro n hn
    by_cases hpc : p = c
    · exact ⟨_, us.map NodeTree.handle, hg.parent c (congrArg some hpc) n hn, rfl⟩
    · refine ⟨n, [], ?_, ?_⟩
      · rw [hg.frame c (hg.not_mem_new hn) (mt Option.some.inj hpc), hn]
      · rw [List.append_nil]
        rfl
  · intro y n hn hcy hyc
    have hpy : p ≠ y := by
      rintro rfl
      exact hyc (hp hcy)
    exact ⟨n, by rw [hg.frame y (hg.not_mem_new hn) (mt Option.some.inj hpy), hn], rfl⟩

namespace Accretes

/-- What was below `c` still is. -/
theorem above (ha : Accretes d d' c) (hcy : d.Above c y) : d'.Above c y := by
  induction hcy with
  | refl => exact .refl
  | @tail p y hcp hpy ih =>
    by_cases hyc : y = c
    · rw [hyc]
      exact .refl
    · obtain ⟨n, hn, hparent⟩ := hpy
      obtain ⟨n', hn', heq⟩ := ha.below y n hn (hcp.tail ⟨n, hn, hparent⟩) hyc
      exact ih.tail ⟨n', hn', (Node.parent_of_unscanned heq).trans hparent⟩

theorem trans (ha : Accretes d d₁ c) (ha' : Accretes d₁ d₂ c) : Accretes d d₂ c := by
  constructor
  · intro n hn
    obtain ⟨n₁, more, hn₁, heq⟩ := ha.top n hn
    obtain ⟨n₂, others, hn₂, heq'⟩ := ha'.top n₁ hn₁
    have hchildren : n₁.children = n.children ++ more := by
      simpa [Node.unscanned] using congrArg Node.children heq
    refine ⟨n₂, more ++ others, hn₂, ?_⟩
    rw [heq', heq, hchildren, List.append_assoc]
  · intro y n hn hcy hyc
    obtain ⟨n₁, hn₁, heq⟩ := ha.below y n hn hcy hyc
    obtain ⟨n₂, hn₂, heq'⟩ := ha'.below y n₁ hn₁ (ha.above hcy) hyc
    exact ⟨n₂, hn₂, heq'.trans heq⟩

/-- The inner markup of `c` begins with what it was. -/
theorem innerMarkup_eq (ha : Accretes d d' c) (hd : d.Forest) (hn : d.get? c = some n) :
    ∃ more, d'.innerMarkup c = d.innerMarkup c ++ more := by
  obtain ⟨ks, ht⟩ := hd.held c n hn
  obtain ⟨n', more, hn', heq⟩ := ha.top n hn
  have hchildren : n'.children = ks.map NodeTree.handle ++ more := by
    rw [← ht.children]
    simpa [Node.unscanned] using congrArg Node.children heq
  have hsame : ∀ k ∈ ks, ∀ x ∈ k.handles,
      (d'.get? x).map Node.guise = (d.get? x).map Node.guise := by
    intro k hk x hx
    obtain ⟨m, hm⟩ := (ht.kid hk).get?_of_mem hx
    have hcx : d.Above c x := ht.above_of_mem (NodeTree.mem_handles_of_kid hk hx)
    have hxc : x ≠ c := by
      rintro rfl
      exact ht.handle_not_mem_kids (List.mem_flatMap.mpr ⟨k, hk, hx⟩)
    obtain ⟨m', hm', heq'⟩ := ha.below x m hm hcx hxc
    rw [hm, hm', Option.map_some, Option.map_some, Node.guise_of_unscanned heq']
  have hkids : (ks.map NodeTree.handle).flatMap (d'.markupWithin d'.reach) =
      ks.flatMap NodeTree.chars := by
    rw [List.flatMap_map]
    refine List.flatMap_congr fun k hk => ?_
    have hheld := (ht.kid hk).reread (hsame k hk)
    have hmarkup : d'.markupWithin d'.reach (k.reread d').handle = (k.reread d').chars :=
      markupWithin_eq hheld (by have := hheld.size_lt_reach; omega)
    rw [NodeTree.handle_reread, NodeTree.chars, (ht.kid hk).outline_reread (hsame k hk)] at hmarkup
    exact hmarkup
  refine ⟨String.ofList (more.flatMap (d'.markupWithin d'.reach)), ?_⟩
  rw [innerMarkup, innerMarkup, innerChars, node_of_get? hn', hchildren, List.flatMap_append, hkids,
    innerChars_eq ht, String.ofList_append]

end Accretes

end Document

end TreeTemplate
