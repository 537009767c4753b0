import TreeTemplate.Proofs.Document.Sibling

/-!
Taking trees out of a document.  Releasing a held tree empties exactly the slots of its nodes
(`releaseWithin_emptied`), so removing a seated tree, or everything below a node, leaves no trace
beside it (`remove_regrown`, `clearChildren_regrown`).
-/

namespace TreeTemplate.Document

open NodeTree (handlesOf)

variable {d d' d₁ d₂ : Document} {home : Option Handle} {t : NodeTree} {h p x : Handle} {n m : Node}
  {ks : List NodeTree} {xs ys : List Handle}

/-- The document `d'` is `d` without the nodes of the given handles. -/
structure Emptied (d d' : Document) (xs : List Handle) : Prop where
  gone : ∀ x ∈ xs, d'.get? x = none
  frame : ∀ x, x ∉ xs → d'.get? x = d.get? x
  vacant : d'.vacant = d.vacant

namespace Emptied

theorem refl : Emptied d d [] :=
  ⟨by simp, fun _ _ => rfl, rfl⟩

theorem trans (he : Emptied d d₁ xs) (he' : Emptied d₁ d₂ ys) : Emptied d d₂ (xs ++ ys) where
  gone x hx := by
    by_cases hy : x ∈ ys
    · exact he'.gone x hy
    · rw [he'.frame x hy]
      exact he.gone x ((List.mem_append.mp hx).resolve_right hy)
  frame x hx := by
    rw [List.mem_append, not_or] at hx
    rw [he'.frame x hx.2, he.frame x hx.1]
  vacant := he'.vacant.trans he.vacant

theorem congr (he : Emptied d d' xs) (hsame : ∀ x, x ∈ ys ↔ x ∈ xs) : Emptied d d' ys :=
  ⟨fun x hx => he.gone x ((hsame x).mp hx), fun x hx => he.frame x (mt (hsame x).mpr hx), he.vacant⟩

theorem held (he : Emptied d d' xs) (ht : d.Holds t) (happart : ∀ x ∈ t.handles, x ∉ xs) :
    d'.Holds t :=
  ht.congr fun x hx => he.frame x (happart x hx)

end Emptied

theorem vacate_emptied (hn : d.get? h = some n) : Emptied d (d.vacate h) [h] where
  gone x hx := by simp [get?_vacate hn, List.mem_singleton.mp hx]
  frame x hx := by rw [get?_vacate hn, if_neg (by simpa using hx)]
  vacant := rfl

/-- What empties each of several held trees empties all of them, the last one first. -/
theorem foldr_emptied {f : Handle → Document → Document}
    (hf : ∀ k ∈ ks, ∀ d : Document, d.Tidy → d.Holds k →
      (f k.handle d).Tidy ∧ Emptied d (f k.handle d) k.handles)
    (ht : d.Tidy) (hheld : ∀ k ∈ ks, d.Holds k) (hnodup : (handlesOf ks).Nodup) :
    ((ks.map NodeTree.handle).foldr f d).Tidy ∧
      Emptied d ((ks.map NodeTree.handle).foldr f d) (handlesOf ks) := by
  induction ks with
  | nil => exact ⟨ht, .refl⟩
  | cons k rest ih =>
    rw [NodeTree.handlesOf_cons, List.nodup_append'] at hnodup
    obtain ⟨ht₁, he₁⟩ := ih (fun k' hk' => hf k' (List.mem_cons_of_mem _ hk'))
      (fun k' hk' => hheld k' (List.mem_cons_of_mem _ hk')) hnodup.2.1
    have hk := he₁.held (hheld k List.mem_cons_self) fun x hx hx' => hnodup.2.2 hx hx'
    obtain ⟨ht₂, he₂⟩ := hf k List.mem_cons_self _ ht₁ hk
    refine ⟨ht₂, (he₁.trans he₂).congr fun x => ?_⟩
    simp [or_comm]

/-- What empties each of several held trees empties all of them, the first one first. -/
theorem foldl_emptied {f : Document → Handle → Document}
    (hf : ∀ k ∈ ks, ∀ d : Document, d.Tidy → d.Holds k →
      (f d k.handle).Tidy ∧ Emptied d (f d k.handle) k.handles)
    (ht : d.Tidy) (hheld : ∀ k ∈ ks, d.Holds k) (hnodup : (handlesOf ks).Nodup) :
    ((ks.map NodeTree.handle).foldl f d).Tidy ∧
      Emptied d ((ks.map NodeTree.handle).foldl f d) (handlesOf ks) := by
  induction ks generalizing d with
  | nil => exact ⟨ht, .refl⟩
  | cons k rest ih =>
    rw [NodeTree.handlesOf_cons, List.nodup_append'] at hnodup
    obtain ⟨ht₁, he₁⟩ := hf k List.mem_cons_self d ht (hheld k List.mem_cons_self)
    have hrest : ∀ k' ∈ rest, (f d k.handle).Holds k' := fun k' hk' =>
      he₁.held (hheld k' (List.mem_cons_of_mem _ hk')) fun x hx hx' =>
        hnodup.2.2 hx' (NodeTree.mem_handlesOf_of_mem hk' hx)
    obtain ⟨ht₂, he₂⟩ := ih (fun k' hk' => hf k' (List.mem_cons_of_mem _ hk')) ht₁ hrest hnodup.2.1
    exact ⟨ht₂, (he₁.trans he₂).congr fun x => by simp⟩

theorem releaseWithin_emptied {depth : Nat} (ht : d.Tidy) (hheld : d.Holds t)
    (hdepth : t.size ≤ depth) :
    (releaseWithin depth t.handle d).Tidy ∧ Emptied d (releaseWithin depth t.handle d) t.handles := by
  induction t using NodeTree.induct generalizing depth d with
  | step h n ks ih =>
    cases depth with
    | zero =>
      have hpos := (NodeTree.node h n ks).size_pos
      omega
    | succ depth =>
      have hn : d.get? h = some n := hheld.get?_handle
      have he := vacate_emptied hn
      have hkids : ∀ k ∈ ks, (d.vacate h).Holds k := fun k hk =>
        he.held (hheld.kid hk) fun x hx hxh => by
          obtain rfl := List.mem_singleton.mp hxh
          exact hheld.handle_not_mem_kids (NodeTree.mem_handlesOf_of_mem hk hx)
      obtain ⟨ht', he'⟩ := foldr_emptied (f := releaseWithin depth)
        (fun k hk d' hd' hk' => ih k hk hd' hk' (by
          have hlt := NodeTree.size_lt_of_mem (h := h) (n := n) hk
          omega)) (ht.vacate hn) hkids hheld.kids_nodup
      rw [NodeTree.handle_node, releaseWithin, hn]
      simp only [hheld.children]
      exact ⟨ht', (he.trans he').congr fun x => by simp [handlesOf]⟩

theorem release_emptied (ht : d.Tidy) (hheld : d.Holds t) :
    (d.release t.handle).Tidy ∧ Emptied d (d.release t.handle) t.handles :=
  releaseWithin_emptied ht hheld (Nat.le_of_lt hheld.size_lt_reach)

/-! ### Removing a node -/

/-- A seated tree is taken out of the children of its parent and keeps its own. -/
theorem detach_seated (hs : d.Seated (some p) [.node h n ks]) (ht : d.Tidy)
    (hm : d.get? p = some m) :
    (d.detach h).Tidy ∧ (d.detach h).vacant = d.vacant ∧
      (d.detach h).Holds (.node h { n with parent? := none } ks) ∧
      ∀ x, x ≠ h → (d.detach h).get? x =
        if x = p then some { m with children := m.children.filter (· ≠ h) } else d.get? x := by
  have hheld : d.Holds (.node h n ks) := hs.held _ (List.mem_singleton_self _)
  have hn : d.get? h = some n := hheld.get?_handle
  have hparent : n.parent? = some p := hs.parents (.node h n ks) (List.mem_singleton_self _)
  have hapart : p ∉ handlesOf [NodeTree.node h n ks] := hs.apart p rfl
  have hph : p ≠ h := by
    rintro rfl
    simp at hapart
  have hm' : (d.put h { n with parent? := none }).get? p = some m := by
    rw [get?_put hn, if_neg hph, hm]
  have heq : d.detach h = (d.put h { n with parent? := none }).modify p
      fun q => { q with children := q.children.filter (· ≠ h) } := by
    simp only [detach, writable_of_get? hn, hparent]
  rw [heq]
  refine ⟨(ht.put hn _).modify hm' _, by rw [vacant_modify hm', vacant_put hn], ?_, ?_⟩
  · refine hheld.retop ?_ rfl fun x hx => ?_
    · rw [get?_modify hm', if_neg (Ne.symm hph), get?_put hn, if_pos rfl]
    · have hxh : x ≠ h := by
        rintro rfl
        exact hheld.handle_not_mem_kids hx
      have hxp : x ≠ p := by
        rintro rfl
        refine hapart ?_
        simp only [NodeTree.handlesOf_cons, NodeTree.handles_node, List.mem_append, List.mem_cons]
        exact Or.inl (Or.inr hx)
      rw [get?_modify hm', if_neg hxp, get?_put hn, if_neg hxh]
  · intro x hx
    rw [get?_modify hm', get?_put hn, if_neg hx]

/-- Removing a seated tree other than the root leaves nothing of it. -/
theorem remove_regrown (hs : d.Seated home [t]) (ht : d.Tidy) (hroot : t.handle ≠ root) :
    (d.remove t.handle).Tidy ∧ Regrown d (d.remove t.handle) home [t] [] := by
  obtain ⟨h, n, ks⟩ := t
  have hheld : d.Holds (.node h n ks) := hs.held _ (List.mem_singleton_self _)
  have hn : d.get? h = some n := hheld.get?_handle
  have hparent : n.parent? = home := hs.parents (.node h n ks) (List.mem_singleton_self _)
  rw [NodeTree.handle_node] at hroot ⊢
  simp only [remove, hn, hroot, if_false, hparent]
  cases home with
  | none =>
    obtain ⟨ht', he⟩ := release_emptied ht hheld
    refine ⟨ht', by simp, by simp, by simp, by simp, fun x hx _ => ?_, fun x hx _ _ => ?_, by simp,
      he.vacant⟩
    · exact he.gone x (by simpa [handlesOf] using hx)
    · exact he.frame x (by simpa [handlesOf] using hx)
  | some p =>
    obtain ⟨m, hm, hnodup, -⟩ := (hs.hearth p rfl).exists_record
    obtain ⟨ht₁, hvacant, hheld₁, hget⟩ := detach_seated hs ht hm
    have hheld₂ : (d.detach h).mutated.Holds (.node h { n with parent? := none } ks) :=
      hheld₁.congr fun _ _ => rfl
    obtain ⟨ht', he⟩ := release_emptied ht₁.mutated hheld₂
    have hmem : ∀ x, x ∈ handlesOf [NodeTree.node h n ks] ↔
        x ∈ (NodeTree.node h { n with parent? := none } ks).handles := by simp [handlesOf]
    have hpt : p ∉ (NodeTree.node h { n with parent? := none } ks).handles := by
      rw [← hmem]
      exact hs.apart p rfl
    refine ⟨ht', by simp, by simp, by simp, by simp, fun x hx _ => ?_, fun x hx _ hxp => ?_, ?_,
      he.vacant.trans hvacant⟩
    · exact he.gone x ((hmem x).mp hx)
    · rw [hmem] at hx
      have hxh : x ≠ h := by
        rintro rfl
        simp at hx
      exact (he.frame x hx).trans ((hget x hxh).trans (if_neg fun hx' => hxp (by rw [hx'])))
    · intro q hq m' pre post hm' hchildren
      obtain rfl := Option.some.inj hq
      rw [hm] at hm'
      obtain rfl := Option.some.inj hm'
      have hph : p ≠ h := by
        rintro rfl
        simp at hpt
      have hfilter : m.children.filter (· ≠ h) = pre ++ post := by
        simp only [List.map_cons, NodeTree.handle_node, List.map_nil, List.append_assoc,
          List.singleton_append] at hchildren
        rw [hchildren, List.nodup_middle, List.nodup_cons, List.mem_append, not_or] at hnodup
        rw [hchildren, List.filter_append, List.filter_cons_of_neg (by simp),
          List.filter_eq_self.mpr, List.filter_eq_self.mpr]
        · intro c hc
          simp only [decide_eq_true_eq]
          rintro rfl
          exact hnodup.1.2 hc
        · intro c hc
          simp only [decide_eq_true_eq]
          rintro rfl
          exact hnodup.1.1 hc
      refine (he.frame p hpt).trans ((hget p hph).trans ?_)
      rw [if_pos rfl, hfilter]
      simp

/-! ### Clearing a node -/

/-- Clearing a held node removes every tree below it. -/
theorem clearChildren_regrown (hheld : d.Holds (.node h n ks)) (ht : d.Tidy) :
    (d.clearChildren h).Tidy ∧ Regrown d (d.clearChildren h) (some h) ks [] := by
  have hn : d.get? h = some n := hheld.get?_handle
  have hkids : ∀ k ∈ ks, (d.put h { n with children := [] }).Holds k := by
    intro k hk
    refine (hheld.kid hk).congr fun x hx => ?_
    rw [get?_put hn, if_neg]
    rintro rfl
    exact hheld.handle_not_mem_kids (NodeTree.mem_handlesOf_of_mem hk hx)
  obtain ⟨ht', he⟩ := foldl_emptied (f := release) (fun k _ _ hd hk => release_emptied hd hk)
    (ht.put hn { n with children := [] }) hkids hheld.kids_nodup
  have hfold : (d.clearChildren h).get? =
        ((ks.map NodeTree.handle).foldl release (d.put h { n with children := [] })).get? ∧
      (d.clearChildren h).vacant = d.vacant ∧ (d.clearChildren h).Tidy := by
    unfold clearChildren
    simp only [writable_of_get? hn, hheld.children]
    cases ks with
    | nil => exact ⟨rfl, vacant_put hn _, ht.put hn _⟩
    | cons k rest => exact ⟨rfl, he.vacant.trans (vacant_put hn _), ht'.mutated⟩
  obtain ⟨hget, hvacant, htidy⟩ := hfold
  refine ⟨htidy, by simp, by simp, by simp, by simp, fun x hx _ => ?_, fun x hx _ hxh => ?_, ?_,
    hvacant⟩
  · rw [hget]
    exact he.gone x hx
  · rw [hget, he.frame x hx, get?_put hn, if_neg fun hx => hxh (by rw [hx])]
  · intro q hq m pre post hm hchildren
    obtain rfl := Option.some.inj hq
    rw [hn] at hm
    obtain rfl := Option.some.inj hm
    have hlength := congrArg List.length (hheld.children.symm.trans hchildren)
    simp only [List.length_append, List.length_map] at hlength
    have hpre : pre = [] := List.eq_nil_of_length_eq_zero (by omega)
    have hpost : post = [] := List.eq_nil_of_length_eq_zero (by omega)
    rw [hget, he.frame h hheld.handle_not_mem_kids, get?_put hn, if_pos rfl, hpre, hpost]
    rfl

end TreeTemplate.Document
