import TreeTemplate.Proofs.Document.Upkeep

/-!
Moving a subtree.  A node that is detached loses one link (`Links.detach`); it may be linked again
below any node outside its own subtree (`Links.link`), since that closes no cycle.  To put a node in
the place of another one is to link the one and to detach the other (`Links.exchange`).
-/

namespace TreeTemplate.Document

open Relation (ReflTransGen TransGen)

variable {d d' : Document} {h p x y r : Handle} {n m : Node} {i : Nat}

theorem Links.congr (hd : d.Links) (hget : ∀ x, d'.get? x = d.get? x) (ht : d'.Tidy) : d'.Links :=
  Unmoved.links ⟨fun x => by rw [hget], fun _ => ht⟩ hd

/-- A relation without cycles has none after one more step, unless that step closes one. -/
theorem acyclic_insert {α : Type} {r r' : α → α → Prop} {a b : α}
    (hr : ∀ x y, r' x y → r x y ∨ x = a ∧ y = b) (hacyclic : ∀ x, ¬ TransGen r x x)
    (hab : ¬ ReflTransGen r b a) (x : α) : ¬ TransGen r' x x := by
  have hway : ∀ y, TransGen r' x y → TransGen r x y ∨ ReflTransGen r x a ∧ ReflTransGen r b y := by
    intro y hxy
    induction hxy with
    | single hstep =>
      rcases hr _ _ hstep with hold | ⟨rfl, rfl⟩
      · exact Or.inl (.single hold)
      · exact Or.inr ⟨.refl, .refl⟩
    | tail _ hstep ih =>
      rcases hr _ _ hstep with hold | ⟨rfl, rfl⟩
      · rcases ih with ih | ⟨hxa, hby⟩
        · exact Or.inl (ih.tail hold)
        · exact Or.inr ⟨hxa, hby.tail hold⟩
      · rcases ih with ih | ⟨-, hba⟩
        · exact Or.inr ⟨ih.to_reflTransGen, .refl⟩
        · exact absurd hba hab
  intro hcycle
  rcases hway x hcycle with hold | ⟨hxa, hbx⟩
  · exact hacyclic x hold
  · exact hab (hbx.trans hxa)

/-! ### Changing one link -/

/-- In the document `d'` the node `p` has the children `cs` and `h` has the parent `q?`; all else is as
in `d`. -/
structure Relinked (d d' : Document) (p h : Handle) (cs : List Handle) (q? : Option Handle)
    (m n : Node) : Prop where
  upper : d.get? p = some m
  lower : d.get? h = some n
  ne : p ≠ h
  get?_eq : ∀ x, d'.get? x =
    if x = p then some { m with children := cs }
    else if x = h then some { n with parent? := q? } else d.get? x

namespace Relinked

variable {cs : List Handle} {q? : Option Handle} {q : Handle} {k : Node}

theorem live (hr : Relinked d d' p h cs q? m n) (hk : d.get? x = some k) :
    ∃ k', d'.get? x = some k' := by
  rw [hr.get?_eq]
  split
  · exact ⟨_, rfl⟩
  · split
    · exact ⟨_, rfl⟩
    · exact ⟨k, hk⟩

theorem parentOf_iff (hr : Relinked d d' p h cs q? m n) (q c : Handle) :
    d'.ParentOf q c ↔ if c = h then q? = some q else d.ParentOf q c := by
  rw [Document.parentOf_iff, Document.parentOf_iff, hr.get?_eq]
  by_cases hch : c = h
  · simp [hch, Ne.symm hr.ne]
  · by_cases hcp : c = p
    · simp [hcp, hr.ne, hr.upper]
    · simp [hch, hcp]

/-- Any other node has the children that it had. -/
theorem children_eq (hr : Relinked d d' p h cs q? m n) (hk : d'.get? q = some k) :
    q = p ∧ k.children = cs ∨ q ≠ p ∧ ∃ k₀, d.get? q = some k₀ ∧ k₀.children = k.children := by
  rw [hr.get?_eq] at hk
  split at hk
  · next hqp =>
    obtain rfl := Option.some.inj hk
    exact Or.inl ⟨hqp, rfl⟩
  · next hqp =>
    split at hk
    · next hqh =>
      obtain rfl := Option.some.inj hk
      exact Or.inr ⟨hqp, n, hqh ▸ hr.lower, rfl⟩
    · exact Or.inr ⟨hqp, k, hk, rfl⟩

/-- The links agree again if the children of `p` are those that have it as their parent now, and
nobody else has gained or lost a child. -/
theorem links (hr : Relinked d d' p h cs q? m n) (hd : d.Links) (ht : d'.Tidy)
    (hroot : ∀ q, ¬ d'.ParentOf q root) (hcs : ∀ c, c ∈ cs ↔ d'.ParentOf p c) (hnodup : cs.Nodup)
    (hsame : ∀ q c, q ≠ p → (d'.ParentOf q c ↔ d.ParentOf q c))
    (hacyclic : ∀ x, ¬ TransGen d'.ParentOf x x) : d'.Links := by
  apply Links.of_mem_children
  · exact ht
  · obtain ⟨r, hr', -⟩ := hd.rooted
    exact hr.live hr'
  · exact hroot
  · intro q k c hk
    rcases hr.children_eq hk with ⟨rfl, hchildren⟩ | ⟨hqp, k₀, hk₀, hchildren⟩
    · rw [hchildren, hcs]
    · rw [← hchildren, hd.mem_children hk₀, hsame q c hqp]
  · intro q k hk
    rcases hr.children_eq hk with ⟨-, hchildren⟩ | ⟨-, k₀, hk₀, hchildren⟩
    · rwa [hchildren]
    · rw [← hchildren]
      exact hd.nodup q k₀ hk₀
  · intro q c hqc
    by_cases hqp : q = p
    · exact hqp ▸ hr.live hr.upper
    · obtain ⟨k, hk⟩ := hd.parent_live q c ((hsame q c hqp).mp hqc)
      exact hr.live hk
  · exact hacyclic

end Relinked

/-! ### Detaching -/

/-- A live node that has a parent is taken out of the parent's children. -/
theorem detach_relinked (hn : d.get? h = some n) (hp : n.parent? = some p) (hm : d.get? p = some m)
    (hph : p ≠ h) :
    Relinked d (d.detach h) p h (m.children.filter (· ≠ h)) none m n := by
  refine ⟨hm, hn, hph, fun x => ?_⟩
  have hm' : (d.put h { n with parent? := none }).get? p = some m := by
    rw [get?_put hn, if_neg hph, hm]
  have heq : d.detach h = (d.put h { n with parent? := none }).modify p
      fun q => { q with children := q.children.filter (· ≠ h) } := by
    simp only [detach, writable_of_get? hn, hp]
  rw [heq, get?_modify hm', get?_put hn]

/-- The document `d'` is `d` without the link from a node to its parent. -/
structure Detached (d d' : Document) (h : Handle) : Prop where
  links : d'.Links
  live : ∀ x n, d.get? x = some n → ∃ n', d'.get? x = some n'
  parentOf_iff : ∀ p c, d'.ParentOf p c ↔ d.ParentOf p c ∧ c ≠ h

namespace Detached

theorem exists_top (hd : Detached d d' h) (hn : d.get? h = some n) :
    ∃ n', d'.get? h = some n' ∧ n'.parent? = none := by
  obtain ⟨n', hn'⟩ := hd.live h n hn
  refine ⟨n', hn', ?_⟩
  cases hp : n'.parent? with
  | none => rfl
  | some p => exact absurd rfl ((hd.parentOf_iff p h).mp ⟨n', hn', hp⟩).2

theorem above (hd : Detached d d' h) (hxy : d'.Above x y) : d.Above x y :=
  ReflTransGen.mono (fun p c hpc => ((hd.parentOf_iff p c).mp hpc).1) _ _ hxy

end Detached

theorem Tidy.detach (ht : d.Tidy) (hn : d.get? h = some n) (hm : n.parent? = none ∨
    ∃ p m, n.parent? = some p ∧ d.get? p = some m ∧ p ≠ h) : (d.detach h).Tidy := by
  rcases hm with hp | ⟨p, m, hp, hm, hph⟩
  · rwa [detach_eq_self hn hp]
  · simp only [Document.detach, writable_of_get? hn, hp]
    exact (ht.put hn _).modify (by rw [get?_put hn, if_neg hph, hm]) _

/-- Detaching a node cuts the link to its parent and nothing else. -/
theorem Links.detach (hd : d.Links) (hn : d.get? h = some n) : Detached d (d.detach h) h := by
  cases hp : n.parent? with
  | none =>
    rw [detach_eq_self hn hp]
    refine ⟨hd, fun x m hm => ⟨m, hm⟩, fun q c => ⟨fun hqc => ⟨hqc, ?_⟩, And.left⟩⟩
    rintro rfl
    exact not_parentOf hn hp q hqc
  | some p =>
    have hph : d.ParentOf p h := ⟨n, hn, hp⟩
    obtain ⟨m, hm⟩ := hd.parent_live p h hph
    have hne : p ≠ h := fun heq => hd.acyclic h (.single (heq ▸ hph))
    have hr := detach_relinked hn hp hm hne
    have hparentOf : ∀ q c, (d.detach h).ParentOf q c ↔ d.ParentOf q c ∧ c ≠ h := by
      intro q c
      rw [hr.parentOf_iff]
      by_cases hch : c = h
      · simp [hch]
      · simp [hch]
    refine ⟨hr.links hd ?_ ?_ ?_ ?_ ?_ ?_, fun x k hk => hr.live hk, hparentOf⟩
    · exact hd.tidy.detach hn (Or.inr ⟨p, m, hp, hm, hne⟩)
    · intro q hq
      exact hd.not_parentOf_root ((hparentOf q root).mp hq).1
    · intro c
      rw [List.mem_filter, hd.mem_children hm, hparentOf, decide_eq_true_eq]
    · exact (hd.nodup p m hm).filter _
    · intro q c hqp
      rw [hparentOf]
      refine ⟨And.left, fun hqc => ⟨hqc, ?_⟩⟩
      rintro rfl
      exact hqp (hqc.unique hph)
    · intro x hcycle
      exact hd.acyclic x (TransGen.mono (fun q c hqc => ((hparentOf q c).mp hqc).1) _ _ hcycle)

/-! ### Linking -/

/-- A node is linked below another one. -/
theorem link_relinked (hn : d.get? h = some n) (hm : d.get? p = some m) (hph : p ≠ h)
    (place : List Handle → List Handle) :
    Relinked d (d.link p h place) p h (place m.children) (some p) m n := by
  refine ⟨hm, hn, hph, fun x => ?_⟩
  have hm' : (d.modify h fun n => { n with parent? := some p }).get? p = some m := by
    rw [get?_modify hn, if_neg hph, hm]
  rw [link, get?_modify hm', get?_modify hn]

/-- Linking a node without a parent adds one link. -/
theorem parentOf_link (hn : d.get? h = some n) (hfree : n.parent? = none) (hm : d.get? p = some m)
    (hph : p ≠ h) (place : List Handle → List Handle) (q c : Handle) :
    (d.link p h place).ParentOf q c ↔ d.ParentOf q c ∨ q = p ∧ c = h := by
  rw [(link_relinked hn hm hph place).parentOf_iff]
  by_cases hch : c = h
  · simp [hch, not_parentOf hn hfree q, eq_comm]
  · simp [hch]

/-- A node without a parent may be linked below any node that it is not above. -/
theorem Links.link (hd : d.Links) (hn : d.get? h = some n) (hfree : n.parent? = none)
    (hroot : h ≠ root) (hm : d.get? p = some m) (habove : ¬ d.Above h p)
    {place : List Handle → List Handle} (hplace : (place m.children).Perm (h :: m.children)) :
    (d.link p h place).Links := by
  have hph : p ≠ h := fun heq => habove (heq ▸ .refl)
  have hparentOf := parentOf_link hn hfree hm hph place
  apply (link_relinked hn hm hph place).links hd
  · have hm' : (d.modify h fun n => { n with parent? := some p }).get? p = some m := by
      rw [get?_modify hn, if_neg hph, hm]
    exact (hd.tidy.modify hn _).modify hm' fun q => { q with children := place q.children }
  · intro q hq
    rcases (hparentOf q root).mp hq with hold | ⟨-, hnew⟩
    · exact hd.not_parentOf_root hold
    · exact hroot hnew.symm
  · intro c
    rw [hplace.mem_iff, List.mem_cons, hd.mem_children hm, hparentOf, or_comm]
    simp
  · rw [hplace.nodup_iff, List.nodup_cons, hd.mem_children hm]
    exact ⟨not_parentOf hn hfree p, hd.nodup p m hm⟩
  · intro q c hqp
    rw [hparentOf]
    simp [hqp]
  · exact acyclic_insert (fun q c hqc => (hparentOf q c).mp hqc) hd.acyclic habove

/-! ### Moving a subtree -/

namespace Links

/-- A node that was taken out may be linked below any node that it is not above. -/
theorem detach_link (hd : d.Links) (hn : d.get? h = some n) (hroot : h ≠ root)
    (hp : d.get? p = some m) (habove : ¬ d.Above h p) {place : List Handle → List Handle}
    (hplace : ∀ k, (d.detach h).get? p = some k → (place k.children).Perm (h :: k.children)) :
    ((d.detach h).link p h place).Links := by
  have hdetached := hd.detach hn
  obtain ⟨n', hn', hfree⟩ := hdetached.exists_top hn
  obtain ⟨k, hk⟩ := hdetached.live p m hp
  exact hdetached.links.link hn' hfree hroot hk (fun h => habove (hdetached.above h)) (hplace k hk)

theorem mutated (hd : d.Links) : d.mutated.Links :=
  Unmoved.links (Unmoved.mutated .refl) hd

/-- A node may be made the last child of any node that it is not above. -/
theorem appendChild (hd : d.Links) (hn : d.get? h = some n) (hroot : h ≠ root)
    (hp : d.get? p = some m) (habove : ¬ d.Above h p) : (d.appendChild p h).Links := by
  apply mutated
  apply hd.detach_link hn hroot hp habove
  intro k _
  exact List.perm_append_singleton h k.children

/-- Where a node that has a parent stands. -/
theorem position?_eq_some (hd : d.Links) (hr : d.get? r = some n)
    (hpos : d.position? r = some (p, i)) :
    d.ParentOf p r ∧ ∃ m, d.get? p = some m ∧ m.children.idxOf? r = some i := by
  simp only [position?, node_of_get? hr, Option.bind_eq_bind, Option.bind_eq_some_iff,
    Option.some.injEq, Prod.mk.injEq] at hpos
  obtain ⟨q, hq, j, hj, rfl, rfl⟩ := hpos
  obtain ⟨m, hm⟩ := hd.parent_live q r ⟨n, hr, hq⟩
  rw [node_of_get? hm] at hj
  exact ⟨⟨n, hr, hq⟩, m, hm, hj⟩

/-- A node may be put next to any node that it is not above, in whatever place there. -/
theorem insertAt (hd : d.Links) (hn : d.get? h = some n) (hroot : h ≠ root)
    (hr : d.get? r = some m) (habove : ¬ d.Above h r)
    (hpos : (d.detach h).position? r = some (p, i)) (j : Nat) :
    ((d.detach h).insertAt h p j).Links := by
  have hdetached := hd.detach hn
  obtain ⟨m', hr'⟩ := hdetached.live r m hr
  obtain ⟨hparent, -⟩ := hdetached.links.position?_eq_some hr' hpos
  have hparent' : d.ParentOf p r := ((hdetached.parentOf_iff p r).mp hparent).1
  obtain ⟨k, hk⟩ := hd.parent_live p r hparent'
  apply mutated
  apply hd.detach_link hn hroot hk
  · intro hhp
    exact habove (hhp.tail hparent')
  · intro k _
    conv_rhs => rw [← List.take_append_drop j k.children]
    exact List.perm_middle

theorem insertBefore (hd : d.Links) (hn : d.get? h = some n) (hroot : h ≠ root)
    (hr : d.get? r = some m) (habove : ¬ d.Above h r) : (d.insertBefore h r).Links := by
  unfold Document.insertBefore
  dsimp only
  split
  · next hpos => exact hd.insertAt hn hroot hr habove hpos _
  · exact (hd.detach hn).links

theorem insertAfter (hd : d.Links) (hn : d.get? h = some n) (hroot : h ≠ root)
    (hr : d.get? r = some m) (habove : ¬ d.Above h r) : (d.insertAfter h r).Links := by
  unfold Document.insertAfter
  dsimp only
  split
  · next hpos => exact hd.insertAt hn hroot hr habove hpos _
  · exact (hd.detach hn).links

open scoped List in
/-- To exchange one item of a list is to add the new one and to take the old one out. -/
theorem set_perm {α : Type} [DecidableEq α] {xs : List α} {a b : α} (hi : xs.idxOf? a = some i) :
    (xs.set i b ++ [a]).Perm (b :: xs) := by
  obtain ⟨hlt, hget, -⟩ := List.findIdx?_eq_some_iff_getElem.mp hi
  have hget : xs[i] = a := by simpa using hget
  calc xs.set i b ++ [a]
      _ ~ a :: xs.set i b := List.perm_append_singleton a _
      _ ~ a :: b :: xs.eraseIdx i := (List.set_perm_cons_eraseIdx hlt b).cons a
      _ ~ b :: a :: xs.eraseIdx i := List.Perm.swap b a _
      _ ~ b :: xs := by
        rw [← hget]
        exact (List.getElem_cons_eraseIdx_perm hlt).cons b

end Links

/-- In the document `d'` the node `h` stands where `r` stood in `d`. -/
structure Exchanged (d d' : Document) (h r : Handle) : Prop where
  links : d'.Links
  live : ∀ x n, d.get? x = some n → ∃ n', d'.get? x = some n'
  parentOf_iff : ∀ p c, d'.ParentOf p c ↔
    (d.ParentOf p c ∧ c ≠ h ∧ c ≠ r) ∨ (d.ParentOf p r ∧ c = h)

/-- The children of a node when `h` took the place `i` of `r`, which has moved to the end. -/
def swapped (h r : Handle) (i : Nat) (cs : List Handle) : List Handle :=
  cs.set i h ++ [r]

theorem filter_swapped {cs : List Handle} (hnodup : (swapped h r i cs).Nodup) :
    (swapped h r i cs).filter (· ≠ r) = cs.set i h := by
  rw [swapped, List.nodup_append'] at hnodup
  have hnot : r ∉ cs.set i h := fun hmem => hnodup.2.2 hmem (List.mem_singleton_self r)
  rw [swapped, List.filter_append, List.filter_eq_self.mpr, List.filter_cons_of_neg (by simp)]
  · simp
  · intro c hc
    simpa using fun hcr : c = r => hnot (hcr ▸ hc)

/-- Taking a place is to be linked there and to detach the other node. -/
theorem Links.replace_listed {k : Node} (hd : d.Links) (hn : d.get? h = some n)
    (hfree : n.parent? = none) (hroot : h ≠ root) (hr : d.get? r = some m)
    (habove : ¬ d.Above h r) (hparent : m.parent? = some p) (hk : d.get? p = some k) :
    ∃ i, (d.link p h (swapped h r i)).Links ∧ (d.replace h r).Tidy ∧
      ∀ x, (d.replace h r).get? x = ((d.link p h (swapped h r i)).detach r).get? x := by
  have hpr : d.ParentOf p r := ⟨m, hr, hparent⟩
  have hrh : r ≠ h := fun heq => habove (heq ▸ .refl)
  have hph : p ≠ h := fun heq => habove (heq ▸ .single hpr)
  have hrp : p ≠ r := fun heq => hd.acyclic r (.single (heq ▸ hpr))
  obtain ⟨pre, post, hchildren⟩ := List.append_of_mem ((hd.mem_children hk).mpr hpr)
  have hpre : r ∉ pre := by
    have hnodup := hd.nodup p k hk
    rw [hchildren, List.nodup_append'] at hnodup
    exact fun hmem => hnodup.2.2 hmem List.mem_cons_self
  have hi : k.children.idxOf? r = some pre.length := by
    rw [hchildren]
    exact idxOf?_append_cons hpre
  unfold Document.replace
  dsimp only
  rw [detach_eq_self hn hfree, position?_eq hr hparent hk hchildren hpre]
  generalize pre.length = i at hi
  have hlinked : (d.link p h (swapped h r i)).Links :=
    hd.link hn hfree hroot hk (fun hhp => habove (hhp.tail hpr)) (set_perm hi)
  have hget := (link_relinked hn hk hph (swapped h r i)).get?_eq
  have hr₁ : (d.link p h (swapped h r i)).get? r = some m := by
    rw [hget, if_neg (Ne.symm hrp), if_neg hrh, hr]
  have hp₁ : (d.link p h (swapped h r i)).get? p =
      some { k with children := swapped h r i k.children } := by
    rw [hget, if_pos rfl]
  have hfilter := filter_swapped (hlinked.nodup p _ hp₁)
  have hn₂ : (d.modify p fun n => { n with children := n.children.set i h }).get? h = some n := by
    rw [get?_modify hk, if_neg (Ne.symm hph), hn]
  have hr₂ : ((d.modify p fun n => { n with children := n.children.set i h }).modify h
      fun n => { n with parent? := some p }).get? r = some m := by
    rw [get?_modify hn₂, if_neg hrh, get?_modify hk, if_neg (Ne.symm hrp), hr]
  refine ⟨i, hlinked, ?_, fun x => ?_⟩
  · apply Tidy.mutated
    apply Tidy.modify _ hr₂
    apply Tidy.modify _ hn₂
    exact hd.tidy.modify hk _
  · dsimp only
    rw [get?_mutated, get?_modify hr₂, get?_modify hn₂, get?_modify hk,
      (detach_relinked hr₁ hparent hp₁ hrp).get?_eq, hget, hfilter]
    by_cases hxp : x = p
    · simp [hxp, hrp, hph]
    · by_cases hxr : x = r
      · simp [hxr, Ne.symm hrp]
      · simp [hxp, hxr]

/-- A node without a parent takes the place of one that it is not above. -/
theorem Links.exchange (hd : d.Links) (hn : d.get? h = some n) (hfree : n.parent? = none)
    (hroot : h ≠ root) (hr : d.get? r = some m) (habove : ¬ d.Above h r) :
    Exchanged d (d.replace h r) h r := by
  have hfree' := not_parentOf hn hfree
  cases hparent : m.parent? with
  | none =>
    have hr' := not_parentOf hr hparent
    have hsame : d.replace h r = d := by
      rw [Document.replace, detach_eq_self hn hfree, position?_eq_none hr hparent]
    rw [hsame]
    refine ⟨hd, fun x k hk => ⟨k, hk⟩, fun q c => ⟨fun hqc => Or.inl ⟨hqc, ?_, ?_⟩, ?_⟩⟩
    · rintro rfl
      exact hfree' q hqc
    · rintro rfl
      exact hr' q hqc
    · rintro (⟨hqc, -⟩ | ⟨hqr, -⟩)
      · exact hqc
      · exact absurd hqr (hr' q)
  | some p =>
    have hpr : d.ParentOf p r := ⟨m, hr, hparent⟩
    have hrh : h ≠ r := fun heq => habove (heq ▸ .refl)
    have hph : p ≠ h := fun heq => habove (heq ▸ .single hpr)
    have hrp : p ≠ r := fun heq => hd.acyclic r (.single (heq ▸ hpr))
    obtain ⟨k, hk⟩ := hd.parent_live p r hpr
    obtain ⟨i, hlinked, htidy, hsame⟩ := hd.replace_listed hn hfree hroot hr habove hparent hk
    have hrelinked := link_relinked hn hk hph (swapped h r i)
    have hr₁ : (d.link p h (swapped h r i)).get? r = some m := by
      rw [hrelinked.get?_eq, if_neg (Ne.symm hrp), if_neg (Ne.symm hrh), hr]
    have hdetached := hlinked.detach hr₁
    refine ⟨hdetached.links.congr hsame htidy, fun x l hl => ?_, fun q c => ?_⟩
    · rw [hsame]
      obtain ⟨l', hl'⟩ := hrelinked.live hl
      exact hdetached.live x l' hl'
    · rw [parentOf_iff, hsame, ← parentOf_iff, hdetached.parentOf_iff,
        parentOf_link hn hfree hk hph (swapped h r i)]
      constructor
      · rintro ⟨hqc | ⟨rfl, rfl⟩, hcr⟩
        · refine Or.inl ⟨hqc, ?_, hcr⟩
          rintro rfl
          exact hfree' q hqc
        · exact Or.inr ⟨hpr, rfl⟩
      · rintro (⟨hqc, -, hcr⟩ | ⟨hqr, rfl⟩)
        · exact ⟨Or.inl hqc, hcr⟩
        · exact ⟨Or.inr ⟨hqr.unique hpr, rfl⟩, hrh⟩

/-- A node may take the place of any node that it is not above. -/
theorem Links.replace (hd : d.Links) (hn : d.get? h = some n) (hroot : h ≠ root)
    (hr : d.get? r = some m) (habove : ¬ d.Above h r) : (d.replace h r).Links := by
  have hdetached := hd.detach hn
  obtain ⟨n', hn', hfree⟩ := hdetached.exists_top hn
  obtain ⟨m', hr'⟩ := hdetached.live r m hr
  have heq : (d.detach h).replace h r = d.replace h r := by
    rw [Document.replace, detach_eq_self hn' hfree, Document.replace]
  have hexchanged := hdetached.links.exchange hn' hfree hroot hr'
    fun hhr => habove (hdetached.above hhr)
  rw [heq] at hexchanged
  exact hexchanged.links

end TreeTemplate.Document
