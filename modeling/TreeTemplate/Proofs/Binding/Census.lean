import TreeTemplate.Proofs.Binding.Coherence
import TreeTemplate.Proofs.Binding.Diary
import TreeTemplate.Proofs.Document.Links

/-!
What a cache counts.  A cache that is new to a document counts every node with bindings once, when it
first looks at the node, and has no set that it has not put on record somewhere; looks at any nodes, in
any order, keep this so (`Scan.Census`).
-/

namespace TreeTemplate

namespace BindingCache

variable {b : BindingCache} {raw : List RawBinding} {i : Nat}

/-- Only the first set is that of no bindings. -/
theorem Indexed.pos_iff (hb : b.Indexed) (hi : b.Lists i raw) : 1 ≤ i ↔ raw ≠ [] := by
  obtain ⟨set, hset, hkey⟩ := hi
  rw [Ne, ← fingerprint_eq_empty_iff, ← hkey]
  constructor
  · exact fun hpos => hb.nonempty i set hpos hset
  · intro hne
    rcases Nat.eq_zero_or_pos i with rfl | hpos
    · obtain rfl := Option.some.inj (hb.first.symm.trans hset)
      exact absurd rfl hne
    · exact hpos

/-- Interning counts bindings if there are any, and adds at most the set that it gives the place of. -/
theorem intern_counts (b : BindingCache) (k : Compiler) (raw : List RawBinding) :
    (b.intern k raw).2.1.namePrefix = b.namePrefix ∧
      (b.intern k raw).2.1.hits + (b.intern k raw).2.1.misses =
        b.hits + b.misses + (if raw = [] then 0 else 1) ∧
      ∀ j set, (b.intern k raw).2.1.sets[j]? = some set →
        j = (b.intern k raw).1 ∨ b.sets[j]? = some set := by
  unfold intern
  split
  · next hnil =>
    rw [List.isEmpty_iff] at hnil
    exact ⟨rfl, by simp [hnil], fun j set hset => Or.inr hset⟩
  next hraw =>
  rw [List.isEmpty_iff] at hraw
  rw [if_neg hraw]
  dsimp only
  split
  · exact ⟨rfl, Nat.succ_add _ _, fun j set hset => Or.inr hset⟩
  · exact ⟨rfl, rfl, fun j set hset => (getElem?_push_eq_some_iff.mp hset).imp_left And.left⟩

end BindingCache

namespace Scan

variable {namePrefix : String} {d : Document} {s : Scan} {h x : Handle} {n : Node} {i j : Nat}

/-- The cache has a place on record on a live node. -/
def Places (s : Scan) (h : Handle) (i : Nat) : Prop :=
  ∃ n, s.document.get? h = some n ∧ n.bindingRef? = some ⟨s.bindings.id, i⟩

theorem Places.slotOf (hi : s.Places h i) : s.bindings.slotOf s.document h = some i := by
  obtain ⟨n, hn, href⟩ := hi
  rw [BindingCache.slotOf_eq_some_iff, Document.node_of_get? hn, href]

theorem Places.unique (hi : s.Places h i) (hj : s.Places h j) : i = j :=
  Option.some.inj (hi.slotOf.symm.trans hj.slotOf)

/-- A set on record is at some place. -/
theorem exists_places {set : BindingSet}
    (hn : s.document.get? h = some n) (hset : s.bindings.setOf? n = some set) : ∃ i, s.Places h i := by
  simp only [BindingCache.setOf?, Option.bind_eq_some_iff] at hset
  obtain ⟨⟨cache, i⟩, href, hset⟩ := hset
  split at hset
  · next hid =>
    subst hid
    exact ⟨i, n, hn, href⟩
  · cases hset

/-- Putting a place on record where there is none. -/
theorem places_setBindingRef {b : BindingCache} (k : Compiler) (hid : b.id = s.bindings.id)
    (hn : s.document.get? h = some n) (hnone : ∀ j, ¬ s.Places h j) :
    Places ⟨s.document.setBindingRef h ⟨b.id, i⟩, k, b⟩ x j ↔ x = h ∧ j = i ∨ s.Places x j := by
  rw [Places, Document.setBindingRef, Document.get?_modify hn]
  by_cases hx : x = h
  · subst hx
    simp [hnone, eq_comm]
  · simp [hx, hid, Places]

/-- The nodes with bindings that the cache has on record. -/
def marked (s : Scan) : Set Handle :=
  {h | ∃ i, 1 ≤ i ∧ s.Places h i}

theorem finite_marked (s : Scan) : s.marked.Finite := by
  refine (Set.finite_coe_iff.mp (Document.finite_live s.document)).subset ?_
  rintro h ⟨i, -, n, hn, -⟩
  exact ⟨n, hn⟩

/-- A node that gets a place on record is one more if the place is not that of no bindings. -/
theorem ncard_marked_setBindingRef {b : BindingCache} (k : Compiler) (hid : b.id = s.bindings.id)
    (hn : s.document.get? h = some n) (hnone : ∀ j, ¬ s.Places h j) :
    (marked ⟨s.document.setBindingRef h ⟨b.id, i⟩, k, b⟩).ncard =
      s.marked.ncard + if 1 ≤ i then 1 else 0 := by
  have hmem : ∀ x, x ∈ marked ⟨s.document.setBindingRef h ⟨b.id, i⟩, k, b⟩ ↔
      x = h ∧ 1 ≤ i ∨ x ∈ s.marked := by
    intro x
    simp only [marked, Set.mem_ofPred_eq, places_setBindingRef k hid hn hnone]
    constructor
    · rintro ⟨j, hpos, ⟨rfl, rfl⟩ | hj⟩
      · exact Or.inl ⟨rfl, hpos⟩
      · exact Or.inr ⟨j, hpos, hj⟩
    · rintro (⟨rfl, hpos⟩ | ⟨j, hpos, hj⟩)
      · exact ⟨i, hpos, Or.inl ⟨rfl, rfl⟩⟩
      · exact ⟨j, hpos, Or.inr hj⟩
  have hfresh : h ∉ s.marked := by
    rintro ⟨j, -, hj⟩
    exact hnone j hj
  split
  · next hpos =>
    rw [← Set.ncard_insert_of_notMem hfresh s.finite_marked]
    congr 1
    ext x
    rw [hmem, Set.mem_insert_iff, and_iff_left hpos]
  · next hpos =>
    rw [Nat.add_zero]
    congr 1
    ext x
    rw [hmem, or_iff_right fun hx => hpos hx.2]

/-- The document is `d` but for what the cache has put on record, which is the sets of the nodes; the
cache has counted the nodes with bindings among them, and has no other sets. -/
structure Census (namePrefix : String) (d : Document) (s : Scan) : Prop where
  indexed : s.bindings.Indexed
  namePrefix_eq : s.bindings.namePrefix = namePrefix
  contents : ∀ h, (s.document.get? h).map Node.content = (d.get? h).map Node.content
  vacant : s.document.vacant.content = .root
  listed : ∀ h n i, d.get? h = some n → s.Places h i → s.bindings.Lists i (n.rawBindings namePrefix)
  used : ∀ i set, 1 ≤ i → s.bindings.sets[i]? = some set → ∃ h, s.Places h i
  counted : s.bindings.hits + s.bindings.misses = s.marked.ncard

namespace Census

theorem get?_after (hs : s.Census namePrefix d) (hn : d.get? h = some n) :
    ∃ n', s.document.get? h = some n' ∧ n'.content = n.content := by
  have hcontent := hs.contents h
  rw [hn] at hcontent
  obtain ⟨n', hn', heq⟩ := Option.map_eq_some_iff.mp hcontent
  exact ⟨n', hn', heq⟩

theorem get?_before (hs : s.Census namePrefix d) (hn : s.document.get? h = some n) :
    ∃ n', d.get? h = some n' ∧ n'.content = n.content := by
  have hcontent := hs.contents h
  rw [hn] at hcontent
  obtain ⟨n', hn', heq⟩ := Option.map_eq_some_iff.mp hcontent.symm
  exact ⟨n', hn', heq⟩

/-- A cache that is new to a document. -/
theorem new (hblank : ∀ h n, d.get? h = some n → n.bindingRef? = none)
    (hvacant : d.vacant.content = .root) (k : Compiler) (owner : Nat) (namePrefix : String) :
    Census namePrefix d ⟨d, k, .new owner namePrefix⟩ := by
  have hplaces : ∀ h i, ¬ Places ⟨d, k, .new owner namePrefix⟩ h i := by
    rintro h i ⟨n, hn, href⟩
    simp [hblank h n hn] at href
  constructor
  · exact BindingCache.new_indexed owner namePrefix
  · rfl
  · exact fun _ => rfl
  · exact hvacant
  · exact fun h n i _ hi => absurd hi (hplaces h i)
  · intro i set hpos hset
    have hlt := (Array.getElem?_eq_some_iff.mp hset).choose
    simp [BindingCache.new] at hlt
    omega
  · have hmarked : marked ⟨d, k, .new owner namePrefix⟩ = ∅ := by
      refine Set.eq_empty_of_forall_notMem ?_
      rintro h ⟨i, -, hi⟩
      exact hplaces h i hi
    rw [hmarked, Set.ncard_empty]
    rfl

/-- A live node that the cache has nothing on record of is counted if it has bindings. -/
theorem intern (hs : s.Census namePrefix d) (hn : s.document.get? h = some n)
    (hnone : ∀ i, ¬ s.Places h i) :
    let interned := s.bindings.intern s.compiler (n.rawBindings namePrefix)
    Census namePrefix d
      ⟨s.document.setBindingRef h ⟨interned.2.1.id, interned.1⟩, interned.2.2, interned.2.1⟩ := by
  obtain ⟨hindexed, hextends, hlists⟩ :=
    BindingCache.intern_indexed hs.indexed s.compiler (n.rawBindings namePrefix)
  obtain ⟨hname, hcounts, hsets⟩ := s.bindings.intern_counts s.compiler (n.rawBindings namePrefix)
  dsimp only
  generalize s.bindings.intern s.compiler (n.rawBindings namePrefix) = interned at *
  obtain ⟨i, b, k⟩ := interned
  dsimp only at *
  have hplaces : ∀ x j, Places ⟨s.document.setBindingRef h ⟨b.id, i⟩, k, b⟩ x j ↔
      x = h ∧ j = i ∨ s.Places x j :=
    fun x j => places_setBindingRef k hextends.id_eq hn hnone
  constructor
  · exact hindexed
  · exact hname.trans hs.namePrefix_eq
  · intro x
    rw [← hs.contents x, Document.setBindingRef, Document.get?_modify hn]
    split
    · next hx => rw [hx, hn, Option.map_some, Option.map_some]
    · rfl
  · rw [Document.setBindingRef, Document.vacant_modify hn]
    exact hs.vacant
  · intro x m j hm hj
    rcases (hplaces x j).mp hj with ⟨rfl, rfl⟩ | hj
    · obtain ⟨n', hn', hcontent⟩ := hs.get?_after hm
      obtain rfl := Option.some.inj (hn.symm.trans hn')
      rwa [← Node.rawBindings_congr hcontent]
    · exact (hs.listed x m j hm hj).extend hextends
  · intro j set hpos hset
    rcases hsets j set hset with rfl | hold
    · exact ⟨h, (hplaces h j).mpr (Or.inl ⟨rfl, rfl⟩)⟩
    · obtain ⟨x, hx⟩ := hs.used j set hpos hold
      exact ⟨x, (hplaces x j).mpr (Or.inr hx)⟩
  · have hpos := hindexed.pos_iff hlists
    rw [hcounts, hs.counted, ncard_marked_setBindingRef k hextends.id_eq hn hnone]
    by_cases hraw : n.rawBindings namePrefix = []
    · rw [if_pos hraw, if_neg fun hi => hpos.mp hi hraw]
    · rw [if_neg hraw, if_pos (hpos.mpr hraw)]

/-- A look at a removed node finds no bindings and is noted on no live node. -/
theorem intern_vacant (hs : s.Census namePrefix d) (hn : s.document.get? h = none) (r : BindingRef) :
    Census namePrefix d { s with document := s.document.setBindingRef h r } := by
  have heq : s.document.setBindingRef h r =
      { s.document with vacant := { Node.new .root with bindingRef? := some r } } := by
    simp [Document.setBindingRef, Document.modify, Document.writable, Document.put, hn]
  rw [heq]
  exact ⟨hs.indexed, hs.namePrefix_eq, hs.contents, rfl, hs.listed, hs.used, hs.counted⟩

theorem lookup (hs : s.Census namePrefix d) (h : Handle) : (s.lookup h).2.Census namePrefix d := by
  unfold Scan.lookup
  cases hremembered : s.bindings.remembered? s.document h with
  | some set => exact hs
  | none =>
    have hraw : s.bindings.rawBindings s.document h = (s.document.node h).rawBindings namePrefix := by
      rw [← hs.namePrefix_eq]
      rfl
    dsimp only
    rw [hraw]
    cases hn : s.document.get? h with
    | none =>
      have hnode : s.document.node h = s.document.vacant := by simp [Document.node, hn]
      rw [hnode, Node.rawBindings_of_root hs.vacant]
      exact hs.intern_vacant hn _
    | some n =>
      rw [Document.node_of_get? hn]
      refine hs.intern hn fun i hi => ?_
      obtain ⟨m, hm, -⟩ := hs.get?_before hn
      obtain ⟨set, hset, -⟩ := hs.listed h m i hm hi
      rw [BindingCache.remembered?, hi.slotOf, Option.bind_some, hset] at hremembered
      cases hremembered

theorem prime (hs : s.Census namePrefix d) (h : Handle) : (s.prime h).Census namePrefix d :=
  prime_keeps (fun _ h hs => hs.lookup h) hs h

end Census

end Scan

end TreeTemplate
