import Mathlib.Data.List.Nodup
import TreeTemplate.Document.Edit

/-!
The arena of a document as a partial map from handles to nodes.  Each primitive operation changes
this map at one handle (`get?_put`, `get?_alloc`, `get?_vacate`) and keeps the free list in order
(`Tidy`), so everything built from them is a matter of which handles it touches.
-/

namespace TreeTemplate.Document

variable {d : Document} {h x : Handle} {n m : Node}

/-- The free list holds every vacant slot once and nothing else. -/
structure Tidy (d : Document) : Prop where
  free_nodup : d.free.Nodup
  mem_free : ∀ i, i ∈ d.free ↔ ∃ s, d.slots[i]? = some s ∧ s.node? = none

theorem eq_iff_of_slot_eq (hslot : h.slot = x.slot) : x = h ↔ h.generation = x.generation := by
  cases h
  cases x
  simp_all [eq_comm]

theorem get?_eq_bind (d : Document) (h : Handle) :
    d.get? h =
      d.slots[h.slot]?.bind fun s => if s.generation = h.generation then s.node? else none := by
  unfold get?
  cases d.slots[h.slot]? <;> rfl

theorem get?_eq_some_iff :
    d.get? h = some n ↔
      ∃ s, d.slots[h.slot]? = some s ∧ s.generation = h.generation ∧ s.node? = some n := by
  unfold get?
  cases d.slots[h.slot]? with
  | none => simp
  | some s => by_cases hg : s.generation = h.generation <;> simp [hg]

/-- A live handle lies inside the arena. -/
theorem slot_lt_of_get? (hn : d.get? h = some n) : h.slot < d.slots.size := by
  obtain ⟨s, hs, -, -⟩ := get?_eq_some_iff.mp hn
  exact (Array.getElem?_eq_some_iff.mp hs).choose

/-- Live handles of one slot are equal. -/
theorem eq_of_slot_eq (hn : d.get? h = some n) (hm : d.get? x = some m)
    (hslot : h.slot = x.slot) : h = x := by
  obtain ⟨s, hs, hg, -⟩ := get?_eq_some_iff.mp hn
  obtain ⟨t, ht, hg', -⟩ := get?_eq_some_iff.mp hm
  rw [hslot, ht] at hs
  obtain rfl := Option.some.inj hs
  cases h
  cases x
  simp_all

theorem node_of_get? (hn : d.get? h = some n) : d.node h = n := by
  simp [node, hn]

theorem writable_of_get? (hn : d.get? h = some n) : d.writable h = n := by
  simp [writable, hn]

theorem contains_of_get? (hn : d.get? h = some n) : d.contains h = true := by
  simp [contains, hn]

theorem exists_of_contains (hh : d.contains h = true) : ∃ n, d.get? h = some n :=
  Option.isSome_iff_exists.mp hh

/-! ### Writing -/

theorem get?_put (hm : d.get? h = some m) (n : Node) (x : Handle) :
    (d.put h n).get? x = if x = h then some n else d.get? x := by
  have hlt := slot_lt_of_get? hm
  obtain ⟨s, hs, hg, -⟩ := get?_eq_some_iff.mp hm
  simp only [put, hm, get?_eq_bind, Array.getElem?_setIfInBounds]
  by_cases hslot : h.slot = x.slot
  · simp only [eq_iff_of_slot_eq hslot, ← hslot, hlt, hs, hg, if_true, Option.bind_some]
    split <;> rfl
  · have hx : x ≠ h := fun hx => hslot (hx ▸ rfl)
    simp [hslot, hx]

theorem get?_modify (hm : d.get? h = some m) (f : Node → Node) (x : Handle) :
    (d.modify h f).get? x = if x = h then some (f m) else d.get? x := by
  rw [modify, writable_of_get? hm, get?_put hm]

@[simp] theorem get?_mutated (d : Document) (x : Handle) : d.mutated.get? x = d.get? x :=
  rfl

theorem vacant_put (hm : d.get? h = some m) (n : Node) : (d.put h n).vacant = d.vacant := by
  simp [put, hm]

theorem vacant_modify (hm : d.get? h = some m) (f : Node → Node) :
    (d.modify h f).vacant = d.vacant :=
  vacant_put hm _

@[simp] theorem vacant_mutated (d : Document) : d.mutated.vacant = d.vacant :=
  rfl

/-- Writing a node that is there already changes nothing. -/
theorem put_self (hn : d.get? h = some n) : d.put h n = d := by
  obtain ⟨s, hs, hg, hnode⟩ := get?_eq_some_iff.mp hn
  have hslots : d.slots.setIfInBounds h.slot ⟨h.generation, some n⟩ = d.slots := by
    apply Array.ext_getElem?
    intro i
    by_cases hi : h.slot = i
    · subst hi
      have hlt := slot_lt_of_get? hn
      rw [Array.getElem?_setIfInBounds_self_of_lt hlt, hs, ← hg, ← hnode]
    · rw [Array.getElem?_setIfInBounds_ne hi]
  simp only [put, hn, hslots]

theorem Tidy.put (ht : d.Tidy) (hm : d.get? h = some m) (n : Node) : (d.put h n).Tidy := by
  have hlt := slot_lt_of_get? hm
  obtain ⟨s, hs, -, hnode⟩ := get?_eq_some_iff.mp hm
  refine ⟨by simpa [Document.put, hm] using ht.free_nodup, fun i => ?_⟩
  simp only [Document.put, hm, ht.mem_free, Array.getElem?_setIfInBounds]
  by_cases hi : h.slot = i
  · subst hi
    rw [hs]
    simp [hnode, hlt]
  · simp [hi]

theorem Tidy.modify (ht : d.Tidy) (hm : d.get? h = some m) (f : Node → Node) :
    (d.modify h f).Tidy :=
  ht.put hm _

theorem Tidy.mutated (ht : d.Tidy) : d.mutated.Tidy :=
  ⟨ht.free_nodup, ht.mem_free⟩

/-! ### Giving a node a slot -/

/-- The handle that `alloc` gives was not live. -/
theorem get?_fst_alloc (ht : d.Tidy) (n : Node) : d.get? (d.alloc n).1 = none := by
  unfold alloc
  cases hf : d.free with
  | nil => simp [get?]
  | cons i rest =>
    obtain ⟨s, hs, hnode⟩ := (ht.mem_free i).mp (hf ▸ List.mem_cons_self)
    simp [get?, hs, hnode]

theorem get?_alloc (ht : d.Tidy) (n : Node) (x : Handle) :
    (d.alloc n).2.get? x = if x = (d.alloc n).1 then some n else d.get? x := by
  unfold alloc
  cases hf : d.free with
  | nil =>
    simp only [get?_eq_bind, Array.getElem?_push]
    by_cases hslot : x.slot = d.slots.size
    · have hx : x = ⟨d.slots.size, 0⟩ ↔ 0 = x.generation := eq_iff_of_slot_eq hslot.symm
      simp [hslot, hx]
    · have hx : x ≠ ⟨d.slots.size, 0⟩ := fun hx => hslot (hx ▸ rfl)
      simp [hslot, hx]
  | cons i rest =>
    obtain ⟨s, hs, hnode⟩ := (ht.mem_free i).mp (hf ▸ List.mem_cons_self)
    have hlt : i < d.slots.size := (Array.getElem?_eq_some_iff.mp hs).choose
    simp only [hs, Option.map_some, Option.getD_some, get?_eq_bind, Array.getElem?_setIfInBounds]
    by_cases hslot : i = x.slot
    · have hx : x = ⟨i, s.generation⟩ ↔ s.generation = x.generation := eq_iff_of_slot_eq hslot
      simp only [hx, ← hslot, hlt, hs, if_true, Option.bind_some, hnode, ite_self]
    · have hx : x ≠ ⟨i, s.generation⟩ := fun hx => hslot (hx ▸ rfl)
      simp [hslot, hx]

@[simp] theorem vacant_alloc (d : Document) (n : Node) : (d.alloc n).2.vacant = d.vacant := by
  unfold alloc
  split <;> rfl

theorem Tidy.alloc (ht : d.Tidy) (n : Node) : (d.alloc n).2.Tidy := by
  unfold Document.alloc
  cases hf : d.free with
  | nil =>
    refine ⟨by simp, fun i => ?_⟩
    have hi : i ∉ d.free := by simp [hf]
    rw [ht.mem_free] at hi
    simp only [List.not_mem_nil, false_iff, Array.getElem?_push]
    split
    · simp
    · exact hi
  | cons j rest =>
    have hnodup := ht.free_nodup
    rw [hf, List.nodup_cons] at hnodup
    obtain ⟨s, hs, hnode⟩ := (ht.mem_free j).mp (hf ▸ List.mem_cons_self)
    have hlt : j < d.slots.size := (Array.getElem?_eq_some_iff.mp hs).choose
    refine ⟨hnodup.2, fun i => ?_⟩
    by_cases hi : j = i
    · subst hi
      simp [hlt, hnodup.1]
    · have hmem : i ∈ rest ↔ i ∈ d.free := by simp [hf, Ne.symm hi]
      simp only [hmem, ht.mem_free, Array.getElem?_setIfInBounds_ne hi]

/-! ### Vacating a slot -/

theorem get?_vacate (hm : d.get? h = some m) (x : Handle) :
    (d.vacate h).get? x = if x = h then none else d.get? x := by
  have hlt := slot_lt_of_get? hm
  obtain ⟨s, hs, hg, -⟩ := get?_eq_some_iff.mp hm
  simp only [vacate, get?_eq_bind, Array.getElem?_setIfInBounds]
  by_cases hslot : h.slot = x.slot
  · simp only [eq_iff_of_slot_eq hslot, ← hslot, hlt, hs, hg, if_true, Option.bind_some, ite_self]
    split <;> rfl
  · have hx : x ≠ h := fun hx => hslot (hx ▸ rfl)
    simp [hslot, hx]

@[simp] theorem vacant_vacate (d : Document) (h : Handle) : (d.vacate h).vacant = d.vacant :=
  rfl

theorem Tidy.vacate (ht : d.Tidy) (hm : d.get? h = some m) : (d.vacate h).Tidy := by
  have hlt := slot_lt_of_get? hm
  obtain ⟨s, hs, -, hnode⟩ := get?_eq_some_iff.mp hm
  have hfree : h.slot ∉ d.free := by
    rw [ht.mem_free]
    rintro ⟨t, ht', hnone⟩
    rw [hs] at ht'
    obtain rfl := Option.some.inj ht'
    simp [hnode] at hnone
  refine ⟨by simp [Document.vacate, hfree, ht.free_nodup], fun i => ?_⟩
  by_cases hi : h.slot = i
  · subst hi
    simp [Document.vacate, hlt]
  · simp [Document.vacate, Array.getElem?_setIfInBounds_ne hi, ht.mem_free, Ne.symm hi]

end TreeTemplate.Document
