import Mathlib.Algebra.Ring.Nat
import Mathlib.Logic.Function.Iterate
import TreeTemplate.Proofs.Document.Arena

/-!
The handles of a document over time.  What a program does to an arena is to give nodes slots, to take
live nodes out of their slots, and to write what leaves the slots as they are (`Annals`).  The
generation of a slot counts how often it was vacated, so as long as no slot is vacated `2 ^ 32` times
a handle is given out once and does not come back (`Annals.register`, `Register.not_contains`).  With
the last of so many vacancies it does (`alloc_after_all_generations`).
-/

namespace TreeTemplate

/-- What is known of a slot without looking at its node. -/
def Slot.seal (s : Slot) : UInt32 × Bool :=
  (s.generation, s.node?.isSome)

namespace Document

variable {d d₀ d₁ d₂ d' : Document} {h x : Handle} {n : Node} {i : Nat}

/-! ### Events -/

inductive Event where
  /-- A node got a slot, under this handle. -/
  | allocated (h : Handle)
  /-- The node of this handle was taken out of its slot. -/
  | vacated (h : Handle)
  deriving DecidableEq, Repr

namespace Event

def allocated? : Event → Option Handle
  | allocated h => some h
  | vacated _ => none

def vacates (i : Nat) : Event → Bool
  | allocated _ => false
  | vacated h => h.slot == i

end Event

variable {log log' past : List Event}

def allocations (log : List Event) : List Handle :=
  log.filterMap Event.allocated?

def vacancies (i : Nat) (log : List Event) : Nat :=
  log.countP (Event.vacates i)

@[simp] theorem allocations_append (log log' : List Event) :
    allocations (log ++ log') = allocations log ++ allocations log' :=
  List.filterMap_append

@[simp] theorem allocations_allocated (h : Handle) : allocations [.allocated h] = [h] :=
  rfl

@[simp] theorem allocations_vacated (h : Handle) : allocations [.vacated h] = [] :=
  rfl

@[simp] theorem vacancies_nil (i : Nat) : vacancies i [] = 0 :=
  rfl

@[simp] theorem vacancies_append (i : Nat) (log log' : List Event) :
    vacancies i (log ++ log') = vacancies i log + vacancies i log' :=
  List.countP_append

@[simp] theorem vacancies_allocated (i : Nat) (h : Handle) : vacancies i [.allocated h] = 0 :=
  rfl

@[simp] theorem vacancies_vacated (i : Nat) (h : Handle) :
    vacancies i [.vacated h] = if h.slot = i then 1 else 0 := by
  simp [vacancies, Event.vacates, List.countP_cons]

/-! ### Writing -/

/-- The same slots are taken, under the same generations. -/
structure SameSlots (d d' : Document) : Prop where
  seal_eq : ∀ i : Nat, (d'.slots[i]?).map Slot.seal = (d.slots[i]?).map Slot.seal
  free_eq : d'.free = d.free

theorem contains_iff : d.contains h = true ↔
    (d.slots[h.slot]?).map Slot.seal = some (h.generation, true) := by
  rw [contains, Option.isSome_iff_exists]
  simp only [get?_eq_some_iff, Option.map_eq_some_iff, Slot.seal, Prod.mk.injEq,
    Option.isSome_iff_exists]
  constructor
  · rintro ⟨n, s, hs, hg, hnode⟩
    exact ⟨s, hs, hg, n, hnode⟩
  · rintro ⟨s, hs, hg, n, hnode⟩
    exact ⟨n, s, hs, hg, hnode⟩

namespace SameSlots

theorem refl (d : Document) : SameSlots d d :=
  ⟨fun _ => rfl, rfl⟩

theorem trans (hs : SameSlots d d₁) (hs' : SameSlots d₁ d₂) : SameSlots d d₂ :=
  ⟨fun i => (hs'.seal_eq i).trans (hs.seal_eq i), hs'.free_eq.trans hs.free_eq⟩

theorem mutated (hs : SameSlots d d') : SameSlots d d'.mutated :=
  ⟨hs.seal_eq, hs.free_eq⟩

/-- A write reaches the node of a live handle or the vacant node, and takes no slot. -/
theorem put (d : Document) (h : Handle) (n : Node) : SameSlots d (d.put h n) := by
  cases hm : d.get? h with
  | none =>
    rw [show d.put h n = { d with vacant := n } by simp only [Document.put, hm]]
    exact ⟨fun _ => rfl, rfl⟩
  | some m =>
    have hlt := slot_lt_of_get? hm
    obtain ⟨s, hs, hg, hnode⟩ := get?_eq_some_iff.mp hm
    refine ⟨fun i => ?_, by simp only [Document.put, hm]⟩
    simp only [Document.put, hm, Array.getElem?_setIfInBounds]
    by_cases hi : h.slot = i
    · subst hi
      rw [if_pos rfl, if_pos hlt, hs]
      simp [Slot.seal, hg, hnode]
    · rw [if_neg hi]

theorem modify (d : Document) (h : Handle) (f : Node → Node) : SameSlots d (d.modify h f) :=
  put d h _

theorem contains_eq (hs : SameSlots d d') (x : Handle) : d'.contains x = d.contains x := by
  rw [Bool.eq_iff_iff, contains_iff, contains_iff, hs.seal_eq]

theorem tidy (hs : SameSlots d d') (ht : d.Tidy) : d'.Tidy := by
  have hvacant : ∀ (d : Document) (i : Nat), (∃ s, d.slots[i]? = some s ∧ s.node? = none) ↔
      ∃ p, (d.slots[i]?).map Slot.seal = some p ∧ p.2 = false := by
    intro d i
    simp [Slot.seal]
  refine ⟨hs.free_eq ▸ ht.free_nodup, fun i => ?_⟩
  rw [hs.free_eq, ht.mem_free, hvacant, hvacant, hs.seal_eq]

end SameSlots

/-! ### Courses of an arena -/

/-- A document is changed by giving nodes slots, by vacating slots and by writing.  The log holds what
happens to the slots. -/
inductive Annals : Document → List Event → Document → Prop
  | done (d : Document) : Annals d [] d
  | write {d d₁ d' : Document} {log : List Event} (hs : SameSlots d d₁) (rest : Annals d₁ log d') :
      Annals d log d'
  | alloc {d d' : Document} {log : List Event} (n : Node) (rest : Annals (d.alloc n).2 log d') :
      Annals d (.allocated (d.alloc n).1 :: log) d'
  | vacate {d d' : Document} {log : List Event} {h : Handle} {n : Node} (hn : d.get? h = some n)
      (rest : Annals (d.vacate h) log d') : Annals d (.vacated h :: log) d'

namespace Annals

theorem of_sameSlots (hs : SameSlots d d') : Annals d [] d' :=
  .write hs (.done d')

theorem append (ha : Annals d log d₁) (ha' : Annals d₁ log' d₂) : Annals d (log ++ log') d₂ := by
  induction ha with
  | done d => exact ha'
  | write hs _ ih => exact .write hs (ih ha')
  | alloc n _ ih => exact .alloc n (ih ha')
  | vacate hn _ ih => exact .vacate hn (ih ha')

theorem then_write (ha : Annals d log d₁) (hs : SameSlots d₁ d₂) : Annals d log d₂ := by
  have hall := ha.append (of_sameSlots hs)
  rwa [List.append_nil] at hall

theorem tidy (ha : Annals d log d') (ht : d.Tidy) : d'.Tidy := by
  induction ha with
  | done d => exact ht
  | write hs _ ih => exact ih (hs.tidy ht)
  | alloc n _ ih => exact ih (ht.alloc n)
  | vacate hn _ ih => exact ih (ht.vacate hn)

end Annals

/-! ### Generations -/

/-- The generation that a slot has, or will have when there is one. -/
def generationAt (d : Document) (i : Nat) : UInt32 :=
  ((d.slots[i]?).map Slot.generation).getD 0

/-- The handle is one of a time since `d₀` after which its slot was vacated. -/
def Spent (d₀ : Document) (log : List Event) (h : Handle) : Prop :=
  ∃ k < vacancies h.slot log, h.generation = d₀.generationAt h.slot + .ofNat k

theorem Spent.mono (hspent : Spent d₀ past h) (log : List Event) : Spent d₀ (past ++ log) h := by
  obtain ⟨k, hk, hgeneration⟩ := hspent
  exact ⟨k, by rw [vacancies_append]; omega, hgeneration⟩

/-- Less than `2 ^ 32` vacancies lead to different generations. -/
theorem add_ofNat_ne {g : UInt32} {j k : Nat} (hjk : j < k) (hk : k < 2 ^ 32) :
    g + UInt32.ofNat j ≠ g + UInt32.ofNat k := by
  intro heq
  have hnat := congrArg UInt32.toNat ((UInt32.add_right_inj g).mp heq)
  rw [UInt32.toNat_ofNat_of_lt' (by simpa [UInt32.size] using Nat.lt_trans hjk hk),
    UInt32.toNat_ofNat_of_lt' (by simpa [UInt32.size] using hk)] at hnat
  omega

/-- What the log since `d₀` says of the document `d`: how often its slots were vacated, and that a
handle that was live or was given out since then is live, or its slot was vacated. -/
structure Register (d₀ : Document) (log : List Event) (d : Document) : Prop where
  tidy : d.Tidy
  generationAt_eq : ∀ i, d.generationAt i = d₀.generationAt i + .ofNat (vacancies i log)
  known : ∀ h, d₀.contains h = true ∨ h ∈ allocations log → d.contains h = true ∨ Spent d₀ log h
  nodup : (allocations log).Nodup
  fresh : ∀ h ∈ allocations log, d₀.contains h = false

theorem Register.start (ht : d.Tidy) : Register d [] d where
  tidy := ht
  generationAt_eq i := by simp
  known h hh := Or.inl (hh.resolve_right (by simp [allocations]))
  nodup := List.nodup_nil
  fresh := by simp [allocations]

/-- A live handle has the generation of its slot. -/
theorem generationAt_of_contains (hh : d.contains h = true) :
    d.generationAt h.slot = h.generation := by
  rw [contains_iff, Option.map_eq_some_iff] at hh
  obtain ⟨s, hs, hseal⟩ := hh
  rw [generationAt, hs]
  exact congrArg Prod.fst hseal

theorem contains_alloc (ht : d.Tidy) (n : Node) (x : Handle) :
    (d.alloc n).2.contains x = true ↔ x = (d.alloc n).1 ∨ d.contains x = true := by
  rw [contains, get?_alloc ht]
  split
  · next hx => simp [hx]
  · next hx => simp [hx, contains]

/-- Giving out a slot leaves its generation. -/
theorem generationAt_alloc (ht : d.Tidy) (n : Node) (i : Nat) :
    (d.alloc n).2.generationAt i = d.generationAt i := by
  unfold generationAt Document.alloc
  cases hfree : d.free with
  | nil =>
    simp only [Array.getElem?_push]
    split
    · next hi => simp [hi]
    · rfl
  | cons j rest =>
    simp only [Array.getElem?_setIfInBounds]
    split
    · next hj =>
      obtain ⟨s, hs, -⟩ := (ht.mem_free j).mp (hfree ▸ List.mem_cons_self)
      simp [← hj, (Array.getElem?_eq_some_iff.mp hs).choose]
    · rfl

/-- Vacating a slot brings its next generation. -/
theorem generationAt_vacate (hn : d.get? h = some n) (i : Nat) :
    (d.vacate h).generationAt i = if h.slot = i then h.generation + 1 else d.generationAt i := by
  unfold generationAt Document.vacate
  simp only [Array.getElem?_setIfInBounds]
  split
  · next hi =>
    subst hi
    simp [slot_lt_of_get? hn]
  · rfl

namespace Register

/-- A handle whose slot was vacated is not live. -/
theorem not_contains_of_spent (hr : Register d₀ past d) (hbound : ∀ i, vacancies i past < 2 ^ 32)
    (hspent : Spent d₀ past h) : d.contains h = false := by
  rw [← Bool.not_eq_true]
  intro hh
  obtain ⟨k, hk, hgeneration⟩ := hspent
  apply add_ofNat_ne hk (hbound h.slot)
  rw [← hgeneration, ← hr.generationAt_eq, generationAt_of_contains hh]

/-- A handle that is dead by now, having been live since `d₀`, has lost its slot. -/
theorem spent (hr : Register d₀ past d) (hh : d₀.contains h = true ∨ h ∈ allocations past)
    (hdead : d.contains h = false) : Spent d₀ past h :=
  (hr.known h hh).resolve_left (by simp [hdead])

theorem write (hr : Register d₀ past d) (hs : SameSlots d d₁) : Register d₀ past d₁ where
  tidy := hs.tidy hr.tidy
  generationAt_eq i := by
    have hseal := congrArg (Option.map Prod.fst) (hs.seal_eq i)
    rw [Option.map_map, Option.map_map] at hseal
    rw [← hr.generationAt_eq]
    exact congrArg (·.getD 0) hseal
  known h hh := by
    rw [hs.contains_eq]
    exact hr.known h hh
  nodup := hr.nodup
  fresh := hr.fresh

theorem alloc (hr : Register d₀ past d) (hbound : ∀ i, vacancies i past < 2 ^ 32) (n : Node) :
    Register d₀ (past ++ [.allocated (d.alloc n).1]) (d.alloc n).2 := by
  have hlive := contains_alloc hr.tidy n
  have hgeneration := generationAt_alloc hr.tidy n
  have hdead : d.contains (d.alloc n).1 = false := by
    rw [contains, get?_fst_alloc hr.tidy]
    rfl
  have hnew : ∀ x, d₀.contains x = true ∨ x ∈ allocations past → x ≠ (d.alloc n).1 := by
    rintro x hx rfl
    obtain ⟨k, hk, hkg⟩ := hr.spent hx hdead
    apply add_ofNat_ne hk (hbound _)
    rw [← hkg, ← hr.generationAt_eq, ← hgeneration,
      generationAt_of_contains ((hlive _).mpr (Or.inl rfl))]
  constructor
  · exact hr.tidy.alloc n
  · intro i
    rw [hgeneration, hr.generationAt_eq, vacancies_append, vacancies_allocated, Nat.add_zero]
  · intro x hx
    rw [hlive]
    rw [allocations_append, allocations_allocated, List.mem_append, List.mem_singleton,
      ← or_assoc] at hx
    rcases hx with hx | rfl
    · exact (hr.known x hx).imp Or.inr fun hspent => hspent.mono _
    · exact Or.inl (Or.inl rfl)
  · rw [allocations_append, allocations_allocated, List.nodup_append']
    refine ⟨hr.nodup, List.nodup_singleton _, fun x hx hx' => ?_⟩
    exact hnew x (Or.inr hx) (List.mem_singleton.mp hx')
  · intro x hx
    rw [allocations_append, allocations_allocated, List.mem_append, List.mem_singleton] at hx
    rcases hx with hx | rfl
    · exact hr.fresh x hx
    · rw [← Bool.not_eq_true]
      exact fun hold => hnew _ (Or.inl hold) rfl

theorem vacate (hr : Register d₀ past d) (hn : d.get? h = some n) :
    Register d₀ (past ++ [.vacated h]) (d.vacate h) := by
  have hh : d.contains h = true := contains_of_get? hn
  have hgeneration := generationAt_vacate hn
  constructor
  · exact hr.tidy.vacate hn
  · intro i
    rw [hgeneration, vacancies_append, vacancies_vacated]
    split
    · next hi =>
      subst hi
      rw [← generationAt_of_contains hh, hr.generationAt_eq, UInt32.ofNat_add, UInt32.add_assoc]
      rfl
    · rw [hr.generationAt_eq, Nat.add_zero]
  · intro x hx
    rw [allocations_append, allocations_vacated, List.append_nil] at hx
    by_cases hxh : x = h
    · subst hxh
      refine Or.inr ⟨vacancies x.slot past, ?_, ?_⟩
      · rw [vacancies_append, vacancies_vacated, if_pos rfl]
        omega
      · rw [← hr.generationAt_eq, generationAt_of_contains hh]
    · refine (hr.known x hx).imp (fun hx => ?_) fun hspent => hspent.mono _
      rw [contains, get?_vacate hn, if_neg hxh]
      exact hx
  · rw [allocations_append, allocations_vacated, List.append_nil]
    exact hr.nodup
  · intro x hx
    rw [allocations_append, allocations_vacated, List.append_nil] at hx
    exact hr.fresh x hx

end Register

/-- What happens to the slots keeps the register, as long as none is vacated `2 ^ 32` times. -/
theorem Annals.register (ha : Annals d log d') (hr : Register d₀ past d)
    (hbound : ∀ i, vacancies i (past ++ log) < 2 ^ 32) : Register d₀ (past ++ log) d' := by
  induction ha generalizing past with
  | done d => rwa [List.append_nil]
  | write hs _ ih => exact ih (hr.write hs) hbound
  | @alloc d d' log n rest ih =>
    have hpast : ∀ i, vacancies i past < 2 ^ 32 := by
      intro i
      have hi := hbound i
      rw [vacancies_append] at hi
      omega
    rw [List.append_cons] at hbound ⊢
    exact ih (hr.alloc hpast n) hbound
  | vacate hn _ ih =>
    rw [List.append_cons] at hbound ⊢
    exact ih (hr.vacate hn) hbound

/-! ### The last generation -/

/-- A node gets a slot and loses it. -/
def revolved (d : Document) (n : Node) : Document :=
  (d.alloc n).2.vacate (d.alloc n).1

theorem revolved_tidy (ht : d.Tidy) (n : Node) : (d.revolved n).Tidy := by
  apply (ht.alloc n).vacate
  rw [get?_alloc ht, if_pos rfl]

/-- The slot that was used last is used next, under the next generation. -/
theorem alloc_revolved (ht : d.Tidy) (n : Node) :
    ((d.revolved n).alloc n).1 = ⟨(d.alloc n).1.slot, (d.alloc n).1.generation + 1⟩ := by
  have hlive : (d.alloc n).2.get? (d.alloc n).1 = some n := by
    rw [get?_alloc ht, if_pos rfl]
  have hlt := slot_lt_of_get? hlive
  unfold revolved
  generalize d.alloc n = r at hlt
  simp only [vacate, alloc, Array.getElem?_setIfInBounds, if_pos, hlt, Option.map_some,
    Option.getD_some]

theorem alloc_iterate_revolved (ht : d.Tidy) (n : Node) (k : Nat) :
    (((revolved · n)^[k] d).alloc n).1 =
      ⟨(d.alloc n).1.slot, (d.alloc n).1.generation + .ofNat k⟩ := by
  induction k generalizing d with
  | zero => simp
  | succ k ih =>
    rw [Function.iterate_succ_apply, ih (revolved_tidy ht n), alloc_revolved ht, UInt32.ofNat_add,
      UInt32.add_assoc, UInt32.add_comm (.ofNat k)]
    rfl

/-- When a slot was vacated `2 ^ 32` times, its first handle is given out again. -/
theorem alloc_after_all_generations (ht : d.Tidy) (n : Node) :
    (((revolved · n)^[2 ^ 32] d).alloc n).1 = (d.alloc n).1 := by
  rw [alloc_iterate_revolved ht, show UInt32.ofNat (2 ^ 32) = 0 from rfl, UInt32.add_zero]

end Document

end TreeTemplate
