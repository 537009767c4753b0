import Mathlib.Data.List.Nodup
import TreeTemplate.Context.Pool

/-!
The pool of contexts as a partial map from handles to contexts.  Every operation changes the map at
one handle; a context that is handed out is set up completely, so nothing of the spare context it is
made from stays, except for the functions (`Uniform`).  What a visit does to the pool shows only at
the context of the visit (`Turned`).
-/

namespace TreeTemplate.Pool

variable {p p₁ p₂ : Pool} {x id parent : ContextId} {c c₁ c₂ k : Context} {data : Value}
  {F : Registry → Prop}

/-- The free list holds every vacant slot once and nothing else. -/
structure Sound (p : Pool) : Prop where
  free_nodup : p.free.Nodup
  mem_free : ∀ i, i ∈ p.free ↔ p.slots[i]? = some none

/-- The functions that the spare contexts know are as described. -/
def Uniform (p : Pool) (F : Registry → Prop) : Prop :=
  ∀ c ∈ p.spares, F c.functions

theorem eq_iff_slot_eq : x = id ↔ id.slot = x.slot := by
  cases x
  cases id
  simp [eq_comm]

theorem slot_of_get? (h : p.get? id = some c) : p.slots[id.slot]? = some (some c) := by
  unfold get? at h
  cases hslot : p.slots[id.slot]? with
  | none => simp [hslot] at h
  | some c? =>
    rw [hslot] at h
    simpa using h

theorem new_sound (functions : Registry) (pooling : Bool) : (new functions pooling).Sound :=
  ⟨List.nodup_nil, by simp [new]⟩

/-! ### Replacing a context -/

theorem get?_put (h : p.get? id = some k) (c : Context) (x : ContextId) :
    (p.put id c).get? x = if x = id then some c else p.get? x := by
  have hslot := slot_of_get? h
  have hlt : id.slot < p.slots.size := (Array.getElem?_eq_some_iff.mp hslot).choose
  simp only [put, h]
  simp only [get?, Array.getElem?_setIfInBounds, eq_iff_slot_eq]
  by_cases hx : id.slot = x.slot
  · simp [← hx, hlt]
  · simp [hx]

theorem Sound.put (hs : p.Sound) (h : p.get? id = some k) (c : Context) : (p.put id c).Sound := by
  have hslot := slot_of_get? h
  refine ⟨by simpa [Pool.put, h] using hs.free_nodup, fun i => ?_⟩
  simp only [Pool.put, h, hs.mem_free, Array.getElem?_setIfInBounds]
  by_cases hi : id.slot = i
  · subst hi
    rw [hslot]
    simp
  · simp [hi]

theorem spares_put (p : Pool) (id : ContextId) (c : Context) : (p.put id c).spares = p.spares := by
  unfold put
  split <;> rfl

theorem functions_put (p : Pool) (id : ContextId) (c : Context) :
    (p.put id c).functions = p.functions := by
  unfold put
  split <;> rfl

/-! ### Storing a context -/

theorem get?_fst_store (hs : p.Sound) (c : Context) : p.get? (p.store c).1 = none := by
  unfold store
  cases hf : p.free with
  | nil => simp [get?]
  | cons i rest =>
    have hslot := (hs.mem_free i).mp (hf ▸ List.mem_cons_self)
    simp [get?, hslot]

theorem get?_store (hs : p.Sound) (c : Context) (x : ContextId) :
    (p.store c).2.get? x = if x = (p.store c).1 then some c else p.get? x := by
  unfold store
  cases hf : p.free with
  | nil =>
    simp only [get?, eq_iff_slot_eq, Array.getElem?_push]
    by_cases hx : x.slot = p.slots.size
    · simp [hx]
    · simp [hx, Ne.symm hx]
  | cons i rest =>
    have hslot := (hs.mem_free i).mp (hf ▸ List.mem_cons_self)
    have hlt : i < p.slots.size := (Array.getElem?_eq_some_iff.mp hslot).choose
    simp only [get?, eq_iff_slot_eq, Array.getElem?_setIfInBounds]
    by_cases hx : i = x.slot
    · simp [← hx, hlt]
    · simp [hx]

theorem Sound.store (hs : p.Sound) (c : Context) : (p.store c).2.Sound := by
  unfold Pool.store
  cases hf : p.free with
  | nil =>
    refine ⟨by simp, fun i => ?_⟩
    have hi : i ∉ p.free := by simp [hf]
    rw [hs.mem_free] at hi
    simp only [List.not_mem_nil, false_iff, Array.getElem?_push]
    split
    · simp
    · exact hi
  | cons j rest =>
    have hnodup := hs.free_nodup
    rw [hf, List.nodup_cons] at hnodup
    have hslot := (hs.mem_free j).mp (hf ▸ List.mem_cons_self)
    have hlt : j < p.slots.size := (Array.getElem?_eq_some_iff.mp hslot).choose
    refine ⟨hnodup.2, fun i => ?_⟩
    by_cases hi : j = i
    · subst hi
      simp [hlt, hnodup.1]
    · have hmem : i ∈ rest ↔ i ∈ p.free := by simp [hf, Ne.symm hi]
      simp only [hmem, hs.mem_free, Array.getElem?_setIfInBounds_ne hi]

theorem spares_store (p : Pool) (c : Context) : (p.store c).2.spares = p.spares := by
  unfold store
  split <;> rfl

theorem functions_store (p : Pool) (c : Context) : (p.store c).2.functions = p.functions := by
  unfold store
  split <;> rfl

/-! ### New contexts -/

/-- The pool `p'` is `p` with the context `c` under the fresh handle `id`. -/
structure Opened (p : Pool) (id : ContextId) (c : Context) (p' : Pool) : Prop where
  fresh : p.get? id = none
  get?_eq : ∀ x, p'.get? x = if x = id then some c else p.get? x
  sound : p'.Sound
  uniform : ∀ F, p.Uniform F → p'.Uniform F
  functions_eq : p'.functions = p.functions

theorem Opened.get?_self (h : Opened p id c p₁) : p₁.get? id = some c := by
  rw [h.get?_eq, if_pos rfl]

theorem Opened.get?_of_ne (h : Opened p id c p₁) (hx : x ≠ id) : p₁.get? x = p.get? x := by
  rw [h.get?_eq, if_neg hx]

theorem takeSpare_slots (p : Pool) :
    p.takeSpare.2.slots = p.slots ∧ p.takeSpare.2.free = p.free ∧
      p.takeSpare.2.functions = p.functions := by
  unfold takeSpare
  split <;> exact ⟨rfl, rfl, rfl⟩

theorem get?_takeSpare (p : Pool) (x : ContextId) : p.takeSpare.2.get? x = p.get? x := by
  rw [get?, (takeSpare_slots p).1, get?]

theorem Uniform.takeSpare (hu : p.Uniform F) :
    p.takeSpare.2.Uniform F ∧ (F p.functions → F p.takeSpare.1.functions) := by
  unfold Pool.takeSpare
  cases hspares : p.spares with
  | nil => exact ⟨hu, id⟩
  | cons c rest =>
    refine ⟨fun k hk => hu k ?_, fun _ => hu c (by simp [hspares])⟩
    rw [hspares]
    exact List.mem_cons_of_mem c hk

/-- Storing into the pool that is left when a spare context was taken. -/
theorem store_opened (hs : p.Sound) (c : Context) :
    Opened p (p.takeSpare.2.store c).1 c (p.takeSpare.2.store c).2 := by
  obtain ⟨hslots, hfree, hfunctions⟩ := takeSpare_slots p
  have hq : p.takeSpare.2.Sound :=
    ⟨hfree ▸ hs.free_nodup, by rw [hslots, hfree]; exact hs.mem_free⟩
  refine ⟨?_, fun x => ?_, hq.store c, fun F hu k hk => ?_, ?_⟩
  · rw [← get?_takeSpare, get?_fst_store hq]
  · rw [get?_store hq, get?_takeSpare]
  · rw [spares_store] at hk
    exact hu.takeSpare.1 k hk
  · rw [functions_store, hfunctions]

/-- A new root context holds the data and the globals, whatever it was made from. -/
theorem createRoot_opened (hs : p.Sound) (data : Value) (globals : Variables) :
    ∃ functions, (∀ F, p.Uniform F → F p.functions → F functions) ∧
      Opened p (p.createRoot data globals).1 (Context.root data globals functions)
        (p.createRoot data globals).2 :=
  ⟨p.takeSpare.1.functions, fun _ hu => hu.takeSpare.2,
    store_opened hs (p.takeSpare.1.resetRoot data globals)⟩

/-- A new child is the child of its parent, whatever it was made from. -/
theorem createChild_opened (hs : p.Sound) (h : p.get? parent = some c) (data : Value) :
    Opened p (p.createChild data parent).1 (c.child data) (p.createChild data parent).2 := by
  have heq : p.createChild data parent =
      p.takeSpare.2.store (p.takeSpare.1.resetChild data c) := by
    simp only [createChild, get?_takeSpare, h]
  rw [heq]
  exact store_opened hs _

/-- A new context may be changed at once. -/
theorem Opened.put (ho : Opened p id c p₁) (k : Context) : Opened p id k (p₁.put id k) := by
  refine ⟨ho.fresh, fun x => ?_, ho.sound.put ho.get?_self _, fun F hu k hk => ?_, ?_⟩
  · rw [get?_put ho.get?_self, ho.get?_eq]
    split <;> rfl
  · rw [spares_put] at hk
    exact ho.uniform F hu k hk
  · rw [functions_put, ho.functions_eq]

theorem createItem_opened (hs : p.Sound) (h : p.get? parent = some c) (data : Value)
    (index count : Nat) :
    Opened p (p.createItem parent data index count).1 (c.item data index count)
      (p.createItem parent data index count).2 := by
  have ho := createChild_opened hs h data
  have hid : (p.createChild data parent).2.get? (p.createChild data parent).1 =
      some (c.child data) := ho.get?_self
  have heq : p.createItem parent data index count =
      ((p.createChild data parent).1, (p.createChild data parent).2.put (p.createChild data parent).1
        (c.item data index count)) := by
    simp only [createItem, hid, Context.item]
  rw [heq]
  exact ho.put _

/-! ### Releasing a context -/

theorem get?_recycle (h : p.get? id = some c) (x : ContextId) :
    (p.recycle id).get? x = if x = id then none else p.get? x := by
  have hslot := slot_of_get? h
  have hlt : id.slot < p.slots.size := (Array.getElem?_eq_some_iff.mp hslot).choose
  simp only [recycle, h]
  simp only [get?, Array.getElem?_setIfInBounds, eq_iff_slot_eq]
  by_cases hx : id.slot = x.slot
  · simp [← hx, hlt]
  · simp [hx]

theorem Sound.recycle (hs : p.Sound) (h : p.get? id = some c) : (p.recycle id).Sound := by
  have hslot := slot_of_get? h
  have hlt : id.slot < p.slots.size := (Array.getElem?_eq_some_iff.mp hslot).choose
  have hfree : id.slot ∉ p.free := by
    rw [hs.mem_free, hslot]
    simp
  refine ⟨by simp [Pool.recycle, h, hfree, hs.free_nodup], fun i => ?_⟩
  by_cases hi : id.slot = i
  · subst hi
    simp [Pool.recycle, h, hlt]
  · simp [Pool.recycle, h, Array.getElem?_setIfInBounds_ne hi, hs.mem_free, Ne.symm hi]

/-- A live context can be released, and then it is not live any more. -/
theorem recycle_spec (hs : p.Sound) (h : p.get? id ≠ none) :
    (p.recycle id).Sound ∧ ∀ x, (p.recycle id).get? x = none ↔ x = id ∨ p.get? x = none := by
  obtain ⟨c, hc⟩ := Option.ne_none_iff_exists'.mp h
  refine ⟨hs.recycle hc, fun x => ?_⟩
  rw [get?_recycle hc]
  split
  · next hx => simp [hx]
  · next hx => simp [hx]

theorem Uniform.recycle (hu : p.Uniform F) (h : p.get? id = some c) (hc : F c.functions) :
    (p.recycle id).Uniform F := by
  intro k hk
  simp only [Pool.recycle, h] at hk
  split at hk
  · rcases List.mem_cons.mp hk with rfl | hk
    · exact hc
    · exact hu k hk
  · exact hu k hk

theorem functions_recycle (p : Pool) (id : ContextId) : (p.recycle id).functions = p.functions := by
  unfold recycle
  split <;> rfl

/-! ### Visits -/

/-- The pool `p'` is `p` with the context `c` under `id`, whatever was opened and released in between;
what the released contexts know is as described. -/
structure Turned (F : Registry → Prop) (p p' : Pool) (id : ContextId) (c : Context) : Prop where
  get?_eq : ∀ x, p'.get? x = if x = id then some c else p.get? x
  sound : p'.Sound
  uniform : p.Uniform F → p'.Uniform F
  functions_eq : p'.functions = p.functions

namespace Turned

theorem get?_self (h : Turned F p p₁ id c) : p₁.get? id = some c := by
  rw [h.get?_eq, if_pos rfl]

theorem get?_of_ne (h : Turned F p p₁ id c) (hx : x ≠ id) : p₁.get? x = p.get? x := by
  rw [h.get?_eq, if_neg hx]

theorem refl (hs : p.Sound) (h : p.get? id = some c) : Turned F p p id c := by
  refine ⟨fun x => ?_, hs, fun hu => hu, rfl⟩
  split
  · next hx => rw [hx, h]
  · rfl

theorem put (hs : p.Sound) (h : p.get? id = some k) (c : Context) :
    Turned F p (p.put id c) id c :=
  ⟨get?_put h c, hs.put h c, fun hu k hk => hu k (by rwa [spares_put] at hk), functions_put p id c⟩

theorem trans (h : Turned F p p₁ id c₁) (h' : Turned F p₁ p₂ id c₂) : Turned F p p₂ id c₂ := by
  refine ⟨fun x => ?_, h'.sound, fun hu => h'.uniform (h.uniform hu),
    h'.functions_eq.trans h.functions_eq⟩
  rw [h'.get?_eq, h.get?_eq]
  split <;> rfl

end Turned

/-! ### Counting -/

section Counting

variable {α : Type} {l l' : List (Option α)}

/-- A list without values at its places has none. -/
theorem countP_isSome_eq_zero (h : ∀ i : Nat, l[i]?.join = none) : l.countP Option.isSome = 0 := by
  rw [List.countP_eq_zero]
  intro a ha
  obtain ⟨i, hi⟩ := List.mem_iff_getElem?.mp ha
  have hnone := h i
  rw [hi, Option.join_some] at hnone
  simp [hnone]

/-- Lists with values at the same places have the same number of them. -/
theorem countP_isSome_eq (h : ∀ i : Nat, l[i]?.join = none ↔ l'[i]?.join = none) :
    l.countP Option.isSome = l'.countP Option.isSome := by
  induction l generalizing l' with
  | nil => exact (countP_isSome_eq_zero fun i => (h i).mp rfl).symm
  | cons a l ih =>
    cases l' with
    | nil => exact countP_isSome_eq_zero fun i => (h i).mpr rfl
    | cons a' l' =>
      have hhead : a = none ↔ a' = none := h 0
      have hsame : a.isSome = a'.isSome := by
        cases a <;> cases a' <;> simp_all
      rw [List.countP_cons, List.countP_cons, ih fun i => h (i + 1), hsame]

end Counting

/-- Pools in which the same contexts are live have as many of them. -/
theorem live_eq (h : ∀ x, p₁.get? x = none ↔ p₂.get? x = none) : p₁.live = p₂.live := by
  apply countP_isSome_eq
  intro i
  simpa [get?] using h ⟨i⟩

end TreeTemplate.Pool
