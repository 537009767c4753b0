import Mathlib.Data.List.Nodup
import TreeTemplate.Dict

/-!
Laws of dictionaries.  A dictionary whose keys are different behaves like a finite map, and setting
or dropping an entry that is set or missing already changes nothing.
-/

namespace TreeTemplate.Dict

variable {α : Type} {d : Dict α} {key other : String} {v w : α}

theorem mem_keys_iff : key ∈ keys d ↔ ∃ v, get? d key = some v := by
  induction d with
  | nil => simp [keys, get?]
  | cons e rest ih =>
    obtain ⟨k, u⟩ := e
    rw [keys] at ih
    rw [keys, get?, List.map_cons, List.mem_cons]
    by_cases hk : k = key
    · simp [hk]
    · simp [hk, Ne.symm hk, ih]

theorem get?_eq_none_iff : get? d key = none ↔ key ∉ keys d := by
  rw [mem_keys_iff, Option.eq_none_iff_forall_ne_some, not_exists]

theorem has_iff : has d key = true ↔ key ∈ keys d := by
  rw [has, Option.isSome_iff_exists, mem_keys_iff]

theorem get?_put (d : Dict α) (key other : String) (v : α) :
    get? (put d key v) other = if other = key then some v else get? d other := by
  by_cases h : other = key
  · rw [if_pos h, h, get?_put_self]
  · rw [if_neg h, get?_put_of_ne d v h]

theorem keys_put_nodup (h : (keys d).Nodup) : (keys (put d key v)).Nodup := by
  rw [keys_put]
  split
  · exact h
  · next hkey => exact List.nodup_append'.mpr ⟨h, List.nodup_singleton key, by simpa using hkey⟩

theorem mem_keys_put : other ∈ keys (put d key v) ↔ other ∈ keys d ∨ other = key := by
  rw [keys_put]
  split
  · next hkey =>
    refine ⟨Or.inl, fun h => h.elim id fun h => h ▸ hkey⟩
  · simp

/-- Setting an entry to what it is. -/
theorem put_of_get? (h : get? d key = some v) : put d key v = d := by
  induction d with
  | nil => simp [get?] at h
  | cons e rest ih =>
    obtain ⟨k, u⟩ := e
    rw [get?] at h
    rw [put]
    split at h
    · next hk =>
      rw [if_pos hk, Option.some.inj h]
    · next hk => rw [if_neg hk, ih h]

/-- The last value set counts. -/
theorem put_put (d : Dict α) (key : String) (v w : α) : put (put d key v) key w = put d key w := by
  induction d with
  | nil => simp [put]
  | cons e rest ih =>
    obtain ⟨k, u⟩ := e
    by_cases hk : k = key
    · simp [put, hk]
    · simp [put, hk, ih]

theorem put_of_not_mem (h : key ∉ keys d) : put d key v = d ++ [(key, v)] := by
  induction d with
  | nil => rfl
  | cons e rest ih =>
    obtain ⟨k, u⟩ := e
    rw [keys, List.map_cons, List.mem_cons, not_or] at h
    rw [put, if_neg (Ne.symm h.1), ih h.2]
    rfl

theorem erase_of_not_mem (h : key ∉ keys d) : erase d key = d := by
  induction d with
  | nil => rfl
  | cons e rest ih =>
    obtain ⟨k, u⟩ := e
    rw [keys, List.map_cons, List.mem_cons, not_or] at h
    rw [erase, if_neg (Ne.symm h.1), ih h.2]

/-- Dropping an entry that is there changes the dictionary. -/
theorem erase_eq_self : erase d key = d ↔ key ∉ keys d := by
  refine ⟨fun h => ?_, erase_of_not_mem⟩
  induction d with
  | nil => simp [keys]
  | cons e rest ih =>
    obtain ⟨k, u⟩ := e
    rw [erase] at h
    split at h
    · exact absurd (congrArg List.length h) (by simp)
    · next hk =>
      rw [keys, List.map_cons, List.mem_cons, not_or]
      exact ⟨Ne.symm hk, ih (List.cons.inj h).2⟩

theorem erase_sublist (d : Dict α) (key : String) : (erase d key).Sublist d := by
  induction d with
  | nil => exact List.Sublist.refl []
  | cons e rest ih =>
    obtain ⟨k, u⟩ := e
    rw [erase]
    split
    · exact List.sublist_cons_self (k, u) rest
    · exact ih.cons_cons (k, u)

theorem keys_erase_nodup (h : (keys d).Nodup) : (keys (erase d key)).Nodup :=
  h.sublist ((erase_sublist d key).map _)

/-- A dropped entry is gone. -/
theorem not_mem_keys_erase (h : (keys d).Nodup) : key ∉ keys (erase d key) := by
  induction d with
  | nil => simp [erase, keys]
  | cons e rest ih =>
    obtain ⟨k, u⟩ := e
    rw [keys, List.map_cons, List.nodup_cons] at h
    rw [erase]
    split
    · next hk => exact hk ▸ h.1
    · next hk =>
      rw [keys, List.map_cons, List.mem_cons, not_or]
      exact ⟨Ne.symm hk, ih h.2⟩

theorem get?_erase_of_ne (h : other ≠ key) : get? (erase d key) other = get? d other := by
  induction d with
  | nil => rfl
  | cons e rest ih =>
    obtain ⟨k, u⟩ := e
    rw [erase, get?]
    split
    · next hk =>
      subst hk
      rw [if_neg (Ne.symm h)]
    · rw [get?, ih]

/-- Dropping the entry of a key that was put last gives the dictionary back. -/
theorem erase_put (h : key ∉ keys d) : erase (put d key v) key = d := by
  induction d with
  | nil => simp [put, erase]
  | cons e rest ih =>
    obtain ⟨k, u⟩ := e
    rw [keys, List.map_cons, List.mem_cons, not_or] at h
    rw [put, if_neg (Ne.symm h.1), erase, if_neg (Ne.symm h.1), ih h.2]

/-! ### Setting and dropping entries in turn -/

/-- Set an entry to a value, or drop it. -/
def assign (d : Dict α) (p : String × Option α) : Dict α :=
  match p.2 with
  | some v => put d p.1 v
  | none => erase d p.1

section

variable {p : String × Option α} {ps : List (String × Option α)}

theorem keys_assign_nodup (h : (keys d).Nodup) : (keys (assign d p)).Nodup := by
  unfold assign
  split
  · exact keys_put_nodup h
  · exact keys_erase_nodup h

theorem get?_assign_of_ne (h : other ≠ p.1) : get? (assign d p) other = get? d other := by
  unfold assign
  split
  · exact get?_put_of_ne d _ h
  · exact get?_erase_of_ne h

theorem get?_assign_self (h : (keys d).Nodup) : get? (assign d p) p.1 = p.2 := by
  obtain ⟨key, o⟩ := p
  cases o with
  | some v => exact get?_put_self d key v
  | none => exact get?_eq_none_iff.mpr (not_mem_keys_erase h)

/-- An entry that is as it should be stays as it is. -/
theorem assign_of_get? (h : get? d p.1 = p.2) : assign d p = d := by
  obtain ⟨key, o⟩ := p
  cases o with
  | some v => exact put_of_get? h
  | none => exact erase_of_not_mem (get?_eq_none_iff.mp h)

/-- An entry that was as it should be is put right again. -/
theorem assign_put (h : get? d p.1 = p.2) (v : α) : assign (put d p.1 v) p = d := by
  obtain ⟨key, o⟩ := p
  cases o with
  | some w => exact (put_put d key v w).trans (put_of_get? h)
  | none => exact erase_put (get?_eq_none_iff.mp h)

theorem get?_foldl_assign_of_not_mem (h : key ∉ ps.map Prod.fst) :
    get? (ps.foldl assign d) key = get? d key := by
  induction ps generalizing d with
  | nil => rfl
  | cons p rest ih =>
    rw [List.map_cons, List.mem_cons, not_or] at h
    rw [List.foldl_cons, ih h.2, get?_assign_of_ne h.1]

/-- After assignments to different keys each of them holds. -/
theorem get?_foldl_assign (hd : (keys d).Nodup) (hps : (ps.map Prod.fst).Nodup) (hp : p ∈ ps) :
    get? (ps.foldl assign d) p.1 = p.2 := by
  induction ps generalizing d with
  | nil => simp at hp
  | cons q rest ih =>
    rw [List.map_cons, List.nodup_cons] at hps
    rw [List.foldl_cons]
    rcases List.mem_cons.mp hp with rfl | hp
    · rw [get?_foldl_assign_of_not_mem hps.1, get?_assign_self hd]
    · exact ih (keys_assign_nodup hd) hps.2 hp

theorem foldl_assign_of_get? (h : ∀ p ∈ ps, get? d p.1 = p.2) : ps.foldl assign d = d := by
  induction ps with
  | nil => rfl
  | cons p rest ih =>
    rw [List.foldl_cons, assign_of_get? (h p List.mem_cons_self)]
    exact ih fun q hq => h q (List.mem_cons_of_mem p hq)

/-- Where all assignments hold, doing them again takes back a change of one of their entries. -/
theorem foldl_assign_put (h : ∀ p ∈ ps, get? d p.1 = p.2) (hkey : key ∈ ps.map Prod.fst) (v : α) :
    ps.foldl assign (put d key v) = d := by
  induction ps with
  | nil => simp at hkey
  | cons p rest ih =>
    have hp := h p List.mem_cons_self
    have hrest : ∀ q ∈ rest, get? d q.1 = q.2 := fun q hq => h q (List.mem_cons_of_mem p hq)
    rw [List.foldl_cons]
    by_cases hpk : p.1 = key
    · rw [← hpk, assign_put hp]
      exact foldl_assign_of_get? hrest
    · rw [assign_of_get? (by rw [get?_put_of_ne d v hpk, hp])]
      refine ih hrest ?_
      rw [List.map_cons, List.mem_cons] at hkey
      exact hkey.resolve_left (Ne.symm hpk)

/-- Setting one entry and then assigning to different keys is settled after one time. -/
theorem foldl_assign_twice (hd : (keys d).Nodup) (hps : (ps.map Prod.fst).Nodup)
    (first? : Option (String × α)) :
    (((first?.map fun e => (e.1, some e.2)).toList ++ ps).foldl assign
        (((first?.map fun e => (e.1, some e.2)).toList ++ ps).foldl assign d)) =
      ((first?.map fun e => (e.1, some e.2)).toList ++ ps).foldl assign d := by
  cases first? with
  | none => exact foldl_assign_of_get? fun p hp => get?_foldl_assign hd hps hp
  | some e =>
    have hput : (keys (put d e.1 e.2)).Nodup := keys_put_nodup hd
    have hholds : ∀ p ∈ ps, get? (ps.foldl assign (put d e.1 e.2)) p.1 = p.2 := fun p hp =>
      get?_foldl_assign hput hps hp
    show ps.foldl assign (put (ps.foldl assign (put d e.1 e.2)) e.1 e.2) =
      ps.foldl assign (put d e.1 e.2)
    by_cases hkey : e.1 ∈ ps.map Prod.fst
    · exact foldl_assign_put hholds hkey e.2
    · rw [put_of_get? (d := ps.foldl assign (put d e.1 e.2))]
      · exact foldl_assign_of_get? hholds
      · rw [get?_foldl_assign_of_not_mem hkey, get?_put_self]

end

/-! ### Dictionaries from entries -/

theorem keys_foldl_put_nodup (entries : List (String × α)) (h : (keys d).Nodup) :
    (keys (entries.foldl (fun d e => put d e.1 e.2) d)).Nodup := by
  induction entries generalizing d with
  | nil => exact h
  | cons e rest ih => exact ih (keys_put_nodup h)

theorem mem_keys_foldl_put (entries : List (String × α)) :
    key ∈ keys (entries.foldl (fun d e => put d e.1 e.2) d) ↔ key ∈ keys d ∨ key ∈ keys entries := by
  induction entries generalizing d with
  | nil => simp [keys]
  | cons e rest ih =>
    have hcons : key ∈ keys (e :: rest) ↔ key = e.1 ∨ key ∈ keys rest := List.mem_cons
    rw [List.foldl_cons, ih, mem_keys_put, hcons, or_assoc]

theorem keys_ofList_nodup (entries : List (String × α)) : (keys (ofList entries)).Nodup :=
  keys_foldl_put_nodup entries List.nodup_nil

theorem mem_keys_ofList (entries : List (String × α)) :
    key ∈ keys (ofList entries) ↔ key ∈ keys entries := by
  rw [ofList, mem_keys_foldl_put]
  simp [keys]

/-- Entries of different keys are a dictionary as they are. -/
theorem ofList_of_nodup {entries : List (String × α)} (h : (keys entries).Nodup) :
    ofList entries = entries := by
  have hfold : ∀ seen : Dict α, (keys (seen ++ entries)).Nodup →
      entries.foldl (fun d e => put d e.1 e.2) seen = seen ++ entries := by
    clear h
    induction entries with
    | nil => simp
    | cons e rest ih =>
      obtain ⟨k, u⟩ := e
      intro seen hseen
      have hk : k ∉ keys seen := by
        simp only [keys, List.map_append, List.map_cons] at hseen
        rw [List.nodup_middle, List.nodup_cons, List.mem_append, not_or] at hseen
        exact hseen.1.1
      rw [List.foldl_cons, put_of_not_mem hk, ih _ (by simpa using hseen)]
      simp
  simpa [ofList] using hfold [] (by simpa using h)

end TreeTemplate.Dict
