/-!
Dictionaries that keep their keys in the order of first insertion.  A dictionary is a list of
entries; the operations look only at the first entry of a key, and never make a second one.
-/

namespace TreeTemplate

/-- A dictionary from texts, in insertion order. -/
abbrev Dict (α : Type) := List (String × α)

namespace Dict

variable {α : Type}

def get? (d : Dict α) (key : String) : Option α :=
  match d with
  | [] => none
  | (k, v) :: rest => if k = key then some v else get? rest key

def has (d : Dict α) (key : String) : Bool :=
  (get? d key).isSome

/-- Set the value at `key`.  A present key keeps its place, a new one goes to the end. -/
def put (d : Dict α) (key : String) (value : α) : Dict α :=
  match d with
  | [] => [(key, value)]
  | (k, v) :: rest => if k = key then (k, value) :: rest else (k, v) :: put rest key value

/-- Drop the entry at `key`; the others keep their order. -/
def erase (d : Dict α) (key : String) : Dict α :=
  match d with
  | [] => []
  | (k, v) :: rest => if k = key then rest else (k, v) :: erase rest key

def keys (d : Dict α) : List String :=
  d.map (·.1)

/-- Entries put one after another: of a repeated key the first place and the last value stay. -/
def ofList (entries : List (String × α)) : Dict α :=
  entries.foldl (fun d e => put d e.1 e.2) []

/-- The entries sorted by key, in the order of code points. -/
def sorted (d : Dict α) : Dict α :=
  d.mergeSort fun a b => !(b.1 < a.1)

theorem get?_put_self (d : Dict α) (key : String) (value : α) :
    get? (put d key value) key = some value := by
  induction d with
  | nil => simp [put, get?]
  | cons e rest ih =>
    obtain ⟨k, v⟩ := e
    rw [put]
    split
    · next h => simp [get?, h]
    · next h => simp [get?, h, ih]

theorem get?_put_of_ne (d : Dict α) {key other : String} (value : α) (h : other ≠ key) :
    get? (put d key value) other = get? d other := by
  induction d with
  | nil => simp [put, get?, Ne.symm h]
  | cons e rest ih =>
    obtain ⟨k, v⟩ := e
    rw [put]
    split
    · next hk => subst hk; simp [get?, Ne.symm h]
    · simp [get?, ih]

/-- The keys after a `put`. -/
theorem keys_put (d : Dict α) (key : String) (value : α) :
    keys (put d key value) = if key ∈ keys d then keys d else keys d ++ [key] := by
  induction d with
  | nil => simp [put, keys]
  | cons e rest ih =>
    obtain ⟨k, v⟩ := e
    rw [put]
    split
    · next h => simp [keys, h]
    · next h =>
      have hne : key ≠ k := fun hk => h hk.symm
      by_cases hm : key ∈ keys rest
      · have hcons : key ∈ keys ((k, v) :: rest) := List.mem_cons_of_mem _ hm
        rw [if_pos hm] at ih
        rw [if_pos hcons]
        exact congrArg (k :: ·) ih
      · have hcons : key ∉ keys ((k, v) :: rest) := by
          intro hk
          rcases List.mem_cons.1 hk with hk | hk
          · exact hne hk
          · exact hm hk
        rw [if_neg hm] at ih
        rw [if_neg hcons]
        exact congrArg (k :: ·) ih

end Dict

end TreeTemplate
