import Mathlib.Data.List.Basic
import TreeTemplate.Text.Split

/-!
Byte offsets into a text.  An offset is a boundary if no character of the text goes over it; from a boundary
on, and up to one, there is a part of the text (`dropBytes?`, `takeBytes?`), from another offset there is
none.
-/

namespace TreeTemplate.Text

variable {c : Char} {cs front rest : List Char} {n p : Nat}

@[simp] theorem byteLength_nil : byteLength [] = 0 :=
  rfl

theorem foldl_utf8Size (cs : List Char) (n : Nat) :
    cs.foldl (fun n c => n + c.utf8Size) n = n + byteLength cs := by
  induction cs generalizing n with
  | nil => rfl
  | cons c cs ih =>
    rw [byteLength, List.foldl_cons, List.foldl_cons, ih, ih (0 + c.utf8Size)]
    omega

@[simp] theorem byteLength_cons (c : Char) (cs : List Char) :
    byteLength (c :: cs) = c.utf8Size + byteLength cs := by
  rw [byteLength, List.foldl_cons, foldl_utf8Size, Nat.zero_add]

@[simp] theorem byteLength_append (cs ds : List Char) :
    byteLength (cs ++ ds) = byteLength cs + byteLength ds := by
  rw [byteLength, List.foldl_append, foldl_utf8Size]
  rfl

theorem byteLength_toList (s : String) : byteLength s.toList = s.utf8ByteSize := by
  have hbytes : ∀ cs : List Char, (String.ofList cs).utf8ByteSize = byteLength cs := by
    intro cs
    induction cs with
    | nil => rfl
    | cons c cs ih => rw [String.ofList_cons, String.utf8ByteSize_append, ih, byteLength_cons,
        String.utf8ByteSize_singleton]
  rw [← hbytes, String.ofList_toList]

theorem byteLength_eq_zero : byteLength cs = 0 ↔ cs = [] := by
  cases cs with
  | nil => simp
  | cons c cs =>
    have hpos := c.utf8Size_pos
    simp only [byteLength_cons, List.cons_ne_nil, iff_false]
    omega

theorem length_le_byteLength (cs : List Char) : cs.length ≤ byteLength cs := by
  induction cs with
  | nil => exact Nat.le_refl _
  | cons c cs ih =>
    have hpos := c.utf8Size_pos
    rw [List.length_cons, byteLength_cons]
    omega

/-- Characters of one byte each. -/
theorem byteLength_of_ascii (h : ∀ c ∈ cs, c.utf8Size = 1) : byteLength cs = cs.length := by
  induction cs with
  | nil => rfl
  | cons c cs ih =>
    rw [List.forall_mem_cons] at h
    rw [byteLength_cons, h.1, ih h.2, List.length_cons, Nat.add_comm]

/-! ### The parts of a text before and after an offset -/

/-- The text from byte offset `n` on, if some character begins or the text ends there. -/
def dropBytes? : Nat → List Char → Option (List Char)
  | 0, cs => some cs
  | _ + 1, [] => none
  | n + 1, c :: rest => if c.utf8Size ≤ n + 1 then dropBytes? (n + 1 - c.utf8Size) rest else none

/-- An offset behind a first character, counted from there. -/
theorem exists_byteLength_cons (c : Char) (cs : List Char) :
    ∃ n, byteLength (c :: cs) = n + 1 ∧ c.utf8Size ≤ n + 1 ∧ n + 1 - c.utf8Size = byteLength cs := by
  have hpos := c.utf8Size_pos
  refine ⟨c.utf8Size - 1 + byteLength cs, ?_, ?_, ?_⟩
  · rw [byteLength_cons]
    omega
  · omega
  · omega

theorem dropBytes?_append (front rest : List Char) :
    dropBytes? (byteLength front) (front ++ rest) = some rest := by
  induction front with
  | nil => rw [byteLength_nil, List.nil_append, dropBytes?]
  | cons c front ih =>
    obtain ⟨n, hn, hless, hleft⟩ := exists_byteLength_cons c front
    rw [hn, List.cons_append, dropBytes?, if_pos hless, hleft, ih]

theorem takeBytes?_append (front rest : List Char) :
    takeBytes? (byteLength front) (front ++ rest) = some front := by
  induction front with
  | nil => rw [byteLength_nil, List.nil_append, takeBytes?]
  | cons c front ih =>
    obtain ⟨n, hn, hless, hleft⟩ := exists_byteLength_cons c front
    rw [hn, List.cons_append, takeBytes?, if_pos hless, hleft, ih, Option.map_some]

theorem exists_of_takeBytes? (h : takeBytes? n cs = some front) :
    byteLength front = n ∧ ∃ rest, cs = front ++ rest := by
  induction cs generalizing n front with
  | nil =>
    cases n with
    | zero =>
      rw [takeBytes?] at h
      cases h
      exact ⟨rfl, [], rfl⟩
    | succ n => cases h
  | cons c cs ih =>
    cases n with
    | zero =>
      rw [takeBytes?] at h
      cases h
      exact ⟨rfl, c :: cs, rfl⟩
    | succ n =>
      rw [takeBytes?] at h
      split at h
      · next hless =>
        obtain ⟨front', hfront, rfl⟩ := Option.map_eq_some_iff.mp h
        obtain ⟨hlength, rest, rfl⟩ := ih hfront
        refine ⟨?_, rest, rfl⟩
        rw [byteLength_cons, hlength]
        omega
      · cases h

/-- The text between two byte offsets, if both are boundaries. -/
def slice? (cs : List Char) (start stop : Nat) : Option (List Char) :=
  (dropBytes? start cs).bind (takeBytes? (stop - start))

theorem slice?_append (before text after : List Char) :
    slice? (before ++ (text ++ after)) (byteLength before) (byteLength before + byteLength text) =
      some text := by
  rw [slice?, dropBytes?_append, Option.bind_some, Nat.add_sub_cancel_left, takeBytes?_append]

/-! ### Boundaries -/

/-- No character of the text goes over the offset, and it is not behind the text. -/
def IsBoundary (cs : List Char) (p : Nat) : Prop :=
  ∃ before after, cs = before ++ after ∧ p = byteLength before

theorem isBoundary_zero (cs : List Char) : IsBoundary cs 0 :=
  ⟨[], cs, rfl, rfl⟩

theorem isBoundary_byteLength (cs : List Char) : IsBoundary cs (byteLength cs) :=
  ⟨cs, [], (List.append_nil cs).symm, rfl⟩

/-- A boundary of what follows a front. -/
theorem IsBoundary.append (h : IsBoundary rest p) (front : List Char) :
    IsBoundary (front ++ rest) (byteLength front + p) := by
  obtain ⟨before, after, rfl, rfl⟩ := h
  exact ⟨front ++ before, after, (List.append_assoc ..).symm, (byteLength_append ..).symm⟩

/-- The boundaries are the valid positions of the text. -/
theorem IsBoundary.isValid {s : String} (h : IsBoundary s.toList p) :
    String.Pos.Raw.IsValid s ⟨p⟩ := by
  obtain ⟨before, after, hs, rfl⟩ := h
  refine String.Pos.Raw.isValid_iff_exists_append.mpr ⟨String.ofList before, String.ofList after, ?_, ?_⟩
  · rw [← String.ofList_append, ← hs, String.ofList_toList]
  · rw [← String.toList_ofList (l := before), byteLength_toList, String.toList_ofList]
    rfl

end TreeTemplate.Text
