import Mathlib.Data.List.DropRight
import TreeTemplate.Text.Blank

/-!
What trimming takes away.  Blanks at the ends of a text do not show once it is trimmed, and trimming stops
at the first character that is not blank.
-/

namespace TreeTemplate.Text

variable {c : Char} {cs before after : List Char}

@[simp]
theorem trimStartChars_nil : trimStartChars [] = [] :=
  rfl

@[simp]
theorem trimEndChars_nil : trimEndChars [] = [] :=
  rfl

@[simp]
theorem trimChars_nil : trimChars [] = [] :=
  rfl

theorem trimStartChars_cons (h : isBlank c = true) : trimStartChars (c :: cs) = trimStartChars cs :=
  List.dropWhile_cons_of_pos h

theorem trimStartChars_keep (h : isBlank c = false) (cs : List Char) :
    trimStartChars (c :: cs) = c :: cs :=
  List.dropWhile_cons_of_neg (by simp [h])

theorem trimStartChars_append (h : isBlank c = false) :
    trimStartChars (before ++ c :: after) = trimStartChars before ++ c :: after := by
  induction before with
  | nil => exact trimStartChars_keep h after
  | cons b before ih =>
    rw [List.cons_append]
    by_cases hb : isBlank b = true
    · rw [trimStartChars_cons hb, trimStartChars_cons hb, ih]
    · rw [Bool.not_eq_true] at hb
      rw [trimStartChars_keep hb, trimStartChars_keep hb, List.cons_append]

theorem trimStartChars_idempotent (cs : List Char) :
    trimStartChars (trimStartChars cs) = trimStartChars cs :=
  List.dropWhile_idempotent isBlank cs

theorem trimEndChars_concat (h : isBlank c = true) : trimEndChars (cs ++ [c]) = trimEndChars cs :=
  List.rdropWhile_concat_pos isBlank cs c h

theorem trimEndChars_append (h : isBlank c = false) :
    trimEndChars (before ++ c :: after) = before ++ c :: trimEndChars after := by
  induction after using List.reverseRecOn with
  | nil => exact List.rdropWhile_concat_neg isBlank before c (by simp [h])
  | append_singleton after d ih =>
    rw [← List.cons_append, ← List.append_assoc]
    by_cases hd : isBlank d = true
    · rw [trimEndChars_concat hd, trimEndChars_concat hd, ih]
    · have hkeep : ∀ cs, trimEndChars (cs ++ [d]) = cs ++ [d] := fun cs =>
        List.rdropWhile_concat_neg isBlank cs d hd
      rw [hkeep, hkeep, List.append_assoc, List.cons_append]

theorem trimEndChars_keep (h : isBlank c = false) (cs : List Char) :
    trimEndChars (c :: cs) = c :: trimEndChars cs :=
  @trimEndChars_append c [] cs h

/-- A blank at the front stays unless it is also one at the end. -/
theorem trimEndChars_cons (h : isBlank c = true) :
    trimEndChars (c :: cs) = [] ∧ trimEndChars cs = [] ∨
      trimEndChars cs ≠ [] ∧ trimEndChars (c :: cs) = c :: trimEndChars cs := by
  by_cases hall : ∀ d ∈ cs, isBlank d = true
  · refine Or.inl ⟨?_, ?_⟩
    · exact List.rdropWhile_eq_nil_iff.mpr (List.forall_mem_cons.mpr ⟨h, hall⟩)
    · exact List.rdropWhile_eq_nil_iff.mpr hall
  · simp only [not_forall, Bool.not_eq_true] at hall
    obtain ⟨d, hd, hkeep⟩ := hall
    obtain ⟨before, after, rfl⟩ := List.append_of_mem hd
    rw [← List.cons_append, trimEndChars_append hkeep, trimEndChars_append hkeep]
    exact Or.inr ⟨by simp, rfl⟩

theorem trimChars_cons (h : isBlank c = true) : trimChars (c :: cs) = trimChars cs := by
  rw [trimChars, trimStartChars_cons h, trimChars]

theorem trimChars_append (h : isBlank c = false) :
    trimChars (before ++ c :: after) = trimStartChars before ++ c :: trimEndChars after := by
  rw [trimChars, trimStartChars_append h, trimEndChars_append h]

theorem trimChars_concat (h : isBlank c = true) : trimChars (cs ++ [c]) = trimChars cs := by
  induction cs with
  | nil => rw [List.nil_append, trimChars_cons h]
  | cons b cs ih =>
    rw [List.cons_append]
    by_cases hb : isBlank b = true
    · rw [trimChars_cons hb, trimChars_cons hb, ih]
    · rw [Bool.not_eq_true] at hb
      rw [trimChars, trimStartChars_keep hb, ← List.cons_append, trimEndChars_concat h, trimChars,
        trimStartChars_keep hb]

theorem isBlank_space : isBlank ' ' = true := by
  decide

theorem isBlank_bar : isBlank '|' = false := by
  decide

end TreeTemplate.Text
