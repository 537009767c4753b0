import Mathlib.Data.List.DropRight
import Mathlib.Data.List.TakeWhile
import TreeTemplate.Markup.Style

/-!
The hiding declaration of a style.  The declarations of a style are its pieces in a normal form
(`IsDeclaration`), so writing declarations and reading them again gives them back
(`declarations_intercalate`).  What `takeHiddenChars` leaves is left alone when it looks again.
-/

namespace TreeTemplate

namespace Text

theorem trimChars_idempotent (cs : List Char) : trimChars (trimChars cs) = trimChars cs := by
  have hstart : trimStartChars (trimChars cs) = trimChars cs := by
    rw [trimStartChars, List.dropWhile_eq_self_iff]
    intro hlt
    obtain ⟨rest, hrest⟩ : trimChars cs <+: trimStartChars cs :=
      List.rdropWhile_prefix isBlank _
    have hhead : (trimStartChars cs)[0]? = some (trimChars cs)[0] := by
      rw [← hrest, List.getElem?_append_left hlt, List.getElem?_eq_getElem hlt]
    obtain ⟨hlt', hget⟩ := List.getElem?_eq_some_iff.mp hhead
    rw [← hget]
    exact List.dropWhile_get_zero_not isBlank cs hlt'
  rw [trimChars, hstart]
  exact List.rdropWhile_idempotent isBlank (trimStartChars cs)

theorem trimChars_sublist (cs : List Char) : (trimChars cs).Sublist cs :=
  (List.rdropWhile_prefix isBlank _).sublist.trans (List.dropWhile_sublist isBlank)

theorem splitChars_of_not_mem {sep : Char} {cs : List Char} (h : sep ∉ cs) :
    splitChars sep cs = [cs] := by
  induction cs with
  | nil => rfl
  | cons c rest ih =>
    have hne : c ≠ sep := fun hc => h (by simp [hc])
    rw [splitChars, if_neg hne, ih fun hmem => h (List.mem_cons_of_mem c hmem)]

theorem splitChars_append {sep : Char} {piece cs : List Char} (h : sep ∉ piece) :
    splitChars sep (piece ++ sep :: cs) = piece :: splitChars sep cs := by
  induction piece with
  | nil => simp [splitChars]
  | cons c rest ih =>
    have hne : c ≠ sep := fun hc => h (by simp [hc])
    rw [List.cons_append, splitChars, if_neg hne, ih fun hmem => h (List.mem_cons_of_mem c hmem)]

theorem not_mem_of_mem_splitChars {sep : Char} {piece cs : List Char}
    (h : piece ∈ splitChars sep cs) : sep ∉ piece := by
  induction cs generalizing piece with
  | nil =>
    obtain rfl : piece = [] := by simpa [splitChars] using h
    simp
  | cons c rest ih =>
    rw [splitChars] at h
    split at h
    · rcases List.mem_cons.mp h with rfl | h
      · simp
      · exact ih h
    · next hne =>
      cases hsplit : splitChars sep rest with
      | nil => exact absurd hsplit (splitChars_ne_nil sep rest)
      | cons first pieces =>
        rw [hsplit] at h ih
        rcases List.mem_cons.mp h with rfl | h
        · rw [List.mem_cons, not_or]
          exact ⟨Ne.symm hne, ih List.mem_cons_self⟩
        · exact ih (List.mem_cons_of_mem first h)

/-- Pieces without the separator that are joined by it are split again. -/
theorem splitChars_intercalate {sep : Char} {pieces : List (List Char)} (hne : pieces ≠ [])
    (h : ∀ piece ∈ pieces, sep ∉ piece) : splitChars sep ([sep].intercalate pieces) = pieces := by
  induction pieces with
  | nil => exact absurd rfl hne
  | cons piece rest ih =>
    cases rest with
    | nil =>
      rw [List.intercalate_singleton]
      exact splitChars_of_not_mem (h piece List.mem_cons_self)
    | cons next rest =>
      rw [List.intercalate_cons_cons, List.append_assoc, List.singleton_append,
        splitChars_append (h piece List.mem_cons_self),
        ih (by simp) fun p hp => h p (List.mem_cons_of_mem piece hp)]

end Text

namespace Markup

open TreeTemplate.Text

variable {style rest d : List Char} {ds : List (List Char)} {hidden : Bool}

/-- A declaration as `declarations` gives it. -/
structure IsDeclaration (d : List Char) : Prop where
  nonempty : d ≠ []
  unseparated : ';' ∉ d
  trimmed : trimChars d = d

theorem isDeclaration_of_mem (h : d ∈ declarations style) : IsDeclaration d := by
  obtain ⟨hmem, hne⟩ := List.mem_filter.mp h
  obtain ⟨piece, hpiece, rfl⟩ := List.mem_map.mp hmem
  refine ⟨by simpa using hne, fun hsep => ?_, trimChars_idempotent piece⟩
  exact not_mem_of_mem_splitChars hpiece ((trimChars_sublist piece).mem hsep)

theorem filter_trimmed (h : ∀ d ∈ ds, IsDeclaration d) :
    (ds.map trimChars).filter (fun d => !d.isEmpty) = ds := by
  have hmap : ds.map trimChars = ds := by
    conv_rhs => rw [← List.map_id ds]
    exact List.map_congr_left fun d hd => (h d hd).trimmed
  rw [hmap, List.filter_eq_self]
  intro d hd
  simpa using (h d hd).nonempty

/-- Declarations that are written one after another are read again. -/
theorem declarations_intercalate (h : ∀ d ∈ ds, IsDeclaration d) :
    declarations ([';'].intercalate ds) = ds := by
  by_cases hnil : ds = []
  · subst hnil
    rfl
  · rw [declarations, splitChars_intercalate hnil fun d hd => (h d hd).unseparated,
      filter_trimmed h]

theorem declarations_cons (h : IsDeclaration d) :
    declarations (d ++ ';' :: style) = d :: declarations style := by
  rw [declarations, splitChars_append h.unseparated, List.map_cons, h.trimmed,
    List.filter_cons_of_pos (by simpa using h.nonempty)]
  rfl

theorem declarations_singleton (h : IsDeclaration d) : declarations d = [d] := by
  have hds : declarations ([';'].intercalate [d]) = [d] :=
    declarations_intercalate (by simpa using h)
  rwa [List.intercalate_singleton] at hds

/-- A style left over by `takeHiddenChars` does not hide and is in normal form. -/
theorem takeHiddenChars_rest (h : takeHiddenChars style = (hidden, rest)) :
    takeHiddenChars rest = (false, rest) := by
  simp only [takeHiddenChars, Prod.mk.injEq] at h
  obtain ⟨-, hrest⟩ := h
  have hds : declarations rest = (declarations style).filter fun d => !isHiding d := by
    rw [← hrest]
    refine declarations_intercalate fun d hd => isDeclaration_of_mem (List.mem_of_mem_filter hd)
  rw [takeHiddenChars, hds, List.filter_filter, Prod.mk.injEq]
  refine ⟨?_, by simpa using hrest⟩
  rw [List.any_eq_false]
  intro d hd
  simpa using (List.mem_filter.mp hd).2

theorem isDeclaration_hiddenStyle : IsDeclaration hiddenStyle :=
  ⟨by decide, by decide, by decide +kernel⟩

theorem isHiding_hiddenStyle : isHiding hiddenStyle = true := by
  decide +kernel

theorem takeHiddenChars_hiddenStyle : takeHiddenChars hiddenStyle = (true, []) := by
  simp [takeHiddenChars, declarations_singleton isDeclaration_hiddenStyle, isHiding_hiddenStyle]

/-- The hiding declaration in front of a style in normal form is taken out again. -/
theorem takeHiddenChars_cons (h : takeHiddenChars style = (false, style)) :
    takeHiddenChars (hiddenStyle ++ ';' :: style) = (true, style) := by
  simp only [takeHiddenChars, Prod.mk.injEq] at h
  rw [takeHiddenChars, declarations_cons isDeclaration_hiddenStyle,
    List.filter_cons_of_neg (by simp [isHiding_hiddenStyle]), h.2, List.any_cons,
    isHiding_hiddenStyle, Bool.true_or]

end Markup

end TreeTemplate
