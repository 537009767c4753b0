import TreeTemplate.Markup.Entity

/-!
Escaping and reading character references.  A reference that the writers make is read back as the one
character it was made from, so decoding undoes both escapers (`decodeChars_escapeTextChars`,
`decodeChars_escapeAttributeChars`).
-/

namespace TreeTemplate.Markup

open TreeTemplate.Text

variable {c : Char} {cs rest before after : List Char} {sep : Char}

theorem cutChars_append (h : sep ∉ before) :
    cutChars sep (before ++ sep :: after) = some (before, after) := by
  induction before with
  | nil => simp [cutChars]
  | cons b before ih =>
    have hne : b ≠ sep := fun hb => h (by simp [hb])
    rw [List.cons_append, cutChars, if_neg hne, ih fun hmem => h (List.mem_cons_of_mem b hmem)]
    rfl

theorem decodeChars_nil : decodeChars [] = [] := by
  rw [decodeChars]

theorem decodeChars_cons_of_ne (h : c ≠ '&') : decodeChars (c :: rest) = c :: decodeChars rest := by
  rw [decodeChars]
  exact h

/-- A reference is read as what it names. -/
theorem decodeChars_reference {name : List Char} (hname : ';' ∉ name) (hentity : entity? name = some c) :
    decodeChars ('&' :: (name ++ ';' :: rest)) = c :: decodeChars rest := by
  have href : reference? (name ++ ';' :: rest) = some (c, rest) := by
    simp [reference?, cutChars_append hname, hentity]
  rw [decodeChars]
  split
  · next c' after h =>
    rw [href] at h
    simp only [Option.some.injEq, Prod.mk.injEq] at h
    rw [h.1, h.2]
  · next h => simp [href] at h

/-- Decoding undoes any way of writing characters one by one that writes each character as itself
or as a reference to it. -/
theorem decodeChars_flatMap {write : Char → List Char}
    (hwrite : ∀ c, (write c = [c] ∧ c ≠ '&') ∨
      ∃ name, write c = '&' :: (name ++ [';']) ∧ ';' ∉ name ∧ entity? name = some c)
    (cs : List Char) : decodeChars (cs.flatMap write) = cs := by
  induction cs with
  | nil => exact decodeChars_nil
  | cons c rest ih =>
    rw [List.flatMap_cons]
    rcases hwrite c with ⟨hself, hne⟩ | ⟨name, href, hname, hentity⟩
    · rw [hself, List.singleton_append, decodeChars_cons_of_ne hne, ih]
    · rw [href, List.cons_append, List.append_assoc, List.singleton_append,
        decodeChars_reference hname hentity, ih]

theorem decodeChars_escapeTextChars (cs : List Char) : decodeChars (escapeTextChars cs) = cs := by
  refine decodeChars_flatMap (fun c => ?_) cs
  unfold escapeTextChar
  split
  · next h => exact Or.inr ⟨['a', 'm', 'p'], rfl, by decide, by rw [h]; rfl⟩
  split
  · next h => exact Or.inr ⟨['l', 't'], rfl, by decide, by rw [h]; rfl⟩
  split
  · next h => exact Or.inr ⟨['g', 't'], rfl, by decide, by rw [h]; rfl⟩
  · next h _ _ => exact Or.inl ⟨rfl, h⟩

theorem decodeChars_escapeAttributeChars (cs : List Char) :
    decodeChars (escapeAttributeChars cs) = cs := by
  refine decodeChars_flatMap (fun c => ?_) cs
  unfold escapeAttributeChar
  split
  · next h => exact Or.inr ⟨['a', 'm', 'p'], rfl, by decide, by rw [h]; rfl⟩
  split
  · next h => exact Or.inr ⟨['q', 'u', 'o', 't'], rfl, by decide, by rw [h]; rfl⟩
  split
  · next h => exact Or.inr ⟨['l', 't'], rfl, by decide, by rw [h]; rfl⟩
  · next h _ _ => exact Or.inl ⟨rfl, h⟩

theorem decodeEntities_escapeText (s : String) : decodeEntities (escapeText s) = s := by
  rw [decodeEntities, escapeText, String.toList_ofList, decodeChars_escapeTextChars,
    String.ofList_toList]

theorem decodeEntities_escapeAttribute (s : String) : decodeEntities (escapeAttribute s) = s := by
  rw [decodeEntities, escapeAttribute, String.toList_ofList, decodeChars_escapeAttributeChars,
    String.ofList_toList]

/-! ### What the writers leave out -/

/-- Escaped text has no `<`. -/
theorem less_not_mem_escapeTextChars (cs : List Char) : '<' ∉ escapeTextChars cs := by
  simp only [escapeTextChars, List.mem_flatMap, not_exists, not_and]
  intro c _
  unfold escapeTextChar
  split
  · decide
  split
  · decide
  split
  · decide
  · next h _ => simpa using Ne.symm h

/-- An escaped attribute value has no double quote. -/
theorem quote_not_mem_escapeAttributeChars (cs : List Char) : '"' ∉ escapeAttributeChars cs := by
  simp only [escapeAttributeChars, List.mem_flatMap, not_exists, not_and]
  intro c _
  unfold escapeAttributeChar
  split
  · decide
  split
  · decide
  split
  · decide
  · next h _ => simpa using Ne.symm h

theorem escapeTextChars_eq_nil_iff : escapeTextChars cs = [] ↔ cs = [] := by
  refine ⟨fun h => ?_, fun h => by rw [h]; rfl⟩
  rw [← decodeChars_escapeTextChars cs, h, decodeChars_nil]

/-- Reading references never empties a text. -/
theorem decodeChars_ne_nil (h : cs ≠ []) : decodeChars cs ≠ [] := by
  cases cs with
  | nil => exact absurd rfl h
  | cons c rest =>
    by_cases hc : c = '&'
    · subst hc
      rw [decodeChars]
      split <;> simp
    · simp [decodeChars_cons_of_ne hc]

end TreeTemplate.Markup
