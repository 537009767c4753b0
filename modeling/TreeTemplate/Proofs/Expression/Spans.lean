import TreeTemplate.Proofs.Expression.Literals

/-!
Where tokens stand.  A token is cut from the front of a text as the text that it is written as (`Writes`,
`lexToken_writes`), numbers as well-formed decimals (`IsDecimal`), so that a source is laid out as blanks
and written tokens, up to its end or up to a fault (`Spread`, `lexFrom_spread`).
-/

namespace TreeTemplate

namespace Number

open Text

variable {c : Char} {cs ds u whole fraction exponent : List Char}

/-- Decimal digits, at least one. -/
def IsDigits (cs : List Char) : Prop :=
  cs ≠ [] ∧ ∀ c ∈ cs, isAsciiDigit c = true

/-- A point with digits behind it, or nothing. -/
inductive IsFraction : List Char → Prop
  | nil : IsFraction []
  | point {digits : List Char} (h : IsDigits digits) : IsFraction ('.' :: digits)

/-- The letter of an exponent with digits behind it, perhaps after a sign, or nothing. -/
inductive IsExponent : List Char → Prop
  | nil : IsExponent []
  | letter {c : Char} {sign digits : List Char} (hc : c = 'e' ∨ c = 'E')
    (hsign : sign = [] ∨ sign = ['+'] ∨ sign = ['-']) (h : IsDigits digits) :
    IsExponent (c :: (sign ++ digits))

/-- A well-formed decimal without a sign: digits before a point, behind it or both, and an exponent
perhaps. -/
inductive IsDecimal : List Char → Prop
  | intro {whole fraction exponent : List Char} (hwhole : ∀ c ∈ whole, isAsciiDigit c = true)
    (hfraction : IsFraction fraction) (hexponent : IsExponent exponent)
    (hdigits : whole ≠ [] ∨ fraction ≠ []) : IsDecimal (whole ++ fraction ++ exponent)

theorem isAsciiDigit_ne {d : Char} (h : isAsciiDigit c = true) (hd : isAsciiDigit d = false) : c ≠ d := by
  rintro rfl
  rw [hd] at h
  cases h

theorem utf8Size_of_isAsciiDigit (h : isAsciiDigit c = true) : c.utf8Size = 1 := by
  have hcodes : ∀ n < 58, isAsciiDigit (Char.ofNat n) = true → (Char.ofNat n).utf8Size = 1 := by decide
  have hlt : c.toNat < 58 := by
    rw [isAsciiDigit, Bool.and_eq_true, decide_eq_true_eq, decide_eq_true_eq] at h
    exact Nat.lt_succ_of_le h.2
  have hc := hcodes c.toNat hlt
  rw [Char.ofNat_toNat] at hc
  exact hc h

/-- Digits in front of a text that begins with none are all the digits there. -/
theorem takeWhile_digits (hds : ∀ c ∈ ds, isAsciiDigit c = true)
    (hu : ∀ c ∈ u.head?, isAsciiDigit c = false) :
    (ds ++ u).takeWhile isAsciiDigit = ds ∧ (ds ++ u).dropWhile isAsciiDigit = u := by
  rw [List.takeWhile_append_of_pos hds, List.dropWhile_append_of_pos hds]
  cases u with
  | nil => exact ⟨List.append_nil _, rfl⟩
  | cons c u =>
    have hc : ¬ isAsciiDigit c = true := by simp [hu c rfl]
    rw [List.takeWhile_cons_of_neg hc, List.dropWhile_cons_of_neg hc]
    exact ⟨List.append_nil _, rfl⟩

theorem IsExponent.head (h : IsExponent exponent) :
    ∀ c ∈ exponent.head?, isAsciiDigit c = false ∧ c ≠ '.' := by
  cases h with
  | nil => simp
  | letter hc =>
    rintro c ⟨⟩
    rcases hc with rfl | rfl <;> decide

theorem IsExponent.readExponent? (h : IsExponent exponent) : (readExponent? exponent).isSome := by
  cases h with
  | nil => rfl
  | @letter c sign digits hc hsign h =>
    have hletter : (c == 'e' || c == 'E') = true := by simpa using hc
    have hsplit : (splitSign (sign ++ digits)).2 = digits := by
      rcases hsign with rfl | rfl | rfl
      · obtain ⟨hne, hall⟩ := h
        cases digits with
        | nil => exact absurd rfl hne
        | cons d digits =>
          rw [List.forall_mem_cons] at hall
          have hplus := isAsciiDigit_ne (d := '+') hall.1 (by decide)
          have hminus := isAsciiDigit_ne (d := '-') hall.1 (by decide)
          simp [splitSign, hplus, hminus]
      · rfl
      · rfl
    have hall : (digits.isEmpty || !digits.all isAsciiDigit) = false := by
      rw [Bool.or_eq_false_iff, List.isEmpty_eq_false_iff, Bool.not_eq_false', List.all_eq_true]
      exact h
    simp [Number.readExponent?, hletter, hsplit, hall]

theorem IsDecimal.readDecimal? (h : IsDecimal cs) : (readDecimal? cs).isSome := by
  obtain @⟨whole, fraction, exponent, hwhole, hfraction, hexponent, hdigits⟩ := h
  have hhead : ∀ c ∈ (fraction ++ exponent).head?, isAsciiDigit c = false := by
    cases hfraction with
    | nil => exact fun c hc => (hexponent.head c hc).1
    | point =>
      rintro c ⟨⟩
      decide
  obtain ⟨htake, hdrop⟩ := takeWhile_digits hwhole hhead
  rw [Number.readDecimal?, List.append_assoc, htake, hdrop]
  cases hfraction with
  | nil =>
    have hne : whole.isEmpty = false := by simpa using hdigits
    rw [List.nil_append]
    dsimp only
    split
    · exact absurd rfl (hexponent.head '.' rfl).2
    · simp only [hne, Bool.false_and, Bool.false_eq_true, if_false, Option.isSome_map]
      exact hexponent.readExponent?
  | @point digits hpoint =>
    obtain ⟨htake, hdrop⟩ := takeWhile_digits hpoint.2 fun c hc => (hexponent.head c hc).1
    have hne : digits.isEmpty = false := List.isEmpty_eq_false_iff.mpr hpoint.1
    simp only [List.cons_append, htake, hdrop, hne, Bool.and_false, Bool.false_eq_true, if_false,
      Option.isSome_map]
    exact hexponent.readExponent?

theorem IsDecimal.splitSign_eq (h : IsDecimal cs) : splitSign cs = (false, cs) := by
  obtain @⟨whole, fraction, exponent, hwhole, hfraction, hexponent, hdigits⟩ := h
  cases whole with
  | cons c whole =>
    rw [List.forall_mem_cons] at hwhole
    have hplus := isAsciiDigit_ne (d := '+') hwhole.1 (by decide)
    have hminus := isAsciiDigit_ne (d := '-') hwhole.1 (by decide)
    simp [splitSign, hplus, hminus]
  | nil =>
    cases hfraction with
    | nil => simp at hdigits
    | point => rfl

/-- Every well-formed decimal is a number. -/
theorem IsDecimal.readFloat? (h : IsDecimal cs) : (readFloat? cs).isSome := by
  rw [Number.readFloat?, h.splitSign_eq]
  dsimp only
  split
  · rfl
  split
  · rfl
  · rw [Option.isSome_map]
    exact h.readDecimal?

theorem IsDecimal.byteLength_eq (h : IsDecimal cs) : byteLength cs = cs.length := by
  refine byteLength_of_ascii ?_
  obtain @⟨whole, fraction, exponent, hwhole, hfraction, hexponent, -⟩ := h
  have hsizes : ∀ ds : List Char, (∀ c ∈ ds, isAsciiDigit c = true) → ∀ c ∈ ds, c.utf8Size = 1 :=
    fun ds hds c hc => utf8Size_of_isAsciiDigit (hds c hc)
  rw [List.forall_mem_append, List.forall_mem_append]
  refine ⟨⟨hsizes whole hwhole, ?_⟩, ?_⟩
  · cases hfraction with
    | nil => simp
    | point h => exact List.forall_mem_cons.mpr ⟨by decide, hsizes _ h.2⟩
  · cases hexponent with
    | nil => simp
    | letter hc hsign h =>
      refine List.forall_mem_cons.mpr ⟨?_, List.forall_mem_append.mpr ⟨?_, hsizes _ h.2⟩⟩
      · rcases hc with rfl | rfl <;> rfl
      · rcases hsign with rfl | rfl | rfl
        · simp
        · exact List.forall_mem_singleton.mpr rfl
        · exact List.forall_mem_singleton.mpr rfl

end Number

namespace Lexer

open Text Number

variable {c : Char} {cs rest text : List Char} {pos : Nat}

/-! ### The text of a number -/

theorem takeWhile_isDigits (h : startsWithDigit cs = true) : IsDigits (cs.takeWhile isAsciiDigit) := by
  refine ⟨?_, fun c hc => List.mem_takeWhile_imp hc⟩
  cases cs with
  | nil => cases h
  | cons c cs =>
    have hc : isAsciiDigit c = true := h
    rw [List.takeWhile_cons_of_pos hc]
    exact List.cons_ne_nil _ _

theorem spanFraction_parts (cs : List Char) :
    cs = (spanFraction cs).1 ++ (spanFraction cs).2 ∧ IsFraction (spanFraction cs).1 := by
  unfold spanFraction
  split
  · split
    · next h =>
      refine ⟨?_, .point (takeWhile_isDigits h)⟩
      rw [List.cons_append, List.takeWhile_append_dropWhile]
    · exact ⟨rfl, .nil⟩
  · exact ⟨rfl, .nil⟩

theorem spanSign_parts (cs : List Char) : cs = (spanSign cs).1 ++ (spanSign cs).2 ∧
    ((spanSign cs).1 = [] ∨ (spanSign cs).1 = ['+'] ∨ (spanSign cs).1 = ['-']) := by
  unfold spanSign
  split <;> simp

theorem spanExponent_parts (cs : List Char) :
    cs = (spanExponent cs).1 ++ (spanExponent cs).2 ∧ IsExponent (spanExponent cs).1 := by
  cases cs with
  | nil => exact ⟨rfl, .nil⟩
  | cons c rest =>
    obtain ⟨hparts, hsign⟩ := spanSign_parts rest
    rw [spanExponent]
    dsimp only
    split
    · next h =>
      rw [Bool.and_eq_true, Bool.or_eq_true, beq_iff_eq, beq_iff_eq] at h
      refine ⟨?_, .letter h.1 hsign (takeWhile_isDigits h.2)⟩
      rw [List.cons_append, List.cons_append, List.append_assoc, List.takeWhile_append_dropWhile, ← hparts]
    · exact ⟨rfl, .nil⟩

/-- A number is cut as a well-formed decimal. -/
theorem spanNumber_parts (h : (isAsciiDigit c || (c == '.' && startsWithDigit rest)) = true) :
    c :: rest = (spanNumber (c :: rest)).1 ++ (spanNumber (c :: rest)).2 ∧
      IsDecimal (spanNumber (c :: rest)).1 := by
  obtain ⟨hfractionParts, hfraction⟩ := spanFraction_parts ((c :: rest).dropWhile isAsciiDigit)
  obtain ⟨hexponentParts, hexponent⟩ :=
    spanExponent_parts (spanFraction ((c :: rest).dropWhile isAsciiDigit)).2
  rw [spanNumber]
  dsimp only
  constructor
  · rw [List.append_assoc, List.append_assoc, ← hexponentParts, ← hfractionParts,
      List.takeWhile_append_dropWhile]
  · refine .intro (fun d hd => List.mem_takeWhile_imp hd) hfraction hexponent ?_
    by_cases hc : isAsciiDigit c = true
    · exact .inl (by rw [List.takeWhile_cons_of_pos hc]; exact List.cons_ne_nil _ _)
    · rw [Bool.or_eq_true, Bool.and_eq_true, beq_iff_eq] at h
      obtain ⟨rfl, hdigit⟩ := h.resolve_left hc
      refine .inr ?_
      rw [List.dropWhile_cons_of_neg hc, spanFraction, if_pos hdigit]
      exact List.cons_ne_nil _ _

/-! ### The text of punctuation -/

theorem singlePunct?_text {p : Punct} (h : singlePunct? c = some p) : p.text.toList = [c] := by
  unfold singlePunct? at h
  split at h
  case h_16 => cases h
  all_goals
    cases h
    rfl

theorem withEquals_text {two one zero : Punct} (front : List Char)
    (htwo : two.text.toList = front ++ ['=', '=']) (hone : one.text.toList = front ++ ['='])
    (hzero : zero.text.toList = front) (cs : List Char) :
    front ++ cs = (withEquals two one zero cs).1.text.toList ++ (withEquals two one zero cs).2 := by
  unfold withEquals
  split
  · rw [htwo, List.append_assoc]
    rfl
  · rw [hone, List.append_assoc]
    rfl
  · rw [hzero]

theorem withEqual_text {one zero : Punct} (front : List Char) (hone : one.text.toList = front ++ ['='])
    (hzero : zero.text.toList = front) (cs : List Char) :
    front ++ cs = (withEqual one zero cs).1.text.toList ++ (withEqual one zero cs).2 := by
  unfold withEqual
  split
  · rw [hone, List.append_assoc]
    rfl
  · rw [hzero]

theorem doubled?_text {p : Punct} {r : Punct × List Char} (hp : p.text.toList = [c, c])
    (h : doubled? c p cs = some r) : c :: cs = r.1.text.toList ++ r.2 := by
  cases cs with
  | nil => cases h
  | cons d cs =>
    rw [doubled?] at h
    split at h
    · next hd =>
      cases h
      rw [hp, hd]
      rfl
    · cases h

theorem cutPunct?_text {r : Punct × List Char} (h : cutPunct? c rest = some r) :
    c :: rest = r.1.text.toList ++ r.2 := by
  unfold cutPunct? at h
  split at h
  · next hp =>
    cases h
    rw [singlePunct?_text hp]
    rfl
  split at h
  · next hc =>
    cases h
    rw [hc]
    exact withEquals_text ['='] rfl rfl rfl rest
  split at h
  · next hc =>
    cases h
    rw [hc]
    exact withEquals_text ['!'] rfl rfl rfl rest
  split at h
  · next hc =>
    cases h
    rw [hc]
    exact withEqual_text ['<'] rfl rfl rest
  split at h
  · next hc =>
    cases h
    rw [hc]
    exact withEqual_text ['>'] rfl rfl rest
  split at h
  · next hc =>
    rw [hc]
    exact doubled?_text rfl h
  split at h
  · next hc =>
    rw [hc]
    exact doubled?_text rfl h
  · cases h

theorem byteLength_punct (p : Punct) : byteLength p.text.toList = p.text.length := by
  cases p <;> rfl

/-! ### The text of a token -/

/-- How tokens are written. -/
inductive Writes : Token → List Char → Prop
  | number {x : Float} {text : List Char} (h : IsDecimal text) (hread : readFloat? text = some x) :
    Writes (.number x) text
  | string {quote : Char} {text s : List Char} (hquote : IsQuote quote) (h : Reads quote text s) :
    Writes (.string (String.ofList s)) (quote :: (text ++ [quote]))
  | word {c : Char} {more : List Char} (hstart : isIdentStart c = true)
    (hmore : ∀ d ∈ more, isIdentContinue d = true) :
    Writes (wordToken (String.ofList (c :: more))) (c :: more)
  | punct (p : Punct) : Writes (.punct p) p.text.toList

theorem Writes.ne_nil {t : Token} (h : Writes t text) : text ≠ [] := by
  cases h with
  | number h =>
    obtain @⟨whole, fraction, exponent, -, -, -, hdigits⟩ := h
    rcases hdigits with hdigits | hdigits <;> simp [hdigits]
  | string => exact List.cons_ne_nil _ _
  | word => exact List.cons_ne_nil _ _
  | punct p => cases p <;> exact List.cons_ne_nil _ _

/-- A token is cut from the front of a text as it is written. -/
theorem lexToken_writes {cut : Cut} (h : lexToken pos c rest = .ok cut) :
    ∃ text, c :: rest = text ++ cut.rest ∧ Writes cut.token text ∧ cut.bytes = byteLength text := by
  by_cases hquote : IsQuote c
  · obtain ⟨y, text, after, rfl, hreads, ⟨more, rfl, hok⟩ | ⟨-, sequence, -, herror⟩ | ⟨-, herror⟩⟩ :=
      lexToken_literal hquote pos rest
    · cases hok.symm.trans h
      have hsize : c.utf8Size = 1 := by
        rcases hquote with rfl | rfl <;> rfl
      refine ⟨c :: (y ++ [c]), by simp, .string hquote hreads, ?_⟩
      simp [hsize]
      omega
    · cases herror.symm.trans h
    · cases herror.symm.trans h
  · unfold lexToken at h
    split at h
    · next hnumber =>
      obtain ⟨hparts, hdecimal⟩ := spanNumber_parts hnumber
      dsimp only at h
      split at h
      · next x hx =>
        cases h
        exact ⟨_, hparts, .number hdecimal hx, hdecimal.byteLength_eq.symm⟩
      · cases h
    · split at h
      · next p after hp =>
        cases h
        exact ⟨p.text.toList, cutPunct?_text hp, .punct p, (byteLength_punct p).symm⟩
      · rw [if_neg (by simpa [IsQuote] using hquote)] at h
        split at h
        · next hstart =>
          cases h
          refine ⟨_, ?_, .word hstart fun d hd => List.mem_takeWhile_imp hd, rfl⟩
          rw [List.cons_append, List.takeWhile_append_dropWhile]
        · cases h

/-- The error points at a boundary of the text, which stands at byte offset `pos`, and is not about the text
of a number. -/
structure FaultIn (pos : Nat) (cs : List Char) (e : ParseError) : Prop where
  position : ∃ p, IsBoundary cs p ∧ e.position? = some (pos + p)
  literal : ∀ kind text at', e ≠ .invalidLiteral kind text at'

theorem lexToken_faultIn {e : ParseError} (h : lexToken pos c rest = .error e) :
    FaultIn pos (c :: rest) e := by
  by_cases hquote : IsQuote c
  · obtain ⟨y, text, after, rfl, -, ⟨more, -, hok⟩ | ⟨-, sequence, -, herror⟩ | ⟨-, herror⟩⟩ :=
      lexToken_literal hquote pos rest
    · cases hok.symm.trans h
    · cases herror.symm.trans h
      have hsize : c.utf8Size = 1 := by
        rcases hquote with rfl | rfl <;> rfl
      refine ⟨⟨1 + byteLength y, ⟨c :: y, after, rfl, by rw [byteLength_cons, hsize]⟩, ?_⟩,
        by rintro _ _ _ ⟨⟩⟩
      rw [← Nat.add_assoc]
      rfl
    · cases herror.symm.trans h
      exact ⟨⟨0, isBoundary_zero _, rfl⟩, by rintro _ _ _ ⟨⟩⟩
  · unfold lexToken at h
    split at h
    · next hnumber =>
      have hsome := (spanNumber_parts hnumber).2.readFloat?
      dsimp only at h
      split at h
      · cases h
      · next hnone =>
        rw [hnone] at hsome
        cases hsome
    · split at h
      · cases h
      · rw [if_neg (by simpa [IsQuote] using hquote)] at h
        split at h
        · cases h
        · cases h
          exact ⟨⟨0, isBoundary_zero _, rfl⟩, by rintro _ _ _ ⟨⟩⟩

/-! ### The layout of a source -/

/-- A text at byte offset `pos` is blanks and the tokens as they are written, up to the text `rest` at byte
offset `stop`. -/
inductive Spread : Nat → List Char → List Lexeme → Nat → List Char → Prop
  | done {pos : Nat} {cs : List Char} : Spread pos cs [] pos cs
  | blank {pos stop : Nat} {c : Char} {cs rest : List Char} {ls : List Lexeme} (hc : isAsciiBlank c = true)
    (h : Spread (pos + 1) cs ls stop rest) : Spread pos (c :: cs) ls stop rest
  | token {pos stop : Nat} {t : Token} {text cs rest : List Char} {ls : List Lexeme} (ht : Writes t text)
    (h : Spread (pos + byteLength text) cs ls stop rest) :
    Spread pos (text ++ cs) (⟨t, pos, pos + byteLength text⟩ :: ls) stop rest

/-- The tokens lie in the text, up to its end or up to a fault. -/
theorem lexFrom_spread (pos : Nat) (cs : List Char) :
    ∃ stop rest, Spread pos cs (lexFrom pos cs).tokens stop rest ∧
      ((rest = [] ∧ (lexFrom pos cs).outcome = .ok stop) ∨
        ∃ e, (lexFrom pos cs).outcome = .error e ∧ FaultIn stop rest e) := by
  fun_induction lexFrom pos cs with
  | case1 pos => exact ⟨pos, [], .done, .inl ⟨rfl, rfl⟩⟩
  | case2 pos c cs hc ih =>
    obtain ⟨stop, rest, hspread, houtcome⟩ := ih
    exact ⟨stop, rest, .blank hc hspread, houtcome⟩
  | case3 pos c cs hc cut hcut ih =>
    obtain ⟨stop, rest, hspread, houtcome⟩ := ih
    obtain ⟨text, hcs, hwrites, hbytes⟩ := lexToken_writes hcut
    refine ⟨stop, rest, ?_, houtcome⟩
    rw [hbytes] at hspread
    rw [hcs, hbytes]
    exact .token hwrites hspread
  | case4 pos c cs hc e hcut => exact ⟨pos, c :: cs, .done, .inr ⟨e, rfl, lexToken_faultIn hcut⟩⟩

/-- Between the offsets of the token, the text is what the token is written as. -/
def StandsIn (cs : List Char) (l : Lexeme) : Prop :=
  ∃ before text after, cs = before ++ (text ++ after) ∧ Writes l.token text ∧
    l.start = byteLength before ∧ l.stop = byteLength before + byteLength text

theorem StandsIn.isBoundary {l : Lexeme} (h : StandsIn cs l) :
    l.start < l.stop ∧ IsBoundary cs l.start ∧ IsBoundary cs l.stop := by
  obtain ⟨before, text, after, rfl, hwrites, hstart, hstop⟩ := h
  have hpos : byteLength text ≠ 0 := fun hzero => hwrites.ne_nil (byteLength_eq_zero.mp hzero)
  refine ⟨by omega, ⟨before, text ++ after, rfl, hstart⟩, ⟨before ++ text, after, ?_, ?_⟩⟩
  · rw [List.append_assoc]
  · rw [byteLength_append, hstop]

theorem utf8Size_of_isAsciiBlank (h : isAsciiBlank c = true) : c.utf8Size = 1 := by
  simp only [isAsciiBlank, Bool.or_eq_true, beq_iff_eq] at h
  rcases h with (((rfl | rfl) | rfl) | rfl) | rfl <;> rfl

namespace Spread

variable {stop : Nat} {ls : List Lexeme}

theorem exists_front (h : Spread pos cs ls stop rest) :
    ∃ front, cs = front ++ rest ∧ stop = pos + byteLength front := by
  induction h with
  | done => exact ⟨[], rfl, rfl⟩
  | @blank pos _ c _ _ _ hc _ ih =>
    obtain ⟨front, rfl, rfl⟩ := ih
    refine ⟨c :: front, rfl, ?_⟩
    rw [byteLength_cons, utf8Size_of_isAsciiBlank hc, Nat.add_assoc]
  | @token pos _ _ text _ _ _ _ _ ih =>
    obtain ⟨front, rfl, rfl⟩ := ih
    refine ⟨text ++ front, (List.append_assoc ..).symm, ?_⟩
    rw [byteLength_append, Nat.add_assoc]

theorem standsIn (h : Spread pos cs ls stop rest) {before : List Char} (hpos : pos = byteLength before) :
    ∀ l ∈ ls, StandsIn (before ++ cs) l := by
  induction h generalizing before with
  | done => simp
  | @blank pos _ c cs _ _ hc _ ih =>
    have hnext : pos + 1 = byteLength (before ++ [c]) := by
      rw [byteLength_append, hpos, byteLength_cons, utf8Size_of_isAsciiBlank hc, byteLength_nil]
    simpa using ih hnext
  | @token pos _ t text cs _ _ ht _ ih =>
    subst hpos
    refine List.forall_mem_cons.mpr ⟨⟨before, text, cs, rfl, ht, rfl, rfl⟩, ?_⟩
    simpa using ih (byteLength_append before text).symm

theorem bounds (h : Spread pos cs ls stop rest) : pos ≤ stop ∧ ∀ l ∈ ls, pos ≤ l.start ∧ l.stop ≤ stop := by
  induction h with
  | done => simp
  | blank _ _ ih =>
    obtain ⟨hstop, htokens⟩ := ih
    exact ⟨by omega, fun l hl => (htokens l hl).imp_left (Nat.le_trans (Nat.le_succ _))⟩
  | token _ _ ih =>
    obtain ⟨hstop, htokens⟩ := ih
    refine ⟨by omega, List.forall_mem_cons.mpr ⟨⟨Nat.le_refl _, hstop⟩, fun l hl => ?_⟩⟩
    exact (htokens l hl).imp_left (Nat.le_trans (Nat.le_add_right _ _))

theorem ordered (h : Spread pos cs ls stop rest) : ls.Pairwise fun l l' => l.stop ≤ l'.start := by
  induction h with
  | done => exact .nil
  | blank _ _ ih => exact ih
  | token _ h ih => exact .cons (fun l hl => (h.bounds.2 l hl).1) ih

/-- What no token covers is blank. -/
theorem isAsciiBlank (h : Spread pos cs ls stop rest) {front after : List Char}
    (hcs : cs = front ++ c :: after) (hstop : pos + byteLength front < stop)
    (hgap : ∀ l ∈ ls, ¬ (l.start ≤ pos + byteLength front ∧ pos + byteLength front < l.stop)) :
    isAsciiBlank c = true := by
  induction h generalizing front with
  | done => omega
  | @blank pos _ d cs _ _ hd _ ih =>
    cases front with
    | nil =>
      cases hcs
      exact hd
    | cons d' front =>
      cases hcs
      have hnext : pos + 1 + byteLength front = pos + byteLength (d :: front) := by
        rw [byteLength_cons, utf8Size_of_isAsciiBlank hd, Nat.add_assoc]
      exact ih rfl (by rwa [hnext]) (by rwa [hnext])
  | @token pos _ t text cs _ _ _ _ ih =>
    rw [List.forall_mem_cons] at hgap
    have hbehind : byteLength text ≤ byteLength front := by
      have := hgap.1
      dsimp only at this
      omega
    rcases List.append_eq_append_iff.mp hcs with ⟨more, rfl, rfl⟩ | ⟨more, htext, hmore⟩
    · have hnext : pos + byteLength text + byteLength more = pos + byteLength (text ++ more) := by
        rw [byteLength_append, Nat.add_assoc]
      exact ih rfl (by rwa [hnext]) (by rw [hnext]; exact hgap.2)
    · rw [htext, byteLength_append] at hbehind
      obtain rfl : more = [] := byteLength_eq_zero.mp (by omega)
      rw [List.append_nil] at htext
      subst htext
      exact ih (show cs = [] ++ c :: after from hmore.symm) hstop hgap.2

end Spread

/-- The tokens lie in the source, up to its end or up to a fault. -/
theorem lex_spread (source : String) :
    ∃ stop rest, Spread 0 source.toList (lex source).tokens stop rest ∧
      ((rest = [] ∧ (lex source).outcome = .ok stop) ∨
        ∃ e, (lex source).outcome = .error e ∧ FaultIn stop rest e) :=
  lexFrom_spread 0 source.toList

theorem standsIn_of_mem {source : String} {l : Lexeme} (h : l ∈ (lex source).tokens) :
    StandsIn source.toList l := by
  obtain ⟨stop, rest, hspread, -⟩ := lex_spread source
  exact hspread.standsIn (show 0 = byteLength [] from rfl) l h

end Lexer

end TreeTemplate
