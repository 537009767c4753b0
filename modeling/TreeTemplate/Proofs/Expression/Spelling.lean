import TreeTemplate.Proofs.Expression.Soundness
import TreeTemplate.Proofs.Text.Trimming

/-!
Which tokens a text spells, wherever it stands (`Spells`).  A token that is neither a string literal nor a
doubled bar is cut from the word at the front of the text, whatever follows this word (`lexToken_append`).
-/

namespace TreeTemplate

namespace Text

variable {c : Char} {ranges : List (Nat × Nat)} {p : Char → Bool}

def codePoints (ranges : List (Nat × Nat)) : List Nat :=
  ranges.flatMap fun r => List.range' r.1 (r.2 + 1 - r.1)

theorem mem_codePoints (h : inRanges ranges c = true) : c.toNat ∈ codePoints ranges := by
  simp only [inRanges, List.any_eq_true, Bool.and_eq_true, decide_eq_true_eq] at h
  obtain ⟨r, hr, hle, hge⟩ := h
  refine List.mem_flatMap.mpr ⟨r, hr, List.mem_range'_1.mpr ⟨hle, ?_⟩⟩
  omega

/-- What holds of the listed code points holds of every blank. -/
theorem of_isBlank (hall : ∀ n ∈ codePoints blankRanges, p (Char.ofNat n) = true)
    (h : isBlank c = true) : p c = true := by
  have hc := hall c.toNat (mem_codePoints h)
  rwa [Char.ofNat_toNat] at hc

theorem isBlank_of_isAsciiBlank (h : isAsciiBlank c = true) : isBlank c = true := by
  simp only [isAsciiBlank, Bool.or_eq_true, beq_iff_eq] at h
  rcases h with (((rfl | rfl) | rfl) | rfl) | rfl <;> decide

end Text

namespace Lexer

open Text

variable {c d : Char} {cs z u rest after : List Char} {p : Char → Bool} {pos : Nat}

/-- A quote of either kind. -/
def IsQuote (c : Char) : Prop :=
  c = '\'' ∨ c = '"'

instance : DecidablePred IsQuote := fun c => inferInstanceAs (Decidable (c = '\'' ∨ c = '"'))

theorem IsQuote.ne_slash (h : IsQuote c) : c ≠ '\\' := by
  rintro rfl
  simp [IsQuote] at h

/-- A character that tokens other than string literals may go on with; of these only `||` goes on with a
bar. -/
def goesOn (c : Char) : Bool :=
  isIdentContinue c || isAsciiDigit c || c == '.' || c == '+' || c == '-' || c == '=' || c == '&'

/-- A text that no token goes on with. -/
def Halts (u : List Char) : Prop :=
  ∀ c ∈ u.head?, goesOn c = false

/-- A blank or a bar. -/
def isBreak (c : Char) : Bool :=
  isBlank c || c == '|'

theorem not_isBreak (h : isBreak c = false) : isBlank c = false ∧ c ≠ '|' := by
  simpa [isBreak] using h

theorem goesOn_of_isBreak (h : isBreak c = true) : goesOn c = false := by
  rw [isBreak, Bool.or_eq_true, beq_iff_eq] at h
  rcases h with h | rfl
  · have hnot : (!goesOn c) = true := of_isBlank (p := fun c => !goesOn c) (by decide +kernel) h
    simpa using hnot
  · decide

theorem Halts.takeWhile_append (hu : Halts u) (hp : ∀ c, p c = true → goesOn c = true) (z : List Char) :
    (z ++ u).takeWhile p = z.takeWhile p ∧ (z ++ u).dropWhile p = z.dropWhile p ++ u := by
  have hstop : u.takeWhile p = [] ∧ u.dropWhile p = u := by
    cases u with
    | nil => exact ⟨rfl, rfl⟩
    | cons c u =>
      have hc : ¬ p c = true := fun h => by
        have hgoes := hp c h
        rw [hu c rfl] at hgoes
        cases hgoes
      exact ⟨List.takeWhile_cons_of_neg hc, List.dropWhile_cons_of_neg hc⟩
  induction z with
  | nil => exact hstop
  | cons c z ih =>
    rw [List.cons_append]
    by_cases hc : p c = true
    · rw [List.takeWhile_cons_of_pos hc, List.takeWhile_cons_of_pos hc, List.dropWhile_cons_of_pos hc,
        List.dropWhile_cons_of_pos hc, ih.1, ih.2]
      exact ⟨rfl, rfl⟩
    · rw [List.takeWhile_cons_of_neg hc, List.takeWhile_cons_of_neg hc, List.dropWhile_cons_of_neg hc,
        List.dropWhile_cons_of_neg hc]
      exact ⟨rfl, rfl⟩

theorem goesOn_of_isAsciiDigit (c : Char) (h : isAsciiDigit c = true) : goesOn c = true := by
  simp [goesOn, h]

theorem goesOn_of_isIdentContinue (c : Char) (h : isIdentContinue c = true) : goesOn c = true := by
  simp [goesOn, h]

namespace Halts

variable (hu : Halts u)

include hu

theorem head_ne (hd : goesOn d = true) (rest : List Char) : u ≠ d :: rest := by
  rintro rfl
  have hgoes := hu d rfl
  rw [hd] at hgoes
  cases hgoes

theorem startsWithDigit_append (z : List Char) : startsWithDigit (z ++ u) = startsWithDigit z := by
  cases z with
  | cons c z => rfl
  | nil =>
    cases u with
    | nil => rfl
    | cons c u =>
      have hc : ¬ isAsciiDigit c = true := fun h => hu.head_ne (goesOn_of_isAsciiDigit c h) u rfl
      simpa [startsWithDigit] using hc

theorem spanFraction_append (z : List Char) :
    spanFraction (z ++ u) = ((spanFraction z).1, (spanFraction z).2 ++ u) := by
  have hdigits := hu.takeWhile_append goesOn_of_isAsciiDigit
  rcases z with _ | ⟨c, z⟩
  · unfold spanFraction
    split
    · next rest h => exact absurd h (hu.head_ne (by decide) rest)
    · rfl
  · by_cases hc : c = '.'
    · subst hc
      rw [List.cons_append, spanFraction, spanFraction, hu.startsWithDigit_append, (hdigits z).1,
        (hdigits z).2]
      split <;> rfl
    · unfold spanFraction
      simp [hc]

theorem spanSign_append (z : List Char) :
    spanSign (z ++ u) = ((spanSign z).1, (spanSign z).2 ++ u) := by
  rcases z with _ | ⟨c, z⟩
  · unfold spanSign
    split
    · next rest h => exact absurd h (hu.head_ne (by decide) rest)
    · next rest h => exact absurd h (hu.head_ne (by decide) rest)
    · rfl
  · by_cases hplus : c = '+'
    · subst hplus
      rfl
    · by_cases hminus : c = '-'
      · subst hminus
        rfl
      · unfold spanSign
        simp [hplus, hminus]

theorem spanExponent_append (z : List Char) :
    spanExponent (z ++ u) = ((spanExponent z).1, (spanExponent z).2 ++ u) := by
  have hdigits := hu.takeWhile_append goesOn_of_isAsciiDigit
  rcases z with _ | ⟨c, z⟩
  · cases u with
    | nil => rfl
    | cons c u =>
      have hletter : (c == 'e' || c == 'E') = false := by
        rw [Bool.eq_false_iff, Ne, Bool.or_eq_true, beq_iff_eq, beq_iff_eq]
        rintro (rfl | rfl) <;> exact hu.head_ne (by decide) u rfl
      simp [spanExponent, hletter]
  · rw [List.cons_append, spanExponent, spanExponent, hu.spanSign_append]
    dsimp only
    rw [hu.startsWithDigit_append, (hdigits _).1, (hdigits _).2]
    split <;> rfl

theorem spanNumber_append (z : List Char) :
    spanNumber (z ++ u) = ((spanNumber z).1, (spanNumber z).2 ++ u) := by
  have hdigits := hu.takeWhile_append goesOn_of_isAsciiDigit z
  unfold spanNumber
  dsimp only
  rw [hdigits.1, hdigits.2, hu.spanFraction_append, hu.spanExponent_append]

theorem withEquals_append (two one zero : Punct) (z : List Char) : withEquals two one zero (z ++ u) =
    ((withEquals two one zero z).1, (withEquals two one zero z).2 ++ u) := by
  have hnone : ∀ rest, u ≠ '=' :: rest := hu.head_ne (by decide)
  rcases z with _ | ⟨c, z⟩
  · simp [withEquals, hnone]
  · by_cases hc : c = '='
    · subst hc
      rcases z with _ | ⟨d, z⟩
      · simp [withEquals]
      · by_cases hd : d = '='
        · subst hd
          rfl
        · simp [withEquals, hd]
    · simp [withEquals, hc]

theorem withEqual_append (one zero : Punct) (z : List Char) :
    withEqual one zero (z ++ u) = ((withEqual one zero z).1, (withEqual one zero z).2 ++ u) := by
  have hnone : ∀ rest, u ≠ '=' :: rest := hu.head_ne (by decide)
  rcases z with _ | ⟨c, z⟩
  · simp [withEqual]
  · by_cases hc : c = '='
    · subst hc
      rfl
    · simp [withEqual, hc]

theorem doubled?_append (hc : goesOn c = true) (q : Punct) (z : List Char) :
    doubled? c q (z ++ u) = (doubled? c q z).map fun r => (r.1, r.2 ++ u) := by
  rcases z with _ | ⟨d, z⟩
  · cases u with
    | nil => rfl
    | cons d u =>
      have hne : d ≠ c := by
        rintro rfl
        exact hu.head_ne hc u rfl
      simp [doubled?, hne]
  · rw [List.cons_append, doubled?, doubled?]
    split <;> rfl

theorem cutPunct?_append (hc : c ≠ '|') (z : List Char) :
    cutPunct? c (z ++ u) = (cutPunct? c z).map fun r => (r.1, r.2 ++ u) := by
  unfold cutPunct?
  cases singlePunct? c with
  | some q => rfl
  | none =>
    dsimp only
    split
    · rw [hu.withEquals_append]
      rfl
    split
    · rw [hu.withEquals_append]
      rfl
    split
    · rw [hu.withEqual_append]
      rfl
    split
    · rw [hu.withEqual_append]
      rfl
    split
    · exact hu.doubled?_append (by decide) .andAnd z
    · rfl

/-- What follows the word at the front of a text does not change the token there. -/
theorem lexToken_append (hbar : c ≠ '|') (hquote : ¬ IsQuote c) (pos : Nat) (z : List Char) :
    lexToken pos c (z ++ u) =
      (lexToken pos c z).map fun cut => { cut with rest := cut.rest ++ u } := by
  have hletters := hu.takeWhile_append goesOn_of_isIdentContinue z
  unfold lexToken
  rw [hu.startsWithDigit_append, ← List.cons_append, hu.spanNumber_append, hu.cutPunct?_append hbar,
    hletters.1, hletters.2]
  dsimp only
  split
  · cases Number.readFloat? (spanNumber (c :: z)).1 <;> rfl
  · cases cutPunct? c z with
    | some r => rfl
    | none =>
      have hplain : (decide (c = '\'') || decide (c = '"')) = false := by simpa [IsQuote] using hquote
      rw [Option.map_none, hplain]
      dsimp only
      rw [if_neg Bool.false_ne_true, if_neg Bool.false_ne_true]
      split <;> rfl

end Halts

/-! ### What a token takes -/

/-- What is taken off the front of a text are characters that tokens go on with. -/
def Takes (cs after : List Char) : Prop :=
  ∃ y, cs = y ++ after ∧ ∀ d ∈ y, goesOn d = true

namespace Takes

theorem refl (cs : List Char) : Takes cs cs :=
  ⟨[], rfl, by simp⟩

theorem trans {later : List Char} (h : Takes cs after) (h' : Takes after later) : Takes cs later := by
  obtain ⟨y, rfl, hy⟩ := h
  obtain ⟨y', rfl, hy'⟩ := h'
  refine ⟨y ++ y', by rw [List.append_assoc], fun d hd => ?_⟩
  exact (List.mem_append.mp hd).elim (hy d) (hy' d)

theorem cons (hc : goesOn c = true) (h : Takes cs after) : Takes (c :: cs) after := by
  obtain ⟨y, rfl, hy⟩ := h
  exact ⟨c :: y, rfl, List.forall_mem_cons.mpr ⟨hc, hy⟩⟩

theorem tail (h : Takes (c :: cs) after) (hlength : after.length ≤ cs.length) : Takes cs after := by
  obtain ⟨y, heq, hy⟩ := h
  cases y with
  | nil =>
    obtain rfl : c :: cs = after := heq
    rw [List.length_cons] at hlength
    omega
  | cons d y =>
    rw [List.forall_mem_cons] at hy
    exact ⟨y, (List.cons.inj heq).2, hy.2⟩

theorem dropWhile (hp : ∀ c, p c = true → goesOn c = true) (cs : List Char) :
    Takes cs (cs.dropWhile p) :=
  ⟨cs.takeWhile p, List.takeWhile_append_dropWhile.symm, fun d hd => hp d (List.mem_takeWhile_imp hd)⟩

theorem spanFraction (cs : List Char) : Takes cs (spanFraction cs).2 := by
  unfold Lexer.spanFraction
  split
  · split
    · exact (dropWhile goesOn_of_isAsciiDigit _).cons (by decide)
    · exact refl _
  · exact refl cs

theorem spanSign (cs : List Char) : Takes cs (spanSign cs).2 := by
  unfold Lexer.spanSign
  split
  · exact (refl _).cons (by decide)
  · exact (refl _).cons (by decide)
  · exact refl cs

theorem spanExponent (cs : List Char) : Takes cs (spanExponent cs).2 := by
  cases cs with
  | nil => exact refl []
  | cons c rest =>
    rw [Lexer.spanExponent]
    dsimp only
    split
    · next h =>
      rw [Bool.and_eq_true, Bool.or_eq_true, beq_iff_eq, beq_iff_eq] at h
      have hc : goesOn c = true := by
        rcases h.1 with rfl | rfl <;> decide
      exact ((spanSign rest).trans (dropWhile goesOn_of_isAsciiDigit _)).cons hc
    · exact refl _

theorem spanNumber (cs : List Char) : Takes cs (spanNumber cs).2 :=
  ((dropWhile goesOn_of_isAsciiDigit cs).trans (spanFraction _)).trans (spanExponent _)

theorem withEquals (two one zero : Punct) (cs : List Char) :
    Takes cs (withEquals two one zero cs).2 := by
  unfold Lexer.withEquals
  split
  · exact ((refl _).cons (by decide)).cons (by decide)
  · exact (refl _).cons (by decide)
  · exact refl cs

theorem withEqual (one zero : Punct) (cs : List Char) : Takes cs (withEqual one zero cs).2 := by
  unfold Lexer.withEqual
  split
  · exact (refl _).cons (by decide)
  · exact refl cs

theorem doubled? {q : Punct} {r : Punct × List Char} (hc : goesOn c = true)
    (h : doubled? c q cs = some r) : Takes cs r.2 := by
  cases cs with
  | nil => cases h
  | cons d rest =>
    rw [Lexer.doubled?] at h
    split at h
    · next hd =>
      subst hd
      cases h
      exact (refl rest).cons hc
    · cases h

theorem cutPunct? {r : Punct × List Char} (hc : c ≠ '|') (h : cutPunct? c rest = some r) :
    Takes rest r.2 := by
  unfold Lexer.cutPunct? at h
  split at h
  · cases h
    exact refl rest
  split at h
  · cases h
    exact withEquals _ _ _ rest
  split at h
  · cases h
    exact withEquals _ _ _ rest
  split at h
  · cases h
    exact withEqual _ _ rest
  split at h
  · cases h
    exact withEqual _ _ rest
  split at h
  · exact doubled? (by decide) h
  · cases h

/-- A token that is neither a string literal nor a doubled bar takes characters of a word. -/
theorem lexToken {cut : Cut} (hbar : c ≠ '|') (hquote : ¬ IsQuote c)
    (h : lexToken pos c rest = .ok cut) : Takes rest cut.rest := by
  have hshorter := lexToken_shorter h
  unfold Lexer.lexToken at h
  split at h
  · dsimp only at h
    split at h
    · cases h
      exact (spanNumber (c :: rest)).tail hshorter
    · cases h
  · split at h
    · next hpunct =>
      cases h
      exact cutPunct? hbar hpunct
    · rw [if_neg (by simpa [IsQuote] using hquote)] at h
      split at h
      · cases h
        exact dropWhile goesOn_of_isIdentContinue rest
      · cases h

end Takes

/-! ### String literals -/

/-- The string literals of a text as they are written, quotes included.  `open?` is the one that is being
read: its quote, and its text so far, last first. -/
def literalsFrom : Option (Char × List Char) → List Char → List (List Char)
  | _, [] => []
  | none, c :: rest =>
    if IsQuote c then literalsFrom (some (c, [c])) rest else literalsFrom none rest
  | some (quote, seen), '\\' :: c :: rest => literalsFrom (some (quote, c :: '\\' :: seen)) rest
  | some (quote, seen), c :: rest =>
    if c = quote then (c :: seen).reverse :: literalsFrom none rest
    else literalsFrom (some (quote, c :: seen)) rest

/-- The string literals of an expression as they are written, quotes included. -/
def stringLiterals (cs : List Char) : List (List Char) :=
  literalsFrom none cs

theorem literalsFrom_cons {quote : Char} (hc : c ≠ '\\') (hquote : c ≠ quote) (seen rest : List Char) :
    literalsFrom (some (quote, seen)) (c :: rest) = literalsFrom (some (quote, c :: seen)) rest := by
  cases rest with
  | nil => simp [literalsFrom, hquote]
  | cons d rest => simp [literalsFrom, hc, hquote]

theorem literalsFrom_quote {quote : Char} (hquote : quote ≠ '\\') (seen rest : List Char) :
    literalsFrom (some (quote, seen)) (quote :: rest) =
      (quote :: seen).reverse :: literalsFrom none rest := by
  cases rest with
  | nil => simp [literalsFrom]
  | cons d rest => simp [literalsFrom, hquote]

theorem stringLiterals_cons (hc : ¬ IsQuote c) (rest : List Char) :
    stringLiterals (c :: rest) = stringLiterals rest := by
  rw [stringLiterals, literalsFrom, if_neg hc]
  rfl

theorem Takes.stringLiterals_eq (h : Takes cs after) : stringLiterals cs = stringLiterals after := by
  obtain ⟨y, rfl, hy⟩ := h
  induction y with
  | nil => rfl
  | cons d y ih =>
    rw [List.forall_mem_cons] at hy
    have hd : ¬ (d = '\'' ∨ d = '"') := by
      rintro (rfl | rfl) <;> exact absurd hy.1 (by decide)
    rw [List.cons_append, stringLiterals_cons hd, ih hy.2]

theorem isSome_of_mapM {α β : Type} {f : α → Option β} {as : List α} {bs : List β}
    (h : as.mapM f = some bs) : ∀ a ∈ as, (f a).isSome := by
  induction as generalizing bs with
  | nil => simp
  | cons a as ih =>
    rw [List.mapM_cons] at h
    obtain ⟨b, hb, h⟩ := Option.bind_eq_some_iff.mp h
    obtain ⟨more, hmore, -⟩ := Option.bind_eq_some_iff.mp h
    exact List.forall_mem_cons.mpr ⟨by rw [hb]; rfl, ih hmore⟩

/-- The characters of a unit escape are digits, perhaps after a sign. -/
theorem unitEscape?_chars {hex : List Char} (h : unitEscape? hex = some d) :
    ∀ c ∈ hex, c = '+' ∨ (Number.hexValue? c).isSome := by
  obtain ⟨n, hn, -⟩ := Option.bind_eq_some_iff.mp h
  unfold Number.readHex? at hn
  dsimp only at hn
  split at hn
  all_goals
    split at hn
    · simp at hn
    · obtain ⟨values, hvalues, -⟩ := Option.bind_eq_some_iff.mp hn
      have hdigits := isSome_of_mapM hvalues
      grind

/-- The text `y` is what follows the opening quote of a string literal, up to its closing quote, and `text` is
what it stands for. -/
inductive Closes (quote : Char) : List Char → List Char → Prop
  | closing : Closes quote [quote] []
  | plain {c : Char} {y text : List Char} (hslash : c ≠ '\\') (hquote : c ≠ quote)
    (h : Closes quote y text) : Closes quote (c :: y) (c :: text)
  | escape {x d : Char} {y text : List Char} (hu : x ≠ 'u') (hx : simpleEscape? x = some d)
    (h : Closes quote y text) : Closes quote ('\\' :: x :: y) (d :: text)
  | unit {x₁ x₂ x₃ x₄ d : Char} {y text : List Char} (hx : unitEscape? [x₁, x₂, x₃, x₄] = some d)
    (h : Closes quote y text) : Closes quote ('\\' :: 'u' :: x₁ :: x₂ :: x₃ :: x₄ :: y) (d :: text)

namespace Closes

variable {quote : Char} {text y : List Char}

theorem ends (h : Closes quote y text) : ∃ front, y = front ++ [quote] := by
  induction h with
  | closing => exact ⟨[], rfl⟩
  | plain _ _ _ ih | escape _ _ _ ih | unit _ _ ih =>
    obtain ⟨front, rfl⟩ := ih
    simp only [← List.cons_append]
    exact ⟨_, rfl⟩

/-- A literal is cut from whatever follows it. -/
theorem cutString_append (h : Closes quote y text) (hquote : IsQuote quote) (start pos : Nat)
    (seen more : List Char) :
    ∃ stop, cutString quote start pos seen (y ++ more) = .ok (seen.reverse ++ text, stop, more) := by
  induction h generalizing pos seen with
  | closing =>
    rw [List.singleton_append, cutString.eq_def]
    dsimp only
    rw [if_pos rfl, List.append_nil]
    exact ⟨_, rfl⟩
  | plain hslash hne _ ih =>
    obtain ⟨stop, hstop⟩ := ih (pos + _) (_ :: seen)
    rw [List.cons_append, cutString.eq_def]
    dsimp only
    rw [if_neg hne, if_neg hslash, hstop, List.reverse_cons, List.append_assoc]
    exact ⟨stop, rfl⟩
  | escape hu hx _ ih =>
    obtain ⟨stop, hstop⟩ := ih (pos + 1 + _) (_ :: seen)
    rw [List.cons_append, List.cons_append, cutString.eq_def]
    simp [Ne.symm hquote.ne_slash, hu, hx]
    rw [hstop, List.reverse_cons, List.append_assoc]
    exact ⟨stop, rfl⟩
  | unit hx _ ih =>
    obtain ⟨stop, hstop⟩ := ih (pos + 6) (_ :: seen)
    rw [List.cons_append, List.cons_append, cutString.eq_def]
    simp [Ne.symm hquote.ne_slash, hx]
    rw [hstop, List.reverse_cons, List.append_assoc]
    exact ⟨stop, rfl⟩

theorem unit_chars (hquote : IsQuote quote) {x₁ x₂ x₃ x₄ : Char}
    (hx : unitEscape? [x₁, x₂, x₃, x₄] = some d) :
    ∀ c ∈ [x₁, x₂, x₃, x₄], c ≠ '\\' ∧ c ≠ quote := by
  intro c hc
  have hchar := unitEscape?_chars hx c hc
  constructor
  · rintro rfl
    revert hchar
    decide
  · rintro rfl
    rcases hquote with rfl | rfl <;> revert hchar <;> decide

theorem literalsFrom_append (h : Closes quote y text) (hquote : IsQuote quote) (raw more : List Char) :
    literalsFrom (some (quote, raw)) (y ++ more) = (raw.reverse ++ y) :: literalsFrom none more := by
  induction h generalizing raw with
  | closing =>
    rw [List.singleton_append, literalsFrom_quote hquote.ne_slash, List.reverse_cons]
  | plain hslash hne _ ih =>
    rw [List.cons_append, literalsFrom_cons hslash hne, ih, List.reverse_cons, List.append_assoc]
    rfl
  | escape _ _ _ ih =>
    rw [List.cons_append, List.cons_append, literalsFrom, ih, List.reverse_cons, List.reverse_cons,
      List.append_assoc, List.append_assoc]
    rfl
  | unit hx _ ih =>
    have hplain := unit_chars hquote hx
    simp only [List.forall_mem_cons] at hplain
    obtain ⟨h₁, h₂, h₃, h₄, -⟩ := hplain
    simp only [List.cons_append, literalsFrom]
    rw [literalsFrom_cons h₁.1 h₁.2, literalsFrom_cons h₂.1 h₂.2, literalsFrom_cons h₃.1 h₃.2,
      literalsFrom_cons h₄.1 h₄.2, ih]
    simp

theorem stringLiterals_append (h : Closes quote y text) (hquote : IsQuote quote) (more : List Char) :
    stringLiterals (quote :: y ++ more) = (quote :: y) :: stringLiterals more := by
  rw [List.cons_append, stringLiterals, literalsFrom, if_pos hquote, h.literalsFrom_append hquote]
  rfl

end Closes

theorem exists_closes {quote : Char} {start pos stop : Nat} {seen text : List Char}
    (h : cutString quote start pos seen cs = .ok (text, stop, after)) :
    ∃ y text', cs = y ++ after ∧ text = seen.reverse ++ text' ∧ Closes quote y text' := by
  fun_induction cutString quote start pos seen cs with
  | case2 _ seen rest =>
    cases h
    exact ⟨[quote], [], rfl, (List.append_nil _).symm, .closing⟩
  | case4 pos seen x₁ x₂ x₃ x₄ more d hd _ ih =>
    obtain ⟨y, text', rfl, rfl, hy⟩ := ih h
    exact ⟨_, d :: text', rfl, by simp, hy.unit hd⟩
  | case7 pos seen x more _ hu d hd _ ih =>
    obtain ⟨y, text', rfl, rfl, hy⟩ := ih h
    exact ⟨_, d :: text', rfl, by simp, hy.escape hu hd⟩
  | case9 pos seen c rest hne hc ih =>
    obtain ⟨y, text', rfl, rfl, hy⟩ := ih h
    exact ⟨_, c :: text', rfl, by simp, hy.plain hc hne⟩
  | case1 | case3 | case5 | case6 | case8 => cases h

/-! ### Tokens wherever they stand -/

/-- A text that begins with `c` begins with the token `t`, wherever it stands, and goes on with `after`. -/
def Cuts (c : Char) (rest : List Char) (t : Token) (after : List Char) : Prop :=
  ∀ pos, ∃ bytes, lexToken pos c rest = .ok ⟨t, bytes, after⟩

theorem lexToken_quote (hc : IsQuote c) (pos : Nat) (rest : List Char) :
    lexToken pos c rest = match cutString c pos (pos + 1) [] rest with
      | .ok (text, stop, after) => .ok ⟨.string (String.ofList text), stop - pos, after⟩
      | .error e => .error e := by
  rcases hc with rfl | rfl <;> rfl

theorem Closes.cuts {text y : List Char} (hc : IsQuote c) (hy : Closes c y text)
    (more : List Char) : Cuts c (y ++ more) (.string (String.ofList text)) more := by
  intro pos
  obtain ⟨stop, hcut⟩ := hy.cutString_append hc pos (pos + 1) [] more
  rw [lexToken_quote hc, hcut]
  exact ⟨_, rfl⟩

/-- A token that begins with a quote is a string literal. -/
theorem exists_literal {cut : Cut} (hc : IsQuote c) (h : lexToken pos c rest = .ok cut) :
    ∃ y text, cut.token = .string (String.ofList text) ∧ rest = y ++ cut.rest ∧ Closes c y text := by
  rw [lexToken_quote hc] at h
  split at h
  · next text stop after hcut =>
    cases h
    obtain ⟨y, text', hrest, htext, hy⟩ := exists_closes hcut
    exact ⟨y, text', by rw [htext]; rfl, hrest, hy⟩
  · cases h

theorem lexToken_anywhere {cut : Cut} (hquote : ¬ IsQuote c)
    (h : lexToken pos c rest = .ok cut) (pos' : Nat) : lexToken pos' c rest = .ok cut := by
  unfold lexToken at h ⊢
  split at h
  · next hnumber =>
    rw [if_pos hnumber]
    dsimp only at h ⊢
    split at h
    · exact h
    · cases h
  · next hnumber =>
    rw [if_neg hnumber]
    split at h
    · exact h
    · rw [if_neg (by simpa [IsQuote] using hquote)] at h ⊢
      split at h
      · next hstart =>
        rw [if_pos hstart]
        exact h
      · cases h

theorem cuts_of_lexToken {cut : Cut} (h : lexToken pos c rest = .ok cut) :
    Cuts c rest cut.token cut.rest := by
  by_cases hc : IsQuote c
  · obtain ⟨y, text, htoken, hrest, hy⟩ := exists_literal hc h
    rw [htoken]
    nth_rewrite 1 [hrest]
    exact hy.cuts hc cut.rest
  · exact fun pos' => ⟨cut.bytes, lexToken_anywhere hc h pos'⟩

/-- The text is cut into the tokens, wherever it stands. -/
inductive Spells : List Char → List Token → Prop
  | nil : Spells [] []
  | blank {c : Char} {rest : List Char} {ts : List Token} (h : isAsciiBlank c = true)
    (hrest : Spells rest ts) : Spells (c :: rest) ts
  | token {c : Char} {rest after : List Char} {t : Token} {ts : List Token} (h : isAsciiBlank c = false)
    (hcut : Cuts c rest t after) (hafter : Spells after ts) : Spells (c :: rest) (t :: ts)

theorem spells_of_lexFrom {stop : Nat} (h : (lexFrom pos cs).outcome = .ok stop) :
    Spells cs (Parser.tokens (lexFrom pos cs).tokens) := by
  fun_induction lexFrom pos cs with
  | case1 => exact .nil
  | case2 pos c rest hc ih => exact .blank hc (ih h)
  | case3 pos c rest hc cut hcut ih =>
    exact .token (by simpa using hc) (cuts_of_lexToken hcut) (ih h)
  | case4 => cases h

theorem Spells.lexFrom {ts : List Token} (h : Spells cs ts) (pos : Nat) :
    ∃ stop, (lexFrom pos cs).outcome = .ok stop ∧ Parser.tokens (Lexer.lexFrom pos cs).tokens = ts := by
  induction h generalizing pos with
  | nil =>
    rw [Lexer.lexFrom]
    exact ⟨pos, rfl, rfl⟩
  | blank hc _ ih =>
    rw [Lexer.lexFrom, if_pos hc]
    exact ih (pos + 1)
  | token hc hcut _ ih =>
    obtain ⟨bytes, hcut⟩ := hcut pos
    rw [Lexer.lexFrom, if_neg (by simp [hc])]
    split
    · next cut heq =>
      obtain rfl := Except.ok.inj (hcut.symm.trans heq)
      obtain ⟨stop, hstop, htokens⟩ := ih (pos + bytes)
      exact ⟨stop, hstop, congrArg _ htokens⟩
    · next err heq =>
      rw [hcut] at heq
      cases heq

end Lexer

end TreeTemplate
