import TreeTemplate.Expression.Error
import TreeTemplate.Expression.Token
import TreeTemplate.Number.Reading
import TreeTemplate.Text.Split

/-!
Cutting a source text into tokens.  Every token takes at least one character (`lexToken_shorter`),
so the cutting ends by itself.
-/

namespace TreeTemplate.Lexer

open TreeTemplate.Text

/-- A token cut from the front of a text: the token, its length in bytes and the text after it. -/
structure Cut where
  token : Token
  bytes : Nat
  rest : List Char

/-- Punctuation that never begins a longer token. -/
def singlePunct? (c : Char) : Option Punct :=
  match c with
  | '+' => some .plus
  | '-' => some .minus
  | '*' => some .star
  | '/' => some .slash
  | '%' => some .percent
  | '?' => some .question
  | ':' => some .colon
  | ',' => some .comma
  | '.' => some .dot
  | '(' => some .leftParen
  | ')' => some .rightParen
  | '[' => some .leftBracket
  | ']' => some .rightBracket
  | '\x7b' => some .leftBrace
  | '\x7d' => some .rightBrace
  | _ => none

/-- An operator that two, one or no `=` may follow, by how many there are. -/
def withEquals (two one zero : Punct) : List Char → Punct × List Char
  | '=' :: '=' :: rest => (two, rest)
  | '=' :: rest => (one, rest)
  | rest => (zero, rest)

def withEqual (one zero : Punct) : List Char → Punct × List Char
  | '=' :: rest => (one, rest)
  | rest => (zero, rest)

def doubled? (c : Char) (p : Punct) : List Char → Option (Punct × List Char)
  | d :: rest => if d = c then some (p, rest) else none
  | [] => none

/-- The punctuation that begins with `c`, in its longest spelling, and the text after it. -/
def cutPunct? (c : Char) (rest : List Char) : Option (Punct × List Char) :=
  match singlePunct? c with
  | some p => some (p, rest)
  | none =>
    if c = '=' then some (withEquals .strictEqual .equal .assign rest)
    else if c = '!' then some (withEquals .strictNotEqual .notEqual .bang rest)
    else if c = '<' then some (withEqual .lessEqual .less rest)
    else if c = '>' then some (withEqual .greaterEqual .greater rest)
    else if c = '&' then doubled? '&' .andAnd rest
    else if c = '|' then doubled? '|' .orOr rest
    else none

def startsWithDigit : List Char → Bool
  | c :: _ => isAsciiDigit c
  | [] => false

/-- Split off a point with the digits after it, if there are any. -/
def spanFraction : List Char → List Char × List Char
  | '.' :: rest =>
    if startsWithDigit rest then
      ('.' :: rest.takeWhile isAsciiDigit, rest.dropWhile isAsciiDigit)
    else ([], '.' :: rest)
  | cs => ([], cs)

def spanSign : List Char → List Char × List Char
  | '+' :: rest => (['+'], rest)
  | '-' :: rest => (['-'], rest)
  | cs => ([], cs)

/-- Split off an exponent, if its letter is followed by digits, perhaps after a sign. -/
def spanExponent : List Char → List Char × List Char
  | [] => ([], [])
  | c :: rest =>
    let (sign, digits) := spanSign rest
    if (c == 'e' || c == 'E') && startsWithDigit digits then
      (c :: sign ++ digits.takeWhile isAsciiDigit, digits.dropWhile isAsciiDigit)
    else ([], c :: rest)

/-- Split off the longest number at the front of a text. -/
def spanNumber (cs : List Char) : List Char × List Char :=
  let whole := cs.takeWhile isAsciiDigit
  let (fraction, rest) := spanFraction (cs.dropWhile isAsciiDigit)
  let (exponent, rest) := spanExponent rest
  (whole ++ fraction ++ exponent, rest)

/-- What a backslash and one character stand for. -/
def simpleEscape? (c : Char) : Option Char :=
  match c with
  | 'n' => some '\n'
  | 't' => some '\t'
  | 'r' => some '\r'
  | '0' => some '\x00'
  | '\\' => some '\\'
  | '\'' => some '\''
  | '"' => some '"'
  | '/' => some '/'
  | _ => none

/-- The character named by the four characters after `\u`. -/
def unitEscape? (hex : List Char) : Option Char :=
  (Number.readHex? (Nat.pow 2 32) hex).bind Number.scalar?

/-- An escape that names nothing, as messages show it: up to four bytes of what follows `\u`. -/
def badUnit (pos : Nat) (more : List Char) : ParseError :=
  .invalidEscape (String.ofList ('\\' :: 'u' :: (takeBytes? 4 more).getD [])) pos

/-- The characters of a string literal up to its closing quote, the byte offset after the quote, and
the text there.  `start` is the offset of the opening quote, `pos` that of the text; `seen` holds
the characters so far, last first. -/
def cutString (quote : Char) (start pos : Nat) (seen : List Char) :
    List Char → Except ParseError (List Char × Nat × List Char)
  | [] => .error (.unclosedString start)
  | c :: rest =>
    if c = quote then .ok (seen.reverse, pos + c.utf8Size, rest)
    else if c = '\\' then
      match rest with
      | [] => .error (.unclosedString start)
      | 'u' :: x₁ :: x₂ :: x₃ :: x₄ :: more =>
        match unitEscape? [x₁, x₂, x₃, x₄] with
        | some d => cutString quote start (pos + 6) (d :: seen) more
        | none => .error (badUnit pos (x₁ :: x₂ :: x₃ :: x₄ :: more))
      | 'u' :: more => .error (badUnit pos more)
      | x :: more =>
        match simpleEscape? x with
        | some d => cutString quote start (pos + 1 + x.utf8Size) (d :: seen) more
        | none => .error (.invalidEscape (String.ofList ['\\', x]) pos)
    else cutString quote start (pos + c.utf8Size) (c :: seen) rest

def wordToken (word : String) : Token :=
  if word = "true" then .keyword .true
  else if word = "false" then .keyword .false
  else if word = "null" || word = "undefined" then .keyword .null
  else .identifier word

/-- The token at the front of a text that does not begin with a blank. -/
def lexToken (pos : Nat) (c : Char) (rest : List Char) : Except ParseError Cut :=
  if isAsciiDigit c || (c == '.' && startsWithDigit rest) then
    let number := spanNumber (c :: rest)
    match Number.readFloat? number.1 with
    | some x => .ok ⟨.number x, number.1.length, number.2⟩
    | none => .error (.invalidLiteral "number" (String.ofList number.1) pos)
  else
    match cutPunct? c rest with
    | some (p, after) => .ok ⟨.punct p, p.text.length, after⟩
    | none =>
      if c = '\'' || c = '"' then
        match cutString c pos (pos + 1) [] rest with
        | .ok (text, stop, after) => .ok ⟨.string (String.ofList text), stop - pos, after⟩
        | .error e => .error e
      else if isIdentStart c then
        let word := c :: rest.takeWhile isIdentContinue
        .ok ⟨wordToken (String.ofList word), byteLength word, rest.dropWhile isIdentContinue⟩
      else .error (.unexpectedToken (String.ofList [c]) pos)

/-- What cutting a text into tokens gives: the tokens before the end or the first fault, and the
fault or the offset reached. -/
structure Lexing where
  tokens : List Lexeme
  outcome : Except ParseError Nat

def Lexing.cons (l : Lexeme) (s : Lexing) : Lexing :=
  ⟨l :: s.tokens, s.outcome⟩

theorem length_dropWhile_le (p : Char → Bool) (cs : List Char) :
    (cs.dropWhile p).length ≤ cs.length :=
  (List.dropWhile_sublist p).length_le

theorem spanFraction_length_le (cs : List Char) : (spanFraction cs).2.length ≤ cs.length := by
  unfold spanFraction
  split
  · next rest =>
    split
    · have := length_dropWhile_le isAsciiDigit rest
      simp only [List.length_cons]
      omega
    · simp
  · simp

theorem spanSign_length_le (cs : List Char) : (spanSign cs).2.length ≤ cs.length := by
  unfold spanSign
  split <;> simp

theorem spanExponent_length_le (cs : List Char) : (spanExponent cs).2.length ≤ cs.length := by
  cases cs with
  | nil => simp [spanExponent]
  | cons c rest =>
    have hsign := spanSign_length_le rest
    have hdrop := length_dropWhile_le isAsciiDigit (spanSign rest).2
    simp only [spanExponent]
    split
    · simp only [List.length_cons]
      omega
    · simp

/-- A number takes at least its first character. -/
theorem spanNumber_shorter (c : Char) (rest : List Char)
    (h : (isAsciiDigit c || (c == '.' && startsWithDigit rest)) = true) :
    (spanNumber (c :: rest)).2.length ≤ rest.length := by
  have hexp := spanExponent_length_le (spanFraction ((c :: rest).dropWhile isAsciiDigit)).2
  have hfrac : (spanFraction ((c :: rest).dropWhile isAsciiDigit)).2.length ≤ rest.length := by
    by_cases hd : isAsciiDigit c = true
    · have h1 := spanFraction_length_le ((c :: rest).dropWhile isAsciiDigit)
      have h2 := length_dropWhile_le isAsciiDigit rest
      rw [List.dropWhile_cons_of_pos hd] at h1 ⊢
      omega
    · rw [List.dropWhile_cons_of_neg hd]
      simp only [hd, Bool.false_or, Bool.and_eq_true, beq_iff_eq] at h
      obtain ⟨rfl, hrest⟩ := h
      have h2 := length_dropWhile_le isAsciiDigit rest
      simpa [spanFraction, hrest] using h2
  exact Nat.le_trans hexp hfrac

theorem withEquals_length_le (two one zero : Punct) (cs : List Char) :
    (withEquals two one zero cs).2.length ≤ cs.length := by
  unfold withEquals
  split
  · simp only [List.length_cons]
    omega
  · simp
  · simp

theorem withEqual_length_le (one zero : Punct) (cs : List Char) :
    (withEqual one zero cs).2.length ≤ cs.length := by
  unfold withEqual
  split <;> simp

theorem doubled?_length_le {c : Char} {p q : Punct} {cs after : List Char}
    (h : doubled? c p cs = some (q, after)) : after.length ≤ cs.length := by
  cases cs with
  | nil => simp [doubled?] at h
  | cons d rest =>
    rw [doubled?] at h
    split at h
    · simp only [Option.some.injEq, Prod.mk.injEq] at h
      simp [← h.2]
    · simp at h

theorem cutPunct?_length_le {c : Char} {rest : List Char} {p : Punct} {after : List Char}
    (h : cutPunct? c rest = some (p, after)) : after.length ≤ rest.length := by
  unfold cutPunct? at h
  split at h
  · simp only [Option.some.injEq, Prod.mk.injEq] at h
    simp [← h.2]
  · split at h
    · have := withEquals_length_le .strictEqual .equal .assign rest
      simp_all
    · split at h
      · have := withEquals_length_le .strictNotEqual .notEqual .bang rest
        simp_all
      · split at h
        · have := withEqual_length_le .lessEqual .less rest
          simp_all
        · split at h
          · have := withEqual_length_le .greaterEqual .greater rest
            simp_all
          · split at h
            · exact doubled?_length_le h
            · split at h
              · exact doubled?_length_le h
              · simp at h

theorem cutString_length_le {quote : Char} {start pos stop : Nat} {seen cs text after : List Char}
    (h : cutString quote start pos seen cs = .ok (text, stop, after)) :
    after.length ≤ cs.length := by
  fun_induction cutString quote start pos seen cs <;> simp_all <;> omega

/-- Every token takes at least one character. -/
theorem lexToken_shorter {pos : Nat} {c : Char} {rest : List Char} {cut : Cut}
    (h : lexToken pos c rest = .ok cut) : cut.rest.length ≤ rest.length := by
  unfold lexToken at h
  split at h
  · next hd =>
    have hn := spanNumber_shorter c rest hd
    dsimp only at h
    split at h
    · simp only [Except.ok.injEq] at h
      simpa [← h] using hn
    · simp at h
  · split at h
    · next hp =>
      simp only [Except.ok.injEq] at h
      simpa [← h] using cutPunct?_length_le hp
    · split at h
      · split at h
        · next hs =>
          simp only [Except.ok.injEq] at h
          have := cutString_length_le hs
          rwa [← h]
        · simp at h
      · split at h
        · simp only [Except.ok.injEq] at h
          simpa [← h] using length_dropWhile_le isIdentContinue rest
        · simp at h

/-- The tokens of a text that stands at byte offset `pos`. -/
def lexFrom (pos : Nat) (cs : List Char) : Lexing :=
  match cs with
  | [] => ⟨[], .ok pos⟩
  | c :: rest =>
    if isAsciiBlank c then lexFrom (pos + 1) rest
    else
      match _hcut : lexToken pos c rest with
      | .ok cut =>
        Lexing.cons ⟨cut.token, pos, pos + cut.bytes⟩ (lexFrom (pos + cut.bytes) cut.rest)
      | .error e => ⟨[], .error e⟩
termination_by cs.length
decreasing_by
  · simp
  · have := lexToken_shorter _hcut
    simp only [List.length_cons]
    omega

def lex (source : String) : Lexing :=
  lexFrom 0 source.toList

end TreeTemplate.Lexer
