import TreeTemplate.Proofs.Expression.Spans

/-!
The tokenizer by byte offsets.  It keeps one offset into the UTF-8 bytes of the source, looks at single bytes
from there on and takes slices of the text between two offsets; a slice that begins or ends inside a character
gives nothing, and so does a loop that runs longer than it was allowed to (`Cursor.scan`).  Neither happens,
and the tokens are those that are cut from the text character by character (`scan_eq_lex`): the offset is
always at a boundary (`Rests`), and a byte of a character of several bytes is never taken for one of ASCII
(`lead`).
-/

namespace TreeTemplate.Lexer

open Text Number

namespace Cursor

/-! ### Bytes -/

def utf8 (cs : List Char) : List UInt8 :=
  cs.flatMap String.utf8EncodeChar

/-- The byte at an offset, as the character with this code. -/
def peek (source : List Char) (pos : Nat) : Option Char :=
  (utf8 source)[pos]?.map Char.ofUInt8

/-- The offset of the first byte from `pos` on that `p` does not hold of. -/
def skip (source : List Char) (p : Char → Bool) (pos : Nat) : Nat :=
  pos + (((utf8 source).drop pos).takeWhile fun b => p (Char.ofUInt8 b)).length

def digitAt (source : List Char) (pos : Nat) : Bool :=
  (peek source pos).any isAsciiDigit

/-! ### Numbers -/

/-- The end of the fraction that may begin at an offset. -/
def fractionEnd (source : List Char) (pos : Nat) : Nat :=
  if peek source pos = some '.' ∧ digitAt source (pos + 1) = true then skip source isAsciiDigit (pos + 1)
  else pos

/-- The end of the exponent that may begin at an offset. -/
def exponentEnd (source : List Char) (pos : Nat) : Nat :=
  if peek source pos = some 'e' ∨ peek source pos = some 'E' then
    let ahead := if peek source (pos + 1) = some '+' ∨ peek source (pos + 1) = some '-' then 2 else 1
    if digitAt source (pos + ahead) then skip source isAsciiDigit (pos + ahead) else pos
  else pos

/-- The number at an offset, with the offset behind it. -/
def number (source : List Char) (start : Nat) : Option (Except ParseError (Token × Nat)) :=
  let stop := exponentEnd source (fractionEnd source (skip source isAsciiDigit start))
  (slice? source start stop).map fun text =>
    match readFloat? text with
    | some x => .ok (.number x, stop)
    | none => .error (.invalidLiteral "number" (String.ofList text) start)

/-! ### String literals -/

/-- The rest of a string literal from an offset on, with the offset behind it. -/
def string (source : List Char) (quote : Char) (start : Nat) :
    Nat → Nat → List Char → Option (Except ParseError (Token × Nat))
  | 0, _, _ => none
  | fuel + 1, pos, seen =>
    match dropBytes? pos source with
    | none => none
    | some [] => some (.error (.unclosedString start))
    | some (c :: _) =>
      if c = quote then some (.ok (.string (String.ofList seen.reverse), pos + c.utf8Size))
      else if c = '\\' then
        match dropBytes? (pos + 1) source with
        | none => none
        | some [] => some (.error (.unclosedString start))
        | some (x :: _) =>
          if x = 'u' then
            let hex := (slice? source (pos + 2) (pos + 2 + 4)).getD []
            match if byteLength hex = 4 then unitEscape? hex else none with
            | some d => string source quote start fuel (pos + 2 + 4) (d :: seen)
            | none => some (.error (.invalidEscape (String.ofList ('\\' :: 'u' :: hex)) pos))
          else
            match simpleEscape? x with
            | some d => string source quote start fuel (pos + 1 + x.utf8Size) (d :: seen)
            | none => some (.error (.invalidEscape (String.ofList ['\\', x]) pos))
      else string source quote start fuel (pos + c.utf8Size) (c :: seen)

/-! ### Words -/

/-- The word at an offset, with the offset behind it. -/
def word (source : List Char) (start : Nat) : Option (Except ParseError (Token × Nat)) :=
  match dropBytes? start source with
  | none => none
  | some [] => some (.error (.unexpectedEnd start))
  | some (c :: rest) =>
    if isIdentStart c then
      let stop := start + byteLength (c :: rest.takeWhile isIdentContinue)
      (slice? source start stop).map fun text => .ok (wordToken (String.ofList text), stop)
    else some (.error (.unexpectedToken (String.ofList [c]) start))

/-! ### Punctuation -/

/-- An operator at an offset that two, one or no `=` may follow, with the offset behind it. -/
def equals (source : List Char) (start : Nat) (two one zero : Punct) : Token × Nat :=
  if peek source (start + 1) = some '=' then
    if peek source (start + 2) = some '=' then (.punct two, start + 3) else (.punct one, start + 2)
  else (.punct zero, start + 1)

/-- An operator at an offset that one or no `=` may follow, with the offset behind it. -/
def equal (source : List Char) (start : Nat) (one zero : Punct) : Token × Nat :=
  if peek source (start + 1) = some '=' then (.punct one, start + 2) else (.punct zero, start + 1)

/-- An operator at an offset that is written as `b` twice, with the offset behind it. -/
def doubled (source : List Char) (start : Nat) (b : Char) (p : Punct) : Except ParseError (Token × Nat) :=
  if peek source (start + 1) = some b then .ok (.punct p, start + 2)
  else .error (.unexpectedToken (String.ofList [b]) start)

/-- The punctuation at an offset where the byte `b` stands, with the offset behind it, if it begins any. -/
def punctuation (source : List Char) (start : Nat) (b : Char) : Option (Except ParseError (Token × Nat)) :=
  match singlePunct? b with
  | some p => some (.ok (.punct p, start + 1))
  | none =>
    if b = '=' then some (.ok (equals source start .strictEqual .equal .assign))
    else if b = '!' then some (.ok (equals source start .strictNotEqual .notEqual .bang))
    else if b = '<' then some (.ok (equal source start .lessEqual .less))
    else if b = '>' then some (.ok (equal source start .greaterEqual .greater))
    else if b = '&' then some (doubled source start '&' .andAnd)
    else if b = '|' then some (doubled source start '|' .orOr)
    else none

/-! ### Tokens -/

/-- The token at an offset where the byte `b` stands, with the offset behind it. -/
def token (source : List Char) (start : Nat) (b : Char) : Option (Except ParseError (Token × Nat)) :=
  if isAsciiDigit b || (b == '.' && digitAt source (start + 1)) then number source start
  else
    match punctuation source start b with
    | some r => some r
    | none =>
      if b = '\'' || b = '"' then string source b start (source.length + 1) (start + 1) []
      else word source start

def scanFrom (source : List Char) : Nat → Nat → Option Lexing
  | 0, _ => none
  | fuel + 1, pos =>
    let start := skip source isAsciiBlank pos
    match peek source start with
    | none => some ⟨[], .ok start⟩
    | some b =>
      match token source start b with
      | none => none
      | some (.ok (t, stop)) => (scanFrom source fuel stop).map (Lexing.cons ⟨t, start, stop⟩)
      | some (.error e) => some ⟨[], .error e⟩

def scan (source : String) : Option Lexing :=
  scanFrom source.toList (source.utf8ByteSize + 1) 0

/-! ### What a byte tells -/

variable {source cs rest text : List Char} {c d : Char} {p : Char → Bool} {pos n : Nat}

/-- The first byte of a character. -/
def lead (c : Char) : Char :=
  Char.ofUInt8 ((String.utf8EncodeChar c).headD 0)

theorem utf8EncodeChar_cases (c : Char) :
    (c.utf8Size = 1 ∧ String.utf8EncodeChar c = [c.val.toUInt8]) ∨
      (c.utf8Size ≠ 1 ∧ ∃ b bs, String.utf8EncodeChar c = b :: bs ∧ 128 ≤ b.toNat) := by
  by_cases h : c.utf8Size = 1
  · exact .inl ⟨h, String.utf8EncodeChar_eq_singleton h⟩
  · refine .inr ⟨h, ?_⟩
    have hwide : ¬ c.val.toNat ≤ 127 := by
      rwa [Char.utf8Size_eq_one_iff, UInt32.le_iff_toNat_le] at h
    rw [String.utf8EncodeChar.eq_def]
    dsimp only
    rw [if_neg hwide]
    split
    · exact ⟨_, _, rfl, by rw [UInt8.toNat_ofNat']; omega⟩
    split
    · exact ⟨_, _, rfl, by rw [UInt8.toNat_ofNat']; omega⟩
    · exact ⟨_, _, rfl, by rw [UInt8.toNat_ofNat']; omega⟩

theorem lead_of_narrow (h : c.utf8Size = 1) : lead c = c := by
  obtain ⟨-, hbytes⟩ | ⟨hwide, -⟩ := utf8EncodeChar_cases c
  · have hval : c.val.toNat < 2 ^ 8 := by
      rw [Char.utf8Size_eq_one_iff, UInt32.le_iff_toNat_le] at h
      exact Nat.lt_of_le_of_lt h (by decide)
    rw [lead, hbytes, List.headD_cons]
    refine Char.ext (UInt32.toNat_inj.mp ?_)
    change c.val.toUInt8.toUInt32.toNat = c.val.toNat
    rw [UInt8.toNat_toUInt32, UInt32.toNat_toUInt8, Nat.mod_eq_of_lt hval]
  · exact absurd h hwide

theorem lead_of_wide (h : c.utf8Size ≠ 1) : (lead c).utf8Size ≠ 1 := by
  obtain ⟨hnarrow, -⟩ | ⟨-, b, bs, hbytes, hb⟩ := utf8EncodeChar_cases c
  · exact absurd hnarrow h
  · rw [lead, hbytes, List.headD_cons, Ne, Char.utf8Size_eq_one_iff, UInt32.le_iff_toNat_le]
    change ¬ b.toUInt32.toNat ≤ 127
    rw [UInt8.toNat_toUInt32]
    omega

theorem lead_eq_iff (hd : d.utf8Size = 1) : lead c = d ↔ c = d := by
  by_cases h : c.utf8Size = 1
  · rw [lead_of_narrow h]
  · refine iff_of_false ?_ ?_
    · rintro rfl
      exact lead_of_wide h hd
    · rintro rfl
      exact h hd

/-- Only characters of one byte are in the class. -/
def Narrow (p : Char → Bool) : Prop :=
  ∀ c, p c = true → c.utf8Size = 1

theorem Narrow.eq_false (hp : Narrow p) (h : c.utf8Size ≠ 1) : p c = false := by
  by_contra htrue
  exact h (hp c (by simpa using htrue))

theorem Narrow.lead (hp : Narrow p) (c : Char) : p (lead c) = p c := by
  by_cases h : c.utf8Size = 1
  · rw [lead_of_narrow h]
  · rw [hp.eq_false h, hp.eq_false (lead_of_wide h)]

theorem narrow_isAsciiDigit : Narrow isAsciiDigit :=
  fun _ => utf8Size_of_isAsciiDigit

theorem narrow_isAsciiBlank : Narrow isAsciiBlank :=
  fun _ => utf8Size_of_isAsciiBlank

theorem singlePunct?_wide (h : c.utf8Size ≠ 1) : singlePunct? c = none := by
  unfold singlePunct?
  split
  case h_16 => rfl
  all_goals exact absurd rfl h

theorem ne_of_wide (h : c.utf8Size ≠ 1) (hd : d.utf8Size = 1) : c ≠ d := by
  rintro rfl
  exact h hd

/-! ### The cursor at a boundary -/

theorem length_utf8 (cs : List Char) : (utf8 cs).length = byteLength cs := by
  induction cs with
  | nil => rfl
  | cons c cs ih =>
    rw [utf8, List.flatMap_cons, List.length_append, String.length_utf8EncodeChar, ← utf8, ih,
      byteLength_cons]

/-- The bytes of a string are those of its characters. -/
theorem utf8_toList (s : String) : utf8 s.toList = s.toByteArray.data.toList := by
  rw [← String.ofList_toList (s := s), String.toByteArray_ofList, String.toList_ofList, List.utf8Encode,
    List.toList_data_toByteArray]
  rfl

theorem utf8_cons (c : Char) (cs : List Char) : ∃ b bs, utf8 (c :: cs) = b :: (bs ++ utf8 cs) ∧
    Char.ofUInt8 b = lead c ∧ (c.utf8Size = 1 → bs = []) := by
  obtain ⟨-, hbytes⟩ | ⟨hwide, b, bs, hbytes, -⟩ := utf8EncodeChar_cases c
  · refine ⟨c.val.toUInt8, [], ?_, ?_, fun _ => rfl⟩
    · rw [utf8, List.flatMap_cons, hbytes]
      rfl
    · rw [lead, hbytes]
      rfl
  · refine ⟨b, bs, ?_, ?_, fun h => absurd h hwide⟩
    · rw [utf8, List.flatMap_cons, hbytes]
      rfl
    · rw [lead, hbytes]
      rfl

/-- The offset is a boundary of the source, and `cs` is the text there. -/
def Rests (source : List Char) (pos : Nat) (cs : List Char) : Prop :=
  ∃ before, source = before ++ cs ∧ pos = byteLength before

namespace Rests

theorem start (source : List Char) : Rests source 0 source :=
  ⟨[], rfl, rfl⟩

theorem append (h : Rests source pos (text ++ rest)) : Rests source (pos + byteLength text) rest := by
  obtain ⟨before, rfl, rfl⟩ := h
  exact ⟨before ++ text, (List.append_assoc ..).symm, (byteLength_append ..).symm⟩

theorem cons (h : Rests source pos (c :: rest)) : Rests source (pos + c.utf8Size) rest := by
  have hrest := append (show Rests source pos ([c] ++ rest) from h)
  rwa [byteLength_cons, byteLength_nil, Nat.add_zero] at hrest

theorem length_le (h : Rests source pos cs) : cs.length ≤ source.length := by
  obtain ⟨before, rfl, -⟩ := h
  rw [List.length_append]
  exact Nat.le_add_left _ _

theorem dropBytes? (h : Rests source pos cs) : dropBytes? pos source = some cs := by
  obtain ⟨before, rfl, rfl⟩ := h
  exact dropBytes?_append before cs

theorem slice?_add (h : Rests source pos cs) (n : Nat) : slice? source pos (pos + n) = takeBytes? n cs := by
  rw [slice?, h.dropBytes?, Option.bind_some, Nat.add_sub_cancel_left]

theorem slice? (h : Rests source pos (text ++ rest)) :
    slice? source pos (pos + byteLength text) = some text := by
  rw [h.slice?_add, takeBytes?_append]

theorem drop_utf8 (h : Rests source pos cs) : (utf8 source).drop pos = utf8 cs := by
  obtain ⟨before, rfl, rfl⟩ := h
  rw [utf8, List.flatMap_append, ← utf8, ← utf8, ← length_utf8, List.drop_left]

theorem peek_nil (h : Rests source pos []) : peek source pos = none := by
  rw [peek, ← Nat.add_zero pos, ← List.getElem?_drop, h.drop_utf8]
  rfl

theorem peek_cons (h : Rests source pos (c :: rest)) : peek source pos = some (lead c) := by
  obtain ⟨b, bs, hbytes, hb, -⟩ := utf8_cons c rest
  rw [peek, ← Nat.add_zero pos, ← List.getElem?_drop, h.drop_utf8, hbytes, ← hb]
  rfl

/-- A byte of ASCII is the character itself. -/
theorem peek_eq_some_iff (h : Rests source pos cs) (hd : d.utf8Size = 1) :
    peek source pos = some d ↔ ∃ rest, cs = d :: rest := by
  cases cs with
  | nil => simp [h.peek_nil]
  | cons c rest => simp [h.peek_cons, lead_eq_iff hd]

theorem digitAt (h : Rests source pos cs) : digitAt source pos = startsWithDigit cs := by
  cases cs with
  | nil =>
    rw [Cursor.digitAt, h.peek_nil]
    rfl
  | cons c rest =>
    rw [Cursor.digitAt, h.peek_cons, Option.any_some, narrow_isAsciiDigit.lead]
    rfl

theorem skip (h : Rests source pos cs) (hp : Narrow p) :
    skip source p pos = pos + byteLength (cs.takeWhile p) := by
  rw [Cursor.skip, h.drop_utf8]
  congr 1
  clear h
  induction cs with
  | nil => rfl
  | cons c rest ih =>
    obtain ⟨b, bs, hbytes, hb, hnarrow⟩ := utf8_cons c rest
    rw [hbytes]
    by_cases hc : p c = true
    · have hsize := hp c hc
      rw [hnarrow hsize, List.takeWhile_cons_of_pos (by rwa [hb, hp.lead]), List.takeWhile_cons_of_pos hc,
        List.nil_append, List.length_cons, ih, byteLength_cons, hsize, Nat.add_comm]
    · rw [List.takeWhile_cons_of_neg (by rwa [hb, hp.lead]), List.takeWhile_cons_of_neg hc]
      rfl

theorem dropWhile (h : Rests source pos cs) (hp : Narrow p) :
    Rests source (Cursor.skip source p pos) (cs.dropWhile p) := by
  rw [h.skip hp]
  refine append ?_
  rwa [List.takeWhile_append_dropWhile]

end Rests

/-! ### Each reader reads what is cut from the text -/

theorem fractionEnd_eq (h : Rests source pos cs) :
    fractionEnd source pos = pos + byteLength (spanFraction cs).1 := by
  have hpoint := h.peek_eq_some_iff (d := '.') rfl
  rw [fractionEnd]
  by_cases hcs : ∃ rest, cs = '.' :: rest
  · obtain ⟨rest, rfl⟩ := hcs
    have hrest : Rests source (pos + 1) rest := h.cons
    rw [hrest.digitAt, spanFraction]
    by_cases hdigit : startsWithDigit rest = true
    · rw [if_pos ⟨hpoint.mpr ⟨rest, rfl⟩, hdigit⟩, if_pos hdigit, hrest.skip narrow_isAsciiDigit,
        byteLength_cons, Nat.add_assoc]
      rfl
    · rw [if_neg fun hboth => hdigit hboth.2, if_neg hdigit]
      rfl
  · rw [if_neg fun hboth => hcs (hpoint.mp hboth.1)]
    unfold spanFraction
    split
    · exact absurd ⟨_, rfl⟩ hcs
    · rfl

/-- How far the digits of an exponent are from its letter. -/
theorem sign_eq (h : Rests source (pos + 1) rest) :
    pos + (if peek source (pos + 1) = some '+' ∨ peek source (pos + 1) = some '-' then 2 else 1) =
      pos + 1 + byteLength (spanSign rest).1 := by
  have hplus := h.peek_eq_some_iff (d := '+') rfl
  have hminus := h.peek_eq_some_iff (d := '-') rfl
  by_cases hsign : (∃ more, rest = '+' :: more) ∨ ∃ more, rest = '-' :: more
  · rw [if_pos (hsign.imp hplus.mpr hminus.mpr)]
    obtain ⟨more, rfl⟩ | ⟨more, rfl⟩ := hsign <;> rfl
  · rw [if_neg fun h => hsign (h.imp hplus.mp hminus.mp)]
    unfold spanSign
    split
    · exact absurd (.inl ⟨_, rfl⟩) hsign
    · exact absurd (.inr ⟨_, rfl⟩) hsign
    · rfl

theorem exponentEnd_eq (h : Rests source pos cs) :
    exponentEnd source pos = pos + byteLength (spanExponent cs).1 := by
  cases cs with
  | nil => simp [exponentEnd, h.peek_nil, spanExponent]
  | cons c rest =>
    have hletter : (peek source pos = some 'e' ∨ peek source pos = some 'E') ↔
        (c == 'e' || c == 'E') = true := by
      rw [h.peek_cons, Option.some.injEq, Option.some.injEq, lead_eq_iff rfl, lead_eq_iff rfl,
        Bool.or_eq_true, beq_iff_eq, beq_iff_eq]
    rw [exponentEnd, spanExponent]
    dsimp only
    by_cases hc : (c == 'e' || c == 'E') = true
    · have hsize : c.utf8Size = 1 := by
        rw [Bool.or_eq_true, beq_iff_eq, beq_iff_eq] at hc
        rcases hc with rfl | rfl <;> rfl
      have hrest : Rests source (pos + 1) rest := hsize ▸ h.cons
      have hdigits : Rests source (pos + 1 + byteLength (spanSign rest).1) (spanSign rest).2 :=
        Rests.append ((spanSign_parts rest).1 ▸ hrest)
      rw [if_pos (hletter.mpr hc), sign_eq hrest, hdigits.digitAt, hc, Bool.true_and,
        hdigits.skip narrow_isAsciiDigit]
      split
      · rw [List.cons_append, byteLength_cons, byteLength_append, hsize]
        omega
      · rfl
    · rw [if_neg fun hyes => hc (hletter.mp hyes), if_neg]
      · rfl
      · rw [Bool.and_eq_true]
        exact fun hboth => hc hboth.1

theorem number_eq (h : Rests source pos (c :: rest))
    (hnumber : (isAsciiDigit c || (c == '.' && startsWithDigit rest)) = true) :
    number source pos =
      let cut := spanNumber (c :: rest)
      some (match readFloat? cut.1 with
        | some x => .ok (.number x, pos + byteLength cut.1)
        | none => .error (.invalidLiteral "number" (String.ofList cut.1) pos)) := by
  have hwhole := h.dropWhile narrow_isAsciiDigit
  have hfraction : Rests source _ (spanFraction ((c :: rest).dropWhile isAsciiDigit)).2 :=
    Rests.append ((spanFraction_parts ((c :: rest).dropWhile isAsciiDigit)).1 ▸ hwhole)
  have hstop : exponentEnd source (fractionEnd source (skip source isAsciiDigit pos)) =
      pos + byteLength (spanNumber (c :: rest)).1 := by
    rw [fractionEnd_eq hwhole, exponentEnd_eq hfraction, h.skip narrow_isAsciiDigit, spanNumber]
    simp only [byteLength_append, Nat.add_assoc]
  rw [number, hstop, Rests.slice? ((spanNumber_parts hnumber).1 ▸ h)]
  rfl

theorem length_of_unitEscape? {hex : List Char} (h : unitEscape? hex = some d) :
    byteLength hex = hex.length := by
  obtain ⟨n, hn, -⟩ := Option.bind_eq_some_iff.mp h
  obtain ⟨digits, values, -, hhex, hdigits, -⟩ := readHex?_eq_some_iff.mp hn
  exact byteLength_hex hdigits hhex

/-- What the four bytes behind `\u` name. -/
def unit? (rest : List Char) : Option Char :=
  let hex := (takeBytes? 4 rest).getD []
  if byteLength hex = 4 then unitEscape? hex else none

theorem unit?_append {hex more : List Char} (hlength : hex.length = 4) (h : unitEscape? hex = some d) :
    unit? (hex ++ more) = some d := by
  have hbytes : byteLength hex = 4 := by rw [length_of_unitEscape? h, hlength]
  have htake := takeBytes?_append hex more
  rw [hbytes] at htake
  rw [unit?, htake, Option.getD_some, if_pos hbytes, h]

/-- They name a character only if they are four characters that do. -/
theorem unit?_eq_none (h : ∀ hex more d, rest = hex ++ more → hex.length = 4 → unitEscape? hex ≠ some d) :
    unit? rest = none := by
  rw [unit?]
  cases htake : takeBytes? 4 rest with
  | none => rfl
  | some hex =>
    obtain ⟨hbytes, more, rfl⟩ := exists_of_takeBytes? htake
    rw [Option.getD_some, if_pos hbytes, Option.eq_none_iff_forall_ne_some]
    intro d hd
    exact h hex more d rfl (by rw [← length_of_unitEscape? hd, hbytes]) hd

section

variable {quote x : Char} {start fuel : Nat} {seen more : List Char}

theorem string_unit (h : Rests source pos ('\\' :: 'u' :: more)) (hquote : '\\' ≠ quote) :
    string source quote start (fuel + 1) pos seen =
      match unit? more with
      | some d => string source quote start fuel (pos + 6) (d :: seen)
      | none => some (.error (badUnit pos more)) := by
  have hrest : Rests source (pos + 1) ('u' :: more) := h.cons
  have hmore : Rests source (pos + 2) more := hrest.cons
  rw [string, h.dropBytes?]
  dsimp only
  rw [if_neg hquote, if_pos rfl, hrest.dropBytes?]
  dsimp only
  rw [if_pos rfl, hmore.slice?_add]
  rfl

theorem string_escape (h : Rests source pos ('\\' :: x :: more)) (hquote : '\\' ≠ quote) (hx : x ≠ 'u') :
    string source quote start (fuel + 1) pos seen =
      match simpleEscape? x with
      | some d => string source quote start fuel (pos + 1 + x.utf8Size) (d :: seen)
      | none => some (.error (.invalidEscape (String.ofList ['\\', x]) pos)) := by
  have hrest : Rests source (pos + 1) (x :: more) := h.cons
  rw [string, h.dropBytes?]
  dsimp only
  rw [if_neg hquote, if_pos rfl, hrest.dropBytes?]
  dsimp only
  rw [if_neg hx]

/-- Every character takes one step of the loop at most. -/
theorem string_eq (hquote : '\\' ≠ quote) (h : Rests source pos cs) (hfuel : cs.length ≤ fuel) :
    string source quote start (fuel + 1) pos seen =
      some ((cutString quote start pos seen cs).map fun r => (.string (String.ofList r.1), r.2.1)) := by
  fun_induction cutString quote start pos seen cs generalizing fuel with
  | case1 =>
    rw [string, h.dropBytes?]
    rfl
  | case2 =>
    rw [string, h.dropBytes?]
    dsimp only
    rw [if_pos rfl]
    rfl
  | case3 pos seen hne =>
    have hrest : Rests source (pos + 1) [] := h.cons
    rw [string, h.dropBytes?]
    dsimp only
    rw [if_neg hne, if_pos rfl, hrest.dropBytes?]
    rfl
  | case4 pos seen x₁ x₂ x₃ x₄ more d hd hne ih =>
    have hunit : unit? ([x₁, x₂, x₃, x₄] ++ more) = some d := unit?_append rfl hd
    have hmore : Rests source (pos + 6) more := by
      have hbytes : byteLength ('\\' :: 'u' :: [x₁, x₂, x₃, x₄]) = 6 := by
        rw [byteLength_cons, byteLength_cons, length_of_unitEscape? hd]
        rfl
      rw [← hbytes]
      exact h.append
    cases fuel with
    | zero => simp at hfuel
    | succ fuel =>
      have hless : more.length ≤ fuel := by
        simp only [List.length_cons] at hfuel
        omega
      rw [string_unit h hquote, ← ih hmore hless]
      simp only [List.cons_append, List.nil_append] at hunit
      rw [hunit]
  | case5 pos seen x₁ x₂ x₃ x₄ more hd hne =>
    have hunit : unit? (x₁ :: x₂ :: x₃ :: x₄ :: more) = none := by
      refine unit?_eq_none fun hex more' d hhex hlength => ?_
      obtain ⟨y₁, y₂, y₃, y₄, rfl⟩ := List.length_eq_four.mp hlength
      cases hhex
      simp [hd]
    rw [string_unit h hquote, hunit]
    rfl
  | case6 pos seen more hshort hne =>
    have hunit : unit? more = none := by
      refine unit?_eq_none fun hex more' d hhex hlength => ?_
      obtain ⟨y₁, y₂, y₃, y₄, rfl⟩ := List.length_eq_four.mp hlength
      exact absurd hhex (hshort y₁ y₂ y₃ y₄ more')
    rw [string_unit h hquote, hunit]
    rfl
  | case7 pos seen x more _ hx d hd hne ih =>
    cases fuel with
    | zero => simp at hfuel
    | succ fuel =>
      have hrest : Rests source (pos + 1) (x :: more) := h.cons
      have hless : more.length ≤ fuel := by
        simp only [List.length_cons] at hfuel
        omega
      rw [string_escape h hquote hx, hd, ← ih hrest.cons hless]
  | case8 pos seen x more _ hx hd hne =>
    rw [string_escape h hquote hx, hd]
    rfl
  | case9 pos seen c rest hne hc ih =>
    cases fuel with
    | zero => simp at hfuel
    | succ fuel =>
      rw [← ih h.cons (Nat.le_of_succ_le_succ hfuel), string, h.dropBytes?]
      dsimp only
      rw [if_neg hne, if_neg hc]

end

/-- A word cut from the front of a text. -/
def cutWord (pos : Nat) (c : Char) (rest : List Char) : Except ParseError Cut :=
  if isIdentStart c then
    let word := c :: rest.takeWhile isIdentContinue
    .ok ⟨wordToken (String.ofList word), byteLength word, rest.dropWhile isIdentContinue⟩
  else .error (.unexpectedToken (String.ofList [c]) pos)

theorem word_eq (h : Rests source pos (c :: rest)) :
    word source pos = some ((cutWord pos c rest).map fun cut => (cut.token, pos + cut.bytes)) := by
  have hslice : Rests source pos
      ((c :: rest.takeWhile isIdentContinue) ++ rest.dropWhile isIdentContinue) := by
    rwa [List.cons_append, List.takeWhile_append_dropWhile]
  rw [word, h.dropBytes?, cutWord]
  dsimp only
  rw [hslice.slice?]
  split <;> rfl

theorem equal_eq {one zero : Punct} (h : Rests source (pos + 1) rest) (hone : one.text.length = 2)
    (hzero : zero.text.length = 1) :
    equal source pos one zero =
      (.punct (withEqual one zero rest).1, pos + (withEqual one zero rest).1.text.length) := by
  have hfirst := h.peek_eq_some_iff (d := '=') rfl
  rw [equal]
  split
  · next hyes =>
    obtain ⟨more, rfl⟩ := hfirst.mp hyes
    rw [withEqual, hone]
  · next hno =>
    unfold withEqual
    split
    · exact absurd (hfirst.mpr ⟨_, rfl⟩) hno
    · rw [hzero]

theorem equals_eq {two one zero : Punct} (h : Rests source (pos + 1) rest) (htwo : two.text.length = 3)
    (hone : one.text.length = 2) (hzero : zero.text.length = 1) :
    equals source pos two one zero =
      (.punct (withEquals two one zero rest).1, pos + (withEquals two one zero rest).1.text.length) := by
  have hfirst := h.peek_eq_some_iff (d := '=') rfl
  rw [equals]
  split
  · next hyes =>
    obtain ⟨more, rfl⟩ := hfirst.mp hyes
    have hmore : Rests source (pos + 2) more := h.cons
    have hsecond := hmore.peek_eq_some_iff (d := '=') rfl
    split
    · next hyes =>
      obtain ⟨last, rfl⟩ := hsecond.mp hyes
      rw [withEquals, htwo]
    · next hno =>
      unfold withEquals
      split
      · next heq =>
        cases heq
        exact absurd (hsecond.mpr ⟨_, rfl⟩) hno
      · rw [hone]
      · next hnone => exact absurd rfl (hnone more)
  · next hno =>
    unfold withEquals
    split
    · exact absurd (hfirst.mpr ⟨_, rfl⟩) hno
    · exact absurd (hfirst.mpr ⟨_, rfl⟩) hno
    · rw [hzero]

theorem doubled_eq {p : Punct} (h : Rests source (pos + 1) rest) (hc : c.utf8Size = 1)
    (hp : p.text.length = 2) :
    doubled source pos c p = match doubled? c p rest with
      | some r => .ok (.punct r.1, pos + r.1.text.length)
      | none => .error (.unexpectedToken (String.ofList [c]) pos) := by
  have hsecond := h.peek_eq_some_iff hc
  rw [doubled]
  split
  · next hyes =>
    obtain ⟨more, rfl⟩ := hsecond.mp hyes
    rw [doubled?, if_pos rfl]
    dsimp only
    rw [hp]
  · next hno =>
    have hnone : doubled? c p rest = none := by
      cases rest with
      | nil => rfl
      | cons d more =>
        refine if_neg ?_
        rintro rfl
        exact hno (hsecond.mpr ⟨more, rfl⟩)
    rw [hnone]

theorem punctuation_eq (h : Rests source (pos + 1) rest) :
    punctuation source pos c = match cutPunct? c rest with
      | some r => some (.ok (.punct r.1, pos + r.1.text.length))
      | none =>
        if c = '&' ∨ c = '|' then some (.error (.unexpectedToken (String.ofList [c]) pos))
        else none := by
  rw [punctuation, cutPunct?]
  cases hp : singlePunct? c with
  | some p =>
    have hlength : p.text.length = 1 := by
      rw [← String.length_toList, singlePunct?_text hp]
      rfl
    dsimp only
    rw [hlength]
  | none =>
    dsimp only
    split
    · rw [equals_eq h rfl rfl rfl]
    split
    · rw [equals_eq h rfl rfl rfl]
    split
    · rw [equal_eq h rfl rfl]
    split
    · rw [equal_eq h rfl rfl]
    split
    · next hc =>
      rw [doubled_eq h rfl rfl, hc]
      cases doubled? '&' .andAnd rest <;> rfl
    split
    · next hc =>
      rw [doubled_eq h rfl rfl, hc]
      cases doubled? '|' .orOr rest <;> rfl
    · next hamp hbar => rw [if_neg (not_or.mpr ⟨hamp, hbar⟩)]

theorem cutString_le {quote : Char} {start stop : Nat} {seen after : List Char}
    (h : cutString quote start pos seen cs = .ok (text, stop, after)) : pos ≤ stop := by
  fun_induction cutString quote start pos seen cs <;> simp_all <;> omega

/-- A byte of a character of several bytes begins a word or nothing. -/
theorem token_wide (h : c.utf8Size ≠ 1) : token source pos c = word source pos := by
  have hne : ∀ d, d.utf8Size = 1 → c ≠ d := fun d => ne_of_wide h
  simp [token, punctuation, narrow_isAsciiDigit.eq_false h, singlePunct?_wide h, hne '.' rfl, hne '=' rfl,
    hne '!' rfl, hne '<' rfl, hne '>' rfl, hne '&' rfl, hne '|' rfl, hne '\'' rfl, hne '"' rfl]

theorem lexToken_wide (h : c.utf8Size ≠ 1) : lexToken pos c rest = cutWord pos c rest := by
  have hne : ∀ d, d.utf8Size = 1 → c ≠ d := fun d => ne_of_wide h
  simp [lexToken, cutPunct?, cutWord, narrow_isAsciiDigit.eq_false h, singlePunct?_wide h, hne '.' rfl,
    hne '=' rfl, hne '!' rfl, hne '<' rfl, hne '>' rfl, hne '&' rfl, hne '|' rfl, hne '\'' rfl, hne '"' rfl]

theorem token_number (h : Rests source pos (c :: rest)) (hrest : Rests source (pos + 1) rest)
    (hnumber : (isAsciiDigit c || (c == '.' && startsWithDigit rest)) = true) :
    token source pos c = some ((lexToken pos c rest).map fun cut => (cut.token, pos + cut.bytes)) := by
  rw [token, hrest.digitAt, if_pos hnumber, number_eq h hnumber, lexToken, if_pos hnumber]
  dsimp only
  rw [(spanNumber_parts hnumber).2.byteLength_eq]
  cases readFloat? (spanNumber (c :: rest)).1 <;> rfl

theorem token_quote (hquote : IsQuote c) (hrest : Rests source (pos + 1) rest) :
    token source pos c = some ((lexToken pos c rest).map fun cut => (cut.token, pos + cut.bytes)) := by
  have htoken : token source pos c = string source c pos (source.length + 1) (pos + 1) [] := by
    rcases hquote with rfl | rfl <;> rfl
  rw [htoken, string_eq (Ne.symm hquote.ne_slash) hrest hrest.length_le, lexToken_quote hquote]
  cases hcut : cutString c pos (pos + 1) [] rest with
  | error e => rfl
  | ok r =>
    obtain ⟨text, stop, after⟩ := r
    have hle := cutString_le hcut
    have hstop : pos + (stop - pos) = stop := by omega
    simp only [Except.map, hstop]

theorem token_eq (h : Rests source pos (c :: rest)) : token source pos (lead c) =
    some ((lexToken pos c rest).map fun cut => (cut.token, pos + cut.bytes)) := by
  by_cases hwide : c.utf8Size ≠ 1
  · rw [token_wide (lead_of_wide hwide), lexToken_wide hwide, word_eq h]
  have hnarrow : c.utf8Size = 1 := not_not.mp hwide
  have hrest : Rests source (pos + 1) rest := hnarrow ▸ h.cons
  rw [lead_of_narrow hnarrow]
  by_cases hnumber : (isAsciiDigit c || (c == '.' && startsWithDigit rest)) = true
  · exact token_number h hrest hnumber
  by_cases hquote : IsQuote c
  · exact token_quote hquote hrest
  rw [token, hrest.digitAt, if_neg hnumber, punctuation_eq hrest, lexToken, if_neg hnumber]
  replace hquote : ¬ (c = '\'' || c = '"') = true := by simpa [IsQuote] using hquote
  cases cutPunct? c rest with
  | some r => rfl
  | none =>
    dsimp only
    rw [if_neg hquote, if_neg hquote]
    by_cases hlone : c = '&' ∨ c = '|'
    · have hstart : ¬ isIdentStart c = true := by
        rcases hlone with rfl | rfl <;> decide
      rw [if_pos hlone, if_neg hstart]
      rfl
    · rw [if_neg hlone, word_eq h]
      rfl

/-! ### The whole source -/

theorem lexFrom_ok {cut : Cut} (hc : ¬ isAsciiBlank c = true) (h : lexToken pos c rest = .ok cut) :
    lexFrom pos (c :: rest) =
      Lexing.cons ⟨cut.token, pos, pos + cut.bytes⟩ (lexFrom (pos + cut.bytes) cut.rest) := by
  rw [lexFrom, if_neg hc]
  split
  · next heq =>
    cases h.symm.trans heq
    rfl
  · next heq => cases h.symm.trans heq

theorem lexFrom_error {e : ParseError} (hc : ¬ isAsciiBlank c = true) (h : lexToken pos c rest = .error e) :
    lexFrom pos (c :: rest) = ⟨[], .error e⟩ := by
  rw [lexFrom, if_neg hc]
  split
  · next heq => cases h.symm.trans heq
  · next heq =>
    cases h.symm.trans heq
    rfl

theorem lexFrom_skip (h : Rests source pos cs) :
    lexFrom pos cs = lexFrom (skip source isAsciiBlank pos) (cs.dropWhile isAsciiBlank) := by
  rw [h.skip narrow_isAsciiBlank]
  clear h
  induction cs generalizing pos with
  | nil => rfl
  | cons c rest ih =>
    by_cases hc : isAsciiBlank c = true
    · rw [List.takeWhile_cons_of_pos hc, List.dropWhile_cons_of_pos hc, byteLength_cons,
        narrow_isAsciiBlank c hc, ← Nat.add_assoc, ← ih, lexFrom, if_pos hc]
    · rw [List.takeWhile_cons_of_neg hc, List.dropWhile_cons_of_neg hc]
      rfl

/-- Every character takes one step of the loop at most. -/
theorem scanFrom_eq {fuel : Nat} (h : Rests source pos cs) (hfuel : cs.length < fuel) :
    scanFrom source fuel pos = some (lexFrom pos cs) := by
  induction fuel generalizing pos cs with
  | zero => cases hfuel
  | succ fuel ih =>
    have hstart := h.dropWhile narrow_isAsciiBlank
    have hblank := List.head?_dropWhile_not isAsciiBlank cs
    have hless := length_dropWhile_le isAsciiBlank cs
    rw [lexFrom_skip h, scanFrom]
    generalize skip source isAsciiBlank pos = start at *
    cases hcs : cs.dropWhile isAsciiBlank with
    | nil =>
      rw [hcs] at hstart
      rw [hstart.peek_nil, lexFrom]
    | cons c rest =>
      rw [hcs] at hstart hblank hless
      have hc : ¬ isAsciiBlank c = true := by simpa using hblank
      rw [List.length_cons] at hless
      rw [hstart.peek_cons]
      dsimp only
      rw [token_eq hstart]
      cases hcut : lexToken start c rest with
      | error e =>
        rw [lexFrom_error hc hcut]
        rfl
      | ok cut =>
        obtain ⟨text, htext, -, hbytes⟩ := lexToken_writes hcut
        have hrest : Rests source (start + cut.bytes) cut.rest := by
          rw [hbytes]
          rw [htext] at hstart
          exact hstart.append
        have hshorter := lexToken_shorter hcut
        rw [lexFrom_ok hc hcut, Except.map]
        dsimp only
        rw [ih hrest (by omega)]
        rfl

end Cursor

/-- Going through the bytes gives the tokens of the text: no slice begins or ends inside a character, and the
loops end. -/
theorem scan_eq_lex (source : String) : Cursor.scan source = some (lex source) := by
  have hlength : source.toList.length ≤ source.utf8ByteSize := by
    rw [← byteLength_toList]
    exact length_le_byteLength _
  exact Cursor.scanFrom_eq (Cursor.Rests.start source.toList) (Nat.lt_succ_of_le hlength)

end TreeTemplate.Lexer
