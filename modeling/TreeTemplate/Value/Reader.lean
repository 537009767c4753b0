import TreeTemplate.Value.Basic

/-!
Reading values from JSON text.  Whole numbers keep their exact value while they fit 64 bits; a
repeated key keeps its first place and its last value.  A reading is bounded in nesting, except
where a value is only skipped.
-/

namespace TreeTemplate.Json

/-- How carefully a value is read.  A value that is only skipped may nest to any depth, hold numbers
out of range and unpaired surrogates. -/
inductive Care where
  | full
  | skip
  deriving DecidableEq

/-- Blanks between the parts of a JSON text. -/
def isSpace (c : Char) : Bool :=
  c == ' ' || c == '\n' || c == '\t' || c == '\r'

/-- The text after its leading blanks. -/
def skipSpace (cs : List Char) : List Char :=
  cs.dropWhile isSpace

/-- The number that four hexadecimal digits spell, and the text after them. -/
def readUnit? : List Char → Option (Nat × List Char)
  | a :: b :: c :: d :: rest => do
    let a ← Number.hexValue? a
    let b ← Number.hexValue? b
    let c ← Number.hexValue? c
    let d ← Number.hexValue? d
    some (((a * 16 + b) * 16 + c) * 16 + d, rest)
  | _ => none

/-- The character of a `\u` escape, and the text after it: one unit, or a pair of surrogates. -/
def readUnicode? (care : Care) (cs : List Char) : Option (Char × List Char) := do
  let (high, rest) ← readUnit? cs
  if 0xD800 ≤ high && high < 0xE000 then
    match care with
    | .skip => some ('\ufffd', rest)
    | .full =>
      match rest with
      | '\\' :: 'u' :: more =>
        let (low, rest) ← readUnit? more
        if high < 0xDC00 && 0xDC00 ≤ low && low < 0xE000 then
          some (Char.ofNat (0x10000 + (high - 0xD800) * 0x400 + (low - 0xDC00)), rest)
        else none
      | _ => none
  else some (Char.ofNat high, rest)

def shortEscape? (c : Char) : Option Char :=
  match c with
  | '"' => some '"'
  | '\\' => some '\\'
  | '/' => some '/'
  | 'b' => some '\x08'
  | 'f' => some '\x0c'
  | 'n' => some '\n'
  | 'r' => some '\r'
  | 't' => some '\t'
  | _ => none

/-- The characters of a string up to its closing quote, and the text after the quote.  `seen` holds
those read, last first. -/
def readString? (care : Care) : Nat → List Char → List Char → Option (List Char × List Char)
  | 0, _, _ => none
  | fuel + 1, seen, cs =>
    match cs with
    | [] => none
    | '"' :: rest => some (seen.reverse, rest)
    | '\\' :: 'u' :: rest => do
      let (c, rest) ← readUnicode? care rest
      readString? care fuel (c :: seen) rest
    | '\\' :: c :: rest => do
      let c ← shortEscape? c
      readString? care fuel (c :: seen) rest
    | c :: rest => if c.toNat < 0x20 then none else readString? care fuel (c :: seen) rest

def readText? (care : Care) (cs : List Char) : Option (String × List Char) :=
  (readString? care (cs.length + 1) [] cs).map fun p => (String.ofList p.1, p.2)

/-- Digits at the front of a text, at least one. -/
def readDigits? (cs : List Char) : Option (List Char × List Char) :=
  let digits := cs.takeWhile Text.isAsciiDigit
  if digits.isEmpty then none else some (digits, cs.dropWhile Text.isAsciiDigit)

/-- The whole part of a number: no zero in front of other digits. -/
def readWhole? (cs : List Char) : Option (List Char × List Char) := do
  let (digits, rest) ← readDigits? cs
  match digits with
  | '0' :: _ :: _ => none
  | _ => some (digits, rest)

/-- The fraction of a number, if it has one. -/
def readFraction? (cs : List Char) : Option (Option (List Char) × List Char) :=
  match cs with
  | '.' :: rest => (readDigits? rest).map fun p => (some p.1, p.2)
  | _ => some (none, cs)

def readExponent? (cs : List Char) : Option (Option Int × List Char) :=
  match cs with
  | c :: rest =>
    if c == 'e' || c == 'E' then do
      let (negative, rest) := Number.splitSign rest
      let (digits, rest) ← readDigits? rest
      let n : Int := Number.digitsValue digits
      some (some (if negative then -n else n), rest)
    else some (none, cs)
  | [] => some (none, cs)

/-- The value of a number without a fraction or exponent. -/
def wholeNum (negative : Bool) (n : Nat) : Num :=
  if negative then
    if n == 0 || Nat.pow 2 63 < n then .real (Number.nearest true n 0) else .whole (-n)
  else if n < Nat.pow 2 64 then .whole n
  else .real (Number.nearest false n 0)

def readNumber? (care : Care) (negative : Bool) (cs : List Char) : Option (Num × List Char) := do
  let (whole, rest) ← readWhole? cs
  let (fraction, rest) ← readFraction? rest
  let (exponent, rest) ← readExponent? rest
  if fraction.isNone && exponent.isNone then
    some (wholeNum negative (Number.digitsValue whole), rest)
  else
    let d : Number.DecimalText := ⟨whole, fraction.getD [], exponent.getD 0⟩
    match Num.ofFloat? (d.toFloat negative), care with
    | some n, _ => some (n, rest)
    | none, .skip => some (.whole 0, rest)
    | none, .full => none

/-- The rest of the text after `word`. -/
def readWord? (word : List Char) (cs : List Char) : Option (List Char) :=
  if word.isPrefixOf cs then some (cs.drop word.length) else none

/-- The nesting left inside a list or object; none when the limit is reached. -/
def enter? (care : Care) (depth : Nat) : Option Nat :=
  match care with
  | .skip => some depth
  | .full => if depth ≤ 1 then none else some (depth - 1)

mutual

def readValue? (care : Care) : Nat → Nat → List Char → Option (Value × List Char)
  | 0, _, _ => none
  | fuel + 1, depth, cs =>
    match skipSpace cs with
    | 'n' :: rest => (readWord? ['u', 'l', 'l'] rest).map (.null, ·)
    | 't' :: rest => (readWord? ['r', 'u', 'e'] rest).map (.bool true, ·)
    | 'f' :: rest => (readWord? ['a', 'l', 's', 'e'] rest).map (.bool false, ·)
    | '"' :: rest => (readText? care rest).map fun p => (.string p.1, p.2)
    | '-' :: rest => (readNumber? care true rest).map fun p => (.number p.1, p.2)
    | '[' :: rest => do
      let depth ← enter? care depth
      match skipSpace rest with
      | ']' :: rest => some (.array [], rest)
      | rest => (readItems? care fuel depth [] rest).map fun p => (.array p.1, p.2)
    | '\x7b' :: rest => do
      let depth ← enter? care depth
      match skipSpace rest with
      | '\x7d' :: rest => some (.object [], rest)
      | rest => (readEntries? care fuel depth [] rest).map fun p => (.object p.1, p.2)
    | c :: rest =>
      if Text.isAsciiDigit c then
        (readNumber? care false (c :: rest)).map fun p => (.number p.1, p.2)
      else none
    | [] => none

/-- List items up to the closing bracket.  `seen` holds those read, last first. -/
def readItems? (care : Care) : Nat → Nat → List Value → List Char → Option (List Value × List Char)
  | 0, _, _, _ => none
  | fuel + 1, depth, seen, cs => do
    let (v, rest) ← readValue? care fuel depth cs
    match skipSpace rest with
    | ',' :: rest => readItems? care fuel depth (v :: seen) rest
    | ']' :: rest => some ((v :: seen).reverse, rest)
    | _ => none

/-- Object entries up to the closing brace. -/
def readEntries? (care : Care) :
    Nat → Nat → Dict Value → List Char → Option (Dict Value × List Char)
  | 0, _, _, _ => none
  | fuel + 1, depth, seen, cs =>
    match skipSpace cs with
    | '"' :: rest => do
      let (key, rest) ← readText? care rest
      match skipSpace rest with
      | ':' :: rest =>
        let (v, rest) ← readValue? care fuel depth rest
        match skipSpace rest with
        | ',' :: rest => readEntries? care fuel depth (Dict.put seen key v) rest
        | '\x7d' :: rest => some (Dict.put seen key v, rest)
        | _ => none
      | _ => none
    | _ => none

end

/-- The deepest nesting of lists and objects is one less than this. -/
def nestingLimit : Nat :=
  128

/-- The value at the front of a text, with `depth` bounding its nesting. -/
def readFront? (care : Care) (depth : Nat) (cs : List Char) : Option (Value × List Char) :=
  readValue? care (2 * cs.length + 2) depth cs

/-- The value that all of the text spells, with `depth` bounding its nesting. -/
def readAll? (depth : Nat) (cs : List Char) : Option Value :=
  match readFront? .full depth cs with
  | some (v, rest) => if (skipSpace rest).isEmpty then some v else none
  | none => none

def read? (s : String) : Option Value :=
  readAll? nestingLimit s.toList

end TreeTemplate.Json
