import TreeTemplate.Number.Binary64
import TreeTemplate.Text.Letters

/-!
Reading numbers from text.  A decimal is read as an exact `digits · 10 ^ exponent` and rounded once.
-/

namespace TreeTemplate.Number

open TreeTemplate.Text

def digitValue (c : Char) : Nat :=
  c.toNat - '0'.toNat

def digitsValue (cs : List Char) : Nat :=
  cs.foldl (fun n c => 10 * n + digitValue c) 0

/-- The binary64 number nearest to `± digits · 10 ^ exponent`.  Magnitudes far outside the range of
binary64 are settled without computing the power. -/
def nearest (negative : Bool) (digits : Nat) (exponent : Int) : Float :=
  let x : Float :=
    if digits == 0 then 0.0
    else
      let lead := (Nat.log2 digits : Int) * 30103 / 100000 + exponent
      if 400 < lead then 1.0 / 0.0
      else if lead < -400 then 0.0
      else Float.ofScientific digits (exponent < 0) exponent.natAbs
  if negative then -x else x

/-- An unsigned decimal split into its parts: whole digits, fraction digits, exponent. -/
structure DecimalText where
  whole : List Char
  fraction : List Char
  exponent : Int

def DecimalText.toFloat (d : DecimalText) (negative : Bool) : Float :=
  nearest negative (digitsValue (d.whole ++ d.fraction)) (d.exponent - d.fraction.length)

/-- A sign in front of a number; without one the number is not negative. -/
def splitSign : List Char → Bool × List Char
  | '-' :: rest => (true, rest)
  | '+' :: rest => (false, rest)
  | cs => (false, cs)

/-- The exponent part of a decimal, from its letter to the end of the text; no text is exponent
zero. -/
def readExponent? (cs : List Char) : Option Int :=
  match cs with
  | [] => some 0
  | c :: rest =>
    if c == 'e' || c == 'E' then
      let (negative, digits) := splitSign rest
      if digits.isEmpty || !digits.all isAsciiDigit then none
      else
        let n : Int := digitsValue digits
        some (if negative then -n else n)
    else none

/-- An unsigned decimal that fills the text: digits with at most one point among or around them, at
least one digit, then an optional exponent. -/
def readDecimal? (cs : List Char) : Option DecimalText :=
  let whole := cs.takeWhile isAsciiDigit
  let rest := cs.dropWhile isAsciiDigit
  let (fraction, rest) :=
    match rest with
    | '.' :: rest => (rest.takeWhile isAsciiDigit, rest.dropWhile isAsciiDigit)
    | rest => ([], rest)
  if whole.isEmpty && fraction.isEmpty then none
  else (readExponent? rest).map fun e => ⟨whole, fraction, e⟩

def asciiLower (c : Char) : Char :=
  if 'A' ≤ c && c ≤ 'Z' then Char.ofNat (c.toNat + 32) else c

/-- The number that all of the text spells: a decimal with an optional sign, or one of the words
`inf`, `infinity` and `nan` in any case. -/
def readFloat? (cs : List Char) : Option Float :=
  let (negative, body) := splitSign cs
  let word := String.ofList (body.map asciiLower)
  if word == "inf" || word == "infinity" then some (if negative then -1.0 / 0.0 else 1.0 / 0.0)
  else if word == "nan" then some (0.0 / 0.0)
  else (readDecimal? body).map (·.toFloat negative)

/-- The natural number below `bound` that all of the text spells in decimal, a leading `+`
allowed. -/
def readNat? (bound : Nat) (cs : List Char) : Option Nat :=
  let digits :=
    match cs with
    | '+' :: rest => rest
    | cs => cs
  if digits.isEmpty || !digits.all isAsciiDigit then none
  else
    let n := digitsValue digits
    if n < bound then some n else none

/-- The value of a hexadecimal digit of either case. -/
def hexValue? (c : Char) : Option Nat :=
  if '0' ≤ c && c ≤ '9' then some (c.toNat - '0'.toNat)
  else if 'a' ≤ c && c ≤ 'f' then some (c.toNat - 'a'.toNat + 10)
  else if 'A' ≤ c && c ≤ 'F' then some (c.toNat - 'A'.toNat + 10)
  else none

/-- The natural number below `bound` that all of the text spells in hexadecimal, a leading `+`
allowed. -/
def readHex? (bound : Nat) (cs : List Char) : Option Nat :=
  let digits :=
    match cs with
    | '+' :: rest => rest
    | cs => cs
  if digits.isEmpty then none
  else do
    let values ← digits.mapM hexValue?
    let n := values.foldl (fun n v => 16 * n + v) 0
    if n < bound then some n else none

/-- The character with code point `n`; surrogates and numbers out of range have none. -/
def scalar? (n : Nat) : Option Char :=
  if n.isValidChar then some (Char.ofNat n) else none

end TreeTemplate.Number
