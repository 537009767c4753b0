import TreeTemplate.Number.Shortest

/-!
How numbers are written: the text of a whole number, the two spellings of a floating-point number,
and a fixed count of decimal places.
-/

namespace TreeTemplate.Number

/-- Decimal digits of a natural number, most significant first. -/
def natChars (n : Nat) : List Char :=
  Nat.toDigits 10 n

def intChars (n : Int) : List Char :=
  if n < 0 then '-' :: natChars n.natAbs else natChars n.natAbs

/-- A way of writing floating-point numbers. -/
structure Layout where
  /-- Which of two equally near shortest decimals is taken. -/
  tie : Tie
  /-- Exponents of the leading digit that are written positionally. -/
  positional : Int → Bool
  /-- Whether a whole number keeps `.0`. -/
  pointZero : Bool

/-- In JSON text the leading digit's exponent decides: from -5 up to 15 the number is positional and
always has a point, otherwise it has a signed exponent. -/
def Layout.json : Layout :=
  ⟨.toEven, fun e => -5 ≤ e && e < 16, true⟩

/-- Plain text never has an exponent and writes whole numbers without a point. -/
def Layout.plain : Layout :=
  ⟨.away, fun _ => true, false⟩

def zeros (n : Nat) : List Char :=
  List.replicate n '0'

/-- Positional text of `digits · 10 ^ e`. -/
def positionalChars (pointZero : Bool) (digits : List Char) (e : Int) : List Char :=
  if 0 ≤ e then digits ++ zeros e.toNat ++ (if pointZero then ['.', '0'] else [])
  else
    let places := (-e).toNat
    if digits.length ≤ places then ['0', '.'] ++ zeros (places - digits.length) ++ digits
    else digits.take (digits.length - places) ++ '.' :: digits.drop (digits.length - places)

/-- Text of `digits · 10 ^ e` with one digit before the point and a signed exponent. -/
def scientificChars (digits : List Char) (e : Int) : List Char :=
  let lead := e + digits.length - 1
  let tail := digits.drop 1
  digits.take 1 ++ (if tail.isEmpty then [] else '.' :: tail) ++
    ['e', if lead < 0 then '-' else '+'] ++ natChars lead.natAbs

/-- Text of a floating-point number in the given layout. -/
def Layout.chars (l : Layout) (x : Float) : List Char :=
  match parts x with
  | .nan => ['N', 'a', 'N']
  | .infinite negative => (if negative then ['-'] else []) ++ ['i', 'n', 'f']
  | .finite negative m q =>
    let d := shortest l.tie m q
    let digits := natChars d.digits
    let body :=
      if l.positional (d.exponent + digits.length - 1) then
        positionalChars l.pointZero digits d.exponent
      else scientificChars digits d.exponent
    if negative then '-' :: body else body

/-- Text of a floating-point number in the given layout. -/
def Layout.text (l : Layout) (x : Float) : String :=
  String.ofList (l.chars x)

/-- The exact value with `places` decimal places, an exact half going to the even neighbour. -/
def fixedText (places : Nat) (x : Float) : String :=
  match parts x with
  | .nan => "NaN"
  | .infinite negative => if negative then "-inf" else "inf"
  | .finite negative m q =>
    let n := roundDiv .toEven (m * Nat.pow 2 q.toNat * Nat.pow 10 places) (Nat.pow 2 (-q).toNat)
    let digits := natChars n
    let padded := zeros (places + 1 - digits.length) ++ digits
    let body :=
      if places == 0 then padded
      else padded.take (padded.length - places) ++ '.' :: padded.drop (padded.length - places)
    String.ofList (if negative then '-' :: body else body)

end TreeTemplate.Number
