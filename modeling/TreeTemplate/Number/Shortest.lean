import TreeTemplate.Number.Binary64

/-!
The fewest decimal digits that read back as the same binary64 number, found in exact integer
arithmetic: of all decimals in the interval of reals that round to the number, one with the fewest
digits, and of those the nearest.
-/

namespace TreeTemplate.Number

/-- A decimal `digits · 10 ^ exponent`. -/
structure Decimal where
  digits : Nat
  exponent : Int
  deriving DecidableEq, Repr

/-- Which way an exact half goes. -/
inductive Tie where
  | toEven
  | away
  deriving DecidableEq, Repr

/-- The quotient rounded to the nearest whole number. -/
def roundDiv (tie : Tie) (num den : Nat) : Nat :=
  let q := num / den
  let r := 2 * (num % den)
  if r < den then q
  else if den < r then q + 1
  else
    match tie with
    | .toEven => if q % 2 == 0 then q else q + 1
    | .away => q + 1

/-- A positive binary64 number with the interval of reals that round to it, all in units of
`num / den`. -/
structure Interval where
  value : Nat
  low : Nat
  high : Nat
  /-- Whether the ends themselves round to the number. -/
  closed : Bool
  num : Nat
  den : Nat

/-- The rounding interval of `m · 2 ^ q` for the parts of a positive number.  Below a power of two
the numbers lie twice as close, so there the interval reaches half as far down. -/
def Interval.ofParts (m : Nat) (q : Int) : Interval :=
  let narrow := m == Nat.pow 2 52 && q != -1074
  { value := 4 * m
    low := 4 * m - (if narrow then 1 else 2)
    high := 4 * m + 2
    closed := m % 2 == 0
    num := Nat.pow 2 (q - 2).toNat
    den := Nat.pow 2 (2 - q).toNat }

/-- Whether the decimal `d · up / down` lies in the interval. -/
def Interval.holds (i : Interval) (d up down : Nat) : Bool :=
  let x := d * up * i.den
  let low := i.low * i.num * down
  let high := i.high * i.num * down
  if i.closed then low ≤ x && x ≤ high else low < x && x < high

/-- The nearest decimal of the grid `10 ^ e` in the interval, if the grid has a point in it. -/
def Interval.onGrid? (i : Interval) (tie : Tie) (e : Int) : Option Decimal :=
  let up := Nat.pow 10 e.toNat
  let down := Nat.pow 10 (-e).toNat
  let num := i.value * i.num * down
  let den := up * i.den
  let below := num / den
  let nearest := roundDiv tie num den
  if i.holds nearest up down then some ⟨nearest, e⟩
  else if i.holds below up down then some ⟨below, e⟩
  else if i.holds (below + 1) up down then some ⟨below + 1, e⟩
  else none

/-- The exponent of the leading decimal digit of `num / den`, found by steps from a guess that is
never too high. -/
def leadingExponent (num den : Nat) : Nat → Int → Int
  | 0, e => e
  | steps + 1, e =>
    if den * Nat.pow 10 (e + 1).toNat ≤ num * Nat.pow 10 (-(e + 1)).toNat then
      leadingExponent num den steps (e + 1)
    else e

/-- The first grid with a point in the interval, from the coarsest of `count` grids on. -/
def Interval.firstGrid (i : Interval) (tie : Tie) : Nat → Int → Decimal
  | 0, e => ⟨i.value * i.num * Nat.pow 10 (-e).toNat / (Nat.pow 10 e.toNat * i.den), e⟩
  | count + 1, e => (i.onGrid? tie e).getD (i.firstGrid tie count (e - 1))

/-- Trailing zeros moved into the exponent. -/
def Decimal.strip (d : Decimal) : Decimal :=
  go d.digits d.digits d.exponent
where
  go : Nat → Nat → Int → Decimal
    | 0, n, e => ⟨n, e⟩
    | steps + 1, n, e => if n != 0 && n % 10 == 0 then go steps (n / 10) (e + 1) else ⟨n, e⟩

/-- The shortest decimal that reads back as `m · 2 ^ q`.  Seventeen digits always suffice. -/
def shortest (tie : Tie) (m : Nat) (q : Int) : Decimal :=
  if m == 0 then ⟨0, 0⟩
  else
    let i := Interval.ofParts m q
    let guess := ((Nat.log2 m : Int) + q) * 30103 / 100000 - 1
    let lead := leadingExponent (i.value * i.num) i.den 4 guess
    (i.firstGrid tie 17 lead).strip

end TreeTemplate.Number
