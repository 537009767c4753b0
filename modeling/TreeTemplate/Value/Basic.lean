import TreeTemplate.Dict
import TreeTemplate.Number.Layout
import TreeTemplate.Number.Reading

/-!
Template values: the JSON data model, with whole numbers and floating-point numbers kept apart.
Holds the type, equality, truth, and the ways a value is turned into a text or a number.
-/

namespace TreeTemplate

/-- A number.  Whole numbers lie between `-2^63` and `2^64 - 1`; floating-point numbers are
finite. -/
inductive Num where
  | whole (n : Int)
  | real (x : Float)
  deriving DecidableEq

inductive Value where
  | null
  | bool (b : Bool)
  | number (n : Num)
  | string (s : String)
  | array (items : List Value)
  | object (entries : List (String × Value))
  deriving Inhabited

namespace Num

/-- The nearest floating-point number. -/
def toFloat : Num → Float
  | whole n => Float.ofInt n
  | real x => x

/-- Numbers of one kind are equal when their values are; a whole number never equals a
floating-point number. -/
def same : Num → Num → Bool
  | whole m, whole n => m == n
  | real x, real y => x == y
  | _, _ => false

/-- A floating-point number, provided it is finite. -/
def ofFloat? (x : Float) : Option Num :=
  match Number.parts x with
  | .finite _ _ _ => some (real x)
  | _ => none

def jsonChars : Num → List Char
  | whole n => Number.intChars n
  | real x => Number.Layout.json.chars x

/-- The number as plain text: floating-point numbers below `10^21` that are whole are written
exactly. -/
def plainChars : Num → List Char
  | whole n => Number.intChars n
  | real x =>
    match Number.toInt? x with
    | some n =>
      if n.natAbs < Nat.pow 10 21 then
        (if n == 0 && x.toBits != 0 then ['-'] else []) ++ Number.intChars n
      else Number.Layout.plain.chars x
    | none => Number.Layout.plain.chars x

end Num

namespace Value

def ofChars (cs : List Char) : Value :=
  .string (String.ofList cs)

def ofNat (n : Nat) : Value :=
  .number (.whole n)

/-- A result of arithmetic as a value: whole below `2^53`, `null` where it is not finite. -/
def ofFloat (x : Float) : Value :=
  match Number.toInt? x with
  | some n =>
    if n.natAbs < Nat.pow 2 53 then .number (.whole n) else .number (.real x)
  | none =>
    match Num.ofFloat? x with
    | some n => .number n
    | none => .null

mutual

/-- Structural equality.  Objects are equal when they have the same keys with equal values, in any
order. -/
def same : Value → Value → Bool
  | .null, .null => true
  | .bool a, .bool b => a == b
  | .number a, .number b => a.same b
  | .string a, .string b => a == b
  | .array xs, .array ys => sameItems xs ys
  | .object es, .object fs => es.length == fs.length && sameEntries es fs
  | _, _ => false

def sameItems : List Value → List Value → Bool
  | [], [] => true
  | x :: xs, y :: ys => same x y && sameItems xs ys
  | _, _ => false

/-- Whether every entry has an equal one at its key among `fs`. -/
def sameEntries : List (String × Value) → List (String × Value) → Bool
  | [], _ => true
  | (k, v) :: es, fs =>
    match Dict.get? fs k with
    | some w => same v w && sameEntries es fs
    | none => false

end

def typeName : Value → String
  | .null => "null"
  | .bool _ => "boolean"
  | .number _ => "number"
  | .string _ => "string"
  | .array _ => "array"
  | .object _ => "object"

/-- Whether the value counts as true: all but `null`, `false`, zero and the empty text. -/
def isTruthy : Value → Bool
  | .null => false
  | .bool b => b
  | .number n => n.toFloat != 0.0
  | .string s => !s.isEmpty
  | .array _ => true
  | .object _ => true

def isArray : Value → Bool
  | .array _ => true
  | _ => false

/-- The number of characters of a text or of items of a list. -/
def length? : Value → Option Nat
  | .string s => some s.length
  | .array items => some items.length
  | _ => none

end Value

end TreeTemplate
