import TreeTemplate.Text.Blank
import TreeTemplate.Value.Json

/-!
Arithmetic and comparison between values of any types.  `+` joins texts as soon as one side is a
text; order compares two texts by code points and everything else as numbers.
-/

namespace TreeTemplate.Value

def notANumber : Float :=
  0.0 / 0.0

/-- The number that a value counts as.  A text counts as the number it spells between blanks, a list
of one as its item. -/
def toNumber : Value → Float
  | .null => 0.0
  | .bool b => if b then 1.0 else 0.0
  | .number n => n.toFloat
  | .string s =>
    let cs := Text.trimChars s.toList
    if cs.isEmpty then 0.0 else (Number.readFloat? cs).getD notANumber
  | .array [] => 0.0
  | .array [v] => toNumber v
  | .array (_ :: _ :: _) => notANumber
  | .object _ => notANumber

def isString : Value → Bool
  | .string _ => true
  | _ => false

/-- The sum, or the joined texts if one side is a text. -/
def add (a b : Value) : Value :=
  if a.isString || b.isString then ofChars (a.displayChars ++ b.displayChars)
  else ofFloat (a.toNumber + b.toNumber)

def arithmetic (op : Float → Float → Float) (a b : Value) : Value :=
  ofFloat (op a.toNumber b.toNumber)

/-- Equality without conversion, except that numbers are equal whichever way they are stored. -/
def strictEquals : Value → Value → Bool
  | .number a, .number b => a.toFloat == b.toFloat
  | a, b => same a b

/-- Equality with conversion: `null` equals only itself, and a number, boolean or numeric text
compare as numbers unless both are texts. -/
def looseEquals : Value → Value → Bool
  | .null, .null => true
  | .null, _ => false
  | _, .null => false
  | .number a, .number b => a.toFloat == b.toFloat
  | .number a, .bool b => a.toFloat == toNumber (.bool b)
  | .number a, .string b => a.toFloat == toNumber (.string b)
  | .bool a, .number b => toNumber (.bool a) == b.toFloat
  | .bool a, .bool b => toNumber (.bool a) == toNumber (.bool b)
  | .bool a, .string b => toNumber (.bool a) == toNumber (.string b)
  | .string a, .number b => toNumber (.string a) == b.toFloat
  | .string a, .bool b => toNumber (.string a) == toNumber (.bool b)
  | a, b => strictEquals a b

/-- Order of two numbers; none if one of them is not a number. -/
def compareNumbers (x y : Float) : Option Ordering :=
  if x < y then some .lt
  else if x == y then some .eq
  else if y < x then some .gt
  else none

def order? : Value → Value → Option Ordering
  | .string a, .string b => some (if a < b then .lt else if a == b then .eq else .gt)
  | a, b => compareNumbers a.toNumber b.toNumber

end TreeTemplate.Value
