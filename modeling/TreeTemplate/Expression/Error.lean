/-!
Why a source text is not an expression.  Positions are byte offsets into the source.
-/

namespace TreeTemplate

def nestingLimit : Nat :=
  256

inductive ParseError where
  /-- A token that cannot stand here. -/
  | unexpectedToken (token : String) (position : Nat)
  /-- Something else had to stand here. -/
  | expectedToken (expected : String) (position : Nat)
  /-- The source ends inside an expression of that many bytes. -/
  | unexpectedEnd (position : Nat)
  /-- A literal whose text names no value. -/
  | invalidLiteral (kind : String) (text : String) (position : Nat)
  /-- A backslash followed by something that is no escape. -/
  | invalidEscape (sequence : String) (position : Nat)
  /-- A string literal without its closing quote; the position is that of the opening one. -/
  | unclosedString (position : Nat)
  /-- The left side of `=` is not a variable; the position is that of the `=`. -/
  | invalidAssignment (position : Nat)
  /-- More levels than `nestingLimit`. -/
  | nestingTooDeep (position : Nat)
  /-- There is no token at all. -/
  | emptyExpression
  deriving DecidableEq, Repr

/-- The byte offset that the error points at. -/
def ParseError.position? : ParseError → Option Nat
  | unexpectedToken _ p => some p
  | expectedToken _ p => some p
  | unexpectedEnd p => some p
  | invalidLiteral _ _ p => some p
  | invalidEscape _ p => some p
  | unclosedString p => some p
  | invalidAssignment p => some p
  | nestingTooDeep p => some p
  | emptyExpression => none

def ParseError.message : ParseError → String
  | unexpectedToken token p => "Unexpected token '" ++ token ++ "' at position " ++ toString p
  | expectedToken expected p => "Expected " ++ expected ++ " at position " ++ toString p
  | unexpectedEnd p => "Unexpected end of input at position " ++ toString p
  | invalidLiteral kind text p =>
    "Invalid " ++ kind ++ " literal at position " ++ toString p ++ ": " ++ text
  | invalidEscape sequence p =>
    "Invalid escape sequence at position " ++ toString p ++ ": " ++ sequence
  | unclosedString p => "Unclosed string literal starting at position " ++ toString p
  | invalidAssignment p => "Invalid assignment target at position " ++ toString p
  | nestingTooDeep p =>
    "Expression nesting exceeds " ++ toString nestingLimit ++ " levels at position " ++ toString p
  | emptyExpression => "Empty expression"

end TreeTemplate
