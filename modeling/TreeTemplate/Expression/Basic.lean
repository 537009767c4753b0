import TreeTemplate.Value.Basic

/-!
Expression trees: the abstract syntax of binding expressions.
-/

namespace TreeTemplate

inductive UnaryOp where
  | not
  | negate
  | plus
  deriving DecidableEq, Repr

def UnaryOp.text : UnaryOp → String
  | not => "!"
  | negate => "-"
  | plus => "+"

/-- Operators between two operands that are both evaluated. -/
inductive BinaryOp where
  | multiply | divide | modulo
  | add | subtract
  | less | lessEqual | greater | greaterEqual
  | equal | notEqual | strictEqual | strictNotEqual
  deriving DecidableEq, Repr

def BinaryOp.text : BinaryOp → String
  | multiply => "*"
  | divide => "/"
  | modulo => "%"
  | add => "+"
  | subtract => "-"
  | less => "<"
  | lessEqual => "<="
  | greater => ">"
  | greaterEqual => ">="
  | equal => "=="
  | notEqual => "!="
  | strictEqual => "==="
  | strictNotEqual => "!=="

/-- Operators that look at their left operand before evaluating the right one. -/
inductive LazyOp where
  | and
  | or
  deriving DecidableEq, Repr

def LazyOp.text : LazyOp → String
  | .and => "&&"
  | .or => "||"

inductive Literal where
  | null
  | bool (b : Bool)
  | number (n : Num)
  | string (s : String)
  deriving DecidableEq

def Literal.value : Literal → Value
  | null => .null
  | bool b => .bool b
  | number n => .number n
  | string s => .string s

/-- A number as a literal: whole below `2^63`, `null` where it is not finite. -/
def Literal.ofFloat (x : Float) : Literal :=
  match Number.toInt? x with
  | some n => if n.natAbs < Nat.pow 2 63 then .number (.whole n) else .number (.real x)
  | none =>
    match Num.ofFloat? x with
    | some n => .number n
    | none => .null

inductive Expr where
  | literal (value : Literal)
  | identifier (name : String)
  | member (base : Expr) (property : String)
  | index (base index : Expr)
  | call (name : String) (args : List Expr)
  /-- A call written after its first argument. -/
  | method (receiver : Expr) (name : String) (args : List Expr)
  | unary (op : UnaryOp) (operand : Expr)
  | binary (op : BinaryOp) (left right : Expr)
  | lazy (op : LazyOp) (left right : Expr)
  | conditional (condition yes no : Expr)
  | array (items : List Expr)
  | object (entries : List (String × Expr))
  | assign (name : String) (value : Expr)
  deriving Inhabited

def Expr.isLiteral : Expr → Bool
  | literal _ => true
  | _ => false

end TreeTemplate
