import TreeTemplate.Context.Basic
import TreeTemplate.Expression.Basic
import TreeTemplate.Value.Coercion

/-!
Evaluating expressions.  Operands are evaluated from left to right and the first error ends the
evaluation; variables assigned before it stay assigned.
-/

namespace TreeTemplate

inductive EvalError where
  /-- The name is neither a variable nor a property of the data. -/
  | unresolved (name : String)
  /-- A property of `null` was asked for. -/
  | propertyOfNull (property : String)
  | unknownFunction (name : String)
  | function (e : FunctionError)
  /-- The source text does not parse. -/
  | compileFailed (source : String)
  deriving DecidableEq, Repr

def EvalError.message : EvalError → String
  | unresolved name => name ++ " is not defined"
  | propertyOfNull property => "Type error: cannot read property '" ++ property ++ "' of null"
  | unknownFunction name => "Unknown function: " ++ name
  | function e => e.message
  | compileFailed source => "Expression '" ++ source ++ "' failed to compile"

namespace Eval

/-- The largest text length and list index plus one. -/
def sizeBound : Nat :=
  Nat.pow 2 64

/-- A property of a value.  Texts and lists have a length, lists have their indexes in decimal, and
what is missing is `null`. -/
def member (base : Value) (property : String) : Except EvalError Value :=
  match base with
  | .null => .error (.propertyOfNull property)
  | .object entries => .ok ((Dict.get? entries property).getD .null)
  | .string s => .ok (if property = "length" then .ofNat s.length else .null)
  | .array items =>
    .ok (if property = "length" then .ofNat items.length
      else
        match Number.readNat? sizeBound property.toList with
        | some i => (items[i]?).getD .null
        | none => .null)
  | _ => .ok .null

/-- The list index that a number is, if it is stored as a whole number. -/
def position? : Num → Option Nat
  | .whole n => if 0 ≤ n then some n.toNat else none
  | .real _ => none

/-- The item, character or property of a value at an index. -/
def indexed (base index : Value) : Except EvalError Value :=
  match base, index with
  | .null, i => .error (.propertyOfNull i.display)
  | .array items, .number n => .ok (((position? n).bind fun i => items[i]?).getD .null)
  | .string s, .number n =>
    .ok (((position? n).bind fun i => s.toList[i]?).elim .null fun c => .string (String.ofList [c]))
  | base, i => member base i.display

/-- What a bare name stands for: a variable, the context itself, or a property of the data. -/
def resolve (c : Context) (name : String) : Except EvalError Value :=
  match c.lookup? name with
  | some v => .ok v
  | none =>
    if name = contextName then .ok c.snapshot
    else
      match c.data with
      | .object entries =>
        match Dict.get? entries name with
        | some v => .ok v
        | none => .error (.unresolved name)
      | _ => .error (.unresolved name)

def call (c : Context) (name : String) (args : List Value) : Except EvalError Value :=
  match c.functions.call? name args with
  | none => .error (.unknownFunction name)
  | some (.ok v) => .ok v
  | some (.error e) => .error (.function e)

def unary (op : UnaryOp) (v : Value) : Value :=
  match op with
  | .not => .bool (!v.isTruthy)
  | .negate => .ofFloat (-v.toNumber)
  | .plus => .ofFloat v.toNumber

def binary (op : BinaryOp) (a b : Value) : Value :=
  match op with
  | .add => Value.add a b
  | .subtract => Value.arithmetic (· - ·) a b
  | .multiply => Value.arithmetic (· * ·) a b
  | .divide => Value.arithmetic (· / ·) a b
  | .modulo => Value.arithmetic Number.remainder a b
  | .less => .bool (Value.order? a b == some .lt)
  | .lessEqual => .bool (Value.order? a b == some .lt || Value.order? a b == some .eq)
  | .greater => .bool (Value.order? a b == some .gt)
  | .greaterEqual => .bool (Value.order? a b == some .gt || Value.order? a b == some .eq)
  | .equal => .bool (Value.looseEquals a b)
  | .notEqual => .bool (!Value.looseEquals a b)
  | .strictEqual => .bool (Value.strictEquals a b)
  | .strictNotEqual => .bool (!Value.strictEquals a b)

/-- Whether a lazy operator is settled by its left operand. -/
def settles (op : LazyOp) (left : Value) : Bool :=
  match op with
  | .and => !left.isTruthy
  | .or => left.isTruthy

mutual

/-- The value of an expression, and the context with what the expression assigned. -/
def eval (c : Context) : Expr → Except EvalError Value × Context
  | .literal l => (.ok l.value, c)
  | .identifier name => (resolve c name, c)
  | .member base property =>
    match eval c base with
    | (.ok v, c) => (member v property, c)
    | r => r
  | .index base index =>
    match eval c base with
    | (.ok v, c) =>
      match eval c index with
      | (.ok i, c) => (indexed v i, c)
      | r => r
    | r => r
  | .call name args =>
    match evalAll c args with
    | (.ok vs, c) => (call c name vs, c)
    | (.error e, c) => (.error e, c)
  | .method receiver name args =>
    match eval c receiver with
    | (.ok v, c) =>
      match evalAll c args with
      | (.ok vs, c) => (call c name (v :: vs), c)
      | (.error e, c) => (.error e, c)
    | r => r
  | .unary op operand =>
    match eval c operand with
    | (.ok v, c) => (.ok (unary op v), c)
    | r => r
  | .binary op left right =>
    match eval c left with
    | (.ok a, c) =>
      match eval c right with
      | (.ok b, c) => (.ok (binary op a b), c)
      | r => r
    | r => r
  | .lazy op left right =>
    match eval c left with
    | (.ok a, c) => if settles op a then (.ok a, c) else eval c right
    | r => r
  | .conditional condition yes no =>
    match eval c condition with
    | (.ok v, c) => if v.isTruthy then eval c yes else eval c no
    | r => r
  | .array items =>
    match evalAll c items with
    | (.ok vs, c) => (.ok (.array vs), c)
    | (.error e, c) => (.error e, c)
  | .object entries =>
    match evalEntries c [] entries with
    | (.ok es, c) => (.ok (.object es), c)
    | (.error e, c) => (.error e, c)
  | .assign name value =>
    match eval c value with
    | (.ok v, c) => (.ok v, c.setVariable name v)
    | r => r

def evalAll (c : Context) : List Expr → Except EvalError (List Value) × Context
  | [] => (.ok [], c)
  | e :: rest =>
    match eval c e with
    | (.ok v, c) =>
      match evalAll c rest with
      | (.ok vs, c) => (.ok (v :: vs), c)
      | r => r
    | (.error e, c) => (.error e, c)

/-- The entries of an object from left to right, after those in `seen`.  A repeated key keeps its
first place and takes the last value. -/
def evalEntries (c : Context) (seen : Dict Value) :
    List (String × Expr) → Except EvalError (Dict Value) × Context
  | [] => (.ok seen, c)
  | (key, e) :: rest =>
    match eval c e with
    | (.ok v, c) => evalEntries c (Dict.put seen key v) rest
    | (.error e, c) => (.error e, c)

end

end Eval

end TreeTemplate
