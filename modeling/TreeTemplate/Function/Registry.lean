import TreeTemplate.Value.Basic

/-!
Host functions that expressions may call by name, and what can go wrong in a call.
-/

namespace TreeTemplate

inductive FunctionError where
  /-- Too few or too many arguments; no `max` means any number from `min` on. -/
  | invalidArity (name : String) (min : Nat) (max : Option Nat) (actual : Nat)
  | invalidArgumentType (name : String) (index : Nat) (expected actual : String)
  | evaluation (name message : String)
  deriving DecidableEq, Repr

def FunctionError.message : FunctionError → String
  | invalidArity name min max actual =>
    let most :=
      match max with
      | some n => toString n
      | none => "∞"
    "Function '" ++ name ++ "' expects " ++ toString min ++ "-" ++ most ++ " arguments, got " ++
      toString actual
  | invalidArgumentType name index expected actual =>
    "Function '" ++ name ++ "' argument " ++ toString index ++ " expects " ++ expected ++
      ", got " ++ actual
  | evaluation name message => "Function '" ++ name ++ "' evaluation error: " ++ message

/-- A host function with the number of arguments it takes. -/
structure HostFunction where
  min : Nat
  /-- No bound if absent. -/
  max : Option Nat
  run : List Value → Except FunctionError Value

def HostFunction.takes (f : HostFunction) (n : Nat) : Bool :=
  f.min ≤ n &&
    match f.max with
    | some max => n ≤ max
    | none => true

structure Registry where
  functions : Dict HostFunction

namespace Registry

def empty : Registry :=
  ⟨[]⟩

/-- Add a function; it replaces an earlier one of the same name. -/
def register (r : Registry) (name : String) (f : HostFunction) : Registry :=
  ⟨Dict.put r.functions name f⟩

def contains (r : Registry) (name : String) : Bool :=
  Dict.has r.functions name

def size (r : Registry) : Nat :=
  r.functions.length

def names (r : Registry) : List String :=
  Dict.keys (Dict.sorted r.functions)

/-- Call a function; none if the name is unknown.  The number of arguments is checked before the
function runs. -/
def call? (r : Registry) (name : String) (args : List Value) :
    Option (Except FunctionError Value) :=
  match Dict.get? r.functions name with
  | none => none
  | some f =>
    if f.takes args.length then some (f.run args)
    else some (.error (.invalidArity name f.min f.max args.length))

end Registry

end TreeTemplate
