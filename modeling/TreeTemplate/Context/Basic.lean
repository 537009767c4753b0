import TreeTemplate.Function.Registry

/-!
Evaluation contexts: the data an expression sees, the variables over it and the functions it may
call.  A child starts from a copy of its parent's variables; nothing flows back.
-/

namespace TreeTemplate

abbrev Variables := Dict Value

/-- The variable that holds the current data. -/
def thisName : String :=
  "$this"

/-- The variable that holds the data of the root context. -/
def topName : String :=
  "$top"

/-- The variable that holds the position of a list item. -/
def indexName : String :=
  "$index"

/-- The variable that holds the length of the list being repeated. -/
def lengthName : String :=
  "$length"

/-- The name that stands for a snapshot of the context itself. -/
def contextName : String :=
  "$context"

/-- The variable whose value a failed evaluation gives. -/
def defaultName : String :=
  "$default"

structure Context where
  vars : Variables
  data : Value
  functions : Registry

namespace Context

/-- The data that names are looked up in: `null` counts as the empty text. -/
def dataOf : Value → Value
  | .null => .string ""
  | v => v

def empty (functions : Registry) : Context :=
  ⟨[], .string "", functions⟩

def bindData (c : Context) (data : Value) : Context :=
  { c with vars := Dict.put c.vars thisName data, data := dataOf data }

/-- Start over as a root context: the globals, then `$top` and `$this`. -/
def resetRoot (c : Context) (data : Value) (globals : Variables) : Context :=
  bindData { c with vars := Dict.put globals topName data } data

def resetChild (c : Context) (data : Value) (parent : Context) : Context :=
  bindData { c with vars := parent.vars, functions := parent.functions } data

def root (data : Value) (globals : Variables) (functions : Registry) : Context :=
  (empty functions).resetRoot data globals

/-- A child of `parent` over `data`: it inherits all variables and rebinds `$this`. -/
def child (parent : Context) (data : Value) : Context :=
  (empty parent.functions).resetChild data parent

def lookup? (c : Context) (name : String) : Option Value :=
  Dict.get? c.vars name

def setVariable (c : Context) (name : String) (v : Value) : Context :=
  { c with vars := Dict.put c.vars name v }

/-- Record the position in a list of `count` items. -/
def setPosition (c : Context) (index count : Nat) : Context :=
  (c.setVariable indexName (.ofNat index)).setVariable lengthName (.ofNat count)

/-- A child for one item of a list. -/
def item (parent : Context) (data : Value) (index count : Nat) : Context :=
  (parent.child data).setPosition index count

def clear (c : Context) : Context :=
  { c with vars := [], data := .null }

def defaultValue (c : Context) : Value :=
  (c.lookup? defaultName).getD .null

/-- Every variable in order of name, and the data under `data`. -/
def snapshot (c : Context) : Value :=
  .object (Dict.put (Dict.sorted c.vars) "data" c.data)

end Context

end TreeTemplate
