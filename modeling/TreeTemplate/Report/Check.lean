import TreeTemplate.Binding.Cache
import TreeTemplate.Config.Basic

/-!
Checking the bindings of a document: every expression in them is parsed, and those that do not parse
are reported.
-/

namespace TreeTemplate

/-- The expressions inside the value of a binding. -/
def RawBinding.expressions (r : RawBinding) : List String :=
  match r.1.form with
  | .scalar => [r.2]
  | .list => (splitList r.2).filterMap fun token =>
      (Text.cutChars '=' token.toList).map fun p => String.ofList p.2
  | .sequence => splitSequence r.2
  | .reference => if (BindingSet.literalReference? r.2).isSome then [] else [r.2]
  | .literal => []

/-- The expressions inside some bindings, each with its binding. -/
def RawBinding.requests (raw : List RawBinding) : List (Binding × String) :=
  raw.flatMap fun r => (RawBinding.expressions r).map fun e => (r.1, e)

/-- An expression that does not parse, and where it stands. -/
structure Complaint where
  tag : String
  name : String
  expression : String
  error : ParseError

def Complaint.text (c : Complaint) : String :=
  "<" ++ c.tag ++ "> " ++ c.name ++ ": '" ++ Text.trim c.expression ++ "': " ++
    c.error.message

structure CheckReport where
  checked : Nat
  complaints : List Complaint

namespace CheckReport

/-- The complaint about an expression of a binding, if there is cause for one. -/
def complaint? (bindings : BindingCache) (tag : String) (b : Binding) (expression : String) :
    Option Complaint :=
  match parse expression with
  | .ok _ => none
  | .error e => some ⟨tag, bindings.attributeName b, expression, e⟩

/-- The expressions of a node, each with its binding. -/
def expressionsOf (bindings : BindingCache) (d : Document) (h : Handle) :
    List (Binding × String) :=
  RawBinding.requests (bindings.rawBindings d h)

/-- Check every expression of a document, in document order. -/
def ofDocument (config : Config) (d : Document) : CheckReport :=
  let bindings := BindingCache.new 0 config.attributePrefix
  let nodes := d.descendants Document.root
  { checked := (nodes.flatMap (expressionsOf bindings d)).length
    complaints := nodes.flatMap fun h => (expressionsOf bindings d h).filterMap fun e =>
      complaint? bindings ((d.tag? h).getD "?") e.1 e.2 }

def summary (r : CheckReport) : String :=
  toString r.checked ++ " expressions checked, " ++ toString r.complaints.length ++ " failed"

def lines (r : CheckReport) (quiet : Bool) : List String :=
  r.complaints.map Complaint.text ++ (if quiet then [] else [r.summary])

end CheckReport

end TreeTemplate
