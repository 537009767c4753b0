import TreeTemplate.Binding.Set
import TreeTemplate.Context.Run
import TreeTemplate.Render.Apply

/-!
Filling a node: applying to it, in a fixed order, every binding that leaves the node where it is.
-/

namespace TreeTemplate

/-- A node being filled: the document, the context of the node, and what callbacks have noted. -/
structure Filling where
  document : Document
  context : Context
  notes : List String

namespace Filling

def execute (f : Filling) (e : Evaluator) : Value × Filling :=
  let (v, c) := f.context.execute e
  (v, { f with context := c })

def holds (f : Filling) (condition? : Option Evaluator) : Bool × Filling :=
  match condition? with
  | some e =>
    let (v, f) := f.execute e
    (v.isTruthy, f)
  | none => (false, f)

def setVariable (f : Filling) (name : String) (v : Value) : Filling :=
  { f with context := f.context.setVariable name v }

def edit (f : Filling) (change : Document → Document) : Filling :=
  { f with document := change f.document }

/-- Evaluate labelled expressions in order and hand on each label with its value. -/
def each (put : Filling → String → Value → Filling) : Labelled → Filling → Filling
  | [], f => f
  | (label, e) :: rest, f =>
    let (v, f) := f.execute e
    each put rest (put f label v)

/-- What a label of `values` stands for: a variable after `$`, a property path after `.`, else an
attribute.  The empty label stands for nothing. -/
def putValue (node : Handle) (f : Filling) (label : String) (v : Value) : Filling :=
  match label.toList with
  | [] => f
  | '$' :: _ => f.setVariable label v
  | '.' :: path => f.edit fun d => d.assignProperty node (String.ofList path) v
  | _ => f.edit fun d => d.setAttributeValue node label v

def putData (node : Handle) (f : Filling) (label : String) (v : Value) : Filling :=
  f.edit fun d => d.setData node label v

/-- Run callbacks in order.  What fails is passed over. -/
def runCallbacks : List Callback → Filling → Filling
  | [], f => f
  | callback :: rest, f =>
    let outcome := callback f.context
    runCallbacks rest
      { f with context := outcome.context, notes := f.notes ++ outcome.notes }

/-- Evaluate statements in order for what they assign. -/
def runStatements : List Evaluator → Filling → Filling
  | [], f => f
  | e :: rest, f => runStatements rest (f.execute e).2

/-- Set the identity that the bindings ask for: a fixed one, else a computed one that is truthy. -/
def identify (idAttribute : String) (set : BindingSet) (node : Handle) (f : Filling) : Filling :=
  match set.id?, set.idExpr? with
  | some id, _ => f.edit fun d => d.setAttribute node idAttribute id
  | none, some e =>
    let (v, f) := f.execute e
    if v.isTruthy then f.edit fun d => d.setAttribute node idAttribute v.display else f
  | none, none => f

/-- Show or hide the node by its gate; true if the node is open. -/
def gate (set : BindingSet) (node : Handle) (f : Filling) : Bool × Filling :=
  match set.gate? with
  | none => (true, f)
  | some e =>
    let (v, f) := f.execute e
    (v.isTruthy, f.edit fun d => d.setVisible node v.isTruthy)

/-- Apply what sets variables, attributes, properties and data, then the callbacks, then the
statements. -/
def assign (set : BindingSet) (node : Handle) (f : Filling) : Filling :=
  let f := each setVariable (set.vars?.getD []) f
  let f := each (putValue node) (set.values?.getD []) f
  let f := each (putData node) (set.data?.getD []) f
  let f := runCallbacks (f.document.node node).callbacks f
  runStatements (set.eval?.getD []) f

/-- Show the node if its `show` holds, then hide it if its `hide` holds. -/
def reveal (set : BindingSet) (node : Handle) (f : Filling) : Filling :=
  let (shown, f) := f.holds set.show?
  let f := if shown then f.edit fun d => d.setVisible node true else f
  let (hidden, f) := f.holds set.hide?
  if hidden then f.edit fun d => d.setVisible node false else f

/-- Leave, replace or go into what is inside the node; true if its children are to be visited. -/
def settleContent (set : BindingSet) (node : Handle) (f : Filling) : Bool × Filling :=
  let (skipped, f) := f.holds set.skip?
  if skipped then (false, f)
  else
    match set.content? with
    | some e =>
      let (v, f) := f.execute e
      (false, f.edit fun d => d.applyContent node v set.clearsContent)
    | none => (true, f)

/-- Apply the bindings of an identified node; true if its children are to be visited. -/
def fill (set : BindingSet) (node : Handle) (f : Filling) : Bool × Filling :=
  match gate set node f with
  | (false, f) => (false, f)
  | (true, f) => settleContent set node (reveal set node (assign set node f))

end Filling

end TreeTemplate
