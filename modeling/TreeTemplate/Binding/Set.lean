import TreeTemplate.Binding.Basic
import TreeTemplate.Expression.Cache

/-!
Binding sets: the compiled bindings that all nodes with one fingerprint share.
-/

namespace TreeTemplate

/-- What an include binding refers to. -/
inductive Inclusion where
  /-- The template of this id. -/
  | literal (id : String)
  /-- The template whose id the expression gives. -/
  | computed (e : Evaluator)

/-- Evaluators with the labels that their values go to. -/
abbrev Labelled := List (String × Evaluator)

/-- The bindings of a node, compiled. -/
structure BindingSet where
  /-- The fingerprint that the set was built for; empty for a node without bindings. -/
  fingerprint : String
  select? : Option Evaluator
  gate? : Option Evaluator
  values? : Option Labelled
  vars? : Option Labelled
  eval? : Option (List Evaluator)
  include? : Option Inclusion
  content? : Option Evaluator
  skip? : Option Evaluator
  hide? : Option Evaluator
  show? : Option Evaluator
  id? : Option String
  idExpr? : Option Evaluator
  overwrite? : Option String
  data? : Option Labelled

namespace BindingSet

def empty (fingerprint : String) : BindingSet :=
  ⟨fingerprint, none, none, none, none, none, none, none, none, none, none, none, none, none,
    none⟩

def isEmpty (s : BindingSet) : Bool :=
  s.fingerprint.isEmpty

/-- Whether new content replaces what is there: it does unless `overwrite` says anything but
`true`. -/
def clearsContent (s : BindingSet) : Bool :=
  match s.overwrite? with
  | none => true
  | some flag => flag = "true"

/-- The name after the mark of a literal reference. -/
def literalReference? (value : String) : Option String :=
  match value.toList with
  | '#' :: name => some (String.ofList name)
  | _ => none

def add (s : BindingSet) (c : Compiler) : RawBinding → BindingSet × Compiler
  | (.select, v) => let (e, c) := c.compile v; ({ s with select? := some e }, c)
  | (.gate, v) => let (e, c) := c.compile v; ({ s with gate? := some e }, c)
  | (.values, v) => let (es, c) := c.compileList v; ({ s with values? := some es }, c)
  | (.vars, v) => let (es, c) := c.compileList v; ({ s with vars? := some es }, c)
  | (.eval, v) => let (es, c) := c.compileSequence v; ({ s with eval? := some es }, c)
  | (.include, v) =>
    match literalReference? v with
    | some id => ({ s with include? := some (.literal id) }, c)
    | none => let (e, c) := c.compile v; ({ s with include? := some (.computed e) }, c)
  | (.content, v) => let (e, c) := c.compile v; ({ s with content? := some e }, c)
  | (.skip, v) => let (e, c) := c.compile v; ({ s with skip? := some e }, c)
  | (.hide, v) => let (e, c) := c.compile v; ({ s with hide? := some e }, c)
  | (.show, v) => let (e, c) := c.compile v; ({ s with show? := some e }, c)
  | (.id, v) => ({ s with id? := some v }, c)
  | (.idExpr, v) => let (e, c) := c.compile v; ({ s with idExpr? := some e }, c)
  | (.overwrite, v) => ({ s with overwrite? := some v }, c)
  | (.data, v) => let (es, c) := c.compileList v; ({ s with data? := some es }, c)

def addAll (s : BindingSet) (c : Compiler) : List RawBinding → BindingSet × Compiler
  | [] => (s, c)
  | r :: rest =>
    let (s, c) := s.add c r
    s.addAll c rest

def build (fingerprint : String) (raw : List RawBinding) (c : Compiler) : BindingSet × Compiler :=
  (empty fingerprint).addAll c raw

end BindingSet

end TreeTemplate
