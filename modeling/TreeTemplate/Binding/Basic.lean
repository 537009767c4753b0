/-!
Binding attributes: what a node asks of a render, and the fingerprint that tells nodes with the same
bindings.
-/

namespace TreeTemplate

inductive Binding where
  /-- Which value the node stands for; a list multiplies the node. -/
  | select
  /-- Whether the node is shown and visited. -/
  | gate
  /-- Attributes, variables and properties to set. -/
  | values
  /-- Variables to set. -/
  | vars
  /-- Expressions to run. -/
  | eval
  /-- A template to put in the node's place. -/
  | include
  /-- What the node contains. -/
  | content
  /-- Whether to leave the node's content alone. -/
  | skip
  /-- Whether to hide the node. -/
  | hide
  /-- Whether to show the node. -/
  | show
  /-- A fixed identity. -/
  | id
  /-- A computed identity. -/
  | idExpr
  /-- Whether new content replaces what is there. -/
  | overwrite
  /-- Auxiliary data to set. -/
  | data
  deriving DecidableEq, Repr

inductive BindingForm where
  /-- One expression. -/
  | scalar
  /-- Labelled expressions between bars. -/
  | list
  /-- Statements between semicolons. -/
  | sequence
  /-- A name after `#`, or one expression. -/
  | reference
  /-- A plain text. -/
  | literal
  deriving DecidableEq, Repr

namespace Binding

/-- Every binding, in the order that fingerprints list them. -/
def all : List Binding :=
  [.select, .gate, .values, .vars, .eval, .include, .content, .skip, .hide, .show, .id, .idExpr,
    .overwrite, .data]

/-- The name of the binding's attribute after the common beginning of all of them. -/
def suffix : Binding → String
  | .select => "select"
  | .gate => "if"
  | .values => "values"
  | .vars => "vars"
  | .eval => "eval"
  | .include => "include"
  | .content => "content"
  | .skip => "skip"
  | .hide => "hide"
  | .show => "show"
  | .id => "id"
  | .idExpr => "idexpr"
  | .overwrite => "overwrite"
  | .data => "data"

def ofSuffix? (s : String) : Option Binding :=
  all.find? fun b => b.suffix = s

def form : Binding → BindingForm
  | .values | .vars | .data => .list
  | .eval => .sequence
  | .include => .reference
  | .id | .overwrite => .literal
  | _ => .scalar

end Binding

/-- A binding as it is written: its kind and the attribute's value. -/
abbrev RawBinding := Binding × String

/-- A character of a value inside a fingerprint; the separators and the escape itself are escaped. -/
def fingerprintChar (c : Char) : List Char :=
  if c = '%' then ['%', '2', '5']
  else if c = '&' then ['%', '2', '6']
  else if c = '=' then ['%', '3', 'D']
  else [c]

def fingerprintPart (r : RawBinding) : List Char :=
  r.1.suffix.toList ++ '=' :: r.2.toList.flatMap fingerprintChar

def fingerprintChars (raw : List RawBinding) : List Char :=
  ['&'].intercalate (raw.map fingerprintPart)

def fingerprint (raw : List RawBinding) : String :=
  String.ofList (fingerprintChars raw)

end TreeTemplate
