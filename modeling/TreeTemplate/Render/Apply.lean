import TreeTemplate.Document.Edit
import TreeTemplate.Document.Writer
import TreeTemplate.Value.Json
import TreeTemplate.Value.Path

/-!
Putting values into a document: as attributes, as properties and as content.
-/

namespace TreeTemplate.Document

/-- Set an attribute to a value: `true` gives it its own name, `false` removes it, any other value
shows as text. -/
def setAttributeValue (d : Document) (h : Handle) (name : String) (v : Value) : Document :=
  match v with
  | .bool true => d.setAttribute h name name
  | .bool false => d.removeAttribute h name
  | v => d.setAttribute h name v.display

def assignProperty (d : Document) (h : Handle) (path : String) (v : Value) : Document :=
  d.modifyProperties h fun properties => Value.assignPath properties path v

/-- Whether a value is a text that begins like markup, blanks aside. -/
def looksLikeMarkup (v : Value) : Bool :=
  match v with
  | .string s => (Text.trimStartChars s.toList).head? = some '<'
  | _ => false

/-- Append what a value shows to a node: as markup if it looks like markup and parses, else as
text. -/
def appendValue (d : Document) (h : Handle) (v : Value) : Document :=
  if looksLikeMarkup v then
    match d.appendMarkup h v.display with
    | .ok d => d
    | .error _ => d.appendText h v.display
  else d.appendText h v.display

/-- Make a value the content of a node.  Content that is there already as it would be written stays,
and without `clear` any content stays. -/
def applyContent (d : Document) (h : Handle) (v : Value) (clear : Bool) : Document :=
  let text := v.display
  if d.innerMarkup h = text || !clear then d
  else
    let d := d.clearChildren h
    if text.isEmpty then d else d.appendValue h v

end TreeTemplate.Document
