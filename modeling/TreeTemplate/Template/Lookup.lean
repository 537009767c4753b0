import TreeTemplate.Binding.Cache

/-!
Templates: elements of a document found by their identity.  What the document does not hold a loader
may supply; loaded markup goes into a hidden container of the document.
-/

namespace TreeTemplate

/-- Markup for identities that the document does not hold. -/
abbrev Loader := String → Option String

structure Templates where
  /-- The attribute that carries the identity of a node. -/
  idAttribute : String
  /-- The identity of the hidden container that loaded templates are put into. -/
  containerId : String

/-- The outcome of looking for a template. -/
structure Found where
  node? : Option Handle
  document : Document
  /-- Whether the loader was asked. -/
  asked : Bool

namespace Templates

def named? (t : Templates) (d : Document) (id : String) : Option Handle :=
  d.find? t.idAttribute id

/-- The container of loaded templates, made if it is missing. -/
def container (t : Templates) (d : Document) : Handle × Document :=
  match t.named? d t.containerId with
  | some h => (h, d)
  | none => d.createHiddenContainer t.idAttribute t.containerId

/-- Look for a template again after the loader has answered.  Markup that does not parse supplies
nothing, but the container stays. -/
def findLoaded (t : Templates) (d : Document) (reference : String) (markup? : Option String) :
    Option Handle × Document :=
  match markup? with
  | none => (t.named? d reference, d)
  | some markup =>
    let (container, d) := t.container d
    match d.appendMarkup container markup with
    | .ok d => (t.named? d reference, d)
    | .error _ => (none, d)

/-- Look for a template in the document, and failing that ask the loader.  The empty reference names
nothing. -/
def find (t : Templates) (loader? : Option Loader) (d : Document) (reference : String) : Found :=
  if reference.isEmpty then ⟨none, d, false⟩
  else
    match t.named? d reference, loader? with
    | some h, _ => ⟨some h, d, false⟩
    | none, none => ⟨none, d, false⟩
    | none, some load =>
      let (node?, d) := t.findLoaded d reference (load reference)
      ⟨node?, d, true⟩

/-- A detached copy of a template without its identity.  The copied nodes know their binding
sets. -/
def clone (t : Templates) (s : Scan) (template : Handle) : Handle × Scan :=
  let s := s.prime template
  let (copy, d) := s.document.deepClone template
  (copy, { s with document := d.removeAttribute copy t.idAttribute })

end Templates

end TreeTemplate
