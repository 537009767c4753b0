import TreeTemplate.Document.Basic
import TreeTemplate.Markup.Reader
import TreeTemplate.Markup.Style

/-!
Changing documents.  Every change that can show in the markup is counted; writing what is there
already is no change.
-/

namespace TreeTemplate.Document

def createElement (d : Document) (tag : String) : Handle × Document :=
  d.alloc (Node.new (.element tag []))

/-- Take a node out of its parent's children. -/
def detach (d : Document) (h : Handle) : Document :=
  let n := d.writable h
  let d := d.put h { n with parent? := none }
  match n.parent? with
  | some p => d.modify p fun n => { n with children := n.children.filter (· ≠ h) }
  | none => d

/-- Make a node a child of `parent`, changing the parent's children by `place`. -/
def link (d : Document) (parent h : Handle) (place : List Handle → List Handle) : Document :=
  let d := d.modify h fun n => { n with parent? := some parent }
  d.modify parent fun n => { n with children := place n.children }

def appendChild (d : Document) (parent h : Handle) : Document :=
  ((d.detach h).link parent h (· ++ [h])).mutated

/-- The parent of a node and the node's place among the children. -/
def position? (d : Document) (h : Handle) : Option (Handle × Nat) := do
  let parent ← (d.node h).parent?
  let index ← (d.node parent).children.idxOf? h
  some (parent, index)

/-- Put a node before the child at `index`. -/
def insertAt (d : Document) (h parent : Handle) (index : Nat) : Document :=
  (d.link parent h fun cs => cs.take index ++ h :: cs.drop index).mutated

/-- Make a node the previous sibling of `reference`. -/
def insertBefore (d : Document) (h reference : Handle) : Document :=
  let d := d.detach h
  match d.position? reference with
  | some (parent, index) => d.insertAt h parent index
  | none => d

/-- Make a node the next sibling of `reference`. -/
def insertAfter (d : Document) (h reference : Handle) : Document :=
  let d := d.detach h
  match d.position? reference with
  | some (parent, index) => d.insertAt h parent (index + 1)
  | none => d

/-- Put a node where `old` is; `old` loses its parent. -/
def replace (d : Document) (h old : Handle) : Document :=
  let d := d.detach h
  match d.position? old with
  | some (parent, index) =>
    let d := d.modify parent fun n => { n with children := n.children.set index h }
    let d := d.modify h fun n => { n with parent? := some parent }
    (d.modify old fun n => { n with parent? := none }).mutated
  | none => d

/-- Detach and discard a node with everything below it.  The root stays. -/
def remove (d : Document) (h : Handle) : Document :=
  match d.get? h with
  | none => d
  | some n =>
    if h = root then d
    else if n.parent?.isSome then (d.detach h).mutated.release h
    else d.release h

/-- Discard everything below a node. -/
def clearChildren (d : Document) (h : Handle) : Document :=
  let n := d.writable h
  let d := d.put h { n with children := [] }
  if n.children.isEmpty then d
  else (n.children.foldl release d).mutated

def setAttribute (d : Document) (h : Handle) (name value : String) : Document :=
  let n := d.writable h
  match n.content with
  | .element tag attributes =>
    if Dict.get? attributes name = some value then d
    else (d.put h { n with content := .element tag (Dict.put attributes name value) }).mutated
  | _ => d.put h n

def removeAttribute (d : Document) (h : Handle) (name : String) : Document :=
  let n := d.writable h
  match n.content with
  | .element tag attributes =>
    if Dict.has attributes name then
      (d.put h { n with content := .element tag (Dict.erase attributes name) }).mutated
    else d
  | _ => d.put h n

def setVisible (d : Document) (h : Handle) (visible : Bool) : Document :=
  let n := d.writable h
  if n.visible = visible then d.put h n
  else (d.put h { n with visible := visible }).mutated

def appendText (d : Document) (h : Handle) (text : String) : Document :=
  let (id, d) := d.alloc (Node.new (.text text))
  d.appendChild h id

/-- A parsed element as a node: of a repeated attribute the first place and the last value stay, and
a style that hides becomes the node's visibility. -/
def elementNode (tag : String) (attributes : List (String × String)) : Node :=
  let attributes := Dict.ofList attributes
  match Dict.get? attributes "style" with
  | none => Node.new (.element tag attributes)
  | some style =>
    let (hidden, rest) := Markup.takeHiddenStyle style
    if !hidden then Node.new (.element tag attributes)
    else
      let attributes :=
        if rest.isEmpty then Dict.erase attributes "style"
        else Dict.put attributes "style" rest
      { Node.new (.element tag attributes) with visible := false }

/-- Add a node as the last child of `parent`, without counting a change. -/
def plantNode (d : Document) (parent : Handle) (n : Node) : Handle × Document :=
  let (id, d) := d.alloc { n with parent? := some parent }
  (id, d.modify parent fun p => { p with children := p.children ++ [id] })

mutual

/-- Add parsed markup as the last child of `parent`, without counting a change. -/
def plant (d : Document) (parent : Handle) : Markup → Document
  | .element tag attributes children =>
    let (id, d) := d.plantNode parent (elementNode tag attributes)
    plantAll d id children
  | .text content => (d.plantNode parent (Node.new (.text content))).2
  | .comment body => (d.plantNode parent (Node.new (.comment body))).2

/-- Add parsed markup as the last children of `parent`, without counting a change. -/
def plantAll (d : Document) (parent : Handle) : List Markup → Document
  | [] => d
  | m :: rest => plantAll (plant d parent m) parent rest

end

def ofMarkup (source : String) : Except MarkupError Document :=
  (parseMarkup source).map fun nodes => plantAll empty root nodes

def appendMarkup (d : Document) (h : Handle) (source : String) : Except MarkupError Document :=
  (parseMarkup source).map fun nodes =>
    if nodes.isEmpty then d else (plantAll d h nodes).mutated

/-- Copy a node and everything below it; the copy becomes the last child of `parent?` if there is
one.  `depth` bounds the chain of children. -/
def copyWithin : Nat → Option Handle → Handle → Document → Handle × Document
  | depth, parent?, source, d =>
    let n := d.node source
    let (id, d) := d.alloc { n with parent? := parent?, children := [] }
    let d :=
      match parent? with
      | some p => d.modify p fun n => { n with children := n.children ++ [id] }
      | none => d
    match depth with
    | 0 => (id, d)
    | depth + 1 => (id, n.children.foldl (fun d c => (copyWithin depth (some id) c d).2) d)

/-- A detached copy of a node and everything below it, with all that is recorded on the nodes. -/
def deepClone (d : Document) (h : Handle) : Handle × Document :=
  copyWithin d.reach none h d

/-- Append a hidden `div` with the given attribute to the root. -/
def createHiddenContainer (d : Document) (name value : String) : Handle × Document :=
  let (id, d) := d.createElement "div"
  let d := d.setAttribute id name value
  let d := d.modify id fun n => { n with visible := false }
  (id, d.appendChild root id)

def setBindingRef (d : Document) (h : Handle) (r : BindingRef) : Document :=
  d.modify h fun n => { n with bindingRef? := some r }

/-- Record or clear the list position of a node. -/
def setMarker (d : Document) (h : Handle) (m : Option Marker) : Document :=
  d.modify h fun n => { n with marker? := m }

def modifyProperties (d : Document) (h : Handle) (f : Dict Value → Dict Value) : Document :=
  d.modify h fun n => { n with properties := f n.properties }

def setData (d : Document) (h : Handle) (name : String) (v : Value) : Document :=
  d.modify h fun n => { n with data := Dict.put n.data name v }

/-- Attach a callback to a node, after those attached before. -/
def attachCallback (d : Document) (h : Handle) (c : Callback) : Document :=
  d.modify h fun n => { n with callbacks := n.callbacks ++ [c] }

def detachCallbacks (d : Document) (h : Handle) : Document :=
  d.modify h fun n => { n with callbacks := [] }

/-- Start counting changes anew. -/
def resetMutations (d : Document) : Document :=
  { d with mutations := 0 }

end TreeTemplate.Document
