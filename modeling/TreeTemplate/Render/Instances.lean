import TreeTemplate.Document.Edit

/-!
The instances of a list.

A node bound to a list stands for one instance an item.  The instances carry their positions, so
that a later render finds them again: positions that are still there keep their node, the last
instance is copied when the list grows, and surplus instances are removed.
-/

namespace TreeTemplate

inductive ListChange where
  /-- The list is empty: the node stays behind, hidden, as its only instance. -/
  | conceal
  /-- The node is no instance yet: it becomes the last one, with copies before it. -/
  | spread
  /-- The node was the last instance, at this position: the new ones are copies after it. -/
  | grow (index : Nat)
  /-- The node is still the instance at this position. -/
  | keep (index : Nat)
  /-- There is no item for the node any more. -/
  | discard
  deriving DecidableEq, Repr

/-- What a list of `count` items makes of a node that carries the given position. -/
def ListChange.of (marker? : Option Marker) (count : Nat) : ListChange :=
  match marker? with
  | none => if count = 0 then .conceal else .spread
  | some m =>
    if count = 0 then
      if m.index = 0 then .conceal else .discard
    else if m.isLast && m.index + 1 < count then .grow m.index
    else if m.index < count then .keep m.index
    else .discard

namespace Document

def copiesBefore (h : Handle) : Nat → Document → List Handle × Document
  | 0, d => ([], d)
  | n + 1, d =>
    let (copy, d) := d.deepClone h
    let (copies, d) := copiesBefore h n (d.insertBefore copy h)
    (copy :: copies, d)

/-- Put `n` copies of a node one after another behind `anchor`. -/
def copiesAfter (h : Handle) : Nat → Handle → Document → List Handle × Document
  | 0, _, d => ([], d)
  | n + 1, anchor, d =>
    let (copy, d) := d.deepClone h
    let (copies, d) := copiesAfter h n copy (d.insertAfter copy anchor)
    (copy :: copies, d)

/-- Record on nodes the positions from `index` on in a list of `count` items. -/
def stampFrom (count : Nat) : Nat → List Handle → Document → Document
  | _, [], d => d
  | index, h :: rest, d =>
    stampFrom count (index + 1) rest (d.setMarker h (some ⟨index, index + 1 == count⟩))

end Document

/-- Some instances of a list in order: the position of the first, and their nodes. -/
structure Instances where
  first : Nat
  nodes : List Handle

/-- Carry out what a list of `count` items makes of a node.  Gives the instances that the node now
stands for, itself among them. -/
def ListChange.apply (change : ListChange) (h : Handle) (count : Nat) (d : Document) :
    Instances × Document :=
  match change with
  | .conceal => (⟨0, []⟩, (d.setMarker h (some ⟨0, true⟩)).setVisible h false)
  | .discard => (⟨0, []⟩, d.remove h)
  | .spread =>
    let (copies, d) := (d.setVisible h true).copiesBefore h (count - 1)
    (⟨0, copies ++ [h]⟩, d.stampFrom count 0 (copies ++ [h]))
  | .grow index =>
    let (copies, d) := (d.setVisible h true).copiesAfter h (count - 1 - index) h
    (⟨index, h :: copies⟩, d.stampFrom count index (h :: copies))
  | .keep index => (⟨index, [h]⟩, (d.setVisible h true).stampFrom count index [h])

end TreeTemplate
