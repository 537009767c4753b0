import TreeTemplate.Context.Callback
import TreeTemplate.Dict

/-!
Documents: an arena of nodes under handles.

Slots of removed nodes are used again under a new generation, so a handle to a removed node never
resolves to the node that took its slot.  Such a handle reads as the vacant node.  A write through
it lands on the vacant node, which is emptied first; no live node changes.
-/

namespace TreeTemplate

structure Handle where
  slot : Nat
  generation : UInt32
  deriving DecidableEq, Repr

/-- The position of a node among the instances of a list. -/
structure Marker where
  index : Nat
  /-- Whether this is the last instance. -/
  isLast : Bool
  deriving DecidableEq, Repr

/-- The identity of a binding cache: which cache, and how often it was cleared. -/
structure CacheId where
  owner : Nat
  epoch : Nat
  deriving DecidableEq, Repr

/-- The binding set recorded on a node: the cache that knows it and its place there. -/
structure BindingRef where
  cache : CacheId
  index : Nat
  deriving DecidableEq, Repr

inductive Content where
  | root
  | element (tag : String) (attributes : Dict String)
  | text (content : String)
  | comment (body : String)
  deriving DecidableEq

/-- A node with its links and everything recorded on it. -/
structure Node where
  content : Content
  parent? : Option Handle
  children : List Handle
  visible : Bool
  bindingRef? : Option BindingRef
  marker? : Option Marker
  properties : Dict Value
  data : Dict Value
  callbacks : List Callback

/-- A visible node without links or records. -/
def Node.new (content : Content) : Node :=
  ⟨content, none, [], true, none, none, [], [], []⟩

def Node.isElement (n : Node) : Bool :=
  match n.content with
  | .element _ _ => true
  | _ => false

def Node.tag? (n : Node) : Option String :=
  match n.content with
  | .element tag _ => some tag
  | _ => none

def Node.attribute? (n : Node) (name : String) : Option String :=
  match n.content with
  | .element _ attributes => Dict.get? attributes name
  | _ => none

/-- A place for a node, and how often it was vacated. -/
structure Slot where
  generation : UInt32
  node? : Option Node

structure Document where
  slots : Array Slot
  /-- Vacant slots, last vacated first. -/
  free : List Nat
  /-- What handles to removed nodes read as. -/
  vacant : Node
  /-- The number of changes that can show in the markup. -/
  mutations : Nat

namespace Document

/-- The handle of the root, whose children are the top-level nodes. -/
def root : Handle :=
  ⟨0, 0⟩

def empty : Document :=
  ⟨#[⟨0, some (Node.new .root)⟩], [], Node.new .root, 0⟩

def get? (d : Document) (h : Handle) : Option Node :=
  match d.slots[h.slot]? with
  | some s => if s.generation = h.generation then s.node? else none
  | none => none

def contains (d : Document) (h : Handle) : Bool :=
  (d.get? h).isSome

def node (d : Document) (h : Handle) : Node :=
  (d.get? h).getD d.vacant

/-- The node that a write through a handle starts from: the live node, or an empty one. -/
def writable (d : Document) (h : Handle) : Node :=
  (d.get? h).getD (Node.new .root)

def put (d : Document) (h : Handle) (n : Node) : Document :=
  match d.get? h with
  | some _ => { d with slots := d.slots.setIfInBounds h.slot ⟨h.generation, some n⟩ }
  | none => { d with vacant := n }

def modify (d : Document) (h : Handle) (f : Node → Node) : Document :=
  d.put h (f (d.writable h))

/-- Count a change of the markup. -/
def mutated (d : Document) : Document :=
  { d with mutations := d.mutations + 1 }

def alloc (d : Document) (n : Node) : Handle × Document :=
  match d.free with
  | slot :: rest =>
    let generation := ((d.slots[slot]?).map Slot.generation).getD 0
    (⟨slot, generation⟩,
      { d with slots := d.slots.setIfInBounds slot ⟨generation, some n⟩, free := rest })
  | [] => (⟨d.slots.size, 0⟩, { d with slots := d.slots.push ⟨0, some n⟩ })

/-- Take a live node out of its slot, which becomes vacant under the next generation. -/
def vacate (d : Document) (h : Handle) : Document :=
  { d with
    slots := d.slots.setIfInBounds h.slot ⟨h.generation + 1, none⟩
    free := h.slot :: d.free }

/-- The longest chain of distinct nodes in a document, the vacant node included, has at most this
length. -/
def reach (d : Document) : Nat :=
  d.slots.size + 1

/-- Vacate a node and everything below it, the last child first; `depth` bounds the chain of
children. -/
def releaseWithin : Nat → Handle → Document → Document
  | 0, _, d => d
  | depth + 1, h, d =>
    match d.get? h with
    | none => d
    | some n => n.children.foldr (releaseWithin depth) (d.vacate h)

/-- Vacate a node and everything below it. -/
def release (d : Document) (h : Handle) : Document :=
  releaseWithin d.reach h d

/-- The number of live nodes, the root and detached ones included. -/
def nodeCount (d : Document) : Nat :=
  d.slots.size - d.free.length

def parent? (d : Document) (h : Handle) : Option Handle :=
  (d.node h).parent?

def attribute? (d : Document) (h : Handle) (name : String) : Option String :=
  (d.node h).attribute? name

def tag? (d : Document) (h : Handle) : Option String :=
  (d.node h).tag?

/-- The children that are elements, in document order. -/
def elementChildren (d : Document) (h : Handle) : List Handle :=
  (d.node h).children.filter fun c => (d.node c).isElement

/-- A node and everything below it, in document order; `depth` bounds the chain of children. -/
def subtreeWithin (d : Document) : Nat → Handle → List Handle
  | 0, h => [h]
  | depth + 1, h => h :: (d.node h).children.flatMap (subtreeWithin d depth)

/-- A node and everything below it, in document order. -/
def subtree (d : Document) (h : Handle) : List Handle :=
  d.subtreeWithin d.reach h

/-- The elements among a node and everything below it, in document order. -/
def descendants (d : Document) (h : Handle) : List Handle :=
  (d.subtree h).filter fun c => (d.node c).isElement

def textContent (d : Document) (h : Handle) : String :=
  String.join ((d.subtree h).map fun c =>
    match (d.node c).content with
    | .text s => s
    | _ => "")

/-- The topmost node above `h`, found in at most `steps` steps. -/
def topWithin (d : Document) : Nat → Handle → Handle
  | 0, h => h
  | steps + 1, h =>
    match d.parent? h with
    | some p => topWithin d steps p
    | none => h

/-- Whether the root is reached from a node by going up. -/
def isAttached (d : Document) (h : Handle) : Bool :=
  d.topWithin d.reach h = root

/-- The first element of the document whose attribute `name` has the given value. -/
def find? (d : Document) (name value : String) : Option Handle :=
  (d.descendants root).find? fun h => d.attribute? h name = some value

end Document

end TreeTemplate
