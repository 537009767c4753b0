import Mathlib.Algebra.Ring.Nat
import TreeTemplate.Proofs.Document.Growth

/-!
Trees without handles.  The `Shape` of a tree keeps its records and forgets how the nodes are numbered,
so trees of one shape are the same up to the numbering of their nodes.
-/

namespace TreeTemplate

/-- A tree of records without handles and links. -/
inductive Shape where
  | node (record : Node) (kids : List Shape)

namespace Shape

open NodeTree (Outline)

def record : Shape → Node
  | node n _ => n

def kids : Shape → List Shape
  | node _ ks => ks

def isElement (σ : Shape) : Bool :=
  σ.record.isElement

/-- What holds of a node whenever it holds of its children holds of every shape. -/
theorem induct {P : Shape → Prop} (step : ∀ n ks, (∀ k ∈ ks, P k) → P (node n ks)) : ∀ σ, P σ
  | node n ks => step n ks fun k _ => induct step k

/-- The number of nodes. -/
def size : Shape → Nat
  | node _ ks => (ks.map size).sum + 1

/-- What the markup of a shape depends on. -/
def outline : Shape → Outline
  | node n ks => .node n.content n.visible (ks.map outline)

def chars (σ : Shape) : List Char :=
  σ.outline.chars

theorem chars_node (n : Node) (ks : List Shape) :
    (node n ks).chars = Document.nodeChars n (ks.flatMap chars) := by
  simp only [chars, outline, Outline.chars, List.flatMap_map]
  rfl

end Shape

namespace NodeTree

variable {t u : NodeTree} {ts us : List NodeTree} {h : Handle} {n : Node} {ks : List NodeTree}

/-- The tree without its handles and links. -/
def shape : NodeTree → Shape
  | node _ n ks => .node n.unlinked (ks.map shape)

theorem shape_node (h : Handle) (n : Node) (ks : List NodeTree) :
    (node h n ks).shape = .node n.unlinked (ks.map shape) := by
  rw [shape]

theorem shape_eq (t : NodeTree) : t.shape = .node t.record.unlinked (t.kids.map shape) := by
  cases t
  rw [shape_node]
  rfl

theorem record_shape (t : NodeTree) : t.shape.record = t.record.unlinked := by
  rw [shape_eq]
  rfl

theorem kids_shape (t : NodeTree) : t.shape.kids = t.kids.map shape := by
  rw [shape_eq]
  rfl

theorem isElement_shape (t : NodeTree) : t.shape.isElement = t.record.isElement := by
  rw [Shape.isElement, record_shape]
  rfl

theorem outline_shape (t : NodeTree) : t.shape.outline = t.outline := by
  induction t using NodeTree.induct with
  | step h n ks ih =>
    rw [shape_node, Shape.outline, outline, List.map_map]
    exact congrArg _ (List.map_congr_left ih)

theorem chars_shape (t : NodeTree) : t.shape.chars = t.chars := by
  rw [Shape.chars, outline_shape, chars]

theorem size_shape (t : NodeTree) : t.shape.size = t.size := by
  induction t using NodeTree.induct with
  | step h n ks ih =>
    rw [shape_node, Shape.size, List.map_map, List.map_congr_left (f := Shape.size ∘ shape) ih]
    simp only [size, entries, List.length_cons, List.length_flatMap]
    rfl

theorem Alike.shape_eq (htu : Alike t u) : u.shape = t.shape := by
  induction t using NodeTree.induct generalizing u with
  | step h n ks ih =>
    obtain ⟨hrecord, hkids⟩ := htu
    rw [shape_node, shape_node, hrecord, map_eq_of_forall₂ hkids fun k hk _ => ih k hk]

theorem flatMap_chars_shape (ts : List NodeTree) :
    (ts.map shape).flatMap Shape.chars = ts.flatMap chars := by
  rw [List.flatMap_map]
  exact List.flatMap_congr fun t _ => t.chars_shape

end NodeTree

end TreeTemplate
