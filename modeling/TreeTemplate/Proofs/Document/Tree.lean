import Mathlib.Data.List.Nodup
import Mathlib.Data.List.Perm.Subperm
import TreeTemplate.Document.Writer
import TreeTemplate.Proofs.Document.Arena

/-!
Trees of nodes laid out in a document.  A `NodeTree` is a finite tree whose nodes carry their handles
and records; a document holds it when every record is stored under its handle and the links agree
with the shape.  Functions of a document that go down a bounded number of levels agree with plain
recursion on a tree that it holds.
-/

namespace TreeTemplate

/-- A node with its handle, its record and the trees of its children. -/
inductive NodeTree where
  | node (handle : Handle) (record : Node) (kids : List NodeTree)

namespace NodeTree

def handle : NodeTree → Handle
  | node h _ _ => h

def record : NodeTree → Node
  | node _ n _ => n

def kids : NodeTree → List NodeTree
  | node _ _ ks => ks

@[simp] theorem handle_node (h : Handle) (n : Node) (ks : List NodeTree) :
    (node h n ks).handle = h :=
  rfl

@[simp] theorem record_node (h : Handle) (n : Node) (ks : List NodeTree) :
    (node h n ks).record = n :=
  rfl

@[simp] theorem kids_node (h : Handle) (n : Node) (ks : List NodeTree) :
    (node h n ks).kids = ks :=
  rfl

/-- What holds of a node whenever it holds of its children holds of every tree. -/
theorem induct {P : NodeTree → Prop}
    (step : ∀ h n ks, (∀ k ∈ ks, P k) → P (node h n ks)) : ∀ t, P t
  | node h n ks => step h n ks fun k _ => induct step k

/-- The handles with their records, in document order. -/
def entries : NodeTree → List (Handle × Node)
  | node h n ks => (h, n) :: ks.flatMap entries

theorem top_mem_entries (t : NodeTree) : (t.handle, t.record) ∈ t.entries := by
  cases t
  simp [entries]

theorem mem_entries_of_kid {h : Handle} {n : Node} {ks : List NodeTree} {k : NodeTree}
    {e : Handle × Node} (hk : k ∈ ks) (he : e ∈ k.entries) : e ∈ (node h n ks).entries := by
  rw [entries]
  exact List.mem_cons_of_mem _ (List.mem_flatMap.mpr ⟨k, hk, he⟩)

def handles (t : NodeTree) : List Handle :=
  t.entries.map (·.1)

def size (t : NodeTree) : Nat :=
  t.entries.length

@[simp] theorem handles_node (h : Handle) (n : Node) (ks : List NodeTree) :
    (node h n ks).handles = h :: ks.flatMap handles := by
  simp only [handles, entries, List.map_cons, List.map_flatMap]
  rfl

theorem mem_handles_of_kid {h x : Handle} {n : Node} {ks : List NodeTree} {k : NodeTree} (hk : k ∈ ks)
    (hx : x ∈ k.handles) : x ∈ (node h n ks).handles := by
  rw [handles_node]
  exact List.mem_cons_of_mem h (List.mem_flatMap.mpr ⟨k, hk, hx⟩)

theorem length_handles (t : NodeTree) : t.handles.length = t.size := by
  simp [handles, size]

theorem handle_mem_handles (t : NodeTree) : t.handle ∈ t.handles := by
  cases t
  simp

theorem size_pos (t : NodeTree) : 0 < t.size := by
  cases t
  simp [size, entries]

/-- A child has fewer nodes. -/
theorem size_lt_of_mem {h : Handle} {n : Node} {ks : List NodeTree} {k : NodeTree} (hk : k ∈ ks) :
    k.size < (node h n ks).size := by
  have hsub : k.entries.Sublist (ks.flatMap entries) :=
    List.sublist_flatten_of_mem (List.mem_map_of_mem hk)
  have hle := hsub.length_le
  simp only [size, entries, List.length_cons]
  omega

theorem exists_entry_of_mem_handles {t : NodeTree} {x : Handle} (hx : x ∈ t.handles) :
    ∃ m, (x, m) ∈ t.entries := by
  obtain ⟨e, he, rfl⟩ := List.mem_map.mp hx
  exact ⟨e.2, he⟩

/-- The links of every node agree with the shape of the tree. -/
inductive Linked : NodeTree → Prop
  | node {h : Handle} {n : Node} {ks : List NodeTree} (children : n.children = ks.map handle)
      (parents : ∀ k ∈ ks, k.record.parent? = some h) (kids : ∀ k ∈ ks, Linked k) :
      Linked (node h n ks)

/-- The tree without its handles and without what is recorded on the nodes. -/
inductive Outline where
  | node (content : Content) (visible : Bool) (kids : List Outline)

/-- What the markup of a tree depends on. -/
def outline : NodeTree → Outline
  | node _ n ks => .node n.content n.visible (ks.map outline)

namespace Outline

theorem induct {P : Outline → Prop}
    (step : ∀ c v ks, (∀ k ∈ ks, P k) → P (node c v ks)) : ∀ o, P o
  | node c v ks => step c v ks fun k _ => induct step k

def chars : Outline → List Char
  | node c v ks => Document.nodeChars { Node.new c with visible := v } (ks.flatMap chars)

end Outline

def chars (t : NodeTree) : List Char :=
  t.outline.chars

theorem chars_node (h : Handle) (n : Node) (ks : List NodeTree) :
    (node h n ks).chars = Document.nodeChars n (ks.flatMap chars) := by
  simp only [chars, outline, Outline.chars, List.flatMap_map]
  rfl

end NodeTree

namespace Document

open NodeTree (Linked)

variable {d d' : Document} {t : NodeTree} {h x : Handle} {n m : Node} {ks : List NodeTree}

structure Holds (d : Document) (t : NodeTree) : Prop where
  linked : t.Linked
  nodup : t.handles.Nodup
  live : ∀ e ∈ t.entries, d.get? e.1 = some e.2

namespace Holds

/-- A document that agrees on the handles of a tree holds it as well. -/
theorem congr (ht : d.Holds t) (hsame : ∀ x ∈ t.handles, d'.get? x = d.get? x) : d'.Holds t :=
  ⟨ht.linked, ht.nodup, fun e he => by
    rw [hsame e.1 (List.mem_map_of_mem he), ht.live e he]⟩

theorem get?_handle (ht : d.Holds t) : d.get? t.handle = some t.record :=
  ht.live _ t.top_mem_entries

theorem get?_of_mem (ht : d.Holds t) (hx : x ∈ t.handles) : ∃ m, d.get? x = some m := by
  obtain ⟨m, hm⟩ := NodeTree.exists_entry_of_mem_handles hx
  exact ⟨m, ht.live _ hm⟩

theorem kid (ht : d.Holds (.node h n ks)) {k : NodeTree} (hk : k ∈ ks) : d.Holds k := by
  obtain ⟨_, _, hlinked⟩ := ht.linked
  have hnodup := ht.nodup
  rw [NodeTree.handles_node, List.nodup_cons, List.nodup_flatMap] at hnodup
  exact ⟨hlinked k hk, hnodup.2.1 k hk, fun e he => ht.live e (NodeTree.mem_entries_of_kid hk he)⟩

theorem children (ht : d.Holds (.node h n ks)) : n.children = ks.map NodeTree.handle := by
  obtain ⟨hchildren, _, _⟩ := ht.linked
  exact hchildren

theorem parent (ht : d.Holds (.node h n ks)) {k : NodeTree} (hk : k ∈ ks) :
    k.record.parent? = some h := by
  obtain ⟨_, hparents, _⟩ := ht.linked
  exact hparents k hk

theorem handle_not_mem_kids (ht : d.Holds (.node h n ks)) : h ∉ ks.flatMap NodeTree.handles := by
  have hnodup := ht.nodup
  rw [NodeTree.handles_node, List.nodup_cons] at hnodup
  exact hnodup.1

theorem kids_nodup (ht : d.Holds (.node h n ks)) : (ks.flatMap NodeTree.handles).Nodup := by
  have hnodup := ht.nodup
  rw [NodeTree.handles_node, List.nodup_cons] at hnodup
  exact hnodup.2

/-- A tree is held as soon as its top is stored and its children are held apart from each other. -/
theorem node (htop : d.get? h = some n) (hchildren : n.children = ks.map NodeTree.handle)
    (hparents : ∀ k ∈ ks, k.record.parent? = some h) (hkids : ∀ k ∈ ks, d.Holds k)
    (hnodup : (h :: ks.flatMap NodeTree.handles).Nodup) : d.Holds (.node h n ks) := by
  refine ⟨.node hchildren hparents fun k hk => (hkids k hk).linked, by simpa using hnodup, ?_⟩
  intro e he
  rw [NodeTree.entries, List.mem_cons, List.mem_flatMap] at he
  rcases he with rfl | ⟨k, hk, he⟩
  · exact htop
  · exact (hkids k hk).live e he

/-- Below the top of a tree every node has its parent in the tree. -/
theorem exists_parent (ht : d.Holds t) (hx : x ∈ t.handles) (hne : x ≠ t.handle) :
    ∃ m y, d.get? x = some m ∧ m.parent? = some y ∧ y ∈ t.handles := by
  induction t using NodeTree.induct with
  | step h n ks ih =>
    rw [NodeTree.handles_node, List.mem_cons, List.mem_flatMap] at hx
    rcases hx with rfl | ⟨k, hk, hx⟩
    · exact absurd rfl hne
    by_cases hxk : x = k.handle
    · subst hxk
      exact ⟨k.record, h, (ht.kid hk).get?_handle, ht.parent hk, by simp⟩
    · obtain ⟨m, y, hm, hy, hmem⟩ := ih k hk (ht.kid hk) hx hxk
      refine ⟨m, y, hm, hy, ?_⟩
      rw [NodeTree.handles_node, List.mem_cons, List.mem_flatMap]
      exact Or.inr ⟨k, hk, hmem⟩

/-- The slots of a tree are those of an arena, each used once, so the tree fits into the arena. -/
theorem size_le (ht : d.Holds t) : t.size ≤ d.slots.size := by
  have hinj : ∀ x ∈ t.handles, ∀ y ∈ t.handles, x.slot = y.slot → x = y := by
    intro x hx y hy hslot
    obtain ⟨m, hm⟩ := ht.get?_of_mem hx
    obtain ⟨k, hk⟩ := ht.get?_of_mem hy
    exact eq_of_slot_eq hm hk hslot
  have hnodup : (t.handles.map Handle.slot).Nodup := ht.nodup.map_on hinj
  have hsub : t.handles.map Handle.slot ⊆ List.range d.slots.size := by
    intro i hi
    obtain ⟨x, hx, rfl⟩ := List.mem_map.mp hi
    obtain ⟨m, hm⟩ := ht.get?_of_mem hx
    exact List.mem_range.mpr (slot_lt_of_get? hm)
  have hle := (List.subperm_of_subset hnodup hsub).length_le
  simpa [NodeTree.length_handles] using hle

theorem size_lt_reach (ht : d.Holds t) : t.size < d.reach :=
  Nat.lt_succ_of_le ht.size_le

end Holds

/-! ### Reading along a tree -/

theorem markupWithin_eq {depth : Nat} (ht : d.Holds t) (hdepth : t.size ≤ depth + 1) :
    d.markupWithin depth t.handle = t.chars := by
  induction t using NodeTree.induct generalizing depth with
  | step h n ks ih =>
    have hnode := node_of_get? ht.get?_handle
    rw [NodeTree.handle_node, NodeTree.record_node] at hnode
    rw [NodeTree.chars_node, NodeTree.handle_node]
    cases depth with
    | zero =>
      cases ks with
      | nil => simp [markupWithin, hnode]
      | cons k rest =>
        have hlt := NodeTree.size_lt_of_mem (h := h) (n := n) (List.mem_cons_self (a := k) (l := rest))
        have hpos := k.size_pos
        omega
    | succ depth =>
      rw [markupWithin, hnode, ht.children, List.flatMap_map]
      congr 1
      refine List.flatMap_congr fun k hk => ih k hk (ht.kid hk) ?_
      have hlt := NodeTree.size_lt_of_mem (h := h) (n := n) hk
      omega

theorem subtreeWithin_eq {depth : Nat} (ht : d.Holds t) (hdepth : t.size ≤ depth + 1) :
    d.subtreeWithin depth t.handle = t.handles := by
  induction t using NodeTree.induct generalizing depth with
  | step h n ks ih =>
    have hnode : d.node h = n := node_of_get? ht.get?_handle
    rw [NodeTree.handles_node, NodeTree.handle_node]
    cases depth with
    | zero =>
      cases ks with
      | nil => rfl
      | cons k rest =>
        have hlt := NodeTree.size_lt_of_mem (h := h) (n := n) (List.mem_cons_self (a := k) (l := rest))
        have hpos := k.size_pos
        omega
    | succ depth =>
      rw [subtreeWithin, hnode, ht.children, List.flatMap_map]
      congr 1
      refine List.flatMap_congr fun k hk => ih k hk (ht.kid hk) ?_
      have hlt := NodeTree.size_lt_of_mem (h := h) (n := n) hk
      omega

/-- The subtree of a held node is its tree. -/
theorem subtree_eq (ht : d.Holds t) : d.subtree t.handle = t.handles :=
  subtreeWithin_eq ht (by have := ht.size_lt_reach; omega)

theorem innerChars_eq (ht : d.Holds (.node h n ks)) :
    d.innerChars h = ks.flatMap NodeTree.chars := by
  have hnode : d.node h = n := node_of_get? ht.get?_handle
  rw [innerChars, hnode, ht.children, List.flatMap_map]
  refine List.flatMap_congr fun k hk => markupWithin_eq (ht.kid hk) ?_
  have := (ht.kid hk).size_lt_reach
  omega

end Document

end TreeTemplate
