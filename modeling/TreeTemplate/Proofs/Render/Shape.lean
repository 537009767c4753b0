import TreeTemplate.Proofs.Render.Changes
import TreeTemplate.Proofs.Render.Sketch
import TreeTemplate.Render.Stage

/-!
What a render makes of a tree, up to the numbering of its nodes.  `Shape.place` settles the shape of a
tree in a context by plain recursion, with all that is recorded on the nodes, and counts the changes of
the markup.  A render in place makes of the sketch of a shape the sketch of what it makes of the shape
(`Shape.sketch_place`).
-/

namespace TreeTemplate

/-- The changes that take its identity off a node that does not keep it. -/
def Plan.baring (plan : Plan) : List Edit :=
  if plan.inPlace then [] else [.value plan.templates.idAttribute (.bool false)]

/-- The document in which a node is filled: unless it keeps its identity, the node has lost it. -/
def Plan.stripped (plan : Plan) (node : Handle) (d : Document) : Document :=
  if plan.inPlace then d else d.removeAttribute node plan.templates.idAttribute

theorem Plan.baring_inPlace {plan : Plan} (h : plan.inPlace = true) : plan.baring = [] := by
  rw [baring, if_pos h]

namespace Node

def faced (n : Node) (f : Face) : Node :=
  { n with
    content := f.content
    visible := f.visible
    marker? := f.marker?
    callbacks := f.callbacks }

/-- What stands for a node that selects a value, each with the item that it is filled with. -/
def select (n : Node) (v : Value) : List (Node × Option Item) :=
  (n.face.select v).map fun p => (n.faced p.1, p.2)

theorem edited_unlinked (n : Node) (edits : List Edit) :
    n.unlinked.edited edits = (n.edited edits).unlinked := by
  induction edits generalizing n with
  | nil => rfl
  | cons e rest ih =>
    have he : e.record n.unlinked = (e.record n).unlinked := by cases e <;> rfl
    rw [edited, List.foldl_cons, ← edited, he, ih]
    rfl

theorem changes_unlinked (n : Node) (edits : List Edit) :
    n.unlinked.changes edits = n.changes edits := by
  induction edits generalizing n with
  | nil => rfl
  | cons e rest ih =>
    have he : e.record n.unlinked = (e.record n).unlinked := by cases e <;> rfl
    have hchanges : e.changes n.unlinked = e.changes n := by cases e <;> rfl
    rw [changes, changes, he, hchanges, ih]

theorem selectChanges_unlinked (n : Node) (v : Value) :
    n.unlinked.selectChanges v = n.selectChanges v := by
  unfold selectChanges
  simp only [changes_unlinked]
  rfl

end Node

/-- What comes of a part of a tree: what stands there, the context that is left behind, and how many
changes of the markup were counted. -/
structure Settled (α : Type) where
  value : α
  context : Context
  changes : Nat

namespace Shape

section

variable (plan : Plan) (b : BindingCache)

/-- Fill a node whose children are settled by `visit`. -/
def fill (visit : Context → Settled (List Shape)) (n : Node) (ks : List Shape) (c : Context) :
    Settled Shape :=
  let v := survey plan.templates.idAttribute ((b.setOf? n).getD (.empty "")) n.callbacks c
  let edits := plan.baring ++ v.edits
  match v.verdict with
  | .leave => ⟨node (n.edited edits) ks, v.context, n.changes edits⟩
  | .write x clear =>
    ⟨node (n.edited edits) (Document.shapesAfter ks x clear), v.context,
      n.changes edits + contentChanges ks x clear⟩
  | .descend =>
    let r := visit v.context
    ⟨node (n.edited edits) r.value, r.context, n.changes edits + r.changes⟩

/-- What stands for a node, filled with its item if it has one, and the changes counted. -/
def stand (visit : Context → Settled (List Shape)) (ks : List Shape) (c : Context)
    (p : Node × Option Item) : Shape × Nat :=
  match p.2 with
  | none => (node p.1 ks, 0)
  | some i =>
    let r := fill plan b visit p.1 ks (c.within i)
    (r.value, r.changes)

/-- Settle what stands in the place of a node whose children are settled by `visit`. -/
def settle (visit : Context → Settled (List Shape)) (n : Node) (ks : List Shape) (c : Context) :
    Settled (List Shape) :=
  match ((b.setOf? n).getD (.empty "")).select? with
  | none =>
    let r := fill plan b visit n ks c
    ⟨[r.value], r.context, r.changes⟩
  | some e =>
    let standing := (n.select (c.execute e).1).map (stand plan b visit ks (c.execute e).2)
    ⟨standing.map Prod.fst, (c.execute e).2,
      n.selectChanges (c.execute e).1 + (standing.map Prod.snd).sum⟩

mutual

/-- Settle what stands in the place of a node below another one. -/
def place : Shape → Context → Settled (List Shape)
  | node n ks, c => settle plan b (placeAll ks) n ks c

/-- Settle what stands in the place of the elements among several nodes, one after another. -/
def placeAll : List Shape → Context → Settled (List Shape)
  | [], c => ⟨[], c, 0⟩
  | k :: ks, c =>
    if k.isElement then
      let r := place k c
      let rest := placeAll ks r.context
      ⟨r.value ++ rest.value, rest.context, r.changes + rest.changes⟩
    else
      let rest := placeAll ks c
      ⟨k :: rest.value, rest.context, rest.changes⟩

end

def filled : Shape → Context → Settled Shape
  | node n ks, c => fill plan b (placeAll plan b ks) n ks c

end

variable {plan : Plan} {b : BindingCache} {n : Node} {ks : List Shape} {c : Context}
  {set : BindingSet}

theorem place_of_none (plan : Plan) (hset : b.setOf? n = some set) (hselect : set.select? = none)
    (ks : List Shape) (c : Context) :
    (node n ks).place plan b c =
      ⟨[((node n ks).filled plan b c).value], ((node n ks).filled plan b c).context,
        ((node n ks).filled plan b c).changes⟩ := by
  rw [place, settle, hset, Option.getD_some, hselect]
  rfl

theorem place_of_some {e : Evaluator} (plan : Plan) (hset : b.setOf? n = some set)
    (hselect : set.select? = some e) (ks : List Shape) (c : Context) :
    (node n ks).place plan b c =
      ⟨((n.select (c.execute e).1).map (stand plan b (placeAll plan b ks) ks (c.execute e).2)).map
          Prod.fst, (c.execute e).2,
        n.selectChanges (c.execute e).1 +
          (((n.select (c.execute e).1).map
            (stand plan b (placeAll plan b ks) ks (c.execute e).2)).map Prod.snd).sum⟩ := by
  rw [place, settle, hset, Option.getD_some, hselect]

theorem isElement_fill (visit : Context → Settled (List Shape)) (n : Node) (ks : List Shape)
    (c : Context) : (fill plan b visit n ks c).value.isElement = n.isElement := by
  unfold fill
  dsimp only
  split <;> exact n.isElement_edited _

/-- What stands for an element is an element. -/
theorem isElement_of_mem_place {σ τ : Shape} (hτ : τ ∈ (σ.place plan b c).value) :
    τ.isElement = σ.isElement := by
  obtain ⟨n, ks⟩ := σ
  rw [place, settle] at hτ
  split at hτ
  · rw [List.mem_singleton.mp hτ, isElement_fill]
    rfl
  · obtain ⟨p, hp, rfl⟩ := List.mem_map.mp hτ
    obtain ⟨q, hq, rfl⟩ := List.mem_map.mp hp
    obtain ⟨f, hf, rfl⟩ := List.mem_map.mp hq
    have hfaced : (n.faced f.1).isElement = n.isElement := by
      have hcontent : f.1.content = n.content := Face.content_of_mem_select hf
      simp only [Node.isElement, Node.faced, hcontent]
    unfold stand
    dsimp only
    split
    · exact hfaced
    · exact (isElement_fill _ _ _ _).trans hfaced

/-! ### Sketches of shapes -/

/-- The shape as a render sees it that knows the sets of `b`. -/
def sketch (b : BindingCache) : Shape → Sketch
  | node n ks =>
    let set := (b.setOf? n).getD (BindingSet.empty "")
    .node set n.face
      (if set.content?.isSome then [.still (ks.flatMap chars)]
      else ks.map fun k => if k.isElement then k.sketch b else .still k.chars)

/-- A child as a render of its parent sees it: only elements are visited. -/
def piece (b : BindingCache) (k : Shape) : Sketch :=
  if k.isElement then k.sketch b else .still k.chars

/-- What is inside a node as a render sees it: new content is not visited. -/
def inside (b : BindingCache) (set : BindingSet) (ks : List Shape) : List Sketch :=
  if set.content?.isSome then [.still (ks.flatMap chars)] else ks.map (piece b)

theorem sketch_node (b : BindingCache) (n : Node) (ks : List Shape) :
    (node n ks).sketch b =
      .node ((b.setOf? n).getD (.empty "")) n.face
        (inside b ((b.setOf? n).getD (.empty "")) ks) := by
  rw [sketch]
  rfl

theorem chars_inside_of (hks : ∀ k ∈ ks, (k.sketch b).chars = k.chars) (set : BindingSet) :
    (inside b set ks).flatMap Sketch.chars = ks.flatMap chars := by
  unfold inside
  split
  · simp [Sketch.chars]
  · rw [List.flatMap_map]
    refine List.flatMap_congr fun k hk => ?_
    unfold piece
    split
    · exact hks k hk
    · rw [Sketch.chars]

/-- A sketch shows the markup of its shape. -/
theorem chars_sketch (b : BindingCache) (σ : Shape) : (σ.sketch b).chars = σ.chars := by
  induction σ using Shape.induct with
  | step n ks ih =>
    rw [sketch_node, Sketch.chars, chars_node, chars_inside_of ih]
    rfl

theorem chars_inside (b : BindingCache) (set : BindingSet) (ks : List Shape) :
    (inside b set ks).flatMap Sketch.chars = ks.flatMap chars :=
  chars_inside_of (fun k _ => chars_sketch b k) set

end Shape

namespace NodeTree

variable {b b' : BindingCache} {n : Node} {t u : NodeTree} {us : List NodeTree} {ks σs : List Shape}

theorem shape_shown (v : Bool) (t : NodeTree) :
    (t.shown v).shape = .node { t.record.unlinked with visible := v } (t.kids.map shape) := by
  cases t
  rw [shown, retop, shape_node]
  rfl

theorem shape_marked (m : Marker) (t : NodeTree) :
    (t.marked m).shape = .node { t.record.unlinked with marker? := some m } (t.kids.map shape) := by
  cases t
  rw [marked, retop, shape_node]
  rfl

/-- Instances of one shape differ in their positions. -/
theorem map_shape_stamped {count index : Nat} {items : List Value}
    (hus : ∀ u ∈ us, u.shape = .node n ks) (hlength : us.length = items.length) :
    (stamped count index us).map shape = (Item.enumerate count index items).map fun i =>
      .node { n with marker? := some (.ofIndex i.index i.count) } ks := by
  induction us generalizing index items with
  | nil =>
    obtain rfl := List.eq_nil_of_length_eq_zero hlength.symm
    rfl
  | cons u us ih =>
    cases items with
    | nil => simp at hlength
    | cons v items =>
      have hu := hus u List.mem_cons_self
      have hkids := (kids_shape u).symm.trans (congrArg Shape.kids hu)
      have hrecord := (record_shape u).symm.trans (congrArg Shape.record hu)
      rw [stamped, Item.enumerate, List.map_cons, List.map_cons, shape_marked, hkids, hrecord,
        ih (fun u hu => hus u (List.mem_cons_of_mem _ hu)) (Nat.succ.inj hlength)]
      rfl

/-- What stands for an element is an element. -/
theorem isElement_of_map_shape {plan : Plan} {c : Context}
    (h : us.map shape = (t.shape.place plan b c).value) (hu : u ∈ us) :
    u.record.isElement = t.record.isElement := by
  rw [← isElement_shape, ← isElement_shape]
  exact Shape.isElement_of_mem_place (h ▸ List.mem_map_of_mem hu)

theorem sketch_shape (b : BindingCache) (t : NodeTree) : t.shape.sketch b = t.sketch b := by
  induction t using NodeTree.induct with
  | step h n ks ih =>
    rw [shape_node, Shape.sketch_node, NodeTree.sketch_eq, Shape.inside, NodeTree.inside,
      flatMap_chars_shape, List.map_map]
    have hpieces : ks.map (Shape.piece b ∘ shape) = ks.map (piece b) := by
      refine List.map_congr_left fun k hk => ?_
      rw [Function.comp_apply, Shape.piece, piece, isElement_shape, ih k hk, chars_shape]
    rw [hpieces]
    rfl

/-- Trees of given shapes have their sketches. -/
theorem map_sketch_of_map_shape (h : us.map shape = σs) :
    us.map (sketch b) = σs.map (Shape.sketch b) := by
  rw [← h, List.map_map]
  exact List.map_congr_left fun u _ => (sketch_shape b u).symm

theorem chars_sketch (b : BindingCache) (t : NodeTree) : (t.sketch b).chars = t.chars := by
  rw [← sketch_shape, Shape.chars_sketch, chars_shape]

/-- Trees of one sketch have the same markup, and so have their insides. -/
theorem kids_chars_eq (h : t.sketch b = u.sketch b') :
    u.kids.flatMap chars = t.kids.flatMap chars := by
  rw [← sketch_shape, ← sketch_shape, t.shape_eq, u.shape_eq, Shape.sketch_node, Shape.sketch_node,
    Sketch.node.injEq] at h
  have hkids := congrArg (List.flatMap Sketch.chars) h.2.2
  rw [Shape.chars_inside, Shape.chars_inside, flatMap_chars_shape, flatMap_chars_shape] at hkids
  exact hkids.symm

end NodeTree

namespace Shape

variable {plan : Plan} {b : BindingCache} {n : Node} {ks : List Shape} {c : Context}

/-- Placing elements places their sketches, if it does so for each of them. -/
theorem sketch_placeAll (hplace : ∀ k ∈ ks, ∀ c,
      ((k.place plan b c).value.map (sketch b), (k.place plan b c).context) =
        Sketch.place plan.templates.idAttribute (k.sketch b) c) (c : Context) :
    ((placeAll plan b ks c).value.map (piece b), (placeAll plan b ks c).context) =
      Sketch.placeAll plan.templates.idAttribute (ks.map (piece b)) c := by
  induction ks generalizing c with
  | nil => rfl
  | cons k rest ih =>
    have ih := ih fun k hk => hplace k (List.mem_cons_of_mem _ hk)
    rw [List.map_cons, Sketch.placeAll, placeAll]
    by_cases helement : k.isElement = true
    · have hpieces : (k.place plan b c).value.map (piece b) =
          (k.place plan b c).value.map (sketch b) :=
        List.map_congr_left fun u hu => by
          rw [piece, if_pos ((isElement_of_mem_place hu).trans helement)]
      rw [if_pos helement, show k.piece b = k.sketch b from if_pos helement,
        ← hplace k List.mem_cons_self, ← ih, List.map_append, hpieces]
    · rw [if_neg helement, show k.piece b = .still k.chars from if_neg helement, Sketch.place, ← ih,
        List.map_cons, show k.piece b = .still k.chars from if_neg helement]
      rfl

/-- Filling a shape fills its sketch. -/
theorem sketch_fill (hplan : plan.inPlace = true)
    (hkids : ∀ c, ((placeAll plan b ks c).value.map (piece b),
      (placeAll plan b ks c).context) =
      Sketch.placeAll plan.templates.idAttribute (ks.map (piece b)) c) (n : Node) (c : Context) :
    let set := (b.setOf? n).getD (.empty "")
    let r := fill plan b (placeAll plan b ks) n ks c
    (r.value.sketch b, r.context) =
      Sketch.fill plan.templates.idAttribute
        (Sketch.placeAll plan.templates.idAttribute (inside b set ks)) set n.face (inside b set ks)
        c := by
  have hagrees := survey_agrees plan.templates.idAttribute ((b.setOf? n).getD (.empty ""))
    n.callbacks c
  unfold fill Sketch.fill
  simp only [show n.face.callbacks = n.callbacks from rfl, Plan.baring_inPlace hplan,
    List.nil_append]
  generalize survey plan.templates.idAttribute ((b.setOf? n).getD (.empty "")) n.callbacks c = v
    at hagrees ⊢
  have hnode : ∀ us, (node (n.edited v.edits) us).sketch b =
      .node ((b.setOf? n).getD (.empty "")) (n.face.edited v.edits)
        (inside b ((b.setOf? n).getD (.empty "")) us) := by
    intro us
    rw [sketch_node, b.setOf?_congr (n.edited_links v.edits).2.2.1, Node.face_edited]
  obtain ⟨edits, verdict, c'⟩ := v
  cases verdict with
  | leave => simp only [hnode]
  | write x clear =>
    simp only [hnode, chars_inside]
    rw [inside, if_pos (show (_ : Option Evaluator).isSome = true from hagrees),
      Document.flatMap_chars_shapesAfter]
  | descend =>
    have hinside : ∀ us, inside b ((b.setOf? n).getD (.empty "")) us = us.map (piece b) := by
      intro us
      rw [inside, show ((b.setOf? n).getD (.empty "")).content? = none from hagrees]
      rfl
    simp only [hnode, hinside, ← hkids]

/-- Placing a shape places its sketch. -/
theorem sketch_place (hplan : plan.inPlace = true) (σ : Shape) (c : Context) :
    ((σ.place plan b c).value.map (sketch b), (σ.place plan b c).context) =
      Sketch.place plan.templates.idAttribute (σ.sketch b) c := by
  induction σ using Shape.induct generalizing c with
  | step n ks ih =>
    have hfill := sketch_fill hplan (sketch_placeAll ih)
    rw [place, settle, sketch_node, Sketch.place, Sketch.settle]
    cases ((b.setOf? n).getD (.empty "")).select? with
    | none => simp only [← hfill n c, List.map_cons, List.map_nil]
    | some e =>
      refine Prod.ext ?_ rfl
      simp only [Node.select, List.map_map]
      refine List.map_congr_left fun p hp => ?_
      simp only [Function.comp_apply, stand, Sketch.stand]
      cases p.2 with
      | none => exact sketch_node b (n.faced p.1) ks
      | some i =>
        have hfilled := hfill (n.faced p.1) ((c.execute e).2.within i)
        exact congrArg Prod.fst hfilled

end Shape

end TreeTemplate
