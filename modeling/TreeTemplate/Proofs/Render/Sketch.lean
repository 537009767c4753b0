import TreeTemplate.Proofs.Binding.Scan
import TreeTemplate.Proofs.Render.Instances
import TreeTemplate.Proofs.Render.Survey

/-!
What a render makes of a tree, without a document.  A `Sketch` of a tree keeps what a render goes by:
the bindings and the visible record of every node that is visited, and the markup of everything else.
`Sketch.place` settles a sketch in a context by plain recursion.
-/

namespace TreeTemplate

/-! ### Records as a render sees them -/

structure Face where
  content : Content
  visible : Bool
  marker? : Option Marker
  callbacks : List Callback

def Node.face (n : Node) : Face :=
  ⟨n.content, n.visible, n.marker?, n.callbacks⟩

structure Item where
  value : Value
  index : Nat
  count : Nat

/-- The items of a list of `count` items from position `index` on. -/
def Item.enumerate (count : Nat) : Nat → List Value → List Item
  | _, [] => []
  | index, v :: vs => ⟨v, index, count⟩ :: enumerate count (index + 1) vs

def Context.within (c : Context) (i : Item) : Context :=
  c.item i.value i.index i.count

/-- The change of what a render sees. -/
def Edit.face (f : Face) : Edit → Face
  | identity name id => { f with content := f.content.put name id }
  | value name v => { f with content := f.content.putValue name v }
  | visible v => { f with visible := v }
  | _ => f

namespace Face

/-- What is seen after several changes. -/
def edited (f : Face) (edits : List Edit) : Face :=
  edits.foldl Edit.face f

/-- The instance of a node for a list item. -/
def instanceAt (f : Face) (i : Item) : Face :=
  { f with visible := true, marker? := some (.ofIndex i.index i.count) }

/-- What stands for a node that selects a value, each with the item that it is filled with. -/
def select (f : Face) : Value → List (Face × Option Item)
  | .array items =>
    match ListChange.of f.marker? items.length with
    | .conceal => [({ f with marker? := some (.ofIndex 0 1), visible := false }, none)]
    | .discard => []
    | change =>
      let extent := change.extent items.length
      (Item.enumerate items.length extent.1 ((items.drop extent.1).take extent.2)).map fun i =>
        (f.instanceAt i, some i)
  | .null => [({ f with visible := false }, none)]
  | v => [({ f with visible := true }, some ⟨v, 0, 1⟩)]

/-- Selecting leaves the attributes alone. -/
theorem content_of_mem_select {f g : Face} {v : Value} {i? : Option Item}
    (hg : (g, i?) ∈ f.select v) : g.content = f.content := by
  cases v with
  | null | bool _ | number _ | string _ | object _ =>
    obtain ⟨rfl, rfl⟩ := Prod.mk.inj (List.mem_singleton.mp hg)
    rfl
  | array items =>
    unfold select at hg
    dsimp only at hg
    split at hg
    · obtain ⟨rfl, rfl⟩ := Prod.mk.inj (List.mem_singleton.mp hg)
      rfl
    · simp at hg
    · obtain ⟨i, -, heq⟩ := List.mem_map.mp hg
      obtain ⟨rfl, rfl⟩ := Prod.mk.inj heq
      rfl

end Face

theorem Node.face_edited (n : Node) (edits : List Edit) :
    (n.edited edits).face = n.face.edited edits := by
  induction edits generalizing n with
  | nil => rfl
  | cons e rest ih =>
    have he : (e.record n).face = e.face n.face := by cases e <;> rfl
    rw [edited, List.foldl_cons, ← edited, ih, he]
    rfl

/-! ### Sketches -/

/-- A tree as a render sees it. -/
inductive Sketch where
  /-- Markup that is not visited. -/
  | still (chars : List Char)
  | node (set : BindingSet) (face : Face) (kids : List Sketch)

namespace Sketch

variable (idAttribute : String)

def chars : Sketch → List Char
  | still cs => cs
  | node _ f ks =>
    Document.nodeChars { Node.new f.content with visible := f.visible } (ks.flatMap chars)

/-- Fill a node whose children are settled by `visit`. -/
def fill (visit : Context → List Sketch × Context) (set : BindingSet) (f : Face)
    (ks : List Sketch) (c : Context) : Sketch × Context :=
  let v := survey idAttribute set f.callbacks c
  match v.verdict with
  | .leave => (node set (f.edited v.edits) ks, v.context)
  | .write x clear =>
    (node set (f.edited v.edits) [still (Document.contentAfter (ks.flatMap chars) x clear)],
      v.context)
  | .descend => (node set (f.edited v.edits) (visit v.context).1, (visit v.context).2)

/-- What stands for a node, filled with its item if it has one. -/
def stand (visit : Context → List Sketch × Context) (set : BindingSet) (ks : List Sketch)
    (c : Context) (p : Face × Option Item) : Sketch :=
  match p.2 with
  | none => node set p.1 ks
  | some i => (fill idAttribute visit set p.1 ks (c.within i)).1

/-- Settle what stands in the place of a node whose children are settled by `visit`. -/
def settle (visit : Context → List Sketch × Context) (set : BindingSet) (f : Face)
    (ks : List Sketch) (c : Context) : List Sketch × Context :=
  match set.select? with
  | none =>
    let r := fill idAttribute visit set f ks c
    ([r.1], r.2)
  | some e =>
    ((f.select (c.execute e).1).map (stand idAttribute visit set ks (c.execute e).2),
      (c.execute e).2)

mutual

/-- Settle what stands in the place of a node. -/
def place : Sketch → Context → List Sketch × Context
  | still cs, c => ([still cs], c)
  | node set f ks, c => settle idAttribute (placeAll ks) set f ks c

/-- Settle what stands in the place of several nodes, one after another. -/
def placeAll : List Sketch → Context → List Sketch × Context
  | [], c => ([], c)
  | k :: ks, c =>
    let r := place k c
    let rest := placeAll ks r.2
    (r.1 ++ rest.1, rest.2)

end

def filled : Sketch → Context → Sketch × Context
  | still cs, c => (still cs, c)
  | node set f ks, c => fill idAttribute (placeAll idAttribute ks) set f ks c

def selects : Sketch → Bool
  | still _ => false
  | node set _ _ => set.select?.isSome

theorem place_of_none {set : BindingSet} (hselect : set.select? = none) (f : Face)
    (ks : List Sketch) (c : Context) :
    place idAttribute (node set f ks) c =
      ([((node set f ks).filled idAttribute c).1], ((node set f ks).filled idAttribute c).2) := by
  rw [place, settle, hselect]
  rfl

theorem place_of_some {set : BindingSet} {e : Evaluator} (hselect : set.select? = some e) (f : Face)
    (ks : List Sketch) (c : Context) :
    place idAttribute (node set f ks) c =
      ((f.select (c.execute e).1).map
        (stand idAttribute (placeAll idAttribute ks) set ks (c.execute e).2), (c.execute e).2) := by
  rw [place, settle, hselect]

theorem placeAll_append (ks ks' : List Sketch) (c : Context) :
    placeAll idAttribute (ks ++ ks') c =
      ((placeAll idAttribute ks c).1 ++ (placeAll idAttribute ks' (placeAll idAttribute ks c).2).1,
        (placeAll idAttribute ks' (placeAll idAttribute ks c).2).2) := by
  induction ks generalizing c with
  | nil => rfl
  | cons k ks ih =>
    rw [List.cons_append, placeAll, placeAll, ih]
    simp only [List.append_assoc]

end Sketch

namespace NodeTree

variable {b b' : BindingCache} {F : Registry → Prop} {t t' u : NodeTree} {h : Handle} {n n' : Node}
  {ks ks' : List NodeTree} {set : BindingSet}

/-- The tree as a render sees it that knows the sets of `b`. -/
def sketch (b : BindingCache) : NodeTree → Sketch
  | node _ n ks =>
    let set := (b.setOf? n).getD (BindingSet.empty "")
    .node set n.face
      (if set.content?.isSome then [.still (ks.flatMap chars)]
      else ks.map fun k => if k.record.isElement then k.sketch b else .still k.chars)

/-- A child as a render of its parent sees it: only elements are visited. -/
def piece (b : BindingCache) (k : NodeTree) : Sketch :=
  if k.record.isElement then k.sketch b else .still k.chars

/-- What is inside a node as a render sees it: new content is not visited. -/
def inside (b : BindingCache) (set : BindingSet) (ks : List NodeTree) : List Sketch :=
  if set.content?.isSome then [.still (ks.flatMap chars)] else ks.map (piece b)

theorem sketch_eq (b : BindingCache) (h : Handle) (n : Node) (ks : List NodeTree) :
    (node h n ks).sketch b =
      .node ((b.setOf? n).getD (.empty "")) n.face
        (inside b ((b.setOf? n).getD (.empty "")) ks) := by
  rw [sketch]
  rfl

theorem sketch_node (hset : b.setOf? n = some set) :
    (node h n ks).sketch b = .node set n.face (inside b set ks) := by
  rw [sketch_eq, hset]
  rfl

/-- The sketch of a tree with a set on record at its top. -/
theorem sketch_eq_node (hset : b.setOf? t.record = some set) :
    t.sketch b = .node set t.record.face (inside b set t.kids) := by
  obtain ⟨h, n, ks⟩ := t
  exact sketch_node hset

/-- Every node that a render visits has a set on record, without an include, and steady callbacks. -/
inductive Sighted (b : BindingCache) (F : Registry → Prop) : NodeTree → Prop
  | node {h : Handle} {n : Node} {ks : List NodeTree} {set : BindingSet}
      (top : b.setOf? n = some set) (placed : set.include? = none) (steady : Steady F n.callbacks)
      (kids : set.content? = none → ∀ k ∈ ks, k.record.isElement = true → Sighted b F k) :
      Sighted b F (node h n ks)

theorem Sighted.exists_set (hsight : Sighted b F t) : ∃ set, b.setOf? t.record = some set := by
  obtain ⟨top, -, -, -⟩ := hsight
  exact ⟨_, top⟩

/-- Trees whose nodes have their sets on record, none of them with an include, are sighted. -/
theorem Known.sighted (hk : Known b t) (h : ∀ e ∈ t.entries, Steady F e.2.callbacks ∧
    ∀ set, b.setOf? e.2 = some set → set.include? = none) : Sighted b F t := by
  induction hk with
  | @node x n ks set top kids ih =>
    obtain ⟨hsteady, hplaced⟩ := h (x, n) (top_mem_entries _)
    exact .node top (hplaced set top) hsteady fun _ k hk helement =>
      ih k hk helement fun e he => h e (mem_entries_of_kid hk he)

/-- A primed tree without include bindings, with steady callbacks, is sighted. -/
theorem Primed.sighted_of_known {s : Scan} {home : Option Handle}
    (hs : s.document.Seated home [t])
    (hprime : Scan.Advanced s (s.prime t.handle) home [t] [t']) (htt' : Primed s.bindings t t')
    (hk : Known (s.prime t.handle).bindings t')
    (hinclude : ∀ h ∈ s.document.subtree t.handle,
      ((s.prime t.handle).lookup h).1.include? = none)
    (hsteady : ∀ h ∈ s.document.subtree t.handle, Steady F (s.document.node h).callbacks) :
    Sighted (s.prime t.handle).bindings F t' := by
  have ht := hs.held t (List.mem_singleton_self t)
  have ht' := hprime.regrown.held t' (List.mem_singleton_self t')
  rw [Document.subtree_eq ht, ← htt'.handles_eq] at hinclude hsteady
  refine hk.sighted fun entry hentry => ⟨?_, fun set hset => ?_⟩
  · obtain ⟨n, hn, hrecord⟩ := htt'.exists_entry hentry
    have hcallbacks := hsteady entry.1 (List.mem_map_of_mem hentry)
    rw [Document.node_of_get? (ht.live _ hn)] at hcallbacks
    rcases hrecord with hrecord | ⟨r, hrecord⟩
    · rwa [hrecord]
    · rwa [hrecord]
  · have hplaced := hinclude entry.1 (List.mem_map_of_mem hentry)
    rwa [Scan.lookup_of_mem_entries ht' hentry hset] at hplaced

/-! ### Copies -/

namespace Alike

theorem isElement_eq (h : Alike t u) : u.record.isElement = t.record.isElement :=
  Node.isElement_congr h.content_eq

theorem sighted (htu : Alike t u) (ht : Sighted b F t) : Sighted b F u := by
  induction ht generalizing u with
  | @node h n ks set top placed steady kids ih =>
    obtain ⟨hrecord, hkids⟩ := htu
    rename_i h' n' ks'
    have hcallbacks : n'.callbacks = n.callbacks := by
      rw [show n'.callbacks = n'.unlinked.callbacks from rfl, hrecord]
      rfl
    have hset : b.setOf? n' = some set := by
      rw [show b.setOf? n' = b.setOf? n'.unlinked from rfl, hrecord]
      exact top
    refine .node hset placed (hcallbacks ▸ steady) fun hcontent k' hk' helement => ?_
    obtain ⟨k, hk, hkk'⟩ := exists_of_forall₂ hkids hk'
    exact ih hcontent k hk (hkk'.isElement_eq ▸ helement) hkk'

end Alike

/-! ### Changed records -/

theorem Sighted.retop (ht : Sighted b F t) {f : Node → Node}
    (href : ∀ n, (f n).bindingRef? = n.bindingRef?) (hcallbacks : ∀ n, (f n).callbacks = n.callbacks) :
    Sighted b F (t.retop f) := by
  obtain ⟨top, placed, steady, kids⟩ := ht
  exact .node ((b.setOf?_congr (href _)).trans top) placed (by rwa [hcallbacks]) kids

theorem Sighted.shown (ht : Sighted b F t) (v : Bool) : Sighted b F (t.shown v) :=
  ht.retop (fun _ => rfl) fun _ => rfl

theorem Sighted.marked (ht : Sighted b F t) (m : Marker) : Sighted b F (t.marked m) :=
  ht.retop (fun _ => rfl) fun _ => rfl

/-! ### Looking again -/

namespace Primed

/-- A second look finds the sets that are on record. -/
theorem sketch_eq (hb : b.Extends b') (htt' : Primed b t t') (ht : Sighted b F t) :
    t'.sketch b' = t.sketch b := by
  induction ht generalizing t' with
  | @node h n ks set top placed steady kids ih =>
    obtain ⟨hrecord, hkids⟩ := htt'
    rename_i n' ks'
    obtain rfl : n' = n := hrecord.resolve_right fun hr => by simp [top] at hr
    rw [sketch_node top, sketch_node (hb.setOf? top), inside, inside]
    split
    · rw [List.flatMap_def, List.flatMap_def, map_eq_of_forall₂ hkids fun _ _ _ hk => hk.chars_eq]
    · next hcontent =>
      refine congrArg _ (map_eq_map_of_forall₂ hkids fun k hk k' hkk' => ?_)
      rw [piece, piece, hkk'.isElement_eq]
      split
      · next helement =>
        exact ih (by simpa using hcontent) k hk helement hkk'
      · rw [hkk'.chars_eq]

theorem sighted (hb : b.Extends b') (htt' : Primed b t t') (ht : Sighted b F t) :
    Sighted b' F t' := by
  induction ht generalizing t' with
  | @node h n ks set top placed steady kids ih =>
    obtain ⟨hrecord, hkids⟩ := htt'
    rename_i n' ks'
    obtain rfl : n' = n := hrecord.resolve_right fun hr => by simp [top] at hr
    refine .node (hb.setOf? top) placed steady fun hcontent k' hk' helement => ?_
    obtain ⟨k, hk, hkk'⟩ := exists_of_forall₂ hkids hk'
    exact ih hcontent k hk (hkk'.isElement_eq ▸ helement) hkk'

end Primed

end NodeTree

end TreeTemplate
