import TreeTemplate.Proofs.Document.Removal
import TreeTemplate.Proofs.Document.Shape
import TreeTemplate.Render.Apply

/-!
Markup put into a document.  Planting parsed markup adds one fresh tree a node (`plantAll_grown`), and
the shapes of these trees depend on the markup alone.
-/

namespace TreeTemplate

namespace Markup

open NodeTree (Outline)

/-- The shape of the tree that a parsed node becomes. -/
def shape : Markup → Shape
  | .element tag attributes children =>
    .node (Document.elementNode tag attributes) (children.map shape)
  | .text content => .node (Node.new (.text content)) []
  | .comment body => .node (Node.new (.comment body)) []

/-- The outline of the tree that a parsed node becomes. -/
def outline : Markup → Outline
  | .element tag attributes children =>
    let n := Document.elementNode tag attributes
    .node n.content n.visible (children.map outline)
  | .text content => .node (.text content) true []
  | .comment body => .node (.comment body) true []

theorem outline_shape (m : Markup) : m.shape.outline = m.outline := by
  induction m using shape.induct with
  | case1 tag attributes children ih =>
    rw [shape, outline, Shape.outline, List.map_map]
    exact congrArg _ (List.map_congr_left ih)
  | case2 content =>
    rw [shape, outline, Shape.outline]
    rfl
  | case3 body =>
    rw [shape, outline, Shape.outline]
    rfl

/-- Trees of the shapes of parsed nodes have their outlines. -/
theorem map_outline_of_map_shape {us : List NodeTree} {nodes : List Markup}
    (h : us.map NodeTree.shape = nodes.map shape) :
    us.map NodeTree.outline = nodes.map outline := by
  have houtlines := congrArg (List.map Shape.outline) h
  rw [List.map_map, List.map_map] at houtlines
  rw [← List.map_congr_left fun m _ => outline_shape m]
  exact (List.map_congr_left fun u _ => u.outline_shape.symm).trans houtlines

end Markup

namespace Document

open NodeTree (handlesOf Alike)

variable {d d' d₁ d₂ : Document} {home : Option Handle} {t : NodeTree} {h p x : Handle} {n m : Node}
  {ks : List NodeTree}

theorem elementNode_unlinked (tag : String) (attributes : List (String × String)) :
    (elementNode tag attributes).unlinked = elementNode tag attributes := by
  unfold elementNode
  dsimp only
  split
  · rfl
  · split <;> rfl

theorem plantNode_grown (ht : d.Tidy) (hp : d.get? p = some m) (hn : n.unlinked = n) :
    (d.plantNode p n).2.Tidy ∧
      Grown d (d.plantNode p n).2 (some p)
        [.node (d.plantNode p n).1 { n with parent? := some p } []] := by
  have hchildren : n.children = [] := by
    rw [← hn]
    rfl
  have htidy := ht.alloc_modify (n := { n with parent? := some p }) hp
    fun q => { q with children := q.children ++ [(d.alloc { n with parent? := some p }).1] }
  exact ⟨htidy, alloc_modify_grown ht rfl hchildren hp⟩

mutual

/-- Planting one parsed node adds one fresh tree of its shape. -/
theorem plant_grown {d : Document} {p : Handle} {m : Node} (source : Markup) (ht : d.Tidy)
    (hp : d.get? p = some m) :
    (d.plant p source).Tidy ∧
      ∃ u : NodeTree, u.shape = source.shape ∧ Grown d (d.plant p source) (some p) [u] := by
  have hlive : ∀ q ∈ some p, ∃ n, d.get? q = some n := by
    intro q hq
    obtain rfl := Option.some.inj hq
    exact ⟨m, hp⟩
  match source with
  | .element tag attributes children =>
    obtain ⟨ht₁, hg₁⟩ := plantNode_grown ht hp (elementNode_unlinked tag attributes)
    obtain ⟨ht₂, us, hshapes, hg₂⟩ := plantAll_grown children ht₁
      (hg₁.held _ (List.mem_singleton_self _)).get?_handle
    refine ⟨ht₂, _, ?_, hg₁.inner hg₂ hlive⟩
    rw [NodeTree.shape_node, Markup.shape, hshapes, ← elementNode_unlinked tag attributes]
    rfl
  | .text content =>
    obtain ⟨ht₁, hg₁⟩ := plantNode_grown ht hp (n := Node.new (.text content)) rfl
    exact ⟨ht₁, _, by rw [NodeTree.shape_node, Markup.shape]; rfl, hg₁⟩
  | .comment body =>
    obtain ⟨ht₁, hg₁⟩ := plantNode_grown ht hp (n := Node.new (.comment body)) rfl
    exact ⟨ht₁, _, by rw [NodeTree.shape_node, Markup.shape]; rfl, hg₁⟩

/-- Planting parsed nodes adds one fresh tree a node, in their order. -/
theorem plantAll_grown {d : Document} {p : Handle} {m : Node} (sources : List Markup) (ht : d.Tidy)
    (hp : d.get? p = some m) :
    (d.plantAll p sources).Tidy ∧
      ∃ us : List NodeTree, us.map NodeTree.shape = sources.map Markup.shape ∧
        Grown d (d.plantAll p sources) (some p) us := by
  match sources with
  | [] => exact ⟨ht, [], rfl, .refl⟩
  | source :: rest =>
    obtain ⟨ht₁, u, hshape, hg₁⟩ := plant_grown source ht hp
    obtain ⟨ht₂, us, hshapes, hg₂⟩ := plantAll_grown rest ht₁ (hg₁.parent p rfl m hp)
    refine ⟨ht₂, u :: us, by simp [hshape, hshapes], hg₁.trans (fun q hq => ?_) hg₂⟩
    obtain rfl := Option.some.inj hq
    exact ⟨m, hp⟩

end

/-- Appending markup adds fresh trees. -/
theorem appendMarkup_grown {source : String} (ht : d.Tidy) (hp : d.get? p = some m)
    (hsource : d.appendMarkup p source = .ok d') :
    d'.Tidy ∧ ∃ us : List NodeTree, Grown d d' (some p) us := by
  unfold appendMarkup at hsource
  cases hparse : parseMarkup source with
  | error e => simp [hparse, Except.map] at hsource
  | ok nodes =>
    simp only [hparse, Except.map, Except.ok.injEq] at hsource
    subst hsource
    split
    · exact ⟨ht, [], .refl⟩
    · obtain ⟨ht', us, -, hg⟩ := plantAll_grown nodes ht hp
      exact ⟨ht'.mutated, us, hg.mutated⟩

/-! ### Content -/

/-- A fresh tree without a parent, made the last child of a live node. -/
theorem appendChild_grown {u : NodeTree} (hg : Grown d d₁ none [u]) (ht : d₁.Tidy)
    (hm : d.get? p = some m) :
    (d₁.appendChild p u.handle).Tidy ∧
      Grown d (d₁.appendChild p u.handle) (some p) [u.rehomed (some p)] := by
  have hdetach := detach_grown hg
  obtain ⟨h, n, ks⟩ := u
  have hu : d₁.Holds (.node h n ks) := hg.held _ (List.mem_singleton_self _)
  have hn : d₁.get? h = some n := hu.get?_handle
  have hpu : p ∉ (NodeTree.node h n ks).handles := by
    simpa [handlesOf] using hg.not_mem_new hm
  have hph : p ≠ h := by
    rintro rfl
    simp at hpu
  have hm₁ : d₁.get? p = some m := by rw [hg.frame p (hg.not_mem_new hm) (by simp), hm]
  have hm₂ : (d₁.modify h fun n => { n with parent? := some p }).get? p = some m := by
    rw [get?_modify hn, if_neg hph, hm₁]
  have hget : ∀ x, (d₁.appendChild p h).get? x =
      if x = p then some { m with children := m.children ++ [h] }
      else if x = h then some { n with parent? := some p } else d₁.get? x := by
    intro x
    rw [NodeTree.handle_node] at hdetach
    rw [appendChild, hdetach, get?_mutated, link, get?_modify hm₂, get?_modify hn]
  have hmem : ∀ x, x ∈ handlesOf [NodeTree.rehomed (some p) (.node h n ks)] ↔
      x ∈ (NodeTree.node h n ks).handles := by simp [handlesOf]
  rw [NodeTree.handle_node] at hdetach ⊢
  refine ⟨?_, ?_, ?_, ?_, ?_, ?_, ?_, ?_⟩
  · rw [appendChild, hdetach]
    exact ((ht.modify hn _).modify hm₂ _).mutated
  · intro v hv
    obtain rfl := List.mem_singleton.mp hv
    refine hu.retop (by simp [hget, Ne.symm hph]) rfl fun x hx => ?_
    have hxp : x ≠ p := by
      rintro rfl
      exact hpu (by simp only [NodeTree.handles_node]; exact List.mem_cons_of_mem _ hx)
    have hxh : x ≠ h := by
      rintro rfl
      exact hu.handle_not_mem_kids hx
    rw [hget, if_neg hxp, if_neg hxh]
  · intro v hv
    obtain rfl := List.mem_singleton.mp hv
    rfl
  · simpa [handlesOf] using hu.nodup
  · intro x hx
    rw [hmem] at hx
    exact hg.fresh x (by simpa [handlesOf] using hx)
  · intro x hx hxp
    rw [hmem] at hx
    have hxh : x ≠ h := by
      rintro rfl
      simp at hx
    rw [hget, if_neg fun hx' => hxp (by rw [hx']), if_neg hxh,
      hg.frame x (by simpa [handlesOf] using hx) (by simp)]
  · intro q hq m' hm'
    obtain rfl := Option.some.inj hq
    rw [hm] at hm'
    obtain rfl := Option.some.inj hm'
    simp [hget]
  · rw [appendChild, hdetach, vacant_mutated, link, vacant_modify hm₂, vacant_modify hn, hg.vacant]

theorem appendText_grown (ht : d.Tidy) (hm : d.get? p = some m) (text : String) :
    (d.appendText p text).Tidy ∧
      ∃ u : NodeTree, u.shape = .node (Node.new (.text text)) [] ∧
        Grown d (d.appendText p text) (some p) [u] := by
  obtain ⟨ht', hg⟩ := appendChild_grown
    (alloc_grown ht (n := Node.new (.text text)) rfl rfl) (ht.alloc _) hm
  refine ⟨ht', _, ?_, hg⟩
  rw [NodeTree.rehomed, NodeTree.shape_node]
  rfl

/-- Trees that grow below a node stand behind those that are there. -/
theorem Grown.regrown_kids {us : List NodeTree} (ht : d.Holds (.node h n ks))
    (hg : Grown d d' (some h) us) : Regrown d d' (some h) ks (ks ++ us) where
  held t hmem := by
    rcases List.mem_append.mp hmem with hk | hu
    · refine hg.held_before (ht.kid hk) fun p hp hx => ?_
      obtain rfl := Option.some.inj hp
      exact ht.handle_not_mem_kids (NodeTree.mem_handlesOf_of_mem hk hx)
    · exact hg.held t hu
  parents t hmem := by
    rcases List.mem_append.mp hmem with hk | hu
    · exact ht.parent hk
    · exact hg.parents t hu
  nodup := by
    rw [NodeTree.handlesOf_append, List.nodup_append']
    refine ⟨ht.kids_nodup, hg.nodup, fun x hx => ?_⟩
    obtain ⟨k, hk, hxk⟩ := NodeTree.mem_handlesOf.mp hx
    obtain ⟨m, hm⟩ := (ht.kid hk).get?_of_mem hxk
    exact hg.not_mem_new hm
  fresh x hx := by
    rw [NodeTree.handlesOf_append, List.mem_append] at hx
    exact hx.imp_right (hg.fresh x)
  gone x hx hnot := by simp [hx] at hnot
  frame x _ hx hp := by
    rw [NodeTree.handlesOf_append, List.mem_append, not_or] at hx
    exact hg.frame x hx.2 hp
  siblings q hq m pre post hm hchildren := by
    obtain rfl := Option.some.inj hq
    rw [show d.get? h = some n from ht.get?_handle] at hm
    obtain rfl := Option.some.inj hm
    have hlength := congrArg List.length (ht.children.symm.trans hchildren)
    simp only [List.length_append, List.length_map] at hlength
    obtain rfl : pre = [] := List.eq_nil_of_length_eq_zero (by omega)
    obtain rfl : post = [] := List.eq_nil_of_length_eq_zero (by omega)
    rw [hg.parent h rfl n ht.get?_handle, ht.children]
    simp
  vacant := hg.vacant

/-- The shapes that a value has as the content of a node. -/
def contentShapes (v : Value) : List Shape :=
  if v.display.isEmpty then []
  else
    match looksLikeMarkup v, parseMarkup v.display with
    | true, .ok nodes => nodes.map Markup.shape
    | _, _ => [.node (Node.new (.text v.display)) []]

/-- What a value is written as when it becomes the content of a node. -/
def contentChars (v : Value) : List Char :=
  if v.display.isEmpty then []
  else
    match looksLikeMarkup v, parseMarkup v.display with
    | true, .ok nodes => nodes.flatMap fun m => m.outline.chars
    | _, _ => Markup.escapeTextChars v.display.toList

theorem flatMap_chars_contentShapes (v : Value) :
    (contentShapes v).flatMap Shape.chars = contentChars v := by
  have htext : Shape.chars (.node (Node.new (.text v.display)) []) =
      Markup.escapeTextChars v.display.toList := by
    rw [Shape.chars_node]
    rfl
  unfold contentShapes contentChars
  split
  · rfl
  · cases looksLikeMarkup v with
    | false => simp [htext]
    | true =>
      cases parseMarkup v.display with
      | error e => simp [htext]
      | ok nodes =>
        dsimp only
        rw [List.flatMap_map]
        exact List.flatMap_congr fun m _ => by rw [Shape.chars, Markup.outline_shape]

theorem appendValue_grown (ht : d.Tidy) (hm : d.get? p = some m) {v : Value}
    (hv : v.display.isEmpty = false) :
    (d.appendValue p v).Tidy ∧
      ∃ us : List NodeTree, us.map NodeTree.shape = contentShapes v ∧
        Grown d (d.appendValue p v) (some p) us := by
  obtain ⟨ht₁, u, hshape, hg₁⟩ := appendText_grown ht hm v.display
  unfold appendValue contentShapes appendMarkup
  simp only [hv]
  cases looksLikeMarkup v with
  | false => exact ⟨ht₁, [u], by simpa using hshape, hg₁⟩
  | true =>
    cases parseMarkup v.display with
    | error e => exact ⟨ht₁, [u], by simpa [Except.map] using hshape, hg₁⟩
    | ok nodes =>
      obtain ⟨ht₂, us, hshapes, hg₂⟩ := plantAll_grown nodes ht hm
      simp only [Except.map]
      cases nodes with
      | nil => exact ⟨ht, us, by simpa using hshapes, by simpa [plantAll] using hg₂⟩
      | cons node rest => exact ⟨ht₂.mutated, us, by simpa using hshapes, hg₂.mutated⟩

/-- What a node contains, as it is written, after a value was made its content. -/
def contentAfter (inner : List Char) (v : Value) (clear : Bool) : List Char :=
  if String.ofList inner = v.display ∨ clear = false then inner else contentChars v

/-- The shapes that a node contains after a value was made its content. -/
def shapesAfter (ks : List Shape) (v : Value) (clear : Bool) : List Shape :=
  if String.ofList (ks.flatMap Shape.chars) = v.display ∨ clear = false then ks else contentShapes v

theorem flatMap_chars_shapesAfter (ks : List Shape) (v : Value) (clear : Bool) :
    (shapesAfter ks v clear).flatMap Shape.chars = contentAfter (ks.flatMap Shape.chars) v clear := by
  unfold shapesAfter contentAfter
  split
  · rfl
  · exact flatMap_chars_contentShapes v

/-- Making a value the content of a seated node changes what is below the node and nothing else. -/
theorem applyContent_regrown (hs : d.Seated home [.node h n ks]) (ht : d.Tidy) (v : Value)
    (clear : Bool) :
    (d.applyContent h v clear).Tidy ∧
      ∃ ks' : List NodeTree,
        ks'.map NodeTree.shape = shapesAfter (ks.map NodeTree.shape) v clear ∧
        Regrown d (d.applyContent h v clear) home [.node h n ks]
          [.node h { n with children := ks'.map NodeTree.handle } ks'] := by
  have hheld : d.Holds (.node h n ks) := hs.held _ (List.mem_singleton_self _)
  have hkids := Seated.kids hheld
  have hinner : d.innerMarkup h = String.ofList (ks.flatMap NodeTree.chars) := by
    rw [innerMarkup, innerChars_eq hheld]
  unfold applyContent shapesAfter
  simp only [hinner, NodeTree.flatMap_chars_shape]
  by_cases hkeep : String.ofList (ks.flatMap NodeTree.chars) = v.display ∨ clear = false
  · rw [if_pos (by simpa using hkeep), if_pos hkeep]
    exact ⟨ht, ks, rfl, (Regrown.refl hkids).inner hs⟩
  rw [if_neg (by simpa using hkeep), if_neg hkeep]
  obtain ⟨ht₁, hr₁⟩ := clearChildren_regrown hheld ht
  by_cases hempty : v.display.isEmpty
  · rw [if_pos hempty, contentShapes, if_pos hempty]
    exact ⟨ht₁, [], rfl, hr₁.inner hs⟩
  rw [if_neg hempty]
  have hleaf := ((hr₁.inner hs).seated hs).held _ (List.mem_singleton_self _)
  obtain ⟨ht₂, us, hshapes, hg⟩ := appendValue_grown ht₁ hleaf.get?_handle (by simpa using hempty)
  exact ⟨ht₂, us, hshapes, (hr₁.trans hkids (hg.regrown_kids hleaf)).inner hs⟩

end Document

end TreeTemplate
