import TreeTemplate.Proofs.Document.Growth
import TreeTemplate.Render.Apply
import TreeTemplate.Render.Instances

/-!
Documents without what looking at nodes leaves on them.  No operation on a document depends on the
binding sets on record: erasing the records first or afterwards comes to the same document, and what is
read is the same.  So documents that differ in nothing else go the same way.
-/

namespace TreeTemplate

/-- The node without the binding set on record. -/
def Node.unscanned (n : Node) : Node :=
  { n with bindingRef? := none }

namespace Node

variable {n n' : Node}

theorem parent_of_unscanned (h : n'.unscanned = n.unscanned) : n'.parent? = n.parent? := by
  simpa [unscanned] using congrArg Node.parent? h

theorem children_of_unscanned (h : n'.unscanned = n.unscanned) : n'.children = n.children := by
  simpa [unscanned] using congrArg Node.children h

theorem content_of_unscanned (h : n'.unscanned = n.unscanned) : n'.content = n.content := by
  simpa [unscanned] using congrArg Node.content h

theorem marker_of_unscanned (h : n'.unscanned = n.unscanned) : n'.marker? = n.marker? := by
  simpa [unscanned] using congrArg Node.marker? h

theorem visible_of_unscanned (h : n'.unscanned = n.unscanned) : n'.visible = n.visible := by
  simpa [unscanned] using congrArg Node.visible h

end Node

/-- The slot without the binding set on record. -/
def Slot.unscanned (s : Slot) : Slot :=
  { s with node? := s.node?.map Node.unscanned }

namespace Document

/-- The document without the binding sets on record. -/
def unscanned (d : Document) : Document :=
  { d with slots := d.slots.map Slot.unscanned, vacant := d.vacant.unscanned }

variable (d : Document) (h p : Handle)

/-! ### Reading -/

@[simp] theorem get?_unscanned : d.unscanned.get? h = (d.get? h).map Node.unscanned := by
  simp only [get?_eq_bind, unscanned, Array.getElem?_map]
  cases d.slots[h.slot]? with
  | none => rfl
  | some s =>
    dsimp only [Option.map_some, Option.bind_some, Slot.unscanned]
    split <;> rfl

@[simp] theorem node_unscanned : d.unscanned.node h = (d.node h).unscanned := by
  rw [node, get?_unscanned, node]
  cases d.get? h <;> rfl

@[simp] theorem writable_unscanned : d.unscanned.writable h = (d.writable h).unscanned := by
  rw [writable, get?_unscanned, writable]
  cases d.get? h <;> rfl

@[simp] theorem reach_unscanned : d.unscanned.reach = d.reach := by
  simp [reach, unscanned]

@[simp] theorem attribute?_unscanned (name : String) :
    d.unscanned.attribute? h name = d.attribute? h name := by
  simp [attribute?, Node.attribute?, Node.unscanned]

@[simp] theorem elementChildren_unscanned : d.unscanned.elementChildren h = d.elementChildren h := by
  simp [elementChildren, Node.unscanned, Node.isElement]

@[simp] theorem position?_unscanned : d.unscanned.position? h = d.position? h := by
  simp [position?, Node.unscanned]

theorem subtreeWithin_unscanned (depth : Nat) :
    d.unscanned.subtreeWithin depth h = d.subtreeWithin depth h := by
  induction depth generalizing h with
  | zero => rfl
  | succ depth ih =>
    rw [subtreeWithin, subtreeWithin, funext ih]
    simp [Node.unscanned]

@[simp] theorem subtree_unscanned : d.unscanned.subtree h = d.subtree h := by
  rw [subtree, subtree, reach_unscanned, subtreeWithin_unscanned]

@[simp] theorem find?_unscanned (name value : String) :
    d.unscanned.find? name value = d.find? name value := by
  simp [find?, descendants, Node.unscanned, Node.isElement]

theorem markupWithin_unscanned (depth : Nat) :
    d.unscanned.markupWithin depth h = d.markupWithin depth h := by
  induction depth generalizing h with
  | zero => simp [markupWithin, nodeChars, Node.unscanned]
  | succ depth ih =>
    rw [markupWithin, markupWithin, funext ih]
    simp [nodeChars, Node.unscanned]

@[simp] theorem innerMarkup_unscanned : d.unscanned.innerMarkup h = d.innerMarkup h := by
  rw [innerMarkup, innerMarkup, innerChars, innerChars, reach_unscanned,
    funext fun c => d.markupWithin_unscanned c d.reach]
  simp [Node.unscanned]

theorem toMarkup_unscanned : d.unscanned.toMarkup = d.toMarkup :=
  d.innerMarkup_unscanned root

/-! ### Writing records -/

theorem put_unscanned (n : Node) : d.unscanned.put h n.unscanned = (d.put h n).unscanned := by
  rw [put, get?_unscanned, put]
  cases d.get? h with
  | none => rfl
  | some m =>
    simp [unscanned, Array.map_setIfInBounds, Slot.unscanned]

theorem modify_unscanned (f : Node → Node) (hf : ∀ n, f n.unscanned = (f n).unscanned) :
    d.unscanned.modify h f = (d.modify h f).unscanned := by
  rw [modify, writable_unscanned, hf, put_unscanned, modify]

@[simp] theorem mutated_unscanned : d.unscanned.mutated = d.mutated.unscanned :=
  rfl

@[simp] theorem setMarker_unscanned (m : Option Marker) :
    d.unscanned.setMarker h m = (d.setMarker h m).unscanned :=
  d.modify_unscanned h _ fun _ => rfl

@[simp] theorem modifyProperties_unscanned (f : Dict Value → Dict Value) :
    d.unscanned.modifyProperties h f = (d.modifyProperties h f).unscanned :=
  d.modify_unscanned h _ fun _ => rfl

@[simp] theorem setData_unscanned (name : String) (v : Value) :
    d.unscanned.setData h name v = (d.setData h name v).unscanned :=
  d.modify_unscanned h _ fun _ => rfl

@[simp] theorem attachCallback_unscanned (c : Callback) :
    d.unscanned.attachCallback h c = (d.attachCallback h c).unscanned :=
  d.modify_unscanned h _ fun _ => rfl

@[simp] theorem detachCallbacks_unscanned :
    d.unscanned.detachCallbacks h = (d.detachCallbacks h).unscanned :=
  d.modify_unscanned h _ fun _ => rfl

/-- Recording a set is, apart from the record, writing a node back. -/
theorem unscanned_setBindingRef (r : BindingRef) :
    (d.setBindingRef h r).unscanned = d.unscanned.modify h id := by
  rw [setBindingRef, modify, ← put_unscanned, modify, writable_unscanned]
  rfl

@[simp] theorem setVisible_unscanned (v : Bool) :
    d.unscanned.setVisible h v = (d.setVisible h v).unscanned := by
  have hsame := d.put_unscanned h (d.writable h)
  have hput := d.put_unscanned h { d.writable h with visible := v }
  dsimp only [Node.unscanned] at hsame hput
  simp only [setVisible, writable_unscanned, Node.unscanned, hsame, hput, mutated_unscanned]
  split <;> rfl

@[simp] theorem setAttribute_unscanned (name value : String) :
    d.unscanned.setAttribute h name value = (d.setAttribute h name value).unscanned := by
  rw [setAttribute, writable_unscanned, setAttribute]
  generalize d.writable h = n
  have hsame : n.unscanned.content = n.content := rfl
  cases hcontent : n.content with
  | element tag attributes =>
    simp only [hsame, hcontent]
    split
    · rfl
    · exact congrArg mutated
        (d.put_unscanned h { n with content := .element tag (Dict.put attributes name value) })
  | root | text _ | comment _ =>
    simp only [hsame, hcontent]
    exact d.put_unscanned h n

@[simp] theorem removeAttribute_unscanned (name : String) :
    d.unscanned.removeAttribute h name = (d.removeAttribute h name).unscanned := by
  rw [removeAttribute, writable_unscanned, removeAttribute]
  generalize d.writable h = n
  have hsame : n.unscanned.content = n.content := rfl
  cases hcontent : n.content with
  | element tag attributes =>
    simp only [hsame, hcontent]
    split
    · exact congrArg mutated
        (d.put_unscanned h { n with content := .element tag (Dict.erase attributes name) })
    · rfl
  | root | text _ | comment _ =>
    simp only [hsame, hcontent]
    exact d.put_unscanned h n

@[simp] theorem setAttributeValue_unscanned (name : String) (v : Value) :
    d.unscanned.setAttributeValue h name v = (d.setAttributeValue h name v).unscanned := by
  unfold setAttributeValue
  split <;> simp

@[simp] theorem assignProperty_unscanned (path : String) (v : Value) :
    d.unscanned.assignProperty h path v = (d.assignProperty h path v).unscanned :=
  d.modifyProperties_unscanned h _

/-! ### Slots -/

theorem alloc_unscanned (n : Node) :
    d.unscanned.alloc n.unscanned = ((d.alloc n).1, (d.alloc n).2.unscanned) := by
  unfold alloc
  simp only [unscanned]
  cases d.free with
  | nil => simp [Slot.unscanned]
  | cons slot rest =>
    have hgeneration : Slot.generation ∘ Slot.unscanned = Slot.generation := rfl
    simp [hgeneration, Array.map_setIfInBounds, Slot.unscanned]

@[simp] theorem createElement_unscanned (tag : String) :
    d.unscanned.createElement tag = ((d.createElement tag).1, (d.createElement tag).2.unscanned) :=
  d.alloc_unscanned (Node.new (.element tag []))

@[simp] theorem vacate_unscanned : d.unscanned.vacate h = (d.vacate h).unscanned := by
  simp [vacate, unscanned, Array.map_setIfInBounds, Slot.unscanned]

theorem releaseWithin_unscanned (depth : Nat) :
    releaseWithin depth h d.unscanned = (releaseWithin depth h d).unscanned := by
  induction depth generalizing h d with
  | zero => rfl
  | succ depth ih =>
    have hfold : ∀ (hs : List Handle) (d : Document),
        hs.foldr (releaseWithin depth) d.unscanned = (hs.foldr (releaseWithin depth) d).unscanned := by
      intro hs d
      induction hs with
      | nil => rfl
      | cons h rest ih' => rw [List.foldr_cons, ih', ih, List.foldr_cons]
    rw [releaseWithin, get?_unscanned, releaseWithin]
    cases d.get? h with
    | none => rfl
    | some n => simp [hfold, Node.unscanned]

@[simp] theorem release_unscanned : d.unscanned.release h = (d.release h).unscanned := by
  rw [release, reach_unscanned, releaseWithin_unscanned, release]

/-! ### Links -/

@[simp] theorem detach_unscanned : d.unscanned.detach h = (d.detach h).unscanned := by
  rw [detach, writable_unscanned, detach]
  dsimp only [Node.unscanned]
  have hput := d.put_unscanned h { d.writable h with parent? := none }
  dsimp only [Node.unscanned] at hput
  cases (d.writable h).parent? with
  | none => exact hput
  | some p =>
    dsimp only
    rw [hput]
    exact modify_unscanned _ p _ fun _ => rfl

@[simp] theorem link_unscanned (place : List Handle → List Handle) :
    d.unscanned.link p h place = (d.link p h place).unscanned := by
  rw [link, modify_unscanned, modify_unscanned, link]
  all_goals exact fun _ => rfl

@[simp] theorem appendChild_unscanned :
    d.unscanned.appendChild p h = (d.appendChild p h).unscanned := by
  simp [appendChild]

@[simp] theorem insertAt_unscanned (index : Nat) :
    d.unscanned.insertAt h p index = (d.insertAt h p index).unscanned := by
  simp [insertAt]

@[simp] theorem insertBefore_unscanned :
    d.unscanned.insertBefore h p = (d.insertBefore h p).unscanned := by
  simp only [insertBefore, detach_unscanned, position?_unscanned]
  split <;> simp

@[simp] theorem insertAfter_unscanned :
    d.unscanned.insertAfter h p = (d.insertAfter h p).unscanned := by
  simp only [insertAfter, detach_unscanned, position?_unscanned]
  split <;> simp

@[simp] theorem replace_unscanned : d.unscanned.replace h p = (d.replace h p).unscanned := by
  simp only [replace, detach_unscanned, position?_unscanned]
  split
  · rw [modify_unscanned, modify_unscanned, modify_unscanned, mutated_unscanned]
    all_goals exact fun _ => rfl
  · rfl

@[simp] theorem remove_unscanned : d.unscanned.remove h = (d.remove h).unscanned := by
  rw [remove, get?_unscanned, remove]
  cases d.get? h with
  | none => rfl
  | some n =>
    simp only [Option.map_some, Node.unscanned]
    split
    · rfl
    · split <;> simp

@[simp] theorem clearChildren_unscanned :
    d.unscanned.clearChildren h = (d.clearChildren h).unscanned := by
  have hfold : ∀ (hs : List Handle) (d : Document),
      hs.foldl release d.unscanned = (hs.foldl release d).unscanned := by
    intro hs d
    induction hs generalizing d with
    | nil => rfl
    | cons h rest ih => rw [List.foldl_cons, release_unscanned, ih, List.foldl_cons]
  have hput := d.put_unscanned h { d.writable h with children := [] }
  dsimp only [Node.unscanned] at hput
  rw [clearChildren, writable_unscanned, clearChildren]
  dsimp only [Node.unscanned]
  simp only [hput, hfold, mutated_unscanned]
  split <;> rfl

/-! ### Adding nodes -/

@[simp] theorem appendText_unscanned (text : String) :
    d.unscanned.appendText h text = (d.appendText h text).unscanned := by
  have halloc := d.alloc_unscanned (Node.new (.text text))
  rw [show (Node.new (.text text)).unscanned = Node.new (.text text) from rfl] at halloc
  simp [appendText, halloc]

theorem plantNode_unscanned (n : Node) :
    d.unscanned.plantNode p n.unscanned = ((d.plantNode p n).1, (d.plantNode p n).2.unscanned) := by
  have halloc := d.alloc_unscanned { n with parent? := some p }
  dsimp only [Node.unscanned] at halloc
  simp only [plantNode, Node.unscanned, halloc]
  rw [modify_unscanned]
  exact fun _ => rfl

theorem elementNode_unscanned (tag : String) (attributes : List (String × String)) :
    (elementNode tag attributes).unscanned = elementNode tag attributes := by
  simp only [elementNode]
  split
  · rfl
  · split <;> rfl

mutual

theorem plant_unscanned (d : Document) (p : Handle) :
    ∀ m : Markup, plant d.unscanned p m = (plant d p m).unscanned
  | .element tag attributes children => by
    have hplant := d.plantNode_unscanned p (elementNode tag attributes)
    rw [elementNode_unscanned] at hplant
    rw [plant, hplant, plant]
    exact plantAll_unscanned _ _ children
  | .text content => by
    have hplant := d.plantNode_unscanned p (Node.new (.text content))
    rw [show (Node.new (.text content)).unscanned = Node.new (.text content) from rfl] at hplant
    rw [plant, hplant, plant]
  | .comment body => by
    have hplant := d.plantNode_unscanned p (Node.new (.comment body))
    rw [show (Node.new (.comment body)).unscanned = Node.new (.comment body) from rfl] at hplant
    rw [plant, hplant, plant]

theorem plantAll_unscanned (d : Document) (p : Handle) :
    ∀ ms : List Markup, plantAll d.unscanned p ms = (plantAll d p ms).unscanned
  | [] => by rw [plantAll, plantAll]
  | m :: rest => by rw [plantAll, plant_unscanned, plantAll_unscanned, plantAll]

end

@[simp] theorem appendMarkup_unscanned (source : String) :
    d.unscanned.appendMarkup h source = (d.appendMarkup h source).map unscanned := by
  simp only [appendMarkup, plantAll_unscanned]
  cases parseMarkup source with
  | error e => rfl
  | ok nodes =>
    simp only [Except.map]
    split <;> simp

@[simp] theorem appendValue_unscanned (v : Value) :
    d.unscanned.appendValue h v = (d.appendValue h v).unscanned := by
  simp only [appendValue, appendMarkup_unscanned]
  split
  · cases d.appendMarkup h v.display <;> simp [Except.map]
  · simp

@[simp] theorem applyContent_unscanned (v : Value) (clear : Bool) :
    d.unscanned.applyContent h v clear = (d.applyContent h v clear).unscanned := by
  simp only [applyContent, innerMarkup_unscanned, clearChildren_unscanned, appendValue_unscanned]
  split
  · rfl
  · split <;> rfl

@[simp] theorem createHiddenContainer_unscanned (name value : String) :
    d.unscanned.createHiddenContainer name value =
      ((d.createHiddenContainer name value).1, (d.createHiddenContainer name value).2.unscanned) := by
  simp only [createHiddenContainer, createElement_unscanned, setAttribute_unscanned]
  rw [modify_unscanned, appendChild_unscanned]
  exact fun _ => rfl

/-! ### Copies -/

theorem copyTop_unscanned (home : Option Handle) (n : Node) :
    d.unscanned.copyTop home n.unscanned =
      ((d.copyTop home n).1, (d.copyTop home n).2.unscanned) := by
  have halloc := d.alloc_unscanned { n with parent? := home, children := [] }
  dsimp only [Node.unscanned] at halloc
  cases home with
  | none => simp only [copyTop, Node.unscanned, halloc]
  | some p =>
    simp only [copyTop, Node.unscanned, halloc]
    rw [modify_unscanned]
    exact fun _ => rfl

theorem copyWithin_unscanned (depth : Nat) (home : Option Handle) :
    copyWithin depth home h d.unscanned =
      ((copyWithin depth home h d).1, (copyWithin depth home h d).2.unscanned) := by
  induction depth generalizing home h d with
  | zero => rw [copyWithin_eq, copyWithin_eq, node_unscanned, copyTop_unscanned]
  | succ depth ih =>
    have hfold : ∀ (hs : List Handle) (id : Option Handle) (d : Document),
        hs.foldl (fun d c => (copyWithin depth id c d).2) d.unscanned =
          (hs.foldl (fun d c => (copyWithin depth id c d).2) d).unscanned := by
      intro hs id d
      induction hs generalizing d with
      | nil => rfl
      | cons c rest ih' => rw [List.foldl_cons, ih, ih', List.foldl_cons]
    rw [copyWithin_eq, copyWithin_eq, node_unscanned, copyTop_unscanned]
    dsimp only
    rw [hfold]
    rfl

@[simp] theorem deepClone_unscanned :
    d.unscanned.deepClone h = ((d.deepClone h).1, (d.deepClone h).2.unscanned) := by
  rw [deepClone, reach_unscanned, copyWithin_unscanned, deepClone]

@[simp] theorem copiesBefore_unscanned (k : Nat) :
    d.unscanned.copiesBefore h k = ((d.copiesBefore h k).1, (d.copiesBefore h k).2.unscanned) := by
  induction k generalizing d with
  | zero => rfl
  | succ k ih => simp only [copiesBefore, deepClone_unscanned, insertBefore_unscanned, ih]

@[simp] theorem copiesAfter_unscanned (k : Nat) (anchor : Handle) :
    d.unscanned.copiesAfter h k anchor =
      ((d.copiesAfter h k anchor).1, (d.copiesAfter h k anchor).2.unscanned) := by
  induction k generalizing d anchor with
  | zero => rfl
  | succ k ih => simp only [copiesAfter, deepClone_unscanned, insertAfter_unscanned, ih]

@[simp] theorem stampFrom_unscanned (count index : Nat) (hs : List Handle) :
    d.unscanned.stampFrom count index hs = (d.stampFrom count index hs).unscanned := by
  induction hs generalizing d index with
  | nil => rfl
  | cons h rest ih => rw [stampFrom, setMarker_unscanned, ih, stampFrom]

end Document

theorem ListChange.apply_unscanned (change : ListChange) (h : Handle) (count : Nat) (d : Document) :
    change.apply h count d.unscanned =
      ((change.apply h count d).1, (change.apply h count d).2.unscanned) := by
  cases change <;> simp [ListChange.apply]

end TreeTemplate
