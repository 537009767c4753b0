import TreeTemplate.Proofs.Document.Annals
import TreeTemplate.Proofs.Document.Growth
import TreeTemplate.Render.Apply
import TreeTemplate.Render.Instances

/-!
What the operations on documents do to the slots.  Beside each operation that gives out or vacates
slots stand its events, in their order; the operation goes by them whatever handles it is given, live
ones or not (`Annals`).  All other operations only write (`SameSlots`).
-/

namespace TreeTemplate

namespace Document

variable {d d₁ d' : Document} {h x : Handle} {n : Node} {α : Type}

/-! ### Operations that only write -/

namespace SameSlots

theorem detach (d : Document) (h : Handle) : SameSlots d (d.detach h) := by
  unfold Document.detach
  dsimp only
  split
  · exact (put d h _).trans (modify _ _ _)
  · exact put d h _

theorem link (d : Document) (p h : Handle) (place : List Handle → List Handle) :
    SameSlots d (d.link p h place) := by
  unfold Document.link
  exact (modify d h _).trans (modify _ p _)

theorem appendChild (d : Document) (p h : Handle) : SameSlots d (d.appendChild p h) :=
  ((detach d h).trans (link _ p h _)).mutated

theorem insertAt (d : Document) (h p : Handle) (index : Nat) :
    SameSlots d (d.insertAt h p index) :=
  (link d p h _).mutated

theorem insertBefore (d : Document) (h reference : Handle) :
    SameSlots d (d.insertBefore h reference) := by
  unfold Document.insertBefore
  dsimp only
  split
  · exact (detach d h).trans (insertAt _ h _ _)
  · exact detach d h

theorem insertAfter (d : Document) (h reference : Handle) :
    SameSlots d (d.insertAfter h reference) := by
  unfold Document.insertAfter
  dsimp only
  split
  · exact (detach d h).trans (insertAt _ h _ _)
  · exact detach d h

theorem replace (d : Document) (h old : Handle) : SameSlots d (d.replace h old) := by
  unfold Document.replace
  dsimp only
  split
  · exact (((detach d h).trans (modify _ _ _)).trans (modify _ h _)).trans (modify _ old _).mutated
  · exact detach d h

theorem setAttribute (d : Document) (h : Handle) (name value : String) :
    SameSlots d (d.setAttribute h name value) := by
  unfold Document.setAttribute
  dsimp only
  split
  · split
    · exact refl d
    · exact (put d h _).mutated
  · exact put d h _

theorem removeAttribute (d : Document) (h : Handle) (name : String) :
    SameSlots d (d.removeAttribute h name) := by
  unfold Document.removeAttribute
  dsimp only
  split
  · split
    · exact (put d h _).mutated
    · exact refl d
  · exact put d h _

theorem setVisible (d : Document) (h : Handle) (visible : Bool) :
    SameSlots d (d.setVisible h visible) := by
  unfold Document.setVisible
  dsimp only
  split
  · exact put d h _
  · exact (put d h _).mutated

theorem setAttributeValue (d : Document) (h : Handle) (name : String) (v : Value) :
    SameSlots d (d.setAttributeValue h name v) := by
  unfold Document.setAttributeValue
  split
  · exact setAttribute d h name name
  · exact removeAttribute d h name
  · exact setAttribute d h name _

theorem setBindingRef (d : Document) (h : Handle) (r : BindingRef) :
    SameSlots d (d.setBindingRef h r) :=
  modify d h _

theorem setMarker (d : Document) (h : Handle) (m : Option Marker) : SameSlots d (d.setMarker h m) :=
  modify d h _

theorem modifyProperties (d : Document) (h : Handle) (f : Dict Value → Dict Value) :
    SameSlots d (d.modifyProperties h f) :=
  modify d h _

theorem assignProperty (d : Document) (h : Handle) (path : String) (v : Value) :
    SameSlots d (d.assignProperty h path v) :=
  modifyProperties d h _

theorem setData (d : Document) (h : Handle) (name : String) (v : Value) :
    SameSlots d (d.setData h name v) :=
  modify d h _

theorem stampFrom (count index : Nat) (hs : List Handle) (d : Document) :
    SameSlots d (d.stampFrom count index hs) := by
  induction hs generalizing index d with
  | nil => exact refl d
  | cons h rest ih => exact (setMarker d h _).trans (ih _ _)

theorem resetMutations (d : Document) : SameSlots d d.resetMutations :=
  ⟨fun _ => rfl, rfl⟩

end SameSlots

/-! ### Operations on slots -/

/-- The events of steps that are done one after another. -/
def foldEvents (f : Document → α → Document) (events : Document → α → List Event)
    (d : Document) : List α → List Event
  | [] => []
  | a :: as => events d a ++ foldEvents f events (f d a) as

theorem Annals.foldl {f : Document → α → Document} {events : Document → α → List Event}
    (hf : ∀ d a, Annals d (events d a) (f d a)) (d : Document) (as : List α) :
    Annals d (foldEvents f events d as) (as.foldl f d) := by
  induction as generalizing d with
  | nil => exact .done d
  | cons a as ih => exact (hf d a).append (ih (f d a))

theorem Annals.one_alloc (d : Document) (n : Node) :
    Annals d [.allocated (d.alloc n).1] (d.alloc n).2 :=
  .alloc n (.done _)

theorem createElement_annals (d : Document) (tag : String) :
    Annals d [.allocated (d.createElement tag).1] (d.createElement tag).2 :=
  .one_alloc d _

def appendTextEvents (d : Document) (text : String) : List Event :=
  [.allocated (d.alloc (Node.new (.text text))).1]

theorem appendText_annals (d : Document) (h : Handle) (text : String) :
    Annals d (d.appendTextEvents text) (d.appendText h text) :=
  (Annals.one_alloc d _).then_write (.appendChild _ h _)

theorem createHiddenContainer_annals (d : Document) (name value : String) :
    Annals d [.allocated (d.createHiddenContainer name value).1]
      (d.createHiddenContainer name value).2 := by
  have hmade := createElement_annals d "div"
  unfold createHiddenContainer
  generalize d.createElement "div" = made at hmade ⊢
  exact hmade.then_write (((SameSlots.setAttribute made.2 made.1 name value).trans
    (.modify _ _ _)).trans (.appendChild _ root _))

/-! ### Vacating slots -/

/-- The events of vacating a node and everything below it. -/
def releaseEventsWithin : Nat → Document → Handle → List Event
  | 0, _, _ => []
  | depth + 1, d, h =>
    match d.get? h with
    | none => []
    | some n => .vacated h :: foldEvents (fun d c => releaseWithin depth c d)
        (releaseEventsWithin depth) (d.vacate h) n.children.reverse

theorem releaseWithin_annals (depth : Nat) (d : Document) (h : Handle) :
    Annals d (releaseEventsWithin depth d h) (releaseWithin depth h d) := by
  induction depth generalizing d h with
  | zero => exact .done d
  | succ depth ih =>
    rw [releaseEventsWithin, releaseWithin]
    cases hn : d.get? h with
    | none => exact .done d
    | some n =>
      dsimp only
      rw [List.foldr_eq_foldl_reverse]
      exact .vacate hn (.foldl ih _ _)

/-- The events of vacating a node and everything below it. -/
def releaseEvents (d : Document) (h : Handle) : List Event :=
  releaseEventsWithin d.reach d h

theorem release_annals (d : Document) (h : Handle) : Annals d (d.releaseEvents h) (d.release h) :=
  releaseWithin_annals d.reach d h

def removeEvents (d : Document) (h : Handle) : List Event :=
  match d.get? h with
  | none => []
  | some n =>
    if h = root then []
    else if n.parent?.isSome then (d.detach h).mutated.releaseEvents h
    else d.releaseEvents h

theorem remove_annals (d : Document) (h : Handle) : Annals d (d.removeEvents h) (d.remove h) := by
  unfold removeEvents remove
  cases d.get? h with
  | none => exact .done d
  | some n =>
    dsimp only
    split
    · exact .done d
    · split
      · exact .write (SameSlots.detach d h).mutated (release_annals _ h)
      · exact release_annals d h

/-- The events of discarding everything below a node. -/
def clearChildrenEvents (d : Document) (h : Handle) : List Event :=
  foldEvents release releaseEvents (d.put h { d.writable h with children := [] })
    (d.writable h).children

theorem clearChildren_annals (d : Document) (h : Handle) :
    Annals d (d.clearChildrenEvents h) (d.clearChildren h) := by
  have hput := SameSlots.put d h { d.writable h with children := [] }
  unfold clearChildrenEvents clearChildren
  dsimp only
  split
  · next hempty =>
    rw [List.isEmpty_iff.mp hempty]
    exact .of_sameSlots hput
  · apply Annals.then_write (.write hput (.foldl release_annals _ _))
    exact (SameSlots.refl _).mutated

/-! ### Planting -/

theorem plantNode_annals (d : Document) (p : Handle) (n : Node) :
    Annals d [.allocated (d.plantNode p n).1] (d.plantNode p n).2 := by
  unfold plantNode
  apply (Annals.one_alloc d _).then_write
  dsimp only
  exact .modify _ p _

mutual

def plantEvents (d : Document) (p : Handle) : Markup → List Event
  | .element tag attributes children =>
    .allocated (d.plantNode p (elementNode tag attributes)).1 ::
      plantAllEvents (d.plantNode p (elementNode tag attributes)).2
        (d.plantNode p (elementNode tag attributes)).1 children
  | .text content => [.allocated (d.plantNode p (Node.new (.text content))).1]
  | .comment body => [.allocated (d.plantNode p (Node.new (.comment body))).1]

def plantAllEvents (d : Document) (p : Handle) : List Markup → List Event
  | [] => []
  | m :: rest => plantEvents d p m ++ plantAllEvents (plant d p m) p rest

end

mutual

theorem plant_annals (d : Document) (p : Handle) :
    ∀ m : Markup, Annals d (plantEvents d p m) (plant d p m)
  | .element tag attributes children => by
    rw [plantEvents, plant]
    exact (plantNode_annals d p _).append (plantAll_annals _ _ children)
  | .text content => by
    rw [plantEvents, plant]
    exact plantNode_annals d p _
  | .comment body => by
    rw [plantEvents, plant]
    exact plantNode_annals d p _

theorem plantAll_annals (d : Document) (p : Handle) :
    ∀ ms : List Markup, Annals d (plantAllEvents d p ms) (plantAll d p ms)
  | [] => by
    rw [plantAllEvents, plantAll]
    exact .done d
  | m :: rest => by
    rw [plantAllEvents, plantAll]
    exact (plant_annals d p m).append (plantAll_annals _ p rest)

end

/-- The events of appending what a markup text describes. -/
def appendMarkupEvents (d : Document) (h : Handle) (source : String) : List Event :=
  match parseMarkup source with
  | .ok nodes => plantAllEvents d h nodes
  | .error _ => []

theorem appendMarkup_annals {source : String} (hd : d.appendMarkup h source = .ok d') :
    Annals d (d.appendMarkupEvents h source) d' := by
  unfold appendMarkup at hd
  unfold appendMarkupEvents
  cases hparse : parseMarkup source with
  | error e => simp [hparse, Except.map] at hd
  | ok nodes =>
    simp only [hparse, Except.map, Except.ok.injEq] at hd
    subst hd
    dsimp only
    split
    · next hempty =>
      rw [List.isEmpty_iff.mp hempty, plantAllEvents]
      exact .done d
    · exact (plantAll_annals d h nodes).then_write (SameSlots.refl _).mutated

theorem appendMarkupEvents_of_error {source : String} {e : MarkupError}
    (hd : d.appendMarkup h source = .error e) : d.appendMarkupEvents h source = [] := by
  unfold appendMarkup at hd
  unfold appendMarkupEvents
  cases hparse : parseMarkup source with
  | error e => rfl
  | ok nodes => simp [hparse, Except.map] at hd

/-! ### Copies -/

/-- The events of copying a node and everything below it. -/
def copyEventsWithin : Nat → Option Handle → Document → Handle → List Event
  | depth, home, d, h =>
    .allocated (d.copyTop home (d.node h)).1 ::
      match depth with
      | 0 => []
      | depth + 1 => foldEvents
          (fun d' c => (copyWithin depth (some (d.copyTop home (d.node h)).1) c d').2)
          (copyEventsWithin depth (some (d.copyTop home (d.node h)).1))
          (d.copyTop home (d.node h)).2 (d.node h).children

theorem copyTop_annals (d : Document) (home : Option Handle) (n : Node) :
    Annals d [.allocated (d.copyTop home n).1] (d.copyTop home n).2 := by
  cases home with
  | none => exact .one_alloc d _
  | some p =>
    unfold copyTop
    apply (Annals.one_alloc d _).then_write
    dsimp only
    exact .modify _ p _

theorem copyWithin_annals (depth : Nat) (home : Option Handle) (d : Document) (h : Handle) :
    Annals d (copyEventsWithin depth home d h) (copyWithin depth home h d).2 := by
  induction depth generalizing home d h with
  | zero =>
    rw [copyEventsWithin.eq_def, copyWithin_eq]
    exact copyTop_annals d home _
  | succ depth ih =>
    rw [copyEventsWithin.eq_def, copyWithin_eq]
    exact (copyTop_annals d home _).append (.foldl (ih _) _ _)

/-- The events of copying a node and everything below it. -/
def deepCloneEvents (d : Document) (h : Handle) : List Event :=
  copyEventsWithin d.reach none d h

theorem deepClone_annals (d : Document) (h : Handle) :
    Annals d (d.deepCloneEvents h) (d.deepClone h).2 :=
  copyWithin_annals d.reach none d h

/-- The copy is the first handle that is given out. -/
theorem fst_deepClone_mem (d : Document) (h : Handle) :
    (d.deepClone h).1 ∈ allocations (d.deepCloneEvents h) := by
  have hcopy : (d.deepClone h).1 = (d.copyTop none (d.node h)).1 := by
    rw [deepClone, copyWithin_eq]
  rw [hcopy, deepCloneEvents, copyEventsWithin.eq_def]
  exact List.mem_cons_self

/-! ### Instances of a list -/

/-- The events of putting copies before a node. -/
def copiesBeforeEvents (h : Handle) : Nat → Document → List Event
  | 0, _ => []
  | k + 1, d => d.deepCloneEvents h ++
      copiesBeforeEvents h k ((d.deepClone h).2.insertBefore (d.deepClone h).1 h)

theorem copiesBefore_annals (h : Handle) (k : Nat) (d : Document) :
    Annals d (copiesBeforeEvents h k d) (d.copiesBefore h k).2 := by
  induction k generalizing d with
  | zero => exact .done d
  | succ k ih =>
    exact ((deepClone_annals d h).then_write (.insertBefore _ _ h)).append (ih _)

/-- The events of putting copies of a node behind another one. -/
def copiesAfterEvents (h : Handle) : Nat → Handle → Document → List Event
  | 0, _, _ => []
  | k + 1, anchor, d => d.deepCloneEvents h ++ copiesAfterEvents h k (d.deepClone h).1
      ((d.deepClone h).2.insertAfter (d.deepClone h).1 anchor)

theorem copiesAfter_annals (h : Handle) (k : Nat) (anchor : Handle) (d : Document) :
    Annals d (copiesAfterEvents h k anchor d) (d.copiesAfter h k anchor).2 := by
  induction k generalizing anchor d with
  | zero => exact .done d
  | succ k ih =>
    exact ((deepClone_annals d h).then_write (.insertAfter _ _ anchor)).append (ih _ _)

/-! ### Content -/

def appendValueEvents (d : Document) (h : Handle) (v : Value) : List Event :=
  if looksLikeMarkup v then
    match d.appendMarkup h v.display with
    | .ok _ => d.appendMarkupEvents h v.display
    | .error _ => d.appendTextEvents v.display
  else d.appendTextEvents v.display

theorem appendValue_annals (d : Document) (h : Handle) (v : Value) :
    Annals d (d.appendValueEvents h v) (d.appendValue h v) := by
  unfold appendValueEvents appendValue
  split
  · cases happend : d.appendMarkup h v.display with
    | ok d' => exact appendMarkup_annals happend
    | error e => exact appendText_annals d h _
  · exact appendText_annals d h _

/-- The events of making a value the content of a node. -/
def applyContentEvents (d : Document) (h : Handle) (v : Value) (clear : Bool) : List Event :=
  if d.innerMarkup h = v.display || !clear then []
  else
    d.clearChildrenEvents h ++
      if v.display.isEmpty then [] else (d.clearChildren h).appendValueEvents h v

theorem applyContent_annals (d : Document) (h : Handle) (v : Value) (clear : Bool) :
    Annals d (d.applyContentEvents h v clear) (d.applyContent h v clear) := by
  unfold applyContentEvents applyContent
  dsimp only
  split
  · exact .done d
  · split
    · rw [List.append_nil]
      exact clearChildren_annals d h
    · exact (clearChildren_annals d h).append (appendValue_annals _ h v)

end Document

namespace ListChange

open Document (Event Annals SameSlots)

/-- The events of carrying out what a list makes of a node. -/
def events (change : ListChange) (h : Handle) (count : Nat) (d : Document) : List Event :=
  match change with
  | .conceal | .keep _ => []
  | .discard => d.removeEvents h
  | .spread => Document.copiesBeforeEvents h (count - 1) (d.setVisible h true)
  | .grow index => Document.copiesAfterEvents h (count - 1 - index) h (d.setVisible h true)

theorem apply_annals (change : ListChange) (h : Handle) (count : Nat) (d : Document) :
    Annals d (change.events h count d) (change.apply h count d).2 := by
  have hshown := SameSlots.setVisible d h true
  cases change with
  | conceal => exact .of_sameSlots ((SameSlots.setMarker d h _).trans (.setVisible _ h false))
  | discard => exact Document.remove_annals d h
  | spread =>
    apply Annals.then_write (.write hshown (Document.copiesBefore_annals h (count - 1) _))
    exact .stampFrom count 0 _ _
  | grow index =>
    apply Annals.then_write (.write hshown (Document.copiesAfter_annals h (count - 1 - index) h _))
    exact .stampFrom count index _ _
  | keep index => exact .of_sameSlots (hshown.trans (.stampFrom count index [h] _))

end ListChange

end TreeTemplate
