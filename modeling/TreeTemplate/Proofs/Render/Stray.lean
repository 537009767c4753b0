import TreeTemplate.Proofs.Document.Cloning
import TreeTemplate.Proofs.Document.Events
import TreeTemplate.Proofs.Render.HostEdit

/-!
Edits through handles that are not live.  A write that finds no live node lands on the vacant node, so
an edit that is given no live node changes none (`HostEdit.get?_apply_of_dead`).  Without making a node
it changes what dead handles read as and nothing else but the count of changes
(`HostEdit.exists_apply_of_dead`).  An edit that is given live nodes and dead ones changes at most the
nodes it is given and their parents (`HostEdit.get?_apply_of_not_given`).
-/

namespace TreeTemplate

namespace Document

variable {d₀ d : Document} {T : Set Handle} {h p r x : Handle} {n : Node}

/-! ### The bystanders of a change -/

/-- Coming from `d₀`, only handles in `T` may read otherwise by now; handles that were not live are
all in `T`. -/
structure Bystanders (d₀ : Document) (T : Set Handle) (d : Document) : Prop where
  tidy : d.Tidy
  get?_eq : ∀ x ∉ T, d.get? x = d₀.get? x
  dead : ∀ x, d₀.get? x = none → x ∈ T

namespace Bystanders

variable (hb : Bystanders d₀ T d)

include hb

theorem put (hh : h ∈ T) (n : Node) : Bystanders d₀ T (d.put h n) := by
  refine ⟨(SameSlots.put d h n).tidy hb.tidy, fun x hx => ?_, hb.dead⟩
  rw [← hb.get?_eq x hx]
  cases hm : d.get? h with
  | none =>
    rw [Document.put, hm]
    rfl
  | some m =>
    have hne : x ≠ h := fun hxh => hx (hxh ▸ hh)
    rw [get?_put hm, if_neg hne]

theorem modify (hh : h ∈ T) (f : Node → Node) : Bystanders d₀ T (d.modify h f) :=
  hb.put hh _

theorem mutated : Bystanders d₀ T d.mutated :=
  ⟨hb.tidy.mutated, hb.get?_eq, hb.dead⟩

/-- The handle of a new node was not live at the start, or it was and may read otherwise. -/
theorem fst_alloc_mem (n : Node) : (d.alloc n).1 ∈ T := by
  by_contra hfst
  have hfresh := get?_fst_alloc hb.tidy n
  rw [hb.get?_eq _ hfst] at hfresh
  exact hfst (hb.dead _ hfresh)

theorem alloc (n : Node) : Bystanders d₀ T (d.alloc n).2 := by
  refine ⟨hb.tidy.alloc n, fun x hx => ?_, hb.dead⟩
  have hne : x ≠ (d.alloc n).1 := fun hxh => hx (hxh ▸ hb.fst_alloc_mem n)
  rw [get?_alloc hb.tidy, if_neg hne, hb.get?_eq x hx]

/-! ### Moving nodes -/

theorem detach (hh : h ∈ T) (hp : ∀ p, (d.writable h).parent? = some p → p ∈ T) :
    Bystanders d₀ T (d.detach h) := by
  unfold Document.detach
  dsimp only
  split
  · next p hparent => exact (hb.put hh _).modify (hp p hparent) _
  · exact hb.put hh _

theorem link (hp : p ∈ T) (hh : h ∈ T) (place : List Handle → List Handle) :
    Bystanders d₀ T (d.link p h place) := by
  unfold Document.link
  exact (hb.modify hh _).modify hp _

theorem insertAt (hh : h ∈ T) (hp : p ∈ T) (index : Nat) :
    Bystanders d₀ T (d.insertAt h p index) :=
  (hb.link hp hh _).mutated

theorem appendChild (hp : p ∈ T) (hh : h ∈ T)
    (hparent : ∀ q, (d.writable h).parent? = some q → q ∈ T) :
    Bystanders d₀ T (d.appendChild p h) :=
  ((hb.detach hh hparent).link hp hh _).mutated

/-! ### New nodes -/

theorem appendText (hh : h ∈ T) (text : String) : Bystanders d₀ T (d.appendText h text) := by
  have hid := hb.fst_alloc_mem (Node.new (.text text))
  have hb₁ := hb.alloc (Node.new (.text text))
  have hnew := get?_alloc hb.tidy (Node.new (.text text)) (d.alloc (Node.new (.text text))).1
  unfold Document.appendText
  generalize d.alloc (Node.new (.text text)) = made at hid hb₁ hnew ⊢
  rw [if_pos rfl] at hnew
  refine hb₁.appendChild hh hid fun q hq => ?_
  simp [writable_of_get? hnew, Node.new] at hq

theorem plantNode (hp : p ∈ T) (n : Node) :
    (d.plantNode p n).1 ∈ T ∧ Bystanders d₀ T (d.plantNode p n).2 := by
  have hid := hb.fst_alloc_mem { n with parent? := some p }
  have hb₁ := hb.alloc { n with parent? := some p }
  unfold Document.plantNode
  generalize d.alloc { n with parent? := some p } = made at hid hb₁ ⊢
  dsimp only
  exact ⟨hid, hb₁.modify hp _⟩

omit hb

mutual

theorem plant {d : Document} (hb : Bystanders d₀ T d) {p : Handle} (hp : p ∈ T) :
    (m : Markup) → Bystanders d₀ T (d.plant p m)
  | .element tag attributes children => by
    obtain ⟨hid, hb₁⟩ := hb.plantNode hp (elementNode tag attributes)
    exact plantAll hb₁ hid children
  | .text content => (hb.plantNode hp _).2
  | .comment body => (hb.plantNode hp _).2

theorem plantAll {d : Document} (hb : Bystanders d₀ T d) {p : Handle} (hp : p ∈ T) :
    (ms : List Markup) → Bystanders d₀ T (d.plantAll p ms)
  | [] => hb
  | m :: rest => plantAll (plant hb hp m) hp rest

end

/-- The copy of the topmost node. -/
theorem copyTop (hb : Bystanders d₀ T d) {home : Option Handle} (hhome : ∀ p ∈ home, p ∈ T)
    (n : Node) : (d.copyTop home n).1 ∈ T ∧ Bystanders d₀ T (d.copyTop home n).2 := by
  have hid := hb.fst_alloc_mem { n with parent? := home, children := [] }
  have hb₁ := hb.alloc { n with parent? := home, children := [] }
  unfold Document.copyTop
  generalize d.alloc { n with parent? := home, children := [] } = made at hid hb₁ ⊢
  refine ⟨hid, ?_⟩
  dsimp only
  cases home with
  | none => exact hb₁
  | some p => exact hb₁.modify (hhome p rfl) _

/-- Copies are written to nodes that are new themselves, whatever is copied. -/
theorem copyWithin (depth : Nat) {d : Document} (hb : Bystanders d₀ T d) {home : Option Handle}
    (hhome : ∀ p ∈ home, p ∈ T) (h : Handle) :
    Bystanders d₀ T (copyWithin depth home h d).2 := by
  induction depth generalizing d home h with
  | zero =>
    rw [copyWithin_eq]
    exact (hb.copyTop hhome _).2
  | succ depth ih =>
    rw [copyWithin_eq]
    obtain ⟨hid, hb₁⟩ := hb.copyTop hhome (d.node h)
    have hfold : ∀ (cs : List Handle) (d' : Document), Bystanders d₀ T d' → Bystanders d₀ T
        (cs.foldl (fun d' c =>
          (Document.copyWithin depth (some (d.copyTop home (d.node h)).1) c d').2) d') := by
      intro cs
      induction cs with
      | nil => exact fun _ hb' => hb'
      | cons c rest ih' =>
        intro d' hb'
        refine ih' _ (ih hb' (fun p hp => ?_) c)
        rw [← Option.some.inj hp]
        exact hid
    exact hfold _ _ hb₁

theorem deepClone (hb : Bystanders d₀ T d) (h : Handle) : Bystanders d₀ T (d.deepClone h).2 :=
  copyWithin _ hb (by simp) h

/-! ### Records -/

include hb

theorem setAttribute (hh : h ∈ T) (name value : String) :
    Bystanders d₀ T (d.setAttribute h name value) := by
  unfold Document.setAttribute
  dsimp only
  split
  · split
    · exact hb
    · exact (hb.put hh _).mutated
  · exact hb.put hh _

theorem removeAttribute (hh : h ∈ T) (name : String) :
    Bystanders d₀ T (d.removeAttribute h name) := by
  unfold Document.removeAttribute
  dsimp only
  split
  · split
    · exact (hb.put hh _).mutated
    · exact hb
  · exact hb.put hh _

theorem setVisible (hh : h ∈ T) (visible : Bool) :
    Bystanders d₀ T (d.setVisible h visible) := by
  unfold Document.setVisible
  dsimp only
  split
  · exact hb.put hh _
  · exact (hb.put hh _).mutated

end Bystanders

/-! ### Dead handles -/

/-- The document with other content of the vacant node. -/
def leaving (d : Document) (n : Node) : Document :=
  { d with vacant := n }

@[simp] theorem get?_leaving (d : Document) (n : Node) (h : Handle) :
    (d.leaving n).get? h = d.get? h :=
  rfl

@[simp] theorem leaving_leaving (d : Document) (n m : Node) :
    (d.leaving n).leaving m = d.leaving m :=
  rfl

theorem writable_of_dead (hh : d.get? h = none) : d.writable h = Node.new .root := by
  rw [writable, hh, Option.getD_none]

theorem put_of_dead (hh : d.get? h = none) (n : Node) : d.put h n = d.leaving n := by
  rw [put, hh, leaving]

theorem modify_of_dead (hh : d.get? h = none) (f : Node → Node) :
    d.modify h f = d.leaving (f (Node.new .root)) := by
  rw [modify, put_of_dead hh, writable_of_dead hh]

theorem detach_of_dead (hh : d.get? h = none) : d.detach h = d.leaving (Node.new .root) := by
  simp only [detach, writable_of_dead hh, put_of_dead hh]
  rfl

/-- After a dead handle was detached no dead handle has a place. -/
theorem position?_detach_of_dead (hh : d.get? h = none) (hr : d.get? r = none) :
    (d.detach h).position? r = none := by
  have hnode : (d.detach h).node r = Node.new .root := by
    rw [detach_of_dead hh, node, get?_leaving, hr]
    rfl
  rw [position?, hnode]
  rfl

/-! ### Parents while a node is detached -/

/-- What writes start from has no parent but the one that is read. -/
theorem parent?_of_writable (hp : (d.writable h).parent? = some p) : d.parent? h = some p := by
  cases hn : d.get? h with
  | none =>
    rw [writable_of_dead hn] at hp
    simp [Node.new] at hp
  | some n =>
    rw [writable_of_get? hn] at hp
    rw [parent?, node_of_get? hn, hp]

/-- A write that gives a node no other parent gives none to any node. -/
theorem parent?_of_parent?_put (hn : ∀ q, n.parent? = some q → (d.writable h).parent? = some q)
    (hp : (d.put h n).parent? r = some p) : d.parent? r = some p := by
  cases hh : d.get? h with
  | none =>
    rw [put_of_dead hh, parent?, node, get?_leaving] at hp
    cases hr : d.get? r with
    | some m =>
      rw [hr] at hp
      rw [parent?, node, hr]
      exact hp
    | none =>
      rw [hr] at hp
      have hparent := hn p hp
      rw [writable_of_dead hh] at hparent
      simp [Node.new] at hparent
  | some m =>
    by_cases hrh : r = h
    · subst hrh
      rw [parent?, node, get?_put hh, if_pos rfl] at hp
      exact parent?_of_writable (hn p hp)
    · rw [parent?, node, get?_put hh, if_neg hrh, vacant_put hh] at hp
      exact hp

theorem parent?_of_parent?_detach (hp : (d.detach h).parent? r = some p) :
    d.parent? r = some p := by
  have hput : ∀ q, ({ d.writable h with parent? := none } : Node).parent? = some q →
      (d.writable h).parent? = some q := fun q hq => by simp at hq
  simp only [detach, modify] at hp
  split at hp
  · refine parent?_of_parent?_put hput (parent?_of_parent?_put ?_ hp)
    exact fun _ hq => hq
  · exact parent?_of_parent?_put hput hp

/-- The parent of a node's place is the parent of the node. -/
theorem parent?_of_position? {place : Handle × Nat} (hplace : d.position? r = some place) :
    d.parent? r = some place.1 := by
  simp only [position?, Option.bind_eq_bind, Option.bind_eq_some_iff] at hplace
  obtain ⟨q, hq, index, -, hplace⟩ := hplace
  rw [← Option.some.inj hplace]
  exact hq

end Document

namespace HostEdit

variable {d : Document} {T : Set Handle} {x : Handle} {n : Node}

/-- The nodes that the edit is given. -/
def handles : HostEdit → List Handle
  | createElement _ | resetMutations => []
  | appendChild parent h => [parent, h]
  | insertBefore h reference | insertAfter h reference | replace h reference => [h, reference]
  | appendText h _ | appendMarkup h _ | remove h | clearChildren h | deepClone h
  | setAttribute h _ _ | removeAttribute h _ | setVisible h _ | setMarker h _
  | modifyProperties h _ | setData h _ _ | attachCallback h _ | detachCallbacks h => [h]

/-- The edit discards nodes. -/
def Discards : HostEdit → Prop
  | remove _ | clearChildren _ => True
  | _ => False

/-- The edit makes nodes. -/
def Makes : HostEdit → Prop
  | createElement _ | appendText _ _ | appendMarkup _ _ | deepClone _ => True
  | _ => False

/-- `T` holds all handles that the edit writes to, new nodes apart. -/
structure Covered (d : Document) (T : Set Handle) (edit : HostEdit) : Prop where
  given : ∀ h ∈ edit.handles, h ∈ T
  parents : ∀ h ∈ edit.handles, ∀ p, (d.writable h).parent? = some p → p ∈ T
  places : ∀ h ∈ edit.handles, ∀ r ∈ edit.handles, ∀ place,
    (d.detach h).position? r = some place → place.1 ∈ T
  discards : edit.Discards → ∀ h ∈ edit.handles, d.get? h = none

theorem bystanders (edit : HostEdit) (ht : d.Tidy) (hdead : ∀ x, d.get? x = none → x ∈ T)
    (hedit : edit.Covered d T) : d.Bystanders T (edit.apply d) := by
  have hb : d.Bystanders T d := ⟨ht, fun _ _ => rfl, hdead⟩
  obtain ⟨hgiven, hparents, hplaces, hdiscards⟩ := hedit
  cases edit with
  | createElement tag => exact hb.alloc _
  | appendChild parent h =>
    exact hb.appendChild (hgiven parent (by simp [handles])) (hgiven h (by simp [handles]))
      (hparents h (by simp [handles]))
  | appendText h text => exact hb.appendText (hgiven h (by simp [handles])) text
  | appendMarkup h source =>
    simp only [apply, Document.appendMarkup]
    cases parseMarkup source with
    | error e => exact hb
    | ok nodes =>
      simp only [Except.map]
      split
      · exact hb
      · exact (hb.plantAll (hgiven h (by simp [handles])) nodes).mutated
  | insertBefore h r =>
    have hdetached := hb.detach (hgiven h (by simp [handles])) (hparents h (by simp [handles]))
    simp only [apply, Document.insertBefore]
    split
    · next p index hplace =>
      exact hdetached.insertAt (hgiven h (by simp [handles]))
        (hplaces h (by simp [handles]) r (by simp [handles]) (p, index) hplace) index
    · exact hdetached
  | insertAfter h r =>
    have hdetached := hb.detach (hgiven h (by simp [handles])) (hparents h (by simp [handles]))
    simp only [apply, Document.insertAfter]
    split
    · next p index hplace =>
      exact hdetached.insertAt (hgiven h (by simp [handles]))
        (hplaces h (by simp [handles]) r (by simp [handles]) (p, index) hplace) (index + 1)
    · exact hdetached
  | replace h old =>
    have hdetached := hb.detach (hgiven h (by simp [handles])) (hparents h (by simp [handles]))
    simp only [apply, Document.replace]
    split
    · next p index hplace =>
      exact (((hdetached.modify
        (hplaces h (by simp [handles]) old (by simp [handles]) (p, index) hplace) _).modify
        (hgiven h (by simp [handles])) _).modify (hgiven old (by simp [handles])) _).mutated
    · exact hdetached
  | remove h =>
    have hh := hdiscards trivial h (by simp [handles])
    simp only [apply, Document.remove, hh]
    exact hb
  | clearChildren h =>
    have hh := hdiscards trivial h (by simp [handles])
    simp only [apply, Document.clearChildren, Document.writable_of_dead hh]
    exact hb.put (hdead h hh) _
  | deepClone h => exact hb.deepClone h
  | setAttribute h name value => exact hb.setAttribute (hgiven h (by simp [handles])) name value
  | removeAttribute h name => exact hb.removeAttribute (hgiven h (by simp [handles])) name
  | setVisible h visible => exact hb.setVisible (hgiven h (by simp [handles])) visible
  | setMarker h _ | modifyProperties h _ | setData h _ _ | attachCallback h _ | detachCallbacks h =>
    simp only [apply, Document.setMarker, Document.modifyProperties, Document.setData,
      Document.attachCallback, Document.detachCallbacks]
    exact hb.modify (hgiven h (by simp [handles])) _
  | resetMutations => exact ⟨⟨ht.free_nodup, ht.mem_free⟩, fun _ _ => rfl, hdead⟩

/-- An edit that is given no live node leaves every live node as it was. -/
theorem get?_apply_of_dead (edit : HostEdit) (ht : d.Tidy)
    (hdead : ∀ h ∈ edit.handles, d.get? h = none) (hn : d.get? x = some n) :
    (edit.apply d).get? x = some n := by
  have hcovered : edit.Covered d {x | d.get? x = none} :=
    { given := hdead
      parents := by
        intro h hh p hp
        simp [Document.writable_of_dead (hdead h hh), Node.new] at hp
      places := by
        intro h hh r hr place hplace
        simp [Document.position?_detach_of_dead (hdead h hh) (hdead r hr)] at hplace
      discards := fun _ => hdead }
  have hx : x ∉ {x | d.get? x = none} := fun (hnone : d.get? x = none) => by simp [hn] at hnone
  rw [(edit.bystanders ht (fun _ hx => hx) hcovered).get?_eq x hx, hn]

/-- Nor does it change the markup. -/
theorem toMarkup_apply_of_dead (edit : HostEdit) (hd : d.Forest)
    (hdead : ∀ h ∈ edit.handles, d.get? h = none) : (edit.apply d).toMarkup = d.toMarkup :=
  hd.toMarkup_eq fun _ _ hn => edit.get?_apply_of_dead hd.tidy hdead hn

/-- What the edit adds to the count of changes when it is given no live node. -/
def miscount : HostEdit → Nat
  | appendChild _ _ => 1
  | setVisible _ visible => if visible then 0 else 1
  | _ => 0

/-- An edit that is given no live node and makes none leaves all slots alone.  What dead handles read
as from then on does not depend on the document, unless it stays as it was. -/
theorem exists_apply_of_dead (edit : HostEdit) (hgiven : edit.handles ≠ []) (hmakes : ¬ edit.Makes) :
    ∃ left? : Option Node, ∀ d : Document, (∀ h ∈ edit.handles, d.get? h = none) →
      edit.apply d =
        { d with vacant := left?.getD d.vacant, mutations := d.mutations + edit.miscount } := by
  cases edit with
  | appendChild parent h =>
    refine ⟨some { Node.new .root with children := [h] }, fun d hdead => ?_⟩
    have hh : d.get? h = none := hdead h (by simp [handles])
    have hp : d.get? parent = none := hdead parent (by simp [handles])
    simp [apply, Document.appendChild, Document.link, Document.detach_of_dead, Document.modify_of_dead,
      hh, hp]
    rfl
  | insertBefore h r | insertAfter h r | replace h r =>
    refine ⟨some (Node.new .root), fun d hdead => ?_⟩
    have hh : d.get? h = none := hdead h (by simp [handles])
    have hr : d.get? r = none := hdead r (by simp [handles])
    simp only [apply, Document.insertBefore, Document.insertAfter, Document.replace,
      Document.position?_detach_of_dead hh hr]
    rw [Document.detach_of_dead hh]
    rfl
  | remove h =>
    refine ⟨none, fun d hdead => ?_⟩
    simp only [apply, Document.remove, hdead h (by simp [handles])]
    rfl
  | clearChildren h | setAttribute h _ _ | removeAttribute h _ =>
    refine ⟨some (Node.new .root), fun d hdead => ?_⟩
    have hh : d.get? h = none := hdead h (by simp [handles])
    simp only [apply, Document.clearChildren, Document.setAttribute, Document.removeAttribute,
      Document.writable_of_dead hh, Document.put_of_dead hh]
    rfl
  | setVisible h visible =>
    refine ⟨some { Node.new .root with visible := visible }, fun d hdead => ?_⟩
    have hh : d.get? h = none := hdead h (by simp [handles])
    simp only [apply, Document.setVisible, Document.writable_of_dead hh, Document.put_of_dead hh]
    cases visible <;> rfl
  | setMarker h _ | modifyProperties h _ | setData h _ _ | attachCallback h _ | detachCallbacks h =>
    simp only [apply, Document.setMarker, Document.modifyProperties, Document.setData,
      Document.attachCallback, Document.detachCallbacks]
    exact ⟨some _, fun d hdead => Document.modify_of_dead (hdead h (by simp [handles])) _⟩
  | createElement | resetMutations => simp [handles] at hgiven
  | appendText | appendMarkup | deepClone => exact absurd trivial hmakes

/-- A removed node is hidden: this is counted, and every other dead handle reads as hidden from then on. -/
example :
    let d := (Document.empty.plantAll Document.root [.element "p" [] []]).remove ⟨1, 0⟩
    let d' := (setVisible ⟨1, 0⟩ false).apply d
    d'.mutations = d.mutations + 1 ∧ (d'.node ⟨7, 0⟩).visible = false := by
  decide +kernel

/-- An edit that discards no live node changes none but those it is given and their parents. -/
theorem get?_apply_of_not_given (edit : HostEdit) (ht : d.Tidy)
    (hdiscards : edit.Discards → ∀ h ∈ edit.handles, d.get? h = none) (hn : d.get? x = some n)
    (hx : x ∉ edit.handles) (hparent : ∀ h ∈ edit.handles, d.parent? h ≠ some x) :
    (edit.apply d).get? x = some n := by
  let T : Set Handle := {y | d.get? y = none ∨ y ∈ edit.handles ∨
    ∃ h ∈ edit.handles, d.parent? h = some y}
  have hcovered : edit.Covered d T :=
    { given := fun h hh => Or.inr (Or.inl hh)
      parents := by
        intro h hh p hp
        exact Or.inr (Or.inr ⟨h, hh, Document.parent?_of_writable hp⟩)
      places := by
        intro h hh r hr place hplace
        have hr' := Document.parent?_of_parent?_detach (Document.parent?_of_position? hplace)
        exact Or.inr (Or.inr ⟨r, hr, hr'⟩)
      discards := hdiscards }
  have hout : x ∉ T := by
    rintro (hnone | hgiven | ⟨h, hh, hp⟩)
    · simp [hn] at hnone
    · exact hx hgiven
    · exact hparent h hh hp
  rw [(edit.bystanders ht (fun _ hx => Or.inl hx) hcovered).get?_eq x hout, hn]

end HostEdit

end TreeTemplate
