import TreeTemplate.Proofs.Render.Instances
import TreeTemplate.Proofs.Render.Survey

/-!
How many changes of the markup an operation counts.  Records and trees that look the same are changed
equally often, so the count depends on what an operation finds, not on where it finds it.
-/

namespace TreeTemplate

/-! ### Counts of changes of records -/

/-- The number of changes that a change of a record counts: one if the markup can show it. -/
def Edit.changes (n : Node) (e : Edit) : Nat :=
  if (e.record n).content = n.content ∧ (e.record n).visible = n.visible then 0 else 1

/-- The number of changes that several changes of a record count. -/
def Node.changes : Node → List Edit → Nat
  | _, [] => 0
  | n, e :: rest => e.changes n + (e.record n).changes rest

/-- The number of changes that new content counts: one for what goes and one for what comes. -/
def contentChanges (ks : List Shape) (v : Value) (clear : Bool) : Nat :=
  if String.ofList (ks.flatMap Shape.chars) = v.display ∨ clear = false then 0
  else (if ks = [] then 0 else 1) + if Document.contentShapes v = [] then 0 else 1

/-- The number of changes that a node below another one counts when it gives way to what it selects. -/
def Node.selectChanges (n : Node) : Value → Nat
  | .array items =>
    match ListChange.of n.marker? items.length with
    | .conceal => n.changes [.visible false]
    | .discard => 1
    | change => n.changes [.visible true] + ((change.extent items.length).2 - 1)
  | .null => n.changes [.visible false]
  | _ => n.changes [.visible true]

namespace Document

variable {d d₁ : Document} {h p : Handle} {n m : Node} {home : Option Handle} {t u : NodeTree}
  {A ks : List NodeTree}

/-! ### What counts nothing -/

@[simp] theorem mutations_mutated (d : Document) : d.mutated.mutations = d.mutations + 1 :=
  rfl

@[simp] theorem mutations_put (d : Document) (h : Handle) (n : Node) :
    (d.put h n).mutations = d.mutations := by
  unfold put
  split <;> rfl

@[simp] theorem mutations_modify (d : Document) (h : Handle) (f : Node → Node) :
    (d.modify h f).mutations = d.mutations :=
  d.mutations_put h _

@[simp] theorem mutations_alloc (d : Document) (n : Node) :
    (d.alloc n).2.mutations = d.mutations := by
  unfold alloc
  split <;> rfl

theorem mutations_foldr {f : Handle → Document → Document}
    (hf : ∀ c d, (f c d).mutations = d.mutations) (cs : List Handle) (d : Document) :
    (cs.foldr f d).mutations = d.mutations := by
  induction cs with
  | nil => rfl
  | cons c cs ih => exact (hf c _).trans ih

theorem mutations_releaseWithin (depth : Nat) (h : Handle) (d : Document) :
    (releaseWithin depth h d).mutations = d.mutations := by
  induction depth generalizing h d with
  | zero => rfl
  | succ depth ih =>
    rw [releaseWithin]
    split
    · rfl
    · exact mutations_foldr ih _ _

@[simp] theorem mutations_release (d : Document) (h : Handle) :
    (d.release h).mutations = d.mutations :=
  mutations_releaseWithin d.reach h d

@[simp] theorem mutations_detach (d : Document) (h : Handle) :
    (d.detach h).mutations = d.mutations := by
  unfold detach
  dsimp only
  split <;> simp

@[simp] theorem mutations_link (d : Document) (parent h : Handle) (place : List Handle → List Handle) :
    (d.link parent h place).mutations = d.mutations := by
  simp [link]

@[simp] theorem mutations_plantNode (d : Document) (parent : Handle) (n : Node) :
    (d.plantNode parent n).2.mutations = d.mutations := by
  simp [plantNode]

mutual

theorem mutations_plant (d : Document) (parent : Handle) :
    ∀ m : Markup, (d.plant parent m).mutations = d.mutations
  | .element tag attributes children => by
    rw [plant]
    exact (mutations_plantAll _ _ children).trans (mutations_plantNode d parent _)
  | .text content => by
    rw [plant]
    exact mutations_plantNode d parent _
  | .comment body => by
    rw [plant]
    exact mutations_plantNode d parent _

theorem mutations_plantAll (d : Document) (parent : Handle) :
    ∀ ms : List Markup, (d.plantAll parent ms).mutations = d.mutations
  | [] => rfl
  | m :: rest => by
    rw [plantAll]
    exact (mutations_plantAll _ parent rest).trans (mutations_plant d parent m)

end

theorem mutations_copyWithin (depth : Nat) (parent? : Option Handle) (source : Handle)
    (d : Document) : (copyWithin depth parent? source d).2.mutations = d.mutations := by
  induction depth generalizing parent? source d with
  | zero =>
    rw [copyWithin]
    cases parent? <;> simp
  | succ depth ih =>
    rw [copyWithin]
    dsimp only
    have hfold : ∀ (id : Handle) (cs : List Handle) (d : Document),
        (cs.foldl (fun d c => (copyWithin depth (some id) c d).2) d).mutations = d.mutations := by
      intro id cs
      induction cs with
      | nil => exact fun _ => rfl
      | cons c cs ihc => exact fun d => (ihc _).trans (ih (some id) c d)
    rw [hfold]
    cases parent? <;> simp

@[simp] theorem mutations_deepClone (d : Document) (h : Handle) :
    (d.deepClone h).2.mutations = d.mutations :=
  mutations_copyWithin d.reach none h d

@[simp] theorem mutations_setMarker (d : Document) (h : Handle) (m : Option Marker) :
    (d.setMarker h m).mutations = d.mutations :=
  d.mutations_modify h _

@[simp] theorem mutations_stampFrom (count index : Nat) (hs : List Handle) (d : Document) :
    (d.stampFrom count index hs).mutations = d.mutations := by
  induction hs generalizing index d with
  | nil => rfl
  | cons h hs ih => exact (ih _ _).trans (d.mutations_setMarker h _)

/-! ### What counts changes -/

theorem mutations_setAttribute (hn : d.get? h = some n) (name value : String) :
    (d.setAttribute h name value).mutations =
      d.mutations + if n.content.put name value = n.content then 0 else 1 := by
  unfold setAttribute Content.put
  simp only [writable_of_get? hn]
  cases hcontent : n.content with
  | element tag attributes =>
    simp only [Content.element.injEq, true_and]
    split
    · next hget => rw [if_pos (Dict.put_of_get? hget)]; rfl
    · next hget =>
      have hne : Dict.put attributes name value ≠ attributes := fun heq =>
        hget ((congrArg (Dict.get? · name) heq).symm.trans (Dict.get?_put_self attributes name value))
      rw [if_neg hne, mutations_mutated, mutations_put]
  | root | text s | comment s => simp

theorem mutations_removeAttribute (hn : d.get? h = some n) (name : String) :
    (d.removeAttribute h name).mutations =
      d.mutations + if n.content.erase name = n.content then 0 else 1 := by
  unfold removeAttribute Content.erase
  simp only [writable_of_get? hn]
  cases hcontent : n.content with
  | element tag attributes =>
    simp only [Content.element.injEq, true_and, Dict.erase_eq_self, Dict.has_iff]
    split
    · rw [mutations_mutated, mutations_put]
    · rfl
  | root | text s | comment s => simp

theorem mutations_setVisible (hn : d.get? h = some n) (v : Bool) :
    (d.setVisible h v).mutations = d.mutations + if v = n.visible then 0 else 1 := by
  unfold setVisible
  simp only [writable_of_get? hn]
  split
  · next hv => rw [if_pos hv.symm, mutations_put, Nat.add_zero]
  · next hv => rw [if_neg (Ne.symm hv), mutations_mutated, mutations_put]

/-- A change of a record counts what it changes of what is seen. -/
theorem mutations_edit (hn : d.get? h = some n) (e : Edit) :
    (e.document h d).mutations = d.mutations + e.changes n := by
  unfold Edit.changes
  cases e with
  | identity name id => exact (mutations_setAttribute hn name id).trans (by simp [Edit.record])
  | value name v =>
    have hset : ∀ value, (d.setAttribute h name value).mutations =
        d.mutations + if n.content.put name value = n.content then 0 else 1 :=
      mutations_setAttribute hn name
    simp only [Edit.record, Edit.document, and_true]
    cases v with
    | bool value =>
      cases value with
      | true => exact hset name
      | false => exact mutations_removeAttribute hn name
    | null | number _ | string _ | array _ | object _ => exact hset _
  | property path v => simp [Edit.record, Edit.document, assignProperty, modifyProperties]
  | data name v => simp [Edit.record, Edit.document, setData]
  | visible v => exact (mutations_setVisible hn v).trans (by simp [Edit.record])

theorem mutations_edited (hn : d.get? h = some n) (edits : List Edit) :
    (d.edited h edits).mutations = d.mutations + n.changes edits := by
  induction edits generalizing d n with
  | nil => rfl
  | cons e rest ih =>
    rw [edited, List.foldl_cons, ← edited, ih (edit_rewritten hn e).get?_self, mutations_edit hn,
      Node.changes, Nat.add_assoc]

theorem mutations_appendText (d : Document) (h : Handle) (text : String) :
    (d.appendText h text).mutations = d.mutations + 1 := by
  simp [appendText, appendChild]

theorem mutations_appendValue (d : Document) (h : Handle) {v : Value}
    (hv : v.display.isEmpty = false) :
    (d.appendValue h v).mutations = d.mutations + if contentShapes v = [] then 0 else 1 := by
  unfold appendValue contentShapes appendMarkup
  simp only [hv]
  cases looksLikeMarkup v with
  | false => simpa using d.mutations_appendText h v.display
  | true =>
    cases parseMarkup v.display with
    | error e => simpa [Except.map] using d.mutations_appendText h v.display
    | ok nodes =>
      cases nodes with
      | nil => simp [Except.map]
      | cons m rest => simp [Except.map, mutations_plantAll]

@[simp] theorem mutations_foldl_release (d : Document) (cs : List Handle) :
    (cs.foldl release d).mutations = d.mutations := by
  induction cs generalizing d with
  | nil => rfl
  | cons c cs ih => exact (ih _).trans (d.mutations_release c)

theorem mutations_clearChildren (hn : d.get? h = some n) :
    (d.clearChildren h).mutations = d.mutations + if n.children = [] then 0 else 1 := by
  unfold clearChildren
  simp only [writable_of_get? hn]
  cases n.children with
  | nil => simp
  | cons c cs => simp

/-- New content counts what goes and what comes. -/
theorem mutations_applyContent (ht : d.Holds (.node h n ks)) (v : Value) (clear : Bool) :
    (d.applyContent h v clear).mutations =
      d.mutations + contentChanges (ks.map NodeTree.shape) v clear := by
  have hinner : d.innerMarkup h = String.ofList (ks.flatMap NodeTree.chars) := by
    rw [innerMarkup, innerChars_eq ht]
  have hcleared := mutations_clearChildren ht.get?_handle
  have hnil : n.children = [] ↔ ks.map NodeTree.shape = [] := by simp [ht.children]
  rw [NodeTree.record_node, NodeTree.handle_node] at hcleared
  simp only [hnil] at hcleared
  unfold applyContent contentChanges
  simp only [hinner, NodeTree.flatMap_chars_shape]
  by_cases hkeep : String.ofList (ks.flatMap NodeTree.chars) = v.display ∨ clear = false
  · rw [if_pos (by simpa using hkeep), if_pos hkeep, Nat.add_zero]
  rw [if_neg (by simpa using hkeep), if_neg hkeep]
  by_cases hempty : v.display.isEmpty
  · rw [if_pos hempty, hcleared, contentShapes, if_pos hempty, if_pos rfl, Nat.add_zero]
  · rw [if_neg hempty, mutations_appendValue _ _ (by simpa using hempty), hcleared, Nat.add_assoc]

/-! ### Copies -/

theorem mutations_insertBefore (hs : d.Seated (some p) [t]) (hg : Grown d d₁ none [u]) :
    (d₁.insertBefore u.handle t.handle).mutations = d₁.mutations + 1 := by
  obtain ⟨m, pre, post, -, -, hposition⟩ := position?_seated hs hg
  simp [insertBefore, detach_grown hg, hposition, insertAt]

theorem mutations_insertAfter (hs : d.Seated (some p) [t]) (hg : Grown d d₁ none [u]) :
    (d₁.insertAfter u.handle t.handle).mutations = d₁.mutations + 1 := by
  obtain ⟨m, pre, post, -, -, hposition⟩ := position?_seated hs hg
  simp [insertAfter, detach_grown hg, hposition, insertAt]

/-- Every copy among the children of a node counts. -/
theorem mutations_copiesBefore (k : Nat) (hs : d.Seated (some p) [t]) (ht : d.Tidy) :
    (copiesBefore t.handle k d).2.mutations = d.mutations + k := by
  induction k generalizing d with
  | zero => rfl
  | succ k ih =>
    obtain ⟨ht₁, u, hu, -, hg⟩ := deepClone_grown ht (hs.held t (List.mem_singleton_self t))
    obtain ⟨hr, ht₂⟩ := insertBefore_regrown hs ht₁ hg
    have hs₂ : Seated _ (some p) ([u.rehomed (some p)] ++ [t]) := hr.seated hs
    have hcopies := ih hs₂.right ht₂
    simp only [copiesBefore_succ, ← hu]
    rw [hcopies, mutations_insertBefore hs hg, mutations_deepClone]
    omega

theorem mutations_copiesAfter (k : Nat) (hs : d.Seated (some p) (A ++ [u])) (hmem : t ∈ A ++ [u])
    (ht : d.Tidy) : (copiesAfter t.handle k u.handle d).2.mutations = d.mutations + k := by
  induction k generalizing d A u with
  | zero => rfl
  | succ k ih =>
    obtain ⟨ht₁, v, hv, -, hg⟩ := deepClone_grown ht (hs.held t hmem)
    obtain ⟨hr, ht₂⟩ := insertAfter_regrown hs.right ht₁ hg
    have hr₂ := hr.append_left hs
    rw [show A ++ [u, v.rehomed (some p)] = A ++ [u] ++ [v.rehomed (some p)] by simp] at hr₂
    have hcopies := ih (hr₂.seated hs) (List.mem_append_left _ hmem) ht₂
    rw [NodeTree.handle_rehomed] at hcopies
    simp only [copiesAfter_succ, ← hv]
    rw [hcopies, mutations_insertAfter hs.right hg, mutations_deepClone]
    omega

theorem mutations_remove (hn : d.get? h = some n) (hroot : h ≠ root) (hparent : n.parent? = some p) :
    (d.remove h).mutations = d.mutations + 1 := by
  simp [remove, hn, hroot, hparent]

end Document

namespace ListChange

variable {d : Document} {p : Handle} {t : NodeTree}

/-- What a list makes of a node below another one counts the same wherever the node is. -/
theorem mutations_apply {items : List Value} (hs : d.Seated (some p) [t]) (ht : d.Tidy)
    (hstay : t.handle = Document.root → ListChange.of t.record.marker? items.length ≠ .discard) :
    ((ListChange.of t.record.marker? items.length).apply t.handle items.length d).2.mutations =
      d.mutations + t.record.selectChanges (.array items) := by
  have htop := (hs.held t (List.mem_singleton_self t)).get?_handle
  have hvisible : ∀ v, (d.setVisible t.handle v).mutations =
      d.mutations + t.record.changes [.visible v] := fun v =>
    Document.mutations_edited htop [.visible v]
  obtain ⟨ht₁, hr₁⟩ := Document.setVisible_shown hs ht true
  have hs₁ := hr₁.seated hs
  unfold Node.selectChanges
  dsimp only
  cases hchange : ListChange.of t.record.marker? items.length with
  | conceal =>
    have hmarked := Document.get?_modify htop (fun n => { n with marker? := some ⟨0, true⟩ }) t.handle
    rw [if_pos rfl] at hmarked
    exact Document.mutations_edited hmarked [.visible false] |>.trans (by
      rw [Document.mutations_modify]
      rfl)
  | discard =>
    exact Document.mutations_remove htop (fun hroot => hstay hroot hchange)
      (hs.parents t (List.mem_singleton_self t))
  | spread =>
    have hcopies := Document.mutations_copiesBefore (items.length - 1) hs₁ ht₁
    rw [NodeTree.handle_shown] at hcopies
    simp only [apply, Document.mutations_stampFrom, hcopies, hvisible, extent]
    omega
  | grow index =>
    have hcopies := Document.mutations_copiesAfter (A := []) (items.length - 1 - index) hs₁
      (List.mem_singleton_self (t.shown true)) ht₁
    rw [NodeTree.handle_shown] at hcopies
    simp only [apply, Document.mutations_stampFrom, hcopies, hvisible, extent]
    omega
  | keep index => simp only [apply, Document.mutations_stampFrom, hvisible, extent, Nat.add_zero,
      Nat.sub_self]

end ListChange

end TreeTemplate
