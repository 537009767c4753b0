import TreeTemplate.Proofs.Document.Frame
import TreeTemplate.Proofs.Document.Removal
import TreeTemplate.Proofs.Render.Changes
import TreeTemplate.Proofs.Render.HostEdit

/-!
The count of changes.  An edit that changes the markup counts it (`HostEdit.apply_tallied`), unless it
takes a node out of the tree to put it next to a node that has no place itself.
-/

namespace TreeTemplate

namespace Document

variable {d d' : Document} {h p : Handle} {n : Node} {t R : NodeTree}

/-- A node is written back in the guise that it has. -/
theorem guise_put (hn : n.guise = (d.writable h).guise) (x : Handle) :
    ((d.put h n).get? x).map Node.guise = (d.get? x).map Node.guise := by
  cases hh : d.get? h with
  | some m =>
    rw [writable_of_get? hh] at hn
    rw [get?_put hh]
    split
    · next hx => rw [hx, hh, Option.map_some, Option.map_some, hn]
    · rfl
  | none =>
    rw [put, hh]
    rfl

/-- A tree without a parent does not meet the tree of the root. -/
theorem Forest.detached_apart (hd : d.Forest) (hR : d.Holds R) (hroot : R.handle = root)
    (ht : d.Holds t) (hparent : t.record.parent? = none) (hne : t.handle ≠ root) {x : Handle}
    (hx : x ∈ R.handles) : x ∉ t.handles := by
  intro hmem
  have htop : R.handle ∉ t.handles := fun hmem' =>
    hne (hd.handle_eq_root ht (hroot ▸ hmem'))
  have hmeet := hR.handle_mem_of_meet ht htop hx hmem
  obtain ⟨m, y, hm, hy, -⟩ := hR.exists_parent hmeet (hroot ▸ hne)
  rw [ht.get?_handle] at hm
  obtain rfl := Option.some.inj hm
  simp [hparent] at hy

/-! ### What shows is counted -/

/-- If the markup of `d'` is not that of `d`, a change has been counted in between. -/
def Tallied (d d' : Document) : Prop :=
  d'.toMarkup ≠ d.toMarkup → d.mutations < d'.mutations

namespace Tallied

theorem of_eq (h : d'.toMarkup = d.toMarkup) : Tallied d d' :=
  fun hne => absurd h hne

theorem of_lt (h : d.mutations < d'.mutations) : Tallied d d' :=
  fun _ => h

/-- What is counted at once. -/
theorem mutated (h : d'.mutations = d.mutations) : Tallied d d'.mutated := by
  apply of_lt
  rw [mutations_mutated, h]
  exact Nat.lt_succ_self _

theorem put (hd : d.Forest) (hn : n.guise = (d.writable h).guise) : Tallied d (d.put h n) := by
  obtain ⟨r, hr, -⟩ := hd.rooted
  obtain ⟨ks, ht⟩ := hd.held root r hr
  exact of_eq (toMarkup_of_guise ht rfl fun x _ => guise_put hn x)

theorem modify (hd : d.Forest) {f : Node → Node} (hf : ∀ n, (f n).guise = n.guise) (h : Handle) :
    Tallied d (d.modify h f) :=
  put hd (hf _)

theorem insertAt (h p : Handle) (index : Nat) (hd : d'.mutations = d.mutations) :
    Tallied d (d'.insertAt h p index) :=
  mutated (by rw [mutations_link, hd])

theorem createElement (hd : d.Forest) (tag : String) : Tallied d (d.createElement tag).2 := by
  have hg : Grown d (d.createElement tag).2 none _ := alloc_grown hd.tidy rfl rfl
  exact of_eq (hg.retains.toMarkup_eq hd)

theorem deepClone (hd : d.Forest) (hn : d.get? h = some n) : Tallied d (d.deepClone h).2 := by
  obtain ⟨ks, ht⟩ := hd.held h n hn
  obtain ⟨-, u, -, -, hg⟩ := deepClone_grown hd.tidy ht
  exact of_eq (hg.retains.toMarkup_eq hd)

theorem remove (hd : d.Forest) (h : Handle) : Tallied d (d.remove h) := by
  unfold Document.remove
  cases hn : d.get? h with
  | none => exact of_eq rfl
  | some n =>
    dsimp only
    split
    · exact of_eq rfl
    next hroot =>
    split
    · apply of_lt
      simp
    next hparent =>
    obtain ⟨r, hr, -⟩ := hd.rooted
    obtain ⟨ks, hR⟩ := hd.held root r hr
    obtain ⟨ks', ht⟩ := hd.held h n hn
    obtain ⟨-, he⟩ := release_emptied hd.tidy ht
    refine of_eq (toMarkup_of_guise hR rfl fun x hx => ?_)
    rw [NodeTree.handle_node] at he
    rw [he.frame x (hd.detached_apart hR rfl ht (by simpa using hparent) hroot hx)]

theorem clearChildren (hd : d.Forest) (h : Handle) : Tallied d (d.clearChildren h) := by
  unfold Document.clearChildren
  dsimp only
  split
  · next hnil =>
    refine put hd ?_
    rw [Node.guise, Node.guise, List.isEmpty_iff.mp hnil]
  · exact mutated (by rw [mutations_foldl_release, mutations_put])

theorem setAttribute (hd : d.Forest) (h : Handle) (name value : String) :
    Tallied d (d.setAttribute h name value) := by
  unfold Document.setAttribute
  dsimp only
  split
  · split
    · exact of_eq rfl
    · exact mutated (mutations_put _ _ _)
  · exact put hd rfl

theorem removeAttribute (hd : d.Forest) (h : Handle) (name : String) :
    Tallied d (d.removeAttribute h name) := by
  unfold Document.removeAttribute
  dsimp only
  split
  · split
    · exact mutated (mutations_put _ _ _)
    · exact of_eq rfl
  · exact put hd rfl

theorem setVisible (hd : d.Forest) (h : Handle) (visible : Bool) :
    Tallied d (d.setVisible h visible) := by
  unfold Document.setVisible
  dsimp only
  split
  · exact put hd rfl
  · exact mutated (mutations_put _ _ _)

end Tallied

end Document

namespace HostEdit

variable {d : Document}

/-- The edit copies a live node, or finds a place for the node that it moves, or needs neither; and it
does not reset the count. -/
def Apt (d : Document) : HostEdit → Prop
  | deepClone h => d.contains h = true
  | insertBefore h reference | insertAfter h reference | replace h reference =>
    (d.detach h).position? reference ≠ none
  | resetMutations => False
  | _ => True

/-- A change of the markup of a well-formed document is counted. -/
theorem apply_tallied (edit : HostEdit) (hd : d.Forest) (hedit : edit.Apt d) :
    d.Tallied (edit.apply d) := by
  cases edit with
  | createElement tag => exact .createElement hd tag
  | appendChild parent h => exact .mutated (by simp)
  | appendText h text => exact .of_lt (by simp [apply, Document.mutations_appendText])
  | appendMarkup h source =>
    simp only [apply, Document.appendMarkup]
    cases parseMarkup source with
    | error e => exact .of_eq rfl
    | ok nodes =>
      simp only [Except.map]
      split
      · exact .of_eq rfl
      · exact .mutated (by simp [Document.mutations_plantAll])
  | insertBefore h reference =>
    obtain ⟨place, hplace⟩ := Option.ne_none_iff_exists'.mp hedit
    simp only [apply, Document.insertBefore, hplace]
    exact .insertAt _ _ _ (Document.mutations_detach d h)
  | insertAfter h reference =>
    obtain ⟨place, hplace⟩ := Option.ne_none_iff_exists'.mp hedit
    simp only [apply, Document.insertAfter, hplace]
    exact .insertAt _ _ _ (Document.mutations_detach d h)
  | replace h old =>
    obtain ⟨place, hplace⟩ := Option.ne_none_iff_exists'.mp hedit
    simp only [apply, Document.replace, hplace]
    exact .mutated (by simp)
  | remove h => exact .remove hd h
  | clearChildren h => exact .clearChildren hd h
  | deepClone h =>
    obtain ⟨n, hn⟩ := Option.isSome_iff_exists.mp hedit
    exact .deepClone hd hn
  | setAttribute h name value => exact .setAttribute hd h name value
  | removeAttribute h name => exact .removeAttribute hd h name
  | setVisible h visible => exact .setVisible hd h visible
  | setMarker h marker? =>
    refine .modify hd ?_ h
    exact fun _ => rfl
  | modifyProperties h change =>
    refine .modify hd ?_ h
    exact fun _ => rfl
  | setData h name v =>
    refine .modify hd ?_ h
    exact fun _ => rfl
  | attachCallback h callback =>
    refine .modify hd ?_ h
    exact fun _ => rfl
  | detachCallbacks h =>
    refine .modify hd ?_ h
    exact fun _ => rfl
  | resetMutations => exact hedit.elim

/-- An attached node is put before one that has no place, which takes it out of the tree. -/
example :
    let d := ((Document.empty.plantAll Document.root [.element "p" [] []]).createElement "b").2
    let d' := (insertBefore ⟨1, 0⟩ ⟨2, 0⟩).apply d
    d.toMarkup = "<p></p>" ∧ d'.toMarkup = "" ∧ d'.mutations = d.mutations := by
  decide +kernel

end HostEdit

end TreeTemplate
