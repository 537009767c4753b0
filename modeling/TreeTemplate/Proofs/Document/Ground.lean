import TreeTemplate.Proofs.Document.Events
import TreeTemplate.Proofs.Document.Records
import TreeTemplate.Proofs.Document.Upkeep

/-!
The two nodes that no program makes.  The root is no element, and what handles to removed nodes read as is
like a root without children (`Grounded`).  No operation changes that, whatever its handles are, as long as
what becomes a parent is live: only elements get other attributes, and a removed node has no place among the
children of another.
-/

namespace TreeTemplate.Document

open NodeTree (handlesOf)

variable {d d' : Document} {h p x old reference : Handle} {n m : Node} {home : Option Handle}
  {ts us : List NodeTree}

/-- The root is no element, and what handles to removed nodes read as is like a root without children. -/
structure Grounded (d : Document) : Prop where
  root : ∀ n, d.get? root = some n → n.content = .root
  vacant : d.vacant.content = .root ∧ d.vacant.children = []

namespace Grounded

/-- Only what is no root may become something else, and dead handles are given no children. -/
theorem put (hd : d.Grounded) (hlive : ∀ m, d.get? h = some m → m.content = .root → n.content = .root)
    (hdead : d.get? h = none → n.content = .root ∧ n.children = []) : (d.put h n).Grounded := by
  constructor
  · intro m hm
    rcases of_get?_put hm with ⟨rfl, rfl, hroot⟩ | hm
    · obtain ⟨k, hk⟩ := Option.ne_none_iff_exists'.mp hroot
      exact hlive k hk (hd.root k hk)
    · exact hd.root m hm
  · cases hm : d.get? h with
    | none =>
      rw [show (d.put h n).vacant = n by simp only [Document.put, hm]]
      exact hdead hm
    | some m =>
      rw [vacant_put hm]
      exact hd.vacant

theorem modify {f : Node → Node} (hd : d.Grounded) (hcontent : ∀ n : Node, (f n).content = n.content)
    (hchildren : d.contains h = false → (f (Node.new .root)).children = []) :
    (d.modify h f).Grounded := by
  apply hd.put
  · intro m hm hroot
    rw [writable_of_get? hm, hcontent, hroot]
  · intro hnone
    have hwritable : d.writable h = Node.new .root := by simp [writable, hnone]
    rw [hwritable, hcontent]
    exact ⟨rfl, hchildren (by simp [contains, hnone])⟩

/-- Changes that leave content and children alone may be made through any handle. -/
theorem touch {f : Node → Node} (hd : d.Grounded) (hcontent : ∀ n : Node, (f n).content = n.content)
    (hchildren : ∀ n : Node, (f n).children = n.children) : (d.modify h f).Grounded :=
  hd.modify hcontent fun _ => hchildren _

theorem mutated (hd : d.Grounded) : d.mutated.Grounded :=
  ⟨hd.root, hd.vacant⟩

/-! ### Links -/

theorem modifyParent (hd : d.Grounded) (h : Handle) (p? : Option Handle) :
    (d.modify h fun n => { n with parent? := p? }).Grounded :=
  hd.touch (fun _ => rfl) fun _ => rfl

theorem modifyChildren (hd : d.Grounded) (hp : d.contains p = true)
    (place : List Handle → List Handle) :
    (d.modify p fun n => { n with children := place n.children }).Grounded :=
  hd.modify (fun _ => rfl) fun hdead => by simp [hp] at hdead

theorem detach (hd : d.Grounded) (h : Handle) : (d.detach h).Grounded := by
  have hput : (d.put h { d.writable h with parent? := none }).Grounded := hd.modifyParent h none
  unfold Document.detach
  dsimp only
  split
  · exact hput.modify (fun _ => rfl) fun _ => rfl
  · exact hput

theorem link (hd : d.Grounded) (hp : d.contains p = true) (h : Handle)
    (place : List Handle → List Handle) : (d.link p h place).Grounded := by
  apply (hd.modifyParent h (some p)).modifyChildren
  rwa [(SameSlots.modify d h _).contains_eq]

theorem appendChild (hd : d.Grounded) (hp : d.contains p = true) (h : Handle) :
    (d.appendChild p h).Grounded := by
  refine ((hd.detach h).link ?_ h _).mutated
  rwa [(SameSlots.detach d h).contains_eq]

theorem insertAt (hd : d.Grounded) (hp : d.contains p = true) (h : Handle) (index : Nat) :
    (d.insertAt h p index).Grounded :=
  (hd.link hp h _).mutated

/-- A node has a place only among the children of a live node. -/
theorem contains_of_position? {index : Nat} (hd : d.Grounded) (hpos : d.position? x = some (p, index)) :
    d.contains p = true := by
  cases hp : d.get? p with
  | some m => exact contains_of_get? hp
  | none =>
    have hchildren : (d.node p).children = [] := by
      rw [node, hp, Option.getD_none]
      exact hd.vacant.2
    simp only [position?, Option.bind_eq_bind, Option.bind_eq_some_iff, Option.some.injEq,
      Prod.mk.injEq] at hpos
    obtain ⟨q, -, i, hi, rfl, -⟩ := hpos
    simp [hchildren] at hi

theorem insertBefore (hd : d.Grounded) (h reference : Handle) :
    (d.insertBefore h reference).Grounded := by
  have hdetached := hd.detach h
  unfold Document.insertBefore
  dsimp only
  split
  · next hpos => exact hdetached.insertAt (hdetached.contains_of_position? hpos) h _
  · exact hdetached

theorem insertAfter (hd : d.Grounded) (h reference : Handle) :
    (d.insertAfter h reference).Grounded := by
  have hdetached := hd.detach h
  unfold Document.insertAfter
  dsimp only
  split
  · next hpos => exact hdetached.insertAt (hdetached.contains_of_position? hpos) h _
  · exact hdetached

theorem replace (hd : d.Grounded) (h old : Handle) : (d.replace h old).Grounded := by
  have hdetached := hd.detach h
  unfold Document.replace
  dsimp only
  split
  · next p index hpos =>
    have hlisted := hdetached.modifyChildren (hdetached.contains_of_position? hpos) (·.set index h)
    exact ((hlisted.modifyParent h (some p)).modifyParent old none).mutated
  · exact hdetached

/-! ### Removal -/

theorem vacate (hd : d.Grounded) (h : Handle) : (d.vacate h).Grounded :=
  ⟨fun n hn => hd.root n (of_get?_vacate hn), hd.vacant⟩

theorem releaseWithin (hd : d.Grounded) (depth : Nat) (h : Handle) :
    (releaseWithin depth h d).Grounded := by
  induction depth generalizing h d with
  | zero => exact hd
  | succ depth ih =>
    have hfold : ∀ (hs : List Handle) (d : Document), d.Grounded →
        (hs.foldr (Document.releaseWithin depth) d).Grounded := by
      intro hs d hd
      induction hs with
      | nil => exact hd
      | cons h rest ih' => exact ih ih' h
    rw [Document.releaseWithin]
    split
    · exact hd
    · exact hfold _ _ (hd.vacate h)

theorem release (hd : d.Grounded) (h : Handle) : (d.release h).Grounded :=
  hd.releaseWithin _ h

theorem remove (hd : d.Grounded) (h : Handle) : (d.remove h).Grounded := by
  unfold Document.remove
  split
  · exact hd
  · split
    · exact hd
    · split
      · exact (hd.detach h).mutated.release h
      · exact hd.release h

theorem clearChildren (hd : d.Grounded) (h : Handle) : (d.clearChildren h).Grounded := by
  have hfold : ∀ (hs : List Handle) (d : Document), d.Grounded →
      (hs.foldl Document.release d).Grounded := by
    intro hs d hd
    induction hs generalizing d with
    | nil => exact hd
    | cons h rest ih => exact ih _ (hd.release h)
  have hput : (d.put h { d.writable h with children := [] }).Grounded :=
    hd.modify (f := fun n => { n with children := [] }) (fun _ => rfl) fun _ => rfl
  unfold Document.clearChildren
  dsimp only
  split
  · exact hput
  · exact (hfold _ _ hput).mutated

/-! ### Records of a node -/

/-- Attributes are what elements have. -/
theorem setAttribute (hd : d.Grounded) (h : Handle) (name value : String) :
    (d.setAttribute h name value).Grounded := by
  unfold Document.setAttribute
  dsimp only
  split
  · next hcontent =>
    split
    · exact hd
    · refine (hd.put (fun m hm hroot => ?_) fun hnone => ?_).mutated
      · rw [writable_of_get? hm, hroot] at hcontent
        simp at hcontent
      · simp [writable, hnone, Node.new] at hcontent
  · exact hd.touch (f := id) (fun _ => rfl) fun _ => rfl

theorem removeAttribute (hd : d.Grounded) (h : Handle) (name : String) :
    (d.removeAttribute h name).Grounded := by
  unfold Document.removeAttribute
  dsimp only
  split
  · next hcontent =>
    split
    · refine (hd.put (fun m hm hroot => ?_) fun hnone => ?_).mutated
      · rw [writable_of_get? hm, hroot] at hcontent
        simp at hcontent
      · simp [writable, hnone, Node.new] at hcontent
    · exact hd
  · exact hd.touch (f := id) (fun _ => rfl) fun _ => rfl

theorem setVisible (hd : d.Grounded) (h : Handle) (v : Bool) : (d.setVisible h v).Grounded := by
  unfold Document.setVisible
  dsimp only
  split
  · exact hd.touch (f := id) (fun _ => rfl) fun _ => rfl
  · have hput : (d.put h { d.writable h with visible := v }).Grounded :=
      hd.touch (f := fun n => { n with visible := v }) (fun _ => rfl) fun _ => rfl
    exact hput.mutated

/-! ### Trees -/

/-- New nodes are neither of the two. -/
theorem grown (hd : d.Grounded) (hroot : ∃ r, d.get? Document.root = some r)
    (hg : Grown d d' home ts) : d'.Grounded := by
  obtain ⟨r, hr⟩ := hroot
  refine ⟨fun n hn => ?_, hg.vacant ▸ hd.vacant⟩
  by_cases hhome : home = some Document.root
  · rw [hg.parent _ hhome r hr] at hn
    obtain rfl := Option.some.inj hn
    exact hd.root r hr
  · rw [hg.frame _ (hg.not_mem_new hr) hhome, hr] at hn
    exact Option.some.inj hn ▸ hd.root r hr

/-- In the place of the root there stays a root. -/
theorem regrown (hd : d.Grounded) (hs : d.Seated home ts) (hr : Regrown d d' home ts us)
    (hforest : d'.Forest) (htop : ∀ u ∈ us, u.handle = Document.root → u.record.content = .root) :
    d'.Grounded := by
  refine ⟨fun n hn => ?_, hr.vacant ▸ hd.vacant⟩
  by_cases hnew : Document.root ∈ handlesOf us
  · obtain ⟨u, hu, hmem⟩ := NodeTree.mem_handlesOf.mp hnew
    have hheld := hr.held u hu
    have hhandle := hforest.handle_eq_root hheld hmem
    have hrecord := hheld.get?_handle
    rw [hhandle, hn] at hrecord
    exact Option.some.inj hrecord ▸ htop u hu hhandle
  · have hold : Document.root ∉ handlesOf ts := by
      intro hmem
      rw [hr.gone _ hmem hnew] at hn
      simp at hn
    by_cases hhome : home = some Document.root
    · obtain ⟨r, hroot⟩ := hs.home_live hhome
      obtain ⟨pre, post, hchildren⟩ := hs.listed _ hhome r hroot
      rw [hr.siblings _ hhome r pre post hroot hchildren] at hn
      obtain rfl := Option.some.inj hn
      exact hd.root r hroot
    · rw [hr.frame _ hold hnew hhome] at hn
      exact hd.root n hn

end Grounded

theorem grounded_empty : empty.Grounded := by
  refine ⟨fun n hn => ?_, rfl, rfl⟩
  obtain rfl : Node.new .root = n := Option.some.inj hn
  rfl

end TreeTemplate.Document
