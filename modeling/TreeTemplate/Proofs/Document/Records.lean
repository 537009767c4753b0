import TreeTemplate.Proofs.Document.RoundTrip
import TreeTemplate.Render.Apply
import TreeTemplate.Render.Instances

/-!
What operations on documents make of records.  A property of records that does not look at links, and
that new nodes have, is kept by every operation that leaves attributes alone (`Document.All`), whether
its handles are live or not: records are written back with other links, copied, or dropped.
-/

namespace TreeTemplate

variable {P P' : Handle → Node → Prop} {Q Q' : Node → Prop} {d : Document} {h p x : Handle}
  {n m : Node}

/-- Every live node is as `P` says, and what handles to removed nodes read as is as `Q` says. -/
structure Document.All (P : Handle → Node → Prop) (Q : Node → Prop) (d : Document) : Prop where
  live : ∀ h n, d.get? h = some n → P h n
  vacant : Q d.vacant

/-- Nothing is on record, and nothing is attached. -/
structure Node.Blank (n : Node) : Prop where
  bindingRef? : n.bindingRef? = none
  callbacks : n.callbacks = []

/-- The two nodes differ in nothing but links, visibility, position, properties and data. -/
structure Node.Kin (n n' : Node) : Prop where
  content : n'.content = n.content
  bindingRef? : n'.bindingRef? = n.bindingRef?
  callbacks : n'.callbacks = n.callbacks

theorem Node.Kin.refl (n : Node) : Kin n n :=
  ⟨rfl, rfl, rfl⟩

/-- Properties that nodes keep while only links, visibility, position, properties and data change, and
that new nodes have. -/
structure Lasting (P : Handle → Node → Prop) (Q : Node → Prop) : Prop where
  kin : ∀ h n n', P h n → n.Kin n' → P h n'
  blank : ∀ h n, n.Blank → n.content.Orderly → P h n
  vacant : ∀ n, n.content = .root → n.Blank → Q n

theorem Document.All.imp (hd : d.All P Q) (hP : ∀ h n, P h n → P' h n) (hQ : ∀ n, Q n → Q' n) :
    d.All P' Q' :=
  ⟨fun h n hn => hP h n (hd.live h n hn), hQ _ hd.vacant⟩

namespace Document

/-! ### The arena -/

theorem of_get?_put (hm : (d.put h n).get? x = some m) :
    x = h ∧ m = n ∧ d.get? h ≠ none ∨ d.get? x = some m := by
  cases hk : d.get? h with
  | none =>
    simp only [put, hk] at hm
    exact Or.inr hm
  | some k =>
    rw [get?_put hk] at hm
    split at hm
    · next hx => exact Or.inl ⟨hx, (Option.some.inj hm).symm, by simp⟩
    · exact Or.inr hm

theorem of_get?_alloc (hm : (d.alloc n).2.get? x = some m) :
    x = (d.alloc n).1 ∧ m = n ∨ x ≠ (d.alloc n).1 ∧ d.get? x = some m := by
  unfold alloc at hm ⊢
  cases hfree : d.free with
  | nil =>
    simp only [hfree, get?_eq_bind, Array.getElem?_push] at hm ⊢
    by_cases hslot : x.slot = d.slots.size
    · simp only [hslot, if_true, Option.bind_some] at hm
      split at hm
      · next hgeneration =>
        refine Or.inl ⟨?_, (Option.some.inj hm).symm⟩
        rw [eq_iff_of_slot_eq hslot.symm]
        exact hgeneration
      · simp at hm
    · rw [if_neg hslot] at hm
      exact Or.inr ⟨fun hx => hslot (congrArg Handle.slot hx), hm⟩
  | cons slot rest =>
    simp only [hfree, get?_eq_bind, Array.getElem?_setIfInBounds] at hm ⊢
    by_cases hslot : slot = x.slot
    · rw [if_pos hslot] at hm
      split at hm
      · rw [Option.bind_some] at hm
        split at hm
        · next hgeneration =>
          refine Or.inl ⟨?_, (Option.some.inj hm).symm⟩
          rw [eq_iff_of_slot_eq hslot]
          exact hgeneration
        · simp at hm
      · simp at hm
    · rw [if_neg hslot] at hm
      exact Or.inr ⟨fun hx => hslot (congrArg Handle.slot hx).symm, hm⟩

theorem of_get?_vacate (hm : (d.vacate h).get? x = some m) : d.get? x = some m := by
  simp only [vacate, get?_eq_bind, Array.getElem?_setIfInBounds] at hm ⊢
  split at hm
  · split at hm
    · rw [Option.bind_some] at hm
      split at hm <;> simp at hm
    · simp at hm
  · exact hm

namespace All

variable (hL : Lasting P Q) (hd : d.All P Q)

theorem put (hd : d.All P Q) (hlive : ∀ m, d.get? h = some m → P h n)
    (hdead : d.get? h = none → Q n) : (d.put h n).All P Q := by
  constructor
  · intro x m hm
    rcases of_get?_put hm with ⟨rfl, rfl, hx⟩ | hm
    · obtain ⟨k, hk⟩ := Option.ne_none_iff_exists'.mp hx
      exact hlive k hk
    · exact hd.live x m hm
  · cases hk : d.get? h with
    | none =>
      rw [show (d.put h n).vacant = n by simp only [Document.put, hk]]
      exact hdead hk
    | some k =>
      rw [vacant_put hk]
      exact hd.vacant

include hL hd

/-- Writing a node back with other links. -/
theorem put_kin (hn : (d.writable h).Kin n) : (d.put h n).All P Q := by
  apply hd.put
  · intro m hm
    rw [writable_of_get? hm] at hn
    exact hL.kin h m n (hd.live h m hm) hn
  · intro hnone
    have hwritable : d.writable h = Node.new .root := by simp [writable, hnone]
    rw [hwritable] at hn
    exact hL.vacant n hn.content ⟨hn.bindingRef?, hn.callbacks⟩

theorem modify {f : Node → Node} (hf : ∀ n : Node, n.Kin (f n)) : (d.modify h f).All P Q :=
  put_kin hL hd (hf _)

theorem modifyParent (h : Handle) (p? : Option Handle) :
    (d.modify h fun n => { n with parent? := p? }).All P Q := by
  apply modify hL hd
  intro n
  exact ⟨rfl, rfl, rfl⟩

theorem modifyChildren (h : Handle) (f : List Handle → List Handle) :
    (d.modify h fun n => { n with children := f n.children }).All P Q := by
  apply modify hL hd
  intro n
  exact ⟨rfl, rfl, rfl⟩

omit hL in
theorem mutated : d.mutated.All P Q :=
  ⟨hd.live, hd.vacant⟩

omit hL in
theorem alloc (hn : ∀ h, P h n) : (d.alloc n).2.All P Q := by
  constructor
  · intro x m hm
    rcases of_get?_alloc hm with ⟨-, rfl⟩ | ⟨-, hm⟩
    · exact hn x
    · exact hd.live x m hm
  · rw [vacant_alloc]
    exact hd.vacant

omit hL in
theorem vacate (h : Handle) : (d.vacate h).All P Q :=
  ⟨fun x m hm => hd.live x m (of_get?_vacate hm), hd.vacant⟩

omit hL in
theorem releaseWithin (depth : Nat) (h : Handle) : (releaseWithin depth h d).All P Q := by
  induction depth generalizing h d with
  | zero => exact hd
  | succ depth ih =>
    have hfold : ∀ (hs : List Handle) (d : Document), d.All P Q →
        (hs.foldr (Document.releaseWithin depth) d).All P Q := by
      intro hs d hd
      induction hs with
      | nil => exact hd
      | cons h rest ih' => exact ih ih' h
    rw [Document.releaseWithin]
    split
    · exact hd
    · exact hfold _ _ (hd.vacate h)

omit hL in
theorem release (h : Handle) : (d.release h).All P Q :=
  hd.releaseWithin _ h

/-! ### Links -/

theorem detach (h : Handle) : (d.detach h).All P Q := by
  have hput := put_kin hL hd (h := h) (n := { d.writable h with parent? := none }) ⟨rfl, rfl, rfl⟩
  unfold Document.detach
  dsimp only
  split
  · exact modifyChildren hL hput _ (List.filter (· ≠ h))
  · exact hput

theorem link (p h : Handle) (place : List Handle → List Handle) : (d.link p h place).All P Q :=
  modifyChildren hL (modifyParent hL hd h (some p)) p place

theorem appendChild (p h : Handle) : (d.appendChild p h).All P Q :=
  (link hL (detach hL hd h) p h _).mutated

theorem insertAt (h p : Handle) (index : Nat) : (d.insertAt h p index).All P Q :=
  (link hL hd p h _).mutated

theorem insertBefore (h p : Handle) : (d.insertBefore h p).All P Q := by
  unfold Document.insertBefore
  dsimp only
  split
  · exact insertAt hL (detach hL hd h) h _ _
  · exact detach hL hd h

theorem insertAfter (h p : Handle) : (d.insertAfter h p).All P Q := by
  unfold Document.insertAfter
  dsimp only
  split
  · exact insertAt hL (detach hL hd h) h _ _
  · exact detach hL hd h

theorem replace (h p : Handle) : (d.replace h p).All P Q := by
  have hdetached := detach hL hd h
  unfold Document.replace
  dsimp only
  split
  · next q index _ =>
    have hlisted := modifyChildren hL hdetached q fun cs => cs.set index h
    exact (modifyParent hL (modifyParent hL hlisted h (some q)) p none).mutated
  · exact hdetached

theorem remove (h : Handle) : (d.remove h).All P Q := by
  unfold Document.remove
  split
  · exact hd
  · split
    · exact hd
    · split
      · exact (detach hL hd h).mutated.release h
      · exact hd.release h

theorem clearChildren (h : Handle) : (d.clearChildren h).All P Q := by
  have hfold : ∀ (hs : List Handle) (d : Document), d.All P Q →
      (hs.foldl Document.release d).All P Q := by
    intro hs d hd
    induction hs generalizing d with
    | nil => exact hd
    | cons h rest ih => exact ih _ (hd.release h)
  have hput := put_kin hL hd (h := h) (n := { d.writable h with children := [] }) ⟨rfl, rfl, rfl⟩
  unfold Document.clearChildren
  dsimp only
  split
  · exact hput
  · exact (hfold _ _ hput).mutated

/-! ### Records of a node -/

theorem setVisible (h : Handle) (v : Bool) : (d.setVisible h v).All P Q := by
  unfold Document.setVisible
  dsimp only
  split
  · exact put_kin hL hd (.refl _)
  · have hput := put_kin hL hd (h := h) (n := { d.writable h with visible := v }) ⟨rfl, rfl, rfl⟩
    exact hput.mutated

theorem setMarker (h : Handle) (m : Option Marker) : (d.setMarker h m).All P Q :=
  modify hL hd fun _ => ⟨rfl, rfl, rfl⟩

theorem modifyProperties (h : Handle) (f : Dict Value → Dict Value) :
    (d.modifyProperties h f).All P Q :=
  modify hL hd fun _ => ⟨rfl, rfl, rfl⟩

theorem setData (h : Handle) (name : String) (v : Value) : (d.setData h name v).All P Q :=
  modify hL hd fun _ => ⟨rfl, rfl, rfl⟩

/-- Setting an attribute that the property does not look at. -/
theorem setAttribute {name value : String} (hset : ∀ n tag attributes,
      d.get? h = some n → n.content = .element tag attributes →
        P h { n with content := .element tag (Dict.put attributes name value) }) :
    (d.setAttribute h name value).All P Q := by
  unfold Document.setAttribute
  dsimp only
  split
  · next tag attributes hcontent =>
    split
    · exact hd
    · refine (hd.put (fun m hm => ?_) fun hnone => ?_).mutated
      · rw [writable_of_get? hm] at hcontent ⊢
        exact hset m tag attributes hm hcontent
      · simp [writable, hnone, Node.new] at hcontent
  · exact put_kin hL hd (.refl _)

theorem removeAttribute {name : String} (herase : ∀ n tag attributes,
      d.get? h = some n → n.content = .element tag attributes →
        P h { n with content := .element tag (Dict.erase attributes name) }) :
    (d.removeAttribute h name).All P Q := by
  unfold Document.removeAttribute
  dsimp only
  split
  · next tag attributes hcontent =>
    split
    · refine (hd.put (fun m hm => ?_) fun hnone => ?_).mutated
      · rw [writable_of_get? hm] at hcontent ⊢
        exact herase m tag attributes hm hcontent
      · simp [writable, hnone, Node.new] at hcontent
    · exact hd
  · exact put_kin hL hd (.refl _)

/-! ### Adding nodes -/

theorem createElement (tag : String) : (d.createElement tag).2.All P Q :=
  hd.alloc fun h => hL.blank h _ ⟨rfl, rfl⟩ List.nodup_nil

theorem appendText (h : Handle) (text : String) : (d.appendText h text).All P Q := by
  have halloc := hd.alloc (n := Node.new (.text text)) fun h => hL.blank h _ ⟨rfl, rfl⟩ trivial
  exact appendChild hL halloc h _

theorem plantNode (p : Handle) (hn : n.Blank) (horderly : n.content.Orderly) :
    (d.plantNode p n).2.All P Q := by
  have halloc := hd.alloc (n := { n with parent? := some p }) fun h =>
    hL.blank h _ ⟨hn.bindingRef?, hn.callbacks⟩ horderly
  exact modifyChildren hL halloc p (· ++ [_])

omit hL hd

theorem elementNode_blank (tag : String) (attributes : List (String × String)) :
    (elementNode tag attributes).Blank := by
  simp only [elementNode]
  split
  · exact ⟨rfl, rfl⟩
  · split
    · exact ⟨rfl, rfl⟩
    · exact ⟨rfl, rfl⟩

theorem elementNode_orderly (tag : String) (attributes : List (String × String)) :
    (elementNode tag attributes).content.Orderly := by
  obtain ⟨kept, visible, hnode, hkeys, -⟩ := elementNode_spec tag attributes
  rw [hnode]
  exact hkeys

mutual

theorem plant (hL : Lasting P Q) {d : Document} (hd : d.All P Q) (p : Handle) :
    ∀ m : Markup, (plant d p m).All P Q
  | .element tag attributes children => by
    rw [Document.plant]
    exact plantAll hL
      (plantNode hL hd p (elementNode_blank tag attributes) (elementNode_orderly tag attributes)) _ children
  | .text content => by
    rw [Document.plant]
    exact plantNode hL hd p ⟨rfl, rfl⟩ trivial
  | .comment body => by
    rw [Document.plant]
    exact plantNode hL hd p ⟨rfl, rfl⟩ trivial

theorem plantAll (hL : Lasting P Q) {d : Document} (hd : d.All P Q) (p : Handle) :
    ∀ ms : List Markup, (plantAll d p ms).All P Q
  | [] => by
    rw [Document.plantAll]
    exact hd
  | m :: rest => by
    rw [Document.plantAll]
    exact plantAll hL (plant hL hd p m) p rest

end

include hL hd

theorem appendMarkup {d' : Document} {source : String} (happend : d.appendMarkup h source = .ok d') :
    d'.All P Q := by
  unfold Document.appendMarkup at happend
  cases hparse : parseMarkup source with
  | error e => simp [hparse, Except.map] at happend
  | ok nodes =>
    simp only [hparse, Except.map, Except.ok.injEq] at happend
    subst happend
    split
    · exact hd
    · exact (plantAll hL hd h nodes).mutated

theorem appendValue (h : Handle) (v : Value) : (d.appendValue h v).All P Q := by
  unfold Document.appendValue
  split
  · split
    · next happend => exact appendMarkup hL hd happend
    · exact appendText hL hd h _
  · exact appendText hL hd h _

theorem applyContent (h : Handle) (v : Value) (clear : Bool) : (d.applyContent h v clear).All P Q := by
  unfold Document.applyContent
  dsimp only
  split
  · exact hd
  · split
    · exact clearChildren hL hd h
    · exact appendValue hL (clearChildren hL hd h) h v

theorem createHiddenContainer (name value : String) :
    (d.createHiddenContainer name value).2.All P Q := by
  have hcreated := createElement hL hd "div"
  have hset : ((d.createElement "div").2.setAttribute (d.createElement "div").1 name value).All P Q := by
    refine setAttribute hL hcreated fun n tag attributes hn hcontent => ?_
    rcases of_get?_alloc hn with ⟨-, rfl⟩ | ⟨hne, -⟩
    · obtain ⟨-, rfl⟩ := Content.element.inj hcontent
      exact hL.blank _ _ ⟨rfl, rfl⟩ (Dict.keys_put_nodup List.nodup_nil)
    · exact absurd rfl hne
  have hhidden := modify hL hset (h := (d.createElement "div").1)
    (f := fun n => { n with visible := false }) fun _ => ⟨rfl, rfl, rfl⟩
  exact appendChild hL hhidden root _

/-! ### Copies -/

theorem copyTop (home : Option Handle) (hn : ∀ h, P h n) : (d.copyTop home n).2.All P Q := by
  have halloc := hd.alloc (n := { n with parent? := home, children := [] }) fun h =>
    hL.kin h n _ (hn h) ⟨rfl, rfl, rfl⟩
  cases home with
  | none => exact halloc
  | some p => exact modifyChildren hL halloc p (· ++ [_])

theorem copyWithin (hP : ∀ h h' n, P h n → P h' n) (hQ : ∀ h n, Q n → P h n) (depth : Nat)
    (home : Option Handle) (h : Handle) : (Document.copyWithin depth home h d).2.All P Q := by
  have hnode : ∀ (d : Document), d.All P Q → ∀ h x, P x (d.node h) := by
    intro d hd h x
    unfold node
    cases hn : d.get? h with
    | none => exact hQ x _ hd.vacant
    | some n => exact hP h x n (hd.live h n hn)
  induction depth generalizing home h d with
  | zero =>
    rw [copyWithin_eq]
    exact copyTop hL hd home (hnode d hd h)
  | succ depth ih =>
    have hfold : ∀ (hs : List Handle) (id : Option Handle) (d : Document), d.All P Q →
        (hs.foldl (fun d c => (Document.copyWithin depth id c d).2) d).All P Q := by
      intro hs id d hd
      induction hs generalizing d with
      | nil => exact hd
      | cons c rest ih' => exact ih' _ (ih hd id c)
    rw [copyWithin_eq]
    exact hfold _ _ _ (copyTop hL hd home (hnode d hd h))

theorem deepClone (hP : ∀ h h' n, P h n → P h' n) (hQ : ∀ h n, Q n → P h n) (h : Handle) :
    (d.deepClone h).2.All P Q :=
  copyWithin hL hd hP hQ _ none h

theorem instances (hP : ∀ h h' n, P h n → P h' n) (hQ : ∀ h n, Q n → P h n) (change : ListChange)
    (h : Handle) (count : Nat) : (change.apply h count d).2.All P Q := by
  have hbefore : ∀ (k : Nat) (d : Document), d.All P Q → (d.copiesBefore h k).2.All P Q := by
    intro k
    induction k with
    | zero => exact fun d hd => hd
    | succ k ih => exact fun d hd => ih _ (insertBefore hL (deepClone hL hd hP hQ h) _ h)
  have hafter : ∀ (k : Nat) (d : Document) (anchor : Handle), d.All P Q →
      (d.copiesAfter h k anchor).2.All P Q := by
    intro k
    induction k with
    | zero => exact fun d anchor hd => hd
    | succ k ih => exact fun d anchor hd => ih _ _ (insertAfter hL (deepClone hL hd hP hQ h) _ anchor)
  have hstamp : ∀ (hs : List Handle) (index : Nat) (d : Document), d.All P Q →
      (d.stampFrom count index hs).All P Q := by
    intro hs
    induction hs with
    | nil => exact fun index d hd => hd
    | cons x rest ih => exact fun index d hd => ih _ _ (setMarker hL hd x _)
  have hshown := setVisible hL hd h true
  cases change with
  | conceal => exact setVisible hL (setMarker hL hd h _) h false
  | discard => exact remove hL hd h
  | spread => exact hstamp _ _ _ (hbefore _ _ hshown)
  | grow index => exact hstamp _ _ _ (hafter _ _ _ hshown)
  | keep index => exact hstamp [h] index _ hshown

end All

/-- Nothing is on record in a document that comes from a markup text. -/
theorem blank_of_ofMarkup {source : String} (h : ofMarkup source = .ok d) :
    d.All (fun _ n => n.Blank) fun n => n.content = .root ∧ n.Blank := by
  have hlasting : Lasting (fun _ n => n.Blank) fun n => n.content = .root ∧ n.Blank := by
    constructor
    · rintro h n n' hn hkin
      exact ⟨hkin.bindingRef?.trans hn.bindingRef?, hkin.callbacks.trans hn.callbacks⟩
    · exact fun _ _ hn _ => hn
    · exact fun _ hcontent hn => ⟨hcontent, hn⟩
  have hempty : empty.All (fun _ n => n.Blank) fun n => n.content = .root ∧ n.Blank := by
    refine ⟨fun h n hn => ?_, rfl, rfl, rfl⟩
    obtain rfl := eq_root_of_get?_empty hn
    obtain rfl : Node.new .root = n := Option.some.inj hn
    exact ⟨rfl, rfl⟩
  obtain ⟨nodes, -, rfl⟩ := ofMarkup_eq_ok h
  exact hempty.plantAll hlasting root nodes

end Document

end TreeTemplate
