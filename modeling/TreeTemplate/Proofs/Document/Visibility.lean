import TreeTemplate.Proofs.Document.Frame
import TreeTemplate.Proofs.Document.RoundTrip
import TreeTemplate.Proofs.Render.Confinement

/-!
Visibility and markup.  Whether an element is visible is recorded apart from its attributes, but markup says
it with a declaration of the style.  Edits of the records of a parsed document leave it legible
(`Respells.legible`), and what its markup shows is what is visible and not hidden by its style
(`sights_reparsed`).  So reading the markup again gives back what is visible as long as no edit writes a
style that hides (`sights_reparsed_of_unhiding`); a visible element with such a style comes back hidden.
-/

namespace TreeTemplate

/-! ### Styles that hide -/

namespace Markup

variable {visible : Bool} {attributes : Dict String}

/-- Whether the style among the attributes hides. -/
def hides (attributes : Dict String) : Bool :=
  ((Dict.get? attributes "style").map fun style => (takeHiddenStyle style).1).getD false

theorem fst_takeHiddenStyle_hidingStyle (style : String) :
    (takeHiddenStyle (hidingStyle style)).1 = true := by
  rw [Document.takeHiddenStyle_eq, hidingStyle, String.toList_ofList]
  by_cases hempty : style.isEmpty = true
  · simp [hempty, takeHiddenChars_hiddenStyle]
  · rw [if_neg hempty]
    simp [takeHiddenChars, declarations_cons isDeclaration_hiddenStyle, isHiding_hiddenStyle]

theorem visible_elementNode (tag : String) (attributes : List (String × String)) :
    (Document.elementNode tag attributes).visible = !hides (Dict.ofList attributes) := by
  unfold Document.elementNode hides
  cases hstyle : Dict.get? (Dict.ofList attributes) "style" with
  | none =>
    simp only [hstyle]
    rfl
  | some style =>
    cases htake : takeHiddenStyle style with
    | mk hidden rest => cases hidden <;> simp [hstyle, htake, Node.new]

/-- What is written for an element hides if the element is hidden or has a style that hides. -/
theorem hides_written (hkeys : (Dict.keys attributes).Nodup) :
    hides (Dict.ofList (written visible attributes)) = (!visible || hides attributes) := by
  cases visible with
  | true => simp [written_visible, Dict.ofList_of_nodup hkeys]
  | false =>
    rw [written_hidden hkeys, Dict.ofList_of_nodup (Dict.keys_put_nodup hkeys), hides,
      Dict.get?_put_self]
    simp [fst_takeHiddenStyle_hidingStyle]

theorem hides_eq_false_iff : hides attributes = false ↔
    ∀ style, Dict.get? attributes "style" = some style → (takeHiddenStyle style).1 = false := by
  rw [hides]
  cases Dict.get? attributes "style" <;> simp

theorem hides_put {name value : String} (h : hides attributes = false)
    (hvalue : name = "style" → (takeHiddenStyle value).1 = false) :
    hides (Dict.put attributes name value) = false := by
  rw [hides_eq_false_iff] at h ⊢
  intro style hstyle
  rw [Dict.get?_put] at hstyle
  split at hstyle
  · next hname =>
    obtain rfl := Option.some.inj hstyle
    exact hvalue hname.symm
  · exact h style hstyle

theorem hides_erase {name : String} (hkeys : (Dict.keys attributes).Nodup)
    (h : hides attributes = false) : hides (Dict.erase attributes name) = false := by
  rw [hides_eq_false_iff] at h ⊢
  intro style hstyle
  by_cases hname : "style" = name
  · have hgone : Dict.get? (Dict.erase attributes name) name = none :=
      Dict.get?_eq_none_iff.mpr (Dict.not_mem_keys_erase hkeys)
    rw [hname, hgone] at hstyle
    contradiction
  · exact h style (by rwa [Dict.get?_erase_of_ne hname] at hstyle)

/-- No style that the reader keeps hides. -/
theorem StyleKept.hides (h : StyleKept visible attributes) : hides attributes = false := by
  refine hides_eq_false_iff.mpr fun style hstyle => ?_
  have hkept := h style hstyle
  cases visible with
  | true => simpa using hkept
  | false =>
    rw [if_neg (by simp)] at hkept
    rw [hkept.2]

end Markup

namespace Content

variable {c : Content} {name value : String}

/-- Whether the style of an element hides it. -/
def hides : Content → Bool
  | .element _ attributes => Markup.hides attributes
  | _ => false

/-- The attributes have different names, and none is a style that hides. -/
def Plain (c : Content) : Prop :=
  c.Orderly ∧ c.hides = false

theorem Plain.put (h : c.Plain) (hvalue : name = "style" → (Markup.takeHiddenStyle value).1 = false) :
    (c.put name value).Plain := by
  cases c with
  | element => exact ⟨Dict.keys_put_nodup h.1, Markup.hides_put h.2 hvalue⟩
  | root | text _ | comment _ => exact h

theorem Plain.erase (h : c.Plain) (name : String) : (c.erase name).Plain := by
  cases c with
  | element => exact ⟨Dict.keys_erase_nodup h.1, Markup.hides_erase h.1 h.2⟩
  | root | text _ | comment _ => exact h

end Content

namespace Node

/-- What is said of an element: its tag and whether it is visible. -/
def sight (n : Node) : Option String × Bool :=
  (n.tag?, n.visible)

/-- What markup says of an element: its tag and whether it is visible and not hidden by its style. -/
def display (n : Node) : Option String × Bool :=
  (n.tag?, n.visible && !n.content.hides)

end Node

namespace Document

/-- The elements of a document as they are said to be, in document order. -/
def sights (d : Document) : List (Option String × Bool) :=
  (d.descendants root).map fun h => (d.node h).sight

/-- The elements of a document as its markup says they are. -/
def displays (d : Document) : List (Option String × Bool) :=
  (d.descendants root).map fun h => (d.node h).display

end Document

/-! ### The elements of a tree -/

namespace NodeTree

open Markup (ofOutline)

variable {β : Type} {f : String → Dict String → Bool → β} {room : Nat} {o : Outline}

/-- What is said of the elements of a tree, in document order. -/
def Outline.elements (f : String → Dict String → Bool → β) : Outline → List β
  | .node (.element tag attributes) v ks => f tag attributes v :: ks.flatMap (elements f)
  | .node _ _ ks => ks.flatMap (elements f)

/-- Reading the markup of a tree gives its elements, visible where they are displayed. -/
theorem Outline.elements_ofOutline (h : o.Legible room) :
    (ofOutline o).outline.elements (fun tag _ v => (some tag, v)) =
      o.elements fun tag attributes v => (some tag, v && !Markup.hides attributes) := by
  induction h with
  | @element room tag attributes visible kids isName names keys void apart _ ih =>
    obtain ⟨kept, shown, hnode, -⟩ := Document.elementNode_spec tag (Markup.written visible attributes)
    have hshown : shown = (visible && !Markup.hides attributes) := by
      have hvisible := Markup.visible_elementNode tag (Markup.written visible attributes)
      rw [Markup.hides_written keys, hnode] at hvisible
      simpa using hvisible
    simp only [ofOutline, Markup.outline, hnode, Node.new, elements, List.map_map, List.flatMap_map,
      Function.comp_apply, List.flatMap_congr ih, hshown]
  | text nonempty => simp [ofOutline, Markup.outline, elements]
  | comment unclosed => simp [ofOutline, Markup.outline, elements]

/-- What is said of the elements below a node that is held, read off its tree. -/
theorem elements_outline {d : Document} {t : NodeTree} {g : Node → β} (ht : d.Holds t)
    (hg : ∀ n tag attributes, n.content = .element tag attributes → g n = f tag attributes n.visible) :
    t.outline.elements f = (d.descendants t.handle).map fun h => g (d.node h) := by
  rw [Document.descendants, Document.subtree_eq ht]
  induction t using NodeTree.induct with
  | step h n ks ih =>
    have hn : d.node h = n := Document.node_of_get? ht.get?_handle
    have hkids : (ks.map outline).flatMap (Outline.elements f) =
        ((ks.flatMap handles).filter fun x => (d.node x).isElement).map fun x => g (d.node x) := by
      rw [List.flatMap_map, List.filter_flatMap, List.map_flatMap]
      exact List.flatMap_congr fun k hk => ih k hk (ht.kid hk)
    rw [handles_node, List.filter_cons, hn, outline]
    cases hcontent : n.content with
    | element tag attributes =>
      rw [Outline.elements, if_pos (by rw [Node.isElement, hcontent]), List.map_cons, hn, ← hkids,
        hg n tag attributes hcontent]
    | root | text s | comment s =>
      simpa [Outline.elements, Node.isElement, hcontent] using hkids

end NodeTree

/-! ### Legible documents -/

namespace Document

open NodeTree (Outline)

variable {d d' : Document} {n : Node} {ks : List NodeTree} {t : NodeTree} {room : Nat}

/-- The trees of the top-level nodes are legible, and texts do not stand next to each other. -/
structure Legible (d : Document) (n : Node) (ks : List NodeTree) : Prop where
  held : d.Holds (.node root n ks)
  content : n.content = .root
  legible : ∀ k ∈ ks, k.outline.Legible Markup.nestingLimit
  apart : (ks.map NodeTree.outline).IsChain fun a b => ¬(a.isText = true ∧ b.isText = true)

theorem legible_of_ofMarkup {source : String} (h : ofMarkup source = .ok d) : ∃ n ks, d.Legible n ks := by
  obtain ⟨n, ks, hheld, hcontent, hnormal, happart⟩ := normal_of_ofMarkup h
  exact ⟨n, ks, hheld, hcontent, fun k hk => (hnormal k hk).legible, happart⟩

/-- What is said of the elements of a legible document is said in its trees. -/
theorem Legible.elements {β : Type} {f : String → Dict String → Bool → β} {g : Node → β}
    (hd : d.Legible n ks)
    (hg : ∀ n tag attributes, n.content = .element tag attributes → g n = f tag attributes n.visible) :
    (d.descendants root).map (fun h => g (d.node h)) =
      (ks.map NodeTree.outline).flatMap (Outline.elements f) := by
  have helements := NodeTree.elements_outline hd.held hg
  rw [NodeTree.handle_node, NodeTree.outline, hd.content] at helements
  rw [← helements, Outline.elements]
  simp

theorem Legible.get?_of_mem_descendants (hd : d.Legible n ks) {h : Handle}
    (hmem : h ∈ d.descendants root) : ∃ m, d.get? h = some m := by
  rw [descendants, List.mem_filter] at hmem
  rw [← NodeTree.handle_node root n ks, subtree_eq hd.held] at hmem
  exact hd.held.get?_of_mem hmem.1

/-- Reading the markup of a legible document gives what is displayed. -/
theorem Legible.reparsed (hd : d.Legible n ks) :
    ∃ d', ofMarkup d.toMarkup = .ok d' ∧ d'.sights = d.displays := by
  obtain ⟨d', us, hparse, hheld, houtlines⟩ := ofMarkup_of_legible hd.held hd.legible hd.apart
  refine ⟨d', hparse, ?_⟩
  obtain ⟨n', ks', hd'⟩ := legible_of_ofMarkup hparse
  obtain ⟨-, -, rfl⟩ := NodeTree.node.inj (hheld.unique hd'.held rfl)
  have hsights : d'.sights = (ks'.map NodeTree.outline).flatMap
      (Outline.elements fun tag _ v => (some tag, v)) :=
    hd'.elements fun n tag attributes hcontent => by simp [Node.sight, Node.tag?, hcontent]
  have hdisplays : d.displays = (ks.map NodeTree.outline).flatMap
      (Outline.elements fun tag attributes v => (some tag, v && !Markup.hides attributes)) :=
    hd.elements fun n tag attributes hcontent => by
      simp [Node.display, Node.tag?, hcontent, Content.hides]
  rw [hsights, hdisplays, houtlines, List.flatMap_map, List.flatMap_map]
  exact List.flatMap_congr fun k hk => Outline.elements_ofOutline (hd.legible k hk)

/-- What is displayed is what is visible, unless a visible element has a style that hides. -/
theorem displays_eq_sights_iff : d.displays = d.sights ↔
    ∀ h ∈ d.descendants root, (d.node h).visible = true → (d.node h).content.hides = false := by
  rw [displays, sights, List.map_inj_left]
  refine forall₂_congr fun h _ => ?_
  rw [Node.display, Node.sight, Prod.mk.injEq]
  cases (d.node h).visible <;> simp

end Document

/-! ### Edits -/

/-- The content `c'` is `c` with other attributes perhaps, which have proper and different names if those of
`c` do. -/
inductive Content.Relabels : Content → Content → Prop
  | same (c : Content) : Relabels c c
  | element {tag : String} {attributes attributes' : Dict String}
    (names : (∀ name ∈ Dict.keys attributes, Markup.IsName name) →
      ∀ name ∈ Dict.keys attributes', Markup.IsName name)
    (keys : (Dict.keys attributes).Nodup → (Dict.keys attributes').Nodup) :
    Relabels (.element tag attributes) (.element tag attributes')

namespace Content.Relabels

variable {c c₁ c₂ : Content} {name : String}

theorem trans (h : Relabels c c₁) (h' : Relabels c₁ c₂) : Relabels c c₂ := by
  cases h with
  | same => exact h'
  | element names keys =>
    cases h' with
    | same => exact .element names keys
    | element names' keys' => exact .element (names' ∘ names) (keys' ∘ keys)

theorem put (c : Content) (value : String) (hname : Markup.IsName name) : Relabels c (c.put name value) := by
  cases c with
  | element tag attributes =>
    refine .element (fun hnames other hother => ?_) Dict.keys_put_nodup
    rcases Dict.mem_keys_put.mp hother with hother | rfl
    · exact hnames other hother
    · exact hname
  | root | text s | comment s => exact .same _

theorem erase (c : Content) (name : String) : Relabels c (c.erase name) := by
  cases c with
  | element tag attributes =>
    refine .element (fun hnames other hother => hnames other ?_) Dict.keys_erase_nodup
    exact ((Dict.erase_sublist attributes name).map _).subset hother
  | root | text s | comment s => exact .same _

end Content.Relabels

namespace Edit

variable {e : Edit} {n : Node}

/-- The attribute that the edit sets, and the value that it gets. -/
def written? : Edit → Option (String × String)
  | identity name id => some (name, id)
  | value name (.bool true) => some (name, name)
  | value _ (.bool false) => none
  | value name v => some (name, v.display)
  | _ => none

/-- The edit sets no attribute but one with a proper name. -/
def IsProper (e : Edit) : Prop :=
  ∀ p ∈ e.written?, Markup.IsName p.1

/-- The edit sets no style that hides. -/
def IsUnhiding (e : Edit) : Prop :=
  ∀ p ∈ e.written?, p.1 = "style" → (Markup.takeHiddenStyle p.2).1 = false

/-- What an edit makes of the content: it sets an attribute, removes one or leaves the content. -/
theorem content_record (e : Edit) (n : Node) :
    (∃ p ∈ e.written?, (e.record n).content = n.content.put p.1 p.2) ∨
      (∃ name, (e.record n).content = n.content.erase name) ∨ (e.record n).content = n.content := by
  cases e with
  | identity name id => exact .inl ⟨_, rfl, rfl⟩
  | value name v =>
    cases v with
    | bool b =>
      cases b with
      | true => exact .inl ⟨_, rfl, rfl⟩
      | false => exact .inr (.inl ⟨name, rfl⟩)
    | null | number _ | string _ | array _ | object _ => exact .inl ⟨_, rfl, rfl⟩
  | property _ _ | data _ _ | visible _ => exact .inr (.inr rfl)

theorem IsProper.relabels (he : e.IsProper) (n : Node) : n.content.Relabels (e.record n).content := by
  rcases e.content_record n with ⟨p, hp, h⟩ | ⟨name, h⟩ | h
  · rw [h]
    exact .put n.content p.2 (he p hp)
  · rw [h]
    exact .erase n.content name
  · rw [h]
    exact .same _

end Edit

namespace Document

open NodeTree (Outline)

variable {d d₁ d₂ d' : Document} {h : Handle} {n : Node} {ks : List NodeTree} {t : NodeTree} {room : Nat}
  {edits : List (Handle × Edit)} {source : String}

/-- Every live node stays in its place, and its content is relabelled at most. -/
def Respells (d d' : Document) : Prop :=
  ∀ x n, d.get? x = some n →
    ∃ n', d'.get? x = some n' ∧ n'.links = n.links ∧ n.content.Relabels n'.content

namespace Respells

theorem refl (d : Document) : Respells d d :=
  fun _ n hn => ⟨n, hn, rfl, .same _⟩

theorem trans (hr : Respells d d₁) (hr' : Respells d₁ d₂) : Respells d d₂ := by
  intro x n hn
  obtain ⟨n₁, hn₁, hlinks, hcontent⟩ := hr x n hn
  obtain ⟨n₂, hn₂, hlinks', hcontent'⟩ := hr' x n₁ hn₁
  exact ⟨n₂, hn₂, hlinks'.trans hlinks, hcontent.trans hcontent'⟩

theorem contains (hr : Respells d d') (hlive : d.contains h = true) : d'.contains h = true := by
  obtain ⟨n, hn⟩ := exists_of_contains hlive
  obtain ⟨n', hn', -⟩ := hr h n hn
  rw [Document.contains, hn', Option.isSome_some]

theorem reread (hr : Respells d d') (ht : d.Holds t) : d'.Holds (t.reread d') := by
  refine (ht.reread_of_links fun x hx => ?_).1
  obtain ⟨n, hn⟩ := ht.get?_of_mem hx
  obtain ⟨n', hn', hlinks, -⟩ := hr x n hn
  rw [hn, hn', Option.map_some, Option.map_some, hlinks]

theorem isText_reread (hr : Respells d d') (ht : d.Holds t) :
    (t.reread d').outline.isText = t.outline.isText := by
  obtain ⟨h, n, ks⟩ := t
  obtain ⟨n', hn', -, hcontent⟩ := hr h n ht.get?_handle
  rw [NodeTree.reread, NodeTree.outline, NodeTree.outline, node_of_get? hn']
  generalize n.content = c at hcontent ⊢
  generalize n'.content = c' at hcontent ⊢
  cases hcontent with
  | same => cases c <;> rfl
  | element => rfl

theorem map_isText_reread (hr : Respells d d') (hks : ∀ k ∈ ks, d.Holds k) :
    ((ks.map (NodeTree.reread d')).map NodeTree.outline).map Outline.isText =
      (ks.map NodeTree.outline).map Outline.isText := by
  rw [List.map_map, List.map_map, List.map_map]
  exact List.map_congr_left fun k hk => hr.isText_reread (hks k hk)

/-- What stays apart are trees of other kinds than texts. -/
theorem apart_reread (hr : Respells d d') (hks : ∀ k ∈ ks, d.Holds k)
    (happart : (ks.map NodeTree.outline).IsChain fun a b => ¬(a.isText = true ∧ b.isText = true)) :
    ((ks.map (NodeTree.reread d')).map NodeTree.outline).IsChain fun a b =>
      ¬(a.isText = true ∧ b.isText = true) := by
  rw [← List.isChain_map (R := fun a b => ¬(a = true ∧ b = true)) Outline.isText] at happart ⊢
  rwa [hr.map_isText_reread hks]

/-- A legible tree stays legible. -/
theorem legible_reread (hr : Respells d d') (ht : d.Holds t) (h : t.outline.Legible room) :
    (t.reread d').outline.Legible room := by
  induction t using NodeTree.induct generalizing room with
  | step x n ks ih =>
    obtain ⟨n', hn', -, hcontent⟩ := hr x n ht.get?_handle
    have hkids : ∀ k ∈ ks, ∀ room, k.outline.Legible room → (k.reread d').outline.Legible room :=
      fun k hk _ => ih k hk (ht.kid hk)
    have hapart := hr.apart_reread fun k hk => ht.kid hk
    rw [NodeTree.outline] at h
    rw [NodeTree.reread, NodeTree.outline, node_of_get? hn']
    generalize n.content = c at h hcontent
    generalize n'.content = c' at hcontent ⊢
    generalize hos : ks.map NodeTree.outline = os at h hapart
    cases h with
    | @element room tag attributes _ _ isName names keys void apart kids_legible =>
      obtain ⟨attributes', rfl, names', keys'⟩ : ∃ attributes', c' = .element tag attributes' ∧
          (∀ a ∈ attributes', Markup.IsName a.1) ∧ (Dict.keys attributes').Nodup := by
        cases hcontent with
        | same => exact ⟨attributes, rfl, names, keys⟩
        | element hnames hkeys =>
          refine ⟨_, rfl, fun a ha => ?_, hkeys keys⟩
          refine hnames (fun name hname => ?_) a.1 (List.mem_map_of_mem ha)
          obtain ⟨b, hb, rfl⟩ := List.mem_map.mp hname
          exact names b hb
      refine .element isName names' keys' (fun hvoid => ?_) (hapart apart) fun o ho => ?_
      · have hnone : ks = [] := List.map_eq_nil_iff.mp (hos.trans (void hvoid))
        rw [hnone]
        rfl
      · rw [List.map_map] at ho
        obtain ⟨k, hk, rfl⟩ := List.mem_map.mp ho
        exact hkids k hk room (kids_legible _ (hos ▸ List.mem_map_of_mem hk))
    | text nonempty =>
      cases hcontent
      rw [List.map_eq_nil_iff.mp hos]
      exact .text nonempty
    | comment unclosed =>
      cases hcontent
      rw [List.map_eq_nil_iff.mp hos]
      exact .comment unclosed

/-- A legible document stays legible. -/
theorem legible (hr : Respells d d') (hd : d.Legible n ks) :
    ∃ n', d'.Legible n' (ks.map (NodeTree.reread d')) := by
  obtain ⟨n', hn', -, hcontent⟩ := hr root n hd.held.get?_handle
  have hheld := hr.reread hd.held
  rw [NodeTree.reread, node_of_get? hn'] at hheld
  refine ⟨n', hheld, ?_, fun u hu => ?_, hr.apart_reread (fun k hk => hd.held.kid hk) hd.apart⟩
  · rw [hd.content] at hcontent
    generalize n'.content = c' at hcontent ⊢
    cases hcontent
    rfl
  · obtain ⟨k, hk, rfl⟩ := List.mem_map.mp hu
    exact hr.legible_reread (hd.held.kid hk) (hd.legible k hk)

end Respells

/-- A document after edits of several nodes, one after another. -/
def editedAll (d : Document) (edits : List (Handle × Edit)) : Document :=
  edits.foldl (fun d e => e.2.document e.1 d) d

theorem respells_edit {e : Edit} (hlive : d.contains h = true) (he : e.IsProper) :
    Respells d (e.document h d) := by
  obtain ⟨n, hn⟩ := exists_of_contains hlive
  have hr := edit_rewritten hn e
  intro x m hm
  rw [hr.get?_eq]
  split
  · next hx =>
    obtain rfl := Option.some.inj (hn.symm.trans (hx ▸ hm))
    obtain ⟨hparent, hchildren, -⟩ := e.record_links n
    exact ⟨_, rfl, Prod.ext hparent hchildren, he.relabels n⟩
  · exact ⟨m, hm, rfl, .same _⟩

/-- Edits with proper names leave every node in its place. -/
theorem respells_editedAll (hedits : ∀ e ∈ edits, d.contains e.1 = true ∧ e.2.IsProper) :
    Respells d (d.editedAll edits) := by
  induction edits generalizing d with
  | nil => exact .refl d
  | cons e rest ih =>
    rw [List.forall_mem_cons] at hedits
    have hr := respells_edit hedits.1.1 hedits.1.2
    exact hr.trans (ih fun e' he' => ⟨hr.contains (hedits.2 e' he').1, (hedits.2 e' he').2⟩)

/-- No node has a style that hides it. -/
def Unhidden (d : Document) : Prop :=
  ∀ x n, d.get? x = some n → n.content.Plain

theorem unhidden_of_ofMarkup (h : ofMarkup source = .ok d) : d.Unhidden := by
  obtain ⟨r, ks, hparsed⟩ := parsed_of_ofMarkup h
  have hplain : ∀ e ∈ (NodeTree.node root r ks).entries, e.2.content.Plain := by
    intro e he
    rw [NodeTree.entries, List.mem_cons, List.mem_flatMap] at he
    rcases he with rfl | ⟨k, hk, he⟩
    · rw [hparsed.content]
      exact ⟨trivial, rfl⟩
    · exact content_of_normal (fun _ _ _ keys style => ⟨keys, style.hides⟩)
        (fun _ => ⟨trivial, rfl⟩) (fun _ => ⟨trivial, rfl⟩) (hparsed.normal k hk) e he
  intro x n hn
  obtain ⟨⟨x', n', us⟩, rfl, hu, hsub⟩ := hparsed.held.exists_below (hparsed.live x n hn)
  obtain rfl := Option.some.inj (hu.get?_handle.symm.trans hn)
  exact hplain _ (hsub (NodeTree.top_mem_entries _))

theorem Unhidden.edit {e : Edit} (hd : d.Unhidden) (hlive : d.contains h = true) (he : e.IsUnhiding) :
    (e.document h d).Unhidden := by
  obtain ⟨n, hn⟩ := exists_of_contains hlive
  intro x m hm
  rw [(edit_rewritten hn e).get?_eq] at hm
  split at hm
  · obtain rfl := Option.some.inj hm
    rcases e.content_record n with ⟨p, hp, hcontent⟩ | ⟨name, hcontent⟩ | hcontent
    · rw [hcontent]
      exact (hd h n hn).put (he p hp)
    · rw [hcontent]
      exact (hd h n hn).erase name
    · rw [hcontent]
      exact hd h n hn
  · exact hd x m hm

/-- Edits that set no style that hides leave the nodes without one. -/
theorem Unhidden.editedAll (hd : d.Unhidden)
    (hedits : ∀ e ∈ edits, d.contains e.1 = true ∧ e.2.IsProper ∧ e.2.IsUnhiding) :
    (d.editedAll edits).Unhidden := by
  induction edits generalizing d with
  | nil => exact hd
  | cons e rest ih =>
    rw [List.forall_mem_cons] at hedits
    obtain ⟨⟨hlive, hproper, hunhiding⟩, hrest⟩ := hedits
    have hr := respells_edit hlive hproper
    exact ih (hd.edit hlive hunhiding) fun e' he' =>
      ⟨hr.contains (hrest e' he').1, (hrest e' he').2⟩

/-- After edits of the nodes of a parsed document its markup is read as what it displays: every element
comes back as visible as it was, unless its style hides it. -/
theorem sights_reparsed (h : ofMarkup source = .ok d)
    (hedits : ∀ e ∈ edits, d.contains e.1 = true ∧ e.2.IsProper) :
    ∃ d', ofMarkup (d.editedAll edits).toMarkup = .ok d' ∧
      d'.sights = (d.editedAll edits).displays ∧
      (d'.sights = (d.editedAll edits).sights ↔ ∀ x ∈ (d.editedAll edits).descendants root,
        ((d.editedAll edits).node x).visible = true →
          ((d.editedAll edits).node x).content.hides = false) := by
  obtain ⟨n, ks, hd⟩ := legible_of_ofMarkup h
  obtain ⟨n', hd'⟩ := (respells_editedAll hedits).legible hd
  obtain ⟨d', hparse, hsights⟩ := hd'.reparsed
  exact ⟨d', hparse, hsights, hsights ▸ displays_eq_sights_iff⟩

/-- As long as no edit sets a style that hides, what is read back is what is visible. -/
theorem sights_reparsed_of_unhiding (h : ofMarkup source = .ok d)
    (hedits : ∀ e ∈ edits, d.contains e.1 = true ∧ e.2.IsProper ∧ e.2.IsUnhiding) :
    ∃ d', ofMarkup (d.editedAll edits).toMarkup = .ok d' ∧
      d'.sights = (d.editedAll edits).sights := by
  have hproper : ∀ e ∈ edits, d.contains e.1 = true ∧ e.2.IsProper :=
    fun e he => ⟨(hedits e he).1, (hedits e he).2.1⟩
  obtain ⟨d', hparse, -, hagree⟩ := sights_reparsed h hproper
  refine ⟨d', hparse, hagree.mpr fun x hx _ => ?_⟩
  obtain ⟨n, ks, hd⟩ := legible_of_ofMarkup h
  obtain ⟨n', hd'⟩ := (respells_editedAll hproper).legible hd
  obtain ⟨m, hm⟩ := hd'.get?_of_mem_descendants hx
  rw [node_of_get? hm]
  exact (((unhidden_of_ofMarkup h).editedAll hedits) x m hm).2

/-- A style that hides leaves the element visible until its markup is read. -/
example :
    (ofMarkup "<p></p>").toOption.map (fun d =>
      let d' := d.editedAll [(⟨1, 0⟩, .identity "style" "display:none")]
      (d'.sights, (ofMarkup d'.toMarkup).toOption.map sights)) =
      some ([(some "p", true)], some [(some "p", false)]) := by
  decide +kernel

end Document

end TreeTemplate
