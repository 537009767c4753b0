import TreeTemplate.Proofs.Document.Forest
import TreeTemplate.Proofs.Markup.Reading

/-!
Documents as markup and back.  A parsed document is normal, and the markup of a normal document is
parsed as the same document up to handles (`markup_roundTrip`).
-/

namespace TreeTemplate

namespace Markup

open NodeTree (Outline)

theorem map_writtenAttribute_of_not_mem {visible : Bool} {attributes : Dict String}
    (h : visible = true ∨ "style" ∉ Dict.keys attributes) :
    attributes.map (writtenAttribute visible) = attributes := by
  conv_rhs => rw [← List.map_id attributes]
  refine List.map_congr_left fun a ha => ?_
  rw [writtenAttribute, if_neg]
  · rfl
  · intro hstyle
    simp only [Bool.and_eq_true, decide_eq_true_eq, Bool.not_eq_true'] at hstyle
    rcases h with h | h
    · simp [h] at hstyle
    · exact h (hstyle.1 ▸ List.mem_map_of_mem ha)

/-- Writing the style of a hidden element puts the hiding declaration in front of it. -/
theorem map_writtenAttribute_eq_put {attributes : Dict String} {style : String}
    (hkeys : (Dict.keys attributes).Nodup) (hstyle : Dict.get? attributes "style" = some style) :
    attributes.map (writtenAttribute false) = Dict.put attributes "style" (hidingStyle style) := by
  induction attributes with
  | nil => simp [Dict.get?] at hstyle
  | cons a rest ih =>
    obtain ⟨k, v⟩ := a
    rw [Dict.keys, List.map_cons, List.nodup_cons] at hkeys
    rw [Dict.get?] at hstyle
    rw [List.map_cons, Dict.put]
    split at hstyle
    · next hk =>
      subst hk
      rw [if_pos rfl, map_writtenAttribute_of_not_mem (Or.inr hkeys.1), Option.some.inj hstyle]
      rfl
    · next hk =>
      rw [if_neg hk, ih hkeys.2 hstyle, writtenAttribute, if_neg (by simp [hk])]

theorem takeHiddenStyle_hidingStyle {style : String} (h : takeHiddenStyle style = (false, style)) :
    takeHiddenStyle (hidingStyle style) = (true, style) := by
  rw [Document.takeHiddenStyle_eq, hidingStyle, String.toList_ofList]
  by_cases hempty : style.isEmpty = true
  · obtain rfl : style = "" := by simpa using hempty
    simp [takeHiddenChars_hiddenStyle]
  · have hchars : takeHiddenChars style.toList = (false, style.toList) := by
      rw [Document.takeHiddenStyle_eq, Prod.mk.injEq] at h
      have hrest := congrArg String.toList h.2
      rw [String.toList_ofList] at hrest
      exact Prod.ext h.1 hrest
    rw [if_neg hempty, takeHiddenChars_cons hchars]
    simp

theorem takeHiddenStyle_empty : takeHiddenStyle "" = (false, "") := by
  decide +kernel

theorem written_visible (attributes : Dict String) : written true attributes = attributes := by
  simp [written, map_writtenAttribute_of_not_mem (Or.inl rfl)]

/-- What is written for a hidden element: its style, or an empty one, behind the hiding declaration. -/
theorem written_hidden {attributes : Dict String} (hkeys : (Dict.keys attributes).Nodup) :
    written false attributes =
      Dict.put attributes "style" (hidingStyle ((Dict.get? attributes "style").getD "")) := by
  cases hget : Dict.get? attributes "style" with
  | none =>
    have hnot : "style" ∉ Dict.keys attributes := Dict.get?_eq_none_iff.mp hget
    simp [written, map_writtenAttribute_of_not_mem (Or.inr hnot), Dict.has, hget,
      Dict.put_of_not_mem hnot]
  | some style => simp [written, map_writtenAttribute_eq_put hkeys hget, Dict.has, hget]

/-- An element is parsed as it was before it was written. -/
theorem elementNode_written {tag : String} {visible : Bool} {attributes : Dict String}
    (hkeys : (Dict.keys attributes).Nodup) (hstyle : StyleKept visible attributes) :
    Document.elementNode tag (written visible attributes) =
      { Node.new (.element tag attributes) with visible := visible } := by
  unfold Document.elementNode
  cases hget : Dict.get? attributes "style" with
  | none =>
    cases visible with
    | true =>
      simp only [written_visible, Dict.ofList_of_nodup hkeys, hget]
      rfl
    | false =>
      have hnot : "style" ∉ Dict.keys attributes := Dict.get?_eq_none_iff.mp hget
      simp only [written_hidden hkeys, hget, Option.getD_none,
        Dict.ofList_of_nodup (Dict.keys_put_nodup hkeys), Dict.get?_put_self,
        takeHiddenStyle_hidingStyle takeHiddenStyle_empty, Dict.erase_put hnot]
      rfl
  | some style =>
    have hkept := hstyle style hget
    cases visible with
    | true =>
      rw [if_pos rfl] at hkept
      simp only [written_visible, Dict.ofList_of_nodup hkeys, hget, hkept]
      rfl
    | false =>
      rw [if_neg (by simp)] at hkept
      have hempty : style.isEmpty = false := by simpa using hkept.1
      simp only [written_hidden hkeys, hget, Option.getD_some,
        Dict.ofList_of_nodup (Dict.keys_put_nodup hkeys), Dict.get?_put_self,
        takeHiddenStyle_hidingStyle hkept.2, hempty, Dict.put_put, Dict.put_of_get? hget]
      rfl

end Markup

namespace NodeTree.Outline

/-- The tree without what no markup shows: whether a text or a comment is visible. -/
def plain : Outline → Outline
  | .node (.element tag attributes) visible kids =>
    .node (.element tag attributes) visible (kids.map plain)
  | .node c _ kids => .node c true (kids.map plain)

end NodeTree.Outline

namespace Markup

open NodeTree (Outline)

/-- A normal tree is parsed as it was before it was written. -/
theorem outline_ofOutline {room : Nat} {o : Outline} (h : o.Normal room) :
    (ofOutline o).outline = o.plain := by
  induction h with
  | element isName names keys style void apart kids_normal ih =>
    rw [ofOutline, outline, Outline.plain]
    simp only [elementNode_written keys style, List.map_map]
    congr 1
    exact List.map_congr_left fun k hk => ih k hk
  | text nonempty => simp [ofOutline, outline, Outline.plain]
  | comment unclosed => simp [ofOutline, outline, Outline.plain]

/-- A parsed tree is plain as it is. -/
theorem plain_outline (m : Markup) : m.outline.plain = m.outline := by
  induction m using outline.induct with
  | case1 tag attributes children ih =>
    obtain ⟨kept, visible, hnode, -⟩ := Document.elementNode_spec tag attributes
    simp only [outline, hnode, Node.new, Outline.plain, List.map_map]
    congr 1
    exact List.map_congr_left ih
  | case2 content => simp [outline, Outline.plain]
  | case3 body => simp [outline, Outline.plain]

end Markup

/-! ### Comparing parsed markup -/

namespace Markup

mutual

/-- Whether two nodes of parsed markup are the same. -/
def decEq : (a b : Markup) → Decidable (a = b)
  | element tag attributes children, element tag' attributes' children' =>
    match decEqAll children children' with
    | isTrue h => decidable_of_iff (tag = tag' ∧ attributes = attributes') (by simp [h])
    | isFalse h => isFalse (by simp [h])
  | text s, text s' => decidable_of_iff (s = s') (by simp)
  | comment s, comment s' => decidable_of_iff (s = s') (by simp)
  | element _ _ _, text _ | element _ _ _, comment _ | text _, element _ _ _ | text _, comment _
  | comment _, element _ _ _ | comment _, text _ => isFalse (by simp)

/-- Whether two rows of parsed markup are the same. -/
def decEqAll : (as bs : List Markup) → Decidable (as = bs)
  | [], [] => isTrue rfl
  | [], _ :: _ | _ :: _, [] => isFalse (by simp)
  | a :: as, b :: bs =>
    match decEq a b, decEqAll as bs with
    | isTrue h, isTrue h' => isTrue (by rw [h, h'])
    | isFalse h, _ => isFalse (by simp [h])
    | _, isFalse h => isFalse (by simp [h])

end

instance : DecidableEq Markup :=
  decEq

instance (source : String) (nodes : List Markup) : Decidable (parseMarkup source = .ok nodes) :=
  match parseMarkup source with
  | .ok found => decidable_of_iff (found = nodes) (by simp)
  | .error _ => isFalse (by simp)

end Markup

namespace Document

open Markup (parseMarkup_sound readNodes readNodes_chars ofOutline)
open NodeTree (Outline)

theorem empty_tidy : empty.Tidy where
  free_nodup := List.nodup_nil
  mem_free i := by
    simp only [empty, List.not_mem_nil, false_iff]
    rintro ⟨s, hs, hnone⟩
    cases i with
    | zero =>
      obtain rfl : (⟨0, some (Node.new .root)⟩ : Slot) = s := by simpa using hs
      simp at hnone
    | succ i => simp at hs

theorem empty_holds : empty.Holds (.node root (Node.new .root) []) :=
  .node rfl rfl (by simp) (by simp) (by simp)

theorem eq_root_of_get?_empty {h : Handle} {n : Node} (hn : empty.get? h = some n) : h = root := by
  have hlt : h.slot < 1 := slot_lt_of_get? hn
  exact eq_of_slot_eq hn empty_holds.get?_handle (Nat.lt_one_iff.mp hlt)

/-- The tree of a document made from parsed nodes; nothing else is live. -/
theorem plantAll_empty_holds (nodes : List Markup) :
    (plantAll empty root nodes).Tidy ∧ (plantAll empty root nodes).vacant = Node.new .root ∧
      ∃ us : List NodeTree, us.map NodeTree.outline = nodes.map Markup.outline ∧
        (plantAll empty root nodes).Holds
          (.node root { Node.new .root with children := us.map NodeTree.handle } us) ∧
        ∀ h n, (plantAll empty root nodes).get? h = some n → h ∈ root :: NodeTree.handlesOf us := by
  obtain ⟨htidy, us, hshapes, hg⟩ := plantAll_grown nodes empty_tidy empty_holds.get?_handle
  have houtlines := Markup.map_outline_of_map_shape hshapes
  have hr := (hg.regrown_kids empty_holds).inner (Seated.single empty_holds rfl)
  refine ⟨htidy, hg.vacant, us, houtlines, hr.held _ (List.mem_singleton_self _), fun h n hn => ?_⟩
  by_contra hnot
  rw [List.mem_cons, not_or] at hnot
  have hempty := hg.frame h hnot.2 fun heq => hnot.1 (Option.some.inj heq).symm
  exact hnot.1 (eq_root_of_get?_empty (hempty.symm.trans hn))

/-- The trees of the top-level nodes are normal, and texts do not stand next to each other. -/
def Normal (d : Document) : Prop :=
  ∃ n ks, d.Holds (.node root n ks) ∧ n.content = .root ∧
    (∀ k ∈ ks, k.outline.Normal Markup.nestingLimit) ∧
    (ks.map NodeTree.outline).IsChain fun a b => ¬(a.isText = true ∧ b.isText = true)

/-- Both documents have the same top-level nodes with the same below them, whatever their handles:
kinds, tags, attributes with their values and order, visibility of elements, texts, comments and the
order of children. -/
def Isomorphic (d d' : Document) : Prop :=
  ∃ n ks n' ks', d.Holds (.node root n ks) ∧ d'.Holds (.node root n' ks') ∧
    ks.map (fun k => k.outline.plain) = ks'.map fun k => k.outline.plain

theorem ofMarkup_eq_ok {source : String} {d : Document} (h : ofMarkup source = .ok d) :
    ∃ nodes, parseMarkup source = .ok nodes ∧ d = plantAll empty root nodes := by
  unfold ofMarkup at h
  cases hparse : parseMarkup source with
  | error e => simp [hparse, Except.map] at h
  | ok nodes =>
    simp only [hparse, Except.map, Except.ok.injEq] at h
    exact ⟨nodes, rfl, h.symm⟩

theorem ofMarkup_of_parseMarkup {source : String} {nodes : List Markup}
    (h : parseMarkup source = .ok nodes) : ofMarkup source = .ok (plantAll empty root nodes) := by
  rw [ofMarkup, h]
  rfl

theorem normal_of_ofMarkup {source : String} {d : Document} (h : ofMarkup source = .ok d) :
    d.Normal := by
  obtain ⟨nodes, hparse, rfl⟩ := ofMarkup_eq_ok h
  obtain ⟨-, -, us, houtlines, hheld, -⟩ := plantAll_empty_holds nodes
  have hsound := parseMarkup_sound hparse
  refine ⟨_, us, hheld, rfl, fun u hu => ?_, ?_⟩
  · have hmem : u.outline ∈ nodes.map Markup.outline := houtlines ▸ List.mem_map_of_mem hu
    obtain ⟨m, hm, houtline⟩ := List.mem_map.mp hmem
    exact houtline ▸ (hsound.sound m hm).normal
  · rw [houtlines, List.isChain_map]
    simpa only [Markup.isText_outline] using hsound.apart

theorem parseMarkup_of_legible {os : List Outline}
    (hlegible : ∀ o ∈ os, o.Legible Markup.nestingLimit)
    (happart : os.IsChain fun a b => ¬(a.isText = true ∧ b.isText = true)) :
    parseMarkup (String.ofList (os.flatMap Outline.chars)) = .ok (os.map ofOutline) := by
  have hread : readNodes (2 * (os.flatMap Outline.chars).length + 2) Markup.nestingLimit
      (os.flatMap Outline.chars ++ []) = .ok (os.map ofOutline, []) :=
    readNodes_chars hlegible happart (Or.inl rfl) (Nat.le_refl _)
  rw [List.append_nil] at hread
  simp only [parseMarkup, Markup.readAll, String.toList_ofList, hread, Except.mapError]

theorem parseMarkup_chars {os : List Outline} (hnormal : ∀ o ∈ os, o.Normal Markup.nestingLimit)
    (happart : os.IsChain fun a b => ¬(a.isText = true ∧ b.isText = true)) :
    parseMarkup (String.ofList (os.flatMap Outline.chars)) = .ok (os.map ofOutline) :=
  parseMarkup_of_legible (fun o ho => (hnormal o ho).legible) happart

/-- The markup of a document with legible trees is parsed as the nodes that were written. -/
theorem ofMarkup_of_legible {d : Document} {n : Node} {ks : List NodeTree}
    (hheld : d.Holds (.node root n ks)) (hlegible : ∀ k ∈ ks, k.outline.Legible Markup.nestingLimit)
    (happart : (ks.map NodeTree.outline).IsChain fun a b => ¬(a.isText = true ∧ b.isText = true)) :
    ∃ d' us, ofMarkup d.toMarkup = .ok d' ∧
      d'.Holds (.node root { Node.new .root with children := us.map NodeTree.handle } us) ∧
      us.map NodeTree.outline = ks.map fun k => (ofOutline k.outline).outline := by
  have hmarkup : d.toMarkup = String.ofList ((ks.map NodeTree.outline).flatMap Outline.chars) := by
    rw [toMarkup, innerMarkup, innerChars_eq hheld, List.flatMap_map]
    rfl
  have hparse : parseMarkup
      (String.ofList ((ks.map NodeTree.outline).flatMap Outline.chars)) =
        .ok ((ks.map NodeTree.outline).map ofOutline) :=
    parseMarkup_of_legible (by simpa using hlegible) happart
  obtain ⟨-, -, us, houtlines, hheld', -⟩ :=
    plantAll_empty_holds ((ks.map NodeTree.outline).map ofOutline)
  refine ⟨_, us, by rw [hmarkup, ofMarkup, hparse]; rfl, hheld', ?_⟩
  rw [houtlines, List.map_map, List.map_map]
  rfl

theorem ofMarkup_toMarkup {d : Document} (h : d.Normal) :
    ∃ d', ofMarkup d.toMarkup = .ok d' ∧ Isomorphic d d' := by
  obtain ⟨n, ks, hheld, -, hnormal, happart⟩ := h
  obtain ⟨d', us, hparse, hheld', houtlines⟩ :=
    ofMarkup_of_legible hheld (fun k hk => (hnormal k hk).legible) happart
  refine ⟨d', hparse, n, ks, _, us, hheld, hheld', ?_⟩
  have hus : us.map (fun u => u.outline.plain) = us.map NodeTree.outline := by
    refine List.map_congr_left fun u hu => ?_
    have hmem := houtlines ▸ List.mem_map_of_mem (f := NodeTree.outline) hu
    obtain ⟨k, -, houtline⟩ := List.mem_map.mp hmem
    rw [← houtline, Markup.plain_outline]
  rw [hus, houtlines]
  exact List.map_congr_left fun k hk => (Markup.outline_ofOutline (hnormal k hk)).symm

/-! ### Parsed documents are proper -/

/-- What holds of everything that markup can spell holds all over a normal tree. -/
theorem content_of_normal {P : Content → Prop}
    (element : ∀ tag attributes visible, (Dict.keys attributes).Nodup →
      Markup.StyleKept visible attributes → P (.element tag attributes))
    (text : ∀ s, P (.text s)) (comment : ∀ s, P (.comment s)) {room : Nat} {t : NodeTree}
    (h : t.outline.Normal room) : ∀ e ∈ t.entries, P e.2.content := by
  induction t using NodeTree.induct generalizing room with
  | step x n ks ih =>
    rw [NodeTree.outline] at h
    generalize hkids : ks.map NodeTree.outline = os at h
    intro e he
    rw [NodeTree.entries, List.mem_cons, List.mem_flatMap] at he
    rcases he with rfl | ⟨k, hk, he⟩
    · generalize n.content = content at h
      cases h with
      | element _ _ keys style _ _ _ => exact element _ _ _ keys style
      | text _ => exact text _
      | comment _ => exact comment _
    · have hmem : k.outline ∈ os := hkids ▸ List.mem_map_of_mem hk
      generalize n.content = content at h
      cases h with
      | element _ _ _ _ _ _ kids_normal => exact ih k hk (kids_normal _ hmem) e he
      | text _ => simp at hmem
      | comment _ => simp at hmem

theorem orderly_of_normal {room : Nat} {t : NodeTree} (h : t.outline.Normal room) :
    ∀ e ∈ t.entries, e.2.content.Orderly :=
  content_of_normal (fun _ _ _ keys _ => keys) (fun _ => trivial) (fun _ => trivial) h

/-- All of the document is in the tree of the root, and this is as the reader makes it. -/
structure Parsed (d : Document) (n : Node) (ks : List NodeTree) : Prop where
  tidy : d.Tidy
  held : d.Holds (.node root n ks)
  content : n.content = .root
  parent : n.parent? = none
  vacant : d.vacant = Node.new .root
  normal : ∀ k ∈ ks, k.outline.Normal Markup.nestingLimit
  live : ∀ h m, d.get? h = some m → h ∈ (NodeTree.node root n ks).handles

theorem parsed_of_ofMarkup {source : String} {d : Document} (h : ofMarkup source = .ok d) :
    ∃ n ks, d.Parsed n ks := by
  obtain ⟨n, ks, hheld, hcontent, hnormal, -⟩ := normal_of_ofMarkup h
  obtain ⟨nodes, -, rfl⟩ := ofMarkup_eq_ok h
  obtain ⟨htidy, hvacant, us, -, hheld', hlive⟩ := plantAll_empty_holds nodes
  obtain ⟨-, rfl, rfl⟩ := NodeTree.node.inj (hheld'.unique hheld rfl)
  refine ⟨_, _, htidy, hheld, hcontent, rfl, hvacant, hnormal, fun x m hm => ?_⟩
  simpa [NodeTree.handlesOf] using hlive x m hm

theorem Parsed.proper {d : Document} {n : Node} {ks : List NodeTree} (hd : d.Parsed n ks) :
    d.Proper := by
  refine .of_holds hd.tidy hd.held hd.content hd.parent hd.live (fun e he => ?_)
    (hd.vacant ▸ ⟨rfl, rfl⟩)
  rw [NodeTree.entries, List.mem_cons, List.mem_flatMap] at he
  rcases he with rfl | ⟨k, hk, he⟩
  · rw [hd.content]
    trivial
  · exact orderly_of_normal (hd.normal k hk) e he

/-- A parsed document is proper. -/
theorem proper_of_ofMarkup {source : String} {d : Document} (h : ofMarkup source = .ok d) :
    d.Proper := by
  obtain ⟨n, ks, hd⟩ := parsed_of_ofMarkup h
  exact hd.proper

/-- Markup is parsed as a normal document, every normal document is parsed from its own markup, and
decoding undoes both escapers. -/
theorem markup_roundTrip :
    (∀ source d, ofMarkup source = .ok d → d.Normal) ∧
      (∀ d : Document, d.Normal → ∃ d', ofMarkup d.toMarkup = .ok d' ∧ Isomorphic d d') ∧
      (∀ s, Markup.decodeEntities (Markup.escapeText s) = s) ∧
      ∀ s, Markup.decodeEntities (Markup.escapeAttribute s) = s :=
  ⟨fun _ _ h => normal_of_ofMarkup h, fun _ h => ofMarkup_toMarkup h,
    Markup.decodeEntities_escapeText, Markup.decodeEntities_escapeAttribute⟩

/-- A paragraph with references in an attribute and in its text. -/
theorem markup_roundTrip_paragraph :
    ∃ d, ofMarkup "<p title=\"a&amp;b\">1 &lt; 2</p>" = .ok d ∧ d.Normal ∧
      ∃ d', ofMarkup d.toMarkup = .ok d' ∧ Isomorphic d d' := by
  have hparse : parseMarkup "<p title=\"a&amp;b\">1 &lt; 2</p>" =
      .ok [.element "p" [("title", "a&b")] [.text "1 < 2"]] := by
    decide +kernel
  have hd := ofMarkup_of_parseMarkup hparse
  have hnormal := markup_roundTrip.1 _ _ hd
  exact ⟨_, hd, hnormal, markup_roundTrip.2.1 _ hnormal⟩

end Document

end TreeTemplate
