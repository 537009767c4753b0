import TreeTemplate.Proofs.Document.RoundTrip
import TreeTemplate.Proofs.Render.Changes

/-!
When the content that a value leaves behind depends on the value alone.  New content is compared as it is
written, references and all, with what the value shows.  So what stays is what the shown text reads as when
it is taken for markup (`parseMarkup_of_kept`): for a value that is markup, or shows a text without
references, this is its own content (`ReadsAsContent`), and then nothing depends on what was there before
(`applyContent_independent`).  Content that is there already is left alone exactly if it is written as the
value shows it (`mutations_applyContent_settled`).
-/

namespace TreeTemplate.Document

open Markup (ofOutline escapeTextChars)
open NodeTree (Outline)

variable {d : Document} {h : Handle} {n : Node} {ks : List NodeTree} {v : Value}

/-- What a value shows, read as markup, is what it has as content. -/
def ReadsAsContent (v : Value) : Prop :=
  ∃ nodes, parseMarkup v.display = .ok nodes ∧ contentShapes v = nodes.map Markup.shape

/-- A character that is written as itself in a text. -/
def IsPlain (c : Char) : Prop :=
  c ≠ '&' ∧ c ≠ '<' ∧ c ≠ '>'

theorem escapeTextChars_of_plain {cs : List Char} (hcs : ∀ c ∈ cs, IsPlain c) :
    escapeTextChars cs = cs := by
  have hchar : ∀ c ∈ cs, Markup.escapeTextChar c = [c] := by
    intro c hc
    obtain ⟨hamp, hless, hgreater⟩ := hcs c hc
    rw [Markup.escapeTextChar, if_neg hamp, if_neg hless, if_neg hgreater]
  rw [escapeTextChars, List.flatMap_congr hchar, List.flatMap_singleton']

theorem looksLikeMarkup_eq_true (hlooks : looksLikeMarkup v = true) : '<' ∈ v.displayChars := by
  cases v with
  | string s =>
    have hhead : (Text.trimStartChars s.toList).head? = some '<' := by
      simpa [looksLikeMarkup] using hlooks
    exact List.dropWhile_subset _ (List.mem_of_mem_head? hhead)
  | _ => cases hlooks

/-- Markup that is taken for markup reads as itself, too. -/
theorem readsAsContent_of_markup {nodes : List Markup} (hlooks : looksLikeMarkup v = true)
    (hparse : parseMarkup v.display = .ok nodes) : ReadsAsContent v := by
  have hshown : ¬v.display.isEmpty = true := by
    have hne := List.ne_nil_of_mem (looksLikeMarkup_eq_true hlooks)
    simpa [Value.display] using hne
  refine ⟨nodes, hparse, ?_⟩
  rw [contentShapes, if_neg hshown, hlooks, hparse]

theorem looksLikeMarkup_of_plain (hplain : ∀ c ∈ v.displayChars, IsPlain c) :
    looksLikeMarkup v = false := by
  by_contra hlooks
  have hmem := looksLikeMarkup_eq_true (by simpa using hlooks)
  exact (hplain _ hmem).2.1 rfl

theorem contentShapes_of_text (hlooks : looksLikeMarkup v = false) :
    contentShapes v =
      if v.display.isEmpty then [] else [.node (Node.new (.text v.display)) []] := by
  rw [contentShapes, hlooks]

/-- A text without references is written as it is shown. -/
theorem contentChars_of_plain (hplain : ∀ c ∈ v.displayChars, IsPlain c) :
    contentChars v = v.displayChars := by
  rw [contentChars, looksLikeMarkup_of_plain hplain]
  split
  · next hempty =>
    have hnil : v.displayChars = [] := by simpa [Value.display] using hempty
    exact hnil.symm
  · rw [Value.display, String.toList_ofList]
    exact escapeTextChars_of_plain hplain

/-- A text without references reads as itself. -/
theorem readsAsContent_of_plain (hplain : ∀ c ∈ v.displayChars, IsPlain c) : ReadsAsContent v := by
  have hshapes := contentShapes_of_text (looksLikeMarkup_of_plain hplain)
  have hchars : (contentShapes v).flatMap Shape.chars = v.displayChars :=
    (flatMap_chars_contentShapes v).trans (contentChars_of_plain hplain)
  by_cases hempty : v.display.isEmpty
  · rw [if_pos hempty] at hshapes
    rw [hshapes] at hchars
    refine ⟨[], ?_, hshapes⟩
    have hnone : ∀ o ∈ ([] : List Outline), o.Normal Markup.nestingLimit := by simp
    have hparse := parseMarkup_chars hnone .nil
    rw [Value.display, ← hchars]
    simpa using hparse
  · rw [if_neg hempty] at hshapes
    rw [hshapes] at hchars
    let o := Outline.node (.text v.display) true []
    have hnormal : ∀ o' ∈ [o], o'.Normal Markup.nestingLimit := by
      simpa [o] using Outline.Normal.text (by simpa using hempty)
    have hwritten : [o].flatMap Outline.chars = v.displayChars := by
      simpa [o, Shape.chars, Shape.outline, Node.new] using hchars
    have hparse := parseMarkup_chars hnormal (.singleton _)
    rw [hwritten] at hparse
    refine ⟨[.text v.display], ?_, ?_⟩
    · simpa [o, ofOutline, Value.display] using hparse
    · rw [hshapes]
      simp [Markup.shape]

theorem map_outline_of_map_shape {us : List NodeTree} {σs : List Shape}
    (h : us.map NodeTree.shape = σs) : us.map NodeTree.outline = σs.map Shape.outline := by
  rw [← h, List.map_map]
  exact List.map_congr_left fun u _ => u.outline_shape.symm

section

variable (hheld : d.Holds (.node h n ks))

section

variable (hnormal : ∀ k ∈ ks, k.outline.Normal Markup.nestingLimit)
  (happart : (ks.map NodeTree.outline).IsChain fun a b => ¬(a.isText = true ∧ b.isText = true))

include hnormal happart

/-- What stays although it was to be replaced is what the shown text reads as. -/
theorem parseMarkup_of_kept (hkept : String.ofList (ks.flatMap NodeTree.chars) = v.display) :
    parseMarkup v.display = .ok (ks.map fun k => ofOutline k.outline) := by
  have hnormals : ∀ o ∈ ks.map NodeTree.outline, o.Normal Markup.nestingLimit := by
    simpa using hnormal
  have hparse := parseMarkup_chars hnormals happart
  rw [List.flatMap_map, List.map_map] at hparse
  rw [← hkept]
  exact hparse

include hheld

/-- The new content of a node is its value's, whatever the node had as content. -/
theorem applyContent_independent (hd : d.Forest) (hv : ReadsAsContent v) :
    ∃ ks', (d.applyContent h v true).Holds
        (.node h { n with children := ks'.map NodeTree.handle } ks') ∧
      ks'.map (fun k => k.outline.plain) = (contentShapes v).map Shape.outline := by
  obtain ⟨nodes, hparse, hcontent⟩ := hv
  obtain ⟨ks₀, hs⟩ := hd.seated hheld.get?_handle
  obtain ⟨-, -, rfl⟩ := NodeTree.node.inj (hheld.unique (hs.held _ (List.mem_singleton_self _)) rfl)
  obtain ⟨-, ks', hshapes, hr⟩ := applyContent_regrown hs hd.tidy v true
  refine ⟨ks', (hr.seated hs).held _ (List.mem_singleton_self _), ?_⟩
  have hnodes : (contentShapes v).map Shape.outline = nodes.map Markup.outline := by
    rw [hcontent, List.map_map]
    exact List.map_congr_left fun m _ => m.outline_shape
  have hplain : ks'.map (fun k => k.outline.plain) = (ks'.map NodeTree.outline).map Outline.plain := by
    rw [List.map_map]
    rfl
  rw [hplain, map_outline_of_map_shape hshapes, shapesAfter, NodeTree.flatMap_chars_shape]
  split
  · next hkept =>
    have hread := parseMarkup_of_kept hnormal happart (hkept.resolve_right (by simp))
    obtain rfl := Except.ok.inj (hparse.symm.trans hread)
    rw [hnodes, List.map_map, List.map_map, List.map_map]
    refine List.map_congr_left fun k hk => ?_
    simp only [Function.comp_apply, NodeTree.outline_shape]
    exact (Markup.outline_ofOutline (hnormal k hk)).symm
  · rw [hnodes, List.map_map]
    exact List.map_congr_left fun m _ => m.plain_outline

end

variable (hks : ks.map NodeTree.outline = (contentShapes v).map Shape.outline)

include hks

theorem flatMap_chars_settled : ks.flatMap NodeTree.chars = contentChars v := by
  rw [← flatMap_chars_contentShapes]
  have hchars := congrArg (List.flatMap Outline.chars) hks
  rwa [List.flatMap_map, List.flatMap_map] at hchars

include hheld

/-- Content that is there already is left alone, if it is written as the value shows it. -/
theorem applyContent_settled (hwritten : contentChars v = v.displayChars) (clear : Bool) :
    d.applyContent h v clear = d := by
  have hinner : d.innerMarkup h = v.display := by
    rw [innerMarkup, innerChars_eq hheld, flatMap_chars_settled hks, hwritten, Value.display]
  simp [applyContent, hinner]

/-- Content that is there already is taken out and put in again, if the value shows it in another way than
it is written. -/
theorem mutations_applyContent_settled (hwritten : contentChars v ≠ v.displayChars) :
    (d.applyContent h v true).mutations = d.mutations + if contentShapes v = [] then 0 else 2 := by
  have hother : ¬(String.ofList (ks.flatMap NodeTree.chars) = v.display ∨ true = false) := by
    rw [flatMap_chars_settled hks, Value.display, String.ofList_inj]
    simpa using hwritten
  have hnil : ks = [] ↔ contentShapes v = [] := by
    rw [← List.map_eq_nil_iff (f := NodeTree.outline), hks, List.map_eq_nil_iff]
  rw [mutations_applyContent hheld, contentChanges, NodeTree.flatMap_chars_shape, if_neg hother]
  simp only [List.map_eq_nil_iff, hnil]
  split <;> rfl

end

/-- A text with a reference is put in again although it is there, and what it is written as does not replace
it. -/
example :
    (ofMarkup "<p>a &amp; b</p>").toOption.map (fun d =>
      ((d.applyContent ⟨1, 0⟩ (.string "a & b") true).mutations,
        (d.applyContent ⟨1, 0⟩ (.string "a &amp; b") true).toMarkup)) =
      some (2, "<p>a &amp; b</p>") := by
  decide +kernel

end TreeTemplate.Document
