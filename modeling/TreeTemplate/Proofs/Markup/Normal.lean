import Mathlib.Data.List.Chain
import TreeTemplate.Markup.Reader
import TreeTemplate.Proofs.Dict
import TreeTemplate.Proofs.Document.Planting
import TreeTemplate.Proofs.Markup.Style

/-!
Normal trees: what the reader of markup can produce.  A normal tree has proper names, no empty or
adjacent texts, no children in void elements, limited nesting, and keeps the hiding declaration out
of the styles (`StyleKept`).  Without the last a tree is still legible: its markup is read, but what
hides in a style is read as a hidden element.
-/

namespace TreeTemplate

namespace Markup

/-- A tag or attribute name: characters of names, and at least one. -/
structure IsName (s : String) : Prop where
  nonempty : s ≠ ""
  chars : ∀ c ∈ s.toList, isNameChar c = true

/-- The style of a visible element does not hide it; a hidden one has no style or one that says
nothing of hiding and is written in normal form. -/
def StyleKept (visible : Bool) (attributes : Dict String) : Prop :=
  ∀ style, Dict.get? attributes "style" = some style →
    if visible then (takeHiddenStyle style).1 = false
    else style ≠ "" ∧ takeHiddenStyle style = (false, style)

def isText : Markup → Bool
  | .text _ => true
  | _ => false

/-- Parsed nodes nested at most `room` deep that follow the rules of the reader. -/
inductive Sound : Nat → Markup → Prop
  | element {room : Nat} {tag : String} {attributes : List (String × String)}
      {children : List Markup} (isName : IsName tag) (names : ∀ a ∈ attributes, IsName a.1)
      (void : isVoid tag = true → children = [])
      (apart : children.IsChain fun a b => ¬(a.isText = true ∧ b.isText = true))
      (children_sound : ∀ m ∈ children, Sound room m) :
      Sound (room + 1) (.element tag attributes children)
  | text {room : Nat} {content : String} (nonempty : content ≠ "") : Sound room (.text content)
  | comment {room : Nat} {body : String} (unclosed : ¬['-', '-', '>'] <:+: body.toList) :
      Sound room (.comment body)

end Markup

namespace NodeTree.Outline

open TreeTemplate.Markup

def isText : Outline → Bool
  | .node (.text _) _ _ => true
  | _ => false

/-- Trees nested at most `room` elements deep that markup can spell. -/
inductive Normal : Nat → Outline → Prop
  | element {room : Nat} {tag : String} {attributes : Dict String} {visible : Bool}
      {kids : List Outline} (isName : IsName tag) (names : ∀ a ∈ attributes, IsName a.1)
      (keys : (Dict.keys attributes).Nodup) (style : StyleKept visible attributes)
      (void : isVoid tag = true → kids = [])
      (apart : kids.IsChain fun a b => ¬(a.isText = true ∧ b.isText = true))
      (kids_normal : ∀ k ∈ kids, Normal room k) :
      Normal (room + 1) (.node (.element tag attributes) visible kids)
  | text {room : Nat} {content : String} {visible : Bool} (nonempty : content ≠ "") :
      Normal room (.node (.text content) visible [])
  | comment {room : Nat} {body : String} {visible : Bool}
      (unclosed : ¬['-', '-', '>'] <:+: body.toList) : Normal room (.node (.comment body) visible [])

/-- Trees nested at most `room` elements deep that markup can spell up to styles: what the styles say need
not agree with what is visible. -/
inductive Legible : Nat → Outline → Prop
  | element {room : Nat} {tag : String} {attributes : Dict String} {visible : Bool}
      {kids : List Outline} (isName : IsName tag) (names : ∀ a ∈ attributes, IsName a.1)
      (keys : (Dict.keys attributes).Nodup) (void : isVoid tag = true → kids = [])
      (apart : kids.IsChain fun a b => ¬(a.isText = true ∧ b.isText = true))
      (kids_legible : ∀ k ∈ kids, Legible room k) :
      Legible (room + 1) (.node (.element tag attributes) visible kids)
  | text {room : Nat} {content : String} {visible : Bool} (nonempty : content ≠ "") :
      Legible room (.node (.text content) visible [])
  | comment {room : Nat} {body : String} {visible : Bool}
      (unclosed : ¬['-', '-', '>'] <:+: body.toList) : Legible room (.node (.comment body) visible [])

theorem Normal.legible {room : Nat} {o : Outline} (h : o.Normal room) : o.Legible room := by
  induction h with
  | element isName names keys _ void apart _ ih => exact .element isName names keys void apart ih
  | text nonempty => exact .text nonempty
  | comment unclosed => exact .comment unclosed

end NodeTree.Outline

namespace Document

open TreeTemplate.Markup

theorem takeHiddenStyle_eq (style : String) :
    takeHiddenStyle style =
      ((takeHiddenChars style.toList).1, String.ofList (takeHiddenChars style.toList).2) :=
  rfl

/-- A style left over by `takeHiddenStyle` does not hide and is in normal form. -/
theorem takeHiddenStyle_rest {style : String} {hidden : Bool} {rest : String}
    (h : takeHiddenStyle style = (hidden, rest)) : takeHiddenStyle rest = (false, rest) := by
  rw [takeHiddenStyle_eq, Prod.mk.injEq] at h
  have hrest : takeHiddenChars (takeHiddenChars style.toList).2 =
      (false, (takeHiddenChars style.toList).2) := takeHiddenChars_rest rfl
  rw [← h.2, takeHiddenStyle_eq, String.toList_ofList, hrest]

/-- What an element node is made of: the attributes that are written, less the hiding. -/
theorem elementNode_spec (tag : String) (attributes : List (String × String)) :
    ∃ kept : Dict String, ∃ visible : Bool,
      elementNode tag attributes = { Node.new (.element tag kept) with visible := visible } ∧
      (Dict.keys kept).Nodup ∧ Dict.keys kept ⊆ Dict.keys attributes ∧ StyleKept visible kept := by
  have hnodup := Dict.keys_ofList_nodup attributes
  have hkeys : Dict.keys (Dict.ofList attributes) ⊆ Dict.keys attributes := fun key hkey =>
    (Dict.mem_keys_ofList attributes).mp hkey
  unfold elementNode
  cases hstyle : Dict.get? (Dict.ofList attributes) "style" with
  | none =>
    simp only [hstyle]
    refine ⟨_, true, rfl, hnodup, hkeys, fun style h => ?_⟩
    simp [hstyle] at h
  | some style =>
    cases htake : takeHiddenStyle style with
    | mk hidden rest =>
      have hrest := takeHiddenStyle_rest htake
      simp only [hstyle, htake]
      cases hidden with
      | false =>
        refine ⟨_, true, rfl, hnodup, hkeys, fun style' h => ?_⟩
        rw [hstyle] at h
        obtain rfl := Option.some.inj h
        simp [htake]
      | true =>
        by_cases hempty : rest.isEmpty = true
        · simp only [hempty, if_true]
          refine ⟨_, false, rfl, Dict.keys_erase_nodup hnodup, fun key hkey => hkeys ?_,
            fun style' h => ?_⟩
          · exact ((Dict.erase_sublist _ _).map _).mem hkey
          · exact absurd (Dict.mem_keys_iff.mpr ⟨_, h⟩) (Dict.not_mem_keys_erase hnodup)
        · simp only [hempty]
          refine ⟨_, false, rfl, Dict.keys_put_nodup hnodup, fun key hkey => hkeys ?_,
            fun style' h => ?_⟩
          · rcases Dict.mem_keys_put.mp hkey with hkey | rfl
            · exact hkey
            · exact Dict.mem_keys_iff.mpr ⟨_, hstyle⟩
          · rw [if_neg (by simp), Dict.get?_put_self] at h
            obtain rfl := Option.some.inj h
            exact ⟨fun hnil => hempty (by simp [hnil]), hrest⟩

end Document

namespace Markup

open NodeTree (Outline)

theorem isText_outline (m : Markup) : m.outline.isText = m.isText := by
  cases m with
  | element tag attributes children =>
    obtain ⟨kept, visible, hnode, -⟩ := Document.elementNode_spec tag attributes
    simp only [outline, hnode]
    rfl
  | text content => simp [outline, Outline.isText, isText]
  | comment body => simp [outline, Outline.isText, isText]

/-- What the reader produces becomes a normal tree. -/
theorem Sound.normal {room : Nat} {m : Markup} (h : Sound room m) : m.outline.Normal room := by
  induction h with
  | @element room tag attributes children isName names void apart _ ih =>
    obtain ⟨kept, visible, hnode, hnodup, hkeys, hstyle⟩ :=
      Document.elementNode_spec tag attributes
    simp only [outline, hnode]
    refine .element isName (fun a ha => ?_) hnodup hstyle (fun hvoid => by simp [void hvoid]) ?_ ?_
    · obtain ⟨b, hb, hba⟩ := List.mem_map.mp (hkeys (List.mem_map_of_mem (f := (·.1)) ha))
      exact hba ▸ names b hb
    · rw [List.isChain_map]
      simpa only [isText_outline] using apart
    · intro k hk
      obtain ⟨m, hm, rfl⟩ := List.mem_map.mp hk
      exact ih m hm
  | text nonempty =>
    rw [outline]
    exact .text nonempty
  | comment unclosed =>
    rw [outline]
    exact .comment unclosed

end Markup

end TreeTemplate
