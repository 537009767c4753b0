import TreeTemplate.Proofs.Markup.Soundness

/-!
Reading what was written.  The markup of a legible tree is read back as the parsed nodes it was written
from (`readNodes_chars`).  What comes after a list of nodes has to stop the reader: the end of the
text or a closing tag (`Stops`).
-/

namespace TreeTemplate.Markup

open TreeTemplate.Text
open NodeTree (Outline)
open Document (valueChars hiddenValueChars attributeChars attributesChars styleName nodeChars)

variable {cs rest tail front : List Char} {p : Char → Bool} {fuel room : Nat}

/-! ### Names and attributes -/

theorem not_isNameChar_of_mem {c : Char}
    (h : c ∈ [' ', '\t', '\r', '\n', '=', '>', '<', '/', '!']) : isNameChar c = false := by
  have hall : ([' ', '\t', '\r', '\n', '=', '>', '<', '/', '!'].all fun c => !isNameChar c) = true := by
    decide +kernel
  simpa using List.all_eq_true.mp hall c h

theorem span?_append (hne : front ≠ []) (hfront : ∀ c ∈ front, p c = true)
    (hrest : ∀ c ∈ rest.head?, p c = false) : span? p (front ++ rest) = some (front, rest) := by
  have htake : rest.takeWhile p = [] := by
    cases rest with
    | nil => rfl
    | cons c rest => simp [hrest c rfl]
  have hdrop : rest.dropWhile p = rest := by
    cases rest with
    | nil => rfl
    | cons c rest => simp [hrest c rfl]
  rw [span?, List.takeWhile_append_of_pos hfront, List.dropWhile_append_of_pos hfront, htake, hdrop]
  simp [hne]

theorem IsName.cons {name : String} (h : IsName name) :
    ∃ c rest, name.toList = c :: rest ∧ isNameChar c = true := by
  cases hname : name.toList with
  | nil => exact absurd (String.toList_eq_nil_iff.mp hname) h.nonempty
  | cons c rest => exact ⟨c, rest, rfl, h.chars c (by simp [hname])⟩

theorem readName?_append {name : String} (h : IsName name)
    (hrest : ∀ c ∈ rest.head?, isNameChar c = false) :
    readName? (name.toList ++ rest) = some (name, rest) := by
  obtain ⟨c, more, hname, -⟩ := h.cons
  rw [readName?, span?_append (by simp [hname]) h.chars hrest]
  simp

/-- What may follow an attribute: nothing that would belong to it. -/
structure Follows (cs : List Char) : Prop where
  head : ∀ c ∈ cs.head?, isNameChar c = false
  unassigned : readAssigned? cs = none

/-- An attribute with the blank before it. -/
def pairChars (a : String × String) : List Char :=
  ' ' :: a.1.toList ++ valueChars a.2

theorem follows_greater : Follows ('>' :: rest) :=
  ⟨by simpa using not_isNameChar_of_mem (c := '>') (by simp), rfl⟩

theorem skipTagSpace_name {name : String} (h : IsName name) :
    skipTagSpace (name.toList ++ rest) = name.toList ++ rest := by
  obtain ⟨c, more, hname, hc⟩ := h.cons
  have hspace : isTagSpace c = false := by
    rw [Bool.eq_false_iff]
    intro hspace
    simp only [isTagSpace, Bool.or_eq_true, beq_iff_eq] at hspace
    have hnot := not_isNameChar_of_mem (c := c) (by rcases hspace with ((h | h) | h) | h <;> simp [h])
    simp [hc] at hnot
  rw [hname, skipTagSpace, List.cons_append, List.dropWhile_cons_of_neg (by simp [hspace])]

theorem follows_pairChars {a : String × String} (h : IsName a.1) :
    Follows (pairChars a ++ rest) := by
  refine ⟨by simpa [pairChars] using not_isNameChar_of_mem (c := ' ') (by simp), ?_⟩
  obtain ⟨c, more, hname, hc⟩ := h.cons
  have hskip : skipTagSpace (pairChars a ++ rest) = a.1.toList ++ (valueChars a.2 ++ rest) := by
    rw [← skipTagSpace_name h]
    simp [pairChars, skipTagSpace, isTagSpace]
  have heq : c ≠ '=' := by
    rintro rfl
    simp [not_isNameChar_of_mem (c := '=') (by simp)] at hc
  rw [readAssigned?, hskip, hname]
  split
  · next heq' => exact absurd (List.cons.inj heq').1 heq
  · rfl

theorem readAssigned?_valueChars {value : String} (hvalue : value ≠ "") :
    readAssigned? (valueChars value ++ rest) = some (value, rest) := by
  have hempty : value.isEmpty = false := by simpa using hvalue
  simp only [readAssigned?, valueChars, hempty]
  simp [skipTagSpace, isTagSpace, readAttributeValue?, readQuoted?,
    cutChars_append (quote_not_mem_escapeAttributeChars value.toList),
    decodeChars_escapeAttributeChars]

theorem readAttribute?_pairChars {a : String × String} (h : IsName a.1) (hrest : Follows rest) :
    readAttribute? (pairChars a ++ rest) = some (a, rest) := by
  obtain ⟨c, more, hname, hc⟩ := h.cons
  have hspan : span? isTagSpace (pairChars a ++ rest) =
      some ([' '], a.1.toList ++ (valueChars a.2 ++ rest)) := by
    have hskip : skipTagSpace (a.1.toList ++ (valueChars a.2 ++ rest)) =
        a.1.toList ++ (valueChars a.2 ++ rest) := skipTagSpace_name h
    have hhead : ∀ c ∈ (a.1.toList ++ (valueChars a.2 ++ rest)).head?, isTagSpace c = false := by
      intro c' hc'
      rw [← hskip] at hc'
      have hnot := List.head?_dropWhile_not isTagSpace (a.1.toList ++ (valueChars a.2 ++ rest))
      rw [skipTagSpace] at hc'
      rw [hc'] at hnot
      simpa using hnot
    have hspan : span? isTagSpace ([' '] ++ (a.1.toList ++ (valueChars a.2 ++ rest))) =
        some ([' '], a.1.toList ++ (valueChars a.2 ++ rest)) :=
      span?_append (by simp) (by simp [isTagSpace]) hhead
    simpa [pairChars] using hspan
  have hreadName : readName? (a.1.toList ++ (valueChars a.2 ++ rest)) =
      some (a.1, valueChars a.2 ++ rest) := by
    refine readName?_append h fun c hc => ?_
    by_cases hempty : a.2.isEmpty = true
    · rw [valueChars, if_pos hempty] at hc
      exact hrest.head c hc
    · rw [valueChars, if_neg hempty] at hc
      obtain rfl : '=' = c := by simpa using hc
      exact not_isNameChar_of_mem (by simp)
  simp only [readAttribute?, hspan, hreadName, Option.bind_eq_bind, Option.bind_some]
  by_cases hvalue : a.2 = ""
  · have hnil : valueChars a.2 = [] := by simp [valueChars, hvalue]
    simp only [hnil, List.nil_append, hrest.unassigned]
    rw [← hvalue]
  · simp only [readAssigned?_valueChars hvalue]

theorem readAttributes_pairChars {attributes : List (String × String)}
    (h : ∀ a ∈ attributes, IsName a.1) (hfuel : attributes.length ≤ fuel) :
    readAttributes fuel (attributes.flatMap pairChars ++ '>' :: rest) = (attributes, '>' :: rest) := by
  induction attributes generalizing fuel with
  | nil =>
    cases fuel with
    | zero => rfl
    | succ fuel =>
      have hnone : readAttribute? ('>' :: rest) = none := by
        simp [readAttribute?, span?, isTagSpace]
      simp [readAttributes, hnone]
  | cons a more ih =>
    cases fuel with
    | zero => simp at hfuel
    | succ fuel =>
      have hfollows : Follows (more.flatMap pairChars ++ '>' :: rest) := by
        cases more with
        | nil => exact follows_greater
        | cons b more =>
          rw [List.flatMap_cons, List.append_assoc]
          exact follows_pairChars (h b (by simp))
      rw [List.flatMap_cons, List.append_assoc, readAttributes,
        readAttribute?_pairChars (h a List.mem_cons_self) hfollows]
      simp only [ih (fun b hb => h b (List.mem_cons_of_mem a hb)) (by simpa using hfuel)]

/-! ### The attributes that are written -/

/-- The style that is written for a hidden element. -/
def hidingStyle (style : String) : String :=
  String.ofList (hiddenStyle ++ if style.isEmpty then [] else ';' :: style.toList)

def writtenAttribute (visible : Bool) (a : String × String) : String × String :=
  if a.1 = "style" && !visible then (a.1, hidingStyle a.2) else a

def written (visible : Bool) (attributes : Dict String) : List (String × String) :=
  attributes.map (writtenAttribute visible) ++
    if visible || Dict.has attributes "style" then [] else [("style", hidingStyle "")]

theorem hiddenValueChars_eq (style : String) : hiddenValueChars style = valueChars (hidingStyle style) := by
  have hempty : (hidingStyle style).isEmpty = false := by
    simp [hidingStyle, hiddenStyle]
  rw [valueChars, if_neg (by simp [hempty]), hiddenValueChars, hidingStyle, String.toList_ofList]
  by_cases hstyle : style.isEmpty = true
  · simp [hstyle, hiddenStyle, escapeAttributeChars, escapeAttributeChar]
  · simp [hstyle, hiddenStyle, escapeAttributeChars, escapeAttributeChar]

theorem attributesChars_eq (visible : Bool) (attributes : Dict String) :
    attributesChars visible attributes = (written visible attributes).flatMap pairChars := by
  rw [attributesChars, written, List.flatMap_append, List.flatMap_map]
  congr 1
  · refine List.flatMap_congr fun a _ => ?_
    rw [attributeChars, pairChars, writtenAttribute]
    split
    · rw [hiddenValueChars_eq]
    · rfl
  · split
    · rfl
    · simp [pairChars, hiddenValueChars_eq, styleName]

theorem written_isName (visible : Bool) {attributes : Dict String}
    (h : ∀ a ∈ attributes, IsName a.1) : ∀ a ∈ written visible attributes, IsName a.1 := by
  have hchars : "style".toList.all isNameChar = true := by decide +kernel
  have hstyle : IsName "style" := ⟨by decide, List.all_eq_true.mp hchars⟩
  intro a ha
  rcases List.mem_append.mp ha with ha | ha
  · obtain ⟨b, hb, rfl⟩ := List.mem_map.mp ha
    unfold writtenAttribute
    split
    · exact h b hb
    · exact h b hb
  · split at ha
    · simp at ha
    · obtain rfl := List.mem_singleton.mp ha
      exact hstyle

/-! ### Nodes -/

/-- The parsed node that the markup of a tree is read as. -/
def ofOutline : Outline → Markup
  | .node (.element tag attributes) visible kids =>
    .element tag (written visible attributes) (kids.map ofOutline)
  | .node (.text content) _ _ => .text content
  | .node (.comment body) _ _ => .comment body
  | .node .root _ _ => .text ""

/-- The end of the text, or a closing tag. -/
def Stops (cs : List Char) : Prop :=
  cs = [] ∨ ∃ rest, cs = '<' :: '/' :: rest

theorem Stops.atTag (h : Stops cs) : AtTag cs := by
  rcases h with rfl | ⟨rest, rfl⟩
  · simp [AtTag]
  · simp [AtTag]

theorem readElement?_of_ne (fuel room : Nat) (h : ∀ c ∈ cs.head?, c ≠ '<') :
    readElement? fuel room cs = .ok none := by
  cases fuel with
  | zero => simp [readElement?]
  | succ fuel =>
    unfold readElement?
    split
    · next rest => exact absurd rfl (h '<' rfl)
    · rfl

theorem readComment?_of_ne (h : ∀ c ∈ cs.head?, c ≠ '<') : readComment? cs = none := by
  unfold readComment?
  split
  · exact absurd rfl (h '<' rfl)
  · rfl

theorem readNodes_stops (fuel room : Nat) (h : Stops tail) :
    readNodes (fuel + 1) room tail = .ok ([], tail) := by
  have helement : readElement? fuel room tail = .ok none := by
    rcases h with rfl | ⟨rest, rfl⟩
    · exact readElement?_of_ne fuel room (by simp)
    · cases fuel with
      | zero => simp [readElement?]
      | succ fuel =>
        have hname : readName? ('/' :: rest) = none := by
          simp [readName?, span?, not_isNameChar_of_mem (c := '/') (by simp)]
        simp [readElement?, hname]
  have hcomment : readComment? tail = none := by
    rcases h with rfl | ⟨rest, rfl⟩
    · rfl
    · rfl
  rw [readNodes, hcomment]
  simp [helement, readText?_eq_none h.atTag, bind, Except.bind]

/-- A mark is found behind a text that does not contain it, since no end of the text runs into the
mark. -/
theorem cutAt_comment {body : List Char} (h : ¬['-', '-', '>'] <:+: body) :
    cutAt ['-', '-', '>'] (body ++ ['-', '-', '>'] ++ rest) = some (body, rest) := by
  induction body with
  | nil => simp [cutAt, List.isPrefixOf]
  | cons c body ih =>
    rw [List.infix_cons_iff, not_or] at h
    have hprefix : ¬(['-', '-', '>'].isPrefixOf (c :: (body ++ ['-', '-', '>'] ++ rest))) = true := by
      rw [List.isPrefixOf_iff_prefix]
      intro hfront
      rcases body with _ | ⟨x, _ | ⟨y, body⟩⟩
      · simp [List.cons_prefix_cons] at hfront
      · simp [List.cons_prefix_cons] at hfront
      · apply h.1
        simpa [List.cons_prefix_cons] using hfront
    rw [List.cons_append, List.cons_append, cutAt, if_neg hprefix, ih h.2]
    rfl

theorem readText?_escape {content : String} (hcontent : content ≠ "") (htail : AtTag tail) :
    readText? (escapeTextChars content.toList ++ tail) = some (.text content, tail) := by
  have hne : escapeTextChars content.toList ≠ [] := by
    rw [Ne, escapeTextChars_eq_nil_iff]
    exact fun hnil => hcontent (String.toList_eq_nil_iff.mp hnil)
  have hfront : ∀ c ∈ escapeTextChars content.toList, (c != '<') = true := by
    intro c hc
    simp only [bne_iff_ne]
    rintro rfl
    exact less_not_mem_escapeTextChars _ hc
  rw [readText?, span?_append hne hfront fun c hc => by simp [htail c hc]]
  simp [decodeChars_escapeTextChars]

theorem readClosing?_tag {tag : String} (h : IsName tag) :
    readClosing? ('<' :: '/' :: (tag.toList ++ '>' :: rest)) =
      some ⟨tag, tag.toList ++ '>' :: rest, some rest⟩ := by
  have hname : readName? (tag.toList ++ '>' :: rest) = some (tag, '>' :: rest) :=
    readName?_append h follows_greater.head
  have hblank : isBlank '>' = false := by decide +kernel
  simp [readClosing?, hname, hblank]

theorem chars_element (tag : String) (attributes : Dict String) (visible : Bool)
    (kids : List Outline) :
    (Outline.node (.element tag attributes) visible kids).chars =
      '<' :: (tag.toList ++ ((written visible attributes).flatMap pairChars ++ '>' ::
        if isVoid tag then [] else
          kids.flatMap Outline.chars ++ '<' :: '/' :: (tag.toList ++ ['>']))) := by
  rw [Outline.chars, nodeChars]
  simp only [Node.new, attributesChars_eq]
  split <;> simp

theorem length_le_flatMap_pairChars (attributes : List (String × String)) :
    attributes.length ≤ (attributes.flatMap pairChars).length := by
  induction attributes with
  | nil => simp
  | cons a rest ih =>
    simp only [List.flatMap_cons, List.length_append, List.length_cons, pairChars]
    omega

/-- If the tree is a legible element, the reader makes of its markup what was written. -/
def ReadsBack (o : Outline) : Prop :=
  ∀ room fuel tail tag attributes visible kids,
    o = .node (.element tag attributes) visible kids → o.Legible room →
      2 * o.chars.length + 1 ≤ fuel →
        readElement? fuel room (o.chars ++ tail) = .ok (some (ofOutline o, tail))

/-- The markup of legible trees is read back if that of each element among them is. -/
theorem readNodes_of_readsBack {os : List Outline} (hback : ∀ o ∈ os, ReadsBack o)
    (hlegible : ∀ o ∈ os, o.Legible room)
    (happart : os.IsChain fun a b => ¬(a.isText = true ∧ b.isText = true)) (htail : Stops tail)
    (hfuel : 2 * (os.flatMap Outline.chars).length + 2 ≤ fuel) :
    readNodes fuel room (os.flatMap Outline.chars ++ tail) = .ok (os.map ofOutline, tail) := by
  induction os generalizing fuel with
  | nil =>
    obtain ⟨fuel, rfl⟩ : ∃ k, fuel = k + 1 := ⟨fuel - 1, by simp at hfuel; omega⟩
    exact readNodes_stops fuel room htail
  | cons o os ih =>
    obtain ⟨fuel, rfl⟩ : ∃ k, fuel = k + 1 := ⟨fuel - 1, by omega⟩
    rw [List.isChain_cons] at happart
    have hlength : (List.flatMap Outline.chars (o :: os)).length =
        o.chars.length + (os.flatMap Outline.chars).length := by simp
    rw [hlength] at hfuel
    have hrest : 0 < o.chars.length → readNodes fuel room (os.flatMap Outline.chars ++ tail) =
        .ok (os.map ofOutline, tail) := fun hpos =>
      ih (fun k hk => hback k (List.mem_cons_of_mem o hk))
        (fun k hk => hlegible k (List.mem_cons_of_mem o hk)) happart.2 (by omega)
    rw [List.flatMap_cons, List.append_assoc, readNodes]
    cases hlegible o List.mem_cons_self with
    | @element room tag attributes visible kids isName names keys void apart kids_legible =>
      have helement := hback _ List.mem_cons_self (room + 1) fuel
        (os.flatMap Outline.chars ++ tail) _ _ _ _ rfl (hlegible _ List.mem_cons_self) (by omega)
      have hchars := chars_element tag attributes visible kids
      have hcomment : readComment? ((Outline.node (.element tag attributes) visible kids).chars ++
          (os.flatMap Outline.chars ++ tail)) = none := by
        obtain ⟨c, more, hname, hc⟩ := isName.cons
        have hne : c ≠ '!' := by
          rintro rfl
          simp [not_isNameChar_of_mem (c := '!') (by simp)] at hc
        rw [hchars, hname]
        unfold readComment?
        split
        · next heq => exact absurd (List.cons.inj (List.cons.inj heq).2).1 hne
        · rfl
      simp only [hcomment, helement, bind, Except.bind, List.map_cons,
        hrest (by rw [hchars]; simp)]
    | @text room content visible nonempty =>
      have hchars : (Outline.node (.text content) visible []).chars =
          escapeTextChars content.toList := by
        rw [Outline.chars]
        rfl
      have hne : escapeTextChars content.toList ≠ [] := by
        rw [Ne, escapeTextChars_eq_nil_iff]
        exact fun hnil => nonempty (String.toList_eq_nil_iff.mp hnil)
      have hhead : ∀ c ∈ (escapeTextChars content.toList ++
          (os.flatMap Outline.chars ++ tail)).head?, c ≠ '<' := by
        rintro c hc rfl
        rw [List.head?_append_of_ne_nil _ hne] at hc
        exact less_not_mem_escapeTextChars _ (List.mem_of_mem_head? hc)
      have hnext : AtTag (os.flatMap Outline.chars ++ tail) := by
        cases os with
        | nil => exact htail.atTag
        | cons b os =>
          have hb := happart.1 b rfl
          cases hlegible b (by simp) with
          | @element room tag attributes visible kids =>
            rw [List.flatMap_cons, chars_element]
            simp [AtTag]
          | text nonempty => simp [Outline.isText] at hb
          | comment unclosed =>
            rw [List.flatMap_cons, Outline.chars]
            simp [AtTag, nodeChars, Node.new]
      rw [hchars, readComment?_of_ne hhead]
      simp only [readElement?_of_ne fuel _ hhead, readText?_escape nonempty hnext, bind, Except.bind,
        List.map_cons, ofOutline, hrest (by rw [hchars]; exact List.length_pos_iff.mpr hne)]
    | @comment room body visible unclosed =>
      have hchars : (Outline.node (.comment body) visible []).chars =
          '<' :: '!' :: '-' :: '-' :: (body.toList ++ ['-', '-', '>']) := by
        rw [Outline.chars]
        simp [nodeChars, Node.new]
      have hcomment : readComment? ('<' :: '!' :: '-' :: '-' :: (body.toList ++ ['-', '-', '>']) ++
          (os.flatMap Outline.chars ++ tail)) =
            some (.comment body, os.flatMap Outline.chars ++ tail) := by
        simp only [readComment?, List.cons_append, cutAt_comment unclosed]
        simp
      rw [hchars, hcomment]
      simp only [bind, Except.bind, List.map_cons, ofOutline, hrest (by rw [hchars]; simp)]

theorem readsBack (o : Outline) : ReadsBack o := by
  induction o using Outline.induct with
  | step c v ks ih =>
    rintro room fuel tail tag attributes visible kids heq hlegible hfuel
    cases hlegible with
    | @element room tag attributes visible kids isName names keys void apart kids_legible =>
      obtain ⟨fuel, rfl⟩ : ∃ k, fuel = k + 1 := ⟨fuel - 1, by omega⟩
      have hchars := chars_element tag attributes v ks
      have hname : ∀ rest,
          readName? (tag.toList ++ ((written v attributes).flatMap pairChars ++ '>' :: rest)) =
            some (tag, (written v attributes).flatMap pairChars ++ '>' :: rest) := by
        intro rest
        refine readName?_append isName ?_
        cases hwritten : written v attributes with
        | nil => exact follows_greater.head
        | cons a more =>
          rw [List.flatMap_cons, List.append_assoc]
          exact (follows_pairChars (written_isName v names a (by simp [hwritten]))).head
      have hattributes : ∀ rest,
          readAttributes ((written v attributes).flatMap pairChars ++ '>' :: rest).length
              ((written v attributes).flatMap pairChars ++ '>' :: rest) =
            (written v attributes, '>' :: rest) := by
        intro rest
        refine readAttributes_pairChars (written_isName v names) ?_
        have hle := length_le_flatMap_pairChars (written v attributes)
        rw [List.length_append]
        omega
      have hend : ∀ rest, readTagEnd? ('>' :: rest) = some (false, rest) := by
        intro rest
        simp [readTagEnd?, skipTagSpace, isTagSpace]
      rw [hchars]
      simp only [List.cons_append, List.append_assoc]
      unfold readElement?
      simp only [hname, hattributes, hend, Bool.false_or]
      by_cases hvoid : isVoid tag = true
      · simp only [hvoid, if_true, void hvoid, ofOutline, List.map_nil, List.nil_append]
      · simp only [hvoid]
        have hkids : readNodes fuel room
            (ks.flatMap Outline.chars ++ '<' :: '/' :: (tag.toList ++ '>' :: tail)) =
              .ok (ks.map ofOutline, '<' :: '/' :: (tag.toList ++ '>' :: tail)) := by
          refine readNodes_of_readsBack ih kids_legible apart (Or.inr ⟨_, rfl⟩) ?_
          rw [hchars, if_neg hvoid] at hfuel
          simp only [List.length_cons, List.length_append] at hfuel
          omega
        have hsame : sameTag tag tag = true := by simp [sameTag]
        simp [hkids, readClosing?_tag isName, hsame, bind, Except.bind, ofOutline]
    | text => simp at heq
    | comment => simp at heq

/-- The markup of legible trees is read back as the nodes that were written. -/
theorem readNodes_chars {os : List Outline} (hlegible : ∀ o ∈ os, o.Legible room)
    (happart : os.IsChain fun a b => ¬(a.isText = true ∧ b.isText = true)) (htail : Stops tail)
    (hfuel : 2 * (os.flatMap Outline.chars).length + 2 ≤ fuel) :
    readNodes fuel room (os.flatMap Outline.chars ++ tail) = .ok (os.map ofOutline, tail) :=
  readNodes_of_readsBack (fun o _ => readsBack o) hlegible happart htail hfuel

end TreeTemplate.Markup
