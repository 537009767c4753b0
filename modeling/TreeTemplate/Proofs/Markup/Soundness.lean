import TreeTemplate.Proofs.Markup.Entity
import TreeTemplate.Proofs.Markup.Normal

/-!
What the reader of markup produces: sound nodes only (`readNodes_sound`).
-/

namespace TreeTemplate.Markup

open TreeTemplate.Text

variable {cs rest front : List Char} {p : Char → Bool} {fuel room : Nat}

theorem span?_eq_some (h : span? p cs = some (front, rest)) :
    front ≠ [] ∧ (∀ c ∈ front, p c = true) ∧ rest = cs.dropWhile p ∧ cs = front ++ rest := by
  simp only [span?] at h
  split at h
  · simp at h
  · next hne =>
    simp only [Option.some.injEq, Prod.mk.injEq] at h
    obtain ⟨rfl, rfl⟩ := h
    exact ⟨by simpa using hne, fun c hc => List.mem_takeWhile_imp hc, rfl,
      (List.takeWhile_append_dropWhile).symm⟩

theorem ofList_ne_empty (h : front ≠ []) : String.ofList front ≠ "" := by
  intro heq
  apply h
  rw [← String.toList_ofList (l := front), heq]
  rfl

theorem readName?_isName {name : String} (h : readName? cs = some (name, rest)) : IsName name := by
  simp only [readName?, Option.map_eq_some_iff, Prod.mk.injEq] at h
  obtain ⟨⟨front, after⟩, hspan, rfl, rfl⟩ := h
  obtain ⟨hne, hchars, -⟩ := span?_eq_some hspan
  exact ⟨ofList_ne_empty hne, by simpa using hchars⟩

theorem readAttribute?_isName {a : String × String} (h : readAttribute? cs = some (a, rest)) :
    IsName a.1 := by
  simp only [readAttribute?, Option.bind_eq_bind, Option.bind_eq_some_iff] at h
  obtain ⟨⟨blanks, afterBlanks⟩, -, ⟨name, afterName⟩, hname, h⟩ := h
  have hisName := readName?_isName hname
  split at h
  · simp only [Option.some.injEq, Prod.mk.injEq] at h
    exact h.1 ▸ hisName
  · simp only [Option.some.injEq, Prod.mk.injEq] at h
    exact h.1 ▸ hisName

theorem readAttributes_isName (fuel : Nat) (cs : List Char) :
    ∀ a ∈ (readAttributes fuel cs).1, IsName a.1 := by
  induction fuel generalizing cs with
  | zero => simp [readAttributes]
  | succ fuel ih =>
    rw [readAttributes]
    split
    · next a rest h =>
      intro b hb
      rcases List.mem_cons.mp hb with rfl | hb
      · exact readAttribute?_isName h
      · exact ih rest b hb
    · simp

/-! ### Comments and texts -/

theorem cutAt_eq {mark before after : List Char} (h : cutAt mark cs = some (before, after)) :
    cs = before ++ mark ++ after := by
  induction cs generalizing before with
  | nil =>
    rw [cutAt] at h
    split at h
    · next hmark =>
      simp only [Option.some.injEq, Prod.mk.injEq] at h
      simp_all
    · simp at h
  | cons c rest ih =>
    rw [cutAt] at h
    split at h
    · next hprefix =>
      simp only [Option.some.injEq, Prod.mk.injEq] at h
      obtain ⟨rfl, rfl⟩ := h
      obtain ⟨after, hafter⟩ := List.isPrefixOf_iff_prefix.mp hprefix
      rw [← hafter]
      simp
    · simp only [Option.map_eq_some_iff, Prod.mk.injEq] at h
      obtain ⟨⟨b, a⟩, hcut, rfl, rfl⟩ := h
      rw [ih hcut]
      simp

/-- What is cut off in front of a mark does not contain the mark. -/
theorem not_infix_of_cutAt {mark before after : List Char} (hmark : mark ≠ [])
    (h : cutAt mark cs = some (before, after)) : ¬mark <:+: before := by
  induction cs generalizing before with
  | nil =>
    rw [cutAt] at h
    simp [hmark] at h
  | cons c rest ih =>
    have heq := cutAt_eq h
    rw [cutAt] at h
    split at h
    · simp only [Option.some.injEq, Prod.mk.injEq] at h
      rw [← h.1, List.infix_nil]
      exact hmark
    · next hprefix =>
      simp only [Option.map_eq_some_iff, Prod.mk.injEq] at h
      obtain ⟨⟨b, a⟩, hcut, rfl, rfl⟩ := h
      rw [List.infix_cons_iff, not_or]
      refine ⟨fun hfront => hprefix (List.isPrefixOf_iff_prefix.mpr ?_), ih hcut⟩
      rw [heq, List.append_assoc]
      exact hfront.trans (List.prefix_append _ _)

theorem readComment?_sound {m : Markup} (room : Nat) (h : readComment? cs = some (m, rest)) :
    Sound room m ∧ m.isText = false := by
  unfold readComment? at h
  split at h
  · simp only [Option.map_eq_some_iff, Prod.mk.injEq] at h
    obtain ⟨⟨body, after⟩, hcut, rfl, rfl⟩ := h
    exact ⟨.comment (by simpa using not_infix_of_cutAt (by simp) hcut), rfl⟩
  · simp at h

/-- Nothing that can be read as text comes next: the end, or what begins a tag. -/
def AtTag (cs : List Char) : Prop :=
  ∀ c ∈ cs.head?, c = '<'

theorem readText?_eq_none (h : AtTag cs) : readText? cs = none := by
  cases cs with
  | nil => rfl
  | cons c rest =>
    obtain rfl := h c rfl
    simp [readText?, span?]

theorem readText?_sound {m : Markup} (room : Nat) (h : readText? cs = some (m, rest)) :
    Sound room m ∧ AtTag rest := by
  simp only [readText?, Option.map_eq_some_iff, Prod.mk.injEq] at h
  obtain ⟨⟨front, after⟩, hspan, rfl, rfl⟩ := h
  obtain ⟨hne, -, hrest, -⟩ := span?_eq_some hspan
  refine ⟨.text (ofList_ne_empty (decodeChars_ne_nil hne)), fun c hc => ?_⟩
  rw [hrest] at hc
  have hnot := List.head?_dropWhile_not (fun c => c != '<') cs
  rw [hc] at hnot
  simpa using hnot

/-! ### Nodes -/

/-- What is said of the nodes read from a text. -/
structure SoundList (room : Nat) (cs : List Char) (ms : List Markup) : Prop where
  sound : ∀ m ∈ ms, Sound room m
  apart : ms.IsChain fun a b => ¬(a.isText = true ∧ b.isText = true)
  head : AtTag cs → ∀ m ∈ ms.head?, m.isText = false

theorem SoundList.nil : SoundList room cs [] :=
  ⟨by simp, List.isChain_nil, by simp⟩

theorem SoundList.cons_tag {m : Markup} {ms : List Markup} (hm : Sound room m)
    (htag : m.isText = false) (hms : SoundList room rest ms) : SoundList room cs (m :: ms) where
  sound := by simpa using ⟨hm, hms.sound⟩
  apart := List.isChain_cons.mpr ⟨fun b _ => by simp [htag], hms.apart⟩
  head _ b hb := by
    obtain rfl : m = b := by simpa using hb
    exact htag

theorem SoundList.cons_text {m : Markup} {ms : List Markup} (hm : Sound room m)
    (hcs : ¬AtTag cs) (hrest : AtTag rest) (hms : SoundList room rest ms) :
    SoundList room cs (m :: ms) where
  sound := by simpa using ⟨hm, hms.sound⟩
  apart := List.isChain_cons.mpr ⟨fun b hb => by simp [hms.head hrest b hb], hms.apart⟩
  head hcs' := absurd hcs' hcs

/-- The nodes and the elements that are read are sound; by induction on the fuel. -/
theorem read_sound (fuel : Nat) :
    (∀ room cs ms rest, readNodes fuel room cs = .ok (ms, rest) → SoundList room cs ms) ∧
      ∀ room cs m rest, readElement? fuel room cs = .ok (some (m, rest)) →
        Sound room m ∧ m.isText = false := by
  induction fuel with
  | zero =>
    refine ⟨fun room cs ms rest h => ?_, fun room cs m rest h => by simp [readElement?] at h⟩
    simp only [readNodes, Except.ok.injEq, Prod.mk.injEq] at h
    exact h.1 ▸ .nil
  | succ fuel ih =>
    obtain ⟨ihNodes, ihElement⟩ := ih
    refine ⟨fun room cs ms rest h => ?_, fun room cs m rest h => ?_⟩
    · rw [readNodes] at h
      cases hcomment : readComment? cs with
      | some found =>
        obtain ⟨node, afterNode⟩ := found
        obtain ⟨hnode, htag⟩ := readComment?_sound room hcomment
        rw [hcomment] at h
        cases hmore : readNodes fuel room afterNode with
        | error e => simp [hmore, bind, Except.bind] at h
        | ok more =>
          simp only [hmore, bind, Except.bind, Except.ok.injEq, Prod.mk.injEq] at h
          exact h.1 ▸ .cons_tag hnode htag (ihNodes _ _ _ _ hmore)
      | none =>
        rw [hcomment] at h
        cases helement : readElement? fuel room cs with
        | error e => simp [helement, bind, Except.bind] at h
        | ok found? =>
          cases found? with
          | some found =>
            obtain ⟨node, afterNode⟩ := found
            obtain ⟨hnode, htag⟩ := ihElement _ _ _ _ helement
            cases hmore : readNodes fuel room afterNode with
            | error e => simp [helement, hmore, bind, Except.bind] at h
            | ok more =>
              simp only [helement, hmore, bind, Except.bind, Except.ok.injEq, Prod.mk.injEq] at h
              exact h.1 ▸ .cons_tag hnode htag (ihNodes _ _ _ _ hmore)
          | none =>
            cases htext : readText? cs with
            | some found =>
              obtain ⟨node, afterNode⟩ := found
              obtain ⟨hnode, hafter⟩ := readText?_sound room htext
              have hcs : ¬AtTag cs := fun hcs => by simp [readText?_eq_none hcs] at htext
              cases hmore : readNodes fuel room afterNode with
              | error e => simp [helement, htext, hmore, bind, Except.bind] at h
              | ok more =>
                simp only [helement, htext, hmore, bind, Except.bind, Except.ok.injEq,
                  Prod.mk.injEq] at h
                exact h.1 ▸ .cons_text hnode hcs hafter (ihNodes _ _ _ _ hmore)
            | none =>
              simp only [helement, htext, bind, Except.bind, Except.ok.injEq, Prod.mk.injEq] at h
              exact h.1 ▸ .nil
    · unfold readElement? at h
      split at h
      · next afterLess =>
        split at h
        · simp at h
        · simp at h
        · next tag afterName room hname =>
          have hisName := readName?_isName hname
          have hattributes := readAttributes_isName afterName.length afterName
          generalize readAttributes afterName.length afterName = attributes at h hattributes
          cases hend : readTagEnd? attributes.2 with
          | none => simp [hend] at h
          | some tagEnd =>
            simp only [hend] at h
            split at h
            · simp only [Except.ok.injEq, Option.some.injEq, Prod.mk.injEq] at h
              exact h.1 ▸ ⟨.element hisName hattributes (fun _ => rfl) List.isChain_nil (by simp), rfl⟩
            · next hopen =>
              cases hchildren : readNodes fuel room tagEnd.2 with
              | error e => simp [hchildren, bind, Except.bind] at h
              | ok children =>
                have hsound := ihNodes _ _ _ _ hchildren
                simp only [hchildren, bind, Except.bind] at h
                split at h
                · simp at h
                · split at h
                  · simp only [Except.ok.injEq, Option.map_eq_some_iff, Prod.mk.injEq] at h
                    obtain ⟨-, -, rfl, rfl⟩ := h
                    refine ⟨.element hisName hattributes (fun hvoid => ?_) hsound.apart hsound.sound,
                      rfl⟩
                    simp [hvoid] at hopen
                  · simp at h
      · simp at h

theorem readNodes_sound {ms : List Markup} (h : readNodes fuel room cs = .ok (ms, rest)) :
    SoundList room cs ms :=
  (read_sound fuel).1 room cs ms rest h

/-- What all of a text spells is sound. -/
theorem parseMarkup_sound {source : String} {ms : List Markup} (h : parseMarkup source = .ok ms) :
    SoundList nestingLimit source.toList ms := by
  unfold parseMarkup readAll at h
  split at h
  · next hread =>
    simp only [Except.mapError, Except.ok.injEq] at h
    exact h ▸ readNodes_sound hread
  · simp [Except.mapError] at h
  · simp [Except.mapError] at h

end TreeTemplate.Markup
