import Mathlib.Logic.Relation
import TreeTemplate.Expression.Lists
import TreeTemplate.Proofs.Markup.Style
import TreeTemplate.Proofs.Text.Trimming

/-!
Cutting a list of labelled expressions at its bars.  Texts in which every bar has a partner come back from
the list that they are joined to, each with one space on either side of its doubled bars
(`splitListChars_joined`).  No piece of any source is lost and none changes its place
(`splitList_conserves`).
-/

namespace TreeTemplate

open Text

/-! ### Doubled bars -/

namespace Text

variable {c sep : Char} {cs before after : List Char}

/-- What stands before the first doubled `sep`, and what follows each of them. -/
def cutDoubled (sep : Char) : List Char → List Char × List (List Char)
  | [] => ([], [])
  | [c] => ([c], [])
  | c :: d :: rest =>
    if c = sep ∧ d = sep then ([], (cutDoubled sep rest).1 :: (cutDoubled sep rest).2)
    else (c :: (cutDoubled sep (d :: rest)).1, (cutDoubled sep (d :: rest)).2)

/-- The pieces of a text between doubled `sep`s. -/
def splitDoubled (sep : Char) (cs : List Char) : List (List Char) :=
  (cutDoubled sep cs).1 :: (cutDoubled sep cs).2

theorem cutDoubled_pair (sep : Char) (cs : List Char) :
    cutDoubled sep (sep :: sep :: cs) = ([], splitDoubled sep cs) := by
  rw [cutDoubled, if_pos ⟨rfl, rfl⟩]
  rfl

theorem cutDoubled_cons (h : c ≠ sep ∨ cs.head? ≠ some sep) :
    cutDoubled sep (c :: cs) = (c :: (cutDoubled sep cs).1, (cutDoubled sep cs).2) := by
  cases cs with
  | nil => rfl
  | cons d rest =>
    have hne : ¬ (c = sep ∧ d = sep) := by
      rintro ⟨rfl, rfl⟩
      simp at h
    rw [cutDoubled, if_neg hne]

theorem cutDoubled_append_of_not_mem (h : sep ∉ before) (cs : List Char) :
    cutDoubled sep (before ++ cs) = (before ++ (cutDoubled sep cs).1, (cutDoubled sep cs).2) := by
  induction before with
  | nil => rfl
  | cons b before ih =>
    rw [List.mem_cons, not_or] at h
    rw [List.cons_append, cutDoubled_cons (Or.inl (Ne.symm h.1)), ih h.2, List.cons_append]

theorem cutDoubled_of_not_mem (h : sep ∉ cs) : cutDoubled sep cs = (cs, []) := by
  simpa [cutDoubled] using cutDoubled_append_of_not_mem h []

/-- A character that is not the separator keeps what is before it apart from what is after it: only the
pieces on its two sides grow together. -/
theorem cutDoubled_append (before : List Char) (hc : c ≠ sep) :
    (∃ p, cutDoubled sep before = (p, []) ∧ ∀ after, cutDoubled sep (before ++ c :: after) =
      (p ++ c :: (cutDoubled sep after).1, (cutDoubled sep after).2)) ∨
    ∃ p ps q, cutDoubled sep before = (p, ps ++ [q]) ∧ ∀ after, cutDoubled sep (before ++ c :: after) =
      (p, ps ++ (q ++ c :: (cutDoubled sep after).1) :: (cutDoubled sep after).2) := by
  induction before using cutDoubled.induct sep with
  | case1 => exact Or.inl ⟨[], rfl, fun after => cutDoubled_cons (Or.inl hc)⟩
  | case2 d =>
    refine Or.inl ⟨[d], rfl, fun after => ?_⟩
    rw [List.singleton_append, cutDoubled_cons (Or.inr (by simpa using hc)), cutDoubled_cons (Or.inl hc)]
    rfl
  | case3 k l rest hpair ih =>
    obtain ⟨rfl, rfl⟩ := hpair
    rcases ih with ⟨p, hp, hafter⟩ | ⟨p, ps, q, hp, hafter⟩
    · refine Or.inr ⟨[], [], p, ?_, fun after => ?_⟩
      · rw [cutDoubled_pair, splitDoubled, hp]
        rfl
      · rw [List.cons_append, List.cons_append, cutDoubled_pair, splitDoubled, hafter]
        rfl
    · refine Or.inr ⟨[], p :: ps, q, ?_, fun after => ?_⟩
      · rw [cutDoubled_pair, splitDoubled, hp]
        rfl
      · rw [List.cons_append, List.cons_append, cutDoubled_pair, splitDoubled, hafter]
        rfl
  | case4 k l rest hpair ih =>
    have hcons : ∀ after, cutDoubled sep (k :: l :: rest ++ after) =
        (k :: (cutDoubled sep (l :: rest ++ after)).1, (cutDoubled sep (l :: rest ++ after)).2) := by
      intro after
      have hne : k ≠ sep ∨ (l :: rest ++ after).head? ≠ some sep := by
        simpa [← not_and_or] using hpair
      exact cutDoubled_cons hne
    have hnil := hcons []
    rw [List.append_nil, List.append_nil] at hnil
    rcases ih with ⟨p, hp, hafter⟩ | ⟨p, ps, q, hp, hafter⟩
    · refine Or.inl ⟨k :: p, ?_, fun after => ?_⟩
      · rw [hnil, hp]
      · rw [hcons, hafter]
        rfl
    · refine Or.inr ⟨k :: p, ps, q, ?_, fun after => ?_⟩
      · rw [hnil, hp]
      · rw [hcons, hafter]

/-- Behind another character a doubled separator always separates. -/
theorem splitDoubled_append_pair (before after : List Char) (hc : c ≠ sep) :
    splitDoubled sep (before ++ c :: sep :: sep :: after) =
      splitDoubled sep (before ++ [c]) ++ splitDoubled sep after := by
  rcases cutDoubled_append before hc with ⟨p, -, hcut⟩ | ⟨p, ps, q, -, hcut⟩
  · simp [splitDoubled, hcut, cutDoubled]
  · simp [splitDoubled, hcut, cutDoubled]

theorem splitChars_append_cons (sep : Char) (before after : List Char) :
    splitChars sep (before ++ sep :: after) = splitChars sep before ++ splitChars sep after := by
  induction before with
  | nil => simp [splitChars]
  | cons b before ih =>
    rw [List.cons_append, splitChars, splitChars, ih]
    split
    · rfl
    · cases hsplit : splitChars sep before with
      | nil => exact absurd hsplit (splitChars_ne_nil sep before)
      | cons piece pieces => rfl

/-- Texts that are joined by the separator are cut into the pieces of each. -/
theorem splitChars_intercalate_eq_flatMap {texts : List (List Char)} (h : texts ≠ []) :
    splitChars sep ([sep].intercalate texts) = texts.flatMap (splitChars sep) := by
  induction texts with
  | nil => exact absurd rfl h
  | cons t texts ih =>
    cases texts with
    | nil => simp
    | cons next texts =>
      rw [List.intercalate_cons_cons, List.append_assoc, List.singleton_append, splitChars_append_cons,
        ih (List.cons_ne_nil _ _)]
      exact List.flatMap_cons.symm

/-- A character at the end that is not the separator belongs to the last piece. -/
theorem splitChars_concat (hc : c ≠ sep) (cs : List Char) : ∃ pieces last,
    splitChars sep cs = pieces ++ [last] ∧ splitChars sep (cs ++ [c]) = pieces ++ [last ++ [c]] := by
  induction cs with
  | nil => exact ⟨[], [], rfl, by simp [splitChars, hc]⟩
  | cons b cs ih =>
    obtain ⟨pieces, last, hcs, hconcat⟩ := ih
    rw [List.cons_append, splitChars, splitChars, hcs, hconcat]
    split
    · exact ⟨[] :: pieces, last, rfl, rfl⟩
    · cases pieces with
      | nil => exact ⟨[], b :: last, rfl, rfl⟩
      | cons piece pieces => exact ⟨(b :: piece) :: pieces, last, rfl, rfl⟩

/-- Every `sep` is one of two that stand together. -/
def Paired (sep : Char) (cs : List Char) : Prop :=
  ∀ piece ∈ splitDoubled sep cs, sep ∉ piece

instance (sep : Char) (cs : List Char) : Decidable (Paired sep cs) :=
  inferInstanceAs (Decidable (∀ piece ∈ splitDoubled sep cs, sep ∉ piece))

/-- Where every separator has a partner, cutting at each of them leaves an empty piece between the pieces
around a pair. -/
theorem splitChars_of_paired (h : Paired sep cs) : splitChars sep cs =
    (cutDoubled sep cs).1 :: (cutDoubled sep cs).2.flatMap fun piece => [[], piece] := by
  induction cs using cutDoubled.induct sep with
  | case1 => rfl
  | case2 c =>
    have hc : sep ∉ [c] := h [c] List.mem_cons_self
    rw [splitChars_of_not_mem hc]
    rfl
  | case3 c d rest hpair ih =>
    obtain ⟨rfl, rfl⟩ := hpair
    rw [Paired, splitDoubled, cutDoubled_pair] at h
    rw [cutDoubled_pair, splitChars, if_pos rfl, splitChars, if_pos rfl,
      ih fun piece hpiece => h piece (List.mem_cons_of_mem _ hpiece)]
    rfl
  | case4 c d rest hpair ih =>
    have hcut : cutDoubled sep (c :: d :: rest) =
        (c :: (cutDoubled sep (d :: rest)).1, (cutDoubled sep (d :: rest)).2) := by
      rw [cutDoubled, if_neg hpair]
    rw [Paired, splitDoubled, hcut, List.forall_mem_cons, List.mem_cons, not_or] at h
    obtain ⟨⟨hne, hfirst⟩, hrest⟩ := h
    have hpaired : Paired sep (d :: rest) := List.forall_mem_cons.mpr ⟨hfirst, hrest⟩
    rw [hcut, splitChars, if_neg (Ne.symm hne), ih hpaired]

end Text

/-! ### Rejoining -/

/-- The pieces that are not blank, without the blanks around them. -/
def nonblank (pieces : List (List Char)) : List (List Char) :=
  (pieces.map trimChars).filter fun piece => !piece.isEmpty

/-- The pieces of a text at its doubled bars, blanks aside. -/
def operands (cs : List Char) : List (List Char) :=
  nonblank (splitDoubled '|' cs)

/-- The bars with which two neighbours of a list are joined again. -/
def doubleBar : List Char :=
  [' ', '|', '|', ' ']

variable {c : Char} {cs piece source : List Char} {pieces tokens texts : List (List Char)}

theorem nonblank_append (pieces more : List (List Char)) :
    nonblank (pieces ++ more) = nonblank pieces ++ nonblank more := by
  rw [nonblank, List.map_append, List.filter_append]
  rfl

theorem nonblank_cons (piece : List Char) (pieces : List (List Char)) :
    nonblank (piece :: pieces) = nonblank [piece] ++ nonblank pieces :=
  nonblank_append [piece] pieces

theorem nonblank_nil_cons (pieces : List (List Char)) : nonblank ([] :: pieces) = nonblank pieces :=
  rfl

theorem nonblank_cons_congr {piece' : List Char} (h : trimChars piece = trimChars piece')
    (pieces : List (List Char)) : nonblank (piece :: pieces) = nonblank (piece' :: pieces) := by
  rw [nonblank, List.map_cons, h, ← List.map_cons, nonblank]

theorem ne_bar_of_isBlank (h : isBlank c = true) : c ≠ '|' := by
  rintro rfl
  simp [isBlank_bar] at h

theorem operands_cons (h : isBlank c = true) : operands (c :: cs) = operands cs := by
  rw [operands, splitDoubled, cutDoubled_cons (Or.inl (ne_bar_of_isBlank h)), operands, splitDoubled]
  exact nonblank_cons_congr (trimChars_cons h) _

theorem operands_concat (h : isBlank c = true) : operands (cs ++ [c]) = operands cs := by
  rcases cutDoubled_append cs (ne_bar_of_isBlank h) with ⟨p, hp, hcut⟩ | ⟨p, ps, q, hp, hcut⟩
  · rw [operands, splitDoubled, hcut, operands, splitDoubled, hp]
    exact nonblank_cons_congr (trimChars_concat h) _
  · rw [operands, splitDoubled, hcut, operands, splitDoubled, hp, ← List.cons_append, ← List.cons_append,
      nonblank_append, nonblank_append]
    exact congrArg _ (nonblank_cons_congr (trimChars_concat h) _)

/-- The pieces of two neighbours that are joined again are those of the two. -/
theorem operands_join (before after : List Char) :
    operands (before ++ doubleBar ++ after) = operands before ++ operands after := by
  have hjoin : before ++ doubleBar ++ after = before ++ ' ' :: '|' :: '|' :: ' ' :: after := by
    simp [doubleBar]
  rw [hjoin, operands, splitDoubled_append_pair before _ (by decide), nonblank_append]
  exact congrArg₂ _ (operands_concat isBlank_space) (operands_cons isBlank_space)

/-- A text without bars has one piece, unless it is blank. -/
theorem operands_of_not_mem (h : '|' ∉ cs) : operands cs = nonblank [cs] := by
  rw [operands, splitDoubled, cutDoubled_of_not_mem h]

theorem rejoin_cons (seen pieces : List (List Char)) (h : piece ≠ []) :
    rejoin seen (piece :: pieces) = rejoin (piece :: seen) pieces := by
  cases piece with
  | nil => exact absurd rfl h
  | cons c piece => rfl

/-- Rejoining keeps the pieces that are not blank, and their order. -/
theorem flatMap_rejoin (seen : List (List Char)) (hbars : ∀ piece ∈ pieces, '|' ∉ piece) :
    (rejoin seen pieces).flatMap operands = seen.reverse.flatMap operands ++ nonblank pieces := by
  induction seen, pieces using rejoin.induct with
  | case1 seen =>
    rw [rejoin]
    exact (List.append_nil _).symm
  | case2 previous seen next rest ih =>
    rw [List.forall_mem_cons, List.forall_mem_cons] at hbars
    rw [rejoin, ih hbars.2.2, ← doubleBar, List.reverse_cons, List.flatMap_append, List.flatMap_singleton,
      operands_join, operands_of_not_mem hbars.2.1, nonblank_nil_cons, nonblank_cons next rest]
    simp
  | case3 seen =>
    rw [rejoin.eq_def]
    simp [nonblank]
  | case4 next rest ih =>
    rw [List.forall_mem_cons, List.forall_mem_cons] at hbars
    rw [rejoin, ih hbars.2.2, nonblank_nil_cons, nonblank_cons next rest]
    simp [operands_of_not_mem hbars.2.1]
  | case5 seen piece rest hne ih =>
    rw [List.forall_mem_cons] at hbars
    rw [rejoin_cons seen rest hne, ih hbars.2, nonblank_cons piece rest]
    simp [operands_of_not_mem hbars.1]

/-- No piece of a source between two bars is lost, and none changes its place. -/
theorem operands_splitListChars (cs : List Char) :
    (splitListChars cs).flatMap operands = nonblank (splitChars '|' cs) := by
  have hbars : ∀ piece ∈ (splitChars '|' cs).map trimChars, '|' ∉ piece := by
    intro piece hpiece
    obtain ⟨raw, hraw, rfl⟩ := List.mem_map.mp hpiece
    exact fun hmem => not_mem_of_mem_splitChars hraw ((trimChars_sublist raw).mem hmem)
  rw [splitListChars, flatMap_rejoin [] hbars, List.reverse_nil, List.flatMap_nil, List.nil_append,
    nonblank, List.map_map, nonblank]
  exact congrArg _ (List.map_congr_left fun raw _ => trimChars_idempotent raw)

/-! ### Blanks beside bars -/

/-- One blank is put in beside a bar. -/
inductive Padded : List Char → List Char → Prop
  | before (front rest : List Char) {c : Char} (h : isBlank c = true) :
    Padded (front ++ '|' :: rest) (front ++ c :: '|' :: rest)
  | after (front rest : List Char) {c : Char} (h : isBlank c = true) :
    Padded (front ++ '|' :: rest) (front ++ '|' :: c :: rest)

/-- Blanks are put in and taken out beside bars. -/
def Respaced : List Char → List Char → Prop :=
  Relation.EqvGen Padded

theorem map_trimChars_splitChars_cons (h : isBlank c = true) (cs : List Char) :
    (splitChars '|' (c :: cs)).map trimChars = (splitChars '|' cs).map trimChars := by
  rw [splitChars, if_neg (ne_bar_of_isBlank h)]
  cases hsplit : splitChars '|' cs with
  | nil => exact absurd hsplit (splitChars_ne_nil '|' cs)
  | cons piece pieces => rw [List.map_cons, trimChars_cons h, List.map_cons]

theorem map_trimChars_splitChars_concat (h : isBlank c = true) (cs : List Char) :
    (splitChars '|' (cs ++ [c])).map trimChars = (splitChars '|' cs).map trimChars := by
  obtain ⟨pieces, last, hcs, hconcat⟩ := splitChars_concat (ne_bar_of_isBlank h) cs
  rw [hcs, hconcat, List.map_append, List.map_append, List.map_singleton, List.map_singleton,
    trimChars_concat h]

/-- A blank beside a bar makes no difference to the trimmed pieces. -/
theorem Padded.map_trimChars_splitChars {cs' : List Char} (h : Padded cs cs') :
    (splitChars '|' cs').map trimChars = (splitChars '|' cs).map trimChars := by
  cases h with
  | @before front rest b hb =>
    have hcs' : front ++ b :: '|' :: rest = (front ++ [b]) ++ '|' :: rest := by simp
    rw [hcs', splitChars_append_cons, splitChars_append_cons, List.map_append, List.map_append,
      map_trimChars_splitChars_concat hb]
  | @after front rest b hb =>
    rw [splitChars_append_cons, splitChars_append_cons, List.map_append, List.map_append,
      map_trimChars_splitChars_cons hb]

/-- A list is cut alike however many blanks stand beside its bars. -/
theorem Respaced.splitListChars_eq {cs' : List Char} (h : Respaced cs cs') :
    splitListChars cs' = splitListChars cs := by
  suffices hpieces : (splitChars '|' cs').map trimChars = (splitChars '|' cs).map trimChars by
    rw [splitListChars, hpieces, splitListChars]
  induction h with
  | rel _ _ h => exact h.map_trimChars_splitChars
  | refl _ => rfl
  | symm _ _ _ ih => exact ih.symm
  | trans _ _ _ _ _ ih ih' => exact ih'.trans ih

/-! ### Joined texts -/

theorem intercalate_cons (sep piece : List Char) (pieces : List (List Char)) :
    sep.intercalate (piece :: pieces) = piece ++ pieces.flatMap (sep ++ ·) := by
  induction pieces generalizing piece with
  | nil => simp
  | cons next pieces ih => rw [List.intercalate_cons_cons, ih, List.flatMap_cons, List.append_assoc,
      List.append_assoc]

/-- A text as a list gives it back: no blanks at its ends, and one space on either side of every doubled
bar. -/
def respace (cs : List Char) : List Char :=
  doubleBar.intercalate ((splitDoubled '|' cs).map trimChars)

/-- The pieces of a text between single bars, an empty one in every doubled bar. -/
def barPieces (piece : List Char) (pieces : List (List Char)) : List (List Char) :=
  piece :: pieces.flatMap fun p => [[], p]

theorem rejoin_barPieces (seen : List (List Char)) (h : piece ≠ []) (pieces rest : List (List Char)) :
    rejoin seen (barPieces piece pieces ++ rest) =
      rejoin (doubleBar.intercalate (piece :: pieces) :: seen) rest := by
  induction pieces generalizing piece with
  | nil =>
    rw [List.intercalate_singleton]
    exact rejoin_cons seen rest h
  | cons next pieces ih =>
    have hne : piece ++ doubleBar ++ next ≠ [] := by simp [h]
    have hjoin : doubleBar.intercalate (piece :: next :: pieces) =
        doubleBar.intercalate ((piece ++ doubleBar ++ next) :: pieces) := by
      simp [intercalate_cons]
    rw [hjoin, ← ih hne, barPieces, List.cons_append, rejoin_cons seen _ h, barPieces, List.cons_append,
      rejoin_cons seen _ hne]
    rfl

/-- A text whose bars all have partners and which does not begin with one. -/
structure Listable (cs : List Char) : Prop where
  paired : Paired '|' cs
  opens : trimChars (cutDoubled '|' cs).1 ≠ []

theorem Listable.map_trimChars_splitChars (h : Listable cs) : (splitChars '|' cs).map trimChars =
    barPieces (trimChars (cutDoubled '|' cs).1) ((cutDoubled '|' cs).2.map trimChars) := by
  rw [splitChars_of_paired h.paired, List.map_cons, List.map_flatMap, barPieces, List.flatMap_map]
  rfl

theorem rejoin_flatMap (h : ∀ t ∈ texts, Listable t) (seen : List (List Char)) :
    rejoin seen (texts.flatMap fun t => (splitChars '|' t).map trimChars) =
      seen.reverse ++ texts.map respace := by
  induction texts generalizing seen with
  | nil => simp [rejoin]
  | cons t texts ih =>
    rw [List.forall_mem_cons] at h
    rw [List.flatMap_cons, h.1.map_trimChars_splitChars, rejoin_barPieces seen h.1.opens, ih h.2,
      List.reverse_cons, List.append_assoc]
    rfl

/-- Such texts come back from the list that they are joined to, however many blanks stand beside its
bars. -/
theorem splitListChars_joined (h : ∀ t ∈ texts, Listable t)
    (hsource : Respaced (['|'].intercalate texts) source) :
    splitListChars source = texts.map respace := by
  rw [hsource.splitListChars_eq, splitListChars]
  by_cases hnil : texts = []
  · subst hnil
    rfl
  · rw [splitChars_intercalate_eq_flatMap hnil, List.map_flatMap, rejoin_flatMap h]
    rfl

/-! ### What a list gives back -/

/-- A part of a token between its doubled bars. -/
structure IsSegment (cs : List Char) : Prop where
  nonempty : cs ≠ []
  unbarred : '|' ∉ cs
  trimmed : trimChars cs = cs

/-- One or more segments with doubled bars between them. -/
def IsListToken (cs : List Char) : Prop :=
  ∃ segments ≠ [], (∀ s ∈ segments, IsSegment s) ∧ cs = doubleBar.intercalate segments

/-- Pieces without bars that are joined by doubled bars are cut again. -/
theorem splitDoubled_intercalate (hpiece : '|' ∉ piece) (h : ∀ p ∈ pieces, '|' ∉ p) :
    (splitDoubled '|' (doubleBar.intercalate (piece :: pieces))).map trimChars =
        (piece :: pieces).map trimChars ∧
      Paired '|' (doubleBar.intercalate (piece :: pieces)) := by
  induction pieces generalizing piece with
  | nil =>
    rw [List.intercalate_singleton, Paired, splitDoubled, cutDoubled_of_not_mem hpiece]
    exact ⟨rfl, by simpa using hpiece⟩
  | cons next pieces ih =>
    rw [List.forall_mem_cons] at h
    have hspaced : '|' ∉ piece ++ [' '] := by simp [hpiece]
    have hjoin : doubleBar.intercalate (piece :: next :: pieces) =
        (piece ++ [' ']) ++ '|' :: '|' :: doubleBar.intercalate ((' ' :: next) :: pieces) := by
      simp [intercalate_cons, doubleBar]
    have hnext : '|' ∉ ' ' :: next := by simp [h.1]
    obtain ⟨hcut, hpaired⟩ := ih hnext h.2
    rw [hjoin, Paired, splitDoubled, cutDoubled_append_of_not_mem hspaced, cutDoubled_pair,
      List.append_nil, List.forall_mem_cons, List.map_cons, hcut, List.map_cons,
      trimChars_concat isBlank_space, trimChars_cons isBlank_space]
    exact ⟨rfl, hspaced, hpaired⟩

theorem IsListToken.listable (h : IsListToken cs) : Listable cs := by
  obtain ⟨segments, hne, hsegments, rfl⟩ := h
  obtain ⟨s, more, rfl⟩ := List.exists_cons_of_ne_nil hne
  rw [List.forall_mem_cons] at hsegments
  obtain ⟨hcut, hpaired⟩ := splitDoubled_intercalate hsegments.1.unbarred
    fun p hp => (hsegments.2 p hp).unbarred
  refine ⟨hpaired, ?_⟩
  rw [splitDoubled, List.map_cons, List.map_cons, List.cons.injEq, hsegments.1.trimmed] at hcut
  rw [hcut.1]
  exact hsegments.1.nonempty

theorem IsListToken.respace_eq (h : IsListToken cs) : respace cs = cs := by
  obtain ⟨segments, hne, hsegments, rfl⟩ := h
  obtain ⟨s, more, rfl⟩ := List.exists_cons_of_ne_nil hne
  have htrimmed : (s :: more).map trimChars = s :: more := by
    conv_rhs => rw [← List.map_id (s :: more)]
    exact List.map_congr_left fun p hp => (hsegments p hp).trimmed
  rw [List.forall_mem_cons] at hsegments
  rw [respace, (splitDoubled_intercalate hsegments.1.unbarred
    fun p hp => (hsegments.2 p hp).unbarred).1, htrimmed]

/-- A list conserves what stands between its bars: the parts of its tokens are the pieces of the source, in
their order, and tokens that are joined by bars, with any blanks beside these, come back as they were. -/
theorem splitList_conserves :
    (∀ source : String, (splitList source).flatMap (fun token => operands token.toList) =
      nonblank (splitChars '|' source.toList)) ∧
    ∀ (tokens : List String) (source : String), (∀ token ∈ tokens, IsListToken token.toList) →
      Respaced (['|'].intercalate (tokens.map String.toList)) source.toList →
        splitList source = tokens := by
  refine ⟨fun source => ?_, fun tokens source htokens hsource => ?_⟩
  · rw [← operands_splitListChars, splitList, List.flatMap_map]
    simp only [String.toList_ofList]
  · have hlistable : ∀ t ∈ tokens.map String.toList, Listable t := by
      simpa using fun token htoken => (htokens token htoken).listable
    have hrespace : (tokens.map String.toList).map respace = tokens.map String.toList := by
      rw [List.map_map]
      exact List.map_congr_left fun token htoken => (htokens token htoken).respace_eq
    rw [splitList, splitListChars_joined hlistable hsource, hrespace, List.map_map]
    simp [Function.comp_def]

/-- A token with a doubled bar and one without, the blank before the doubled bar taken out. -/
theorem splitList_conserves_alternative :
    (∀ token ∈ ["a=x || y", "b=2"], IsListToken token.toList) ∧
    Respaced (['|'].intercalate (["a=x || y", "b=2"].map String.toList)) "a=x|| y|b=2".toList ∧
    splitList "a=x|| y|b=2" = ["a=x || y", "b=2"] := by
  have htokens : ∀ token ∈ ["a=x || y", "b=2"], IsListToken token.toList := by
    simp only [List.forall_mem_cons]
    refine ⟨⟨["a=x".toList, "y".toList], by decide, ?_, by decide⟩, ⟨["b=2".toList], by decide, ?_,
      by decide⟩, by simp⟩
    · simp only [List.forall_mem_cons]
      exact ⟨⟨by decide, by decide, by decide⟩, ⟨by decide, by decide, by decide⟩, by simp⟩
    · simp only [List.forall_mem_singleton]
      exact ⟨by decide, by decide, by decide⟩
  have hsource : Respaced (['|'].intercalate (["a=x || y", "b=2"].map String.toList))
      "a=x|| y|b=2".toList :=
    .symm _ _ (.rel _ _ (.before "a=x".toList "| y|b=2".toList isBlank_space))
  exact ⟨htokens, hsource, splitList_conserves.2 _ _ htokens hsource⟩

end TreeTemplate
