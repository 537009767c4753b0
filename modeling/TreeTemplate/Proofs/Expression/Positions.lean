import TreeTemplate.Proofs.Expression.Cursor

/-!
What offsets tell.  Tokens stand in the source one behind the other with nothing but blanks between them, and
every error of the two stages points at a boundary: the parser at the beginning of a token or at the end of
the source (`Parser.withinAt`), the tokenizer at a character of the token at which it fails
(`Lexer.lexToken_faultIn`).  `Lexer.wellPlaced` says all of this about a source.
-/

namespace TreeTemplate

namespace Parser

variable {α β : Type} {stop fuel room p : Nat} {level : Level} {ts us : List Lexeme} {l : Lexeme}
  {e : ParseError}

/-- The offsets at which something can be missing: where the tokens begin, and the end of the source. -/
def offsets (stop : Nat) (ts : List Lexeme) : List Nat :=
  ts.map Lexeme.start ++ [stop]

theorem start_mem_offsets (h : l ∈ ts) : l.start ∈ offsets stop ts :=
  List.mem_append_left _ (List.mem_map_of_mem h)

theorem stop_mem_offsets (stop : Nat) (ts : List Lexeme) : stop ∈ offsets stop ts :=
  List.mem_append_right _ (List.mem_singleton_self stop)

theorem position_mem_offsets (stop : Nat) (ts : List Lexeme) : position stop ts ∈ offsets stop ts := by
  cases ts with
  | nil => exact stop_mem_offsets stop []
  | cons l ts => exact start_mem_offsets List.mem_cons_self

theorem offsets_subset (h : us <:+ ts) : offsets stop us ⊆ offsets stop ts :=
  List.append_subset.mpr ⟨List.subset_append_of_subset_left _ (List.map_subset _ h.subset),
    List.subset_append_right _ _⟩

def PointsAt (stop : Nat) (ts : List Lexeme) (e : ParseError) : Prop :=
  ∃ p ∈ offsets stop ts, e.position? = some p

theorem PointsAt.mono (h : PointsAt stop us e) (hus : us <:+ ts) : PointsAt stop ts e := by
  obtain ⟨p, hp, he⟩ := h
  exact ⟨p, offsets_subset hus hp, he⟩

theorem unexpected_pointsAt (stop : Nat) (ts : List Lexeme) : PointsAt stop ts (unexpected stop ts) := by
  refine ⟨_, position_mem_offsets stop ts, ?_⟩
  cases ts <;> rfl

theorem missing_pointsAt (stop : Nat) (what : String) (ts : List Lexeme) :
    PointsAt stop ts (missing stop what ts) := by
  refine ⟨_, position_mem_offsets stop ts, ?_⟩
  cases ts <;> rfl

theorem tooDeep_pointsAt (stop : Nat) (ts : List Lexeme) :
    PointsAt stop ts (.nestingTooDeep (position stop ts)) :=
  ⟨_, position_mem_offsets stop ts, rfl⟩

/-- Reading leaves a rest of the tokens, or it fails at one of their offsets. -/
def Within (stop : Nat) (ts : List Lexeme) : Except ParseError (α × List Lexeme) → Prop
  | .ok (_, rest) => rest <:+ ts
  | .error e => PointsAt stop ts e

namespace Within

variable {r : Except ParseError (α × List Lexeme)}

theorem mono (h : Within stop us r) (hus : us <:+ ts) : Within stop ts r := by
  cases r with
  | ok v => exact List.IsSuffix.trans h hus
  | error e => exact PointsAt.mono h hus

theorem bind {f : α × List Lexeme → Except ParseError (β × List Lexeme)} (h : Within stop ts r)
    (hf : ∀ a rest, Within stop rest (f (a, rest))) : Within stop ts (r >>= f) := by
  cases r with
  | ok v => exact (hf v.1 v.2).mono h
  | error e => exact h

theorem expect {q : Punct} {f : List Lexeme → Except ParseError (β × List Lexeme)}
    (hf : ∀ rest, Within stop rest (f rest)) : Within stop ts (expect stop q ts >>= f) := by
  cases ts with
  | nil => exact missing_pointsAt stop "" []
  | cons l rest =>
    rw [Parser.expect]
    split
    · exact (hf rest).mono (List.suffix_cons l rest)
    · exact missing_pointsAt stop _ (l :: rest)

end Within

structure WithinAt (stop fuel : Nat) : Prop where
  expression : ∀ room level ts, Within stop ts (expression stop fuel room level ts)
  folds : ∀ room level left ts, Within stop ts (folds stop fuel room level left ts)
  operand : ∀ room ts, Within stop ts (operand stop fuel room ts)
  primary : ∀ room l ts, Within stop (l :: ts) (primary stop fuel room l ts)
  suffixes : ∀ room left ts, Within stop ts (suffixes stop fuel room left ts)
  arguments : ∀ room ts, Within stop ts (arguments stop fuel room ts)
  moreArguments : ∀ room seen ts, Within stop ts (moreArguments stop fuel room seen ts)
  arrayItems : ∀ room seen ts, Within stop ts (arrayItems stop fuel room seen ts)
  objectEntries : ∀ room seen ts, Within stop ts (objectEntries stop fuel room seen ts)

theorem withinAt_zero (stop : Nat) : WithinAt stop 0 := by
  constructor
  all_goals
    intros
    simp only [expression, folds, operand, primary, suffixes, arguments, moreArguments, arrayItems,
      objectEntries]
    exact tooDeep_pointsAt stop _

namespace WithinAt

variable (ih : WithinAt stop fuel)

include ih

theorem expression_succ (room : Nat) (level : Level) (ts : List Lexeme) :
    Within stop ts (Parser.expression stop (fuel + 1) room level ts) := by
  cases room with
  | zero =>
    rw [Parser.expression]
    · exact tooDeep_pointsAt stop ts
    · simp
  | succ room =>
    rw [Parser.expression]
    exact (ih.operand room ts).bind fun left rest => ih.folds room level left rest

/-- Reading goes on behind a token. -/
theorem folds_succ (room : Nat) (level : Level) (left : Expr) (ts : List Lexeme) :
    Within stop ts (Parser.folds stop (fuel + 1) room level left ts) := by
  cases ts with
  | nil =>
    rw [Parser.folds]
    exact List.suffix_refl []
  | cons x more =>
    have hmore := List.suffix_cons x more
    cases hfold : foldAt? level x.token with
    | none =>
      rw [folds_stop hfold]
      exact List.suffix_refl _
    | some fold =>
      cases room with
      | zero =>
        rw [folds_zero hfold]
        exact tooDeep_pointsAt stop (x :: more)
      | succ room =>
        cases fold with
        | assign =>
          rw [folds_assign hfold]
          cases left
          case identifier name =>
            exact ((ih.expression ..).bind fun _ _ => ih.folds ..).mono hmore
          all_goals exact ⟨x.start, start_mem_offsets List.mem_cons_self, rfl⟩
        | conditional =>
          rw [folds_conditional hfold]
          refine ((ih.expression ..).bind fun _ _ => ?_).mono hmore
          exact .expect fun _ => (ih.expression ..).bind fun _ _ => ih.folds ..
        | binary op r =>
          rw [folds_tree hfold rfl]
          exact ((ih.expression ..).bind fun _ _ => ih.folds ..).mono hmore
        | lazy op r =>
          rw [folds_tree hfold rfl]
          exact ((ih.expression ..).bind fun _ _ => ih.folds ..).mono hmore

theorem operand_succ (room : Nat) (ts : List Lexeme) :
    Within stop ts (Parser.operand stop (fuel + 1) room ts) := by
  cases ts with
  | nil =>
    rw [Parser.operand]
    exact unexpected_pointsAt stop []
  | cons x more =>
    have hmore := List.suffix_cons x more
    rw [Parser.operand.eq_def]
    dsimp only
    split
    · exact (tooDeep_pointsAt stop more).mono hmore
    · refine ((ih.operand ..).bind fun _ _ => ?_).mono hmore
      exact List.suffix_refl _
    · exact (ih.primary ..).bind fun _ _ => ih.suffixes ..

theorem primary_succ (room : Nat) (x : Lexeme) (ts : List Lexeme) :
    Within stop (x :: ts) (Parser.primary stop (fuel + 1) room x ts) := by
  have hmore := List.suffix_cons x ts
  rw [Parser.primary]
  split
  · exact hmore
  split
  · exact hmore
  · refine ((ih.expression ..).bind fun _ _ => ?_).mono hmore
    exact .expect fun _ => List.suffix_refl _
  · refine ((ih.arrayItems ..).bind fun _ _ => ?_).mono hmore
    exact List.suffix_refl _
  · refine ((ih.objectEntries ..).bind fun _ _ => ?_).mono hmore
    exact List.suffix_refl _
  · exact unexpected_pointsAt stop (x :: ts)

theorem suffixes_succ (room : Nat) (left : Expr) (ts : List Lexeme) :
    Within stop ts (Parser.suffixes stop (fuel + 1) room left ts) := by
  cases ts with
  | nil =>
    rw [Parser.suffixes]
    exact List.suffix_refl []
  | cons x more =>
    have hmore := List.suffix_cons x more
    have hdeep : PointsAt stop (x :: more) (.nestingTooDeep x.start) := tooDeep_pointsAt stop (x :: more)
    rw [Parser.suffixes.eq_def]
    dsimp only
    split
    · exact hdeep
    · exact hdeep
    · exact hdeep
    · refine Within.mono ?_ hmore
      cases more with
      | nil => exact unexpected_pointsAt stop []
      | cons n more =>
        have hname := List.suffix_cons n more
        dsimp only
        split
        · exact missing_pointsAt stop _ (n :: more)
        split
        · exact ((ih.arguments ..).bind fun _ _ => ih.suffixes ..).mono hname
        · exact (ih.suffixes ..).mono hname
    · refine ((ih.expression ..).bind fun _ _ => ?_).mono hmore
      exact .expect fun _ => ih.suffixes ..
    · split
      · exact (ih.arguments ..).bind fun _ _ => ih.suffixes ..
      · exact ⟨x.start, start_mem_offsets List.mem_cons_self, rfl⟩
    · exact List.suffix_refl _

theorem arguments_succ (room : Nat) (ts : List Lexeme) :
    Within stop ts (Parser.arguments stop (fuel + 1) room ts) := by
  rw [Parser.arguments]
  refine .expect fun rest => ?_
  split
  · exact List.drop_suffix 1 rest
  · exact ih.moreArguments ..

theorem moreArguments_succ (room : Nat) (seen : List Expr) (ts : List Lexeme) :
    Within stop ts (Parser.moreArguments stop (fuel + 1) room seen ts) := by
  rw [Parser.moreArguments]
  refine (ih.expression ..).bind fun e rest => ?_
  dsimp only
  split
  · exact (ih.moreArguments ..).mono (List.drop_suffix 1 rest)
  split
  · exact List.drop_suffix 1 rest
  · exact unexpected_pointsAt stop rest

theorem arrayItems_succ (room : Nat) (seen : List Expr) (ts : List Lexeme) :
    Within stop ts (Parser.arrayItems stop (fuel + 1) room seen ts) := by
  rw [Parser.arrayItems]
  split
  · exact List.drop_suffix 1 ts
  refine (ih.expression ..).bind fun e rest => ?_
  dsimp only
  split
  · exact (ih.arrayItems ..).mono (List.drop_suffix 1 rest)
  split
  · exact List.drop_suffix 1 rest
  · exact unexpected_pointsAt stop rest

theorem objectEntries_succ (room : Nat) (seen : List (String × Expr)) (ts : List Lexeme) :
    Within stop ts (Parser.objectEntries stop (fuel + 1) room seen ts) := by
  cases ts with
  | nil =>
    rw [Parser.objectEntries]
    exact unexpected_pointsAt stop []
  | cons x more =>
    have hmore := List.suffix_cons x more
    rw [Parser.objectEntries]
    split
    · exact hmore
    split
    · exact missing_pointsAt stop _ (x :: more)
    refine Within.mono (.expect fun us => (ih.expression ..).bind fun e rest => ?_) hmore
    dsimp only
    split
    · exact (ih.objectEntries ..).mono (List.drop_suffix 1 rest)
    split
    · exact List.drop_suffix 1 rest
    · exact unexpected_pointsAt stop rest

end WithinAt

theorem withinAt (stop fuel : Nat) : WithinAt stop fuel := by
  induction fuel with
  | zero => exact withinAt_zero stop
  | succ fuel ih =>
    constructor
    · exact ih.expression_succ
    · exact ih.folds_succ
    · exact ih.operand_succ
    · exact ih.primary_succ
    · exact ih.suffixes_succ
    · exact ih.arguments_succ
    · exact ih.moreArguments_succ
    · exact ih.arrayItems_succ
    · exact ih.objectEntries_succ

/-- The parser fails at a token or at the end of the source; only without any token it names no place. -/
theorem parseTokens_pointsAt (h : parseTokens stop ts = .error e) :
    (ts = [] ∧ e = .emptyExpression) ∨ PointsAt stop ts e := by
  have hexpression := (withinAt stop (enough ts)).expression nestingLimit .assignment ts
  unfold parseTokens at h
  split at h
  · next hempty =>
    cases h
    exact .inl ⟨List.isEmpty_iff.mp hempty, rfl⟩
  · refine .inr ?_
    split at h
    · cases h
    · next rest _ hread =>
      cases h
      rw [hread] at hexpression
      exact (unexpected_pointsAt stop rest).mono hexpression
    · next hread =>
      cases h
      rw [hread] at hexpression
      exact hexpression

end Parser

namespace Lexer

open Text Number

variable {source : String} {l : Lexeme} {e : ParseError} {p : Nat}

theorem isBoundary_le {cs : List Char} (h : IsBoundary cs p) : p ≤ byteLength cs := by
  obtain ⟨before, after, rfl, rfl⟩ := h
  rw [byteLength_append]
  exact Nat.le_add_right _ _

/-- A place in a source: a boundary of its characters, at the end at the latest. -/
def IsPlace (source : String) (p : Nat) : Prop :=
  p ≤ source.utf8ByteSize ∧ String.Pos.Raw.IsValid source ⟨p⟩

theorem isPlace_of_isBoundary (h : IsBoundary source.toList p) : IsPlace source p :=
  ⟨byteLength_toList source ▸ isBoundary_le h, h.isValid⟩

theorem lex_finish {stop : Nat} (h : (lex source).outcome = .ok stop) : stop = source.utf8ByteSize := by
  obtain ⟨stop', rest, hspread, ⟨rfl, hok⟩ | ⟨e, herror, -⟩⟩ := lex_spread source
  · obtain ⟨front, hfront, hstop⟩ := hspread.exists_front
    cases hok.symm.trans h
    rw [← byteLength_toList, hfront, List.append_nil, hstop, Nat.zero_add]
  · cases herror.symm.trans h

theorem isPlace_of_lex (h : (lex source).outcome = .error e) (hp : e.position? = some p) :
    IsPlace source p := by
  obtain ⟨stop, rest, hspread, ⟨-, hok⟩ | ⟨e', herror, hfault⟩⟩ := lex_spread source
  · cases hok.symm.trans h
  · cases herror.symm.trans h
    obtain ⟨front, hfront, hstop⟩ := hspread.exists_front
    obtain ⟨q, hq, hposition⟩ := hfault.position
    cases hposition.symm.trans hp
    rw [hstop, Nat.zero_add]
    refine isPlace_of_isBoundary ?_
    rw [hfront]
    exact hq.append front

theorem isPlace_of_parse (h : parse source = .error e) (hp : e.position? = some p) : IsPlace source p := by
  unfold parse at h
  dsimp only at h
  split at h
  · next stop hstop =>
    rcases Parser.parseTokens_pointsAt h with ⟨-, rfl⟩ | ⟨q, hq, hposition⟩
    · cases hp
    · cases hposition.symm.trans hp
      rcases List.mem_append.mp hq with hstart | hend
      · obtain ⟨l, hl, rfl⟩ := List.mem_map.mp hstart
        exact isPlace_of_isBoundary (standsIn_of_mem hl).isBoundary.2.1
      · obtain rfl := List.mem_singleton.mp hend
        rw [lex_finish hstop, ← byteLength_toList]
        exact isPlace_of_isBoundary (isBoundary_byteLength _)
  · next herror =>
    cases h
    exact isPlace_of_lex herror hp

/-- The tokens of a source, and the faults of the two stages, with respect to its text. -/
structure WellPlaced (source : String) : Prop where
  /-- A token covers some text, between two boundaries, and this text is how it is written. -/
  span : ∀ l ∈ (lex source).tokens,
    l.start < l.stop ∧ IsPlace source l.start ∧ IsPlace source l.stop ∧ StandsIn source.toList l
  /-- No token begins before those in front of it end. -/
  ordered : (lex source).tokens.Pairwise fun l l' => l.stop ≤ l'.start
  /-- A character that no token covers is blank, if a token begins behind it or there is no fault at all. -/
  gap : ∀ before c after, source.toList = before ++ c :: after →
    (∀ l ∈ (lex source).tokens, ¬ (l.start ≤ byteLength before ∧ byteLength before < l.stop)) →
    ((∃ l ∈ (lex source).tokens, byteLength before < l.start) ∨ ∃ stop, (lex source).outcome = .ok stop) →
    isAsciiBlank c = true
  /-- Without a fault the tokenizer stops at the end. -/
  finish : ∀ stop, (lex source).outcome = .ok stop → stop = source.utf8ByteSize
  /-- Going by byte offsets it stops, too, and takes no slice that begins or ends inside a character. -/
  scan : Cursor.scan source = some (lex source)
  /-- Wherever a number begins, what is read as one is a well-formed decimal. -/
  decimal : ∀ before c after, source.toList = before ++ c :: after →
    (isAsciiDigit c || (c == '.' && startsWithDigit after)) = true →
    IsDecimal (spanNumber (c :: after)).1 ∧ (readFloat? (spanNumber (c :: after)).1).isSome
  /-- So the text of a number is never at fault. -/
  literal : ∀ e, (lex source).outcome = .error e → ∀ kind text p, e ≠ .invalidLiteral kind text p
  /-- A fault is at a boundary. -/
  fault : ∀ e p, (lex source).outcome = .error e ∨ parse source = .error e → e.position? = some p →
    IsPlace source p

theorem wellPlaced (source : String) : WellPlaced source := by
  obtain ⟨stop, rest, hspread, houtcome⟩ := lex_spread source
  refine ⟨fun l hl => ?_, hspread.ordered, ?_, fun _ => lex_finish, scan_eq_lex source, ?_, ?_, ?_⟩
  · obtain ⟨hlt, hstart, hstop⟩ := (standsIn_of_mem hl).isBoundary
    exact ⟨hlt, isPlace_of_isBoundary hstart, isPlace_of_isBoundary hstop, standsIn_of_mem hl⟩
  · intro before c after hsource huncovered hbefore
    refine hspread.isAsciiBlank hsource ?_ (by simpa using huncovered)
    rcases hbefore with ⟨l, hl, hlt⟩ | ⟨finish, hfinish⟩
    · have hstop := (hspread.bounds.2 l hl).2
      have hlt' := (standsIn_of_mem hl).isBoundary.1
      omega
    · obtain ⟨rfl, hok⟩ | ⟨e, herror, -⟩ := houtcome
      · rw [lex_finish hok, ← byteLength_toList, hsource, byteLength_append, byteLength_cons]
        have hpos := c.utf8Size_pos
        omega
      · cases herror.symm.trans hfinish
  · intro before c after _ hnumber
    have hdecimal := (spanNumber_parts hnumber).2
    exact ⟨hdecimal, hdecimal.readFloat?⟩
  · intro e he
    obtain ⟨-, hok⟩ | ⟨e', herror, hfault⟩ := houtcome
    · cases hok.symm.trans he
    · cases herror.symm.trans he
      exact hfault.literal
  · rintro e p (he | he) hp
    · exact isPlace_of_lex he hp
    · exact isPlace_of_parse he hp

end Lexer

end TreeTemplate
