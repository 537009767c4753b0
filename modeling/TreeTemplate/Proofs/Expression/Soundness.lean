import TreeTemplate.Proofs.Expression.Grammar

/-!
What the parser accepts is in the grammar.  An expression at a level takes a phrase of the stratum of this
level off the front, and it stops before a token that folds nothing at this level (`soundAt`); the loop over
operators keeps what it has read so far ready for whatever operator comes next (`LeftOf`).
-/

namespace TreeTemplate.Parser

open Grammar

variable {stop fuel room : Nat} {level l : Level} {ts rest : List Lexeme} {e : Expr} {p : Punct}
  {α β ε : Type}

def tokens (ts : List Lexeme) : List Token :=
  ts.map Lexeme.token

@[simp] theorem tokens_nil : tokens [] = [] :=
  rfl

@[simp] theorem tokens_cons (l : Lexeme) (ts : List Lexeme) : tokens (l :: ts) = l.token :: tokens ts :=
  rfl

@[simp] theorem tokens_append (ts us : List Lexeme) : tokens (ts ++ us) = tokens ts ++ tokens us :=
  List.map_append

/-- The lexemes of tokens that have a punctuation token among them. -/
theorem exists_of_tokens_eq {us vs : List Token} (h : tokens ts = us ++ .punct p :: vs) :
    ∃ before x after, ts = before ++ x :: after ∧ tokens before = us ∧ x.token = .punct p ∧
      tokens after = vs := by
  obtain ⟨before, others, rfl, hbefore, hothers⟩ := List.map_eq_append_iff.mp h
  obtain ⟨x, after, rfl, hx, hafter⟩ := List.map_eq_cons_iff.mp hothers
  exact ⟨before, x, after, rfl, hbefore, hx, hafter⟩

/-! ### Inverting one step -/

theorem bind_eq_ok {x : Except ε α} {f : α → Except ε β} {b : β} (h : (x >>= f) = .ok b) :
    ∃ a, x = .ok a ∧ f a = .ok b := by
  cases x with
  | error err => cases h
  | ok a => exact ⟨a, rfl, h⟩

theorem expect_eq_ok (h : expect stop p ts = .ok rest) :
    ∃ l, ts = l :: rest ∧ l.token = .punct p := by
  cases ts with
  | nil => cases h
  | cons l more =>
    rw [expect] at h
    split at h
    · next htoken =>
      cases h
      exact ⟨l, rfl, htoken⟩
    · cases h

theorem nextIs_eq_true (h : nextIs p ts = true) : ∃ l, ts = l :: ts.drop 1 ∧ l.token = .punct p := by
  cases ts with
  | nil => cases h
  | cons l more => exact ⟨l, rfl, by simpa [nextIs] using h⟩

theorem foldAt?_eq_some {t : Token} {fold : Fold} (h : foldAt? level t = some fold) :
    ∃ l, operator? t = some (l, fold) ∧ level.rank ≤ l.rank := by
  unfold foldAt? at h
  split at h
  · next l fold' hoperator =>
    split at h
    · next hle =>
      cases h
      exact ⟨l, hoperator, hle⟩
    · cases h
  · cases h

theorem foldAt?_eq_none {t : Token} {fold : Fold} (h : foldAt? level t = none)
    (hoperator : operator? t = some (l, fold)) : l.rank < level.rank := by
  rw [foldAt?, hoperator] at h
  dsimp only at h
  split at h
  · cases h
  · omega

theorem operator?_assign {t : Token} (h : operator? t = some (l, .assign)) :
    t = .punct .assign ∧ l = .assignment := by
  unfold operator? at h
  split at h <;> cases h
  exact ⟨rfl, rfl⟩

theorem operator?_conditional {t : Token} (h : operator? t = some (l, .conditional)) :
    t = .punct .question ∧ l = .conditional := by
  unfold operator? at h
  split at h <;> cases h
  exact ⟨rfl, rfl⟩

theorem isLiteral_of_literal? {t : Token} {v : Literal} (h : literal? t = some v) : IsLiteral t v := by
  unfold literal? at h
  split at h <;> cases h <;> constructor

theorem isName_of_propertyName? {t : Token} {name : String} (h : propertyName? t = some name) :
    IsName t name := by
  unfold propertyName? at h
  split at h <;> cases h <;> constructor

theorem isKey_of_objectKey? {t : Token} {name : String} (h : objectKey? t = some name) :
    IsKey t name := by
  unfold objectKey? at h
  split at h <;> cases h <;> constructor

theorem mem_signs {t : Token} {op : UnaryOp} (h : prefixOp? t = some op) :
    ∃ p, t = .punct p ∧ (p, op) ∈ signs := by
  unfold prefixOp? at h
  split at h <;> cases h <;> exact ⟨_, rfl, by decide⟩

/-! ### The loop over operators -/

section

variable {x : Lexeme} {more : List Lexeme} {left : Expr} {fold : Fold} {make : Expr → Expr → Expr}
  {r : Level}

theorem folds_stop (h : foldAt? level x.token = none) :
    folds stop (fuel + 1) room level left (x :: more) = .ok (left, x :: more) := by
  rw [folds.eq_def]
  dsimp only
  rw [h]

theorem folds_zero (h : foldAt? level x.token = some fold) :
    folds stop (fuel + 1) 0 level left (x :: more) = .error (.nestingTooDeep x.start) := by
  rw [folds.eq_def]
  dsimp only
  rw [h]

theorem folds_assign (h : foldAt? level x.token = some .assign) :
    folds stop (fuel + 1) (room + 1) level left (x :: more) =
      match left with
      | .identifier name => do
        let (value, ts) ← expression stop fuel room .assignment more
        folds stop fuel room level (.assign name value) ts
      | _ => .error (.invalidAssignment x.start) := by
  cases left
  all_goals
    rw [folds.eq_def]
    dsimp only
    rw [h]

theorem folds_conditional (h : foldAt? level x.token = some .conditional) :
    folds stop (fuel + 1) (room + 1) level left (x :: more) = (do
      let (yes, ts) ← expression stop fuel room .assignment more
      let ts ← expect stop .colon ts
      let (no, ts) ← expression stop fuel room .conditional ts
      folds stop fuel room level (.conditional left yes no) ts) := by
  rw [folds.eq_def]
  dsimp only
  rw [h]

theorem folds_tree (h : foldAt? level x.token = some fold) (htree : fold.tree? = some (make, r)) :
    folds stop (fuel + 1) (room + 1) level left (x :: more) = (do
      let (right, ts) ← expression stop fuel room r more
      folds stop fuel room level (make left right) ts) := by
  rw [folds.eq_def]
  dsimp only
  rw [h]
  cases fold <;> cases htree <;> rfl

end

/-- The next token folds nothing at the level. -/
def Stops (level : Level) (ts : List Lexeme) : Prop :=
  ∀ x ∈ ts.head?, foldAt? level x.token = none

/-- What is read so far is a phrase of the level `l`, and it can be the left operand of the next
operator, if this binds at least as tightly as `level`: then it binds no tighter than `l`, or it assigns. -/
structure LeftOf (level l : Level) (before : List Token) (left : Expr) (ts : List Lexeme) : Prop where
  derives : Derives l.stratum before left
  level_le : level.rank ≤ l.rank
  next : ∀ x ∈ ts.head?, ∀ l' fold, operator? x.token = some (l', fold) → level.rank ≤ l'.rank →
    l' = .assignment ∨ Level.or.rank ≤ l.rank ∧ l'.rank ≤ l.rank

theorem LeftOf.of_unary {before : List Token} {left : Expr} (h : Derives .unary before left)
    (level : Level) (ts : List Lexeme) : LeftOf level .unary before left ts := by
  have hrank : ∀ l : Level, l.rank ≤ Level.unary.rank := by
    intro l
    cases l <;> decide
  constructor
  · exact h
  · exact hrank level
  · intro x _ l' fold _ _
    exact Or.inr ⟨by decide, hrank l'⟩

/-- The new tree is a phrase of the level of its operator, and what comes next binds no tighter. -/
theorem LeftOf.tree {before us : List Token} {left right : Expr} {make : Expr → Expr → Expr} {t : Token}
    {fold : Fold} {l' r : Level} (hleft : Derives l'.stratum before left)
    (hoperator : operator? t = some (l', fold)) (htree : fold.tree? = some (make, r))
    (hright : Derives r.stratum us right) (hlevel : level.rank ≤ l'.rank) (hstops : Stops r rest) :
    LeftOf level l' (before ++ t :: us) (make left right) rest := by
  obtain ⟨p, rfl, hmem, htighter, hrank, hor⟩ := mem_operators hoperator htree
  rw [htighter] at hright
  constructor
  · exact .binary hmem hleft hright
  · exact hlevel
  · intro x hx l'' fold' hoperator' _
    have hlt := foldAt?_eq_none (hstops x hx) hoperator'
    exact Or.inr ⟨hor, by omega⟩

/-- What the parser accepts with this fuel is in the grammar. -/
structure SoundAt (stop fuel : Nat) : Prop where
  expression : ∀ {room level ts e rest}, expression stop fuel room level ts = .ok (e, rest) →
    ∃ used, ts = used ++ rest ∧ Derives level.stratum (tokens used) e ∧ Stops level rest
  folds : ∀ {room level l before left ts e rest}, LeftOf level l before left ts →
    folds stop fuel room level left ts = .ok (e, rest) →
    ∃ used, ts = used ++ rest ∧ Derives level.stratum (before ++ tokens used) e ∧ Stops level rest
  operand : ∀ {room ts e rest}, operand stop fuel room ts = .ok (e, rest) →
    ∃ used, ts = used ++ rest ∧ Derives .unary (tokens used) e
  primary : ∀ {room x ts e rest}, primary stop fuel room x ts = .ok (e, rest) →
    ∃ used, ts = used ++ rest ∧ Derives .primary (x.token :: tokens used) e
  suffixes : ∀ {room before e ts e' rest}, Derives .suffixed before e →
    suffixes stop fuel room e ts = .ok (e', rest) →
    ∃ used, ts = used ++ rest ∧ Derives .suffixed (before ++ tokens used) e'
  arguments : ∀ {room ts es rest}, arguments stop fuel room ts = .ok (es, rest) →
    ∃ used args, ts = used ++ rest ∧ tokens used = argumentTokens args ∧ es = args.map Phrase.tree ∧
      ∀ p ∈ args, Derives .expression p.tokens p.tree
  moreArguments : ∀ {room seen ts es rest}, moreArguments stop fuel room seen ts = .ok (es, rest) →
    ∃ used args, ts = used ++ rest ∧ args ≠ [] ∧
      tokens used = separated (args.map Phrase.tokens) ++ [.punct .rightParen] ∧
      es = seen.reverse ++ args.map Phrase.tree ∧ ∀ p ∈ args, Derives .expression p.tokens p.tree
  arrayItems : ∀ {room seen ts es rest}, arrayItems stop fuel room seen ts = .ok (es, rest) →
    ∃ used items us, ts = used ++ rest ∧ Trailing items us ∧
      tokens used = separated (items.map Phrase.tokens) ++ us ++ [.punct .rightBracket] ∧
      es = seen.reverse ++ items.map Phrase.tree ∧ ∀ p ∈ items, Derives .expression p.tokens p.tree
  objectEntries : ∀ {room seen ts es rest}, objectEntries stop fuel room seen ts = .ok (es, rest) →
    ∃ used entries us, ts = used ++ rest ∧ Trailing entries us ∧
      tokens used = separated (entries.map Entry.written) ++ us ++ [.punct .rightBrace] ∧
      es = seen.reverse ++ entries.map (fun p => (p.name, p.tree)) ∧
      (∀ p ∈ entries, IsKey p.key p.name) ∧ ∀ p ∈ entries, Derives .expression p.tokens p.tree

theorem soundAt_zero (stop : Nat) : SoundAt stop 0 := by
  constructor
  all_goals
    intros
    rename_i h
    simp [expression, folds, operand, primary, suffixes, arguments, moreArguments, arrayItems,
      objectEntries] at h

namespace SoundAt

variable (ih : SoundAt stop fuel)

include ih

theorem expression_succ (h : Parser.expression stop (fuel + 1) room level ts = .ok (e, rest)) :
    ∃ used, ts = used ++ rest ∧ Derives level.stratum (tokens used) e ∧ Stops level rest := by
  cases room with
  | zero => simp [Parser.expression] at h
  | succ room =>
    rw [Parser.expression] at h
    obtain ⟨⟨left, ts'⟩, hleft, hfolds⟩ := bind_eq_ok h
    obtain ⟨used, rfl, hderives⟩ := ih.operand hleft
    obtain ⟨used', rfl, hderives', hstops⟩ := ih.folds (LeftOf.of_unary hderives level ts') hfolds
    exact ⟨used ++ used', by rw [List.append_assoc], by rwa [tokens_append], hstops⟩

section

variable {before : List Token} {left : Expr} {x : Lexeme} {more : List Lexeme} {fold : Fold}
  (hleft : LeftOf level l before left (x :: more)) (hfold : foldAt? level x.token = some fold)

include hleft hfold

theorem tree_succ {make : Expr → Expr → Expr} {r : Level} (htree : fold.tree? = some (make, r))
    (h : Parser.folds stop (fuel + 1) (room + 1) level left (x :: more) = .ok (e, rest)) :
    ∃ used, more = used ++ rest ∧ Derives level.stratum (before ++ x.token :: tokens used) e ∧
      Stops level rest := by
  obtain ⟨l', hoperator, hlevel⟩ := foldAt?_eq_some hfold
  rw [folds_tree hfold htree] at h
  obtain ⟨⟨right, ts'⟩, hright, hfolds⟩ := bind_eq_ok h
  obtain ⟨used, rfl, hderives, hstops⟩ := ih.expression hright
  have hle : l'.rank ≤ l.rank := by
    obtain ⟨-, -, -, -, -, hor⟩ := mem_operators hoperator htree
    rcases hleft.next x rfl l' fold hoperator hlevel with rfl | hnext
    · simp [Level.rank] at hor
    · exact hnext.2
  have hleft' := LeftOf.tree (hleft.derives.loosen hle) hoperator htree hderives hlevel hstops
  obtain ⟨used', rfl, hderives', hstops'⟩ := ih.folds hleft' hfolds
  exact ⟨used ++ used', by simp, by simpa using hderives', hstops'⟩

theorem assign_succ (hassign : fold = .assign)
    (h : Parser.folds stop (fuel + 1) (room + 1) level left (x :: more) = .ok (e, rest)) :
    ∃ used, more = used ++ rest ∧ Derives level.stratum (before ++ x.token :: tokens used) e ∧
      Stops level rest := by
  subst hassign
  obtain ⟨l', hoperator, hlevel⟩ := foldAt?_eq_some hfold
  obtain ⟨htoken, rfl⟩ := operator?_assign hoperator
  rw [folds_assign hfold] at h
  cases left
  case identifier name =>
    obtain ⟨⟨value, ts'⟩, hvalue, hfolds⟩ := bind_eq_ok h
    obtain ⟨used, rfl, hderives, hstops⟩ := ih.expression hvalue
    have hleft' : LeftOf level .assignment (before ++ x.token :: tokens used) (.assign name value)
        ts' := by
      constructor
      · rw [htoken]
        exact .assign (hleft.derives.named rfl) hderives
      · exact hlevel
      · intro y hy l' fold hoperator' _
        have hlt : l'.rank < 1 := foldAt?_eq_none (hstops y hy) hoperator'
        have hpos := l'.rank_pos
        omega
    obtain ⟨used', rfl, hderives', hstops'⟩ := ih.folds hleft' hfolds
    exact ⟨used ++ used', by simp, by simpa using hderives', hstops'⟩
  all_goals cases h

theorem conditional_succ (hconditional : fold = .conditional)
    (h : Parser.folds stop (fuel + 1) (room + 1) level left (x :: more) = .ok (e, rest)) :
    ∃ used, more = used ++ rest ∧ Derives level.stratum (before ++ x.token :: tokens used) e ∧
      Stops level rest := by
  subst hconditional
  obtain ⟨l', hoperator, hlevel⟩ := foldAt?_eq_some hfold
  obtain ⟨htoken, rfl⟩ := operator?_conditional hoperator
  rw [folds_conditional hfold] at h
  obtain ⟨⟨yes, ts₁⟩, hyes, h₁⟩ := bind_eq_ok h
  obtain ⟨ts₂, hcolon, h₂⟩ := bind_eq_ok h₁
  obtain ⟨⟨no, ts₃⟩, hno, hfolds⟩ := bind_eq_ok h₂
  obtain ⟨us, rfl, hderivesYes, -⟩ := ih.expression hyes
  obtain ⟨y, rfl, htokenColon⟩ := expect_eq_ok hcolon
  obtain ⟨vs, rfl, hderivesNo, hstops⟩ := ih.expression hno
  have hor : Derives .or before left := by
    rcases hleft.next x rfl _ _ hoperator hlevel with hnext | hnext
    · cases hnext
    · have hloose : Derives Level.or.stratum before left := hleft.derives.loosen hnext.1
      exact hloose
  have hleft' : LeftOf level .conditional (before ++ x.token :: (tokens us ++ y.token :: tokens vs))
      (.conditional left yes no) ts₃ := by
    constructor
    · rw [htoken, htokenColon]
      exact .conditional hor hderivesYes hderivesNo
    · exact hlevel
    · intro z hz l' fold hoperator' _
      have hlt : l'.rank < 2 := foldAt?_eq_none (hstops z hz) hoperator'
      have hpos := l'.rank_pos
      have hrank : l'.rank = Level.assignment.rank := Nat.le_antisymm (Nat.le_of_lt_succ hlt) hpos
      exact Or.inl (Level.eq_of_rank_eq hrank)
  obtain ⟨used, rfl, hderives', hstops'⟩ := ih.folds hleft' hfolds
  exact ⟨us ++ y :: (vs ++ used), by simp, by simpa using hderives', hstops'⟩

end

theorem folds_succ {before : List Token} {left : Expr} (hleft : LeftOf level l before left ts)
    (h : Parser.folds stop (fuel + 1) room level left ts = .ok (e, rest)) :
    ∃ used, ts = used ++ rest ∧ Derives level.stratum (before ++ tokens used) e ∧
      Stops level rest := by
  have hkept : ∀ rest, Stops level rest → ∃ used, rest = used ++ rest ∧
      Derives level.stratum (before ++ tokens used) left ∧ Stops level rest := by
    intro rest hstops
    refine ⟨[], rfl, ?_, hstops⟩
    rw [tokens_nil, List.append_nil]
    exact hleft.derives.loosen hleft.level_le
  cases ts with
  | nil =>
    rw [Parser.folds] at h
    cases h
    exact hkept [] (by simp [Stops])
  | cons x more =>
    cases hfold : foldAt? level x.token with
    | none =>
      rw [folds_stop hfold] at h
      cases h
      exact hkept (x :: more) (by simpa [Stops] using hfold)
    | some fold =>
      cases room with
      | zero =>
        rw [folds_zero hfold] at h
        cases h
      | succ room =>
        have hused : ∃ used, more = used ++ rest ∧
            Derives level.stratum (before ++ x.token :: tokens used) e ∧ Stops level rest := by
          cases hkind : fold with
          | assign => exact ih.assign_succ hleft hfold hkind h
          | conditional => exact ih.conditional_succ hleft hfold hkind h
          | binary op r => exact ih.tree_succ hleft hfold (by rw [hkind]; rfl) h
          | lazy op r => exact ih.tree_succ hleft hfold (by rw [hkind]; rfl) h
        obtain ⟨used, rfl, hderives, hstops⟩ := hused
        exact ⟨x :: used, rfl, hderives, hstops⟩

theorem operand_succ (h : Parser.operand stop (fuel + 1) room ts = .ok (e, rest)) :
    ∃ used, ts = used ++ rest ∧ Derives .unary (tokens used) e := by
  cases ts with
  | nil =>
    rw [Parser.operand] at h
    cases h
  | cons x more =>
    rw [Parser.operand.eq_def] at h
    dsimp only at h
    split at h
    · cases h
    · next op room hsign =>
      obtain ⟨⟨e', ts'⟩, hoperand, h⟩ := bind_eq_ok h
      cases h
      obtain ⟨used, rfl, hderives⟩ := ih.operand hoperand
      obtain ⟨p, htoken, hmem⟩ := mem_signs hsign
      refine ⟨x :: used, rfl, ?_⟩
      rw [tokens_cons, htoken]
      exact .unary hmem hderives
    · next room hsign =>
      obtain ⟨⟨e', ts'⟩, hprimary, hsuffixes⟩ := bind_eq_ok h
      obtain ⟨used, rfl, hderives⟩ := ih.primary hprimary
      obtain ⟨used', rfl, hderives'⟩ := ih.suffixes (.primary hderives) hsuffixes
      exact ⟨x :: (used ++ used'), by simp, .suffixed (by simpa using hderives')⟩

theorem primary_succ {x : Lexeme}
    (h : Parser.primary stop (fuel + 1) room x ts = .ok (e, rest)) :
    ∃ used, ts = used ++ rest ∧ Derives .primary (x.token :: tokens used) e := by
  rw [Parser.primary] at h
  split at h
  · next v hliteral =>
    cases h
    exact ⟨[], rfl, .literal (isLiteral_of_literal? hliteral)⟩
  · split at h
    · next name hname =>
      cases h
      refine ⟨[], rfl, ?_⟩
      rw [hname]
      exact .identifier name
    · next hparen =>
      obtain ⟨⟨e', ts'⟩, hexpression, h⟩ := bind_eq_ok h
      obtain ⟨us, hclose, h⟩ := bind_eq_ok h
      cases h
      obtain ⟨used, rfl, hderives, -⟩ := ih.expression hexpression
      obtain ⟨y, rfl, hy⟩ := expect_eq_ok hclose
      refine ⟨used ++ [y], by simp, ?_⟩
      rw [hparen, tokens_append, tokens_cons, hy]
      exact .group hderives
    · next hbracket =>
      obtain ⟨⟨es, ts'⟩, hitems, h⟩ := bind_eq_ok h
      cases h
      obtain ⟨used, items, us, rfl, htrailing, htokens, rfl, hderives⟩ := ih.arrayItems hitems
      refine ⟨used, rfl, ?_⟩
      rw [hbracket, htokens]
      exact .array hderives htrailing
    · next hbrace =>
      obtain ⟨⟨es, ts'⟩, hentries, h⟩ := bind_eq_ok h
      cases h
      obtain ⟨used, entries, us, rfl, htrailing, htokens, rfl, hkeys, hderives⟩ :=
        ih.objectEntries hentries
      refine ⟨used, rfl, ?_⟩
      rw [hbrace, htokens]
      exact .object hkeys hderives htrailing
    · cases h

theorem suffixes_succ {before : List Token} {e' : Expr} (hbefore : Derives .suffixed before e)
    (h : Parser.suffixes stop (fuel + 1) room e ts = .ok (e', rest)) :
    ∃ used, ts = used ++ rest ∧ Derives .suffixed (before ++ tokens used) e' := by
  cases ts with
  | nil =>
    rw [Parser.suffixes] at h
    cases h
    exact ⟨[], rfl, by simpa using hbefore⟩
  | cons x more =>
    rw [Parser.suffixes.eq_def] at h
    dsimp only at h
    split at h
    · cases h
    · cases h
    · cases h
    · next room hdot =>
      split at h
      · cases h
      · next n ts =>
        split at h
        · cases h
        · next name hname =>
          split at h
          · obtain ⟨⟨es, ts'⟩, harguments, h⟩ := bind_eq_ok h
            obtain ⟨used, args, rfl, htokens, rfl, hargs⟩ := ih.arguments harguments
            have hmethod := Derives.method hbefore (isName_of_propertyName? hname) hargs
            obtain ⟨used', rfl, hderives⟩ := ih.suffixes hmethod h
            refine ⟨x :: n :: (used ++ used'), by simp, ?_⟩
            simpa [hdot, htokens] using hderives
          · have hmember := Derives.member hbefore (isName_of_propertyName? hname)
            obtain ⟨used, rfl, hderives⟩ := ih.suffixes hmember h
            exact ⟨x :: n :: used, rfl, by simpa [hdot] using hderives⟩
    · next room hbracket =>
      obtain ⟨⟨i, ts'⟩, hindex, hclosing⟩ := bind_eq_ok h
      obtain ⟨us, hclose, hsuffixes⟩ := bind_eq_ok hclosing
      obtain ⟨used, rfl, hi, -⟩ := ih.expression hindex
      obtain ⟨y, rfl, hy⟩ := expect_eq_ok hclose
      obtain ⟨used', rfl, hderives⟩ := ih.suffixes (.index hbefore hi) hsuffixes
      refine ⟨x :: (used ++ y :: used'), by simp, ?_⟩
      simpa [hbracket, hy, bracketed] using hderives
    · next room hparen =>
      split at h
      · next name =>
        obtain ⟨⟨es, ts'⟩, harguments, h⟩ := bind_eq_ok h
        obtain ⟨used, args, hused, htokens, rfl, hargs⟩ := ih.arguments harguments
        have hcall := Derives.call (hbefore.named rfl) hargs
        obtain ⟨used', rfl, hderives⟩ := ih.suffixes hcall h
        refine ⟨used ++ used', by rw [hused, List.append_assoc], ?_⟩
        rwa [tokens_append, htokens, ← List.append_assoc]
      · cases h
    · cases h
      exact ⟨[], rfl, by simpa using hbefore⟩

theorem arguments_succ {es : List Expr}
    (h : Parser.arguments stop (fuel + 1) room ts = .ok (es, rest)) :
    ∃ used args, ts = used ++ rest ∧ tokens used = argumentTokens args ∧ es = args.map Phrase.tree ∧
      ∀ p ∈ args, Derives .expression p.tokens p.tree := by
  rw [Parser.arguments] at h
  obtain ⟨us, hopen, hlist⟩ := bind_eq_ok h
  obtain ⟨x, rfl, hx⟩ := expect_eq_ok hopen
  split at hlist
  · next hnext =>
    cases hlist
    obtain ⟨y, hus, hy⟩ := nextIs_eq_true hnext
    refine ⟨[x, y], [], congrArg (x :: ·) hus, ?_, rfl, by simp⟩
    rw [tokens_cons, tokens_cons, hx, hy]
    rfl
  · obtain ⟨used, args, rfl, -, htokens, rfl, hargs⟩ := ih.moreArguments hlist
    refine ⟨x :: used, args, rfl, ?_, rfl, hargs⟩
    rw [tokens_cons, hx, htokens]
    rfl

theorem moreArguments_succ {seen es : List Expr}
    (h : Parser.moreArguments stop (fuel + 1) room seen ts = .ok (es, rest)) :
    ∃ used args, ts = used ++ rest ∧ args ≠ [] ∧
      tokens used = separated (args.map Phrase.tokens) ++ [.punct .rightParen] ∧
      es = seen.reverse ++ args.map Phrase.tree ∧
      ∀ p ∈ args, Derives .expression p.tokens p.tree := by
  rw [Parser.moreArguments] at h
  obtain ⟨⟨e, us⟩, hexpression, hlist⟩ := bind_eq_ok h
  obtain ⟨used, rfl, hderives, -⟩ := ih.expression hexpression
  dsimp only at hlist
  split at hlist
  · next hnext =>
    obtain ⟨y, hus, hy⟩ := nextIs_eq_true hnext
    obtain ⟨used', args, hused', hne, htokens, rfl, hargs⟩ := ih.moreArguments hlist
    refine ⟨used ++ y :: used', ⟨tokens used, e⟩ :: args, ?_, by simp, ?_, by simp, ?_⟩
    · rw [hus, hused']
      simp
    · rw [tokens_append, tokens_cons, hy, htokens, List.map_cons,
        separated_cons (tokens used) (by simpa using hne)]
      simp
    · exact List.forall_mem_cons.mpr ⟨hderives, hargs⟩
  · split at hlist
    · next hnext =>
      cases hlist
      obtain ⟨y, hus, hy⟩ := nextIs_eq_true hnext
      refine ⟨used ++ [y], [⟨tokens used, e⟩], ?_, by simp, ?_, by simp, ?_⟩
      · rw [List.append_assoc]
        exact congrArg (used ++ ·) hus
      · rw [tokens_append, tokens_cons, hy]
        simp
      · exact List.forall_mem_singleton.mpr hderives
    · cases hlist

theorem arrayItems_succ {seen es : List Expr}
    (h : Parser.arrayItems stop (fuel + 1) room seen ts = .ok (es, rest)) :
    ∃ used items us, ts = used ++ rest ∧ Trailing items us ∧
      tokens used = separated (items.map Phrase.tokens) ++ us ++ [.punct .rightBracket] ∧
      es = seen.reverse ++ items.map Phrase.tree ∧
      ∀ p ∈ items, Derives .expression p.tokens p.tree := by
  rw [Parser.arrayItems] at h
  split at h
  · next hnext =>
    cases h
    obtain ⟨y, hus, hy⟩ := nextIs_eq_true hnext
    refine ⟨[y], [], [], hus, .none, ?_, by simp, by simp⟩
    rw [tokens_cons, hy]
    rfl
  · obtain ⟨⟨e, us⟩, hexpression, hlist⟩ := bind_eq_ok h
    obtain ⟨used, rfl, hderives, -⟩ := ih.expression hexpression
    dsimp only at hlist
    split at hlist
    · next hnext =>
      obtain ⟨y, hus, hy⟩ := nextIs_eq_true hnext
      obtain ⟨used', items, vs, hused', htrailing, htokens, rfl, hitems⟩ := ih.arrayItems hlist
      obtain ⟨ws, htrailing, hlonger⟩ := htrailing.cons Phrase.tokens ⟨tokens used, e⟩
      refine ⟨used ++ y :: used', ⟨tokens used, e⟩ :: items, ws, ?_, htrailing, ?_, by simp, ?_⟩
      · rw [hus, hused']
        simp
      · rw [← hlonger, tokens_append, tokens_cons, hy, htokens]
        simp
      · exact List.forall_mem_cons.mpr ⟨hderives, hitems⟩
    · split at hlist
      · next hnext =>
        cases hlist
        obtain ⟨y, hus, hy⟩ := nextIs_eq_true hnext
        refine ⟨used ++ [y], [⟨tokens used, e⟩], [], ?_, .none, ?_, by simp, ?_⟩
        · rw [List.append_assoc]
          exact congrArg (used ++ ·) hus
        · rw [tokens_append, tokens_cons, hy]
          simp
        · exact List.forall_mem_singleton.mpr hderives
      · cases hlist

theorem objectEntries_succ {seen es : List (String × Expr)}
    (h : Parser.objectEntries stop (fuel + 1) room seen ts = .ok (es, rest)) :
    ∃ used entries us, ts = used ++ rest ∧ Trailing entries us ∧
      tokens used = separated (entries.map Entry.written) ++ us ++ [.punct .rightBrace] ∧
      es = seen.reverse ++ entries.map (fun p => (p.name, p.tree)) ∧
      (∀ p ∈ entries, IsKey p.key p.name) ∧ ∀ p ∈ entries, Derives .expression p.tokens p.tree := by
  cases ts with
  | nil =>
    rw [Parser.objectEntries] at h
    cases h
  | cons x more =>
    rw [Parser.objectEntries] at h
    split at h
    · next hbrace =>
      cases h
      refine ⟨[x], [], [], rfl, .none, ?_, by simp, by simp, by simp⟩
      rw [tokens_cons, hbrace]
      rfl
    · split at h
      · cases h
      · next key hkey =>
        obtain ⟨ts', hcolon, hvalue⟩ := bind_eq_ok h
        obtain ⟨c, rfl, hc⟩ := expect_eq_ok hcolon
        obtain ⟨⟨e, us⟩, hexpression, hlist⟩ := bind_eq_ok hvalue
        obtain ⟨used, rfl, hderives, -⟩ := ih.expression hexpression
        have hisKey := isKey_of_objectKey? hkey
        have hwritten : tokens (x :: c :: used) =
            (⟨⟨tokens used, e⟩, x.token, key⟩ : Entry).written := by
          rw [tokens_cons, tokens_cons, hc]
          rfl
        dsimp only at hlist
        split at hlist
        · next hnext =>
          obtain ⟨y, hus, hy⟩ := nextIs_eq_true hnext
          obtain ⟨used', entries, vs, hused', htrailing, htokens, rfl, hkeys, hentries⟩ :=
            ih.objectEntries hlist
          obtain ⟨ws, htrailing, hlonger⟩ :=
            htrailing.cons Entry.written ⟨⟨tokens used, e⟩, x.token, key⟩
          refine ⟨x :: c :: used ++ y :: used', ⟨⟨tokens used, e⟩, x.token, key⟩ :: entries, ws, ?_,
            htrailing, ?_, by simp, ?_, ?_⟩
          · rw [hus, hused']
            simp
          · rw [← hlonger, tokens_append, hwritten, tokens_cons, hy, htokens]
            simp
          · exact List.forall_mem_cons.mpr ⟨hisKey, hkeys⟩
          · exact List.forall_mem_cons.mpr ⟨hderives, hentries⟩
        · split at hlist
          · next hnext =>
            cases hlist
            obtain ⟨y, hus, hy⟩ := nextIs_eq_true hnext
            refine ⟨x :: c :: used ++ [y], [⟨⟨tokens used, e⟩, x.token, key⟩], [], ?_, .none, ?_,
              by simp, ?_, ?_⟩
            · rw [List.append_assoc]
              exact congrArg (x :: c :: used ++ ·) hus
            · rw [tokens_append, hwritten, tokens_cons, hy]
              simp
            · exact List.forall_mem_singleton.mpr hisKey
            · exact List.forall_mem_singleton.mpr hderives
          · cases hlist

end SoundAt

/-- What the parser accepts is in the grammar. -/
theorem soundAt (stop fuel : Nat) : SoundAt stop fuel := by
  induction fuel with
  | zero => exact soundAt_zero stop
  | succ fuel ih =>
    constructor
    · exact ih.expression_succ
    · exact ih.folds_succ
    · exact ih.operand_succ
    · exact ih.primary_succ
    · exact ih.suffixes_succ
    · exact ih.arguments_succ
    · exact ih.moreArguments_succ
    · exact ih.arrayItems_succ
    · exact ih.objectEntries_succ

end TreeTemplate.Parser
