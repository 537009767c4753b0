import TreeTemplate.Proofs.Expression.Soundness

/-!
What is in the grammar the parser accepts, unless it reports that the nesting is too deep.  A phrase is read
off the front of any tokens that do not go on with it (`Ends`); the parser then is where it would be if it
had started with the tree of the phrase (`complete`).
-/

namespace TreeTemplate.Parser

open Grammar

variable {stop fuel room n : Nat} {level l r : Level} {used ts rest : List Lexeme} {us : List Token}
  {e : Expr} {p : Punct} {x : Lexeme} {name : String} {α β : Type}

/-! ### Up to nesting -/

/-- The first result is the second one, or nesting is too deep. -/
def Yields (a b : Except ParseError α) : Prop :=
  a = b ∨ ∃ offset, a = .error (.nestingTooDeep offset)

namespace Yields

variable {a b c : Except ParseError α}

theorem refl (a : Except ParseError α) : Yields a a :=
  Or.inl rfl

theorem deep (offset : Nat) (b : Except ParseError α) : Yields (.error (.nestingTooDeep offset)) b :=
  Or.inr ⟨offset, rfl⟩

theorem trans (h : Yields a b) (h' : Yields b c) : Yields a c := by
  rcases h with rfl | hdeep
  · exact h'
  · exact Or.inr hdeep

theorem bind {f : α → Except ParseError β} {v : α} {d : Except ParseError β} (h : Yields a (.ok v))
    (h' : Yields (f v) d) : Yields (a >>= f) d := by
  rcases h with rfl | ⟨offset, rfl⟩
  · exact h'
  · exact deep offset d

end Yields

/-! ### What may follow a phrase -/

def IsSuffix (t : Token) : Prop :=
  t = .punct .dot ∨ t = .punct .leftBracket ∨ t = .punct .leftParen

instance (t : Token) : Decidable (IsSuffix t) :=
  inferInstanceAs (Decidable (_ ∨ _ ∨ _))

/-- What closes a phrase that stands inside of another one. -/
def closers : List Punct :=
  [.rightParen, .rightBracket, .rightBrace, .comma, .colon]

/-- The next token begins no suffix, and if it is an operator its rank is at most `n`. -/
def Ends (n : Nat) (ts : List Lexeme) : Prop :=
  ∀ x ∈ ts.head?, ¬ IsSuffix x.token ∧ ∀ l fold, operator? x.token = some (l, fold) → l.rank ≤ n

/-- The highest rank of an operator after a phrase of the level that does not take the phrase apart. -/
def Level.bound : Level → Nat
  | .assignment => 0
  | .conditional => 1
  | l => l.rank

theorem Level.pred_rank_le_bound (l : Level) : l.rank - 1 ≤ l.bound := by
  cases l <;> decide

theorem Level.bound_eq_rank (h : Level.or.rank ≤ l.rank) : l.bound = l.rank := by
  cases l <;> first | rfl | (revert h; decide)

namespace Ends

theorem mono {m : Nat} (h : Ends m ts) (hle : m ≤ n) : Ends n ts := by
  intro x hx
  obtain ⟨hsuffix, hoperator⟩ := h x hx
  exact ⟨hsuffix, fun l fold hl => Nat.le_trans (hoperator l fold hl) hle⟩

theorem nil : Ends n [] := by
  intro x hx
  cases hx

/-- Nothing goes on after what closes a phrase. -/
theorem closing (h : x.token = .punct p) (hp : p ∈ closers) (ts : List Lexeme) : Ends n (x :: ts) := by
  have hsuffix : ∀ p ∈ closers, ¬ IsSuffix (.punct p) := by decide
  have hoperator : ∀ p ∈ closers, (operator? (.punct p)).isNone = true := by decide
  intro y hy
  cases hy
  rw [h]
  constructor
  · exact hsuffix p hp
  · intro l fold hl
    have hnone := hoperator p hp
    rw [hl] at hnone
    cases hnone

/-- An operator of rank at most `n` follows. -/
theorem operator {fold : Fold} (h : operator? x.token = some (l, fold)) (hle : l.rank ≤ n)
    (ts : List Lexeme) : Ends n (x :: ts) := by
  intro y hy
  cases hy
  constructor
  · rintro (hx | hx | hx) <;> simp [hx, operator?] at h
  · intro l' fold' h'
    rw [h] at h'
    cases h'
    exact hle

theorem stops (h : Ends (level.rank - 1) ts) : Stops level ts := by
  intro x hx
  obtain ⟨-, hoperator⟩ := h x hx
  cases hfold : foldAt? level x.token with
  | none => rfl
  | some fold =>
    obtain ⟨l, hl, hle⟩ := foldAt?_eq_some hfold
    have hpos := level.rank_pos
    have hrank := hoperator l fold hl
    omega

end Ends

theorem folds_stops (h : Stops level rest) (stop fuel room : Nat) (e : Expr) :
    Yields (folds stop fuel room level e rest) (.ok (e, rest)) := by
  cases fuel with
  | zero =>
    rw [folds.eq_def]
    exact .deep _ _
  | succ fuel =>
    cases rest with
    | nil =>
      rw [folds]
      exact .refl _
    | cons x more =>
      rw [folds_stop (h x rfl)]
      exact .refl _

theorem suffixes_stops (h : Ends n rest) (stop fuel room : Nat) (e : Expr) :
    Yields (suffixes stop fuel room e rest) (.ok (e, rest)) := by
  cases fuel with
  | zero =>
    rw [suffixes.eq_def]
    exact .deep _ _
  | succ fuel =>
    cases rest with
    | nil =>
      rw [suffixes]
      exact .refl _
    | cons x more =>
      obtain ⟨hsuffix, -⟩ := h x rfl
      obtain ⟨hdot, hbracket, hparen⟩ := by simpa only [IsSuffix, not_or] using hsuffix
      rw [suffixes.eq_def]
      dsimp only
      split
      case h_7 => exact .refl _
      all_goals contradiction

/-! ### Reading phrases -/

/-- Wherever the tokens stand, the parser reads them as a primary phrase. -/
def ReadsPrimary (us : List Token) (e : Expr) : Prop :=
  ∀ used, tokens used = us → ∃ x more, used = x :: more ∧ prefixOp? x.token = none ∧
    ∀ stop fuel room rest, Yields (primary stop fuel room x (more ++ rest)) (.ok (e, rest))

/-- Wherever the tokens stand, unless arguments follow, the parser comes to be after the operand `e`,
reading further suffixes. -/
def ReadsSuffixed (us : List Token) (e : Expr) : Prop :=
  ∀ used, tokens used = us → ∀ stop fuel room rest, nextIs .leftParen rest = false →
    ∃ fuel' room', Yields (operand stop fuel room (used ++ rest)) (suffixes stop fuel' room' e rest)

/-- Wherever the tokens stand, unless suffixes follow, the parser reads them as an operand. -/
def ReadsOperand (us : List Token) (e : Expr) : Prop :=
  ∀ used, tokens used = us → ∀ stop fuel room n rest, Ends n rest →
    Yields (operand stop fuel room (used ++ rest)) (.ok (e, rest))

/-- Wherever the tokens stand, unless what follows takes the phrase apart, the parser comes to be after
the tree `e`, reading further operators. -/
def ReadsLevel (l : Level) (us : List Token) (e : Expr) : Prop :=
  ∀ used, tokens used = us → ∀ stop fuel room level rest, level.rank ≤ l.rank → Ends l.bound rest →
    ∃ fuel' room',
      Yields (expression stop fuel room level (used ++ rest)) (folds stop fuel' room' level e rest)

structure Reads (s : Stratum) (us : List Token) (e : Expr) : Prop where
  primary : s = .primary → ReadsPrimary us e
  suffixed : s = .suffixed → ReadsSuffixed us e
  operand : s = .unary → ReadsOperand us e
  level : ∀ l : Level, l.stratum = s → ReadsLevel l us e

theorem Level.eq_of_stratum_eq (h : l.stratum = r.stratum) : l = r := by
  cases l <;> cases r <;> first | rfl | cases h

theorem ReadsPrimary.reads (h : ReadsPrimary us e) : Reads .primary us e := by
  constructor
  · exact fun _ => h
  · rintro ⟨⟩
  · rintro ⟨⟩
  · intro l hl
    cases l <;> cases hl

theorem ReadsSuffixed.reads (h : ReadsSuffixed us e) : Reads .suffixed us e := by
  constructor
  · rintro ⟨⟩
  · exact fun _ => h
  · rintro ⟨⟩
  · intro l hl
    cases l <;> cases hl

theorem ReadsLevel.reads (h : ReadsLevel l us e) (hl : l ≠ .unary) : Reads l.stratum us e := by
  constructor
  · intro heq
    cases l <;> cases heq
  · intro heq
    cases l <;> cases heq
  · intro heq
    exact absurd (Level.eq_of_stratum_eq (r := .unary) heq) hl
  · intro l' hl'
    rwa [Level.eq_of_stratum_eq hl']

/-- After an operand the parser reads operators. -/
theorem expression_of_operand (h : ∀ stop fuel room, Yields (operand stop fuel room ts) (.ok (e, rest)))
    (stop fuel room : Nat) (level : Level) :
    ∃ fuel' room',
      Yields (expression stop fuel room level ts) (folds stop fuel' room' level e rest) := by
  cases fuel with
  | zero =>
    rw [expression.eq_def]
    exact ⟨0, 0, .deep _ _⟩
  | succ fuel =>
    cases room with
    | zero =>
      rw [expression.eq_def]
      exact ⟨0, 0, .deep _ _⟩
    | succ room =>
      rw [expression]
      exact ⟨fuel, room, (h stop fuel room).bind (.refl _)⟩

theorem ReadsOperand.unary (h : ReadsOperand us e) : ReadsLevel .unary us e := by
  intro used hused stop fuel room level rest _ hends
  exact expression_of_operand (fun stop fuel room => h used hused stop fuel room _ rest hends)
    stop fuel room level

theorem ReadsOperand.reads (h : ReadsOperand us e) : Reads .unary us e := by
  constructor
  · rintro ⟨⟩
  · rintro ⟨⟩
  · exact fun _ => h
  · intro l hl
    obtain rfl : l = .unary := Level.eq_of_stratum_eq hl
    exact h.unary

/-- A whole phrase is read where nothing binds it to what follows. -/
theorem ReadsLevel.done (h : ReadsLevel l us e) (hused : tokens used = us)
    (hends : Ends (l.rank - 1) rest) (stop fuel room : Nat) :
    Yields (expression stop fuel room l (used ++ rest)) (.ok (e, rest)) := by
  obtain ⟨fuel', room', hyields⟩ := h used hused stop fuel room l rest (Nat.le_refl _)
    (hends.mono l.pred_rank_le_bound)
  exact hyields.trans (folds_stops hends.stops stop fuel' room' e)

theorem ReadsPrimary.suffixed (h : ReadsPrimary us e) (hused : tokens used = us)
    (stop fuel room : Nat) (rest : List Lexeme) :
    ∃ fuel' room', Yields (Parser.operand stop fuel room (used ++ rest))
      (suffixes stop fuel' room' e rest) := by
  obtain ⟨x, more, rfl, hsign, hprimary⟩ := h used hused
  cases fuel with
  | zero =>
    rw [Parser.operand.eq_def]
    exact ⟨0, 0, .deep _ _⟩
  | succ fuel =>
    rw [List.cons_append, Parser.operand.eq_def]
    dsimp only
    rw [hsign]
    exact ⟨fuel, room, (hprimary stop fuel room rest).bind (.refl _)⟩

theorem ReadsSuffixed.operand (h : ReadsSuffixed us e) : ReadsOperand us e := by
  intro used hused stop fuel room n rest hends
  have hparen : nextIs .leftParen rest = false := by
    cases rest with
    | nil => rfl
    | cons x rest =>
      obtain ⟨hsuffix, -⟩ := hends x rfl
      simpa [nextIs] using fun hx => hsuffix (Or.inr (Or.inr hx))
  obtain ⟨fuel', room', hyields⟩ := h used hused stop fuel room rest hparen
  exact hyields.trans (suffixes_stops hends stop fuel' room' e)

/-! ### Lists -/

theorem expect_of_token (h : x.token = .punct p) (stop : Nat) (ts : List Lexeme) :
    expect stop p (x :: ts) = .ok ts := by
  rw [expect, if_pos h]

theorem nextIs_of_token (h : x.token = .punct p) (q : Punct) (ts : List Lexeme) :
    nextIs q (x :: ts) = decide (p = q) := by
  simp [nextIs, h]

/-- An expression is read up to what closes it. -/
theorem ReadsLevel.closed (h : ReadsLevel .assignment us e) (hused : tokens used = us)
    (hx : x.token = .punct p) (hp : p ∈ closers) (stop fuel room : Nat) (rest : List Lexeme) :
    Yields (expression stop fuel room .assignment (used ++ x :: rest)) (.ok (e, x :: rest)) :=
  h.done hused (Ends.closing hx hp rest) stop fuel room

/-- The phrase does not begin with a closing bracket, and the parser reads it as an expression. -/
structure ReadsItem (p : Phrase) : Prop where
  opens : Opens p.tokens
  reads : ReadsLevel .assignment p.tokens p.tree

theorem nextIs_of_opens (h : Opens us) {vs : List Token} (hused : tokens used = us ++ vs)
    (hp : p = .rightParen ∨ p = .rightBracket) (rest : List Lexeme) :
    nextIs p (used ++ rest) = false := by
  obtain ⟨t, us, rfl, hparen, hbracket⟩ := h
  obtain ⟨x, more, rfl, rfl, -⟩ := List.map_eq_cons_iff.mp hused
  rcases hp with rfl | rfl
  · simpa [nextIs] using hparen
  · simpa [nextIs] using hbracket

theorem moreArguments_yields {args : List Phrase} (h : ∀ p ∈ args, ReadsItem p) (hne : args ≠ [])
    (hused : tokens used = separated (args.map Phrase.tokens) ++ [.punct .rightParen])
    (stop fuel room : Nat) (seen : List Expr) (rest : List Lexeme) :
    Yields (moreArguments stop fuel room seen (used ++ rest))
      (.ok (seen.reverse ++ args.map Phrase.tree, rest)) := by
  induction args generalizing used seen fuel with
  | nil => exact absurd rfl hne
  | cons q args ih =>
    cases fuel with
    | zero =>
      rw [moreArguments]
      exact .deep _ _
    | succ fuel =>
      obtain ⟨hq, hargs⟩ := List.forall_mem_cons.mp h
      rw [moreArguments]
      cases args with
      | nil =>
        rw [List.map_singleton, separated_singleton] at hused
        obtain ⟨us, x, after, rfl, hus, hx, hafter⟩ := exists_of_tokens_eq hused
        obtain rfl := List.map_eq_nil_iff.mp hafter
        rw [List.append_assoc]
        refine (hq.reads.closed hus hx (by decide) stop fuel room rest).bind ?_
        simp only [nextIs_of_token hx]
        simp [Yields.refl]
      | cons q' args =>
        rw [List.map_cons, separated_cons q.tokens (by simp), List.append_assoc,
          List.cons_append] at hused
        obtain ⟨us, x, after, rfl, hus, hx, hafter⟩ := exists_of_tokens_eq hused
        rw [List.append_assoc]
        refine (hq.reads.closed hus hx (by decide) stop fuel room (after ++ rest)).bind ?_
        have hrest := ih hargs (by simp) hafter fuel (q.tree :: seen)
        simp only [nextIs_of_token hx]
        simpa using hrest

theorem arguments_yields {args : List Phrase} (h : ∀ p ∈ args, ReadsItem p)
    (hused : tokens used = argumentTokens args) (stop fuel room : Nat) (rest : List Lexeme) :
    Yields (arguments stop fuel room (used ++ rest)) (.ok (args.map Phrase.tree, rest)) := by
  cases fuel with
  | zero =>
    rw [arguments]
    exact .deep _ _
  | succ fuel =>
    obtain ⟨x, more, rfl, hx, hmore⟩ := List.map_eq_cons_iff.mp hused
    rw [List.cons_append, arguments, expect_of_token hx]
    cases args with
    | nil =>
      obtain ⟨y, rfl, hy⟩ := List.map_eq_singleton_iff.mp hmore
      refine Yields.bind (.refl _) ?_
      rw [List.singleton_append, nextIs_of_token hy]
      exact .refl _
    | cons q args =>
      obtain ⟨vs, hvs⟩ := exists_separated_cons q.tokens (args.map Phrase.tokens)
      have hfirst : tokens more = q.tokens ++ (vs ++ [.punct .rightParen]) := by
        rw [← List.append_assoc, ← hvs]
        exact hmore
      have hnext := nextIs_of_opens (h q List.mem_cons_self).opens hfirst (Or.inl rfl) rest
      refine Yields.bind (.refl _) ?_
      rw [hnext]
      exact moreArguments_yields h (by simp) hmore stop fuel room [] rest

theorem arrayItems_yields {items : List Phrase} (h : ∀ p ∈ items, ReadsItem p) {vs : List Token}
    (htrailing : Trailing items vs)
    (hused : tokens used = separated (items.map Phrase.tokens) ++ vs ++ [.punct .rightBracket])
    (stop fuel room : Nat) (seen : List Expr) (rest : List Lexeme) :
    Yields (arrayItems stop fuel room seen (used ++ rest))
      (.ok (seen.reverse ++ items.map Phrase.tree, rest)) := by
  induction items generalizing used seen fuel vs with
  | nil =>
    cases fuel with
    | zero =>
      rw [arrayItems]
      exact .deep _ _
    | succ fuel =>
      cases htrailing with
      | comma hne => exact absurd rfl hne
      | none =>
        obtain ⟨y, rfl, hy⟩ := List.map_eq_singleton_iff.mp hused
        rw [List.singleton_append, arrayItems, nextIs_of_token hy]
        simp [Yields.refl]
  | cons q items ih =>
    cases fuel with
    | zero =>
      rw [arrayItems]
      exact .deep _ _
    | succ fuel =>
      obtain ⟨hq, hitems⟩ := List.forall_mem_cons.mp h
      have hnext : nextIs .rightBracket (used ++ rest) = false := by
        obtain ⟨ws, hws⟩ := exists_separated_cons q.tokens (items.map Phrase.tokens)
        rw [List.map_cons, hws, List.append_assoc, List.append_assoc] at hused
        exact nextIs_of_opens hq.opens hused (Or.inr rfl) rest
      rw [arrayItems, hnext]
      rcases htrailing.uncons Phrase.tokens with ⟨rfl, rfl⟩ | ⟨us, htrailing, hsplit⟩
      · rw [List.map_singleton, separated_singleton, List.append_nil] at hused
        obtain ⟨us, x, after, rfl, hus, hx, hafter⟩ := exists_of_tokens_eq hused
        obtain rfl := List.map_eq_nil_iff.mp hafter
        rw [List.append_assoc]
        refine (hq.reads.closed hus hx (by decide) stop fuel room rest).bind ?_
        simp only [nextIs_of_token hx]
        simp [Yields.refl]
      · rw [hsplit, List.append_assoc, List.cons_append] at hused
        obtain ⟨us, x, after, rfl, hus, hx, hafter⟩ := exists_of_tokens_eq hused
        rw [List.append_assoc]
        refine (hq.reads.closed hus hx (by decide) stop fuel room (after ++ rest)).bind ?_
        have hrest := ih hitems htrailing hafter fuel (q.tree :: seen)
        simp only [nextIs_of_token hx]
        simpa using hrest

theorem objectKey?_of_isKey {t : Token} (h : IsKey t name) :
    objectKey? t = some name ∧ t ≠ .punct .rightBrace := by
  cases h <;> exact ⟨rfl, by rintro ⟨⟩⟩

/-- An entry is read up to the token that closes it. -/
theorem objectEntries_entry {q : Entry} (hkey : IsKey q.key q.name)
    (hq : ReadsLevel .assignment q.tokens q.tree) (hused : tokens used = q.written)
    (hx : x.token = .punct p) (hp : p ∈ closers) (stop fuel room : Nat) (seen : List (String × Expr))
    (rest : List Lexeme) {d : Except ParseError (List (String × Expr) × List Lexeme)}
    (h : Yields (if nextIs .comma (x :: rest) then
        objectEntries stop fuel room ((q.name, q.tree) :: seen) rest
      else if nextIs .rightBrace (x :: rest) then .ok (((q.name, q.tree) :: seen).reverse, rest)
      else .error (unexpected stop (x :: rest))) d) :
    Yields (objectEntries stop (fuel + 1) room seen (used ++ x :: rest)) d := by
  obtain ⟨hkey, hbrace⟩ := objectKey?_of_isKey hkey
  obtain ⟨k, others, rfl, hk, hothers⟩ := List.map_eq_cons_iff.mp hused
  obtain ⟨c, us, rfl, hc, hus⟩ := List.map_eq_cons_iff.mp hothers
  rw [List.cons_append, List.cons_append, objectEntries, if_neg (by rwa [hk]), hk, hkey]
  dsimp only
  rw [expect_of_token hc]
  exact Yields.bind (.refl _) ((hq.closed hus hx hp stop fuel room rest).bind h)

theorem objectEntries_yields {entries : List Entry} (hkeys : ∀ p ∈ entries, IsKey p.key p.name)
    (h : ∀ p ∈ entries, ReadsLevel .assignment p.tokens p.tree) {vs : List Token}
    (htrailing : Trailing entries vs)
    (hused : tokens used = separated (entries.map Entry.written) ++ vs ++ [.punct .rightBrace])
    (stop fuel room : Nat) (seen : List (String × Expr)) (rest : List Lexeme) :
    Yields (objectEntries stop fuel room seen (used ++ rest))
      (.ok (seen.reverse ++ entries.map (fun p => (p.name, p.tree)), rest)) := by
  induction entries generalizing used seen fuel vs with
  | nil =>
    cases fuel with
    | zero =>
      rw [objectEntries.eq_def]
      exact .deep _ _
    | succ fuel =>
      cases htrailing with
      | comma hne => exact absurd rfl hne
      | none =>
        obtain ⟨y, rfl, hy⟩ := List.map_eq_singleton_iff.mp hused
        rw [List.singleton_append, objectEntries, if_pos hy]
        simp [Yields.refl]
  | cons q entries ih =>
    cases fuel with
    | zero =>
      rw [objectEntries.eq_def]
      exact .deep _ _
    | succ fuel =>
      obtain ⟨hq, hentries⟩ := List.forall_mem_cons.mp h
      obtain ⟨hkey, hkeys⟩ := List.forall_mem_cons.mp hkeys
      rcases htrailing.uncons Entry.written with ⟨rfl, rfl⟩ | ⟨us, htrailing, hsplit⟩
      · rw [List.map_singleton, separated_singleton, List.append_nil] at hused
        obtain ⟨us, x, after, rfl, hus, hx, hafter⟩ := exists_of_tokens_eq hused
        obtain rfl := List.map_eq_nil_iff.mp hafter
        rw [List.append_assoc]
        refine objectEntries_entry hkey hq hus hx (by decide) stop fuel room seen rest ?_
        simp only [nextIs_of_token hx]
        simp [Yields.refl]
      · rw [hsplit, List.append_assoc, List.cons_append] at hused
        obtain ⟨us, x, after, rfl, hus, hx, hafter⟩ := exists_of_tokens_eq hused
        rw [List.append_assoc]
        refine objectEntries_entry hkey hq hus hx (by decide) stop fuel room seen (after ++ rest) ?_
        have hrest := ih hkeys hentries htrailing hafter fuel ((q.name, q.tree) :: seen)
        simp only [nextIs_of_token hx]
        simpa using hrest

/-! ### The productions -/

theorem literal_reads {t : Token} {v : Literal} (h : IsLiteral t v) :
    ReadsPrimary [t] (.literal v) := by
  intro used hused
  obtain ⟨x, rfl, rfl⟩ := List.map_eq_singleton_iff.mp hused
  have hliteral : literal? x.token = some v ∧ prefixOp? x.token = none := by
    generalize x.token = t at h
    cases h <;> exact ⟨rfl, rfl⟩
  refine ⟨x, [], rfl, hliteral.2, fun stop fuel room rest => ?_⟩
  cases fuel with
  | zero =>
    rw [primary]
    exact .deep _ _
  | succ fuel =>
    rw [primary, hliteral.1]
    exact .refl _

theorem identifier_reads (name : String) :
    ReadsPrimary [.identifier name] (.identifier name) := by
  intro used hused
  obtain ⟨x, rfl, hx⟩ := List.map_eq_singleton_iff.mp hused
  refine ⟨x, [], rfl, by rw [hx]; rfl, fun stop fuel room rest => ?_⟩
  cases fuel with
  | zero =>
    rw [primary]
    exact .deep _ _
  | succ fuel =>
    rw [primary, hx]
    exact .refl _

/-- The lexemes of tokens between brackets. -/
theorem exists_of_bracketed {left right : Punct} (h : tokens used = bracketed left us right) :
    ∃ x ts y, used = x :: (ts ++ [y]) ∧ x.token = .punct left ∧ tokens ts = us ∧
      y.token = .punct right := by
  obtain ⟨x, more, rfl, hx, hmore⟩ := List.map_eq_cons_iff.mp h
  obtain ⟨ts, y, after, rfl, hts, hy, hafter⟩ := exists_of_tokens_eq hmore
  obtain rfl := List.map_eq_nil_iff.mp hafter
  exact ⟨x, ts, y, rfl, hx, hts, hy⟩

theorem group_yields {y : Lexeme} (hx : x.token = .punct .leftParen)
    (hy : y.token = .punct .rightParen)
    (h : ∀ stop fuel room,
      Yields (expression stop fuel room .assignment (ts ++ y :: rest)) (.ok (e, y :: rest)))
    (stop fuel room : Nat) :
    Yields (primary stop fuel room x (ts ++ [y] ++ rest)) (.ok (e, rest)) := by
  rw [List.append_assoc, List.singleton_append]
  cases fuel with
  | zero =>
    rw [primary]
    exact .deep _ _
  | succ fuel =>
    rw [primary, hx]
    refine (h stop fuel room).bind ?_
    dsimp only
    rw [expect_of_token hy]
    exact .refl _

theorem group_reads (h : ReadsLevel .assignment us e) :
    ReadsPrimary (bracketed .leftParen us .rightParen) e := by
  intro used hused
  obtain ⟨x, ts, y, rfl, hx, hts, hy⟩ := exists_of_bracketed hused
  refine ⟨x, ts ++ [y], rfl, by rw [hx]; rfl, fun stop fuel room rest => ?_⟩
  exact group_yields hx hy (fun stop fuel room => h.closed hts hy (by decide) stop fuel room rest)
    stop fuel room

theorem array_reads {items : List Phrase} (h : ∀ p ∈ items, ReadsItem p) {vs : List Token}
    (htrailing : Trailing items vs) :
    ReadsPrimary (bracketed .leftBracket (separated (items.map Phrase.tokens) ++ vs) .rightBracket)
      (.array (items.map Phrase.tree)) := by
  intro used hused
  obtain ⟨x, more, rfl, hx, hmore⟩ := List.map_eq_cons_iff.mp hused
  refine ⟨x, more, rfl, by rw [hx]; rfl, fun stop fuel room rest => ?_⟩
  cases fuel with
  | zero =>
    rw [primary]
    exact .deep _ _
  | succ fuel =>
    rw [primary, hx]
    exact (arrayItems_yields h htrailing hmore stop fuel room [] rest).bind (.refl _)

theorem object_reads {entries : List Entry} (hkeys : ∀ p ∈ entries, IsKey p.key p.name)
    (h : ∀ p ∈ entries, ReadsLevel .assignment p.tokens p.tree) {vs : List Token}
    (htrailing : Trailing entries vs) :
    ReadsPrimary (bracketed .leftBrace (separated (entries.map Entry.written) ++ vs) .rightBrace)
      (.object (entries.map fun p => (p.name, p.tree))) := by
  intro used hused
  obtain ⟨x, more, rfl, hx, hmore⟩ := List.map_eq_cons_iff.mp hused
  refine ⟨x, more, rfl, by rw [hx]; rfl, fun stop fuel room rest => ?_⟩
  cases fuel with
  | zero =>
    rw [primary]
    exact .deep _ _
  | succ fuel =>
    rw [primary, hx]
    exact (objectEntries_yields hkeys h htrailing hmore stop fuel room [] rest).bind (.refl _)

/-! ### Suffixes -/

theorem propertyName?_of_isName {t : Token} (h : IsName t name) : propertyName? t = some name := by
  cases h <;> rfl

/-- At a suffix the parser reports nesting, unless there is fuel and room for the suffix. -/
theorem suffixes_step (hx : IsSuffix x.token) {e' : Expr}
    (h : ∀ fuel room, ∃ fuel' room', Yields (suffixes stop (fuel + 1) (room + 1) e (x :: ts))
      (suffixes stop fuel' room' e' rest)) (fuel room : Nat) :
    ∃ fuel' room', Yields (suffixes stop fuel room e (x :: ts))
      (suffixes stop fuel' room' e' rest) := by
  cases fuel with
  | zero =>
    rw [suffixes.eq_def]
    exact ⟨0, 0, .deep _ _⟩
  | succ fuel =>
    cases room with
    | zero =>
      rw [suffixes.eq_def]
      dsimp only
      rcases hx with hx | hx | hx
      all_goals
        rw [hx]
        exact ⟨0, 0, .deep _ _⟩
    | succ room => exact h fuel room

theorem member_reads {t : Token} (h : ReadsSuffixed us e) (hname : IsName t name) :
    ReadsSuffixed (us ++ [.punct .dot, t]) (.member e name) := by
  intro used hused stop fuel room rest hparen
  obtain ⟨ts, x, after, rfl, hts, hx, hafter⟩ := exists_of_tokens_eq hused
  obtain ⟨n, rfl, hn⟩ := List.map_eq_singleton_iff.mp hafter
  have hstep : ∀ fuel room, ∃ fuel' room',
      Yields (suffixes stop (fuel + 1) (room + 1) e (x :: n :: rest))
        (suffixes stop fuel' room' (.member e name) rest) := by
    intro fuel room
    rw [suffixes.eq_def]
    dsimp only
    rw [hx]
    dsimp only
    rw [hn, propertyName?_of_isName hname]
    dsimp only
    rw [hparen]
    exact ⟨fuel, room, .refl _⟩
  rw [List.append_assoc]
  obtain ⟨fuel₁, room₁, hoperand⟩ := h ts hts stop fuel room (x :: n :: rest) (nextIs_of_token hx _ _)
  obtain ⟨fuel₂, room₂, hsuffixes⟩ := suffixes_step (Or.inl hx) hstep fuel₁ room₁
  exact ⟨fuel₂, room₂, hoperand.trans hsuffixes⟩

theorem method_reads {t : Token} {args : List Phrase} (h : ReadsSuffixed us e) (hname : IsName t name)
    (hargs : ∀ p ∈ args, ReadsItem p) :
    ReadsSuffixed (us ++ .punct .dot :: t :: argumentTokens args)
      (.method e name (args.map Phrase.tree)) := by
  intro used hused stop fuel room rest _
  obtain ⟨ts, x, after, rfl, hts, hx, hafter⟩ := exists_of_tokens_eq hused
  obtain ⟨n, vs, rfl, hn, hvs⟩ := List.map_eq_cons_iff.mp hafter
  have hparen : nextIs .leftParen (vs ++ rest) = true := by
    obtain ⟨y, ws, rfl, hy, -⟩ := List.map_eq_cons_iff.mp hvs
    exact nextIs_of_token hy _ _
  have hstep : ∀ fuel room, ∃ fuel' room',
      Yields (suffixes stop (fuel + 1) (room + 1) e (x :: n :: (vs ++ rest)))
        (suffixes stop fuel' room' (.method e name (args.map Phrase.tree)) rest) := by
    intro fuel room
    rw [suffixes.eq_def]
    dsimp only
    rw [hx]
    dsimp only
    rw [hn, propertyName?_of_isName hname]
    dsimp only
    rw [hparen]
    exact ⟨fuel, room, (arguments_yields hargs hvs stop fuel room rest).bind (.refl _)⟩
  rw [List.append_assoc]
  obtain ⟨fuel₁, room₁, hoperand⟩ :=
    h ts hts stop fuel room (x :: n :: (vs ++ rest)) (nextIs_of_token hx _ _)
  obtain ⟨fuel₂, room₂, hsuffixes⟩ := suffixes_step (Or.inl hx) hstep fuel₁ room₁
  exact ⟨fuel₂, room₂, hoperand.trans hsuffixes⟩

theorem index_reads {vs : List Token} {i : Expr} (h : ReadsSuffixed us e)
    (hi : ReadsLevel .assignment vs i) :
    ReadsSuffixed (us ++ bracketed .leftBracket vs .rightBracket) (.index e i) := by
  intro used hused stop fuel room rest _
  obtain ⟨ts, others, rfl, hts, hothers⟩ := List.map_eq_append_iff.mp hused
  obtain ⟨x, inside, y, rfl, hx, hinside, hy⟩ := exists_of_bracketed hothers
  have hstep : ∀ fuel room, ∃ fuel' room',
      Yields (suffixes stop (fuel + 1) (room + 1) e (x :: (inside ++ y :: rest)))
        (suffixes stop fuel' room' (.index e i) rest) := by
    intro fuel room
    rw [suffixes.eq_def]
    dsimp only
    rw [hx]
    dsimp only
    refine ⟨fuel, room, (hi.closed hinside hy (by decide) stop fuel room rest).bind ?_⟩
    dsimp only
    rw [expect_of_token hy]
    exact .refl _
  rw [List.append_assoc, List.cons_append, List.append_assoc, List.singleton_append]
  obtain ⟨fuel₁, room₁, hoperand⟩ :=
    h ts hts stop fuel room (x :: (inside ++ y :: rest)) (nextIs_of_token hx _ _)
  obtain ⟨fuel₂, room₂, hsuffixes⟩ := suffixes_step (Or.inr (Or.inl hx)) hstep fuel₁ room₁
  exact ⟨fuel₂, room₂, hoperand.trans hsuffixes⟩

/-- An identifier in parentheses is read as the operand that it is, whatever follows. -/
theorem named_reads (h : Named us name) (hused : tokens used = us) (stop fuel room : Nat)
    (rest : List Lexeme) :
    ∃ fuel' room', Yields (operand stop fuel room (used ++ rest))
      (suffixes stop fuel' room' (.identifier name) rest) := by
  induction h generalizing used stop fuel room rest with
  | identifier name => exact (identifier_reads name).suffixed hused stop fuel room rest
  | @group us name _ ih =>
    refine ReadsPrimary.suffixed ?_ hused stop fuel room rest
    intro used hused
    obtain ⟨x, ts, y, rfl, hx, hts, hy⟩ := exists_of_bracketed hused
    refine ⟨x, ts ++ [y], rfl, by rw [hx]; rfl, fun stop fuel room rest => ?_⟩
    have hends : Ends 0 (y :: rest) := Ends.closing hy (by decide) rest
    have hoperand : ∀ stop fuel room,
        Yields (operand stop fuel room (ts ++ y :: rest)) (.ok (.identifier name, y :: rest)) := by
      intro stop fuel room
      obtain ⟨fuel', room', hyields⟩ := ih hts stop fuel room (y :: rest)
      exact hyields.trans (suffixes_stops hends stop fuel' room' _)
    have hstops : Stops .assignment (y :: rest) := Ends.stops hends
    refine group_yields hx hy (fun stop fuel room => ?_) stop fuel room
    obtain ⟨fuel', room', hyields⟩ := expression_of_operand hoperand stop fuel room .assignment
    exact hyields.trans (folds_stops hstops stop fuel' room' _)

theorem call_reads {args : List Phrase} (h : Named us name) (hargs : ∀ p ∈ args, ReadsItem p) :
    ReadsSuffixed (us ++ argumentTokens args) (.call name (args.map Phrase.tree)) := by
  intro used hused stop fuel room rest _
  obtain ⟨ts, others, rfl, hts, hothers⟩ := List.map_eq_append_iff.mp hused
  obtain ⟨x, ws, rfl, hx, -⟩ := List.map_eq_cons_iff.mp hothers
  have hstep : ∀ fuel room, ∃ fuel' room',
      Yields (suffixes stop (fuel + 1) (room + 1) (.identifier name) (x :: (ws ++ rest)))
        (suffixes stop fuel' room' (.call name (args.map Phrase.tree)) rest) := by
    intro fuel room
    rw [suffixes.eq_def]
    dsimp only
    rw [hx]
    exact ⟨fuel, room, (arguments_yields hargs hothers stop fuel room rest).bind (.refl _)⟩
  rw [List.append_assoc, List.cons_append]
  obtain ⟨fuel₁, room₁, hoperand⟩ := named_reads h hts stop fuel room (x :: (ws ++ rest))
  obtain ⟨fuel₂, room₂, hsuffixes⟩ := suffixes_step (Or.inr (Or.inr hx)) hstep fuel₁ room₁
  exact ⟨fuel₂, room₂, hoperand.trans hsuffixes⟩

/-! ### Operators -/

theorem unary_reads {op : UnaryOp} (hsign : (p, op) ∈ signs) (h : ReadsOperand us e) :
    ReadsOperand (.punct p :: us) (.unary op e) := by
  have hsigns : ∀ q ∈ signs, prefixOp? (.punct q.1) = some q.2 := by decide
  intro used hused stop fuel room n rest hends
  obtain ⟨x, ts, rfl, hx, hts⟩ := List.map_eq_cons_iff.mp hused
  cases fuel with
  | zero =>
    rw [operand.eq_def]
    exact .deep _ _
  | succ fuel =>
    rw [List.cons_append, operand.eq_def]
    dsimp only
    rw [hx, hsigns _ hsign]
    cases room with
    | zero => exact .deep _ _
    | succ room => exact (h ts hts stop fuel room n rest hends).bind (.refl _)

/-- At an operator the parser reports nesting, unless there is fuel and room to fold. -/
theorem folds_step {fold : Fold} (hx : foldAt? level x.token = some fold) {e' : Expr}
    (h : ∀ fuel room, ∃ fuel' room', Yields (folds stop (fuel + 1) (room + 1) level e (x :: ts))
      (folds stop fuel' room' level e' rest)) (fuel room : Nat) :
    ∃ fuel' room', Yields (folds stop fuel room level e (x :: ts))
      (folds stop fuel' room' level e' rest) := by
  cases fuel with
  | zero =>
    rw [folds.eq_def]
    exact ⟨0, 0, .deep _ _⟩
  | succ fuel =>
    cases room with
    | zero =>
      rw [folds_zero hx]
      exact ⟨0, 0, .deep _ _⟩
    | succ room => exact h fuel room

theorem foldAt?_of_operator? {t : Token} {fold : Fold} (h : operator? t = some (l, fold))
    (hle : level.rank ≤ l.rank) : foldAt? level t = some fold := by
  rw [foldAt?, h]
  exact if_pos hle

theorem binary_reads {vs : List Token} {make : Expr → Expr → Expr} {left right : Expr} {fold : Fold}
    (hoperator : operator? (.punct p) = some (l, fold)) (htree : fold.tree? = some (make, r))
    (hleft : ReadsLevel l us left) (hright : ReadsLevel r vs right) :
    ReadsLevel l (us ++ .punct p :: vs) (make left right) := by
  obtain ⟨-, -, -, -, hrank, hor⟩ := mem_operators hoperator htree
  intro used hused stop fuel room level rest hlevel hends
  rw [Level.bound_eq_rank hor] at hends
  obtain ⟨ts, x, after, rfl, hts, hx, hafter⟩ := exists_of_tokens_eq hused
  rw [← hx] at hoperator
  have hfold := foldAt?_of_operator? hoperator hlevel
  have hstep : ∀ fuel room, ∃ fuel' room',
      Yields (folds stop (fuel + 1) (room + 1) level left (x :: (after ++ rest)))
        (folds stop fuel' room' level (make left right) rest) := by
    intro fuel room
    rw [folds_tree hfold htree]
    have hends' : Ends (r.rank - 1) rest := hends.mono (by omega)
    exact ⟨fuel, room, (hright.done hafter hends' stop fuel room).bind (.refl _)⟩
  rw [List.append_assoc, List.cons_append]
  obtain ⟨fuel₁, room₁, hexpression⟩ := hleft ts hts stop fuel room level (x :: (after ++ rest)) hlevel
    (Ends.operator hoperator (Nat.le_of_eq (Level.bound_eq_rank hor).symm) _)
  obtain ⟨fuel₂, room₂, hfolds⟩ := folds_step hfold hstep fuel₁ room₁
  exact ⟨fuel₂, room₂, hexpression.trans hfolds⟩

/-- A phrase of a level is read as one of a looser level too. -/
theorem ReadsLevel.loosen (h : ReadsLevel r us e) (hrank : l.rank ≤ r.rank)
    (hbound : l.bound ≤ r.bound) :
    ReadsLevel l us e := by
  intro used hused stop fuel room level rest hlevel hends
  exact h used hused stop fuel room level rest (Nat.le_trans hlevel hrank) (hends.mono hbound)

theorem conditional_reads {vs ws : List Token} {c yes no : Expr} (hc : ReadsLevel .or us c)
    (hyes : ReadsLevel .assignment vs yes) (hno : ReadsLevel .conditional ws no) :
    ReadsLevel .conditional (us ++ .punct .question :: (vs ++ .punct .colon :: ws))
      (.conditional c yes no) := by
  intro used hused stop fuel room level rest hlevel hends
  obtain ⟨ts, x, after, rfl, hts, hx, hafter⟩ := exists_of_tokens_eq hused
  obtain ⟨inside, y, others, rfl, hinside, hy, hothers⟩ := exists_of_tokens_eq hafter
  have hoperator : operator? x.token = some (.conditional, .conditional) := by rw [hx]; rfl
  have hfold := foldAt?_of_operator? hoperator hlevel
  have hstep : ∀ fuel room, ∃ fuel' room',
      Yields (folds stop (fuel + 1) (room + 1) level c (x :: (inside ++ y :: (others ++ rest))))
        (folds stop fuel' room' level (.conditional c yes no) rest) := by
    intro fuel room
    rw [folds_conditional hfold]
    refine ⟨fuel, room, (hyes.closed hinside hy (by decide) stop fuel room _).bind ?_⟩
    dsimp only
    rw [expect_of_token hy]
    exact Yields.bind (.refl _) ((hno.done hothers hends stop fuel room).bind (.refl _))
  rw [List.append_assoc, List.cons_append, List.append_assoc, List.cons_append]
  obtain ⟨fuel₁, room₁, hexpression⟩ := hc ts hts stop fuel room level
    (x :: (inside ++ y :: (others ++ rest))) (Nat.le_trans hlevel (by decide))
    (Ends.operator hoperator (by decide) _)
  obtain ⟨fuel₂, room₂, hfolds⟩ := folds_step hfold hstep fuel₁ room₁
  exact ⟨fuel₂, room₂, hexpression.trans hfolds⟩

theorem assign_reads {vs : List Token} (h : Named us name) (he : ReadsLevel .assignment vs e) :
    ReadsLevel .assignment (us ++ .punct .assign :: vs) (.assign name e) := by
  intro used hused stop fuel room level rest hlevel hends
  obtain ⟨ts, x, after, rfl, hts, hx, hafter⟩ := exists_of_tokens_eq hused
  have hoperator : operator? x.token = some (.assignment, .assign) := by rw [hx]; rfl
  have hfold := foldAt?_of_operator? hoperator hlevel
  have hoperand : ∀ stop fuel room, Yields (operand stop fuel room (ts ++ x :: (after ++ rest)))
      (.ok (.identifier name, x :: (after ++ rest))) := by
    intro stop fuel room
    obtain ⟨fuel', room', hyields⟩ := named_reads h hts stop fuel room (x :: (after ++ rest))
    have hnext : Ends 1 (x :: (after ++ rest)) := Ends.operator hoperator (by decide) _
    exact hyields.trans (suffixes_stops hnext stop fuel' room' _)
  have hstep : ∀ fuel room, ∃ fuel' room',
      Yields (folds stop (fuel + 1) (room + 1) level (.identifier name) (x :: (after ++ rest)))
        (folds stop fuel' room' level (.assign name e) rest) := by
    intro fuel room
    rw [folds_assign hfold]
    exact ⟨fuel, room, (he.done hafter hends stop fuel room).bind (.refl _)⟩
  rw [List.append_assoc, List.cons_append]
  obtain ⟨fuel₁, room₁, hexpression⟩ := expression_of_operand hoperand stop fuel room level
  obtain ⟨fuel₂, room₂, hfolds⟩ := folds_step hfold hstep fuel₁ room₁
  exact ⟨fuel₂, room₂, hexpression.trans hfolds⟩

/-! ### All phrases -/

/-- The parser reads every phrase of the grammar. -/
theorem complete {s : Stratum} (h : Derives s us e) : Reads s us e := by
  induction h with
  | literal h => exact (literal_reads h).reads
  | identifier name => exact (identifier_reads name).reads
  | group _ ih => exact (group_reads (ih.level .assignment rfl)).reads
  | array h trailing ih =>
    refine (array_reads (fun p hp => ?_) trailing).reads
    exact ⟨(h p hp).opens, (ih p hp).level .assignment rfl⟩
  | object keys h trailing ih =>
    exact (object_reads keys (fun p hp => (ih p hp).level .assignment rfl) trailing).reads
  | primary _ ih =>
    exact ReadsSuffixed.reads fun used hused stop fuel room rest _ =>
      (ih.primary rfl).suffixed hused stop fuel room rest
  | member _ isName ih => exact (member_reads (ih.suffixed rfl) isName).reads
  | method _ isName hargs ih ihargs =>
    refine (method_reads (ih.suffixed rfl) isName fun p hp => ?_).reads
    exact ⟨(hargs p hp).opens, (ihargs p hp).level .assignment rfl⟩
  | index _ _ ih ihi => exact (index_reads (ih.suffixed rfl) (ihi.level .assignment rfl)).reads
  | call named hargs ihargs =>
    refine (call_reads named fun p hp => ?_).reads
    exact ⟨(hargs p hp).opens, (ihargs p hp).level .assignment rfl⟩
  | suffixed _ ih => exact (ih.suffixed rfl).operand.reads
  | unary sign _ ih => exact (unary_reads sign (ih.operand rfl)).reads
  | @tighter s _ _ binary _ ih =>
    obtain ⟨⟨p, make⟩, hmem⟩ := List.exists_mem_of_ne_nil _ binary
    obtain ⟨l, fold, r, hoperator, htree, rfl, htighter, hrank⟩ := operator?_of_mem hmem
    obtain ⟨-, -, -, -, -, hor⟩ := mem_operators hoperator htree
    have hbound : l.bound ≤ r.bound := by
      rw [Level.bound_eq_rank hor, Level.bound_eq_rank (by omega)]
      omega
    refine ((ih.level r htighter.symm).loosen (by omega) hbound).reads ?_
    rintro rfl
    exact binary rfl
  | binary operator _ _ ihl ihr =>
    obtain ⟨l, fold, r, hoperator, htree, rfl, htighter, -⟩ := operator?_of_mem operator
    refine (binary_reads hoperator htree (ihl.level l rfl) (ihr.level r htighter.symm)).reads ?_
    rintro rfl
    cases operator
  | or _ ih =>
    have hlevel : ReadsLevel .conditional _ _ := (ih.level .or rfl).loosen (by decide) (by decide)
    exact hlevel.reads (by decide)
  | conditional _ _ _ ihc ihyes ihno =>
    exact (conditional_reads (ihc.level .or rfl) (ihyes.level .assignment rfl)
      (ihno.level .conditional rfl)).reads (by decide)
  | expression _ ih =>
    have hlevel : ReadsLevel .assignment _ _ :=
      (ih.level .conditional rfl).loosen (by decide) (by decide)
    exact hlevel.reads (by decide)
  | assign named _ ih => exact (assign_reads named (ih.level .assignment rfl)).reads (by decide)

end TreeTemplate.Parser
