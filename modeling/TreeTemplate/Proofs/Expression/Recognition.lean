import TreeTemplate.Proofs.Expression.Completeness

/-!
The parser recognises the grammar.  With fuel and room for every token it never reports that the nesting is
too deep (`ampleAt`); so a source of few tokens is parsed if and only if the grammar derives a tree for it,
and the tree is the only one (`parse_recognizes`).
-/

namespace TreeTemplate

namespace Parser

open Grammar

variable {stop fuel room n : Nat} {level l : Level} {ts rest : List Lexeme} {e : Expr} {p : Punct}
  {x : Lexeme} {α β : Type}

def Shallow (r : Except ParseError α) : Prop :=
  ∀ offset, r ≠ .error (.nestingTooDeep offset)

namespace Shallow

theorem ok (a : α) : Shallow (.ok a) := by
  intro offset h
  cases h

theorem error {err : ParseError} (h : ∀ offset, err ≠ .nestingTooDeep offset) :
    Shallow (.error err : Except ParseError α) := by
  intro offset heq
  cases heq
  exact h offset rfl

theorem bind {a : Except ParseError α} {f : α → Except ParseError β} (h : Shallow a)
    (h' : ∀ v, a = .ok v → Shallow (f v)) : Shallow (a >>= f) := by
  cases a with
  | error err =>
    intro offset heq
    cases heq
    exact h offset rfl
  | ok v => exact h' v rfl

end Shallow

theorem unexpected_shallow (stop : Nat) (ts : List Lexeme) :
    Shallow (.error (unexpected stop ts) : Except ParseError α) := by
  apply Shallow.error
  intro offset
  cases ts <;> rintro ⟨⟩

theorem missing_shallow (stop : Nat) (what : String) (ts : List Lexeme) :
    Shallow (.error (missing stop what ts) : Except ParseError α) := by
  apply Shallow.error
  intro offset
  cases ts <;> rintro ⟨⟩

theorem expect_shallow (stop : Nat) (p : Punct) (ts : List Lexeme) : Shallow (expect stop p ts) := by
  cases ts with
  | nil => exact missing_shallow stop "" []
  | cons x ts =>
    rw [expect]
    split
    · exact .ok ts
    · exact missing_shallow _ _ _

/-! ### How much is left -/

theorem length_of_expect (h : expect stop p ts = .ok rest) : rest.length < ts.length := by
  obtain ⟨x, rfl, -⟩ := expect_eq_ok h
  exact Nat.lt_succ_self _

theorem length_of_nextIs (h : nextIs p ts = true) : (ts.drop 1).length < ts.length := by
  obtain ⟨x, hts, -⟩ := nextIs_eq_true h
  rw [hts]
  exact Nat.lt_succ_self _

theorem length_lt_append_of_tokens {used : List Lexeme} {t : Token} {us : List Token}
    (h : tokens used = t :: us) (rest : List Lexeme) : rest.length < (used ++ rest).length := by
  obtain ⟨x, more, rfl, -⟩ := List.map_eq_cons_iff.mp h
  rw [List.length_append, List.length_cons]
  omega

theorem length_of_expression (h : expression stop fuel room level ts = .ok (e, rest)) :
    rest.length < ts.length := by
  obtain ⟨used, rfl, hderives, -⟩ := (soundAt stop fuel).expression h
  obtain ⟨t, us, hused, -⟩ := hderives.opens
  exact length_lt_append_of_tokens hused rest

theorem length_of_operand (h : operand stop fuel room ts = .ok (e, rest)) :
    rest.length < ts.length := by
  obtain ⟨used, rfl, hderives⟩ := (soundAt stop fuel).operand h
  obtain ⟨t, us, hused, -⟩ := hderives.opens
  exact length_lt_append_of_tokens hused rest

theorem length_of_primary (h : primary stop fuel room x ts = .ok (e, rest)) :
    rest.length ≤ ts.length := by
  obtain ⟨used, rfl, -⟩ := (soundAt stop fuel).primary h
  simp

theorem length_of_arguments {es : List Expr} (h : arguments stop fuel room ts = .ok (es, rest)) :
    rest.length < ts.length := by
  obtain ⟨used, args, rfl, hused, -⟩ := (soundAt stop fuel).arguments h
  exact length_lt_append_of_tokens hused rest

/-- With this fuel, if it is enough, and room for each token, nothing reports nesting. -/
structure AmpleAt (stop fuel : Nat) : Prop where
  expression : ∀ {room level ts}, 8 * ts.length + 4 ≤ fuel → ts.length + 1 ≤ room →
    Shallow (expression stop fuel room level ts)
  folds : ∀ {room level left ts}, 8 * ts.length + 1 ≤ fuel → ts.length + 1 ≤ room →
    Shallow (folds stop fuel room level left ts)
  operand : ∀ {room ts}, 8 * ts.length + 3 ≤ fuel → ts.length ≤ room →
    Shallow (operand stop fuel room ts)
  primary : ∀ {room x ts}, 8 * ts.length + 10 ≤ fuel → ts.length + 1 ≤ room →
    Shallow (primary stop fuel room x ts)
  suffixes : ∀ {room left ts}, 8 * ts.length + 2 ≤ fuel → ts.length + 1 ≤ room →
    Shallow (suffixes stop fuel room left ts)
  arguments : ∀ {room ts}, 8 * ts.length + 1 ≤ fuel → ts.length ≤ room →
    Shallow (arguments stop fuel room ts)
  moreArguments : ∀ {room seen ts}, 8 * ts.length + 5 ≤ fuel → ts.length + 1 ≤ room →
    Shallow (moreArguments stop fuel room seen ts)
  arrayItems : ∀ {room seen ts}, 8 * ts.length + 5 ≤ fuel → ts.length + 1 ≤ room →
    Shallow (arrayItems stop fuel room seen ts)
  objectEntries : ∀ {room seen ts}, 8 * ts.length + 5 ≤ fuel → ts.length + 1 ≤ room →
    Shallow (objectEntries stop fuel room seen ts)

namespace AmpleAt

variable (ih : AmpleAt stop fuel)

include ih

theorem expression_succ (hfuel : 8 * ts.length + 4 ≤ fuel + 1) (hroom : ts.length + 1 ≤ room) :
    Shallow (Parser.expression stop (fuel + 1) room level ts) := by
  obtain ⟨room, rfl⟩ := Nat.exists_eq_add_of_le' (Nat.le_of_add_left_le hroom)
  rw [Parser.expression]
  refine (ih.operand (by omega) (by omega)).bind ?_
  rintro ⟨left, ts'⟩ hleft
  have hlength := length_of_operand hleft
  exact ih.folds (by omega) (by omega)

theorem folds_succ {left : Expr} (hfuel : 8 * ts.length + 1 ≤ fuel + 1)
    (hroom : ts.length + 1 ≤ room) : Shallow (Parser.folds stop (fuel + 1) room level left ts) := by
  cases ts with
  | nil =>
    rw [Parser.folds]
    exact .ok _
  | cons x more =>
    obtain ⟨room, rfl⟩ := Nat.exists_eq_add_of_le' (Nat.le_of_add_left_le hroom)
    rw [List.length_cons] at hfuel hroom
    cases hfold : foldAt? level x.token with
    | none =>
      rw [folds_stop hfold]
      exact .ok _
    | some fold =>
      cases htree : fold.tree? with
      | some tree =>
        rw [folds_tree hfold htree]
        refine (ih.expression (by omega) (by omega)).bind ?_
        rintro ⟨right, ts'⟩ hright
        have hlength := length_of_expression hright
        exact ih.folds (by omega) (by omega)
      | none =>
        cases fold with
        | binary _ _ | lazy _ _ => cases htree
        | assign =>
          rw [folds_assign hfold]
          split
          · refine (ih.expression (by omega) (by omega)).bind ?_
            rintro ⟨value, ts'⟩ hvalue
            have hlength := length_of_expression hvalue
            exact ih.folds (by omega) (by omega)
          · apply Shallow.error
            rintro offset ⟨⟩
        | conditional =>
          rw [folds_conditional hfold]
          refine (ih.expression (by omega) (by omega)).bind ?_
          rintro ⟨yes, ts₁⟩ hyes
          have hlength₁ := length_of_expression hyes
          refine (expect_shallow stop .colon ts₁).bind ?_
          intro ts₂ hcolon
          have hlength₂ := length_of_expect hcolon
          refine (ih.expression (by omega) (by omega)).bind ?_
          rintro ⟨no, ts₃⟩ hno
          have hlength₃ := length_of_expression hno
          exact ih.folds (by omega) (by omega)

theorem operand_succ (hfuel : 8 * ts.length + 3 ≤ fuel + 1) (hroom : ts.length ≤ room) :
    Shallow (Parser.operand stop (fuel + 1) room ts) := by
  cases ts with
  | nil =>
    rw [Parser.operand]
    apply Shallow.error
    rintro offset ⟨⟩
  | cons x more =>
    rw [List.length_cons] at hfuel hroom
    rw [Parser.operand.eq_def]
    dsimp only
    split
    · omega
    · refine (ih.operand (by omega) (by omega)).bind ?_
      rintro ⟨e, ts'⟩ -
      exact .ok _
    · refine (ih.primary (by omega) (by omega)).bind ?_
      rintro ⟨e, ts'⟩ hprimary
      have hlength := length_of_primary hprimary
      dsimp only
      exact ih.suffixes (by omega) (by omega)

theorem primary_succ (hfuel : 8 * ts.length + 10 ≤ fuel + 1) (hroom : ts.length + 1 ≤ room) :
    Shallow (Parser.primary stop (fuel + 1) room x ts) := by
  rw [Parser.primary]
  split
  · exact .ok _
  · split
    · exact .ok _
    · refine (ih.expression (by omega) (by omega)).bind ?_
      rintro ⟨e, ts'⟩ -
      refine (expect_shallow stop .rightParen ts').bind ?_
      intro us _
      exact .ok _
    · refine (ih.arrayItems (by omega) (by omega)).bind ?_
      rintro ⟨es, ts'⟩ -
      exact .ok _
    · refine (ih.objectEntries (by omega) (by omega)).bind ?_
      rintro ⟨es, ts'⟩ -
      exact .ok _
    · apply Shallow.error
      rintro offset ⟨⟩

theorem suffixes_succ {left : Expr} (hfuel : 8 * ts.length + 2 ≤ fuel + 1)
    (hroom : ts.length + 1 ≤ room) : Shallow (Parser.suffixes stop (fuel + 1) room left ts) := by
  cases ts with
  | nil =>
    rw [Parser.suffixes]
    exact .ok _
  | cons x more =>
    obtain ⟨room, rfl⟩ := Nat.exists_eq_add_of_le' (Nat.le_of_add_left_le hroom)
    rw [List.length_cons] at hfuel hroom
    rw [Parser.suffixes.eq_def]
    dsimp only
    split
    · omega
    · omega
    · omega
    · split
      · apply Shallow.error
        rintro offset ⟨⟩
      · next n ts =>
        rw [List.length_cons] at hfuel hroom
        split
        · exact missing_shallow _ _ _
        · split
          · refine (ih.arguments (by omega) (by omega)).bind ?_
            rintro ⟨es, ts'⟩ harguments
            have hlength := length_of_arguments harguments
            dsimp only
            exact ih.suffixes (by omega) (by omega)
          · exact ih.suffixes (by omega) (by omega)
    · refine (ih.expression (by omega) (by omega)).bind ?_
      rintro ⟨i, ts₁⟩ hindex
      have hlength₁ := length_of_expression hindex
      refine (expect_shallow stop .rightBracket ts₁).bind ?_
      intro ts₂ hclose
      have hlength₂ := length_of_expect hclose
      exact ih.suffixes (by omega) (by omega)
    · next room hparen _ =>
      split
      · have hall : 8 * (x :: more).length + 1 ≤ fuel ∧ (x :: more).length ≤ room := by
          rw [List.length_cons]
          omega
        refine (ih.arguments hall.1 hall.2).bind ?_
        rintro ⟨es, ts'⟩ harguments
        have hlength := length_of_arguments harguments
        rw [List.length_cons] at hlength
        dsimp only
        exact ih.suffixes (by omega) (by omega)
      · apply Shallow.error
        rintro offset ⟨⟩
    · exact .ok _

theorem arguments_succ (hfuel : 8 * ts.length + 1 ≤ fuel + 1) (hroom : ts.length ≤ room) :
    Shallow (Parser.arguments stop (fuel + 1) room ts) := by
  rw [Parser.arguments]
  refine (expect_shallow stop .leftParen ts).bind ?_
  intro us hopen
  have hlength := length_of_expect hopen
  split
  · exact .ok _
  · exact ih.moreArguments (by omega) (by omega)

theorem moreArguments_succ {seen : List Expr} (hfuel : 8 * ts.length + 5 ≤ fuel + 1)
    (hroom : ts.length + 1 ≤ room) :
    Shallow (Parser.moreArguments stop (fuel + 1) room seen ts) := by
  rw [Parser.moreArguments]
  refine (ih.expression (by omega) (by omega)).bind ?_
  rintro ⟨e, us⟩ hexpression
  have hlength := length_of_expression hexpression
  dsimp only
  split
  · next hnext =>
    have hdrop := length_of_nextIs hnext
    exact ih.moreArguments (by omega) (by omega)
  · split
    · exact .ok _
    · exact unexpected_shallow _ _

theorem arrayItems_succ {seen : List Expr} (hfuel : 8 * ts.length + 5 ≤ fuel + 1)
    (hroom : ts.length + 1 ≤ room) : Shallow (Parser.arrayItems stop (fuel + 1) room seen ts) := by
  rw [Parser.arrayItems]
  split
  · exact .ok _
  · refine (ih.expression (by omega) (by omega)).bind ?_
    rintro ⟨e, us⟩ hexpression
    have hlength := length_of_expression hexpression
    dsimp only
    split
    · next hnext =>
      have hdrop := length_of_nextIs hnext
      exact ih.arrayItems (by omega) (by omega)
    · split
      · exact .ok _
      · exact unexpected_shallow _ _

theorem objectEntries_succ {seen : List (String × Expr)} (hfuel : 8 * ts.length + 5 ≤ fuel + 1)
    (hroom : ts.length + 1 ≤ room) :
    Shallow (Parser.objectEntries stop (fuel + 1) room seen ts) := by
  cases ts with
  | nil =>
    rw [Parser.objectEntries]
    apply Shallow.error
    rintro offset ⟨⟩
  | cons x more =>
    rw [List.length_cons] at hfuel hroom
    rw [Parser.objectEntries]
    split
    · exact .ok _
    · split
      · exact missing_shallow _ _ _
      · refine (expect_shallow stop .colon more).bind ?_
        intro ts' hcolon
        have hlength := length_of_expect hcolon
        refine (ih.expression (by omega) (by omega)).bind ?_
        rintro ⟨e, us⟩ hexpression
        have hlength' := length_of_expression hexpression
        dsimp only
        split
        · next hnext =>
          have hdrop := length_of_nextIs hnext
          exact ih.objectEntries (by omega) (by omega)
        · split
          · exact .ok _
          · exact unexpected_shallow _ _

end AmpleAt

/-- With fuel and room for every token nothing reports nesting. -/
theorem ampleAt (stop fuel : Nat) : AmpleAt stop fuel := by
  induction fuel with
  | zero =>
    constructor
    all_goals
      intros
      omega
  | succ fuel ih =>
    constructor
    · exact ih.expression_succ
    · exact ih.folds_succ
    · exact ih.operand_succ
    · exact ih.primary_succ
    · exact ih.suffixes_succ
    · exact ih.arguments_succ
    · exact ih.moreArguments_succ
    · exact ih.arrayItems_succ
    · exact ih.objectEntries_succ

/-! ### Whole sources -/

/-- For a tree of the grammar the parser accepts the tokens with this tree, or it reports nesting. -/
theorem parseTokens_of_derives (stop : Nat) (h : Derives .expression (tokens ts) e) :
    Yields (parseTokens stop ts) (.ok e) := by
  have hne : ts.isEmpty = false := by
    obtain ⟨t, us, hts, -⟩ := h.opens
    obtain ⟨x, more, rfl, -⟩ := List.map_eq_cons_iff.mp hts
    rfl
  have hlevel : ReadsLevel .assignment (tokens ts) e := (complete h).level .assignment rfl
  have hyields := hlevel.done rfl Ends.nil stop (enough ts) nestingLimit
  rw [List.append_nil] at hyields
  rw [parseTokens, hne]
  rcases hyields with hok | ⟨offset, hdeep⟩
  · rw [hok]
    exact .refl _
  · rw [hdeep]
    exact .deep offset _

/-- The tree of accepted tokens is in the grammar. -/
theorem derives_of_parseTokens (h : parseTokens stop ts = .ok e) :
    Derives .expression (tokens ts) e := by
  unfold parseTokens at h
  split at h
  · cases h
  · split at h
    · next e' hexpression =>
      cases h
      obtain ⟨used, rfl, hderives, -⟩ := (soundAt _ _).expression hexpression
      rwa [List.append_nil]
    · cases h
    · cases h

/-- Nesting is reported only for many tokens. -/
theorem length_of_parseTokens {offset : Nat}
    (h : parseTokens stop ts = .error (.nestingTooDeep offset)) : nestingLimit ≤ ts.length := by
  apply Nat.le_of_not_lt
  intro hfew
  have hshallow : Shallow (expression stop (enough ts) nestingLimit .assignment ts) :=
    (ampleAt stop _).expression (by rw [enough]; omega) (by omega)
  unfold parseTokens at h
  split at h
  · cases h
  · split at h
    · cases h
    · exact unexpected_shallow stop _ offset h
    · next err hexpression =>
      cases h
      exact hshallow offset hexpression

end Parser

/-- What the grammar derives for fewer tokens than may nest is what the parser gives. -/
theorem parse_of_derives {source : String} {stop : Nat} {ts : List Token} {e : Expr}
    (hstop : (Lexer.lex source).outcome = .ok stop)
    (htokens : Parser.tokens (Lexer.lex source).tokens = ts) (hshort : ts.length < nestingLimit)
    (h : Grammar.Derives .expression ts e) : parse source = .ok e := by
  rw [parse, hstop]
  subst htokens
  rcases Parser.parseTokens_of_derives stop h with hok | ⟨offset, hdeep⟩
  · exact hok
  · have hlong := Parser.length_of_parseTokens hdeep
    rw [Parser.tokens, List.length_map] at hshort
    omega

/-- The parser recognises the grammar.  For a source that is cut into tokens, the tree that it gives is the
only one that the grammar derives for all of the tokens; an error means that there is none, unless the
nesting is too deep, which takes at least `nestingLimit` tokens. -/
theorem parse_recognizes {source : String} {stop : Nat}
    (h : (Lexer.lex source).outcome = .ok stop) :
    (∀ e, parse source = .ok e →
      Grammar.Derives .expression (Parser.tokens (Lexer.lex source).tokens) e ∧
        ∀ e', Grammar.Derives .expression (Parser.tokens (Lexer.lex source).tokens) e' → e' = e) ∧
    (∀ offset, parse source = .error (.nestingTooDeep offset) →
      nestingLimit ≤ (Lexer.lex source).tokens.length) ∧
    ∀ err, parse source = .error err → (∀ offset, err ≠ .nestingTooDeep offset) →
      ∀ e, ¬ Grammar.Derives .expression (Parser.tokens (Lexer.lex source).tokens) e := by
  have hparse : parse source = Parser.parseTokens stop (Lexer.lex source).tokens := by
    rw [parse, h]
  rw [hparse]
  refine ⟨fun e hok => ⟨Parser.derives_of_parseTokens hok, fun e' hderives => ?_⟩,
    fun offset hdeep => Parser.length_of_parseTokens hdeep, fun err herr hother e hderives => ?_⟩
  · rcases Parser.parseTokens_of_derives stop hderives with hok' | ⟨offset, hdeep⟩
    · rw [hok'] at hok
      exact Except.ok.inj hok
    · rw [hdeep] at hok
      cases hok
  · rcases Parser.parseTokens_of_derives stop hderives with hok | ⟨offset, hdeep⟩
    · rw [hok] at herr
      cases herr
    · rw [hdeep] at herr
      cases herr
      exact hother offset rfl

/-- The left operand of a sum is the nearer one. -/
theorem parse_recognizes_sum :
    (Lexer.lex "a - b + c").outcome = .ok 9 ∧
      ∀ e, Grammar.Derives .expression (Parser.tokens (Lexer.lex "a - b + c").tokens) e →
        e = .binary .add (.binary .subtract (.identifier "a") (.identifier "b")) (.identifier "c") := by
  have hlex : (Lexer.lex "a - b + c").outcome = .ok 9 := by with_unfolding_all rfl
  obtain ⟨haccepts, -⟩ := parse_recognizes hlex
  exact ⟨hlex, (haccepts _ (by with_unfolding_all rfl)).2⟩

end TreeTemplate
