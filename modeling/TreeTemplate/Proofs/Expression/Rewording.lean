import TreeTemplate.Proofs.Expression.Soundness

/-!
What the places of tokens and the texts of string literals do.  Neither steers the parser: from tokens that
stand elsewhere, and whose string literals have other texts, it reads the same expression with these texts,
or fails as well (`agreesAt`).  So a text that is cut into the tokens of an expression, string literals
reworded, spells this expression with its strings reworded (`parse_of_tokens`).

The texts are handed out in order, one to each literal: whatever reads a part of the tokens takes the pairs
at the front of a list, and the pairs behind them are left to what is read next.
-/

namespace TreeTemplate

/-- The texts of string literals in order, each with the one that takes its place. -/
abbrev Rewordings :=
  List (String × String)

/-- Neither a string literal nor an object key with a bar in it. -/
structure Token.Bare (t : Token) : Prop where
  ne_string : ∀ s, t ≠ .string s
  unbarred : ∀ key, Parser.objectKey? t = some key → '|' ∉ key.toList

/-- The same tokens, but for their string literals, which are the pairs `ps`. -/
inductive Token.Reworded : Rewordings → List Token → List Token → Prop
  | nil : Reworded [] [] []
  | string (s s' : String) {ps : Rewordings} {ts us : List Token} (h : Reworded ps ts us) :
    Reworded ((s, s') :: ps) (.string s :: ts) (.string s' :: us)
  | other {t : Token} (ht : t.Bare) {ps : Rewordings} {ts us : List Token} (h : Reworded ps ts us) :
    Reworded ps (t :: ts) (t :: us)

mutual

/-- The same expression, but for its string literals and quoted object keys: these are the pairs of `ps` that
stand before `qs`. -/
inductive Expr.Reworded : Rewordings → Rewordings → Expr → Expr → Prop
  | string (s s' : String) (ps : Rewordings) :
    Reworded ((s, s') :: ps) ps (.literal (.string s)) (.literal (.string s'))
  | literal {v : Literal} (h : ∀ s, v ≠ .string s) (ps : Rewordings) :
    Reworded ps ps (.literal v) (.literal v)
  | identifier (name : String) (ps : Rewordings) :
    Reworded ps ps (.identifier name) (.identifier name)
  | member {ps qs : Rewordings} {e e' : Expr} (h : Reworded ps qs e e') (name : String) :
    Reworded ps qs (.member e name) (.member e' name)
  | index {ps qs rs : Rewordings} {e e' i i' : Expr} (h : Reworded ps qs e e')
    (hi : Reworded qs rs i i') : Reworded ps rs (.index e i) (.index e' i')
  | call {ps qs : Rewordings} (name : String) {args args' : List Expr}
    (h : RewordedAll ps qs args args') : Reworded ps qs (.call name args) (.call name args')
  | method {ps qs rs : Rewordings} {e e' : Expr} (h : Reworded ps qs e e') (name : String)
    {args args' : List Expr} (hargs : RewordedAll qs rs args args') :
    Reworded ps rs (.method e name args) (.method e' name args')
  | unary {ps qs : Rewordings} (op : UnaryOp) {e e' : Expr} (h : Reworded ps qs e e') :
    Reworded ps qs (.unary op e) (.unary op e')
  | binary {ps qs rs : Rewordings} (op : BinaryOp) {l l' r r' : Expr} (hl : Reworded ps qs l l')
    (hr : Reworded qs rs r r') : Reworded ps rs (.binary op l r) (.binary op l' r')
  | lazy {ps qs rs : Rewordings} (op : LazyOp) {l l' r r' : Expr} (hl : Reworded ps qs l l')
    (hr : Reworded qs rs r r') : Reworded ps rs (.lazy op l r) (.lazy op l' r')
  | conditional {ps qs rs os : Rewordings} {c c' y y' n n' : Expr} (hc : Reworded ps qs c c')
    (hy : Reworded qs rs y y') (hn : Reworded rs os n n') :
    Reworded ps os (.conditional c y n) (.conditional c' y' n')
  | array {ps qs : Rewordings} {items items' : List Expr} (h : RewordedAll ps qs items items') :
    Reworded ps qs (.array items) (.array items')
  | object {ps qs : Rewordings} {entries entries' : List (String × Expr)}
    (h : RewordedEntries ps qs entries entries') : Reworded ps qs (.object entries) (.object entries')
  | assign {ps qs : Rewordings} (name : String) {e e' : Expr} (h : Reworded ps qs e e') :
    Reworded ps qs (.assign name e) (.assign name e')

/-- Lists of the same expressions, reworded one after the other. -/
inductive Expr.RewordedAll : Rewordings → Rewordings → List Expr → List Expr → Prop
  | nil (ps : Rewordings) : RewordedAll ps ps [] []
  | cons {ps qs rs : Rewordings} {e e' : Expr} {es es' : List Expr} (h : Reworded ps qs e e')
    (hrest : RewordedAll qs rs es es') : RewordedAll ps rs (e :: es) (e' :: es')

/-- Entries of objects.  A key that stays as it is has no bar in it; any other was quoted and is reworded. -/
inductive Expr.RewordedEntries :
    Rewordings → Rewordings → List (String × Expr) → List (String × Expr) → Prop
  | nil (ps : Rewordings) : RewordedEntries ps ps [] []
  | bare {ps qs rs : Rewordings} {key : String} {e e' : Expr} {entries entries' : List (String × Expr)}
    (hkey : '|' ∉ key.toList) (h : Reworded ps qs e e') (hrest : RewordedEntries qs rs entries entries') :
    RewordedEntries ps rs ((key, e) :: entries) ((key, e') :: entries')
  | quoted {ps qs rs : Rewordings} (key key' : String) {e e' : Expr}
    {entries entries' : List (String × Expr)} (h : Reworded ps qs e e')
    (hrest : RewordedEntries qs rs entries entries') :
    RewordedEntries ((key, key') :: ps) rs ((key, e) :: entries) ((key', e') :: entries')

end

namespace Expr

theorem RewordedAll.append {ps qs rs : Rewordings} {es es' more more' : List Expr} :
    RewordedAll ps qs es es' → RewordedAll qs rs more more' →
      RewordedAll ps rs (es ++ more) (es' ++ more')
  | .nil _, hmore => hmore
  | .cons h hrest, hmore => .cons h (hrest.append hmore)

theorem RewordedEntries.append {ps qs rs : Rewordings}
    {entries entries' more more' : List (String × Expr)} :
    RewordedEntries ps qs entries entries' → RewordedEntries qs rs more more' →
      RewordedEntries ps rs (entries ++ more) (entries' ++ more')
  | .nil _, hmore => hmore
  | .bare hkey h hrest, hmore => .bare hkey h (hrest.append hmore)
  | .quoted key key' h hrest, hmore => .quoted key key' h (hrest.append hmore)

/-- Every string literal keeps its text. -/
def Kept (ps : Rewordings) : Prop :=
  ∀ p ∈ ps, p.1 = p.2

mutual

theorem Reworded.eq_of_kept {ps qs : Rewordings} {e e' : Expr} :
    Reworded ps qs e e' → Kept ps → e = e' ∧ Kept qs
  | .string s s' ps, hkept => by
    obtain ⟨hs, hps⟩ := List.forall_mem_cons.mp hkept
    obtain rfl : s = s' := hs
    exact ⟨rfl, hps⟩
  | .literal _ _, hkept | .identifier _ _, hkept => ⟨rfl, hkept⟩
  | .member h _, hkept | .unary _ h, hkept | .assign _ h, hkept | .call _ h, hkept | .array h, hkept
  | .object h, hkept => by
    obtain ⟨rfl, hkept⟩ := h.eq_of_kept hkept
    exact ⟨rfl, hkept⟩
  | .index hl hr, hkept | .method hl _ hr, hkept | .binary _ hl hr, hkept | .lazy _ hl hr, hkept => by
    obtain ⟨rfl, hkept⟩ := hl.eq_of_kept hkept
    obtain ⟨rfl, hkept⟩ := hr.eq_of_kept hkept
    exact ⟨rfl, hkept⟩
  | .conditional hc hy hn, hkept => by
    obtain ⟨rfl, hkept⟩ := hc.eq_of_kept hkept
    obtain ⟨rfl, hkept⟩ := hy.eq_of_kept hkept
    obtain ⟨rfl, hkept⟩ := hn.eq_of_kept hkept
    exact ⟨rfl, hkept⟩

theorem RewordedAll.eq_of_kept {ps qs : Rewordings} {es es' : List Expr} :
    RewordedAll ps qs es es' → Kept ps → es = es' ∧ Kept qs
  | .nil _, hkept => ⟨rfl, hkept⟩
  | .cons h hrest, hkept => by
    obtain ⟨rfl, hkept⟩ := h.eq_of_kept hkept
    obtain ⟨rfl, hkept⟩ := hrest.eq_of_kept hkept
    exact ⟨rfl, hkept⟩

theorem RewordedEntries.eq_of_kept {ps qs : Rewordings} {entries entries' : List (String × Expr)} :
    RewordedEntries ps qs entries entries' → Kept ps → entries = entries' ∧ Kept qs
  | .nil _, hkept => ⟨rfl, hkept⟩
  | .bare _ h hrest, hkept => by
    obtain ⟨rfl, hkept⟩ := h.eq_of_kept hkept
    obtain ⟨rfl, hkept⟩ := hrest.eq_of_kept hkept
    exact ⟨rfl, hkept⟩
  | .quoted key key' h hrest, hkept => by
    obtain ⟨hsame, hps⟩ := List.forall_mem_cons.mp hkept
    obtain rfl : key = key' := hsame
    obtain ⟨rfl, hkept⟩ := h.eq_of_kept hps
    obtain ⟨rfl, hkept⟩ := hrest.eq_of_kept hkept
    exact ⟨rfl, hkept⟩

end

/-- The same pairs, those aside whose texts have no bars and are kept. -/
structure Matched (ps ps' : Rewordings) : Prop where
  left : ∀ p ∈ ps, '|' ∉ p.1.toList → p.1 = p.2
  right : ∀ p ∈ ps', '|' ∉ p.1.toList → p.1 = p.2
  barred : ps.filter (fun p => '|' ∈ p.1.toList) = ps'.filter (fun p => '|' ∈ p.1.toList)

namespace Matched

variable {ps ps' : Rewordings} {s s₁ s₂ : String}

theorem symm (h : Matched ps ps') : Matched ps' ps :=
  ⟨h.right, h.left, h.barred.symm⟩

theorem of_cons_left (h : Matched ((s, s₁) :: ps) ps') (hs : '|' ∉ s.toList) : s = s₁ ∧ Matched ps ps' := by
  obtain ⟨hkept, hleft⟩ := List.forall_mem_cons.mp h.left
  refine ⟨hkept hs, hleft, h.right, ?_⟩
  rw [← h.barred, List.filter_cons_of_neg (by simpa using hs)]

theorem of_cons (h : Matched ((s, s₁) :: ps) ((s, s₂) :: ps')) : s₁ = s₂ ∧ Matched ps ps' := by
  by_cases hs : '|' ∈ s.toList
  · have hbarred := h.barred
    rw [List.filter_cons_of_pos (by simpa using hs), List.filter_cons_of_pos (by simpa using hs),
      List.cons.injEq, Prod.mk.injEq] at hbarred
    exact ⟨hbarred.1.2, (List.forall_mem_cons.mp h.left).2, (List.forall_mem_cons.mp h.right).2, hbarred.2⟩
  · obtain ⟨rfl, hleft⟩ := h.of_cons_left hs
    obtain ⟨rfl, hright⟩ := hleft.symm.of_cons_left hs
    exact ⟨rfl, hright.symm⟩

end Matched

mutual

/-- There is one way only to put texts in place of others. -/
theorem Reworded.unique {ps ps' qs qs' : Rewordings} {e e₁ e₂ : Expr} :
    Reworded ps qs e e₁ → Reworded ps' qs' e e₂ → Matched ps ps' → e₁ = e₂ ∧ Matched qs qs'
  | .string s s₁ _, .string _ s₂ _, hmatched => by
    obtain ⟨rfl, hrest⟩ := hmatched.of_cons
    exact ⟨rfl, hrest⟩
  | .string s _ _, .literal hne _, _ => absurd rfl (hne s)
  | .literal (v := .string s) hne _, .string _ _ _, _ => absurd rfl (hne s)
  | .literal _ _, .literal _ _, hmatched | .identifier _ _, .identifier _ _, hmatched => ⟨rfl, hmatched⟩
  | .member h _, .member h' _, hmatched | .unary _ h, .unary _ h', hmatched
  | .assign _ h, .assign _ h', hmatched | .call _ h, .call _ h', hmatched
  | .array h, .array h', hmatched | .object h, .object h', hmatched => by
    obtain ⟨rfl, hmatched⟩ := h.unique h' hmatched
    exact ⟨rfl, hmatched⟩
  | .index hl hr, .index hl' hr', hmatched | .method hl _ hr, .method hl' _ hr', hmatched
  | .binary _ hl hr, .binary _ hl' hr', hmatched | .lazy _ hl hr, .lazy _ hl' hr', hmatched => by
    obtain ⟨rfl, hmatched⟩ := hl.unique hl' hmatched
    obtain ⟨rfl, hmatched⟩ := hr.unique hr' hmatched
    exact ⟨rfl, hmatched⟩
  | .conditional hc hy hn, .conditional hc' hy' hn', hmatched => by
    obtain ⟨rfl, hmatched⟩ := hc.unique hc' hmatched
    obtain ⟨rfl, hmatched⟩ := hy.unique hy' hmatched
    obtain ⟨rfl, hmatched⟩ := hn.unique hn' hmatched
    exact ⟨rfl, hmatched⟩

theorem RewordedAll.unique {ps ps' qs qs' : Rewordings} {es es₁ es₂ : List Expr} :
    RewordedAll ps qs es es₁ → RewordedAll ps' qs' es es₂ → Matched ps ps' →
      es₁ = es₂ ∧ Matched qs qs'
  | .nil _, .nil _, hmatched => ⟨rfl, hmatched⟩
  | .cons h hrest, .cons h' hrest', hmatched => by
    obtain ⟨rfl, hmatched⟩ := h.unique h' hmatched
    obtain ⟨rfl, hmatched⟩ := hrest.unique hrest' hmatched
    exact ⟨rfl, hmatched⟩

theorem RewordedEntries.unique {ps ps' qs qs' : Rewordings}
    {entries entries₁ entries₂ : List (String × Expr)} :
    RewordedEntries ps qs entries entries₁ → RewordedEntries ps' qs' entries entries₂ → Matched ps ps' →
      entries₁ = entries₂ ∧ Matched qs qs'
  | .nil _, .nil _, hmatched => ⟨rfl, hmatched⟩
  | .bare _ h hrest, .bare _ h' hrest', hmatched => by
    obtain ⟨rfl, hmatched⟩ := h.unique h' hmatched
    obtain ⟨rfl, hmatched⟩ := hrest.unique hrest' hmatched
    exact ⟨rfl, hmatched⟩
  | .bare hkey h hrest, .quoted _ _ h' hrest', hmatched => by
    obtain ⟨rfl, hvalues⟩ := hmatched.symm.of_cons_left hkey
    obtain ⟨rfl, hmatched⟩ := h.unique h' hvalues.symm
    obtain ⟨rfl, hmatched⟩ := hrest.unique hrest' hmatched
    exact ⟨rfl, hmatched⟩
  | .quoted _ _ h hrest, .bare hkey h' hrest', hmatched => by
    obtain ⟨rfl, hvalues⟩ := hmatched.of_cons_left hkey
    obtain ⟨rfl, hmatched⟩ := h.unique h' hvalues
    obtain ⟨rfl, hmatched⟩ := hrest.unique hrest' hmatched
    exact ⟨rfl, hmatched⟩
  | .quoted _ _ h hrest, .quoted _ _ h' hrest', hmatched => by
    obtain ⟨rfl, hvalues⟩ := hmatched.of_cons
    obtain ⟨rfl, hmatched⟩ := h.unique h' hvalues
    obtain ⟨rfl, hmatched⟩ := hrest.unique hrest' hmatched
    exact ⟨rfl, hmatched⟩

end

end Expr

namespace Parser

variable {stop stop' fuel room : Nat} {level : Level} {ts us : List Lexeme} {e e' : Expr} {p : Punct}
  {x y : Lexeme} {ps qs : Rewordings} {α β : Type}

/-- The same tokens, perhaps at other places, but for their string literals, which are the pairs `ps`. -/
inductive Alike : Rewordings → List Lexeme → List Lexeme → Prop
  | nil : Alike [] [] []
  | string (s s' : String) (i j i' j' : Nat) {ps : Rewordings} {ts us : List Lexeme} (h : Alike ps ts us) :
    Alike ((s, s') :: ps) (⟨.string s, i, j⟩ :: ts) (⟨.string s', i', j'⟩ :: us)
  | other {t : Token} (ht : t.Bare) (i j i' j' : Nat) {ps : Rewordings} {ts us : List Lexeme}
    (h : Alike ps ts us) : Alike ps (⟨t, i, j⟩ :: ts) (⟨t, i', j'⟩ :: us)

theorem alike_of_tokens : ∀ {ts us : List Lexeme} {ps : Rewordings},
    Token.Reworded ps (tokens ts) (tokens us) → Alike ps ts us
  | [], [], _, .nil => .nil
  | ⟨.string s, i, j⟩ :: _, ⟨.string s', i', j'⟩ :: _, _, .string _ _ h =>
    .string s s' i j i' j' (alike_of_tokens h)
  | ⟨_, i, j⟩ :: _, ⟨_, i', j'⟩ :: _, _, .other ht h => .other ht i j i' j' (alike_of_tokens h)

namespace Alike

theorem length_eq (h : Alike ps ts us) : ts.length = us.length := by
  induction h with
  | nil => rfl
  | string _ _ _ _ _ _ _ ih | other _ _ _ _ _ _ ih => rw [List.length_cons, List.length_cons, ih]

theorem nextIs_eq (h : Alike ps ts us) (p : Punct) : nextIs p ts = nextIs p us := by
  cases h with
  | nil | other => rfl
  | string => simp [nextIs]

theorem drop (h : Alike ps ts us) (hnext : nextIs p us = true) : Alike ps (ts.drop 1) (us.drop 1) := by
  cases h with
  | nil => cases hnext
  | string => simp [nextIs] at hnext
  | other _ _ _ _ _ h => exact h

theorem tail (h : Alike ps (x :: ts) (y :: us)) (hx : x.token = .punct p) :
    y.token = .punct p ∧ Alike ps ts us := by
  cases h with
  | string => cases hx
  | other _ _ _ _ _ h => exact ⟨hx, h⟩

theorem eq_punct (h : Alike ps (x :: ts) (y :: us)) (hy : y.token = .punct p) : x.token = .punct p := by
  cases h with
  | string => cases hy
  | other => exact hy

theorem objectKey? (h : Alike ps (x :: ts) (y :: us)) :
    objectKey? x.token = none ∧ objectKey? y.token = none ∨
      ∃ key key' qs, objectKey? x.token = some key ∧ objectKey? y.token = some key' ∧ Alike qs ts us ∧
        ∀ {rs e e'}, Expr.Reworded qs rs e e' → Expr.RewordedEntries ps rs [(key, e)] [(key', e')] := by
  cases h with
  | string s s' _ _ _ _ h =>
    exact Or.inr ⟨s, s', _, rfl, rfl, h, fun he => .quoted s s' he (.nil _)⟩
  | @other t ht _ _ _ _ _ _ _ h =>
    cases hkey : Parser.objectKey? t with
    | none => exact Or.inl ⟨rfl, rfl⟩
    | some key =>
      exact Or.inr ⟨key, key, ps, rfl, rfl, h, fun he => .bare (ht.unbarred key hkey) he (.nil _)⟩

end Alike

theorem ne_string_of_literal? {t : Token} {value : Literal} (h : ∀ s, t ≠ .string s)
    (hvalue : literal? t = some value) (s : String) : value ≠ .string s := by
  cases isLiteral_of_literal? hvalue with
  | number x =>
    unfold Literal.ofFloat
    split
    · split <;> simp
    · split <;> simp
  | string text => exact absurd rfl (h text)
  | _ => simp

/-! ### What is read -/

/-- Two readings have outcomes that `P` relates and leave tokens that are alike, or both fail.  The pairs that
`P` leaves are those of the tokens that are left. -/
inductive Agrees (P : Rewordings → α → α → Prop) :
    Except ParseError (α × List Lexeme) → Except ParseError (α × List Lexeme) → Prop
  | ok {qs : Rewordings} {a b : α} {ts us : List Lexeme} (h : P qs a b) (hrest : Alike qs ts us) :
    Agrees P (.ok (a, ts)) (.ok (b, us))
  | error (err err' : ParseError) : Agrees P (.error err) (.error err')

theorem Agrees.bind {P : Rewordings → α → α → Prop} {Q : Rewordings → β → β → Prop}
    {r r' : Except ParseError (α × List Lexeme)}
    {f g : α × List Lexeme → Except ParseError (β × List Lexeme)} (h : Agrees P r r')
    (hfg : ∀ qs a b, P qs a b → ∀ ts us, Alike qs ts us → Agrees Q (f (a, ts)) (g (b, us))) :
    Agrees Q (r >>= f) (r' >>= g) := by
  cases h with
  | ok hab h => exact hfg _ _ _ hab _ _ h
  | error err err' => exact .error err err'

theorem Agrees.expect {P : Rewordings → β → β → Prop}
    {f g : List Lexeme → Except ParseError (β × List Lexeme)} (h : Alike ps ts us)
    (hfg : ∀ ts us, Alike ps ts us → Agrees P (f ts) (g us)) :
    Agrees P (Parser.expect stop p ts >>= f) (Parser.expect stop' p us >>= g) := by
  cases h with
  | nil => exact .error _ _
  | string =>
    simp only [Parser.expect, reduceCtorEq, if_false]
    exact .error _ _
  | other _ _ _ _ _ h =>
    simp only [Parser.expect]
    split
    · exact hfg _ _ h
    · exact .error _ _

/-- With this fuel, what is read does not depend on where it stands, nor on the texts of strings. -/
structure AgreesAt (stop stop' fuel : Nat) : Prop where
  expression : ∀ {room level ps ts us}, Alike ps ts us →
    Agrees (Expr.Reworded ps) (expression stop fuel room level ts) (expression stop' fuel room level us)
  folds : ∀ {room level ps qs left left' ts us}, Expr.Reworded ps qs left left' → Alike qs ts us →
    Agrees (Expr.Reworded ps) (folds stop fuel room level left ts) (folds stop' fuel room level left' us)
  operand : ∀ {room ps ts us}, Alike ps ts us →
    Agrees (Expr.Reworded ps) (operand stop fuel room ts) (operand stop' fuel room us)
  primary : ∀ {room x y ps ts us}, Alike ps (x :: ts) (y :: us) →
    Agrees (Expr.Reworded ps) (primary stop fuel room x ts) (primary stop' fuel room y us)
  suffixes : ∀ {room ps qs left left' ts us}, Expr.Reworded ps qs left left' → Alike qs ts us →
    Agrees (Expr.Reworded ps) (suffixes stop fuel room left ts) (suffixes stop' fuel room left' us)
  arguments : ∀ {room ps ts us}, Alike ps ts us →
    Agrees (Expr.RewordedAll ps) (arguments stop fuel room ts) (arguments stop' fuel room us)
  moreArguments : ∀ {room ps qs seen seen' ts us}, Expr.RewordedAll ps qs seen.reverse seen'.reverse →
    Alike qs ts us → Agrees (Expr.RewordedAll ps) (moreArguments stop fuel room seen ts)
      (moreArguments stop' fuel room seen' us)
  arrayItems : ∀ {room ps qs seen seen' ts us}, Expr.RewordedAll ps qs seen.reverse seen'.reverse →
    Alike qs ts us → Agrees (Expr.RewordedAll ps) (arrayItems stop fuel room seen ts)
      (arrayItems stop' fuel room seen' us)
  objectEntries : ∀ {room ps qs seen seen' ts us},
    Expr.RewordedEntries ps qs seen.reverse seen'.reverse → Alike qs ts us →
      Agrees (Expr.RewordedEntries ps) (objectEntries stop fuel room seen ts)
        (objectEntries stop' fuel room seen' us)

theorem agreesAt_zero (stop stop' : Nat) : AgreesAt stop stop' 0 := by
  constructor
  all_goals
    intros
    simp only [expression, folds, operand, primary, suffixes, arguments, moreArguments, arrayItems,
      objectEntries]
    exact .error _ _

theorem tree?_reworded {fold : Fold} {make : Expr → Expr → Expr} {tighter : Level} {l l' r r' : Expr}
    {rs : Rewordings} (h : fold.tree? = some (make, tighter)) (hl : Expr.Reworded ps qs l l')
    (hr : Expr.Reworded qs rs r r') : Expr.Reworded ps rs (make l r) (make l' r') := by
  cases fold <;> cases h
  · exact .binary _ hl hr
  · exact .lazy _ hl hr

theorem all_reverse_cons {rs : Rewordings} {seen seen' : List Expr}
    (hseen : Expr.RewordedAll ps qs seen.reverse seen'.reverse) (he : Expr.Reworded qs rs e e') :
    Expr.RewordedAll ps rs (e :: seen).reverse (e' :: seen').reverse := by
  rw [List.reverse_cons, List.reverse_cons]
  exact hseen.append (.cons he (.nil rs))

theorem entries_reverse_cons {rs : Rewordings} {seen seen' : List (String × Expr)}
    {entry entry' : String × Expr}
    (hseen : Expr.RewordedEntries ps qs seen.reverse seen'.reverse)
    (hentry : Expr.RewordedEntries qs rs [entry] [entry']) :
    Expr.RewordedEntries ps rs (entry :: seen).reverse (entry' :: seen').reverse := by
  rw [List.reverse_cons, List.reverse_cons]
  exact hseen.append hentry

namespace AgreesAt

variable (ih : AgreesAt stop stop' fuel)

include ih

theorem expression_succ (h : Alike ps ts us) :
    Agrees (Expr.Reworded ps) (Parser.expression stop (fuel + 1) room level ts)
      (Parser.expression stop' (fuel + 1) room level us) := by
  cases room with
  | zero =>
    rw [Parser.expression.eq_def, Parser.expression.eq_def]
    exact .error _ _
  | succ room =>
    rw [Parser.expression, Parser.expression]
    exact (ih.operand h).bind fun qs left left' hleft ts us h => ih.folds hleft h

theorem folds_succ {left left' : Expr} (hleft : Expr.Reworded ps qs left left') (h : Alike qs ts us) :
    Agrees (Expr.Reworded ps) (Parser.folds stop (fuel + 1) room level left ts)
      (Parser.folds stop' (fuel + 1) room level left' us) := by
  cases h with
  | nil =>
    rw [Parser.folds, Parser.folds]
    exact .ok hleft .nil
  | string s s' i j i' j' h =>
    rw [folds_stop rfl, folds_stop rfl]
    exact .ok hleft (.string s s' i j i' j' h)
  | @other t ht i j i' j' qs ts us h =>
    cases hfold : foldAt? level t with
    | none =>
      rw [folds_stop hfold, folds_stop hfold]
      exact .ok hleft (.other ht i j i' j' h)
    | some fold =>
      cases room with
      | zero =>
        rw [folds_zero hfold, folds_zero hfold]
        exact .error _ _
      | succ room =>
        cases htree : fold.tree? with
        | some tree =>
          rw [folds_tree hfold htree, folds_tree hfold htree]
          exact (ih.expression h).bind fun rs right right' hright ts us h =>
            ih.folds (tree?_reworded htree hleft hright) h
        | none =>
          cases fold with
          | binary _ _ | lazy _ _ => cases htree
          | assign =>
            rw [folds_assign hfold, folds_assign hfold]
            cases hleft with
            | identifier name =>
              exact (ih.expression h).bind fun rs value value' hvalue ts us h =>
                ih.folds (.assign name hvalue) h
            | _ => exact .error _ _
          | conditional =>
            rw [folds_conditional hfold, folds_conditional hfold]
            refine (ih.expression h).bind fun rs yes yes' hyes ts us h => .expect h fun ts us h => ?_
            exact (ih.expression h).bind fun os no no' hno ts us h =>
              ih.folds (.conditional hleft hyes hno) h

theorem operand_succ (h : Alike ps ts us) :
    Agrees (Expr.Reworded ps) (Parser.operand stop (fuel + 1) room ts)
      (Parser.operand stop' (fuel + 1) room us) := by
  have hprimary : ∀ {x y ts us}, Alike ps (x :: ts) (y :: us) →
      Agrees (Expr.Reworded ps)
        (Parser.primary stop fuel room x ts >>= fun r => Parser.suffixes stop fuel room r.1 r.2)
        (Parser.primary stop' fuel room y us >>= fun r => Parser.suffixes stop' fuel room r.1 r.2) :=
    fun h => (ih.primary h).bind fun qs e e' he ts us h => ih.suffixes he h
  cases h with
  | nil =>
    rw [Parser.operand, Parser.operand]
    exact .error _ _
  | string s s' i j i' j' h =>
    rw [Parser.operand.eq_def, Parser.operand.eq_def]
    exact hprimary (.string s s' i j i' j' h)
  | @other t ht i j i' j' ps ts us h =>
    rw [Parser.operand.eq_def, Parser.operand.eq_def]
    dsimp only
    cases hop : prefixOp? t with
    | none => exact hprimary (.other ht i j i' j' h)
    | some op =>
      cases room with
      | zero => exact .error _ _
      | succ room => exact (ih.operand h).bind fun qs e e' he ts us h => .ok (.unary op he) h

theorem primary_succ (h : Alike ps (x :: ts) (y :: us)) :
    Agrees (Expr.Reworded ps) (Parser.primary stop (fuel + 1) room x ts)
      (Parser.primary stop' (fuel + 1) room y us) := by
  rw [Parser.primary, Parser.primary]
  cases h with
  | string s s' _ _ _ _ h => exact .ok (.string s s' _) h
  | @other t ht _ _ _ _ _ _ _ h =>
    dsimp only
    cases hvalue : literal? t with
    | some value => exact .ok (.literal (ne_string_of_literal? ht.ne_string hvalue) ps) h
    | none =>
      dsimp only
      split
      · exact .ok (.identifier _ ps) h
      · exact (ih.expression h).bind fun qs e e' he ts us h => .expect h fun ts us h => .ok he h
      · exact (ih.arrayItems (.nil ps) h).bind fun qs items items' hitems ts us h => .ok (.array hitems) h
      · exact (ih.objectEntries (.nil ps) h).bind fun qs entries entries' hentries ts us h =>
          .ok (.object hentries) h
      · exact .error _ _

theorem suffixes_succ {left left' : Expr} (hleft : Expr.Reworded ps qs left left') (h : Alike qs ts us) :
    Agrees (Expr.Reworded ps) (Parser.suffixes stop (fuel + 1) room left ts)
      (Parser.suffixes stop' (fuel + 1) room left' us) := by
  cases h with
  | nil =>
    rw [Parser.suffixes, Parser.suffixes]
    exact .ok hleft .nil
  | string s s' i j i' j' h =>
    rw [Parser.suffixes.eq_def, Parser.suffixes.eq_def]
    exact .ok hleft (.string s s' i j i' j' h)
  | @other t ht i j i' j' qs ts us h =>
    have hboth : Alike qs (⟨t, i, j⟩ :: ts) (⟨t, i', j'⟩ :: us) := .other ht i j i' j' h
    rw [Parser.suffixes.eq_def, Parser.suffixes.eq_def]
    dsimp only
    split
    · exact .error _ _
    · exact .error _ _
    · exact .error _ _
    · cases h with
      | nil => exact .error _ _
      | string => exact .error _ _
      | other _ _ _ _ _ h =>
        dsimp only
        split
        · exact .error _ _
        · rw [Alike.nextIs_eq h]
          split
          · exact (ih.arguments h).bind fun rs args args' hargs ts us h =>
              ih.suffixes (.method hleft _ hargs) h
          · exact ih.suffixes (.member hleft _) h
    · exact (ih.expression h).bind fun rs i i' hi ts us h => .expect h fun ts us h =>
        ih.suffixes (.index hleft hi) h
    · cases hleft with
      | identifier name =>
        exact (ih.arguments hboth).bind fun rs args args' hargs ts us h => ih.suffixes (.call name hargs) h
      | _ => exact .error _ _
    · exact .ok hleft hboth

theorem arguments_succ (h : Alike ps ts us) :
    Agrees (Expr.RewordedAll ps) (Parser.arguments stop (fuel + 1) room ts)
      (Parser.arguments stop' (fuel + 1) room us) := by
  rw [Parser.arguments, Parser.arguments]
  refine .expect h fun ts us h => ?_
  rw [h.nextIs_eq]
  split
  · next hnext => exact .ok (.nil ps) (h.drop hnext)
  · exact ih.moreArguments (.nil ps) h

theorem moreArguments_succ {seen seen' : List Expr}
    (hseen : Expr.RewordedAll ps qs seen.reverse seen'.reverse) (h : Alike qs ts us) :
    Agrees (Expr.RewordedAll ps) (Parser.moreArguments stop (fuel + 1) room seen ts)
      (Parser.moreArguments stop' (fuel + 1) room seen' us) := by
  rw [Parser.moreArguments, Parser.moreArguments]
  refine (ih.expression h).bind fun rs e e' he ts us h => ?_
  have hmore : Expr.RewordedAll ps rs (e :: seen).reverse (e' :: seen').reverse :=
    all_reverse_cons hseen he
  dsimp only
  rw [h.nextIs_eq, h.nextIs_eq]
  split
  · next hnext => exact ih.moreArguments hmore (h.drop hnext)
  · split
    · next hnext => exact .ok hmore (h.drop hnext)
    · exact .error _ _

theorem arrayItems_succ {seen seen' : List Expr}
    (hseen : Expr.RewordedAll ps qs seen.reverse seen'.reverse) (h : Alike qs ts us) :
    Agrees (Expr.RewordedAll ps) (Parser.arrayItems stop (fuel + 1) room seen ts)
      (Parser.arrayItems stop' (fuel + 1) room seen' us) := by
  rw [Parser.arrayItems, Parser.arrayItems, h.nextIs_eq]
  split
  · next hnext => exact .ok hseen (h.drop hnext)
  · refine (ih.expression h).bind fun rs e e' he ts us h => ?_
    have hmore : Expr.RewordedAll ps rs (e :: seen).reverse (e' :: seen').reverse :=
      all_reverse_cons hseen he
    dsimp only
    rw [h.nextIs_eq, h.nextIs_eq]
    split
    · next hnext => exact ih.arrayItems hmore (h.drop hnext)
    · split
      · next hnext => exact .ok hmore (h.drop hnext)
      · exact .error _ _

theorem objectEntries_succ {seen seen' : List (String × Expr)}
    (hseen : Expr.RewordedEntries ps qs seen.reverse seen'.reverse) (h : Alike qs ts us) :
    Agrees (Expr.RewordedEntries ps) (Parser.objectEntries stop (fuel + 1) room seen ts)
      (Parser.objectEntries stop' (fuel + 1) room seen' us) := by
  rcases ts with _ | ⟨x, ts⟩
  · cases h
    rw [Parser.objectEntries, Parser.objectEntries]
    exact .error _ _
  rcases us with _ | ⟨y, us⟩
  · cases h
  rw [Parser.objectEntries, Parser.objectEntries]
  by_cases hbrace : x.token = .punct .rightBrace
  · obtain ⟨hbrace', h⟩ := h.tail hbrace
    rw [if_pos hbrace, if_pos hbrace']
    exact .ok hseen h
  rw [if_neg hbrace, if_neg fun hbrace' => hbrace (h.eq_punct hbrace')]
  rcases h.objectKey? with ⟨hkey, hkey'⟩ | ⟨key, key', rs, hkey, hkey', h, hentry⟩
  · rw [hkey, hkey']
    exact .error _ _
  · rw [hkey, hkey']
    refine .expect h fun ts us h => (ih.expression h).bind fun os e e' he ts us h => ?_
    have hmore : Expr.RewordedEntries ps os ((key, e) :: seen).reverse ((key', e') :: seen').reverse :=
      entries_reverse_cons hseen (hentry he)
    dsimp only
    rw [h.nextIs_eq, h.nextIs_eq]
    split
    · next hnext => exact ih.objectEntries hmore (h.drop hnext)
    · split
      · next hnext => exact .ok hmore (h.drop hnext)
      · exact .error _ _

end AgreesAt

/-- What is read does not depend on where it stands, nor on the texts of strings. -/
theorem agreesAt (stop stop' fuel : Nat) : AgreesAt stop stop' fuel := by
  induction fuel with
  | zero => exact agreesAt_zero stop stop'
  | succ fuel ih =>
    constructor
    · exact ih.expression_succ
    · exact ih.folds_succ
    · exact ih.operand_succ
    · exact ih.primary_succ
    · exact ih.suffixes_succ
    · exact ih.arguments_succ
    · exact ih.moreArguments_succ
    · exact ih.arrayItems_succ
    · exact ih.objectEntries_succ

theorem expression_of_parseTokens (h : parseTokens stop ts = .ok e) :
    ts ≠ [] ∧ expression stop (enough ts) nestingLimit .assignment ts = .ok (e, []) := by
  unfold parseTokens at h
  split at h
  · cases h
  · next hne =>
    split at h
    · next e' hexpression =>
      cases h
      exact ⟨by simpa using hne, hexpression⟩
    · cases h
    · cases h

theorem parseTokens_of_expression (hne : ts ≠ [])
    (h : expression stop (enough ts) nestingLimit .assignment ts = .ok (e, [])) :
    parseTokens stop ts = .ok e := by
  rw [parseTokens, if_neg (by simpa using hne), h]

/-- The tokens of an expression spell it wherever they stand, with the texts that its strings have there. -/
theorem parseTokens_of_alike (hlike : Alike ps ts us) (h : parseTokens stop ts = .ok e) (stop' : Nat) :
    ∃ e', parseTokens stop' us = .ok e' ∧ Expr.Reworded ps [] e e' := by
  have henough : enough ts = enough us := by rw [enough, enough, hlike.length_eq]
  obtain ⟨hne, hexpression⟩ := expression_of_parseTokens h
  have hagrees : Agrees (Expr.Reworded ps) (expression stop (enough ts) nestingLimit .assignment ts)
      (expression stop' (enough ts) nestingLimit .assignment us) :=
    (agreesAt stop stop' (enough ts)).expression hlike
  rw [hexpression, henough] at hagrees
  have hne' : us ≠ [] := by
    rintro rfl
    cases hlike
    exact hne rfl
  generalize hread : expression stop' (enough us) nestingLimit .assignment us = r at hagrees
  cases hagrees with
  | ok he hrest =>
    cases hrest
    exact ⟨_, parseTokens_of_expression hne' hread, he⟩

end Parser

/-- A text that is cut into the tokens of an expression, its strings reworded, spells this expression with
its strings reworded. -/
theorem parse_of_tokens {source source' : String} {stop' : Nat} {e : Expr} {ps : Rewordings}
    (hstop : (Lexer.lex source').outcome = .ok stop')
    (htokens : Token.Reworded ps (Parser.tokens (Lexer.lex source).tokens)
      (Parser.tokens (Lexer.lex source').tokens))
    (h : parse source = .ok e) : ∃ e', parse source' = .ok e' ∧ Expr.Reworded ps [] e e' := by
  unfold parse at h ⊢
  dsimp only at h ⊢
  split at h
  · rw [hstop]
    exact Parser.parseTokens_of_alike (Parser.alike_of_tokens htokens) h stop'
  · cases h

end TreeTemplate
