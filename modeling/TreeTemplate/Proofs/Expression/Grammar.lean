import TreeTemplate.Expression.Parser

/-!
The grammar of expressions over tokens, in strata from the tightest to the loosest.  Each rule of
`Derives` is a production; nothing in it looks at the parser's table of operators, which is compared with
the strata afterwards.
-/

namespace TreeTemplate

namespace Grammar

/-- The strata of the grammar, the tightest first. -/
inductive Stratum where
  | primary
  | suffixed
  | unary
  | multiplicative
  | additive
  | relational
  | equality
  | and
  | or
  | conditional
  | expression
  deriving DecidableEq, Repr

/-- The stratum of the right operands of a binary stratum. -/
def Stratum.tighter : Stratum → Stratum
  | .multiplicative => .unary
  | .additive => .multiplicative
  | .relational => .additive
  | .equality => .relational
  | .and => .equality
  | .or => .and
  | s => s

/-- The left-associative operators of a stratum, with the trees that they make. -/
def Stratum.operators : Stratum → List (Punct × (Expr → Expr → Expr))
  | .multiplicative =>
    [(.star, .binary .multiply), (.slash, .binary .divide), (.percent, .binary .modulo)]
  | .additive => [(.plus, .binary .add), (.minus, .binary .subtract)]
  | .relational =>
    [(.less, .binary .less), (.lessEqual, .binary .lessEqual), (.greater, .binary .greater),
      (.greaterEqual, .binary .greaterEqual)]
  | .equality =>
    [(.equal, .binary .equal), (.notEqual, .binary .notEqual), (.strictEqual, .binary .strictEqual),
      (.strictNotEqual, .binary .strictNotEqual)]
  | .and => [(.andAnd, .lazy .and)]
  | .or => [(.orOr, .lazy .or)]
  | _ => []

def signs : List (Punct × UnaryOp) :=
  [(.bang, .not), (.minus, .negate), (.plus, .plus)]

inductive IsLiteral : Token → Literal → Prop
  | number (x : Float) : IsLiteral (.number x) (.ofFloat x)
  | string (s : String) : IsLiteral (.string s) (.string s)
  | true : IsLiteral (.keyword .true) (.bool Bool.true)
  | false : IsLiteral (.keyword .false) (.bool Bool.false)
  | null : IsLiteral (.keyword .null) .null

/-- The token is a property name; keywords are names after a dot. -/
inductive IsName : Token → String → Prop
  | identifier (name : String) : IsName (.identifier name) name
  | keyword (k : Keyword) : IsName (.keyword k) k.text

inductive IsKey : Token → String → Prop
  | identifier (name : String) : IsKey (.identifier name) name
  | string (s : String) : IsKey (.string s) s
  | number (x : Float) : IsKey (.number x) (Number.Layout.plain.text x)

def bracketed (left : Punct) (ts : List Token) (right : Punct) : List Token :=
  .punct left :: (ts ++ [.punct right])

/-- An identifier, in any number of parentheses. -/
inductive Named : List Token → String → Prop
  | identifier (name : String) : Named [.identifier name] name
  | group {ts : List Token} {name : String} (h : Named ts name) :
      Named (bracketed .leftParen ts .rightParen) name

def separated (parts : List (List Token)) : List Token :=
  List.intercalate [.punct .comma] parts

@[simp] theorem separated_singleton (us : List Token) : separated [us] = us := by
  simp [separated, List.intercalate]

/-- A comma between a phrase and further ones. -/
theorem separated_cons (us : List Token) {parts : List (List Token)} (h : parts ≠ []) :
    separated (us :: parts) = us ++ .punct .comma :: separated parts := by
  cases parts with
  | nil => exact absurd rfl h
  | cons vs parts => simp [separated, List.intercalate]

/-- The first phrase comes first. -/
theorem exists_separated_cons (us : List Token) (parts : List (List Token)) :
    ∃ vs, separated (us :: parts) = us ++ vs := by
  cases parts with
  | nil => exact ⟨[], by simp⟩
  | cons vs parts => exact ⟨_, separated_cons us (by simp)⟩

/-- Nothing, or a comma after the last of some items. -/
inductive Trailing {α : Type} (items : List α) : List Token → Prop
  | none : Trailing items []
  | comma (h : items ≠ []) : Trailing items [.punct .comma]

/-- A comma and the rest of a list after an item make a longer list. -/
theorem Trailing.cons {α : Type} {items : List α} {us : List Token} (h : Trailing items us)
    (written : α → List Token) (p : α) :
    ∃ vs, Trailing (p :: items) vs ∧
      written p ++ .punct .comma :: (separated (items.map written) ++ us) =
        separated ((p :: items).map written) ++ vs := by
  cases items with
  | nil =>
    cases h with
    | comma hne => exact absurd rfl hne
    | none => exact ⟨[.punct .comma], .comma (by simp), by simp [separated, List.intercalate]⟩
  | cons q items =>
    refine ⟨us, ?_, ?_⟩
    · cases h with
      | none => exact .none
      | comma _ => exact .comma (by simp)
    · have hne : (q :: items).map written ≠ [] := by simp
      rw [List.map_cons (l := q :: items), separated_cons (written p) hne, List.append_assoc]
      rfl

/-- After the first item a list ends, or a comma comes and the rest of the list. -/
theorem Trailing.uncons {α : Type} {items : List α} {vs : List Token} {p : α}
    (h : Trailing (p :: items) vs) (written : α → List Token) :
    (items = [] ∧ vs = []) ∨ ∃ us, Trailing items us ∧
      separated ((p :: items).map written) ++ vs =
        written p ++ .punct .comma :: (separated (items.map written) ++ us) := by
  cases items with
  | nil =>
    cases h with
    | none => exact Or.inl ⟨rfl, rfl⟩
    | comma _ => exact Or.inr ⟨[], .none, by simp [separated, List.intercalate]⟩
  | cons q items =>
    refine Or.inr ⟨vs, ?_, ?_⟩
    · cases h with
      | none => exact .none
      | comma _ => exact .comma (by simp)
    · have hne : (q :: items).map written ≠ [] := by simp
      rw [List.map_cons (l := q :: items), separated_cons (written p) hne, List.append_assoc]
      rfl

/-- An item of a list: its tokens and its tree. -/
structure Phrase where
  tokens : List Token
  tree : Expr

structure Entry extends Phrase where
  key : Token
  name : String

def Entry.written (p : Entry) : List Token :=
  p.key :: .punct .colon :: p.tokens

def argumentTokens (args : List Phrase) : List Token :=
  bracketed .leftParen (separated (args.map Phrase.tokens)) .rightParen

/-- The tokens spell the tree, as a phrase of the stratum. -/
inductive Derives : Stratum → List Token → Expr → Prop
  | literal {t : Token} {v : Literal} (h : IsLiteral t v) : Derives .primary [t] (.literal v)
  | identifier (name : String) : Derives .primary [.identifier name] (.identifier name)
  | group {ts : List Token} {e : Expr} (h : Derives .expression ts e) :
      Derives .primary (bracketed .leftParen ts .rightParen) e
  | array {items : List Phrase} {us : List Token}
      (h : ∀ p ∈ items, Derives .expression p.tokens p.tree) (trailing : Trailing items us) :
      Derives .primary (bracketed .leftBracket (separated (items.map Phrase.tokens) ++ us) .rightBracket)
        (.array (items.map Phrase.tree))
  | object {entries : List Entry} {us : List Token}
      (keys : ∀ p ∈ entries, IsKey p.key p.name)
      (h : ∀ p ∈ entries, Derives .expression p.tokens p.tree) (trailing : Trailing entries us) :
      Derives .primary (bracketed .leftBrace (separated (entries.map Entry.written) ++ us) .rightBrace)
        (.object (entries.map fun p => (p.name, p.tree)))
  | primary {ts : List Token} {e : Expr} (h : Derives .primary ts e) : Derives .suffixed ts e
  | member {ts : List Token} {e : Expr} {t : Token} {name : String} (h : Derives .suffixed ts e)
      (isName : IsName t name) : Derives .suffixed (ts ++ [.punct .dot, t]) (.member e name)
  | method {ts : List Token} {e : Expr} {t : Token} {name : String} {args : List Phrase}
      (h : Derives .suffixed ts e) (isName : IsName t name)
      (hargs : ∀ p ∈ args, Derives .expression p.tokens p.tree) :
      Derives .suffixed (ts ++ .punct .dot :: t :: argumentTokens args)
        (.method e name (args.map Phrase.tree))
  | index {ts us : List Token} {e i : Expr} (h : Derives .suffixed ts e)
      (hi : Derives .expression us i) :
      Derives .suffixed (ts ++ bracketed .leftBracket us .rightBracket) (.index e i)
  | call {ts : List Token} {name : String} {args : List Phrase} (named : Named ts name)
      (hargs : ∀ p ∈ args, Derives .expression p.tokens p.tree) :
      Derives .suffixed (ts ++ argumentTokens args) (.call name (args.map Phrase.tree))
  | suffixed {ts : List Token} {e : Expr} (h : Derives .suffixed ts e) : Derives .unary ts e
  | unary {p : Punct} {op : UnaryOp} {ts : List Token} {e : Expr} (sign : (p, op) ∈ signs)
      (h : Derives .unary ts e) : Derives .unary (.punct p :: ts) (.unary op e)
  | tighter {s : Stratum} {ts : List Token} {e : Expr} (binary : s.operators ≠ [])
      (h : Derives s.tighter ts e) : Derives s ts e
  | binary {s : Stratum} {p : Punct} {make : Expr → Expr → Expr} {ts us : List Token}
      {left right : Expr} (operator : (p, make) ∈ s.operators) (hl : Derives s ts left)
      (hr : Derives s.tighter us right) : Derives s (ts ++ .punct p :: us) (make left right)
  | or {ts : List Token} {e : Expr} (h : Derives .or ts e) : Derives .conditional ts e
  | conditional {ts us vs : List Token} {c yes no : Expr} (hc : Derives .or ts c)
      (hyes : Derives .expression us yes) (hno : Derives .conditional vs no) :
      Derives .conditional (ts ++ .punct .question :: (us ++ .punct .colon :: vs))
        (.conditional c yes no)
  | expression {ts : List Token} {e : Expr} (h : Derives .conditional ts e) : Derives .expression ts e
  | assign {ts us : List Token} {name : String} {e : Expr} (named : Named ts name)
      (h : Derives .expression us e) : Derives .expression (ts ++ .punct .assign :: us) (.assign name e)

/-- The tokens begin with one, and it is no closing bracket of a list. -/
def Opens (ts : List Token) : Prop :=
  ∃ t us, ts = t :: us ∧ t ≠ .punct .rightParen ∧ t ≠ .punct .rightBracket

theorem Opens.append {ts : List Token} (h : Opens ts) (us : List Token) : Opens (ts ++ us) := by
  obtain ⟨t, more, rfl, hparen, hbracket⟩ := h
  exact ⟨t, more ++ us, rfl, hparen, hbracket⟩

theorem opens_punct {p : Punct} (hparen : p ≠ .rightParen) (hbracket : p ≠ .rightBracket)
    (ts : List Token) : Opens (.punct p :: ts) := by
  refine ⟨.punct p, ts, rfl, ?_, ?_⟩
  · rintro ⟨⟩
    exact hparen rfl
  · rintro ⟨⟩
    exact hbracket rfl

theorem Named.opens {ts : List Token} {name : String} (h : Named ts name) : Opens ts := by
  cases h with
  | identifier => exact ⟨_, [], rfl, by rintro ⟨⟩, by rintro ⟨⟩⟩
  | group _ => exact opens_punct (by decide) (by decide) _

/-- Every phrase begins with a token, and not with a closing bracket. -/
theorem Derives.opens {s : Stratum} {ts : List Token} {e : Expr} (h : Derives s ts e) : Opens ts := by
  induction h with
  | literal h => cases h <;> exact ⟨_, [], rfl, by rintro ⟨⟩, by rintro ⟨⟩⟩
  | identifier => exact ⟨_, [], rfl, by rintro ⟨⟩, by rintro ⟨⟩⟩
  | group _ _ | array _ _ | object _ _ _ => exact opens_punct (by decide) (by decide) _
  | primary _ ih | suffixed _ ih | tighter _ _ ih | or _ ih | expression _ ih => exact ih
  | member _ _ ih | method _ _ _ ih | index _ _ ih | binary _ _ _ ih | conditional _ _ _ ih =>
    exact ih.append _
  | call named _ | assign named _ => exact named.opens.append _
  | @unary p op ts e sign _ _ =>
    have hsigns : ∀ q ∈ signs, q.1 ≠ .rightParen ∧ q.1 ≠ .rightBracket := by decide
    exact opens_punct (hsigns _ sign).1 (hsigns _ sign).2 _

/-- An operand is a phrase of every binary stratum. -/
theorem Derives.and_of_primary {ts : List Token} {e : Expr} (h : Derives .primary ts e) :
    Derives .and ts e := by
  have hbinary : ∀ s ∈ [Stratum.and, .equality, .relational, .additive, .multiplicative],
      s.operators ≠ [] := by simp [Stratum.operators]
  have htighter : ∀ s ∈ [Stratum.and, .equality, .relational, .additive, .multiplicative],
      Derives s.tighter ts e → Derives s ts e := fun s hs => .tighter (hbinary s hs)
  simp only [List.forall_mem_cons] at htighter
  obtain ⟨hand, hequality, hrelational, hadditive, hmultiplicative, -⟩ := htighter
  exact hand (hequality (hrelational (hadditive (hmultiplicative (.suffixed (.primary h))))))

/-! ### Strata and levels -/

end Grammar

namespace Parser

open Grammar

/-- The stratum that a level of the parser reads. -/
def Level.stratum : Level → Stratum
  | .assignment => .expression
  | .conditional => .conditional
  | .or => .or
  | .and => .and
  | .equality => .equality
  | .relational => .relational
  | .additive => .additive
  | .multiplicative => .multiplicative
  | .unary => .unary

@[simp] theorem Level.stratum_assignment : Level.assignment.stratum = .expression :=
  rfl

/-- The next looser level. -/
def Level.looser : Level → Level
  | .unary => .multiplicative
  | .multiplicative => .additive
  | .additive => .relational
  | .relational => .equality
  | .equality => .and
  | .and => .or
  | .or => .conditional
  | .conditional => .assignment
  | .assignment => .assignment

theorem Level.rank_looser (l : Level) : l.looser.rank = max 1 (l.rank - 1) := by
  cases l <;> rfl

theorem Level.rank_pos (l : Level) : 1 ≤ l.rank := by
  cases l <;> decide

theorem Level.eq_of_rank_eq {l l' : Level} (h : l.rank = l'.rank) : l = l' := by
  cases l <;> cases l' <;> first | rfl | cases h

/-- The tree that a binary fold makes, and the level of its right operand. -/
def Fold.tree? : Fold → Option ((Expr → Expr → Expr) × Level)
  | .binary op right => some (.binary op, right)
  | .lazy op right => some (.lazy op, right)
  | _ => none

variable {t : Token} {p : Punct} {l r : Level} {fold : Fold} {make : Expr → Expr → Expr} {s : Stratum}

/-- The binary operators of the parser are those of the stratum of their level, and their right operand
is of the next tighter one. -/
theorem mem_operators (h : operator? t = some (l, fold)) (hmake : fold.tree? = some (make, r)) :
    ∃ p, t = .punct p ∧ (p, make) ∈ l.stratum.operators ∧ r.stratum = l.stratum.tighter ∧
      r.rank = l.rank + 1 ∧ Level.or.rank ≤ l.rank := by
  unfold operator? at h
  split at h <;> cases h <;> cases hmake <;>
    exact ⟨_, rfl, by simp [Level.stratum, Stratum.operators], rfl, rfl, by decide⟩

/-- The operators of a stratum are those of the parser. -/
theorem operator?_of_mem (h : (p, make) ∈ s.operators) :
    ∃ l fold r, operator? (.punct p) = some (l, fold) ∧ fold.tree? = some (make, r) ∧
      s = l.stratum ∧ s.tighter = r.stratum ∧ r.rank = l.rank + 1 := by
  cases s <;>
    simp only [Stratum.operators, List.mem_cons, Prod.mk.injEq, List.not_mem_nil, or_false] at h
  case multiplicative =>
    rcases h with ⟨rfl, rfl⟩ | ⟨rfl, rfl⟩ | ⟨rfl, rfl⟩ <;> exact ⟨_, _, _, rfl, rfl, rfl, rfl, rfl⟩
  case additive =>
    rcases h with ⟨rfl, rfl⟩ | ⟨rfl, rfl⟩ <;> exact ⟨_, _, _, rfl, rfl, rfl, rfl, rfl⟩
  case relational | equality =>
    rcases h with ⟨rfl, rfl⟩ | ⟨rfl, rfl⟩ | ⟨rfl, rfl⟩ | ⟨rfl, rfl⟩ <;>
      exact ⟨_, _, _, rfl, rfl, rfl, rfl, rfl⟩
  case and | or =>
    obtain ⟨rfl, rfl⟩ := h
    exact ⟨_, _, _, rfl, rfl, rfl, rfl, rfl⟩

end Parser

namespace Grammar

namespace Derives

variable {s : Stratum} {ts : List Token} {name : String} {e : Expr}

/-- Only an identifier in parentheses spells an identifier. -/
theorem named (h : Derives s ts e) (he : e = .identifier name) : Named ts name := by
  induction h with
  | identifier =>
    cases he
    exact .identifier _
  | group _ ih => exact .group (ih he)
  | primary _ ih | suffixed _ ih | tighter _ _ ih | or _ ih | expression _ ih => exact ih he
  | literal _ | array _ _ | object _ _ _ | member _ _ | method _ _ _ | index _ _ | call _ _ | unary _ _
  | conditional _ _ _ | assign _ _ => cases he
  | @binary s _ _ _ _ _ _ operator _ _ =>
    obtain ⟨l, fold, r, -, hmake, -⟩ := Parser.operator?_of_mem operator
    cases fold <;> cases hmake <;> cases he

/-- A phrase of a level is one of the next looser level. -/
theorem looser {l : Parser.Level} (h : Derives l.stratum ts e) : Derives l.looser.stratum ts e := by
  cases l with
  | assignment => exact h
  | conditional => exact .expression h
  | or => exact .or h
  | and | equality | relational | additive | multiplicative | unary =>
    exact .tighter (by decide +revert) h

/-- A phrase of a level is one of every looser level. -/
theorem loosen {l l' : Parser.Level} (h : Derives l.stratum ts e) (hl : l'.rank ≤ l.rank) :
    Derives l'.stratum ts e := by
  obtain ⟨n, hn⟩ := Nat.exists_eq_add_of_le hl
  induction n generalizing l with
  | zero => exact Parser.Level.eq_of_rank_eq hn ▸ h
  | succ n ih =>
    have hpos := l'.rank_pos
    have hlooser := l.rank_looser
    exact ih h.looser (by omega) (by omega)

end Derives

end Grammar

end TreeTemplate
