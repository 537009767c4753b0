import TreeTemplate.Proofs.Expression.Recognition
import TreeTemplate.Proofs.Expression.Spans

/-!
Where the names of a tree come from.  Each name of an accepted tree belongs to one token, in the order of the
source (`Carries`, `Derives.carries`), and it is the text of this token in the source; but a property written
`undefined` is called `null`, because the two are one keyword, and an object key may be a literal
(`names_of_parse`).
-/

namespace TreeTemplate

inductive NameRole where
  /-- A variable: read, assigned or called. -/
  | reference
  /-- A property or a method, behind a dot. -/
  | property
  /-- The key of an object entry. -/
  | key

mutual

/-- The names in a tree, in the order of the source. -/
def Expr.names : Expr → List (NameRole × String)
  | .literal _ => []
  | .identifier name => [(.reference, name)]
  | .member base name => base.names ++ [(.property, name)]
  | .index base i => base.names ++ i.names
  | .call name args => (.reference, name) :: Expr.namesAll args
  | .method receiver name args => receiver.names ++ (.property, name) :: Expr.namesAll args
  | .unary _ operand => operand.names
  | .binary _ left right => left.names ++ right.names
  | .lazy _ left right => left.names ++ right.names
  | .conditional condition yes no => condition.names ++ (yes.names ++ no.names)
  | .array items => Expr.namesAll items
  | .object entries => Expr.namesEntries entries
  | .assign name value => (.reference, name) :: value.names

def Expr.namesAll : List Expr → List (NameRole × String)
  | [] => []
  | e :: es => e.names ++ Expr.namesAll es

def Expr.namesEntries : List (String × Expr) → List (NameRole × String)
  | [] => []
  | (key, e) :: es => (.key, key) :: (e.names ++ Expr.namesEntries es)

end

theorem Expr.namesAll_eq (es : List Expr) : Expr.namesAll es = es.flatMap Expr.names := by
  induction es with
  | nil => rfl
  | cons e es ih => rw [Expr.namesAll, ih, List.flatMap_cons]

theorem Expr.namesEntries_eq (es : List (String × Expr)) :
    Expr.namesEntries es = es.flatMap fun p => (.key, p.1) :: p.2.names := by
  induction es with
  | nil => rfl
  | cons e es ih => rw [Expr.namesEntries, ih, List.flatMap_cons, List.cons_append]

namespace Grammar

variable {ts us vs : List Token} {names more : List (NameRole × String)} {e : Expr} {s : Stratum}

/-- The token has the name, in its role. -/
inductive Bears : NameRole × String → Token → Prop
  | reference (name : String) : Bears (.reference, name) (.identifier name)
  | property {t : Token} {name : String} (h : IsName t name) : Bears (.property, name) t
  | key {t : Token} {name : String} (h : IsKey t name) : Bears (.key, name) t

/-- The names are those of some of the tokens, in order. -/
def Carries (ts : List Token) (names : List (NameRole × String)) : Prop :=
  ∃ us, us.Sublist ts ∧ List.Forall₂ Bears names us

namespace Carries

theorem nil (ts : List Token) : Carries ts [] :=
  ⟨[], List.nil_sublist ts, .nil⟩

theorem mono (h : Carries us names) (hsub : us.Sublist ts) : Carries ts names := by
  obtain ⟨ws, hws, hnames⟩ := h
  exact ⟨ws, hws.trans hsub, hnames⟩

theorem cons {n : NameRole × String} {t : Token} (hn : Bears n t) (h : Carries ts names) :
    Carries (t :: ts) (n :: names) := by
  obtain ⟨us, hus, hnames⟩ := h
  exact ⟨t :: us, hus.cons_cons t, .cons hn hnames⟩

theorem skip (h : Carries ts names) (t : Token) : Carries (t :: ts) names :=
  h.mono (List.sublist_cons_self t ts)

theorem append (h : Carries ts names) (h' : Carries us more) : Carries (ts ++ us) (names ++ more) := by
  obtain ⟨ws, hws, hnames⟩ := h
  obtain ⟨ws', hws', hnames'⟩ := h'
  exact ⟨ws ++ ws', hws.append hws', List.rel_append hnames hnames'⟩

theorem bracketed (h : Carries ts names) (left right : Punct) : Carries (bracketed left ts right) names :=
  (h.mono (List.sublist_append_left ts [.punct right])).skip _

theorem separated {α : Type} {items : List α} {written : α → List Token}
    {named : α → List (NameRole × String)} (h : ∀ p ∈ items, Carries (written p) (named p)) :
    Carries (separated (items.map written)) (items.flatMap named) := by
  induction items with
  | nil => exact nil _
  | cons p items ih =>
    rw [List.forall_mem_cons] at h
    rw [List.flatMap_cons, List.map_cons]
    by_cases hne : items.map written = []
    · obtain rfl := List.map_eq_nil_iff.mp hne
      simpa using h.1
    · rw [separated_cons _ hne]
      exact h.1.append ((ih h.2).skip _)

theorem arguments {args : List Phrase} (h : ∀ p ∈ args, Carries p.tokens p.tree.names) :
    Carries (argumentTokens args) (Expr.namesAll (args.map Phrase.tree)) := by
  rw [Expr.namesAll_eq, List.flatMap_map]
  exact (separated h).bracketed _ _

end Carries

theorem Named.carries {name : String} (h : Named ts name) : Carries ts [(.reference, name)] := by
  induction h with
  | identifier name => exact (Carries.nil []).cons (.reference name)
  | group _ ih => exact ih.bracketed _ _

/-- The operators of a stratum join the names of their operands. -/
theorem names_of_mem_operators {p : Punct} {make : Expr → Expr → Expr} (h : (p, make) ∈ s.operators)
    (left right : Expr) : (make left right).names = left.names ++ right.names := by
  have hall : ∀ q ∈ s.operators, (q.2 left right).names = left.names ++ right.names := by
    cases s <;> simp [Stratum.operators, Expr.names]
  exact hall _ h

theorem Derives.carries (h : Derives s ts e) : Carries ts e.names := by
  induction h with
  | literal => exact .nil _
  | identifier name => exact (Carries.nil []).cons (.reference name)
  | group _ ih => exact ih.bracketed _ _
  | array _ _ ih =>
    rw [Expr.names, Expr.namesAll_eq, List.flatMap_map]
    exact ((Carries.separated ih).mono (List.sublist_append_left _ _)).bracketed _ _
  | object keys _ _ ih =>
    rw [Expr.names, Expr.namesEntries_eq, List.flatMap_map]
    refine ((Carries.separated fun p hp => ?_).mono (List.sublist_append_left _ _)).bracketed _ _
    exact ((ih p hp).skip _).cons (.key (keys p hp))
  | primary _ ih | suffixed _ ih | tighter _ _ ih | or _ ih | expression _ ih => exact ih
  | member _ hname ih => exact ih.append (((Carries.nil []).cons (.property hname)).skip _)
  | method _ hname _ ih ihargs => exact ih.append (((Carries.arguments ihargs).cons (.property hname)).skip _)
  | index _ _ ih ihi => exact ih.append (ihi.bracketed _ _)
  | call named _ ihargs => exact named.carries.append (.arguments ihargs)
  | unary _ _ ih => exact ih.skip _
  | binary operator _ _ ihl ihr =>
    rw [names_of_mem_operators operator]
    exact ihl.append (ihr.skip _)
  | conditional _ _ _ ihc ihyes ihno => exact ihc.append ((ihyes.append (ihno.skip _)).skip _)
  | assign named _ ih => exact named.carries.append (ih.skip _)

end Grammar

namespace Lexer

open Text

variable {source : String} {text : List Char} {name : String} {t : Token} {l : Lexeme}

/-! ### The text of a name -/

theorem exists_of_wordToken {word : String} (h : wordToken word = t) :
    t = .identifier word ∨ (∃ k, t = .keyword k ∧ (word = k.text ∨ (k = .null ∧ word = "undefined"))) := by
  unfold wordToken at h
  split at h
  · next hword => exact .inr ⟨.true, h.symm, .inl hword⟩
  split at h
  · next hword => exact .inr ⟨.false, h.symm, .inl hword⟩
  split at h
  · next hword =>
    rw [Bool.or_eq_true, decide_eq_true_eq, decide_eq_true_eq] at hword
    exact .inr ⟨.null, h.symm, hword.imp_right fun hword => ⟨rfl, hword⟩⟩
  · exact .inl h.symm

theorem Writes.identifier (h : Writes (.identifier name) text) : text = name.toList := by
  generalize ht : Token.identifier name = t at h
  cases h with
  | word =>
    rcases exists_of_wordToken ht.symm with hname | ⟨k, hk, -⟩
    · cases hname
      exact (String.toList_ofList).symm
    · cases hk
  | number | string | punct => cases ht

/-- `undefined` is the other way to write `null`. -/
theorem Writes.keyword {k : Keyword} (h : Writes (.keyword k) text) :
    text = k.text.toList ∨ (k = .null ∧ text = "undefined".toList) := by
  generalize ht : Token.keyword k = t at h
  cases h with
  | word =>
    rcases exists_of_wordToken ht.symm with hname | ⟨k', hk, hword⟩
    · cases hname
    · cases hk
      refine hword.imp (fun hword => ?_) fun hword => ⟨hword.1, ?_⟩
      · rw [← hword, String.toList_ofList]
      · rw [← hword.2, String.toList_ofList]
  | number | string | punct => cases ht

/-- What the source holds between the offsets of a token. -/
theorem StandsIn.slice? {cs : List Char} (h : StandsIn cs l) :
    ∃ text, slice? cs l.start l.stop = some text ∧ Writes l.token text := by
  obtain ⟨before, text, after, rfl, hwrites, hstart, hstop⟩ := h
  refine ⟨text, ?_, hwrites⟩
  rw [hstart, hstop, slice?_append]

/-- The name is the text of the token in the source, except where a property is written `undefined`, and
except for an object key that is a literal. -/
inductive Spelled (source : String) : NameRole × String → Lexeme → Prop
  | text {role : NameRole} {name : String} {l : Lexeme}
    (h : Text.slice? source.toList l.start l.stop = some name.toList) : Spelled source (role, name) l
  | undefined {l : Lexeme} (h : Text.slice? source.toList l.start l.stop = some "undefined".toList) :
    Spelled source (.property, "null") l
  | string {l : Lexeme} {s : String} (h : l.token = .string s) : Spelled source (.key, s) l
  | number {l : Lexeme} {x : Float} (h : l.token = .number x) :
    Spelled source (.key, Number.Layout.plain.text x) l

open Grammar in
theorem spelled_of_bears {n : NameRole × String} (hn : Bears n l.token) (hl : StandsIn source.toList l) :
    Spelled source n l := by
  obtain ⟨text, hslice, hwrites⟩ := hl.slice?
  generalize ht : l.token = t at hn hwrites
  have hidentifier : ∀ {role name}, Writes (.identifier name) text → Spelled source (role, name) l :=
    fun hwrites => .text (by rw [hslice, hwrites.identifier])
  cases hn with
  | reference name => exact hidentifier hwrites
  | property hname =>
    cases hname with
    | identifier name => exact hidentifier hwrites
    | keyword k =>
      rcases hwrites.keyword with rfl | ⟨rfl, rfl⟩
      · exact .text hslice
      · exact .undefined hslice
  | key hkey =>
    cases hkey with
    | identifier name => exact hidentifier hwrites
    | string s => exact .string ht
    | number x => exact .number ht

end Lexer

/-- The names in an accepted tree are those of tokens of the source, one after the other. -/
theorem names_of_parse {source : String} {e : Expr} (h : parse source = .ok e) :
    ∃ ls, ls.Sublist (Lexer.lex source).tokens ∧ List.Forall₂ (Lexer.Spelled source) e.names ls := by
  have hderives : Grammar.Derives .expression (Parser.tokens (Lexer.lex source).tokens) e := by
    unfold parse at h
    dsimp only at h
    split at h
    · exact Parser.derives_of_parseTokens h
    · cases h
  obtain ⟨us, hus, hnames⟩ := hderives.carries
  obtain ⟨ls, hls, rfl⟩ := List.sublist_map_iff.mp hus
  refine ⟨ls, hls, ?_⟩
  rw [List.forall₂_map_right_iff, List.forall₂_iff_zip] at hnames
  refine List.forall₂_iff_zip.mpr ⟨hnames.1, fun {n l} hmem => ?_⟩
  exact Lexer.spelled_of_bears (hnames.2 hmem) (Lexer.standsIn_of_mem (hls.subset (List.of_mem_zip hmem).2))

/-- A property that is written `undefined` gets the name `null`. -/
example : parse "a.undefined" = .ok (.member (.identifier "a") "null") := by
  with_unfolding_all rfl

end TreeTemplate
