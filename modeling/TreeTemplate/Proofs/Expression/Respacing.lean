import Mathlib.Data.List.Forall2
import TreeTemplate.Proofs.Expression.Caching
import TreeTemplate.Proofs.Expression.Lists
import TreeTemplate.Proofs.Expression.Recognition
import TreeTemplate.Proofs.Expression.Rewording
import TreeTemplate.Proofs.Expression.Spelling
import TreeTemplate.Proofs.Markup.Entity

/-!
What a list makes of its expressions.  A list gives an expression back with other blanks around its doubled
bars (`respace`), those inside string literals too.  It has the same tokens all the same, string literals
aside (`Lexer.Spells.respace`); so a compiled list has the trees of its expressions, each string literal
in them respaced (`compileList_joined`), and no other trees (`Compiles.unique`).
-/

namespace TreeTemplate

open Text

variable {c : Char} {cs w before after rest : List Char}

/-! ### The text behind a label -/

/-- A text as a list gives it back behind other characters: blanks at its front stay. -/
def respaceTail (cs : List Char) : List Char :=
  trimEndChars (cutDoubled '|' cs).1 ++ (cutDoubled '|' cs).2.flatMap fun p => doubleBar ++ trimChars p

theorem cutDoubled_trimStartChars (cs : List Char) : cutDoubled '|' (trimStartChars cs) =
    (trimStartChars (cutDoubled '|' cs).1, (cutDoubled '|' cs).2) := by
  induction cs with
  | nil => rfl
  | cons c cs ih =>
    by_cases hc : isBlank c = true
    · rw [trimStartChars_cons hc, ih, cutDoubled_cons (Or.inl (ne_bar_of_isBlank hc)), trimStartChars_cons hc]
    · rw [Bool.not_eq_true] at hc
      rw [trimStartChars_keep hc]
      by_cases hpair : c ≠ '|' ∨ cs.head? ≠ some '|'
      · rw [cutDoubled_cons hpair, trimStartChars_keep hc]
      · rw [not_or, not_not, not_not] at hpair
        obtain ⟨rfl, hhead⟩ := hpair
        obtain ⟨more, rfl⟩ := List.head?_eq_some_iff.mp hhead
        rw [cutDoubled_pair]
        rfl

/-- At the front of a list the blanks before a text go as well. -/
theorem respace_eq_respaceTail (cs : List Char) : respace cs = respaceTail (trimStartChars cs) := by
  rw [respace, splitDoubled, List.map_cons, intercalate_cons, List.flatMap_map, respaceTail,
    cutDoubled_trimStartChars]
  rfl

@[simp]
theorem respaceTail_nil : respaceTail [] = [] :=
  rfl

theorem respaceTail_bars (cs : List Char) :
    respaceTail ('|' :: '|' :: cs) = doubleBar ++ respace cs := by
  rw [respaceTail, cutDoubled_pair, splitDoubled, respace, splitDoubled, List.map_cons, intercalate_cons,
    List.flatMap_map, List.flatMap_cons, List.append_assoc]
  rfl

/-- A character that is neither blank nor a bar keeps the two sides apart. -/
theorem respaceTail_append (before after : List Char) (hblank : isBlank c = false) (hbar : c ≠ '|') :
    respaceTail (before ++ c :: after) = respaceTail (before ++ [c]) ++ respaceTail after := by
  rcases cutDoubled_append before hbar with ⟨p, -, hcut⟩ | ⟨p, ps, q, -, hcut⟩
  · simp [respaceTail, hcut, cutDoubled, trimEndChars_append hblank]
  · simp [respaceTail, hcut, cutDoubled, trimChars_append hblank]

theorem respaceTail_cons (hblank : isBlank c = false) (hbar : c ≠ '|' ∨ cs.head? ≠ some '|') :
    respaceTail (c :: cs) = c :: respaceTail cs := by
  rw [respaceTail, cutDoubled_cons hbar, trimEndChars_keep hblank, List.cons_append, respaceTail]

theorem respaceTail_word (h : ∀ c ∈ w, Lexer.isBreak c = false) (cs : List Char) :
    respaceTail (w ++ cs) = w ++ respaceTail cs := by
  induction w with
  | nil => rfl
  | cons c w ih =>
    rw [List.forall_mem_cons] at h
    obtain ⟨hblank, hbar⟩ := Lexer.not_isBreak h.1
    rw [List.cons_append, respaceTail_cons hblank (Or.inl hbar), ih h.2, List.cons_append]

theorem respace_keep (h : isBlank c = false) (cs : List Char) :
    respace (c :: cs) = respaceTail (c :: cs) := by
  rw [respace_eq_respaceTail, trimStartChars_keep h]

theorem respace_cons (h : isBlank c = true) (cs : List Char) : respace (c :: cs) = respace cs := by
  rw [respace_eq_respaceTail, trimStartChars_cons h, respace_eq_respaceTail]

theorem respace_word (hne : w ≠ []) (h : ∀ c ∈ w, Lexer.isBreak c = false) (cs : List Char) :
    respace (w ++ cs) = w ++ respaceTail cs := by
  obtain ⟨c, w, rfl⟩ := List.exists_cons_of_ne_nil hne
  rw [List.cons_append, respace_keep (Lexer.not_isBreak (h c List.mem_cons_self)).1, ← List.cons_append,
    respaceTail_word h]

/-- A blank goes if nothing but blanks stands between it and a doubled bar, or the end. -/
theorem respaceTail_blank (h : isBlank c = true) (cs : List Char) :
    respaceTail (c :: cs) = respaceTail cs ∧ (∀ d ∈ (respaceTail cs).head?, d = ' ') ∨
      respaceTail (c :: cs) = c :: respaceTail cs := by
  rw [respaceTail, cutDoubled_cons (Or.inl (ne_bar_of_isBlank h)), respaceTail]
  dsimp only
  rcases trimEndChars_cons h with ⟨hgone, hrest⟩ | ⟨-, hkept⟩
  · left
    rw [hgone, hrest]
    refine ⟨rfl, ?_⟩
    cases (cutDoubled '|' cs).2 with
    | nil => simp
    | cons p ps => simp [doubleBar]
  · right
    rw [hkept, List.cons_append]

theorem head?_respaceTail (cs : List Char) :
    ∀ d ∈ (respaceTail cs).head?, d = ' ' ∨ d ∈ cs.head? := by
  cases cs with
  | nil => simp
  | cons c cs =>
    intro d hd
    by_cases hblank : isBlank c = true
    · rcases respaceTail_blank hblank cs with ⟨heq, hspace⟩ | heq
      · exact Or.inl (hspace d (heq ▸ hd))
      · rw [heq] at hd
        exact Or.inr hd
    · rw [Bool.not_eq_true] at hblank
      by_cases hbar : c ≠ '|' ∨ cs.head? ≠ some '|'
      · rw [respaceTail_cons hblank hbar] at hd
        exact Or.inr hd
      · rw [not_or, not_not, not_not] at hbar
        obtain ⟨rfl, hhead⟩ := hbar
        obtain ⟨more, rfl⟩ := List.head?_eq_some_iff.mp hhead
        rw [respaceTail_bars] at hd
        exact Or.inl (Option.some.inj hd).symm

/-- No token goes on with what stands at a break. -/
theorem halts_respaceTail (h : ∀ d ∈ cs.head?, Lexer.isBreak d = true) :
    Lexer.Halts (respaceTail cs) := by
  intro d hd
  rcases head?_respaceTail cs d hd with rfl | hmem
  · decide
  · exact Lexer.goesOn_of_isBreak (h d hmem)

/-! ### String literals -/

namespace Lexer

variable {quote : Char} {y text : List Char}

/-- The text ends a string literal after its opening quote. -/
def Closable (quote : Char) (y : List Char) : Prop :=
  ∃ text, Closes quote y text

theorem Closable.plain (h : Closable quote y) (hslash : c ≠ '\\') (hquote : c ≠ quote) :
    Closable quote (c :: y) := by
  obtain ⟨text, hy⟩ := h
  exact ⟨c :: text, hy.plain hslash hquote⟩

theorem Closable.doubleBar (h : Closable quote y) (hquote : IsQuote quote) :
    Closable quote (doubleBar ++ y) := by
  have hne : ∀ c ∈ TreeTemplate.doubleBar, c ≠ '\\' ∧ c ≠ quote := by
    rcases hquote with rfl | rfl <;> simp [TreeTemplate.doubleBar]
  simp only [TreeTemplate.doubleBar, List.forall_mem_cons] at hne
  obtain ⟨h₁, h₂, h₃, h₄, -⟩ := hne
  exact (((h.plain h₄.1 h₄.2).plain h₃.1 h₃.2).plain h₂.1 h₂.2).plain h₁.1 h₁.2

theorem not_isBreak_of_simpleEscape? {x d : Char} (h : simpleEscape? x = some d) :
    isBreak x = false := by
  unfold simpleEscape? at h
  split at h
  all_goals first | decide | cases h

theorem not_isBreak_of_unitEscape? {hex : List Char} {d : Char} (h : unitEscape? hex = some d) :
    ∀ c ∈ hex, isBreak c = false := by
  intro c hc
  have hblank : isBlank c = true → ((Number.hexValue? c).isNone && c != '+') = true :=
    of_isBlank (p := fun c => (Number.hexValue? c).isNone && c != '+') (by decide +kernel)
  rcases unitEscape?_chars h c hc with rfl | hdigit
  · decide
  · rw [isBreak, Bool.or_eq_false_iff, beq_eq_false_iff_ne, ← Bool.not_eq_true]
    refine ⟨fun h => ?_, ?_⟩
    · have hnone := hblank h
      rw [Bool.and_eq_true, Option.isNone_iff_eq_none] at hnone
      rw [hnone.1] at hdigit
      cases hdigit
    · rintro rfl
      revert hdigit
      decide

theorem closable_word (hne : w ≠ []) (hw : ∀ c ∈ w, isBreak c = false)
    (h : Closable quote (w ++ respaceTail cs)) :
    Closable quote (respaceTail (w ++ cs)) ∧ Closable quote (respace (w ++ cs)) := by
  rw [respace_word hne hw, respaceTail_word hw]
  exact ⟨h, h⟩

/-- A string literal is still one with other blanks around its doubled bars. -/
theorem Closes.respace (hquote : IsQuote quote) (h : Closes quote y text) :
    (Closable quote (respaceTail y) ∧ Closable quote (TreeTemplate.respace y)) ∧
      ∀ z, y = '|' :: z → Closable quote (TreeTemplate.respace z) := by
  induction h with
  | closing =>
    have hkeep : isBlank quote = false ∧ quote ≠ '|' := by rcases hquote with rfl | rfl <;> decide
    have hclosable : Closable quote (respaceTail [quote]) := by
      rw [respaceTail_cons hkeep.1 (Or.inl hkeep.2), respaceTail_nil]
      exact ⟨[], .closing⟩
    refine ⟨⟨hclosable, ?_⟩, fun z hz => absurd (List.cons.inj hz).1 hkeep.2⟩
    rwa [respace_keep hkeep.1]
  | @plain c y text hslash hne h ih =>
    obtain ⟨⟨htail, hfront⟩, hbars⟩ := ih
    refine ⟨?_, fun z hz => (List.cons.inj hz).2 ▸ hfront⟩
    by_cases hblank : isBlank c = true
    · rw [respace_cons hblank]
      refine ⟨?_, hfront⟩
      rcases respaceTail_blank hblank y with ⟨heq, -⟩ | heq
      · rwa [heq]
      · rw [heq]
        exact htail.plain hslash hne
    · rw [Bool.not_eq_true] at hblank
      rw [respace_keep hblank, and_self_iff]
      by_cases hbar : c ≠ '|' ∨ y.head? ≠ some '|'
      · rw [respaceTail_cons hblank hbar]
        exact htail.plain hslash hne
      · rw [not_or, not_not, not_not] at hbar
        obtain ⟨rfl, hhead⟩ := hbar
        obtain ⟨z, rfl⟩ := List.head?_eq_some_iff.mp hhead
        rw [respaceTail_bars]
        exact (hbars z rfl).doubleBar hquote
  | @escape x d y text hu hx h ih =>
    obtain ⟨text', hy⟩ := ih.1.1
    have hword : ∀ c ∈ ['\\', x], isBreak c = false :=
      List.forall_mem_cons.mpr ⟨by decide, by simpa using not_isBreak_of_simpleEscape? hx⟩
    exact ⟨closable_word (List.cons_ne_nil _ _) hword ⟨_, hy.escape hu hx⟩, by simp⟩
  | @unit x₁ x₂ x₃ x₄ d y text hx h ih =>
    obtain ⟨text', hy⟩ := ih.1.1
    have hword : ∀ c ∈ ['\\', 'u', x₁, x₂, x₃, x₄], isBreak c = false :=
      List.forall_mem_cons.mpr ⟨by decide, List.forall_mem_cons.mpr ⟨by decide,
        not_isBreak_of_unitEscape? hx⟩⟩
    exact ⟨closable_word (List.cons_ne_nil _ _) hword ⟨_, hy.unit hx⟩, by simp⟩

/-- The text is a string literal, and `text` is what it stands for. -/
structure Stands (raw : List Char) (text : String) : Prop where
  ends : ∃ stop, (lex (String.ofList raw)).outcome = .ok stop
  tokens_eq : Parser.tokens (lex (String.ofList raw)).tokens = [.string text]

theorem IsQuote.not_isAsciiBlank (h : IsQuote c) : isAsciiBlank c = false := by
  rcases h with rfl | rfl <;> decide

theorem IsQuote.not_isBreak (h : IsQuote c) : isBlank c = false ∧ c ≠ '|' := by
  rcases h with rfl | rfl <;> decide

theorem Closes.stands (hquote : IsQuote quote) (h : Closes quote y text) :
    Stands (quote :: y) (String.ofList text) := by
  have hcut : Cuts quote y (.string (String.ofList text)) [] := by simpa using h.cuts hquote []
  obtain ⟨stop, hstop, htokens⟩ := (Spells.token hquote.not_isAsciiBlank hcut .nil).lexFrom 0
  constructor
  · rw [lex, String.toList_ofList]
    exact ⟨stop, hstop⟩
  · rw [lex, String.toList_ofList]
    exact htokens

theorem respaceTail_literal (hquote : IsQuote quote) (h : Closes quote y text) (after : List Char) :
    respaceTail (quote :: y ++ after) = quote :: respaceTail y ++ respaceTail after := by
  obtain ⟨hblank, hbar⟩ := hquote.not_isBreak
  obtain ⟨front, rfl⟩ := h.ends
  have happend : quote :: (front ++ [quote]) ++ after = (quote :: front) ++ quote :: after := by simp
  rw [happend, respaceTail_append _ after hblank hbar, List.cons_append,
    respaceTail_cons hblank (Or.inl hbar)]

/-! ### The tokens of a text behind a label -/

/-- No token begins with a blank. -/
theorem not_isBlank_of_lexToken {pos : Nat} {cut : Cut} (h : lexToken pos c rest = .ok cut) :
    isBlank c = false := by
  rw [← Bool.not_eq_true]
  intro hblank
  have hplain : (!(isAsciiDigit c || c == '.' || (singlePunct? c).isSome || isIdentStart c ||
      ['=', '!', '<', '>', '&', '|', '\'', '"'].contains c)) = true :=
    of_isBlank (p := fun c => !(isAsciiDigit c || c == '.' || (singlePunct? c).isSome ||
      isIdentStart c || ['=', '!', '<', '>', '&', '|', '\'', '"'].contains c)) (by decide +kernel) hblank
  simp only [Bool.not_eq_true', Bool.or_eq_false_iff, List.contains_eq_mem, decide_eq_false_iff_not,
    List.mem_cons, not_or, beq_eq_false_iff_ne, Option.isSome_eq_false_iff,
    Option.isNone_iff_eq_none] at hplain
  obtain ⟨⟨⟨⟨hdigit, hdot⟩, hpunct⟩, hstart⟩, hrest⟩ := hplain
  simp [lexToken, cutPunct?, hdigit, hdot, hpunct, hstart, hrest] at h

theorem exists_bars {pos : Nat} {cut : Cut} (h : lexToken pos '|' rest = .ok cut) :
    rest = '|' :: cut.rest ∧ cut.token = .punct .orOr := by
  cases rest with
  | nil => cases h
  | cons d rest =>
    by_cases hd : d = '|'
    · subst hd
      cases h
      exact ⟨rfl, rfl⟩
    · have hnone : cutPunct? '|' (d :: rest) = none := by
        simp [cutPunct?, singlePunct?, doubled?, hd]
      have hdigit : isAsciiDigit '|' = false := by decide
      have hstart : isIdentStart '|' = false := by decide
      simp [lexToken, hdigit, hnone, hstart] at h

theorem cuts_bars (after : List Char) : Cuts '|' ('|' :: after) (.punct .orOr) after := by
  intro pos
  exact ⟨2, rfl⟩

theorem not_mem_natChars (n : Nat) : '|' ∉ Number.natChars n := fun h => by
  have hdigit := Nat.isDigit_of_mem_toDigits (by decide) (by decide) h
  revert hdigit
  decide

theorem not_mem_zeros (n : Nat) : '|' ∉ Number.zeros n := fun h => by
  cases List.eq_of_mem_replicate h

theorem not_mem_positionalChars {digits : List Char} (h : '|' ∉ digits) (pointZero : Bool) (e : Int) :
    '|' ∉ Number.positionalChars pointZero digits e := by
  have htake : ∀ n, '|' ∉ digits.take n := fun n hmem => h (List.mem_of_mem_take hmem)
  have hdrop : ∀ n, '|' ∉ digits.drop n := fun n hmem => h (List.mem_of_mem_drop hmem)
  unfold Number.positionalChars
  dsimp only
  split
  · split <;> simp [h, not_mem_zeros]
  · split <;> simp [h, not_mem_zeros, htake, hdrop]

theorem not_mem_scientificChars {digits : List Char} (h : '|' ∉ digits) (e : Int) :
    '|' ∉ Number.scientificChars digits e := by
  have htake : ∀ n, '|' ∉ digits.take n := fun n hmem => h (List.mem_of_mem_take hmem)
  have htail : '|' ∉ digits.tail := fun hmem => h (List.mem_of_mem_tail hmem)
  unfold Number.scientificChars
  dsimp only
  split_ifs <;> simp [htake, htail, not_mem_natChars]

theorem not_mem_chars (l : Number.Layout) (x : Float) : '|' ∉ l.chars x := by
  unfold Number.Layout.chars
  split
  · decide
  · split <;> decide
  · have hdigits := not_mem_natChars
    dsimp only
    split_ifs <;> simp [not_mem_positionalChars, not_mem_scientificChars, hdigits]

/-- A token that is no string literal has no bars in its name. -/
theorem bare_of_lexToken {pos : Nat} {cut : Cut} (hquote : ¬ IsQuote c)
    (h : lexToken pos c rest = .ok cut) : cut.token.Bare := by
  unfold lexToken at h
  split at h
  · dsimp only at h
    split at h
    · next x _ =>
      cases h
      refine ⟨by simp, fun key hkey => ?_⟩
      obtain rfl := Option.some.inj hkey
      rw [Number.Layout.text, String.toList_ofList]
      exact not_mem_chars _ x
    · cases h
  · split at h
    · cases h
      exact ⟨by simp, by simp [Parser.objectKey?]⟩
    · rw [if_neg (by simpa [IsQuote] using hquote)] at h
      split at h
      · next hstart =>
        cases h
        have hword : '|' ∉ c :: rest.takeWhile isIdentContinue := by
          rw [List.mem_cons, not_or]
          constructor
          · rintro rfl
            revert hstart
            decide
          · intro hmem
            have hcontinue := List.mem_takeWhile_imp hmem
            revert hcontinue
            decide
        unfold wordToken
        split_ifs
        all_goals constructor
        all_goals simp [Parser.objectKey?, hword]
      · cases h

/-- A word is kept up to its end, and there its tokens end too. -/
theorem lexToken_respaceTail {cut : Cut} (hbar : c ≠ '|') (hquote : ¬ IsQuote c)
    (hblank : isBlank c = false) (h : lexToken 0 c rest = .ok cut) :
    ∃ rest', respaceTail (c :: rest) = c :: rest' ∧ Cuts c rest' cut.token (respaceTail cut.rest) := by
  obtain ⟨z, u, rfl, hz, hu⟩ : ∃ z u, rest = z ++ u ∧ (∀ d ∈ z, isBreak d = false) ∧
      ∀ d ∈ u.head?, isBreak d = true := by
    refine ⟨rest.takeWhile (!isBreak ·), rest.dropWhile (!isBreak ·),
      List.takeWhile_append_dropWhile.symm, fun d hd => ?_, fun d hd => ?_⟩
    · simpa using List.mem_takeWhile_imp hd
    · have hhead := List.head?_dropWhile_not (!isBreak ·) rest
      rw [Option.mem_def.mp hd] at hhead
      simpa using hhead
  have hhalts : Halts u := fun d hd => goesOn_of_isBreak (hu d hd)
  have hword : ∀ d ∈ c :: z, isBreak d = false :=
    List.forall_mem_cons.mpr ⟨by simp [isBreak, hblank, hbar], hz⟩
  rw [hhalts.lexToken_append hbar hquote] at h
  cases hlex : lexToken 0 c z with
  | error err =>
    rw [hlex] at h
    cases h
  | ok cut' =>
    rw [hlex] at h
    cases h
    obtain ⟨y, hy, -⟩ := Takes.lexToken hbar hquote hlex
    have hrest : ∀ d ∈ cut'.rest, isBreak d = false := fun d hd => hz d (hy ▸ List.mem_append_right y hd)
    refine ⟨z ++ respaceTail u, ?_, fun pos => ⟨cut'.bytes, ?_⟩⟩
    · rw [← List.cons_append, respaceTail_word hword, List.cons_append]
    · rw [(halts_respaceTail hu).lexToken_append hbar hquote, lexToken_anywhere hquote hlex pos,
        respaceTail_word hrest]
      rfl

/-- What a string literal stands for, and what it stands for with one space on either side of every doubled
bar in it. -/
structure Respelt (raw : List Char) (p : String × String) : Prop where
  before : Stands raw p.1
  after : Stands (TreeTemplate.respace raw) p.2

/-- With other blanks around its doubled bars a text has the same tokens, string literals respaced. -/
theorem Spells.respace {ts : List Token} (h : Spells cs ts) :
    ∃ ps ts', List.Forall₂ Respelt (stringLiterals cs) ps ∧ Token.Reworded ps ts ts' ∧
      Spells (respaceTail cs) ts' ∧ Spells (TreeTemplate.respace cs) ts' := by
  induction h with
  | nil => exact ⟨[], [], .nil, .nil, .nil, .nil⟩
  | @blank c rest ts hc hrest ih =>
    have hblank : isBlank c = true := isBlank_of_isAsciiBlank hc
    have hquote : ¬ IsQuote c := fun hquote => by simp [hquote.not_isAsciiBlank] at hc
    rw [stringLiterals_cons hquote]
    obtain ⟨ps, ts', hps, hsame, htail, hfront⟩ := ih
    refine ⟨ps, ts', hps, hsame, ?_, respace_cons hblank rest ▸ hfront⟩
    rcases respaceTail_blank hblank rest with ⟨heq, -⟩ | heq
    · rwa [heq]
    · rw [heq]
      exact htail.blank hc
  | @token c rest after t ts hc hcut hafter ih =>
    obtain ⟨bytes, hlex⟩ := hcut 0
    obtain ⟨ps, ts', hps, hsame, htail, hfront⟩ := ih
    rw [respace_keep (not_isBlank_of_lexToken hlex)]
    simp only [and_self]
    by_cases hquote : IsQuote c
    · obtain ⟨y, text, rfl, hrest, hy⟩ := exists_literal hquote hlex
      dsimp only at hrest
      subst hrest
      obtain ⟨text', hy'⟩ := (hy.respace hquote).1.1
      have hraw : TreeTemplate.respace (c :: y) = c :: respaceTail y := by
        rw [respace_keep hquote.not_isBreak.1,
          respaceTail_cons hquote.not_isBreak.1 (Or.inl hquote.not_isBreak.2)]
      have hrespelt : Respelt (c :: y) (String.ofList text, String.ofList text') :=
        ⟨hy.stands hquote, hraw ▸ hy'.stands hquote⟩
      refine ⟨_ :: ps, _ :: ts', ?_, .string _ (String.ofList text') hsame, ?_⟩
      · rw [← List.cons_append, hy.stringLiterals_append hquote]
        exact .cons hrespelt hps
      · rw [← List.cons_append, respaceTail_literal hquote hy]
        exact .token hc (hy'.cuts hquote _) htail
    rw [stringLiterals_cons hquote]
    have hbare : t.Bare := bare_of_lexToken hquote hlex
    by_cases hbar : c = '|'
    · subst hbar
      obtain ⟨rfl, rfl⟩ := exists_bars hlex
      rw [stringLiterals_cons hquote]
      refine ⟨ps, _ :: ts', hps, .other hbare hsame, ?_⟩
      rw [respaceTail_bars]
      exact .blank (by decide) (.token hc (cuts_bars _) (.blank (by decide) hfront))
    rw [(Takes.lexToken hbar hquote hlex).stringLiterals_eq]
    obtain ⟨rest', heq, hcut'⟩ :=
      lexToken_respaceTail hbar hquote (not_isBlank_of_lexToken hlex) hlex
    refine ⟨ps, t :: ts', hps, .other hbare hsame, ?_⟩
    rw [heq]
    exact .token hc hcut' htail

/-! ### Which texts are respaced -/

theorem quoted_of_mem_literalsFrom {opened : Option (Char × List Char)} {raw : List Char}
    (hopened : ∀ quote seen, opened = some (quote, seen) → IsQuote quote ∧ ∃ back, seen = back ++ [quote])
    (h : raw ∈ literalsFrom opened cs) : ∃ quote front, IsQuote quote ∧ raw = quote :: front ++ [quote] := by
  fun_induction literalsFrom opened cs with
  | case1 => cases h
  | case2 c rest hc ih =>
    refine ih (fun quote seen hsome => ?_) h
    cases hsome
    exact ⟨hc, [], rfl⟩
  | case3 c rest hc ih => exact ih (fun _ _ hsome => by cases hsome) h
  | case4 quote seen c rest ih =>
    obtain ⟨hquote, back, rfl⟩ := hopened _ _ rfl
    refine ih (fun _ _ hsome => ?_) h
    cases hsome
    exact ⟨hquote, c :: '\\' :: back, rfl⟩
  | case5 seen c rest _ ih =>
    obtain ⟨hquote, back, rfl⟩ := hopened _ _ rfl
    rcases List.mem_cons.mp h with rfl | h
    · exact ⟨c, back.reverse, hquote, by simp⟩
    · exact ih (fun _ _ hsome => by cases hsome) h
  | case6 quote seen c rest _ hne ih =>
    obtain ⟨hquote, back, rfl⟩ := hopened _ _ rfl
    refine ih (fun _ _ hsome => ?_) h
    cases hsome
    exact ⟨hquote, c :: back, rfl⟩

theorem respace_of_not_mem {raw : List Char} (hraw : raw ∈ stringLiterals cs) (hbar : '|' ∉ raw) :
    TreeTemplate.respace raw = raw := by
  obtain ⟨quote, front, hquote, rfl⟩ := quoted_of_mem_literalsFrom (by simp) hraw
  have hblank : isBlank quote = false := hquote.not_isBreak.1
  rw [List.cons_append, respace_keep hblank, ← List.cons_append, respaceTail, cutDoubled_of_not_mem hbar,
    trimEndChars_append hblank]
  simp

theorem Closes.mem_bar (h : Closes quote y text) (hquote : quote ≠ '|') (hbar : '|' ∈ y) :
    '|' ∈ text := by
  induction h with
  | closing => exact absurd (List.mem_singleton.mp hbar).symm hquote
  | plain _ _ _ ih =>
    rcases List.mem_cons.mp hbar with rfl | hbar
    · exact List.mem_cons_self
    · exact List.mem_cons_of_mem _ (ih hbar)
  | @escape x d y text _ hx _ ih =>
    have hword := not_isBreak_of_simpleEscape? hx
    have hy : '|' ∈ y := by
      simp only [List.mem_cons] at hbar
      rcases hbar with hslash | rfl | hy
      · cases hslash
      · cases hword
      · exact hy
    exact List.mem_cons_of_mem _ (ih hy)
  | @unit x₁ x₂ x₃ x₄ d y text hx _ ih =>
    have hword : '|' ∉ [x₁, x₂, x₃, x₄] := fun hmem => nomatch not_isBreak_of_unitEscape? hx _ hmem
    have hy : '|' ∈ y := by
      simp only [List.mem_cons, List.not_mem_nil, or_false, not_or] at hbar hword
      grind
    exact List.mem_cons_of_mem _ (ih hy)

theorem not_mem_bar_of_spells_nil (h : Spells cs []) : '|' ∉ cs := by
  generalize hnone : ([] : List Token) = ts at h
  induction h with
  | nil => simp
  | blank hc _ ih =>
    rw [List.mem_cons, not_or]
    refine ⟨?_, ih hnone⟩
    rintro rfl
    cases hc
  | token => cases hnone

theorem Spells.mem_bar {s : String} (h : Spells cs [.string s]) (hbar : '|' ∈ cs) : '|' ∈ s.toList := by
  generalize hone : [Token.string s] = ts at h
  induction h with
  | nil => cases hone
  | blank hc _ ih =>
    rcases List.mem_cons.mp hbar with rfl | hbar
    · cases hc
    · exact ih hbar hone
  | @token c rest after t ts _ hcut hafter _ =>
    cases hone
    obtain ⟨bytes, hlex⟩ := hcut 0
    have hquote : IsQuote c := by
      by_contra hquote
      exact (bare_of_lexToken hquote hlex).ne_string s rfl
    obtain ⟨y, text, htext, rfl, hy⟩ := exists_literal hquote hlex
    have hs : s = String.ofList text := by simpa using htext
    rw [hs, String.toList_ofList]
    have hne : c ≠ '|' := hquote.not_isBreak.2
    simp only [List.mem_cons, List.mem_append, hne.symm, false_or] at hbar
    exact hy.mem_bar hne (hbar.resolve_right (not_mem_bar_of_spells_nil hafter))

namespace Respelt

variable {raw : List Char} {p : String × String}

theorem rightUnique : Relator.RightUnique Respelt := by
  intro raw p q hp hq
  have hbefore := hp.before.tokens_eq.symm.trans hq.before.tokens_eq
  have hafter := hp.after.tokens_eq.symm.trans hq.after.tokens_eq
  exact Prod.ext (by simpa using hbefore) (by simpa using hafter)

theorem eq_of_respace_eq (hp : Respelt raw p) (h : TreeTemplate.respace raw = raw) : p.1 = p.2 := by
  have hafter := hp.after.tokens_eq
  rw [h, hp.before.tokens_eq] at hafter
  simpa using hafter

theorem eq_of_not_mem (hp : Respelt raw p) (hraw : raw ∈ stringLiterals cs) (hbar : '|' ∉ p.1.toList) :
    p.1 = p.2 := by
  obtain ⟨stop, hstop⟩ := hp.before.ends
  have hspells := spells_of_lexFrom hstop
  rw [← lex, hp.before.tokens_eq, String.toList_ofList] at hspells
  exact hp.eq_of_respace_eq (respace_of_not_mem hraw fun hmem => hbar (hspells.mem_bar hmem))

theorem exists_of_mem {literals : List (List Char)} {ps : Rewordings}
    (h : List.Forall₂ Respelt literals ps) (hp : p ∈ ps) : ∃ raw ∈ literals, Respelt raw p := by
  induction h with
  | nil => cases hp
  | @cons raw q literals ps hq _ ih =>
    rcases List.mem_cons.mp hp with rfl | hp
    · exact ⟨raw, List.mem_cons_self, hq⟩
    · obtain ⟨raw', hraw', hrespelt⟩ := ih hp
      exact ⟨raw', List.mem_cons_of_mem _ hraw', hrespelt⟩

end Respelt

end Lexer

/-! ### Compiled lists -/

variable {source : String} {e : Expr}

theorem exists_stop_of_parse (h : parse source = .ok e) : ∃ stop, (Lexer.lex source).outcome = .ok stop := by
  unfold parse at h
  dsimp only at h
  split at h
  · exact ⟨_, by assumption⟩
  · cases h

/-- Every doubled bar inside a string literal has one space on either side. -/
def Spaced (source : String) : Prop :=
  ∀ raw ∈ Lexer.stringLiterals source.toList, respace raw = raw

instance (source : String) : Decidable (Spaced source) :=
  inferInstanceAs (Decidable (∀ raw ∈ Lexer.stringLiterals source.toList, respace raw = raw))

/-- What a listed expression is compiled to: the tree that it spells, each of its string literals respaced. -/
structure Compiles (source : String) (e e' : Expr) : Prop where
  reworded : ∃ ps, List.Forall₂ Lexer.Respelt (Lexer.stringLiterals source.toList) ps ∧
    Expr.Reworded ps [] e e'
  same : Spaced source → e' = e

/-- The source and the tree that it spells leave no choice. -/
theorem Compiles.unique {e₁ e₂ : Expr} (h₁ : Compiles source e e₁) (h₂ : Compiles source e e₂) :
    e₁ = e₂ := by
  obtain ⟨ps, hps, hreworded₁⟩ := h₁.reworded
  obtain ⟨qs, hqs, hreworded₂⟩ := h₂.reworded
  obtain rfl : ps = qs := List.right_unique_forall₂' Lexer.Respelt.rightUnique hps hqs
  have hsettled : ∀ p ∈ ps, '|' ∉ p.1.toList → p.1 = p.2 := fun p hp hbar => by
    obtain ⟨raw, hraw, hrespelt⟩ := Lexer.Respelt.exists_of_mem hps hp
    exact hrespelt.eq_of_not_mem hraw hbar
  exact (hreworded₁.unique hreworded₂ ⟨hsettled, hsettled, rfl⟩).1

/-- An expression with other blanks around its doubled bars keeps its tree, its strings respaced. -/
theorem parse_listed (h : parse source = .ok e) :
    ∃ e', parse (String.ofList (respaceTail source.toList)) = .ok e' ∧ Compiles source e e' := by
  obtain ⟨stop, hstop⟩ := exists_stop_of_parse h
  obtain ⟨ps, ts', hps, hsame, hspells, -⟩ := (Lexer.spells_of_lexFrom hstop).respace
  obtain ⟨stop', hstop', htokens⟩ := hspells.lexFrom 0
  have hlex : Lexer.lex (String.ofList (respaceTail source.toList)) =
      Lexer.lexFrom 0 (respaceTail source.toList) := by rw [Lexer.lex, String.toList_ofList]
  obtain ⟨e', he', hreworded⟩ := parse_of_tokens (hlex ▸ hstop') (by rwa [hlex, htokens]) h
  refine ⟨e', he', ⟨ps, hps, hreworded⟩, fun hspaced => ?_⟩
  have hkept : Expr.Kept ps := fun p hp => by
    obtain ⟨raw, hraw, hrespelt⟩ := Lexer.Respelt.exists_of_mem hps hp
    exact hrespelt.eq_of_respace_eq (hspaced raw hraw)
  exact (hreworded.eq_of_kept hkept).1.symm

/-- A label with an expression. -/
structure ListItem where
  label : String
  source : String
  tree : Expr

namespace ListItem

variable {i : ListItem} {items : List ListItem}

def text (i : ListItem) : String :=
  i.label ++ "=" ++ i.source

/-- The label can be told from the expression, which spells the tree and has no lone bars. -/
structure Sound (i : ListItem) : Prop where
  unbarred : '|' ∉ i.label.toList
  undivided : '=' ∉ i.label.toList
  parses : parse i.source = .ok i.tree
  paired : Paired '|' i.source.toList

theorem toList_text (i : ListItem) : i.text.toList = i.label.toList ++ '=' :: i.source.toList := by
  simp [text]

theorem Sound.cutDoubled_text (h : i.Sound) : cutDoubled '|' i.text.toList =
    (i.label.toList ++ '=' :: (cutDoubled '|' i.source.toList).1, (cutDoubled '|' i.source.toList).2) := by
  rw [toList_text, cutDoubled_append_of_not_mem h.unbarred, cutDoubled_cons (Or.inl (by decide))]

theorem Sound.listable (h : i.Sound) : Listable i.text.toList where
  paired := by
    have hpaired := h.paired
    rw [Paired, splitDoubled, List.forall_mem_cons] at hpaired
    rw [Paired, splitDoubled, h.cutDoubled_text, List.forall_mem_cons, List.mem_append, not_or,
      List.mem_cons, not_or]
    exact ⟨⟨h.unbarred, by decide, hpaired.1⟩, hpaired.2⟩
  opens := by
    rw [h.cutDoubled_text, trimChars_append (by decide)]
    simp

theorem Sound.respace_text (h : i.Sound) : respace i.text.toList =
    trimStartChars i.label.toList ++ '=' :: respaceTail i.source.toList := by
  have hunbarred : '|' ∉ trimStartChars i.label.toList ++ ['='] := by
    rw [List.mem_append, not_or]
    exact ⟨fun hmem => h.unbarred ((List.dropWhile_sublist isBlank).mem hmem), by decide⟩
  rw [respace_eq_respaceTail, toList_text, trimStartChars_append (by decide),
    respaceTail_append _ _ (by decide) (by decide), respaceTail, cutDoubled_of_not_mem hunbarred,
    trimEndChars_append (by decide)]
  simp

/-- The label of an item that a list gives back, and the expression behind it. -/
theorem Sound.splitLabel?_respace (h : i.Sound) :
    splitLabel? (String.ofList (respace i.text.toList)) =
      some (trim i.label, String.ofList (respaceTail i.source.toList)) := by
  have hundivided : '=' ∉ trimStartChars i.label.toList := fun hmem =>
    h.undivided ((List.dropWhile_sublist isBlank).mem hmem)
  rw [splitLabel?, String.toList_ofList, h.respace_text, Markup.cutChars_append hundivided,
    Option.map_some, trimChars, trimStartChars_idempotent, trim, trimChars]

/-- The items as a list has them. -/
def joined (items : List ListItem) : String :=
  " | ".intercalate (items.map text)

theorem respaced_flatMap (front : List Char) (pieces : List (List Char)) :
    Respaced (front ++ pieces.flatMap (['|'] ++ ·)) (front ++ pieces.flatMap ([' ', '|', ' '] ++ ·)) := by
  induction pieces generalizing front with
  | nil => exact .refl _
  | cons p pieces ih =>
    have hrest := ih (front ++ '|' :: p)
    have hbefore := Padded.before front (p ++ pieces.flatMap ([' ', '|', ' '] ++ ·)) isBlank_space
    have hafter := Padded.after (front ++ [' ']) (p ++ pieces.flatMap ([' ', '|', ' '] ++ ·))
      isBlank_space
    simp only [List.flatMap_cons, List.append_assoc, List.cons_append, List.nil_append] at *
    exact hrest.trans _ _ _ ((Relation.EqvGen.rel _ _ hbefore).trans _ _ _ (.rel _ _ hafter))

theorem respaced_joined (items : List ListItem) :
    Respaced (['|'].intercalate (items.map fun i => i.text.toList)) (joined items).toList := by
  rw [joined, String.toList_intercalate, List.map_map]
  cases items with
  | nil => exact .refl _
  | cons i items =>
    rw [List.map_cons, List.map_cons, intercalate_cons]
    exact (intercalate_cons _ _ _).symm ▸ respaced_flatMap _ _

/-- A list is cut into the labels of its items and their expressions, respaced. -/
theorem labelledSources_joined (h : ∀ i ∈ items, i.Sound) : labelledSources (joined items) =
    items.map fun i => (trim i.label, String.ofList (respaceTail i.source.toList)) := by
  have hlistable : ∀ t ∈ items.map fun i => i.text.toList, Listable t := by
    intro t ht
    obtain ⟨i, hi, rfl⟩ := List.mem_map.mp ht
    exact (h i hi).listable
  have htokens : splitList (joined items) = items.map fun i => String.ofList (respace i.text.toList) := by
    rw [splitList, splitListChars_joined hlistable (respaced_joined items), List.map_map, List.map_map]
    rfl
  rw [labelledSources, htokens, List.filterMap_map, ← List.filterMap_eq_map]
  refine List.filterMap_congr fun i hi => ?_
  rw [Function.comp_apply, Function.comp_apply]
  exact (h i hi).splitLabel?_respace

end ListItem

/-- A compiled list has the labels of its items in order, and under each the tree of its expression, the
strings of which are respaced; so it has the trees themselves where the bars inside strings are spaced. -/
theorem compileList_joined {c : Compiler} (hc : c.Reached) {items : List ListItem}
    (hitems : ∀ i ∈ items, i.Sound) :
    List.Forall₂ (fun i p => p.1 = trim i.label ∧ ∃ e, p.2.expr? = some e ∧ Compiles i.source i.tree e)
      items (c.compileList (ListItem.joined items)).1 := by
  obtain ⟨hcompiled, -⟩ := Compiler.compileList_faithful hc.faithful (ListItem.joined items)
  rw [ListItem.labelledSources_joined hitems, List.map_map, ← List.forall₂_eq_eq_eq,
    List.forall₂_map_left_iff, List.forall₂_map_right_iff] at hcompiled
  refine ((List.forall₂_and_left _ _).mpr ⟨hitems, hcompiled.flip⟩).imp fun i p hip => ?_
  obtain ⟨hi, hp⟩ := hip
  obtain ⟨e, he, hcompiles⟩ := parse_listed hi.parses
  have hexpr : p.2.expr? = (parse (String.ofList (respaceTail i.source.toList))).toOption :=
    congrArg (fun q => q.2.expr?) hp
  rw [he] at hexpr
  exact ⟨congrArg Prod.fst hp, e, hexpr, hcompiles⟩

/-- A text whose tokens are an operand spells its tree. -/
theorem parse_of_operand {ts : List Token} {stop : Nat} (hstop : (Lexer.lex source).outcome = .ok stop)
    (htokens : Parser.tokens (Lexer.lex source).tokens = ts) (hlength : ts.length < nestingLimit)
    (h : Grammar.Derives .primary ts e) : parse source = .ok e := by
  have hor : Grammar.Derives .or ts e := .tighter (by simp [Grammar.Stratum.operators]) h.and_of_primary
  exact parse_of_derives hstop htokens hlength (.expression (.or hor))

theorem compiles_tight_key : Compiles "\x7b'p||q': y\x7d" (.object [("p||q", .identifier "y")])
    (.object [("p || q", .identifier "y")]) where
  reworded := by
    have hrespelt : Lexer.Respelt "'p||q'".toList ("p||q", "p || q") :=
      ⟨⟨⟨6, by decide +kernel⟩, by decide +kernel⟩, ⟨⟨8, by decide +kernel⟩, by decide +kernel⟩⟩
    have hliterals : Lexer.stringLiterals "\x7b'p||q': y\x7d".toList = ["'p||q'".toList] := by
      decide +kernel
    refine ⟨[("p||q", "p || q")], ?_, .object (.quoted "p||q" "p || q" (.identifier "y" []) (.nil []))⟩
    rw [hliterals]
    exact .cons hrespelt .nil
  same := fun hspaced => absurd hspaced (by decide)

/-- The bars of an alternative need no blanks around them; those inside a string are given theirs, be it an
object key. -/
theorem compileList_joined_alternative : ∃ items : List ListItem,
    ListItem.joined items = " a =x||'p || q' | b=\x7b'p||q': y\x7d" ∧ (∀ i ∈ items, i.Sound) ∧
    ((Compiler.new .retry).compileList (ListItem.joined items)).1.map (fun p => (p.1, p.2.expr?)) =
      [("a", some (.lazy .or (.identifier "x") (.literal (.string "p || q")))),
        ("b", some (.object [("p || q", .identifier "y")]))] := by
  have hx : parse "x||'p || q'" = .ok (.lazy .or (.identifier "x") (.literal (.string "p || q"))) := by
    have htokens : Parser.tokens (Lexer.lex "x||'p || q'").tokens =
        [.identifier "x", .punct .orOr, .string "p || q"] := by decide +kernel
    have hstop : (Lexer.lex "x||'p || q'").outcome = .ok 11 := by decide +kernel
    have hleft : Grammar.Derives .or [.identifier "x"] (.identifier "x") :=
      .tighter (by simp [Grammar.Stratum.operators]) (Grammar.Derives.identifier "x").and_of_primary
    have hright : Grammar.Derives .and [.string "p || q"] (.literal (.string "p || q")) :=
      (Grammar.Derives.literal (.string _)).and_of_primary
    have hor : Grammar.Derives .or ([.identifier "x"] ++ .punct .orOr :: [.string "p || q"])
        (.lazy .or (.identifier "x") (.literal (.string "p || q"))) :=
      .binary (by simp [Grammar.Stratum.operators]) hleft hright
    exact parse_of_derives hstop htokens (by decide) (.expression (.or hor))
  have hy : parse "\x7b'p||q': y\x7d" = .ok (.object [("p||q", .identifier "y")]) := by
    have hvalue : Grammar.Derives .expression [.identifier "y"] (.identifier "y") :=
      .expression (.or (.tighter (by simp [Grammar.Stratum.operators])
        (Grammar.Derives.identifier "y").and_of_primary))
    have hobject := @Grammar.Derives.object
      [⟨⟨[.identifier "y"], .identifier "y"⟩, .string "p||q", "p||q"⟩] []
      (by simpa using .string "p||q") (by simpa using hvalue) .none
    exact parse_of_operand (by decide +kernel : (Lexer.lex "\x7b'p||q': y\x7d").outcome = .ok 11)
      (by decide +kernel) (by decide) hobject
  have hsound : ∀ i ∈ [ListItem.mk " a " "x||'p || q'"
        (.lazy .or (.identifier "x") (.literal (.string "p || q"))),
      ⟨"b", "\x7b'p||q': y\x7d", .object [("p||q", .identifier "y")]⟩], i.Sound := by
    simp only [List.forall_mem_cons]
    exact ⟨⟨by decide, by decide, hx, by decide⟩, ⟨by decide, by decide, hy, by decide⟩, by simp⟩
  refine ⟨_, by decide, hsound, ?_⟩
  obtain ⟨p, ps, ⟨hlabel, e, he, hcompiles⟩, hrest, heq⟩ :=
    List.forall₂_cons_left_iff.mp (compileList_joined (.new .retry) hsound)
  obtain ⟨q, qs, ⟨hlabel', e', he', hcompiles'⟩, hnil, rfl⟩ := List.forall₂_cons_left_iff.mp hrest
  obtain rfl := List.forall₂_nil_left_iff.mp hnil
  rw [heq, List.map_cons, List.map_singleton, hlabel, hlabel', he, he', hcompiles.same (by decide),
    hcompiles'.unique compiles_tight_key]
  rfl

/-- Bars inside a string that have no blanks around them are given some, which changes the string. -/
theorem compileList_tight_string : ¬ ∀ items : List ListItem, (∀ i ∈ items, i.Sound ∧ i.label ≠ "" ∧
      ¬ i.source.startsWith "|" ∧ ¬ i.source.endsWith "|") →
    List.Forall₂ (fun i p => p.1 = trim i.label ∧ p.2.expr? = some i.tree) items
      ((Compiler.new .retry).compileList (ListItem.joined items)).1 := by
  intro h
  have htight : parse "'a||b'" = .ok (.literal (.string "a||b")) :=
    parse_of_operand (by decide +kernel : (Lexer.lex "'a||b'").outcome = .ok 6) (by decide +kernel)
      (by decide) (.literal (.string "a||b"))
  have hspaced : parse "'a || b'" = .ok (.literal (.string "a || b")) :=
    parse_of_operand (by decide +kernel : (Lexer.lex "'a || b'").outcome = .ok 8) (by decide +kernel)
      (by decide) (.literal (.string "a || b"))
  have hcompiled := h [⟨"x", "'a||b'", .literal (.string "a||b")⟩] <| by
    simp only [List.forall_mem_singleton]
    exact ⟨⟨by decide, by decide, htight, by decide⟩, by decide, by decide +kernel, by decide +kernel⟩
  have hsources : labelledSources (ListItem.joined [⟨"x", "'a||b'", .literal (.string "a||b")⟩]) =
      [("x", "'a || b'")] := by decide +kernel
  obtain ⟨hfaithful, -⟩ := Compiler.compileList_faithful (Compiler.new_faithful .retry)
    (ListItem.joined [⟨"x", "'a||b'", .literal (.string "a||b")⟩])
  obtain ⟨p, ps, ⟨-, htree⟩, hnil, heq⟩ := List.forall₂_cons_left_iff.mp hcompiled
  rw [heq, hsources, List.map_cons, List.map_singleton, List.cons.injEq] at hfaithful
  have hexpr : p.2.expr? = (parse "'a || b'").toOption := congrArg (fun q => q.2.expr?) hfaithful.1
  rw [htree, hspaced] at hexpr
  simp [Except.toOption] at hexpr

end TreeTemplate
