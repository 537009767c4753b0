import Mathlib.Data.Nat.Digits.Lemmas
import TreeTemplate.Proofs.Expression.Spelling
import TreeTemplate.Proofs.Text.Bytes

/-!
String literals, item by item.  A text behind an opening quote is a sequence of items, each standing for one
character, up to the closing quote, to a backslash that begins no item, or to the end of the source
(`exists_reads`); the reader goes through the items (`cutString_reads`), and the three endings are its three
outcomes (`lexToken_literal`).  A unit escape is read more leniently than its four hexadecimal digits
suggest: a sign may stand for the first of them.
-/

namespace TreeTemplate

namespace Number

variable {c d : Char} {n : Nat} {cs : List Char} {values : List Nat}

/-- The character is the hexadecimal digit of the number, as a small letter or a capital. -/
def HexDigit (c : Char) (n : Nat) : Prop :=
  n < 16 ∧ (c = Nat.digitChar n ∨ c = (Nat.digitChar n).toUpper)

instance : Decidable (HexDigit c n) :=
  inferInstanceAs (Decidable (n < 16 ∧ (c = Nat.digitChar n ∨ c = (Nat.digitChar n).toUpper)))

theorem toNat_lt_of_hexValue? (h : hexValue? c = some n) : c.toNat < 103 := by
  have hcap : ∀ {low high : Char}, high.toNat < 103 → (low ≤ c && c ≤ high) = true → c.toNat < 103 := by
    intro low high hhigh hrange
    rw [Bool.and_eq_true, decide_eq_true_eq, decide_eq_true_eq] at hrange
    exact Nat.lt_of_le_of_lt hrange.2 hhigh
  unfold hexValue? at h
  split at h
  · next hrange => exact hcap (by decide) hrange
  split at h
  · next hrange => exact hcap (by decide) hrange
  split at h
  · next hrange => exact hcap (by decide) hrange
  · cases h

theorem hexValue?_eq_some_iff : hexValue? c = some n ↔ HexDigit c n := by
  constructor
  · intro h
    have hcodes : ∀ k < 103, ∀ n ∈ hexValue? (Char.ofNat k), HexDigit (Char.ofNat k) n := by decide
    have hdigit := hcodes c.toNat (toNat_lt_of_hexValue? h)
    rw [Char.ofNat_toNat] at hdigit
    exact hdigit n h
  · have hdigits : ∀ n < 16, hexValue? (Nat.digitChar n) = some n ∧
        hexValue? (Nat.digitChar n).toUpper = some n := by decide
    rintro ⟨hn, rfl | rfl⟩
    · exact (hdigits n hn).1
    · exact (hdigits n hn).2

theorem HexDigit.utf8Size_eq (h : HexDigit c n) : c.utf8Size = 1 := by
  have hdigits : ∀ n < 16, (Nat.digitChar n).utf8Size = 1 ∧ (Nat.digitChar n).toUpper.utf8Size = 1 := by
    decide
  obtain ⟨hn, rfl | rfl⟩ := h
  · exact (hdigits n hn).1
  · exact (hdigits n hn).2

/-- Digits and their values. -/
def HexDigits (cs : List Char) (values : List Nat) : Prop :=
  List.Forall₂ HexDigit cs values

theorem mapM_hexValue? : cs.mapM hexValue? = some values ↔ HexDigits cs values := by
  induction cs generalizing values with
  | nil =>
    rw [List.mapM_nil]
    constructor
    · rintro ⟨⟩
      exact .nil
    · rintro ⟨⟩
      rfl
  | cons c cs ih =>
    simp only [List.mapM_cons, Option.bind_eq_bind, Option.bind_eq_some_iff, Option.pure_def,
      Option.some.injEq, ih, hexValue?_eq_some_iff]
    constructor
    · rintro ⟨n, hn, more, hmore, rfl⟩
      exact .cons hn hmore
    · rintro (_ | ⟨hn, hmore⟩)
      exact ⟨_, hn, _, hmore, rfl⟩

def hexNumber (values : List Nat) : Nat :=
  Nat.ofDigits 16 values.reverse

theorem foldl_hexNumber (values : List Nat) :
    values.foldl (fun n v => 16 * n + v) 0 = hexNumber values := by
  rw [hexNumber, Nat.ofDigits_eq_foldr, List.foldr_reverse]
  congr 1
  funext n v
  exact Nat.add_comm _ _

theorem hexNumber_lt (h : HexDigits cs values) : hexNumber values < 16 ^ cs.length := by
  have hlength : values.reverse.length = cs.length := by rw [List.length_reverse, h.length_eq]
  rw [hexNumber, ← hlength]
  refine Nat.ofDigits_lt_base_pow_length (by decide) fun v hv => ?_
  rw [List.mem_reverse] at hv
  clear hlength
  induction h with
  | nil => cases hv
  | cons hdigit _ ih =>
    rcases List.mem_cons.mp hv with rfl | hv
    · exact hdigit.1
    · exact ih hv

/-- A number without the sign in front of it. -/
def unsigned : List Char → List Char
  | '+' :: rest => rest
  | cs => cs

theorem unsigned_eq_iff {digits : List Char} (h : HexDigits digits values) :
    unsigned cs = digits ↔ cs = digits ∨ cs = '+' :: digits := by
  constructor
  · rintro rfl
    unfold unsigned
    split
    · exact .inr rfl
    · exact .inl rfl
  · rintro (rfl | rfl)
    · unfold unsigned
      split
      · obtain _ | ⟨hsign, -⟩ := h
        have hnone : hexValue? '+' = none := by decide
        rw [← hexValue?_eq_some_iff, hnone] at hsign
        cases hsign
      · rfl
    · rfl

/-- A hexadecimal number may have a sign. -/
theorem readHex?_eq_some_iff {bound : Nat} : readHex? bound cs = some n ↔
    ∃ digits values, digits ≠ [] ∧ (cs = digits ∨ cs = '+' :: digits) ∧ HexDigits digits values ∧
      hexNumber values = n ∧ n < bound := by
  have hread : readHex? bound cs =
      if (unsigned cs).isEmpty then none
      else ((unsigned cs).mapM hexValue?).bind fun values =>
        if hexNumber values < bound then some (hexNumber values) else none := by
    simp only [← foldl_hexNumber]
    rfl
  simp only [hread, Option.ite_none_left_eq_some, Option.bind_eq_some_iff, mapM_hexValue?,
    Option.ite_none_right_eq_some, Option.some.injEq, List.isEmpty_iff]
  constructor
  · rintro ⟨hne, values, hdigits, hlt, rfl⟩
    exact ⟨_, values, hne, (unsigned_eq_iff hdigits).mp rfl, hdigits, rfl, hlt⟩
  · rintro ⟨digits, values, hne, hcs, hdigits, rfl, hlt⟩
    rw [(unsigned_eq_iff hdigits).mpr hcs]
    exact ⟨hne, values, hdigits, hlt, rfl⟩

/-- The character with a code point, if there is one. -/
theorem scalar?_eq_some_iff : scalar? n = some d ↔ d.toNat = n := by
  unfold scalar?
  split
  · next hvalid =>
    rw [Option.some.injEq]
    constructor
    · rintro rfl
      rw [Char.ofNat, dif_pos hvalid]
      rfl
    · rintro rfl
      exact Char.ofNat_toNat d
  · next hvalid =>
    constructor
    · rintro ⟨⟩
    · rintro rfl
      exact absurd d.valid hvalid

end Number

namespace Lexer

open Text Number

variable {quote x d : Char} {cs hex z y text more rest : List Char} {start pos : Nat}

/-! ### Items -/

/-- The escapes of one character, each with what it stands for. -/
def escapes : List (Char × Char) :=
  [('n', '\n'), ('t', '\t'), ('r', '\r'), ('0', '\x00'), ('\\', '\\'), ('\'', '\''), ('"', '"'), ('/', '/')]

theorem simpleEscape?_eq_some_iff : simpleEscape? x = some d ↔ (x, d) ∈ escapes := by
  constructor
  · intro h
    unfold simpleEscape? at h
    split at h
    case h_9 => cases h
    all_goals
      cases h
      decide
  · have htable : ∀ p ∈ escapes, simpleEscape? p.1 = some p.2 := by decide
    exact htable (x, d)

/-- The four characters behind `\u` name a character by its code point: four hexadecimal digits, or a sign and
three of them. -/
def IsUnit (hex : List Char) (d : Char) : Prop :=
  hex.length = 4 ∧ ∃ digits values, (hex = digits ∨ hex = '+' :: digits) ∧ HexDigits digits values ∧
    hexNumber values = d.toNat

theorem unitEscape?_eq_some_iff (hlength : hex.length = 4) : unitEscape? hex = some d ↔ IsUnit hex d := by
  simp only [unitEscape?, Option.bind_eq_some_iff, readHex?_eq_some_iff, scalar?_eq_some_iff, IsUnit]
  constructor
  · rintro ⟨n, ⟨digits, values, -, hhex, hdigits, rfl, -⟩, hd⟩
    exact ⟨hlength, digits, values, hhex, hdigits, hd.symm⟩
  · rintro ⟨-, digits, values, hhex, hdigits, hd⟩
    refine ⟨hexNumber values, ⟨digits, values, ?_, hhex, hdigits, rfl, ?_⟩, hd.symm⟩
    · rintro rfl
      rcases hhex with rfl | rfl <;> cases hlength
    · have hshort : digits.length ≤ 4 := by
        rw [← hlength]
        rcases hhex with rfl | rfl
        · exact Nat.le_refl _
        · exact Nat.le_succ _
      calc hexNumber values < 16 ^ digits.length := hexNumber_lt hdigits
        _ ≤ 16 ^ 4 := Nat.pow_le_pow_right (by decide) hshort
        _ ≤ Nat.pow 2 32 := by decide

theorem byteLength_hex {digits : List Char} {values : List Nat} (hdigits : HexDigits digits values)
    (hhex : hex = digits ∨ hex = '+' :: digits) : byteLength hex = hex.length := by
  have hsizes : ∀ c ∈ digits, c.utf8Size = 1 := by
    clear hhex
    induction hdigits with
    | nil => simp
    | cons hc _ ih => exact List.forall_mem_cons.mpr ⟨hc.utf8Size_eq, ih⟩
  refine byteLength_of_ascii ?_
  rcases hhex with rfl | rfl
  · exact hsizes
  · exact List.forall_mem_cons.mpr ⟨by decide, hsizes⟩

theorem IsUnit.byteLength_eq (h : IsUnit hex d) : byteLength hex = 4 := by
  obtain ⟨hlength, digits, values, hhex, hdigits, -⟩ := h
  rw [byteLength_hex hdigits hhex, hlength]

/-- The text of an item of a string literal, with the character that it stands for. -/
inductive Item (quote : Char) : List Char → Char → Prop
  | plain {c : Char} (hslash : c ≠ '\\') (hquote : c ≠ quote) : Item quote [c] c
  | escape {x d : Char} (h : (x, d) ∈ escapes) : Item quote ['\\', x] d
  | unit {hex : List Char} {d : Char} (h : IsUnit hex d) : Item quote ('\\' :: 'u' :: hex) d

/-- A text of items, with the text that it stands for. -/
inductive Reads (quote : Char) : List Char → List Char → Prop
  | nil : Reads quote [] []
  | item {z y text : List Char} {d : Char} (h : Item quote z d) (hrest : Reads quote y text) :
    Reads quote (z ++ y) (d :: text)

/-- The text begins with a backslash that is followed by a character, and with no item. -/
def Faulty (quote : Char) (cs : List Char) : Prop :=
  (∃ x more, cs = '\\' :: x :: more) ∧ ∀ z d, Item quote z d → ¬ z <+: cs

theorem Item.ne_nil (h : Item quote z d) : z ≠ [] := by
  cases h <;> exact List.cons_ne_nil _ _

/-- Every text begins with items, as many as there are. -/
theorem exists_reads (quote : Char) (cs : List Char) :
    ∃ y text rest, cs = y ++ rest ∧ Reads quote y text ∧
      ((∃ more, rest = quote :: more) ∨ Faulty quote rest ∨ rest = [] ∨ rest = ['\\']) := by
  by_cases hitem : ∃ z d, Item quote z d ∧ z <+: cs
  · obtain ⟨z, d, hz, more, hcs⟩ := hitem
    have hshorter : more.length < cs.length := by
      have hpos := List.length_pos_iff.mpr hz.ne_nil
      rw [← hcs, List.length_append]
      omega
    obtain ⟨y, text, rest, rfl, hreads, hrest⟩ := exists_reads quote more
    exact ⟨z ++ y, d :: text, rest, by rw [← hcs, List.append_assoc], .item hz hreads, hrest⟩
  · have hnone : ∀ z d, Item quote z d → ¬ z <+: cs := fun z d hz hprefix => hitem ⟨z, d, hz, hprefix⟩
    refine ⟨[], [], cs, rfl, .nil, ?_⟩
    cases cs with
    | nil => exact .inr (.inr (.inl rfl))
    | cons c more =>
      by_cases hquote : c = quote
      · exact .inl ⟨more, by rw [hquote]⟩
      · have hslash : c = '\\' := by
          by_contra hslash
          exact hnone [c] c (.plain hslash hquote) ⟨more, rfl⟩
        subst hslash
        cases more with
        | nil => exact .inr (.inr (.inr rfl))
        | cons x more => exact .inr (.inl ⟨⟨x, more, rfl⟩, hnone⟩)
termination_by cs.length
decreasing_by exact hshorter

/-! ### What the reader does with items and with what follows them -/

theorem cutString_item (hquote : IsQuote quote) (h : Item quote z d) (start pos : Nat)
    (seen more : List Char) :
    cutString quote start pos seen (z ++ more) =
      cutString quote start (pos + byteLength z) (d :: seen) more := by
  have hslash := Ne.symm hquote.ne_slash
  cases h with
  | plain hplain hne =>
    rw [List.singleton_append, cutString.eq_def]
    dsimp only
    rw [if_neg hne, if_neg hplain, byteLength_cons, byteLength_nil, Nat.add_zero]
  | @escape x d hx =>
    have hu : ∀ p ∈ escapes, p.1 ≠ 'u' := by decide
    replace hu := hu (x, d) hx
    rw [← simpleEscape?_eq_some_iff] at hx
    rw [List.cons_append, List.singleton_append, cutString.eq_def]
    simp [hslash, hu, hx, Nat.add_assoc]
    rfl
  | @unit hex d hhex =>
    have hbytes := hhex.byteLength_eq
    have hlength := hhex.1
    rw [← unitEscape?_eq_some_iff hlength] at hhex
    obtain ⟨x₁, x₂, x₃, x₄, rfl⟩ := List.length_eq_four.mp hlength
    rw [byteLength_cons, byteLength_cons, hbytes, List.cons_append, List.cons_append, cutString.eq_def]
    simp [hslash, hhex]
    rfl

theorem cutString_reads (hquote : IsQuote quote) (h : Reads quote y text) (start pos : Nat)
    (seen more : List Char) :
    cutString quote start pos seen (y ++ more) =
      cutString quote start (pos + byteLength y) (text.reverse ++ seen) more := by
  induction h generalizing pos seen with
  | nil => rfl
  | item hz _ ih =>
    rw [List.append_assoc, cutString_item hquote hz, ih, byteLength_append, Nat.add_assoc,
      List.reverse_cons, List.append_assoc, List.singleton_append]

theorem cutString_quote (start pos : Nat) (seen more : List Char) :
    cutString quote start pos seen (quote :: more) = .ok (seen.reverse, pos + quote.utf8Size, more) := by
  rw [cutString.eq_def]
  exact if_pos rfl

theorem badUnit_eq (pos : Nat) (more : List Char) : ∃ sequence, sequence <+: '\\' :: 'u' :: more ∧
    badUnit pos more = .invalidEscape (String.ofList sequence) pos := by
  refine ⟨_, ?_, rfl⟩
  simp only [List.cons_prefix_cons, true_and]
  cases htake : takeBytes? 4 more with
  | none => exact List.nil_prefix
  | some front =>
    obtain ⟨-, rest, rfl⟩ := exists_of_takeBytes? htake
    exact ⟨rest, rfl⟩

theorem cutString_faulty (hquote : IsQuote quote) (h : Faulty quote cs) (start pos : Nat) (seen : List Char) :
    ∃ sequence, sequence <+: cs ∧
      cutString quote start pos seen cs = .error (.invalidEscape (String.ofList sequence) pos) := by
  obtain ⟨⟨x, more, rfl⟩, hnone⟩ := h
  rw [cutString.eq_def]
  dsimp only
  rw [if_neg (Ne.symm hquote.ne_slash), if_pos rfl]
  split
  · next heq => cases heq
  · next x₁ x₂ x₃ x₄ more heq =>
    cases heq
    split
    · next d hd =>
      rw [unitEscape?_eq_some_iff rfl] at hd
      exact absurd ⟨more, rfl⟩ (hnone _ d (.unit hd))
    · obtain ⟨sequence, hprefix, hbad⟩ := badUnit_eq pos (x₁ :: x₂ :: x₃ :: x₄ :: more)
      exact ⟨sequence, hprefix, congrArg _ hbad⟩
  · next heq =>
    cases heq
    obtain ⟨sequence, hprefix, hbad⟩ := badUnit_eq pos more
    exact ⟨sequence, hprefix, congrArg _ hbad⟩
  · next heq =>
    cases heq
    split
    · next d hd =>
      rw [simpleEscape?_eq_some_iff] at hd
      exact absurd ⟨more, rfl⟩ (hnone _ d (.escape hd))
    · exact ⟨['\\', x], ⟨more, rfl⟩, rfl⟩

theorem cutString_open (hquote : IsQuote quote) (h : rest = [] ∨ rest = ['\\']) (start pos : Nat)
    (seen : List Char) : cutString quote start pos seen rest = .error (.unclosedString start) := by
  rcases h with rfl | rfl
  · rw [cutString.eq_def]
  · rw [cutString.eq_def]
    dsimp only
    rw [if_neg (Ne.symm hquote.ne_slash), if_pos rfl]

/-! ### String literals -/

/-- A string literal is read as what its items stand for, up to the closing quote. -/
theorem lexToken_reads (hquote : IsQuote quote) (h : Reads quote y text) (pos : Nat) (more : List Char) :
    lexToken pos quote (y ++ quote :: more) =
      .ok ⟨.string (String.ofList text), byteLength y + 2, more⟩ := by
  have hsize : quote.utf8Size = 1 := by
    rcases hquote with rfl | rfl <;> rfl
  rw [lexToken_quote hquote, cutString_reads hquote h, cutString_quote, hsize]
  dsimp only
  have hstop : pos + 1 + byteLength y + 1 - pos = byteLength y + 2 := by omega
  rw [List.append_nil, List.reverse_reverse, hstop]

/-- The outcomes of reading a string literal: behind the items stands a quote, or a backslash that begins no
item, at whose byte offset the literal fails, or nothing more than a backslash. -/
theorem lexToken_literal (hquote : IsQuote quote) (pos : Nat) (cs : List Char) :
    ∃ y text rest, cs = y ++ rest ∧ Reads quote y text ∧
      ((∃ more, rest = quote :: more ∧
          lexToken pos quote cs = .ok ⟨.string (String.ofList text), byteLength y + 2, more⟩) ∨
        (Faulty quote rest ∧ ∃ sequence, sequence <+: rest ∧
          lexToken pos quote cs =
            .error (.invalidEscape (String.ofList sequence) (pos + 1 + byteLength y))) ∨
        ((rest = [] ∨ rest = ['\\']) ∧ lexToken pos quote cs = .error (.unclosedString pos))) := by
  obtain ⟨y, text, rest, rfl, hreads, hrest⟩ := exists_reads quote cs
  refine ⟨y, text, rest, rfl, hreads, ?_⟩
  rcases hrest with ⟨more, rfl⟩ | hfaulty | hopen
  · exact .inl ⟨more, rfl, lexToken_reads hquote hreads pos more⟩
  · obtain ⟨sequence, hprefix, hcut⟩ :=
      cutString_faulty hquote hfaulty pos (pos + 1 + byteLength y) (text.reverse ++ [])
    refine .inr (.inl ⟨hfaulty, sequence, hprefix, ?_⟩)
    rw [lexToken_quote hquote, cutString_reads hquote hreads, hcut]
  · refine .inr (.inr ⟨hopen, ?_⟩)
    rw [lexToken_quote hquote, cutString_reads hquote hreads, cutString_open hquote hopen]

/-- A string comes exactly from the items that stand for it and a quote behind them. -/
theorem lexToken_eq_string_iff (hquote : IsQuote quote) {s : String} {bytes : Nat} {after : List Char} :
    lexToken pos quote cs = .ok ⟨.string s, bytes, after⟩ ↔
      ∃ y, cs = y ++ quote :: after ∧ Reads quote y s.toList ∧ bytes = byteLength y + 2 := by
  constructor
  · intro h
    obtain ⟨y, text, rest, rfl, hreads, ⟨more, rfl, hok⟩ | ⟨-, sequence, -, herror⟩ | ⟨-, herror⟩⟩ :=
      lexToken_literal hquote pos cs
    · rw [hok] at h
      cases h
      exact ⟨y, rfl, by rwa [String.toList_ofList], rfl⟩
    · rw [herror] at h
      cases h
    · rw [herror] at h
      cases h
  · rintro ⟨y, rfl, hreads, rfl⟩
    rw [lexToken_reads hquote hreads, String.ofList_toList]

/-- A sign is taken for the first of the four digits. -/
example : IsUnit ['+', '0', '4', '1'] 'A' :=
  ⟨rfl, ['0', '4', '1'], [0, 4, 1], .inr rfl,
    .cons (by decide) (.cons (by decide) (.cons (by decide) .nil)), by decide⟩

end Lexer

end TreeTemplate
