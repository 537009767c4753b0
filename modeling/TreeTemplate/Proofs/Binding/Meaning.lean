import TreeTemplate.Binding.Cache
import TreeTemplate.Proofs.Expression.Caching
import TreeTemplate.Proofs.Markup.Style

/-!
What binding sets mean.  The set of a node is determined by the bindings written on it, whichever
compiler builds it (`BindingSet.meaning`); a cache finds it by a fingerprint, and different bindings
have different fingerprints.
-/

namespace TreeTemplate

/-! ### Sets without serials -/

def Inclusion.plain : Inclusion → Inclusion
  | .literal id => .literal id
  | .computed e => .computed e.plain

def Labelled.plain (es : Labelled) : Labelled :=
  es.map (Prod.map id Evaluator.plain)

namespace BindingSet

/-- The set without the serials of its evaluators. -/
def plain (s : BindingSet) : BindingSet where
  fingerprint := s.fingerprint
  select? := s.select?.map Evaluator.plain
  gate? := s.gate?.map Evaluator.plain
  values? := s.values?.map Labelled.plain
  vars? := s.vars?.map Labelled.plain
  eval? := s.eval?.map (List.map Evaluator.plain)
  include? := s.include?.map Inclusion.plain
  content? := s.content?.map Evaluator.plain
  skip? := s.skip?.map Evaluator.plain
  hide? := s.hide?.map Evaluator.plain
  show? := s.show?.map Evaluator.plain
  id? := s.id?
  idExpr? := s.idExpr?.map Evaluator.plain
  overwrite? := s.overwrite?
  data? := s.data?.map Labelled.plain

variable {s s' : BindingSet} {c c' : Compiler}

/-- Compiling one more binding gives the same set apart from serials, whatever the compilers
remember. -/
theorem add_plain (hs : s.plain = s'.plain) (hc : c.Faithful) (hc' : c'.Faithful) (r : RawBinding) :
    (s.add c r).1.plain = (s'.add c' r).1.plain ∧ (s.add c r).2.Faithful ∧
      (s'.add c' r).2.Faithful := by
  obtain ⟨b, v⟩ := r
  obtain ⟨he, hf⟩ := Compiler.compile_faithful hc v
  obtain ⟨he', hf'⟩ := Compiler.compile_faithful hc' v
  obtain ⟨hlist, hlf⟩ := Compiler.compileList_faithful hc v
  obtain ⟨hlist', hlf'⟩ := Compiler.compileList_faithful hc' v
  obtain ⟨hall, haf⟩ := Compiler.compileSequence_faithful hc v
  obtain ⟨hall', haf'⟩ := Compiler.compileSequence_faithful hc' v
  replace he := he.trans he'.symm
  replace hlist := hlist.trans hlist'.symm
  replace hall := hall.trans hall'.symm
  simp only [plain, mk.injEq] at hs
  cases b with
  | select | gate | content | skip | hide | «show» | idExpr =>
    simp only [add]
    exact ⟨by simp only [plain, hs, Option.map_some, he], hf, hf'⟩
  | values | vars | data =>
    simp only [add]
    exact ⟨by simp only [plain, hs, Option.map_some, Labelled.plain, hlist], hlf, hlf'⟩
  | eval =>
    simp only [add]
    exact ⟨by simp only [plain, hs, Option.map_some, hall], haf, haf'⟩
  | «include» =>
    simp only [add]
    split
    · exact ⟨by simp only [plain, hs, Option.map_some], hc, hc'⟩
    · exact ⟨by simp only [plain, hs, Option.map_some, Inclusion.plain, he], hf, hf'⟩
  | id | overwrite =>
    simp only [add]
    exact ⟨by simp only [plain, hs], hc, hc'⟩

theorem addAll_plain (hs : s.plain = s'.plain) (hc : c.Faithful) (hc' : c'.Faithful)
    (raw : List RawBinding) :
    (s.addAll c raw).1.plain = (s'.addAll c' raw).1.plain ∧ (s.addAll c raw).2.Faithful := by
  induction raw generalizing s s' c c' with
  | nil => exact ⟨hs, hc⟩
  | cons r rest ih =>
    obtain ⟨hs₁, hc₁, hc₁'⟩ := add_plain hs hc hc' r
    exact ih hs₁ hc₁ hc₁'

/-- The set that bindings spell. -/
def meaning (raw : List RawBinding) : BindingSet :=
  (build (TreeTemplate.fingerprint raw) raw (Compiler.new .retry)).1.plain

theorem build_plain (hc : c.Faithful) (raw : List RawBinding) :
    (build (TreeTemplate.fingerprint raw) raw c).1.plain = meaning raw ∧
      (build (TreeTemplate.fingerprint raw) raw c).2.Faithful :=
  addAll_plain rfl hc (Compiler.new_faithful .retry) raw

end BindingSet

/-! ### Fingerprints -/

namespace Binding

variable {b b' : Binding}

/-- The suffixes hold none of the characters that separate the parts of a fingerprint. -/
theorem suffix_separate (b : Binding) : '&' ∉ b.suffix.toList ∧ '=' ∉ b.suffix.toList := by
  cases b <;> decide

theorem suffix_inj (h : b.suffix = b'.suffix) : b = b' := by
  have hback : ∀ b : Binding, ofSuffix? b.suffix = some b := by
    intro b
    cases b <;> decide
  exact Option.some.inj ((hback b).symm.trans ((congrArg ofSuffix? h).trans (hback b')))

end Binding

section Fingerprints

variable {v v' : List Char} {r r' : RawBinding} {raw raw' : List RawBinding}

/-- A character is written as it is, or as an escape that tells it. -/
theorem fingerprintChar_cases (c : Char) :
    (c = '%' ∧ fingerprintChar c = ['%', '2', '5']) ∨ (c = '&' ∧ fingerprintChar c = ['%', '2', '6']) ∨
      (c = '=' ∧ fingerprintChar c = ['%', '3', 'D']) ∨
        (c ≠ '%' ∧ c ≠ '&' ∧ c ≠ '=' ∧ fingerprintChar c = [c]) := by
  unfold fingerprintChar
  split
  · next h => exact Or.inl ⟨h, rfl⟩
  · split
    · next h => exact Or.inr (Or.inl ⟨h, rfl⟩)
    · split
      · next h => exact Or.inr (Or.inr (Or.inl ⟨h, rfl⟩))
      · next h h' h'' => exact Or.inr (Or.inr (Or.inr ⟨h, h', h'', rfl⟩))

theorem separators_not_mem (v : List Char) :
    '&' ∉ v.flatMap fingerprintChar ∧ '=' ∉ v.flatMap fingerprintChar := by
  have hchar : ∀ c, '&' ∉ fingerprintChar c ∧ '=' ∉ fingerprintChar c := by
    intro c
    rcases fingerprintChar_cases c with ⟨-, h⟩ | ⟨-, h⟩ | ⟨-, h⟩ | ⟨-, hamp, heq, h⟩
    · simp [h]
    · simp [h]
    · simp [h]
    · simp [h, Ne.symm hamp, Ne.symm heq]
  simp only [List.mem_flatMap, not_exists, not_and]
  exact ⟨fun c _ => (hchar c).1, fun c _ => (hchar c).2⟩

/-- Values that are written alike are equal. -/
theorem flatMap_fingerprintChar_inj (h : v.flatMap fingerprintChar = v'.flatMap fingerprintChar) :
    v = v' := by
  have hpos : ∀ c, fingerprintChar c ≠ [] := by
    intro c
    rcases fingerprintChar_cases c with ⟨-, h⟩ | ⟨-, h⟩ | ⟨-, h⟩ | ⟨-, -, -, h⟩ <;> simp [h]
  induction v generalizing v' with
  | nil =>
    cases v' with
    | nil => rfl
    | cons c rest => simp [hpos c] at h
  | cons c rest ih =>
    cases v' with
    | nil => simp [hpos c] at h
    | cons c' rest' =>
      have hhead : c = c' ∧ rest.flatMap fingerprintChar = rest'.flatMap fingerprintChar := by
        rw [List.flatMap_cons, List.flatMap_cons] at h
        rcases fingerprintChar_cases c with ⟨hc, hw⟩ | ⟨hc, hw⟩ | ⟨hc, hw⟩ | ⟨hp, -, -, hw⟩ <;>
          rcases fingerprintChar_cases c' with ⟨hc', hw'⟩ | ⟨hc', hw'⟩ | ⟨hc', hw'⟩ | ⟨hp', -, -, hw'⟩ <;>
          rw [hw, hw'] at h <;> grind
      rw [hhead.1, ih hhead.2]

theorem fingerprintPart_inj (h : fingerprintPart r = fingerprintPart r') : r = r' := by
  have hsplit : ∀ r : RawBinding, Text.splitChars '=' (fingerprintPart r) =
      [r.1.suffix.toList, r.2.toList.flatMap fingerprintChar] := by
    intro r
    rw [fingerprintPart, Text.splitChars_append r.1.suffix_separate.2,
      Text.splitChars_of_not_mem (separators_not_mem _).2]
  have hpieces := (hsplit r).symm.trans ((congrArg _ h).trans (hsplit r'))
  simp only [List.cons.injEq, and_true, String.toList_inj] at hpieces
  have hvalue := flatMap_fingerprintChar_inj hpieces.2
  exact Prod.ext (Binding.suffix_inj hpieces.1) (String.toList_inj.mp hvalue)

/-- Different bindings have different fingerprints. -/
theorem fingerprintChars_inj (h : fingerprintChars raw = fingerprintChars raw') : raw = raw' := by
  have hseparate : ∀ (raw : List RawBinding), ∀ part ∈ raw.map fingerprintPart, '&' ∉ part := by
    intro raw part hpart
    obtain ⟨r, -, rfl⟩ := List.mem_map.mp hpart
    simp [fingerprintPart, r.1.suffix_separate.1, (separators_not_mem _).1]
  have hempty : ∀ raw : List RawBinding, fingerprintChars raw = [] → raw = [] := by
    intro raw hraw
    cases raw with
    | nil => rfl
    | cons r rest =>
      have hsplit := Text.splitChars_intercalate (by simp) (hseparate (r :: rest))
      rw [← fingerprintChars, hraw, List.map_cons] at hsplit
      simp [Text.splitChars, fingerprintPart] at hsplit
  by_cases hnil : raw = []
  · subst hnil
    exact (hempty raw' h.symm).symm
  · have hnil' : raw' ≠ [] := by
      rintro rfl
      exact hnil (hempty raw h)
    have hparts : raw.map fingerprintPart = raw'.map fingerprintPart := by
      rw [← Text.splitChars_intercalate (by simpa using hnil) (hseparate raw),
        ← Text.splitChars_intercalate (by simpa using hnil') (hseparate raw')]
      exact congrArg (Text.splitChars '&') h
    exact List.map_injective_iff.mpr (fun _ _ => fingerprintPart_inj) hparts

theorem fingerprint_inj (h : fingerprint raw = fingerprint raw') : raw = raw' :=
  fingerprintChars_inj (String.ofList_injective h)

theorem fingerprint_eq_empty_iff : fingerprint raw = "" ↔ raw = [] := by
  constructor
  · intro h
    exact fingerprint_inj (h.trans (show "" = fingerprint [] from rfl))
  · rintro rfl
    rfl

/-- A fingerprint tells which bindings it is of, in which order; the empty one is that of no bindings. -/
theorem fingerprint_eq_iff :
    (fingerprint raw = fingerprint raw' ↔ raw = raw') ∧ (fingerprint raw = "" ↔ raw = []) :=
  ⟨⟨fingerprint_inj, congrArg fingerprint⟩, fingerprint_eq_empty_iff⟩

end Fingerprints

end TreeTemplate
