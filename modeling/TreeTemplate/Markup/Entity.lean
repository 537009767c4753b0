import TreeTemplate.Number.Reading
import TreeTemplate.Text.Split

/-!
Character references in markup text: writing the characters that would end a text or a quoted
attribute value, and reading references back.
-/

namespace TreeTemplate.Markup

open TreeTemplate.Text

def ampersandRef : List Char :=
  ['&', 'a', 'm', 'p', ';']

def lessRef : List Char :=
  ['&', 'l', 't', ';']

def greaterRef : List Char :=
  ['&', 'g', 't', ';']

def quoteRef : List Char :=
  ['&', 'q', 'u', 'o', 't', ';']

def escapeTextChar (c : Char) : List Char :=
  if c = '&' then ampersandRef
  else if c = '<' then lessRef
  else if c = '>' then greaterRef
  else [c]

/-- A character of a double-quoted attribute value as it is written. -/
def escapeAttributeChar (c : Char) : List Char :=
  if c = '&' then ampersandRef
  else if c = '"' then quoteRef
  else if c = '<' then lessRef
  else [c]

def escapeTextChars (cs : List Char) : List Char :=
  cs.flatMap escapeTextChar

/-- A double-quoted attribute value as it is written. -/
def escapeAttributeChars (cs : List Char) : List Char :=
  cs.flatMap escapeAttributeChar

/-- The character with a numeric reference: `x` or `X` and hexadecimal digits, or decimal digits. -/
def numericEntity? (body : List Char) : Option Char :=
  let hex :=
    match body with
    | 'x' :: digits => Number.readHex? (Nat.pow 2 32) digits
    | 'X' :: digits => Number.readHex? (Nat.pow 2 32) digits
    | _ => none
  (hex.or (Number.readNat? (Nat.pow 2 32) body)).bind Number.scalar?

/-- The character that a reference names, by what stands between `&` and `;`. -/
def entity? (name : List Char) : Option Char :=
  match name with
  | ['a', 'm', 'p'] => some '&'
  | ['l', 't'] => some '<'
  | ['g', 't'] => some '>'
  | ['q', 'u', 'o', 't'] => some '"'
  | ['a', 'p', 'o', 's'] => some '\''
  | ['n', 'b', 's', 'p'] => some '\u00a0'
  | '#' :: body => numericEntity? body
  | _ => none

/-- The reference at the front of a text after its `&`: the character it names and the text after
the `;`. -/
def reference? (cs : List Char) : Option (Char × List Char) :=
  match cutChars ';' cs with
  | some (name, rest) => (entity? name).map (·, rest)
  | none => none

theorem cutChars_length {sep : Char} {cs before after : List Char}
    (h : cutChars sep cs = some (before, after)) :
    cs.length = before.length + 1 + after.length := by
  induction cs generalizing before with
  | nil => simp [cutChars] at h
  | cons c rest ih =>
    rw [cutChars] at h
    split at h
    · simp only [Option.some.injEq, Prod.mk.injEq] at h
      simp only [← h.1, ← h.2, List.length_cons, List.length_nil]
      omega
    · simp only [Option.map_eq_some_iff, Prod.mk.injEq] at h
      obtain ⟨p, hp, rfl, rfl⟩ := h
      have := ih hp
      simp only [List.length_cons]
      omega

theorem reference?_shorter {cs rest : List Char} {c : Char}
    (h : reference? cs = some (c, rest)) : rest.length < cs.length := by
  unfold reference? at h
  split at h
  · next name after hcut =>
    simp only [Option.map_eq_some_iff, Prod.mk.injEq] at h
    obtain ⟨_, _, _, rfl⟩ := h
    have := cutChars_length hcut
    omega
  · simp at h

/-- A text with its references replaced by what they name.  An `&` that begins no reference stands
for itself. -/
def decodeChars (cs : List Char) : List Char :=
  match cs with
  | [] => []
  | '&' :: rest =>
    match _h : reference? rest with
    | some (c, after) => c :: decodeChars after
    | none => '&' :: decodeChars rest
  | c :: rest => c :: decodeChars rest
termination_by cs.length
decreasing_by
  · have := reference?_shorter _h
    simp only [List.length_cons]
    omega
  · simp
  · simp

/-- A text with its references replaced by what they name. -/
def decodeEntities (s : String) : String :=
  String.ofList (decodeChars s.toList)

def escapeText (s : String) : String :=
  String.ofList (escapeTextChars s.toList)

/-- A double-quoted attribute value as it is written. -/
def escapeAttribute (s : String) : String :=
  String.ofList (escapeAttributeChars s.toList)

end TreeTemplate.Markup
