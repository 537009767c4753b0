import TreeTemplate.Markup.Basic
import TreeTemplate.Markup.Entity

/-!
Reading markup text: elements with quoted, unquoted or bare attributes, void elements, self-closing
tags, text and comments.

What does not begin a node ends the list of nodes around it, so an element that is never closed
makes its own start the place of the error.  Two faults end the reading at once: a closing tag with
the wrong name, and too deep a nesting.
-/

namespace TreeTemplate.Markup

open TreeTemplate.Text

/-- A failed reading: what is wrong, and the text from there on. -/
structure Failure where
  fault : Fault
  rest : List Char

def isTagSpace (c : Char) : Bool :=
  c == ' ' || c == '\t' || c == '\r' || c == '\n'

/-- The text after its leading blanks. -/
def skipTagSpace (cs : List Char) : List Char :=
  cs.dropWhile isTagSpace

def isNameChar (c : Char) : Bool :=
  isAlphanumeric c || c == '-' || c == '_' || c == ':' || c == '.'

/-- Characters of unquoted attribute values. -/
def isBareChar (c : Char) : Bool :=
  !isBlank c && c != '>' && c != '"' && c != '\'' && c != '=' && c != '<' && c != '\x60'

/-- The longest run of characters of a class, not empty, and the text after it. -/
def span? (p : Char → Bool) (cs : List Char) : Option (List Char × List Char) :=
  let front := cs.takeWhile p
  if front.isEmpty then none else some (front, cs.dropWhile p)

def readName? (cs : List Char) : Option (String × List Char) :=
  (span? isNameChar cs).map fun p => (String.ofList p.1, p.2)

def readComment? (cs : List Char) : Option (Markup × List Char) :=
  match cs with
  | '<' :: '!' :: '-' :: '-' :: rest =>
    (cutAt ['-', '-', '>'] rest).map fun p => (.comment (String.ofList p.1), p.2)
  | _ => none

def readText? (cs : List Char) : Option (Markup × List Char) :=
  (span? (· != '<') cs).map fun p => (.text (String.ofList (decodeChars p.1)), p.2)

def readQuoted? (cs : List Char) : Option (List Char × List Char) :=
  match cs with
  | '"' :: rest => cutChars '"' rest
  | '\'' :: rest => cutChars '\'' rest
  | _ => none

def readAttributeValue? (cs : List Char) : Option (String × List Char) :=
  ((readQuoted? cs).or (span? isBareChar cs)).map fun p => (String.ofList (decodeChars p.1), p.2)

/-- The value after a name, if `=` and a value follow. -/
def readAssigned? (cs : List Char) : Option (String × List Char) :=
  match skipTagSpace cs with
  | '=' :: rest => readAttributeValue? (skipTagSpace rest)
  | _ => none

/-- An attribute with the blanks before it.  Without a value it is empty. -/
def readAttribute? (cs : List Char) : Option ((String × String) × List Char) := do
  let (_, rest) ← span? isTagSpace cs
  let (name, rest) ← readName? rest
  match readAssigned? rest with
  | some (value, rest) => some ((name, value), rest)
  | none => some ((name, ""), rest)

def readAttributes : Nat → List Char → List (String × String) × List Char
  | 0, cs => ([], cs)
  | fuel + 1, cs =>
    match readAttribute? cs with
    | some (a, rest) =>
      let (more, rest) := readAttributes fuel rest
      (a :: more, rest)
    | none => ([], cs)

/-- The end of an opening tag: whether it closes the element itself, and the text after it. -/
def readTagEnd? (cs : List Char) : Option (Bool × List Char) :=
  match skipTagSpace cs with
  | '/' :: '>' :: rest => some (true, rest)
  | '>' :: rest => some (false, rest)
  | _ => none

/-- The name of a closing tag, the text from the name on, and the text after the tag; the tag may
not be finished. -/
structure Closing where
  name : String
  fromName : List Char
  rest? : Option (List Char)

def readClosing? (cs : List Char) : Option Closing :=
  match cs with
  | '<' :: '/' :: fromName =>
    (readName? fromName).map fun p =>
      ⟨p.1, fromName,
        match p.2.dropWhile isBlank with
        | '>' :: rest => some rest
        | _ => none⟩
  | _ => none

mutual

/-- Nodes up to the first thing that begins none.  `room` is the nesting left. -/
def readNodes : Nat → Nat → List Char → Except Failure (List Markup × List Char)
  | 0, _, cs => .ok ([], cs)
  | fuel + 1, room, cs =>
    match readComment? cs with
    | some (node, rest) => do
      let (more, rest) ← readNodes fuel room rest
      .ok (node :: more, rest)
    | none => do
      match ← readElement? fuel room cs with
      | some (node, rest) =>
        let (more, rest) ← readNodes fuel room rest
        .ok (node :: more, rest)
      | none =>
        match readText? cs with
        | some (node, rest) =>
          let (more, rest) ← readNodes fuel room rest
          .ok (node :: more, rest)
        | none => .ok ([], cs)

/-- An element, if there is a complete one. -/
def readElement? : Nat → Nat → List Char → Except Failure (Option (Markup × List Char))
  | 0, _, _ => .ok none
  | fuel + 1, room, cs =>
    match cs with
    | '<' :: rest =>
      match readName? rest, room with
      | none, _ => .ok none
      | some (_, rest), 0 => .error ⟨.tooDeep, rest⟩
      | some (tag, rest), room + 1 =>
        let (attributes, rest) := readAttributes rest.length rest
        match readTagEnd? rest with
        | none => .ok none
        | some (closed, rest) =>
          if closed || isVoid tag then .ok (some (.element tag attributes [], rest))
          else do
            let (children, rest) ← readNodes fuel room rest
            match readClosing? rest with
            | none => .ok none
            | some closing =>
              if sameTag closing.name tag then
                .ok (closing.rest?.map fun rest => (.element tag attributes children, rest))
              else .error ⟨.malformed, closing.fromName⟩
    | _ => .ok none

end

def readAll (cs : List Char) : Except Failure (List Markup) :=
  match readNodes (2 * cs.length + 2) nestingLimit cs with
  | .ok (nodes, []) => .ok nodes
  | .ok (_, rest) => .error ⟨.unexpected, rest⟩
  | .error e => .error e

end TreeTemplate.Markup

namespace TreeTemplate

/-- Text that is not markup: where the reading stopped, in bytes, and why. -/
structure MarkupError where
  offset : Nat
  message : String
  deriving DecidableEq, Repr

def MarkupError.text (e : MarkupError) : String :=
  "Invalid markup at offset " ++ toString e.offset ++ ": " ++ e.message

/-- The error for a failed reading of `cs`; it quotes up to twenty characters. -/
def MarkupError.ofFailure (cs : List Char) (f : Markup.Failure) : MarkupError :=
  ⟨Text.byteLength cs - Text.byteLength f.rest,
    f.fault.text ++ " near '" ++ String.ofList (f.rest.take 20) ++ "'"⟩

def parseMarkup (source : String) : Except MarkupError (List Markup) :=
  (Markup.readAll source.toList).mapError (MarkupError.ofFailure source.toList)

end TreeTemplate
