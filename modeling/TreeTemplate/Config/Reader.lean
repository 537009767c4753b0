import TreeTemplate.Config.Basic
import TreeTemplate.Value.Reader

/-!
Reading settings from JSON text: an object of settings by name, or a list of them in order.  What is
missing keeps its default, unknown names are skipped with whatever they hold, and a setting given
twice or with a value it cannot take makes the whole text unreadable.
-/

namespace TreeTemplate.Config

open TreeTemplate.Json

/-- The nesting left for values inside the settings. -/
def innerDepth : Nat :=
  nestingLimit - 1

/-- The policy after an opening brace: its name with `null` as value. -/
def readTaggedPolicy? (cs : List Char) : Option (Value × List Char) :=
  match skipSpace cs with
  | '"' :: rest => do
    let (name, rest) ← readText? .full rest
    match skipSpace rest with
    | ':' :: rest =>
      let (v, rest) ← readFront? .full innerDepth rest
      match v, skipSpace rest with
      | .null, '\x7d' :: rest => some (.string name, rest)
      | _, _ => none
    | _ => none
  | _ => none

/-- The value of a setting at the front of a text.  A policy may also be written as an object. -/
def readValue? (f : ConfigField) (cs : List Char) : Option (Value × List Char) :=
  match f, skipSpace cs with
  | .failurePolicy, '\x7b' :: rest => readTaggedPolicy? rest
  | _, cs => readFront? .full innerDepth cs

/-- Read a setting at the front of a text. -/
def readField? (f : ConfigField) (c : Config) (cs : List Char) : Option (Config × List Char) := do
  let (v, rest) ← readValue? f cs
  let c ← f.set? c v
  some (c, rest)

/-- The settings of a list after its first item, up to the closing bracket. -/
def readMoreItems? : List ConfigField → Config → List Char → Option (Config × List Char)
  | fields, c, cs =>
    match skipSpace cs, fields with
    | ']' :: rest, _ => some (c, rest)
    | ',' :: rest, f :: fields => do
      let (c, rest) ← readField? f c rest
      readMoreItems? fields c rest
    | _, _ => none

/-- The settings of a list after its opening bracket. -/
def readItems? (cs : List Char) : Option (Config × List Char) :=
  match skipSpace cs, ConfigField.all with
  | ']' :: rest, _ => some (.default, rest)
  | rest, f :: fields => do
    let (c, rest) ← readField? f .default rest
    readMoreItems? fields c rest
  | _, [] => none

/-- Settings by name up to the closing brace; those in `seen` were given before. -/
def readEntries? : Nat → List ConfigField → Config → List Char → Option (Config × List Char)
  | 0, _, _, _ => none
  | fuel + 1, seen, c, cs =>
    match skipSpace cs with
    | '"' :: rest => do
      let (name, rest) ← readText? .full rest
      match skipSpace rest with
      | ':' :: rest =>
        let (seen, c, rest) ←
          match ConfigField.ofText? name with
          | none => (readFront? .skip innerDepth rest).map fun p => (seen, c, p.2)
          | some f =>
            if f ∈ seen then none
            else (readField? f c rest).map fun p => (f :: seen, p.1, p.2)
        match skipSpace rest with
        | ',' :: rest => readEntries? fuel seen c rest
        | '\x7d' :: rest => some (c, rest)
        | _ => none
      | _ => none
    | _ => none

def readSettings? (cs : List Char) : Option (Config × List Char) :=
  match skipSpace cs with
  | '[' :: rest => readItems? rest
  | '\x7b' :: rest =>
    match skipSpace rest with
    | '\x7d' :: rest => some (.default, rest)
    | rest => readEntries? rest.length [] .default rest
  | _ => none

def read? (s : String) : Option Config :=
  match readSettings? s.toList with
  | some (c, rest) => if (skipSpace rest).isEmpty then some c else none
  | none => none

end TreeTemplate.Config
