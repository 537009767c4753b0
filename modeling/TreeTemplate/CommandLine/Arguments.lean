import TreeTemplate.Number.Reading
import TreeTemplate.Text.Split

/-!
The arguments of the command: `render`, `check` or `fingerprints` with a markup file, and options.
-/

namespace TreeTemplate

inductive Flag where
  | config
  | verbose
  | data
  | parentData
  | template
  | clone
  | passes
  | quiet
  deriving DecidableEq, Repr

namespace Flag

def all : List Flag :=
  [.config, .verbose, .data, .parentData, .template, .clone, .passes, .quiet]

def spellings : Flag → List String
  | config => ["--config", "-c"]
  | verbose => ["--verbose", "-v"]
  | data => ["--data", "-d"]
  | parentData => ["--parent-data"]
  | template => ["--template", "-t"]
  | clone => ["--clone"]
  | passes => ["--passes"]
  | quiet => ["--quiet", "-q"]

def takesValue : Flag → Bool
  | verbose | clone | quiet => false
  | _ => true

def ofSpelling? (s : String) : Option Flag :=
  all.find? fun f => f.spellings.contains s

end Flag

/-- Arguments told apart: options with their values, and the rest in order. -/
structure Arguments where
  options : List (Flag × String)
  plain : List String

namespace Arguments

def empty : Arguments :=
  ⟨[], []⟩

def value? (a : Arguments) (f : Flag) : Option String :=
  (a.options.find? fun o => o.1 = f).map (·.2)

def has (a : Arguments) (f : Flag) : Bool :=
  (a.value? f).isSome

/-- Add an option.  Only `verbose` may be given twice. -/
def add? (a : Arguments) (f : Flag) (value : String) : Option Arguments :=
  if a.has f && f ≠ .verbose then none
  else some { a with options := a.options ++ [(f, value)] }

/-- Whether an argument is written like an option. -/
def looksLikeOption (s : String) : Bool :=
  match s.toList with
  | '-' :: _ :: _ => true
  | _ => false

def cutOption (s : String) : String × Option String :=
  match Text.cutChars '=' s.toList with
  | some (name, value) => (String.ofList name, some (String.ofList value))
  | none => (s, none)

/-- Tell arguments apart after those in `seen`; none if an option is unknown, is given twice, or
lacks or has a value against its kind. -/
def readFrom? (seen : Arguments) : List String → Option Arguments
  | [] => some seen
  | arg :: rest =>
    if looksLikeOption arg then
      let (name, attached?) := cutOption arg
      match Flag.ofSpelling? name, attached? with
      | none, _ => none
      | some f, some value =>
        if f.takesValue then (seen.add? f value).bind (readFrom? · rest) else none
      | some f, none =>
        if f.takesValue then
          match rest with
          | value :: rest => (seen.add? f value).bind (readFrom? · rest)
          | [] => none
        else (seen.add? f "").bind (readFrom? · rest)
    else readFrom? { seen with plain := seen.plain ++ [arg] } rest

end Arguments

structure RenderRequest where
  markup : String
  /-- The file of the data; standard input if absent. -/
  data? : Option String
  /-- The file of the parent data. -/
  parent? : Option String
  /-- The identity of the element to render; the whole document if absent. -/
  template? : Option String
  /-- Whether a copy is rendered and shown alone. -/
  clone : Bool
  /-- How often to render; zero counts as once. -/
  passes : Nat

inductive Command where
  | render (r : RenderRequest)
  | check (markup : String) (quiet : Bool)
  | fingerprints (markup : String)

structure Invocation where
  /-- The file of the settings. -/
  config? : Option String
  command : Command

namespace Invocation

/-- Whether all options are among `allowed` or may go with anything. -/
def allows (a : Arguments) (allowed : List Flag) : Bool :=
  a.options.all fun o => (.config :: .verbose :: allowed).contains o.1

def passes? (a : Arguments) : Option Nat :=
  match a.value? .passes with
  | some text => Number.readNat? (Nat.pow 2 64) text.toList
  | none => some 1

/-- A request to render; a clone needs a template. -/
def renderCommand? (a : Arguments) (markup : String) : Option Command := do
  let passes ← passes? a
  if a.has .clone && !a.has .template then none
  else
    some (.render
      ⟨markup, a.value? .data, a.value? .parentData, a.value? .template, a.has .clone, passes⟩)

def command? (a : Arguments) (name markup : String) : Option Command :=
  match name with
  | "render" =>
    if allows a [.data, .parentData, .template, .clone, .passes] then renderCommand? a markup
    else none
  | "check" => if allows a [.quiet] then some (.check markup (a.has .quiet)) else none
  | "fingerprints" => if allows a [] then some (.fingerprints markup) else none
  | _ => none

/-- The use that the arguments spell; none if they spell none. -/
def ofArguments? (args : List String) : Option Invocation := do
  let a ← Arguments.empty.readFrom? args
  match a.plain with
  | [name, markup] => (command? a name markup).map fun c => ⟨a.value? .config, c⟩
  | _ => none

def files (i : Invocation) : List String :=
  i.config?.toList ++
    match i.command with
    | .render r => r.markup :: r.data?.toList ++ r.parent?.toList
    | .check markup _ => [markup]
    | .fingerprints markup => [markup]

def readsInput (i : Invocation) : Bool :=
  match i.command with
  | .render r => r.data?.isNone
  | _ => false

end Invocation

end TreeTemplate
