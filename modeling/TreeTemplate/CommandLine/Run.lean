import TreeTemplate.CommandLine.Arguments
import TreeTemplate.Config.Reader
import TreeTemplate.Engine
import TreeTemplate.Report.Check
import TreeTemplate.Report.Fingerprints

/-!
What a use of the command prints, given the texts of the files it names.
-/

namespace TreeTemplate

structure Surroundings where
  /-- The text of a file, or why it cannot be read. -/
  file : String → Except String String
  /-- The text of standard input, or why it cannot be read. -/
  input : Except String String

inductive CommandError where
  | unreadableFile (path reason : String)
  | unreadableInput (reason : String)
  /-- The settings are not what they should be. -/
  | badConfig (path : String)
  /-- The data is not JSON. -/
  | badData
  | badMarkup (e : MarkupError)
  /-- No element has the identity asked for. -/
  | noElement (id : String)
  /-- The render takes more steps than it may. -/
  | endless
  /-- The render of a file failed. -/
  | cannotRender (path : String) (e : CommandError)
  /-- That many expressions do not parse. -/
  | badExpressions (count : Nat)

def CommandError.message : CommandError → String
  | unreadableFile path reason => "cannot read '" ++ path ++ "': " ++ reason
  | unreadableInput reason => "cannot read data from stdin: " ++ reason
  | badConfig path => "invalid configuration in '" ++ path ++ "'"
  | badData => "invalid JSON data"
  | badMarkup e => "cannot parse markup: " ++ e.text
  | noElement id => "no element with id '" ++ id ++ "'"
  | endless => "the render does not end"
  | cannotRender path e => "cannot render '" ++ path ++ "': " ++ e.message
  | badExpressions count => toString count ++ " binding expressions failed to compile"

/-- What a use of the command prints, and how it fails if it does. -/
structure Reply where
  lines : List String
  error? : Option CommandError

def Reply.output (r : Reply) : String :=
  String.join (r.lines.map (· ++ "\n"))

def Reply.exitCode (r : Reply) : Nat :=
  if r.error?.isSome then 1 else 0

namespace Surroundings

def read (s : Surroundings) (path : String) : Except CommandError String :=
  (s.file path).mapError (.unreadableFile path)

def parseData (text : String) : Except CommandError Value :=
  match Json.read? text with
  | some v => .ok v
  | none => .error .badData

def dataFile (s : Surroundings) (path : String) : Except CommandError Value := do
  parseData (← s.read path)

/-- The data of a render: in a file, or on standard input. -/
def data (s : Surroundings) (path? : Option String) : Except CommandError Value :=
  match path? with
  | some path => s.dataFile path
  | none => do parseData (← s.input.mapError .unreadableInput)

def parentData (s : Surroundings) (path? : Option String) : Except CommandError (Option Value) :=
  match path? with
  | some path => (s.dataFile path).map some
  | none => .ok none

/-- The settings in a file, or those of an engine that nobody has set up. -/
def config (s : Surroundings) (path? : Option String) : Except CommandError Config :=
  match path? with
  | none => .ok .default
  | some path => do
    match Config.read? (← s.read path) with
    | some c => .ok c
    | none => .error (.badConfig path)

end Surroundings

namespace Invocation

def document (source : String) : Except CommandError Document :=
  (Document.ofMarkup source).mapError .badMarkup

def target (e : Engine) (d : Document) (template? : Option String) :
    Except CommandError (Outcome Handle) :=
  match template? with
  | none => .ok (e.settle (e.stage d) Document.root)
  | some id =>
    let found := e.findTemplate d id
    match found.value with
    | some node => .ok { found with value := node }
    | none => .error (.noElement id)

/-- Render a node in place `passes` times, each of at most `budget` steps. -/
def renderPasses (budget : Nat) (data : Value) (parent? : Option Value) (node : Handle) :
    Nat → Engine → Document → Option Document
  | 0, _, d => some d
  | passes + 1, e, d => do
    let o ← e.render budget d.resetMutations data parent? node true
    renderPasses budget data parent? node passes o.engine o.document

def renderMarkup (budget : Nat) (config : Config) (r : RenderRequest) (source : String)
    (data : Value) (parent? : Option Value) : Except CommandError String := do
  let found ← target (Engine.new 0 config) (← document source) r.template?
  if r.clone then
    match found.engine.renderClone budget found.document data found.value with
    | some o => .ok (o.document.outerMarkup o.value)
    | none => .error .endless
  else
    match renderPasses budget data parent? found.value (max r.passes 1) found.engine
      found.document with
    | some d => .ok d.toMarkup
    | none => .error .endless

def runRender (budget : Nat) (s : Surroundings) (config : Config) (r : RenderRequest) :
    Except CommandError String := do
  let source ← s.read r.markup
  let data ← s.data r.data?
  let parent? ← s.parentData r.parent?
  (renderMarkup budget config r source data parent?).mapError (.cannotRender r.markup)

def runCheck (s : Surroundings) (config : Config) (markup : String) (quiet : Bool) :
    Except CommandError Reply := do
  let report := CheckReport.ofDocument config (← document (← s.read markup))
  let failed := report.complaints.length
  .ok ⟨report.lines quiet, if failed = 0 then none else some (.badExpressions failed)⟩

def runFingerprints (s : Surroundings) (config : Config) (markup : String) :
    Except CommandError Reply := do
  let report := FingerprintReport.ofDocument config (← document (← s.read markup))
  .ok ⟨report.lines, none⟩

/-- What a use of the command prints, unless it fails before printing anything. -/
def reply (budget : Nat) (s : Surroundings) (i : Invocation) : Except CommandError Reply := do
  let config ← s.config i.config?
  match i.command with
  | .render r => do .ok ⟨[← runRender budget s config r], none⟩
  | .check markup quiet => runCheck s config markup quiet
  | .fingerprints markup => runFingerprints s config markup

/-- What a use of the command prints.  A render may take at most `budget` steps a pass. -/
def run (budget : Nat) (s : Surroundings) (i : Invocation) : Reply :=
  match i.reply budget s with
  | .ok r => r
  | .error e => ⟨[], some e⟩

end Invocation

end TreeTemplate
