import TreeTemplate.Config.Basic
import TreeTemplate.Function.Standard
import TreeTemplate.Render.Stage

/-!
Engines: settings, host functions, globals and a loader, with the caches that renders share.  An
engine holds no document; its operations take one and give it back changed.
-/

namespace TreeTemplate

structure Engine where
  config : Config
  functions : Registry
  /-- The variables of every root context. -/
  globals : Variables
  loader? : Option Loader
  compiler : Compiler
  bindings : BindingCache
  pool : Pool

/-- What an operation of an engine gives: a value, the engine and the document afterwards, and what
the host may want to hear of. -/
structure Outcome (α : Type) where
  value : α
  engine : Engine
  document : Document
  journal : Journal

/-- Why an operation on templates fails. -/
inductive TemplateError where
  /-- A template that had to be there is not. -/
  | notFound (reference : String)
  deriving DecidableEq, Repr

def TemplateError.message : TemplateError → String
  | notFound reference => "Template '" ++ reference ++ "' not found"

/-- A template node with the way it is rendered. -/
structure TemplateHandle where
  node? : Option Handle
  /-- Whether the node keeps its identity. -/
  inPlace : Bool

namespace Engine

/-- A fresh engine.  Engines that work on one document need different owners. -/
def new (owner : Nat) (config : Config) : Engine :=
  { config := config
    functions := Standard.registry
    globals := Dict.put [] defaultName config.defaultValue
    loader? := none
    compiler := Compiler.new config.failurePolicy
    bindings := BindingCache.new owner config.attributePrefix
    pool := Pool.new Standard.registry config.contextPooling }

def templates (e : Engine) : Templates :=
  ⟨e.config.idAttribute, e.config.templateContainerId⟩

def plan (e : Engine) (inPlace : Bool) : Plan :=
  ⟨e.templates, e.loader?, inPlace⟩

/-- The engine's caches at work on a document. -/
def stage (e : Engine) (d : Document) : Stage :=
  ⟨⟨d, e.compiler, e.bindings⟩, e.pool, .empty⟩

/-- What is left when the work on a stage is done. -/
def settle {α : Type} (e : Engine) (s : Stage) (value : α) : Outcome α :=
  ⟨value, { e with compiler := s.compiler, bindings := s.bindings, pool := s.pool }, s.document,
    s.journal⟩

/-- Set a variable that every root context sees. -/
def setGlobal (e : Engine) (name : String) (v : Value) : Engine :=
  { e with globals := Dict.put e.globals name v }

def global? (e : Engine) (name : String) : Option Value :=
  Dict.get? e.globals name

/-- Make a host function known to expressions.  The contexts pooled so far are given up. -/
def register (e : Engine) (name : String) (f : HostFunction) : Engine :=
  let functions := e.functions.register name f
  { e with functions := functions, pool := Pool.new functions e.config.contextPooling }

def setLoader (e : Engine) (loader? : Option Loader) : Engine :=
  { e with loader? := loader? }

/-- What the cache of compiled expressions has done. -/
def compilerStats (e : Engine) : CacheStats :=
  e.compiler.stats

def bindingStats (e : Engine) : CacheStats :=
  e.bindings.stats

/-- Forget compiled expressions and binding sets. -/
def clearCaches (e : Engine) : Engine :=
  { e with compiler := e.compiler.clear, bindings := e.bindings.clear }

/-- Evaluate an expression over `data`, in a root context of its own. -/
def evaluate (e : Engine) (source : String) (data : Value) : Value × Engine :=
  let (evaluator, compiler) := e.compiler.compile source
  let (v, _) := (Context.root data e.globals e.functions).execute evaluator
  (v, { e with compiler := compiler })

/-- The context of a render: a root context over `data`, or a child of one over the parent data; and
the context of the parent data. -/
def openContexts (e : Engine) (p : Pool) (data : Value) (parent? : Option Value) :
    ContextId × Option ContextId × Pool :=
  match parent? with
  | none =>
    let (context, p) := p.createRoot data e.globals
    (context, none, p)
  | some parentData =>
    let (parent, p) := p.createRoot parentData e.globals
    let (context, p) := p.createChild data parent
    (context, some parent, p)

def closeContexts (context : ContextId) (parent? : Option ContextId) (p : Pool) : Pool :=
  let p := p.recycle context
  match parent? with
  | some parent => p.recycle parent
  | none => p

/-- Render data into a node on a stage, in at most `budget` steps. -/
def renderOn (e : Engine) (budget : Nat) (s : Stage) (data : Value) (parent? : Option Value)
    (node : Handle) (inPlace : Bool) : Option (Stage × WalkStats) :=
  let (context, parent?, pool) := e.openContexts s.pool data parent?
  let s := { s with toScan := s.toScan.prime node, pool := pool }
  (s.render (e.plan inPlace) budget context node).map fun r =>
    ({ r.1 with pool := closeContexts context parent? r.1.pool }, r.2)

/-- Render data into a node, in at most `budget` steps; none if that is not enough.  With parent
data `$top` stands for it.  Unless `inPlace`, nodes lose every identity that no binding gives
them. -/
def render (e : Engine) (budget : Nat) (d : Document) (data : Value) (parent? : Option Value)
    (node : Handle) (inPlace : Bool) : Option (Outcome WalkStats) :=
  (e.renderOn budget (e.stage d) data parent? node inPlace).map fun r => e.settle r.1 r.2

/-- Render data into a node that keeps its identity. -/
def renderInPlace (e : Engine) (budget : Nat) (d : Document) (data : Value) (node : Handle) :
    Option (Outcome WalkStats) :=
  e.render budget d data none node true

/-- Render data into a detached copy of a node, which loses its identity; gives the copy. -/
def renderClone (e : Engine) (budget : Nat) (d : Document) (data : Value) (node : Handle) :
    Option (Outcome Handle) :=
  let (copy, s) := (e.stage d).cloneTemplate (e.plan false) node
  (e.renderOn budget s data none copy false).map fun r => e.settle r.1 copy

def findTemplate (e : Engine) (d : Document) (id : String) : Outcome (Option Handle) :=
  let (node?, s) := (e.stage d).findTemplate (e.plan true) id
  e.settle s node?

def resolveTemplate (e : Engine) (d : Document) (reference : String) : Outcome (Option Handle) :=
  let (node?, s) := (e.stage d).resolveTemplate (e.plan true) reference
  e.settle s node?

/-- A fresh copy of a template that has to be there. -/
def requireTemplate (e : Engine) (d : Document) (reference : String) :
    Outcome (Except TemplateError Handle) :=
  let found := e.resolveTemplate d reference
  { found with value := found.value.elim (.error (.notFound reference)) .ok }

/-- A handle that renders into a template itself. -/
def getTemplate (e : Engine) (d : Document) (id : String) : Outcome TemplateHandle :=
  let found := e.findTemplate d id
  { found with value := ⟨found.value, true⟩ }

/-- A handle that renders into a fresh copy of a template. -/
def cloneTemplate (e : Engine) (d : Document) (id : String) : Outcome TemplateHandle :=
  let found := e.resolveTemplate d id
  { found with value := ⟨found.value, false⟩ }

/-- Render data by a template handle, in at most `budget` steps.  A handle without a node does
nothing. -/
def process (e : Engine) (budget : Nat) (d : Document) (h : TemplateHandle) (data : Value) :
    Option (Outcome Unit) :=
  match h.node? with
  | none => some (e.settle (e.stage d) ())
  | some node =>
    (e.render budget d data none node h.inPlace).map fun o => { o with value := () }

end Engine

end TreeTemplate
