import TreeTemplate.Expression.Lists
import TreeTemplate.Expression.Parser

/-!
Compiled expressions and a cache of them by source text.
-/

namespace TreeTemplate

/-- A source text with the expression that it spells, if it spells one.  Evaluators made by one
compiler have the same `serial` exactly when they come from the same compilation. -/
structure Evaluator where
  source : String
  expr? : Option Expr
  serial : Nat

def Evaluator.isValid (e : Evaluator) : Bool :=
  e.expr?.isSome

/-- What becomes of a source that does not parse. -/
inductive FailurePolicy where
  /-- It is compiled again each time. -/
  | retry
  /-- It is remembered like any other. -/
  | cacheFailure
  deriving DecidableEq, Repr

/-- How often a cache was asked and what it holds. -/
structure CacheStats where
  hits : Nat
  misses : Nat
  entries : Nat
  deriving DecidableEq, Repr

/-- The share of hits among all requests, in percent; zero if there were none. -/
def CacheStats.hitRate (s : CacheStats) : Float :=
  if s.hits + s.misses = 0 then 0.0
  else Float.ofNat s.hits / Float.ofNat (s.hits + s.misses) * 100.0

structure Compiler where
  cache : Dict Evaluator
  policy : FailurePolicy
  hits : Nat
  misses : Nat
  /-- The serial of the next compilation. -/
  next : Nat

namespace Compiler

def new (policy : FailurePolicy) : Compiler :=
  ⟨[], policy, 0, 0, 0⟩

/-- The outcome of parsing `source` as an evaluator. -/
def evaluator (source : String) (serial : Nat) : Evaluator :=
  ⟨source, (parse source).toOption, serial⟩

def compile (c : Compiler) (source : String) : Evaluator × Compiler :=
  match Dict.get? c.cache source with
  | some e => (e, { c with hits := c.hits + 1 })
  | none =>
    let e := evaluator source c.next
    let kept := e.isValid || c.policy = .cacheFailure
    (e, { c with
      misses := c.misses + 1
      next := c.next + 1
      cache := if kept then Dict.put c.cache source e else c.cache })

/-- The evaluators of several expressions, in order. -/
def compileAll (c : Compiler) : List String → List Evaluator × Compiler
  | [] => ([], c)
  | source :: rest =>
    let (e, c) := c.compile source
    let (es, c) := c.compileAll rest
    (e :: es, c)

def compileList (c : Compiler) (source : String) : List (String × Evaluator) × Compiler :=
  let pairs := labelledSources source
  let (es, c) := c.compileAll (pairs.map (·.2))
  ((pairs.map (·.1)).zip es, c)

def compileSequence (c : Compiler) (source : String) : List Evaluator × Compiler :=
  c.compileAll (splitSequence source)

/-- What the cache has done since it was last cleared. -/
def stats (c : Compiler) : CacheStats :=
  ⟨c.hits, c.misses, c.cache.length⟩

/-- Forget everything compiled, and the counts. -/
def clear (c : Compiler) : Compiler :=
  { c with cache := [], hits := 0, misses := 0 }

end Compiler

end TreeTemplate
