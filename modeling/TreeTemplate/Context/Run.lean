import TreeTemplate.Expression.Cache
import TreeTemplate.Context.Eval

/-!
Running compiled expressions in a context.
-/

namespace TreeTemplate.Context

/-- The value of an evaluator or the error it ends with, and the context afterwards. -/
def tryExecute (c : Context) (e : Evaluator) : Except EvalError Value × Context :=
  match e.expr? with
  | some expr => Eval.eval c expr
  | none => (.error (.compileFailed e.source), c)

/-- The value of an evaluator, `$default` standing in for an error. -/
def execute (c : Context) (e : Evaluator) : Value × Context :=
  match c.tryExecute e with
  | (.ok v, c) => (v, c)
  | (.error _, c) => (c.defaultValue, c)

/-- Parse a source text and run it, without any cache. -/
def evaluateExpression (c : Context) (source : String) : Value × Context :=
  c.execute (Compiler.evaluator source 0)

end TreeTemplate.Context
