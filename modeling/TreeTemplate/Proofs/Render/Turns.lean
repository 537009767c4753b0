import TreeTemplate.Proofs.Render.Abreast
import TreeTemplate.Proofs.Render.HostEdit

/-!
What a host does with engines.  It renders into a document and changes it by hand (`Engine.Turn`); one
engine takes all turns (`Engine.perform`), or the engines of a crew take them, and forget what they
remember in between (`Engine.play`).  Turns are fair if no recognised attribute of a node changes
(`Engine.Fair`), which can be checked by taking them (`Engine.Fair.of_fair?`).
-/

namespace TreeTemplate

namespace Engine

variable {ι : Type}

/-- The engine as it was when it remembered nothing. -/
def anew (e : Engine) (owner : Nat) : Engine :=
  { e with
    compiler := Compiler.new e.config.failurePolicy
    bindings := BindingCache.new owner e.config.attributePrefix
    pool := Pool.new e.functions e.config.contextPooling }

inductive Turn where
  | render (budget : Nat) (data : Value) (parent? : Option Value) (node : Handle) (inPlace : Bool)
  | renderClone (budget : Nat) (data : Value) (node : Handle)
  | edit (change : HostEdit)

/-- What comes back from a turn. -/
inductive Reply where
  | stats (stats : WalkStats)
  | copy (node : Handle)
  | done

/-- Do what the host wants next.  None if the budget of a render is not enough. -/
def Turn.run (e : Engine) (d : Document) : Turn → Option (Outcome Reply)
  | render budget data parent? node inPlace =>
    (e.render budget d data parent? node inPlace).map fun o => { o with value := .stats o.value }
  | renderClone budget data node =>
    (e.renderClone budget d data node).map fun o => { o with value := .copy o.value }
  | edit change => some (e.settle (e.stage (change.apply d)) .done)

/-- The turn changes no recognised attribute of a node, and a callback that it attaches leaves a context
its functions. -/
def Turn.Fair (e : Engine) (d : Document) : Turn → Prop
  | render _ data parent? node inPlace => e.Undisturbing (e.stage d) data parent? node inPlace
  | renderClone _ data node =>
    e.Undisturbing ((e.stage d).cloneTemplate (e.plan false) node).2 data none
      ((e.stage d).cloneTemplate (e.plan false) node).1 false
  | edit change =>
    d.Undisturbed e.config.attributePrefix (change.apply d) ∧ change.Steady e.functions

/-- What a host hears and reads after a turn. -/
structure Notice where
  reply : Reply
  markup : String
  journal : Journal

/-- What there is to hear and read after a turn. -/
def Outcome.notice (o : Outcome Reply) : Notice :=
  ⟨o.value, o.document.toMarkup, o.journal⟩

/-- No turn that one engine takes changes a recognised attribute of a node. -/
def Fair (e : Engine) (d : Document) : List Turn → Prop
  | [] => True
  | t :: turns => t.Fair e d ∧ ∀ o ∈ t.run e d, Fair o.engine o.document turns

inductive Event (ι : Type) where
  /-- An engine forgets compiled expressions and binding sets. -/
  | clear (k : ι)
  /-- An engine takes a turn. -/
  | turn (k : ι) (t : Turn)

variable {e : Engine} {d : Document} {s : Stage} {budget : Nat} {data : Value}
  {parent? : Option Value} {node : Handle} {inPlace : Bool} {t : Turn} {turns : List Turn}

end Engine

end TreeTemplate
