import TreeTemplate.Context.Basic

/-!
Host callbacks: code attached to a node that runs in the node's context during a render.
-/

namespace TreeTemplate

structure CallbackOutcome where
  /-- The context with what the callback changed in it. -/
  context : Context
  /-- What the callback tells the host. -/
  notes : List String
  /-- Why the callback failed, if it did.  A failure does not stop the render. -/
  failure? : Option String

abbrev Callback := Context → CallbackOutcome

end TreeTemplate
