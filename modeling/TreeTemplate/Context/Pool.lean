import TreeTemplate.Context.Basic

/-!
A store of live contexts under small handles.  Released slots are used again, last released first.
With pooling on, released contexts are cleared and kept for reuse; this is not visible in what the
contexts hold.
-/

namespace TreeTemplate

structure ContextId where
  slot : Nat
  deriving DecidableEq, Repr

structure Pool where
  slots : Array (Option Context)
  /-- Vacant slots, last released first. -/
  free : List Nat
  /-- Cleared contexts that wait for reuse, last released first. -/
  spares : List Context
  pooling : Bool
  functions : Registry

namespace Pool

def new (functions : Registry) (pooling : Bool) : Pool :=
  ⟨#[], [], [], pooling, functions⟩

/-- A context to be set up: a spare one if there is any. -/
def takeSpare (p : Pool) : Context × Pool :=
  match p.spares with
  | c :: rest => (c, { p with spares := rest })
  | [] => (Context.empty p.functions, p)

def store (p : Pool) (c : Context) : ContextId × Pool :=
  match p.free with
  | slot :: rest => (⟨slot⟩, { p with slots := p.slots.setIfInBounds slot (some c), free := rest })
  | [] => (⟨p.slots.size⟩, { p with slots := p.slots.push (some c) })

def get? (p : Pool) (id : ContextId) : Option Context :=
  (p.slots[id.slot]?).join

/-- Replace the context of a handle, if it is live. -/
def put (p : Pool) (id : ContextId) (c : Context) : Pool :=
  match p.get? id with
  | some _ => { p with slots := p.slots.setIfInBounds id.slot (some c) }
  | none => p

def createRoot (p : Pool) (data : Value) (globals : Variables) : ContextId × Pool :=
  let (c, p) := p.takeSpare
  p.store (c.resetRoot data globals)

/-- A new child of `parent`.  A parent that is not live gives a root context without globals. -/
def createChild (p : Pool) (data : Value) (parent : ContextId) : ContextId × Pool :=
  let (c, p) := p.takeSpare
  match p.get? parent with
  | some parent => p.store (c.resetChild data parent)
  | none => p.store (c.resetRoot data [])

/-- A new child of `parent` for one item of a list. -/
def createItem (p : Pool) (parent : ContextId) (data : Value) (index count : Nat) :
    ContextId × Pool :=
  let (id, p) := p.createChild data parent
  match p.get? id with
  | some c => (id, p.put id (c.setPosition index count))
  | none => (id, p)

/-- Release a context.  Nothing happens if the handle is not live. -/
def recycle (p : Pool) (id : ContextId) : Pool :=
  match p.get? id with
  | none => p
  | some c =>
    { p with
      slots := p.slots.setIfInBounds id.slot none
      free := id.slot :: p.free
      spares := if p.pooling then c.clear :: p.spares else p.spares }

def live (p : Pool) : Nat :=
  p.slots.toList.countP Option.isSome

/-- The number of contexts that wait for reuse. -/
def spareCount (p : Pool) : Nat :=
  p.spares.length

end Pool

end TreeTemplate
