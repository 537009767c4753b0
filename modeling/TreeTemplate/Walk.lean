/-!
Walks driven by a stack of queues.  A handler takes one item at a time and may push queues of
further items; a pushed queue is emptied before the queue below it goes on, so the items come in
pre-order and nothing recurses.
-/

namespace TreeTemplate

/-- A queue with a count of the items already taken from it. -/
structure WorkQueue (α : Type) where
  taken : Nat
  remaining : List α

namespace WorkQueue

variable {α : Type}

def ofList (items : List α) : WorkQueue α :=
  ⟨0, items⟩

def empty : WorkQueue α :=
  ofList []

def append (q : WorkQueue α) (items : List α) : WorkQueue α :=
  { q with remaining := q.remaining ++ items }

/-- The number of items ever put in. -/
def size (q : WorkQueue α) : Nat :=
  q.taken + q.remaining.length

/-- Whether nothing was ever put in. -/
def isEmpty (q : WorkQueue α) : Bool :=
  q.size == 0

def isExhausted (q : WorkQueue α) : Bool :=
  q.remaining.isEmpty

def take? (q : WorkQueue α) : Option (α × WorkQueue α) :=
  match q.remaining with
  | a :: rest => some (a, ⟨q.taken + 1, rest⟩)
  | [] => none

end WorkQueue

/-- What a walk did: the items it handled and the largest number of queues at one time. -/
structure WalkStats where
  items : Nat
  depth : Nat
  deriving DecidableEq, Repr

/-- The queues of a walk, the newest first, and its counts so far.  `spares` are emptied queues,
kept for reuse. -/
structure WorkStack (α : Type) where
  queues : List (WorkQueue α)
  spares : List (WorkQueue α)
  stats : WalkStats

/-- What a handler does with an item at a depth: a new state, and the queues to push in order. -/
abbrev Handler (σ α : Type) := σ → α → Nat → σ × List (List α)

namespace WorkStack

variable {σ α : Type}

def new : WorkStack α :=
  ⟨[], [], ⟨0, 0⟩⟩

def depth (s : WorkStack α) : Nat :=
  s.queues.length

/-- A queue without items: a spare one if there is any. -/
def createQueue (s : WorkStack α) : WorkQueue α × WorkStack α :=
  match s.spares with
  | q :: rest => (q, { s with spares := rest })
  | [] => (WorkQueue.empty, s)

/-- Keep an emptied queue for reuse. -/
def recycle (s : WorkStack α) : WorkStack α :=
  { s with spares := WorkQueue.empty :: s.spares }

/-- Push a queue.  One without items is recycled at once. -/
def push (s : WorkStack α) (q : WorkQueue α) : WorkStack α :=
  if q.isEmpty then s.recycle
  else
    { s with
      queues := q :: s.queues
      stats := { s.stats with depth := max s.stats.depth (s.depth + 1) } }

def pushItems (s : WorkStack α) (items : List α) : WorkStack α :=
  let (q, s) := s.createQueue
  s.push (q.append items)

/-- The next item of the queues, with the queues and the spare ones after taking it.  Queues found
empty on the way become spare. -/
def takeNext : List (WorkQueue α) → List (WorkQueue α) →
    Option α × List (WorkQueue α) × List (WorkQueue α)
  | [], spares => (none, [], spares)
  | q :: rest, spares =>
    match q.take? with
    | some (a, q) => (some a, q :: rest, spares)
    | none => takeNext rest (WorkQueue.empty :: spares)

def next (s : WorkStack α) : Option α × WorkStack α :=
  let (a?, queues, spares) := takeNext s.queues s.spares
  (a?, { s with queues := queues, spares := spares })

def countItem (s : WorkStack α) : WorkStack α :=
  { s with stats := { s.stats with items := s.stats.items + 1 } }

/-- Hand items to the handler until none is left, at most `fuel` of them.  None if items are left
over; otherwise the state reached, the counts, and the stack, ready for the next walk. -/
def run (handle : Handler σ α) : Nat → WorkStack α → σ → Option (σ × WalkStats × WorkStack α)
  | fuel, s, state =>
    match s.next, fuel with
    | (none, s), _ => some (state, s.stats, { s with stats := ⟨0, 0⟩ })
    | (some _, _), 0 => none
    | (some a, s), fuel + 1 =>
      let s := s.countItem
      let (state, queues) := handle state a s.depth
      run handle fuel (queues.foldl pushItems s) state

def runFrom (handle : Handler σ α) (fuel : Nat) (item : α) (state : σ) :
    Option (σ × WalkStats) :=
  (run handle fuel ((new : WorkStack α).pushItems [item]) state).map fun r => (r.1, r.2.1)

end WorkStack

end TreeTemplate
