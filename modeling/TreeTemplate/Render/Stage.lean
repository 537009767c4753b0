import TreeTemplate.Context.Pool
import TreeTemplate.Render.Fill
import TreeTemplate.Render.Instances
import TreeTemplate.Template.Lookup
import TreeTemplate.Walk

/-!
Rendering as a walk.

Each step of the walk places a node, fills a node, or releases a context.  Placing settles which
nodes stand where the node is, by its include or select binding; filling applies all other bindings
and goes on to the children.  Nothing recurses, and the steps pushed by one step are done before
those that wait.
-/

namespace TreeTemplate

/-- What the host may ask to hear of afterwards. -/
structure Journal where
  /-- The identities that the loader was asked for. -/
  asked : List String
  /-- What callbacks noted. -/
  notes : List String

def Journal.empty : Journal :=
  ⟨[], []⟩

/-- Everything that a render changes. -/
structure Stage extends Scan where
  pool : Pool
  journal : Journal

structure Plan where
  templates : Templates
  loader? : Option Loader
  /-- Whether nodes keep the identity that they have. -/
  inPlace : Bool

/-- A unit of work of a render. -/
inductive Step where
  /-- Settle what stands in the place of a node. -/
  | place (context : ContextId) (node : Handle)
  /-- Apply the other bindings of a node and go on to its children. -/
  | fill (context : ContextId) (node : Handle)
  /-- Release the context of a list item. -/
  | release (context : ContextId)
  deriving DecidableEq, Repr

namespace Stage

def bindingsOf (s : Stage) (h : Handle) : BindingSet × Stage :=
  let (set, scan) := s.toScan.lookup h
  (set, { s with toScan := scan })

def edit (s : Stage) (change : Document → Document) : Stage :=
  { s with document := change s.document }

def execute? (s : Stage) (id : ContextId) (e : Evaluator) : Option (Value × Stage) :=
  (s.pool.get? id).map fun c =>
    let (v, c) := c.execute e
    (v, { s with pool := s.pool.put id c })

def findTemplate (plan : Plan) (s : Stage) (reference : String) : Option Handle × Stage :=
  let found := plan.templates.find plan.loader? s.document reference
  let asked := if found.asked then s.journal.asked ++ [reference] else s.journal.asked
  (found.node?,
    { s with document := found.document, journal := { s.journal with asked := asked } })

def cloneTemplate (plan : Plan) (s : Stage) (template : Handle) : Handle × Stage :=
  let (copy, scan) := plan.templates.clone s.toScan template
  (copy, { s with toScan := scan })

/-- A fresh copy of the template that a reference names. -/
def resolveTemplate (plan : Plan) (s : Stage) (reference : String) : Option Handle × Stage :=
  match s.findTemplate plan reference with
  | (some template, s) =>
    let (copy, s) := s.cloneTemplate plan template
    (some copy, s)
  | (none, s) => (none, s)

/-- The reference that an inclusion makes; `null` makes the empty one.  None in a dead context. -/
def reference? (s : Stage) (context : ContextId) (i : Inclusion) : Option (String × Stage) :=
  match i with
  | .literal id => some (id, s)
  | .computed e => (s.execute? context e).map fun p => (p.1.display, p.2)

/-- Put a copy of a template in the place of a node, to be placed in turn.  Without such a template
the node goes. -/
def transclude (plan : Plan) (s : Stage) (context : ContextId) (node : Handle)
    (reference : String) : Stage × List (List Step) :=
  match s.resolveTemplate plan reference with
  | (some copy, s) => (s.edit fun d => d.replace copy node, [[.place context copy]])
  | (none, s) => (s.edit fun d => d.remove node, [])

/-- The steps that fill nodes with the items of a list, from position `index` on, each in a context
of its own. -/
def schedule (parent : ContextId) (count : Nat) :
    Nat → List Handle → List Value → Pool → List Step × Pool
  | index, h :: nodes, v :: items, p =>
    let (id, p) := p.createItem parent v index count
    let (steps, p) := schedule parent count (index + 1) nodes items p
    (.fill id h :: .release id :: steps, p)
  | _, _, _, p => ([], p)

/-- Queue the steps that fill nodes with the items of a list. -/
def queueItems (s : Stage) (parent : ContextId) (count index : Nat) (nodes : List Handle)
    (items : List Value) : Stage × List (List Step) :=
  let (steps, pool) := schedule parent count index nodes items s.pool
  ({ s with pool := pool }, [steps])

def selectList (s : Stage) (context : ContextId) (node : Handle) (items : List Value) :
    Stage × List (List Step) :=
  let count := items.length
  let change := ListChange.of (s.document.node node).marker? count
  let (instances, d) := change.apply node count s.document
  let s := { s with document := d }
  s.queueItems context count instances.first instances.nodes (items.drop instances.first)

/-- Make a node stand for the value that it selects: a list makes as many of it as there are items,
`null` hides it. -/
def select (s : Stage) (context : ContextId) (node : Handle) (v : Value) :
    Stage × List (List Step) :=
  match v with
  | .array items => s.selectList context node items
  | .null => (s.edit fun d => d.setVisible node false, [])
  | v => (s.edit fun d => d.setVisible node true).queueItems context 1 0 [node] [v]

/-- Fill a node, and queue its element children if they are to be visited.  Nodes that come in only
while the children are visited are not visited. -/
def fillNode (plan : Plan) (s : Stage) (context : ContextId) (node : Handle) :
    Stage × List (List Step) :=
  let (set, s) := s.bindingsOf node
  match s.pool.get? context with
  | none => (s, [])
  | some c =>
    let idAttribute := plan.templates.idAttribute
    let d := if plan.inPlace then s.document else s.document.removeAttribute node idAttribute
    let (descend, f) := (Filling.identify idAttribute set node ⟨d, c, []⟩).fill set node
    let s := { s with
      document := f.document
      pool := s.pool.put context f.context
      journal := { s.journal with notes := s.journal.notes ++ f.notes } }
    if descend then (s, [(s.document.elementChildren node).map (Step.place context)])
    else (s, [])

/-- Settle what stands in the place of a node.  An include binding comes before a select binding;
with neither the node is filled at once. -/
def placeNode (plan : Plan) (s : Stage) (context : ContextId) (node : Handle) :
    Stage × List (List Step) :=
  let (set, s) := s.bindingsOf node
  match set.include?, set.select? with
  | some i, _ =>
    match s.reference? context i with
    | some (reference, s) => s.transclude plan context node reference
    | none => (s, [])
  | none, some e =>
    match s.execute? context e with
    | some (v, s) => s.select context node v
    | none => (s, [])
  | none, none => s.fillNode plan context node

def step (plan : Plan) (s : Stage) (step : Step) (_ : Nat) : Stage × List (List Step) :=
  match step with
  | .place context node => s.placeNode plan context node
  | .fill context node => s.fillNode plan context node
  | .release context => ({ s with pool := s.pool.recycle context }, [])

/-- Render a node in a context, in at most `budget` steps.  None if steps are left over. -/
def render (plan : Plan) (budget : Nat) (s : Stage) (context : ContextId) (node : Handle) :
    Option (Stage × WalkStats) :=
  WorkStack.runFrom (step plan) budget (.place context node) s

end Stage

end TreeTemplate
