import TreeTemplate.Engine
import TreeTemplate.Proofs.Document.Forest
import TreeTemplate.Proofs.Render.Bare

/-!
Renders in place.  A render opens a root context, primes the node and places it; the run of these steps
(`Engine.Trace`) decides what `Engine.renderInPlace` gives (`Engine.renderInPlace_eq`), and it leaves
in the place of the node what `Sketch.place` says (`Engine.Opening.place`).
-/

namespace TreeTemplate.Engine

open Document (Regrown)
open NodeTree (Primed Known Sighted handlesOf)
open Stage (Ready Visit act)

variable {e : Engine} {d : Document} {data : Value} {node h : Handle} {log : List (Stage × Step)}
  {s' : Stage} {home : Option Handle} {t t' : NodeTree} {functions : Registry}
  {F : Registry → Prop} {o : Outcome WalkStats} {budget : Nat} {R : NodeTree}

/-- The context of an in-place render and the stage that it begins on. -/
def opened (e : Engine) (d : Document) (data : Value) (node : Handle) : ContextId × Stage :=
  ((e.pool.createRoot data e.globals).1,
    { e.stage d with
      toScan := (e.stage d).toScan.prime node
      pool := (e.pool.createRoot data e.globals).2 })

/-- The engine after an in-place render that ends on a stage. -/
def closed (e : Engine) (context : ContextId) (s : Stage) : Engine :=
  { e with compiler := s.compiler, bindings := s.bindings, pool := s.pool.recycle context }

/-- The steps of an in-place render, each with the stage that it was done on, and the stage that it
ends on. -/
def Trace (e : Engine) (d : Document) (data : Value) (node : Handle) (log : List (Stage × Step))
    (s' : Stage) : Prop :=
  Runs (act (e.plan true)) (e.opened d data node).2 [.place (e.opened d data node).1 node] log s'

/-- The bindings of a node as a render of `top` sees them. -/
def bindingsAt (e : Engine) (d : Document) (top h : Handle) : BindingSet :=
  (((e.stage d).toScan.prime top).lookup h).1

/-- A render ends where its steps end, if they are not more than the budget. -/
theorem renderInPlace_eq (ht : e.Trace d data node log s') (budget : Nat) :
    (e.renderInPlace budget d data node).map (fun o => (o.engine, o.document)) =
      if log.length ≤ budget then some (e.closed (e.opened d data node).1 s', s'.document)
      else none := by
  have hwalk := WorkStack.runFrom_eq ht budget
  have hrender : e.renderInPlace budget d data node =
      (((e.opened d data node).2.render (e.plan true) budget (e.opened d data node).1 node).map
        fun r => ({ r.1 with pool := r.1.pool.recycle (e.opened d data node).1 }, r.2)).map
          fun r => e.settle r.1 r.2 := rfl
  have hwalk' : ((e.opened d data node).2.render (e.plan true) budget
      (e.opened d data node).1 node).map (·.1) = if log.length ≤ budget then some s' else none :=
    hwalk
  rw [hrender, Option.map_map, Option.map_map]
  generalize (e.opened d data node).2.render (e.plan true) budget (e.opened d data node).1 node = r
    at hwalk'
  cases r with
  | none =>
    split at hwalk'
    · simp at hwalk'
    · next hlt => rw [if_neg hlt, Option.map_none]
  | some r =>
    split at hwalk'
    · next hle =>
      obtain rfl := Option.some.inj hwalk'
      rw [if_pos hle]
      rfl
    · simp at hwalk'

namespace Trace

/-- With enough budget a render has an outcome. -/
theorem exists_outcome (ht : e.Trace d data node log s') :
    ∃ bound, ∀ budget ≥ bound, ∃ o, e.renderInPlace budget d data node = some o := by
  refine ⟨log.length, fun budget hle => ?_⟩
  have heq := renderInPlace_eq ht budget
  rw [if_pos hle] at heq
  obtain ⟨o, ho, -⟩ := Option.map_eq_some_iff.mp heq
  exact ⟨o, ho⟩

/-- The outcome of a render is where its steps end. -/
theorem outcome_eq (ht : e.Trace d data node log s')
    (ho : e.renderInPlace budget d data node = some o) :
    o.engine = e.closed (e.opened d data node).1 s' ∧ o.document = s'.document := by
  have heq := renderInPlace_eq ht budget
  rw [ho, Option.map_some] at heq
  split at heq
  · exact Prod.mk.inj (Option.some.inj heq)
  · simp at heq

end Trace

/-- The root is above everything that is to be visited. -/
theorem away_kids (hR : d.Seated none [R]) (hroot : R.handle = Document.root) (ht : d.Holds t) :
    d.Away t.kids := by
  refine ⟨Document.root_not_mem_kids hR hroot ht, R.record, ?_⟩
  rw [← hroot]
  exact (hR.held R (List.mem_singleton_self R)).get?_handle

/-! ### Opening -/

/-- The caches of the engine are in order. -/
structure Sound (e : Engine) : Prop where
  bindings : e.bindings.Sound
  pool : e.pool.Sound

/-- On the stage that a render of the seated tree begins on, `t'` stands in the place of `t`, with a set
on record for every node that is to be visited. -/
structure Opening (e : Engine) (d : Document) (data : Value) (home : Option Handle)
    (t t' : NodeTree) (functions : Registry) : Prop where
  regrown : d.Regrown (e.opened d data t.handle).2.document home [t] [t']
  tidy : (e.opened d data t.handle).2.document.Tidy
  sound : (e.opened d data t.handle).2.bindings.Sound
  extended : e.bindings.Extends (e.opened d data t.handle).2.bindings
  primed : Primed e.bindings t t'
  known : Known (e.opened d data t.handle).2.bindings t'
  top : (e.opened d data t.handle).2.bindings.setOf? t'.record =
    some ((e.stage d).toScan.lookup t.handle).1
  pool : e.pool.Opened (e.opened d data t.handle).1 (Context.root data e.globals functions)
    (e.opened d data t.handle).2.pool

theorem opening (he : e.Sound) (hs : d.Seated home [t]) (ht : d.Tidy) (data : Value) :
    ∃ t' functions, (∀ F, e.pool.Uniform F → F e.pool.functions → F functions) ∧
      e.Opening d data home t t' functions := by
  obtain ⟨t', ⟨hregrown, htidy, hsound, hextended⟩, hprimed, hknown, htop⟩ :=
    Scan.prime_spec (s := (e.stage d).toScan) hs ht he.bindings
  obtain ⟨functions, hfunctions, hopened⟩ := Pool.createRoot_opened he.pool data e.globals
  exact ⟨t', functions, hfunctions, hregrown, htidy, hsound, hextended, hprimed, hknown, htop,
    hopened⟩

namespace Opening

theorem handle_eq (ho : e.Opening d data home t t' functions) : t'.handle = t.handle :=
  ho.primed.handle_eq

theorem seated (ho : e.Opening d data home t t' functions) (hs : d.Seated home [t]) :
    (e.opened d data t.handle).2.document.Seated home [t'] :=
  ho.regrown.seated hs

theorem ready (ho : e.Opening d data home t t' functions) (hs : d.Seated home [t])
    (hF : F functions) : Ready (e.opened d data t.handle).2.bindings F
      (e.opened d data t.handle).2 (e.opened d data t.handle).1
      (Context.root data e.globals functions) home [t'] :=
  ⟨ho.seated hs, ho.tidy, rfl, ho.pool.sound, by rw [ho.pool.get?_eq, if_pos rfl], hF⟩

/-- The sets on record are what a render sees. -/
theorem bindingsAt_eq (ho : e.Opening d data home t t' functions) (hs : d.Seated home [t])
    {entry : Handle × Node} (hentry : entry ∈ t'.entries) {set : BindingSet}
    (hset : (e.opened d data t.handle).2.bindings.setOf? entry.2 = some set) :
    e.bindingsAt d t.handle entry.1 = set :=
  Scan.lookup_of_mem_entries ((ho.seated hs).held t' (List.mem_singleton_self t')) hentry hset

theorem mem_subtree (ho : e.Opening d data home t t' functions) (hs : d.Seated home [t])
    {entry : Handle × Node} (hentry : entry ∈ t'.entries) : entry.1 ∈ d.subtree t.handle := by
  rw [Document.subtree_eq (hs.held t (List.mem_singleton_self t)), ← ho.primed.handles_eq]
  exact List.mem_map_of_mem hentry

theorem handlesOf_kids (ho : e.Opening d data home t t' functions) :
    handlesOf t'.kids = handlesOf t.kids := by
  have hhandles := ho.primed.handles_eq
  obtain ⟨h, n, ks⟩ := t
  obtain ⟨h', n', ks'⟩ := t'
  rw [NodeTree.handles_node, NodeTree.handles_node] at hhandles
  exact (List.cons.inj hhandles).2

theorem away (ho : e.Opening d data home t t' functions) (hs : d.Seated home [t])
    (ha : d.Away t.kids) : (e.opened d data t.handle).2.document.Away t'.kids :=
  ho.regrown.away_kids hs ho.handle_eq ho.handlesOf_kids ha

/-- A tree without include bindings, with steady callbacks, is sighted. -/
theorem sighted (ho : e.Opening d data home t t' functions) (hs : d.Seated home [t])
    (hinclude : ∀ h ∈ d.subtree t.handle, (e.bindingsAt d t.handle h).include? = none)
    (hsteady : ∀ h ∈ d.subtree t.handle, Steady F (d.node h).callbacks) :
    Sighted (e.opened d data t.handle).2.bindings F t' := by
  unfold bindingsAt at hinclude
  exact ho.primed.sighted_of_known (s := (e.stage d).toScan) hs
    ⟨ho.regrown, ho.tidy, ho.sound, ho.extended⟩ ho.known hinclude hsteady

/-- Placing the tree leaves in its place what its sketch says, and an engine in order. -/
theorem place (ho : e.Opening d data home t t' functions) (hs : d.Seated home [t])
    (ha : d.Away t.kids) (hF : F functions)
    (hsight : Sighted (e.opened d data t.handle).2.bindings F t')
    (hroot : t.handle = Document.root →
      (t'.sketch (e.opened d data t.handle).2.bindings).selects = false) :
    ∃ log s' us, e.Trace d data t.handle log s' ∧ d.Regrown s'.document home [t] us ∧
      s'.document.Tidy ∧ s'.bindings = (e.opened d data t.handle).2.bindings ∧
      (e.closed (e.opened d data t.handle).1 s').Sound ∧
      (e.pool.Uniform F → (e.closed (e.opened d data t.handle).1 s').pool.Uniform F) ∧
      (e.closed (e.opened d data t.handle).1 s').pool.functions = e.pool.functions ∧
      (∀ u ∈ us, Sighted s'.bindings F u) ∧ (us = [] ∨ t.handle ∈ us.map NodeTree.handle) ∧
      us.map (NodeTree.sketch s'.bindings) =
        (Sketch.place e.config.idAttribute (t'.sketch (e.opened d data t.handle).2.bindings)
          (Context.root data e.globals functions)).1 := by
  obtain ⟨s', us, log, hv, hus, hmem, hsketches⟩ :=
    Stage.place_visit (show (e.plan true).inPlace = true from rfl) (ho.ready hs hF)
      (ho.away hs ha)
      (fun htop => hroot (ho.handle_eq.symm.trans htop)) hsight
  rw [ho.handle_eq] at hmem
  have hruns := hv.runs
  rw [ho.handle_eq] at hruns
  have hlive := hv.pool.get?_self
  refine ⟨log, s', us, hruns, ho.regrown.trans hs hv.regrown, hv.tidy, hv.bindings,
    ⟨by rw [closed, hv.bindings]; exact ho.sound, hv.pool.sound.recycle hlive⟩,
    fun hu => (hv.pool.uniform (ho.pool.uniform F hu)).recycle hlive hv.functions, ?_, ?_, hmem, ?_⟩
  · exact (Pool.functions_recycle _ _).trans
      (hv.pool.functions_eq.trans ho.pool.functions_eq)
  · rw [hv.bindings]
    exact fun u hu => (hus u hu).1
  · rw [hv.bindings]
    exact hsketches

end Opening

end TreeTemplate.Engine
