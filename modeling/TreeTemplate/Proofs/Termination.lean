import TreeTemplate.Proofs.Render.InPlace
import TreeTemplate.Proofs.Render.SelfContained
import TreeTemplate.Proofs.Tenancy

/-!
Renders come to an end.  Without an include a node is placed by finitely many steps, however its selects
nest and however long its lists are (`Stage.exists_runs`), so there is a number of steps that a render
needs, no matter how many it may take (`Engine.render_terminates`).  At every point of such a render all
steps that wait are at nodes without includes below (`Engine.Reaches.enclosed`).
-/

namespace TreeTemplate

/-! ### The cache of binding sets -/

theorem Templates.clone_sound (t : Templates) {s : Scan} (hb : s.bindings.Sound) (template : Handle) :
    (t.clone s template).2.bindings.Sound := by
  have hprimed := Scan.prime_sound hb template
  unfold clone
  exact hprimed

namespace Stage

variable {plan : Plan} {s s' : Stage} {id : ContextId} {node : Handle}

theorem bindingsOf_sound (hb : s.bindings.Sound) (node : Handle) :
    (s.bindingsOf node).2.bindings.Sound :=
  Scan.lookup_sound (s := s.toScan) hb node

theorem execute?_bindings {e : Evaluator} {v : Value} (he : s.execute? id e = some (v, s')) :
    s'.bindings = s.bindings := by
  obtain ⟨c, -, heq⟩ := Option.map_eq_some_iff.mp he
  obtain ⟨-, rfl⟩ := Prod.mk.inj heq
  rfl

theorem reference?_bindings {i : Inclusion} {reference : String}
    (hr : s.reference? id i = some (reference, s')) : s'.bindings = s.bindings := by
  cases i with
  | literal name =>
    obtain ⟨-, rfl⟩ := Prod.mk.inj (Option.some.inj hr)
    rfl
  | computed e =>
    obtain ⟨⟨v, s₁⟩, he, heq⟩ := Option.map_eq_some_iff.mp hr
    obtain ⟨-, rfl⟩ := Prod.mk.inj heq
    exact execute?_bindings he

theorem cloneTemplate_sound (plan : Plan) (hb : s.bindings.Sound) (template : Handle) :
    (s.cloneTemplate plan template).2.bindings.Sound :=
  plan.templates.clone_sound (s := s.toScan) hb template

theorem resolveTemplate_sound (plan : Plan) (hb : s.bindings.Sound) (reference : String) :
    (s.resolveTemplate plan reference).2.bindings.Sound := by
  have hresolved := resolveTemplate_resolution plan s reference
  generalize s.resolveTemplate plan reference = r at hresolved ⊢
  cases hresolved with
  | missing _ hscan =>
    rw [hscan]
    exact hb
  | @copied template _ _ _ hclone =>
    have hcloned := plan.templates.clone_sound (s := s.sought plan reference) hb template
    rwa [hclone] at hcloned

theorem transclude_sound (hb : s.bindings.Sound) (plan : Plan) (id : ContextId) (node : Handle)
    (reference : String) : (s.transclude plan id node reference).1.bindings.Sound := by
  have hresolved := resolveTemplate_sound plan hb reference
  unfold transclude
  generalize s.resolveTemplate plan reference = r at hresolved ⊢
  obtain ⟨copy?, s₁⟩ := r
  cases copy? with
  | none => exact hresolved
  | some copy => exact hresolved

/-- Selecting a value looks at no bindings. -/
theorem select_bindings (s : Stage) (id : ContextId) (node : Handle) (v : Value) :
    (s.select id node v).1.bindings = s.bindings := by
  cases v <;> rfl

theorem fillNode_sound (hb : s.bindings.Sound) (plan : Plan) (id : ContextId) (node : Handle) :
    (s.fillNode plan id node).1.bindings.Sound := by
  have hseen := bindingsOf_sound hb node
  unfold fillNode
  generalize s.bindingsOf node = r at hseen ⊢
  obtain ⟨set, s₁⟩ := r
  dsimp only at hseen ⊢
  cases s₁.pool.get? id with
  | none => exact hseen
  | some c =>
    dsimp only
    generalize Filling.fill set node _ = filled
    obtain ⟨descends, f⟩ := filled
    cases descends <;> exact hseen

theorem placeNode_sound (hb : s.bindings.Sound) (plan : Plan) (id : ContextId) (node : Handle) :
    (s.placeNode plan id node).1.bindings.Sound := by
  have hseen := bindingsOf_sound hb node
  have hplaced := placeNode_placement plan s id node
  generalize s.placeNode plan id node = r at hplaced ⊢
  cases hplaced with
  | unreferenced _ _ | unvalued _ _ _ => exact hseen
  | included _ hreference =>
    rw [← reference?_bindings hreference] at hseen
    exact transclude_sound hseen plan id node _
  | selected _ _ hvalue => rwa [select_bindings, execute?_bindings hvalue]
  | filled _ _ => exact fillNode_sound hseen plan id node

/-- The steps of a render keep the cache in order. -/
theorem act_sound (hb : s.bindings.Sound) (plan : Plan) (st : Step) :
    (act plan s st).1.bindings.Sound := by
  cases st with
  | place id node => exact placeNode_sound hb plan id node
  | fill id node => exact fillNode_sound hb plan id node
  | release id => exact hb

/-! ### Placing a node -/

/-- The bindings of a node as a render of `top` on the stage sees them. -/
def bindingsUnder (s : Stage) (top h : Handle) : BindingSet :=
  ((s.toScan.prime top).lookup h).1

section

open NodeTree (Sighted)

variable {b : BindingCache} {F : Registry → Prop} {c : Context} {home : Option Handle} {t : NodeTree}

/-- A node that includes nothing is placed by finitely many steps, be it the root or not. -/
theorem exists_runs (plan : Plan) (hr : Ready b F s id c home [t]) (ha : s.document.RootOnTop [t])
    (hsight : Sighted b F t) : ∃ log s', Runs (act plan) s [.place id t.handle] log s' := by
  obtain ⟨set, htop⟩ := hsight.exists_set
  cases hselect : set.select? with
  | none =>
    obtain ⟨s', us, log, hv, -⟩ := place_visit_of_none plan hr
      (ha.away_kids hr.seated (List.mem_singleton_self t)) hsight htop hselect (fillable t)
    exact ⟨log, s', hv.runs⟩
  | some ev =>
    rcases placeNode_cases plan hr hsight htop hselect with hstays | ⟨hstay, -⟩
    · exact ⟨_, _, .one (show act plan s (.place id t.handle) = _ from hstays) (.nil _)⟩
    · obtain ⟨s', us, log, hv, -⟩ := select_visit plan hr ha hstay hsight htop hselect
        fun u _ => fillable u
      exact ⟨_, s', hv.runs⟩

end

end Stage

namespace Document

variable {d : Document} {home : Option Handle} {t : NodeTree}

theorem Forest.rootOnTop (hd : d.Forest) (hs : d.Seated home [t]) : d.RootOnTop [t] := by
  obtain ⟨r, hroot, -⟩ := hd.rooted
  refine ⟨⟨r, hroot⟩, fun hmem => ?_⟩
  have htop := hd.handle_eq_root (hs.held t (List.mem_singleton_self t)) (by simpa using hmem)
  exact List.mem_singleton.mpr htop.symm

end Document

namespace Engine

open Document (root)
open NodeTree (Sighted)
open Stage (Enclosed)

variable {e : Engine} {d : Document} {s s' : Stage} {data : Value} {parent? : Option Value}
  {node : Handle} {n : Node} {inPlace : Bool} {budget : Nat} {log : List (Stage × Step)}
  {w : WorkStack Step}

/-! ### Engines that a program comes by -/

theorem Reaches.bindings_sound (h : e.Reaches s data parent? node inPlace log w s')
    (hb : s.bindings.Sound) : s'.bindings.Sound := by
  induction h with
  | start => exact Scan.prime_sound (s := s.toScan) hb node
  | step before _ ih => exact Stage.act_sound ih (e.plan inPlace) _

theorem renderOn_sound {stats : WalkStats} (hb : s.bindings.Sound)
    (h : e.renderOn budget s data parent? node inPlace = some (s', stats)) : s'.bindings.Sound := by
  obtain ⟨log, w, last, hreaches, -, rfl⟩ := exists_reaches_of_renderOn h
  exact hreaches.bindings_sound hb

theorem render_sound {o : Outcome WalkStats} (hb : e.bindings.Sound)
    (h : e.render budget d data parent? node inPlace = some o) : o.engine.bindings.Sound := by
  obtain ⟨⟨s', stats⟩, hrender, rfl⟩ := Option.map_eq_some_iff.mp h
  exact renderOn_sound (s := e.stage d) hb hrender

/-- The engines that a program comes by have their sets in order. -/
theorem Reached.bindings_sound (he : e.Reached) : e.bindings.Sound := by
  induction he with
  | new owner config => exact BindingCache.new_sound _ _
  | register _ name f he => exact he
  | setGlobal _ name v he => exact he
  | setLoader _ loader? he => exact he
  | clearCaches _ he => exact he.clear
  | evaluate _ source data he => exact he
  | render _ h he => exact render_sound he h
  | @renderClone e budget d data node o _ h he =>
    obtain ⟨⟨s', stats⟩, hrender, rfl⟩ := Option.map_eq_some_iff.mp h
    exact renderOn_sound (s := ((e.stage d).cloneTemplate (e.plan false) node).2)
      (Stage.cloneTemplate_sound (e.plan false) (s := e.stage d) he node) hrender
  | @process e budget d data t o _ h he =>
    unfold Engine.process at h
    cases hnode : t.node? with
    | none =>
      rw [hnode] at h
      obtain rfl := Option.some.inj h
      exact he
    | some x =>
      rw [hnode] at h
      obtain ⟨o', hrender, rfl⟩ := Option.map_eq_some_iff.mp h
      exact render_sound he hrender
  | findTemplate _ d id he => exact he
  | @resolveTemplate e _ d reference he =>
    exact Stage.resolveTemplate_sound (e.plan true) (s := e.stage d) he reference

/-- The stages that renders of an engine begin on: a document as it is, or with a copy made to be
rendered. -/
inductive Prepares (e : Engine) : Stage → Prop
  | document {d : Document} (hd : d.WellFormed) : Prepares e (e.stage d)
  | copy {d : Document} {node : Handle} (hd : d.WellFormed) (hnode : d.contains node = true) :
      Prepares e ((e.stage d).cloneTemplate (e.plan false) node).2

namespace Prepares

theorem forest (hs : e.Prepares s) : s.document.Forest := by
  cases hs with
  | document hd => exact hd.forest
  | copy hd hnode =>
    obtain ⟨n, hn⟩ := Document.exists_of_contains hnode
    exact (Templates.clone_copies (e.plan false).templates (s := (e.stage _).toScan) hd.forest hn).forest

theorem pool_sound (hs : e.Prepares s) (he : e.Reached) : s.pool.Sound := by
  cases hs with
  | document hd => exact he.pool_sound
  | copy hd hnode => exact he.pool_sound

theorem bindings_sound (hs : e.Prepares s) (he : e.Reached) : s.bindings.Sound := by
  cases hs with
  | document hd => exact he.bindings_sound
  | @copy d node hd hnode =>
    exact Stage.cloneTemplate_sound (e.plan false) (s := e.stage d) he.bindings_sound node

end Prepares

/-! ### Renders without includes -/

/-- A render of a node without includes begins at a tree that it can visit. -/
theorem begun_ready (hd : s.document.Forest) (hb : s.bindings.Sound) (hp : s.pool.Sound)
    (hn : s.document.get? node = some n)
    (hfree : ∀ h ∈ s.document.subtree node, (s.bindingsUnder node h).include? = none) (e : Engine)
    (data : Value) (parent? : Option Value) :
    ∃ t c, t.handle = node ∧
      Stage.Ready (e.begun s data parent? node).bindings (fun _ => True)
        (e.begun s data parent? node) (e.contextOn s data parent?) c n.parent? [t] ∧
      Sighted (e.begun s data parent? node).bindings (fun _ => True) t := by
  obtain ⟨t, rfl, hs⟩ : ∃ t : NodeTree, t.handle = node ∧ s.document.Seated n.parent? [t] := by
    obtain ⟨ks, hs⟩ := hd.seated hn
    exact ⟨_, rfl, hs⟩
  obtain ⟨t', hprime, hprimed, hknown, -⟩ := Scan.prime_spec (s := s.toScan) hs hd.tidy hb
  have hbegan := e.openContexts_began hp data parent?
  obtain ⟨c, hc⟩ := Option.ne_none_iff_exists'.mp hbegan.live
  unfold Stage.bindingsUnder at hfree
  have hsight : Sighted (s.toScan.prime t.handle).bindings (fun _ => True) t' :=
    hprimed.sighted_of_known (s := s.toScan) hs hprime hknown hfree fun _ _ _ _ _ _ => trivial
  exact ⟨t', c, hprimed.handle_eq, ⟨hprime.regrown.seated hs, hprime.tidy, rfl, hbegan.sound, hc,
    trivial⟩, hsight⟩

/-- At every point of a render of a node without includes the steps that wait are at nodes without
includes. -/
theorem Reaches.enclosed (h : e.Reaches s data parent? node inPlace log w s')
    (hd : s.document.Forest) (hb : s.bindings.Sound) (hp : s.pool.Sound)
    (hn : s.document.get? node = some n)
    (hfree : ∀ h ∈ s.document.subtree node, (s.bindingsUnder node h).include? = none) :
    Enclosed s' w.pending := by
  have hclean : (WorkStack.new : WorkStack Step).Clean := by simp [WorkStack.Clean, WorkStack.new]
  induction h with
  | start =>
    obtain ⟨t, c, rfl, hready, hsight⟩ := begun_ready hd hb hp hn hfree e data parent?
    obtain ⟨hpending, -⟩ := WorkStack.pushItems_spec WorkStack.new
      [.place (e.contextOn s data parent?) t.handle] hclean
    have hheld := hready.seated.held t (List.mem_singleton_self t)
    rw [hpending]
    refine ⟨⟨hd.unmoved (Scan.prime_unmoved s.toScan t.handle), .single hheld.get?_handle⟩,
      fun x hx => ⟨t, hheld, (List.mem_singleton.mp hx).symm, hsight⟩⟩
  | step before hnext ih =>
    obtain ⟨hbooks, -, hclean₁⟩ := Reaches.books before hp
    obtain ⟨l, rest, -, -, -, hlive, -⟩ := (Reaches.inOrder before hd hn hp).taken _ _ hnext
    obtain ⟨hpending, hclean₂⟩ := WorkStack.pending_of_next hclean₁ hnext
    rw [hpending] at ih
    obtain ⟨hpushed, -⟩ := WorkStack.foldl_pushItems_spec (Stage.act (e.plan inPlace) _ _).2 _
      (show WorkStack.Clean (WorkStack.countItem _) from hclean₂)
    exact hpushed ▸ ih.act hbooks.sound hlive (e.plan inPlace)

/-- A render has an outcome if it may take as many steps as its walk has. -/
theorem isSome_renderOn_iff (h : Runs (Stage.act (e.plan inPlace)) (e.begun s data parent? node)
      [e.firstStep s data parent? node] log s') (budget : Nat) :
    (e.renderOn budget s data parent? node inPlace).isSome = true ↔ log.length ≤ budget := by
  have hwalk := WorkStack.runFrom_eq h budget
  have hisSome : (e.renderOn budget s data parent? node inPlace).isSome =
      ((WorkStack.runFrom (Stage.step (e.plan inPlace)) budget (e.firstStep s data parent? node)
        (e.begun s data parent? node)).map (·.1)).isSome := by
    rw [renderOn]
    dsimp only
    rw [Option.isSome_map, Option.isSome_map]
    rfl
  have hwalk' : (WorkStack.runFrom (Stage.step (e.plan inPlace)) budget
      (e.firstStep s data parent? node) (e.begun s data parent? node)).map (·.1) =
        if log.length ≤ budget then some s' else none := hwalk
  rw [hisSome, hwalk']
  split <;> simp_all

/-- A render of a node without includes takes a number of steps that does not depend on how many it may
take. -/
theorem render_terminates (he : e.Reached) (hs : e.Prepares s)
    (hnode : s.document.contains node = true)
    (hfree : ∀ h ∈ s.document.subtree node, (s.bindingsUnder node h).include? = none) (data : Value)
    (parent? : Option Value) (inPlace : Bool) :
    ∃ steps, ∀ budget, (e.renderOn budget s data parent? node inPlace).isSome = true ↔
      steps ≤ budget := by
  obtain ⟨n, hn⟩ := Document.exists_of_contains hnode
  obtain ⟨t, c, rfl, hready, hsight⟩ :=
    begun_ready hs.forest (hs.bindings_sound he) (hs.pool_sound he) hn hfree e data parent?
  have hforest : (e.begun s data parent? t.handle).document.Forest :=
    hs.forest.unmoved (Scan.prime_unmoved s.toScan t.handle)
  obtain ⟨log, s', hruns⟩ :=
    Stage.exists_runs (e.plan inPlace) hready (hforest.rootOnTop hready.seated) hsight
  exact ⟨log.length, isSome_renderOn_iff hruns⟩

/-- A list of lists, one of them empty. -/
theorem render_terminates_nested :
    ∃ d, Document.ofMarkup
        "<ul><li data-jst-select=\"rows\"><b data-jst-select=\"cells\"></b></li></ul>" = .ok d ∧
      (∀ h ∈ d.subtree root, (((new 0 .default).stage d).bindingsUnder root h).include? = none) ∧
      ∃ steps, ∀ budget, ((new 0 .default).renderOn budget ((new 0 .default).stage d)
        (.object [("rows", .array [.object [("cells", .array [.ofNat 1, .ofNat 2])],
          .object [("cells", .array [])]])]) none root true).isSome = true ↔ steps ≤ budget := by
  have hparse : parseMarkup
      "<ul><li data-jst-select=\"rows\"><b data-jst-select=\"cells\"></b></li></ul>" =
      .ok [.element "ul" [] [.element "li" [("data-jst-select", "rows")]
        [.element "b" [("data-jst-select", "cells")] []]]] := by
    decide +kernel
  have hd := Document.ofMarkup_of_parseMarkup hparse
  generalize hdoc : Document.plantAll _ _ _ = d at hd
  have hnode : d.contains root = true := by
    subst hdoc
    decide +kernel
  have hfree : ∀ h ∈ d.subtree root,
      (((new 0 .default).stage d).bindingsUnder root h).include? = none := by
    subst hdoc
    decide +kernel
  have hprepares : (new 0 .default).Prepares ((new 0 .default).stage d) :=
    .document (Document.Reached.ofMarkup hd).forest.wellFormed
  exact ⟨d, hd, hfree, render_terminates (.new 0 .default) hprepares hnode hfree _ none true⟩

end Engine

end TreeTemplate
