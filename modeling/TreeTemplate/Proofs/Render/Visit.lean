import TreeTemplate.Proofs.Render.Selection
import TreeTemplate.Proofs.Walk
import Mathlib.Data.List.Pairwise

/-!
Visits.  A `Visit` is a run of some steps of a render that puts trees in the place of others and
otherwise changes only the context that it works in.  Visits of neighbours compose (`Visit.append`),
so a node is filled if its children can be placed (`Stage.fill_visit`).
-/

namespace TreeTemplate

def Step.node? : Step → Option Handle
  | place _ h => some h
  | fill _ h => some h
  | release _ => none

namespace Runs

variable {σ α : Type} {act : σ → α → σ × List (List α)} {s s' : σ} {a : α} {items : List α}
  {log : List (σ × α)}

/-- A run begins with the first waiting item. -/
theorem head_mem (h : Runs act s (a :: items) log s') : (s, a) ∈ log := by
  cases h
  exact List.mem_cons_self

end Runs

namespace Document

open NodeTree (handlesOf)

variable {d d' : Document} {home : Option Handle} {A B : List NodeTree} {x : Handle}

/-- The root is live and none of the trees' nodes. -/
def Away (d : Document) (ts : List NodeTree) : Prop :=
  root ∉ handlesOf ts ∧ ∃ r, d.get? root = some r

namespace Regrown

/-- What is not live after a change was not live before, or it was one of the old nodes. -/
theorem not_live (hs : d.Seated home A) (hr : Regrown d d' home A B) (hx : d'.get? x = none) :
    x ∈ handlesOf A ∨ d.get? x = none := by
  by_cases hA : x ∈ handlesOf A
  · exact Or.inl hA
  cases hn : d.get? x with
  | none => exact Or.inr rfl
  | some n =>
    have hhome : home ≠ some x := by
      intro hhome
      obtain ⟨m, pre, post, -, -, hm⟩ := hr.home_live hs hhome
      simp [hm] at hx
    rw [hr.frame x hA (hr.not_mem_new hn hA) hhome, hn] at hx
    simp at hx

/-- The root stays away from what changes. -/
theorem away (hs : d.Seated home A) (hr : Regrown d d' home A B) (ha : d.Away A) : d'.Away B := by
  obtain ⟨hA, r, hr'⟩ := ha
  refine ⟨hr.not_mem_new hr' hA, ?_⟩
  cases hroot : d'.get? root with
  | some r' => exact ⟨r', rfl⟩
  | none =>
    rcases hr.not_live hs hroot with hmem | hnone
    · exact absurd hmem hA
    · simp [hr'] at hnone

/-- The root stays away from the kids of a tree that keeps its handles. -/
theorem away_kids {t u : NodeTree} (hs : d.Seated home [t])
    (hr : Regrown d d' home [t] [u]) (hhandle : u.handle = t.handle)
    (hkids : handlesOf u.kids = handlesOf t.kids) (ha : d.Away t.kids) : d'.Away u.kids := by
  refine ⟨hkids ▸ ha.1, ?_⟩
  cases hroot : d'.get? root with
  | some r => exact ⟨r, rfl⟩
  | none =>
    rcases hr.not_live hs hroot with hmem | hnone
    · obtain ⟨h, n, ks⟩ := t
      simp only [NodeTree.handlesOf_cons, NodeTree.handles_node, NodeTree.handlesOf_nil,
        List.append_nil, List.mem_cons] at hmem
      have htop : root = h := hmem.resolve_right ha.1
      have hlive := (hr.held u (List.mem_singleton_self u)).get?_handle
      rw [hhandle, NodeTree.handle_node, ← htop, hroot] at hlive
      simp at hlive
    · obtain ⟨r, hlive⟩ := ha.2
      simp [hnone] at hlive

end Regrown

theorem Away.left (ha : d.Away (A ++ B)) : d.Away A :=
  ⟨fun h => ha.1 (by simp [h]), ha.2⟩

theorem Away.right (ha : d.Away (A ++ B)) : d.Away B :=
  ⟨fun h => ha.1 (by simp [h]), ha.2⟩

theorem Away.kids {t : NodeTree} (ha : d.Away [t]) : d.Away t.kids := by
  obtain ⟨h, n, ks⟩ := t
  refine ⟨fun hmem => ha.1 ?_, ha.2⟩
  simp only [NodeTree.handlesOf_cons, NodeTree.handles_node, NodeTree.handlesOf_nil, List.append_nil]
  exact List.mem_cons_of_mem h hmem

theorem Away.handle_ne_root {t : NodeTree} (ha : d.Away [t]) : t.handle ≠ root := fun hroot =>
  ha.1 (hroot ▸ NodeTree.mem_handlesOf_of_mem (List.mem_singleton_self t) t.handle_mem_handles)

/-- The root is live, and among the nodes of the trees it is only on top of one. -/
structure RootOnTop (d : Document) (ts : List NodeTree) : Prop where
  live : ∃ r, d.get? root = some r
  top : root ∈ handlesOf ts → root ∈ ts.map NodeTree.handle

theorem Away.rootOnTop (ha : d.Away A) : d.RootOnTop A :=
  ⟨ha.2, fun hmem => absurd hmem ha.1⟩

theorem RootOnTop.away_kids {t : NodeTree} (h : d.RootOnTop A) (hs : d.Seated home A) (ht : t ∈ A) :
    d.Away t.kids := by
  refine ⟨fun hmem => ?_, h.live⟩
  have hroot : root ∈ t.handles ∧ t.handle ≠ root := by
    have hheld := hs.held t ht
    obtain ⟨x, n, ks⟩ := t
    refine ⟨?_, fun heq => hheld.handle_not_mem_kids ?_⟩
    · rw [NodeTree.handles_node]
      exact List.mem_cons_of_mem x hmem
    · rw [show x = root from heq]
      exact hmem
  obtain ⟨u, hu, hutop⟩ := List.mem_map.mp (h.top (NodeTree.mem_handlesOf_of_mem ht hroot.1))
  have hapart : A.Pairwise (Function.onFun List.Disjoint NodeTree.handles) :=
    (List.nodup_flatMap.mp hs.nodup).2
  have hsymm : Std.Symm (Function.onFun List.Disjoint NodeTree.handles) := 
    ⟨fun _ _ hd _ hx hx' => hd hx' hx⟩
  by_cases hut : u = t
  · exact hroot.2 (hut ▸ hutop)
  · exact hapart.forall hu ht hut (hutop ▸ u.handle_mem_handles) hroot.1

/-- A root on top stays on top of what takes the place of its tree. -/
theorem Regrown.rootOnTop (hs : d.Seated home A) (hr : Regrown d d' home A B) (h : d.RootOnTop A)
    (hkeep : root ∈ A.map NodeTree.handle → root ∈ B.map NodeTree.handle) : d'.RootOnTop B := by
  obtain ⟨r, hroot⟩ := h.live
  constructor
  · cases hnone : d'.get? root with
    | some r' => exact ⟨r', rfl⟩
    | none =>
      rcases hr.not_live hs hnone with hmem | hdead
      · obtain ⟨u, hu, hutop⟩ := List.mem_map.mp (hkeep (h.top hmem))
        have hlive := (hr.held u hu).get?_handle
        simp [hutop, hnone] at hlive
      · simp [hroot] at hdead
  · intro hmem
    rcases hr.fresh root hmem with hold | hdead
    · exact hkeep (h.top hold)
    · simp [hroot] at hdead

end Document

namespace Templates

variable {P : Document → Prop} {d : Document}

/-- What looking for a template keeps is what is kept when the container is made and when the loaded markup
is put into it. -/
theorem find_keeps (t : Templates) (hd : P d) (hcontainer : P (t.container d).2)
    (happend : ∀ source d', (t.container d).2.appendMarkup (t.container d).1 source = .ok d' → P d')
    (loader? : Option Loader) (reference : String) : P (t.find loader? d reference).document := by
  have hloaded : ∀ markup?, P (t.findLoaded d reference markup?).2 := by
    intro markup?
    unfold findLoaded
    split
    · exact hd
    · dsimp only
      split
      · next happended => exact happend _ _ happended
      · exact hcontainer
  unfold find
  split
  · exact hd
  · split
    · exact hd
    · exact hd
    · exact hloaded _

end Templates

namespace Stage

open Document (Regrown)
open NodeTree (Sighted handlesOf)
open Pool (Turned)

variable {plan : Plan} {b : BindingCache} {F : Registry → Prop} {s s₁ s₂ : Stage} {id : ContextId}
  {c c₁ c₂ : Context} {home : Option Handle} {A A' B B' ks : List NodeTree} {t : NodeTree}
  {h : Handle} {n : Node} {steps steps' : List Step} {log log' : List (Stage × Step)}
  {set : BindingSet}

/-- What a step of a render does. -/
def act (plan : Plan) (s : Stage) (st : Step) : Stage × List (List Step) :=
  s.step plan st 0

/-- The scan after looking for a template. -/
def sought (plan : Plan) (s : Stage) (reference : String) : Scan :=
  { s.toScan with document := (plan.templates.find plan.loader? s.document reference).document }

/-- What resolving a reference comes to: there is no such template, or the one that is found is copied.
Contexts are not needed for it. -/
inductive Resolution (plan : Plan) (s : Stage) (reference : String) : Option Handle × Stage → Prop
  | missing {s' : Stage}
    (hnode : (plan.templates.find plan.loader? s.document reference).node? = none)
    (hscan : s'.toScan = s.sought plan reference) (hpool : s'.pool = s.pool) :
    Resolution plan s reference (none, s')
  | copied {template copy : Handle} {s' : Stage}
    (hnode : (plan.templates.find plan.loader? s.document reference).node? = some template)
    (hclone : plan.templates.clone (s.sought plan reference) template = (copy, s'.toScan))
    (hpool : s'.pool = s.pool) : Resolution plan s reference (some copy, s')

theorem resolveTemplate_resolution (plan : Plan) (s : Stage) (reference : String) :
    Resolution plan s reference (s.resolveTemplate plan reference) := by
  have hscan : (s.findTemplate plan reference).2.toScan = s.sought plan reference := rfl
  have hpool : (s.findTemplate plan reference).2.pool = s.pool := rfl
  have hnode : (plan.templates.find plan.loader? s.document reference).node? =
      (s.findTemplate plan reference).1 := rfl
  unfold resolveTemplate
  generalize s.findTemplate plan reference = found at hscan hpool hnode ⊢
  obtain ⟨_ | template, s₁⟩ := found
  · exact .missing hnode hscan hpool
  · unfold cloneTemplate
    dsimp only at hscan hpool ⊢
    cases hclone : plan.templates.clone s₁.toScan template with
    | mk copy scan =>
      rw [hscan] at hclone
      exact .copied hnode hclone hpool

/-- What placing a node comes to, by its bindings.  In a dead context an include or a select comes to
nothing. -/
inductive Placement (plan : Plan) (s : Stage) (id : ContextId) (h : Handle) :
    Stage × List (List Step) → Prop
  | unreferenced {i : Inclusion} (hinclude : (s.bindingsOf h).1.include? = some i)
    (hdead : (s.bindingsOf h).2.reference? id i = none) :
    Placement plan s id h ((s.bindingsOf h).2, [])
  | included {i : Inclusion} {reference : String} {s₁ : Stage}
    (hinclude : (s.bindingsOf h).1.include? = some i)
    (hreference : (s.bindingsOf h).2.reference? id i = some (reference, s₁)) :
    Placement plan s id h (s₁.transclude plan id h reference)
  | unvalued {e : Evaluator} (hinclude : (s.bindingsOf h).1.include? = none)
    (hselect : (s.bindingsOf h).1.select? = some e)
    (hdead : (s.bindingsOf h).2.execute? id e = none) :
    Placement plan s id h ((s.bindingsOf h).2, [])
  | selected {e : Evaluator} {v : Value} {s₁ : Stage}
    (hinclude : (s.bindingsOf h).1.include? = none)
    (hselect : (s.bindingsOf h).1.select? = some e)
    (hvalue : (s.bindingsOf h).2.execute? id e = some (v, s₁)) :
    Placement plan s id h (s₁.select id h v)
  | filled (hinclude : (s.bindingsOf h).1.include? = none)
    (hselect : (s.bindingsOf h).1.select? = none) :
    Placement plan s id h ((s.bindingsOf h).2.fillNode plan id h)

theorem placeNode_placement (plan : Plan) (s : Stage) (id : ContextId) (h : Handle) :
    Placement plan s id h (s.placeNode plan id h) := by
  unfold placeNode
  dsimp only
  cases hinclude : (s.bindingsOf h).1.include? with
  | some i =>
    dsimp only
    cases hreference : (s.bindingsOf h).2.reference? id i with
    | none => exact .unreferenced hinclude hreference
    | some found => exact .included hinclude hreference
  | none =>
    cases hselect : (s.bindingsOf h).1.select? with
    | none => exact .filled hinclude hselect
    | some e =>
      dsimp only
      cases hvalue : (s.bindingsOf h).2.execute? id e with
      | none => exact .unvalued hinclude hselect hvalue
      | some found => exact .selected hinclude hselect hvalue

/-- A stage on which trees are about to be visited in a context. -/
structure Ready (b : BindingCache) (F : Registry → Prop) (s : Stage) (id : ContextId) (c : Context)
    (home : Option Handle) (ts : List NodeTree) : Prop where
  seated : s.document.Seated home ts
  tidy : s.document.Tidy
  bindings : s.bindings = b
  pool : s.pool.Sound
  context : s.pool.get? id = some c
  functions : F c.functions

/-- The steps put the trees `new` in the place of `old`, and leave the context `c` behind. -/
structure Visit (plan : Plan) (F : Registry → Prop) (s s' : Stage) (id : ContextId) (c : Context)
    (home : Option Handle) (old new : List NodeTree) (steps : List Step)
    (log : List (Stage × Step)) : Prop where
  runs : Runs (act plan) s steps log s'
  regrown : s.document.Regrown s'.document home old new
  tidy : s'.document.Tidy
  bindings : s'.bindings = s.bindings
  pool : Turned F s.pool s'.pool id c
  functions : F c.functions
  near : ∀ e ∈ log, ∀ x ∈ e.2.node?, x ∈ handlesOf old ∨ s.document.get? x = none

theorem Ready.left (hr : Ready b F s id c home (A ++ B)) : Ready b F s id c home A :=
  ⟨hr.seated.left, hr.tidy, hr.bindings, hr.pool, hr.context, hr.functions⟩

theorem Ready.right (hr : Ready b F s id c home (A ++ B)) : Ready b F s id c home B :=
  ⟨hr.seated.right, hr.tidy, hr.bindings, hr.pool, hr.context, hr.functions⟩

namespace Visit

theorem refl (hr : Ready b F s id c home A) : Visit plan F s s id c home A A [] [] :=
  ⟨.nil s, .refl hr.seated, hr.tidy, rfl, .refl hr.pool hr.context, hr.functions, by simp⟩

/-- Visiting some trees leaves their neighbours ready. -/
theorem ready_right (hr : Ready b F s id c home (A ++ B))
    (hv : Visit plan F s s₁ id c₁ home A A' steps log) : Ready b F s₁ id c₁ home B := by
  have hseated := (hv.regrown.append_right hr.seated).seated hr.seated
  exact ⟨hseated.right, hv.tidy, hv.bindings.trans hr.bindings, hv.pool.sound,
    hv.pool.get?_self, hv.functions⟩

/-- Visits of neighbours, one after the other. -/
theorem append (hr : Ready b F s id c home (A ++ B))
    (hv : Visit plan F s s₁ id c₁ home A A' steps log)
    (hv' : Visit plan F s₁ s₂ id c₂ home B B' steps' log') :
    Visit plan F s s₂ id c₂ home (A ++ B) (A' ++ B') (steps ++ steps') (log ++ log') := by
  have hregrown := hv.regrown.append_right hr.seated
  have hseated := hregrown.seated hr.seated
  refine ⟨hv.runs.append hv'.runs, hregrown.trans hr.seated (hv'.regrown.append_left hseated),
    hv'.tidy, hv'.bindings.trans hv.bindings, hv.pool.trans hv'.pool, hv'.functions, ?_⟩
  intro e he x hx
  rw [NodeTree.handlesOf_append, List.mem_append]
  rcases List.mem_append.mp he with he | he
  · exact (hv.near e he x hx).imp_left Or.inl
  · rcases hv'.near e he x hx with hB | hnone
    · exact Or.inl (Or.inr hB)
    · exact (hv.regrown.not_live hr.seated.left hnone).imp_left Or.inl

end Visit

/-- Trees like this one can be placed: the visit ends with the shapes of what stands there, the node
among it unless nothing is left. -/
def Placeable (plan : Plan) (b : BindingCache) (F : Registry → Prop) (t : NodeTree) : Prop :=
  ∀ {s : Stage} {id : ContextId} {c : Context} {home : Option Handle},
    Ready b F s id c home [t] → s.document.Away [t] → Sighted b F t →
      ∃ s' us log, Visit plan F s s' id (t.shape.place plan b c).context home [t] us
          [.place id t.handle] log ∧
        (∀ u ∈ us, Sighted b F u ∧ u.record.isElement = t.record.isElement) ∧
        (us = [] ∨ t.handle ∈ us.map NodeTree.handle) ∧
        us.map NodeTree.shape = (t.shape.place plan b c).value ∧
        (home ≠ none → s'.document.mutations =
          s.document.mutations + (t.shape.place plan b c).changes)

/-- The elements among neighbours are placed one after another. -/
theorem placeAll_visit (hplace : ∀ k ∈ ks, k.record.isElement = true → Placeable plan b F k)
    (hr : Ready b F s id c home ks) (ha : s.document.Away ks)
    (hsight : ∀ k ∈ ks, k.record.isElement = true → Sighted b F k) :
    ∃ s' ks' log, Visit plan F s s' id
        (Shape.placeAll plan b (ks.map NodeTree.shape) c).context home ks ks'
        ((ks.filter fun k => k.record.isElement).map fun k => .place id k.handle) log ∧
      (∀ k ∈ ks', k.record.isElement = true → Sighted b F k) ∧
      ks'.map NodeTree.shape = (Shape.placeAll plan b (ks.map NodeTree.shape) c).value ∧
      (home ≠ none → s'.document.mutations =
        s.document.mutations + (Shape.placeAll plan b (ks.map NodeTree.shape) c).changes) := by
  induction ks generalizing s c with
  | nil => exact ⟨s, [], [], .refl hr, by simp, rfl, fun _ => rfl⟩
  | cons k rest ih =>
    have hr : Ready b F s id c home ([k] ++ rest) := hr
    have ha : s.document.Away ([k] ++ rest) := ha
    have hrest : ∀ {s c}, Ready b F s id c home rest → s.document.Away rest → _ := fun hr ha =>
      ih (fun k hk => hplace k (List.mem_cons_of_mem _ hk)) hr ha
        fun k hk => hsight k (List.mem_cons_of_mem _ hk)
    rw [List.map_cons, Shape.placeAll, NodeTree.isElement_shape]
    by_cases helement : k.record.isElement = true
    · obtain ⟨s₁, us, log, hv, hus, -, hshapes, hchanges⟩ :=
        hplace k List.mem_cons_self helement hr.left ha.left (hsight k List.mem_cons_self helement)
      have hseated := (hv.regrown.append_right hr.seated)
      obtain ⟨s₂, rest', log', hv', hrest', hshapes', hchanges'⟩ :=
        hrest (hv.ready_right hr) (hseated.away hr.seated ha).right
      rw [List.filter_cons_of_pos (by simpa using helement), List.map_cons, if_pos helement]
      refine ⟨s₂, us ++ rest', log ++ log', hv.append hr hv', fun u hu helement => ?_, ?_,
        fun hhome => ?_⟩
      · rcases List.mem_append.mp hu with hu | hu
        · exact (hus u hu).1
        · exact hrest' u hu helement
      · rw [List.map_append, hshapes, hshapes']
      · rw [hchanges' hhome, hchanges hhome, Nat.add_assoc]
    · obtain ⟨s₂, rest', log', hv', hrest', hshapes', hchanges'⟩ := hrest hr.right ha.right
      rw [List.filter_cons_of_neg (by simpa using helement), if_neg helement]
      refine ⟨s₂, [k] ++ rest', log', (Visit.refl hr.left).append hr hv', fun u hu helement' => ?_,
        by simp [hshapes'], hchanges'⟩
      rcases List.mem_cons.mp hu with rfl | hu
      · exact absurd helement' helement
      · exact hrest' u hu helement'

/-! ### Filling -/

/-- Every node of this tree can be filled: the visit ends with the shape filled. -/
def Fillable (plan : Plan) (b : BindingCache) (F : Registry → Prop) (t : NodeTree) : Prop :=
  ∀ {s : Stage} {id : ContextId} {c : Context} {home : Option Handle},
    Ready b F s id c home [t] → s.document.Away t.kids → Sighted b F t →
      ∃ s' u log, Visit plan F s s' id (t.shape.filled plan b c).context home [t] [u]
          [.fill id t.handle] log ∧
        Sighted b F u ∧ u.handle = t.handle ∧ u.record.isElement = t.record.isElement ∧
        u.shape = (t.shape.filled plan b c).value ∧
        s'.document.mutations = s.document.mutations + (t.shape.filled plan b c).changes

theorem bindingsOf_eq (hset : s.bindings.setOf? (s.document.node h) = some set) :
    s.bindingsOf h = (set, s) := by
  rw [bindingsOf, Scan.lookup_of_setOf? hset]

theorem edited_baring (plan : Plan) (d : Document) (h : Handle) :
    d.edited h plan.baring = plan.stripped h d := by
  unfold Plan.baring Plan.stripped
  split <;> rfl

/-- Filling a node where it is, by what its bindings ask for. -/
theorem fillNode_eq {v : Survey} (hn : s.document.get? h = some n)
    (hset : s.bindings.setOf? n = some set) (hc : s.pool.get? id = some c)
    (hv : survey plan.templates.idAttribute set n.callbacks c = v) :
    ∃ s', s'.document = v.verdict.settle h (s.document.edited h (plan.baring ++ v.edits)) ∧
      s'.bindings = s.bindings ∧ s'.pool = s.pool.put id v.context ∧
      s.fillNode plan id h =
        (s', if v.verdict.descends then
          [(s'.document.elementChildren h).map (Step.place id)] else []) := by
  have hbared := (Document.edited_rewritten hn plan.baring).get?_self
  have hfill := Filling.fill_eq plan.templates.idAttribute set
    ⟨s.document.edited h plan.baring, c, []⟩ hbared
  simp only [(n.edited_links plan.baring).2.2.2.2, hv, ← Document.edited_append] at hfill
  obtain ⟨hdescends, hdocument, hcontext⟩ := hfill
  generalize hr : (Filling.identify plan.templates.idAttribute set h
    ⟨s.document.edited h plan.baring, c, []⟩).fill set h = r at hdescends hdocument hcontext
  refine ⟨{ s with
      document := r.2.document
      pool := s.pool.put id r.2.context
      journal := { s.journal with notes := s.journal.notes ++ r.2.notes } },
    hdocument, rfl, by rw [hcontext], ?_⟩
  unfold fillNode
  simp only [bindingsOf_eq (by rwa [Document.node_of_get? hn]), hc]
  rw [← Plan.stripped, ← edited_baring, hr]
  simp only [hdescends]
  split <;> rfl

/-- Filling a node changes its record where it is, and what is inside if content is written. -/
theorem fillNode_regrown {v : Survey} (hs : s.document.Seated home [.node h n ks])
    (ht : s.document.Tidy) (hset : s.bindings.setOf? n = some set) (hc : s.pool.get? id = some c)
    (hv : survey plan.templates.idAttribute set n.callbacks c = v) :
    let edits := plan.baring ++ v.edits
    ∃ s' ks', s.fillNode plan id h = (s', if v.verdict.descends then
          [(ks.filter fun k => k.record.isElement).map fun k => .place id k.handle] else []) ∧
      s'.bindings = s.bindings ∧ s'.pool = s.pool.put id v.context ∧ s'.document.Tidy ∧
      Regrown s.document s'.document home [.node h n ks]
        [.node h { n.edited edits with children := ks'.map NodeTree.handle } ks'] ∧
      match v.verdict with
      | .write x clear =>
        ks'.map NodeTree.shape = Document.shapesAfter (ks.map NodeTree.shape) x clear ∧
          s'.document.mutations = s.document.mutations +
            (n.changes edits + contentChanges (ks.map NodeTree.shape) x clear)
      | _ => ks' = ks ∧ s'.document.mutations = s.document.mutations + n.changes edits := by
  intro edits
  have hheld := hs.held _ (List.mem_singleton_self _)
  have hn : s.document.get? h = some n := hheld.get?_handle
  obtain ⟨s', hdocument, hbindings, hpool, hfill⟩ := fillNode_eq hn hset hc hv
  have hrewritten := Document.edited_rewritten hn edits
  have hcounted := Document.mutations_edited hn edits
  obtain ⟨hparent, hchildren, -, -, -⟩ := n.edited_links edits
  have hedited := Document.regrown_of_record hs hrewritten.get?_eq hrewritten.vacant hparent hchildren
  have htidy := hrewritten.tidy ht
  have hseated := hedited.seated hs
  have hlinks : { n.edited edits with children := ks.map NodeTree.handle } = n.edited edits := by
    rw [← hheld.children, ← hchildren]
  cases hverdict : v.verdict with
  | leave =>
    rw [hverdict] at hdocument hfill
    refine ⟨s', ks, hfill, hbindings, hpool, by rwa [hdocument], ?_, rfl, by rwa [hdocument]⟩
    rw [hlinks, hdocument]
    exact hedited
  | write x clear =>
    rw [hverdict] at hdocument hfill
    obtain ⟨htidy', ks', hshapes, hcontent⟩ := Document.applyContent_regrown hseated htidy x clear
    have hwritten := Document.mutations_applyContent
      (hseated.held _ (List.mem_singleton_self _)) x clear
    refine ⟨s', ks', hfill, hbindings, hpool, by rwa [hdocument], ?_, hshapes, ?_⟩
    · rw [hdocument]
      exact hedited.trans hs hcontent
    · rw [hdocument, ← Nat.add_assoc, ← hcounted]
      exact hwritten
  | descend =>
    rw [hverdict] at hdocument hfill
    have hheld' : s'.document.Holds (.node h (n.edited edits) ks) := by
      rw [hdocument]
      exact hseated.held _ (List.mem_singleton_self _)
    refine ⟨s', ks, ?_, hbindings, hpool, by rwa [hdocument], ?_, rfl, by rwa [hdocument]⟩
    · rw [hfill, Document.elementChildren_eq hheld', List.map_map]
      rfl
    · rw [hlinks, hdocument]
      exact hedited

/-- A node whose children can be placed can be filled. -/
theorem fill_visit (hkids : ∀ k ∈ t.kids, k.record.isElement = true → Placeable plan b F k) :
    Fillable plan b F t := by
  obtain ⟨h, n, ks⟩ := t
  intro s id c home hr ha hsight
  obtain ⟨htop, hplaced, hsteady, hsighted⟩ := hsight
  rename_i set
  have hset : s.bindings.setOf? n = some set := by rw [hr.bindings, htop]
  have hagrees := survey_agrees plan.templates.idAttribute set n.callbacks c
  have hfunctions : F (survey plan.templates.idAttribute set n.callbacks c).context.functions :=
    survey_functions hsteady hr.functions
  have hunlinked : b.setOf? n.unlinked = some set := htop
  rw [NodeTree.shape_node, Shape.filled, Shape.fill, hunlinked, Option.getD_some,
    show n.unlinked.callbacks = n.callbacks from rfl]
  generalize hv : survey plan.templates.idAttribute set n.callbacks c = v at hagrees hfunctions ⊢
  obtain ⟨s₁, ks₁, hfill, hbindings, hpool, htidy, hregrown, hrest⟩ :=
    fillNode_regrown hr.seated hr.tidy hset hr.context hv
  have hact : act plan s (.fill id h) = s.fillNode plan id h := rfl
  generalize hedits : plan.baring ++ v.edits = edits at hregrown hrest ⊢
  simp only [Node.edited_unlinked, Node.changes_unlinked]
  obtain ⟨-, -, href, -, hcallbacks⟩ := n.edited_links edits
  have hturned : Pool.Turned F s.pool s₁.pool id v.context := by
    rw [hpool]
    exact .put hr.pool hr.context v.context
  have hnear : ∀ e ∈ [(s, Step.fill id h)], ∀ x ∈ e.2.node?,
      x ∈ handlesOf [NodeTree.node h n ks] ∨ s.document.get? x = none := by
    intro e he x hx
    rw [List.mem_singleton.mp he] at hx
    obtain rfl := Option.some.inj hx
    exact Or.inl (by simp [handlesOf])
  have hisElement := n.isElement_edited edits
  have hsight : ∀ us : List NodeTree,
      (set.content? = none → ∀ k ∈ us, k.record.isElement = true → Sighted b F k) →
        Sighted b F (.node h { n.edited edits with children := us.map NodeTree.handle } us) :=
    fun us hus => .node ((b.setOf?_congr href).trans htop) hplaced (hcallbacks ▸ hsteady) hus
  have hshape : ∀ us : List NodeTree,
      (NodeTree.node h { n.edited edits with children := us.map NodeTree.handle } us).shape =
        .node (n.edited edits).unlinked (us.map NodeTree.shape) := by
    intro us
    rw [NodeTree.shape_node]
    rfl
  cases hverdict : v.verdict with
  | leave =>
    rw [hverdict] at hfill hrest
    obtain ⟨rfl, hchanges⟩ := hrest
    exact ⟨s₁, _, [(s, .fill id h)], ⟨.leaf (hact.trans hfill), hregrown, htidy, hbindings, hturned,
      hfunctions, hnear⟩, hsight _ hsighted, rfl, hisElement, hshape _, hchanges⟩
  | write x clear =>
    rw [hverdict] at hfill hrest hagrees
    obtain ⟨hshapes, hchanges⟩ := hrest
    refine ⟨s₁, _, [(s, .fill id h)], ⟨.leaf (hact.trans hfill), hregrown, htidy, hbindings, hturned,
      hfunctions, hnear⟩, hsight ks₁ fun hnone => ?_, rfl, hisElement, ?_, hchanges⟩
    · simp [Verdict.Agrees, hnone] at hagrees
    · rw [hshape, hshapes]
  | descend =>
    rw [hverdict] at hfill hrest hagrees
    obtain ⟨rfl, hcounted⟩ := hrest
    have hseated := hregrown.seated hr.seated
    have hready : Ready b F s₁ id v.context (some h) ks₁ :=
      ⟨.kids (hseated.held _ (List.mem_singleton_self _)), htidy, hbindings.trans hr.bindings,
        hturned.sound, hturned.get?_self, hfunctions⟩
    have haway : s₁.document.Away ks₁ := hregrown.away_kids hr.seated rfl rfl ha
    obtain ⟨s₂, ks', log, hvisit, hks', hshapes, hchanges⟩ :=
      placeAll_visit hkids hready haway (hsighted hagrees)
    have hinner := hvisit.regrown.inner hseated
    have hqueue : Runs (act plan) s₁ (if Verdict.descend.descends = true then
        [(ks₁.filter fun k => k.record.isElement).map fun k => Step.place id k.handle]
        else []).reverse.flatten log s₂ := by
      simpa [Verdict.descends] using hvisit.runs
    refine ⟨s₂, .node h { n.edited edits with children := ks'.map NodeTree.handle } ks',
      (s, .fill id h) :: log, ⟨.one (hact.trans hfill) hqueue,
      hregrown.trans hr.seated hinner, hvisit.tidy, hvisit.bindings.trans hbindings,
      hturned.trans hvisit.pool, hvisit.functions, ?_⟩, hsight ks' fun _ => hks', rfl, hisElement, ?_,
      ?_⟩
    · intro e he x hx
      rcases List.mem_cons.mp he with rfl | he
      · exact hnear _ (List.mem_singleton_self _) x hx
      · rcases hvisit.near e he x hx with hmem | hnone
        · exact Or.inl (by simp [handlesOf] at hmem ⊢; exact Or.inr hmem)
        · exact hregrown.not_live hr.seated hnone
    · rw [hshape, hshapes]
      rfl
    · rw [hchanges (by simp), hcounted, Nat.add_assoc]
      rfl

end Stage

end TreeTemplate
