import TreeTemplate.Proofs.Render.Placing

/-!
Nodes without bindings.  Such a node is filled where it is, which changes nothing but the context, by
what the callbacks do; then its children are placed (`Stage.bare_visit`).
-/

namespace TreeTemplate

namespace Filling

/-- Filling a node without bindings runs its callbacks. -/
theorem fill_empty (idAttribute : String) (f : Filling) (h : Handle) :
    (identify idAttribute (.empty "") h f).fill (.empty "") h =
      (true, runCallbacks (f.document.node h).callbacks f) :=
  rfl

theorem document_runCallbacks (callbacks : List Callback) (f : Filling) :
    (runCallbacks callbacks f).document = f.document :=
  (runCallbacks_moved (h := Document.root) callbacks f).document

theorem context_runCallbacks (callbacks : List Callback) (f : Filling) :
    (runCallbacks callbacks f).context = f.context.afterCallbacks callbacks :=
  (runCallbacks_moved (h := Document.root) callbacks f).context

end Filling

namespace Stage

open Document (Regrown)
open NodeTree (Sighted handlesOf)
open Pool (Turned)

variable {plan : Plan} {b : BindingCache} {F : Registry → Prop} {s s₂ : Stage} {id : ContextId}
  {c c' : Context} {home : Option Handle} {ks ks' : List NodeTree} {t : NodeTree} {h : Handle}
  {n : Node} {log : List (Stage × Step)}

/-- Placing a node without bindings queues its elements, and the document stays as it is. -/
theorem place_bare (hplan : plan.inPlace = true)
    (hset : s.bindings.setOf? (s.document.node h) = some (.empty "")) (hc : s.pool.get? id = some c) :
    ∃ s₁, s₁.document = s.document ∧ s₁.bindings = s.bindings ∧
      s₁.pool = s.pool.put id (c.afterCallbacks (s.document.node h).callbacks) ∧
      act plan s (.place id h) = (s₁, [(s.document.elementChildren h).map (Step.place id)]) := by
  refine ⟨{ s with
      pool := s.pool.put id (c.afterCallbacks (s.document.node h).callbacks)
      journal := { s.journal with notes := s.journal.notes ++
        (Filling.runCallbacks (s.document.node h).callbacks ⟨s.document, c, []⟩).notes } },
    rfl, rfl, rfl, ?_⟩
  show s.placeNode plan id h = _
  rw [placeNode_of_none hset rfl rfl]
  unfold fillNode
  simp only [bindingsOf_eq hset, hc, hplan, if_true, Filling.fill_empty,
    Filling.document_runCallbacks, Filling.context_runCallbacks]

/-- The children of a node without bindings are visited in its place, in the context that the callbacks
leave. -/
theorem bare_visit (hplan : plan.inPlace = true) (hr : Ready b F s id c home [.node h n ks])
    (htop : b.setOf? n = some (.empty "")) (hsteady : Steady F n.callbacks) :
    ∃ s₁, s₁.document = s.document ∧
      Ready b F s₁ id (c.afterCallbacks n.callbacks) (some h) ks ∧
      ∀ {s₂ c' ks' log}, Visit plan F s₁ s₂ id c' (some h) ks ks'
          ((ks.filter fun k => k.record.isElement).map fun k => .place id k.handle) log →
        Visit plan F s s₂ id c' home [.node h n ks]
          [.node h { n with children := ks'.map NodeTree.handle } ks'] [.place id h]
          ((s, .place id h) :: log) := by
  have hheld := hr.seated.held _ (List.mem_singleton_self _)
  have hnode : s.document.node h = n := Document.node_of_get? hheld.get?_handle
  have hset : s.bindings.setOf? (s.document.node h) = some (.empty "") := by
    rw [hr.bindings, hnode, htop]
  obtain ⟨s₁, hdocument, hbindings, hpool, hact⟩ := place_bare hplan hset hr.context
  rw [hnode] at hpool
  have hturned : Turned F s.pool s₁.pool id (c.afterCallbacks n.callbacks) := by
    rw [hpool]
    exact .put hr.pool hr.context _
  refine ⟨s₁, hdocument, ⟨by rw [hdocument]; exact .kids hheld, by rw [hdocument]; exact hr.tidy,
    hbindings.trans hr.bindings, hturned.sound, hturned.get?_self,
    Context.functions_afterCallbacks hsteady hr.functions⟩, fun hv => ?_⟩
  rename_i s₂ c' ks' log
  have hregrown := hv.regrown
  rw [hdocument] at hregrown
  have hqueue : ([(s.document.elementChildren h).map (Step.place id)] : List (List Step)).reverse.flatten
      = (ks.filter fun k => k.record.isElement).map fun k => .place id k.handle := by
    simp [Document.elementChildren_eq hheld]
  refine ⟨.one hact (hqueue ▸ hv.runs), hregrown.inner hr.seated, hv.tidy,
    hv.bindings.trans hbindings, hturned.trans hv.pool, hv.functions, fun e he x hx => ?_⟩
  rcases List.mem_cons.mp he with rfl | he
  · obtain rfl := Option.some.inj hx
    exact Or.inl (by simp [handlesOf])
  · have hnear := hv.near e he x hx
    rw [hdocument] at hnear
    refine hnear.imp_left fun hmem => ?_
    simp only [NodeTree.handlesOf_cons, NodeTree.handles_node, NodeTree.handlesOf_nil,
      List.append_nil]
    exact List.mem_cons_of_mem h hmem

end Stage

end TreeTemplate
