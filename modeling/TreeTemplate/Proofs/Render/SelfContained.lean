import TreeTemplate.Proofs.Render.Confinement
import TreeTemplate.Proofs.Render.Lease
import TreeTemplate.Proofs.Render.Placing

/-!
Renders that include nothing.  A node is self-contained if a render that comes to it finds the sets that
it needs on record, and no include among them.  A step at a self-contained node looks at nothing new and
pushes steps at self-contained nodes only, so in a render that begins at one all steps that wait are at
such nodes (`Stage.Enclosed.act`).
-/

namespace TreeTemplate.Stage

open Document (Regrown)
open NodeTree (Sighted)

variable {plan : Plan} {s : Stage} {id : ContextId} {c : Context} {home : Option Handle}
  {t u : NodeTree} {x : Handle} {st : Step} {steps : List Step} {r : Stage × List (List Step)}

/-- A render that visits the node finds the sets of what it visits on record, none of them with an
include. -/
def SelfContained (s : Stage) (x : Handle) : Prop :=
  ∃ t, s.document.Holds t ∧ t.handle = x ∧ Sighted s.bindings (fun _ => True) t

theorem SelfContained.of_mem {us : List NodeTree} (hheld : ∀ u ∈ us, s.document.Holds u)
    (hsight : ∀ u ∈ us, Sighted s.bindings (fun _ => True) u) (hx : x ∈ us.map NodeTree.handle) :
    s.SelfContained x := by
  obtain ⟨u, hu, rfl⟩ := List.mem_map.mp hx
  exact ⟨u, hheld u hu, rfl, hsight u hu⟩

/-- What a step at a self-contained node gives: other trees in the place of its tree, no more sets, and
steps at self-contained nodes. -/
structure Contained (s : Stage) (home : Option Handle) (t : NodeTree)
    (r : Stage × List (List Step)) : Prop where
  regrown : ∃ us, Regrown s.document r.1.document home [t] us
  bindings : r.1.bindings = s.bindings
  pushed : ∀ x ∈ targets r.2, r.1.SelfContained x

theorem fillNode_contained (hs : s.document.Seated home [t]) (ht : s.document.Tidy)
    (hsight : Sighted s.bindings (fun _ => True) t) (hc : s.pool.get? id = some c) (plan : Plan) :
    Contained s home t (s.fillNode plan id t.handle) := by
  obtain ⟨h, n, ks⟩ := t
  obtain ⟨htop, -, -, hsighted⟩ := hsight
  rename_i set
  have hagrees := survey_agrees plan.templates.idAttribute set n.callbacks c
  obtain ⟨s', ks', hfill, hbindings, -, -, hregrown, hkids⟩ := fillNode_regrown hs ht htop hc rfl
  rw [NodeTree.handle_node, hfill]
  refine ⟨⟨_, hregrown⟩, hbindings, fun x hx => ?_⟩
  cases hverdict : (survey plan.templates.idAttribute set n.callbacks c).verdict with
  | leave => simp [hverdict, targets, Verdict.descends] at hx
  | write v clear => simp [hverdict, targets, Verdict.descends] at hx
  | descend =>
    rw [hverdict] at hx hkids hagrees
    obtain ⟨rfl, -⟩ := hkids
    have hheld := hregrown.held _ (List.mem_singleton_self _)
    have hx : x ∈ (ks'.filter fun k => k.record.isElement).map NodeTree.handle := by
      simpa [targets, Verdict.descends, List.filterMap_map, Function.comp_def, Step.node?] using hx
    refine .of_mem (fun k hk => hheld.kid (List.mem_of_mem_filter hk)) (fun k hk => ?_) hx
    have hk := List.mem_filter.mp hk
    rw [hbindings]
    exact hsighted hagrees k hk.1 hk.2

theorem placeNode_contained (hs : s.document.Seated home [t]) (ht : s.document.Tidy)
    (hsight : Sighted s.bindings (fun _ => True) t) (hp : s.pool.Sound)
    (hc : s.pool.get? id = some c) (plan : Plan) :
    Contained s home t (s.placeNode plan id t.handle) := by
  have hnode := Document.node_of_get? (hs.held t (List.mem_singleton_self t)).get?_handle
  obtain ⟨set, htop⟩ := hsight.exists_set
  cases hselect : set.select? with
  | none =>
    rw [placeNode_of_none (by rw [hnode, htop]) (include_of_sighted hsight htop) hselect]
    exact fillNode_contained hs ht hsight hc plan
  | some ev =>
    have hready : Ready s.bindings (fun _ => True) s id c home [t] := ⟨hs, ht, rfl, hp, hc, trivial⟩
    rcases placeNode_cases plan hready hsight htop hselect with hstays | ⟨-, us, jobs, hsteps, hsel⟩
    · rw [hstays]
      exact ⟨⟨[t], .refl hs⟩, rfl, by simp [targets]⟩
    · refine ⟨⟨us, hsel.regrown⟩, hsel.bindings, fun x hx => ?_⟩
      rw [targets, hsteps] at hx
      have hnodes : x ∈ jobs.map Job.node := by
        obtain ⟨st, hst, hx⟩ := List.mem_filterMap.mp hx
        obtain ⟨j, hj, hst⟩ := List.mem_flatMap.mp hst
        refine List.mem_map.mpr ⟨j, hj, ?_⟩
        rcases List.mem_pair.mp hst with rfl | rfl
        · exact Option.some.inj hx
        · simp [Step.node?] at hx
      obtain ⟨j, hj, rfl⟩ := List.mem_map.mp hnodes
      refine .of_mem hsel.regrown.held (fun u hu => ?_) (hsel.node_mem.1 j hj)
      rw [hsel.bindings]
      exact hsel.sighted u hu

/-- A step that is about a self-contained node. -/
theorem act_contained (hs : s.document.Seated home [t]) (ht : s.document.Tidy)
    (hsight : Sighted s.bindings (fun _ => True) t) (hp : s.pool.Sound)
    (hnode : st.node? = some t.handle) (hc : s.pool.get? st.context = some c) (plan : Plan) :
    Contained s home t (act plan s st) := by
  cases st with
  | place id y =>
    obtain rfl : y = t.handle := Option.some.inj hnode
    exact placeNode_contained hs ht hsight hp hc plan
  | fill id y =>
    obtain rfl : y = t.handle := Option.some.inj hnode
    exact fillNode_contained hs ht hsight hc plan
  | release id => simp [Step.node?] at hnode

/-- The nodes of the steps that wait are self-contained, live, and outside each other. -/
structure Enclosed (s : Stage) (steps : List Step) : Prop extends Ranged s steps where
  contained : ∀ x ∈ steps.filterMap Step.node?, s.SelfContained x

/-- Trees outside each other stay as they are when one of them gives way. -/
theorem holds_beside {d d' : Document} (hd : d.Forest) (hs : d.Seated home [t]) {us : List NodeTree}
    (hr : Regrown d d' home [t] us) (hu : d.Holds u) (htu : ¬ d.Above t.handle u.handle)
    (hut : ¬ d.Above u.handle t.handle) : d'.Holds u := by
  have ht := hs.held t (List.mem_singleton_self t)
  refine hr.held_beside hu (fun x hxu hxt => ?_) fun p hp hpu => ?_
  · have hxt : x ∈ t.handles := by simpa using hxt
    exact hut ((hd.mem_handles_iff hu).mp (hu.handle_mem_of_meet ht
      (fun hmem => htu ((hd.mem_handles_iff ht).mp hmem)) hxu hxt))
  · have hparent : t.record.parent? = some p := (hs.parents t (List.mem_singleton_self t)).trans hp
    exact hut (((hd.mem_handles_iff hu).mp hpu).tail ⟨t.record, ht.get?_handle, hparent⟩)

/-- Doing the first of the steps that wait leaves all that wait at self-contained nodes. -/
theorem Enclosed.act (h : Enclosed s (st :: steps)) (hp : s.pool.Sound)
    (hlive : s.pool.get? st.context ≠ none) (plan : Plan) :
    Enclosed (act plan s st).1 ((act plan s st).2.reverse.flatten ++ steps) := by
  refine ⟨h.toRanged.act plan, fun y hy => ?_⟩
  cases hnode : st.node? with
  | none =>
    cases st with
    | place id x => simp [Step.node?] at hnode
    | fill id x => simp [Step.node?] at hnode
    | release id => exact h.contained y hy
  | some x =>
    have hcontained := h.contained
    have hscattered := h.scattered
    rw [List.filterMap_cons_some hnode] at hcontained hscattered
    obtain ⟨t, ht, rfl, hsight⟩ := hcontained x List.mem_cons_self
    obtain ⟨ks, hs⟩ := h.forest.seated ht.get?_handle
    rw [ht.unique (hs.held _ (List.mem_singleton_self _)) rfl] at hs
    obtain ⟨c, hc⟩ := Option.ne_none_iff_exists'.mp hlive
    have hstep := act_contained hs h.forest.tidy hsight hp hnode hc plan
    rw [List.filterMap_append, List.mem_append] at hy
    rcases hy with hy | hy
    · exact hstep.pushed y hy
    · obtain ⟨us, hregrown⟩ := hstep.regrown
      obtain ⟨u, hu, rfl, husight⟩ := hcontained y (List.mem_cons_of_mem _ hy)
      obtain ⟨htu, hut⟩ := (List.pairwise_cons.mp hscattered.apart).1 u.handle hy
      exact ⟨u, holds_beside h.forest hs hregrown hu htu hut, rfl, hstep.bindings ▸ husight⟩

end TreeTemplate.Stage
