import TreeTemplate.Proofs.Render.Visit

/-!
Placing trees.  The instances of a node are filled one after another, each in its own context
(`Stage.jobs_done`), so a node that selects a value is placed if trees of its size can be filled, and
by induction on the size every tree can be placed (`Stage.placeable`).
-/

namespace TreeTemplate.Stage

open Document (Regrown)
open NodeTree (Sighted handlesOf)
open Pool (Turned Supplied)

variable {plan : Plan} {b : BindingCache} {F : Registry → Prop} {s s' s₁ s₂ : Stage}
  {id : ContextId} {c c₁ c₂ : Context} {home : Option Handle} {us us' : List NodeTree}
  {t u : NodeTree} {h : Handle} {n : Node} {log : List (Stage × Step)} {set : BindingSet}
  {jobs : List Job} {e : Bool}

/-! ### Filling instances -/

/-- What becomes of a tree when jobs are done, and the changes that it counts: the job of its node
fills it. -/
def worked (plan : Plan) (b : BindingCache) (jobs : List Job) (u : NodeTree) : Shape × Nat :=
  match jobs.find? fun j => j.node = u.handle with
  | some j => ((u.shape.filled plan b j.context).value, (u.shape.filled plan b j.context).changes)
  | none => (u.shape, 0)

theorem worked_cons_self {j : Job} (hnode : j.node = u.handle) :
    worked plan b (j :: jobs) u =
      ((u.shape.filled plan b j.context).value, (u.shape.filled plan b j.context).changes) := by
  rw [worked, List.find?_cons_of_pos (by simpa using hnode)]

theorem worked_cons_of_ne {j : Job} (hnode : j.node ≠ u.handle) :
    worked plan b (j :: jobs) u = worked plan b jobs u := by
  rw [worked, List.find?_cons_of_neg (by simpa using hnode), worked]

theorem worked_of_not_mem (hnode : u.handle ∉ jobs.map Job.node) :
    worked plan b jobs u = (u.shape, 0) := by
  have hnone : jobs.find? (fun j => j.node = u.handle) = none := by
    refine List.find?_eq_none.mpr fun j hj hnode' => hnode ?_
    exact List.mem_map.mpr ⟨j, hj, by simpa using hnode'⟩
  rw [worked, hnone]

/-- The order of the jobs does not matter if they are about different nodes. -/
theorem worked_perm {jobs' : List Job} (hperm : jobs.Perm jobs') (hnodup : (jobs.map Job.node).Nodup)
    (u : NodeTree) : worked plan b jobs u = worked plan b jobs' u := by
  by_cases hmem : u.handle ∈ jobs.map Job.node
  · obtain ⟨j, hj, hnode⟩ := List.mem_map.mp hmem
    have hfind : ∀ xs : List Job, (xs.map Job.node).Nodup → j ∈ xs →
        worked plan b xs u = worked plan b [j] u := by
      intro xs hxs hjxs
      induction xs with
      | nil => simp at hjxs
      | cons k xs ih =>
        rw [List.map_cons, List.nodup_cons] at hxs
        rcases List.mem_cons.mp hjxs with rfl | hjxs
        · rw [worked_cons_self hnode, worked_cons_self hnode]
        · refine (worked_cons_of_ne fun hk => hxs.1 ?_).trans (ih hxs.2 hjxs)
          exact List.mem_map.mpr ⟨j, hjxs, hnode.trans hk.symm⟩
    rw [hfind jobs hnodup hj,
      hfind jobs' ((hperm.map Job.node).nodup_iff.mp hnodup) (hperm.mem_iff.mp hj)]
  · rw [worked_of_not_mem hmem,
      worked_of_not_mem fun hmem' => hmem ((hperm.map Job.node).mem_iff.mpr hmem')]

/-- The jobs are done: the trees `us'` stand where `us` stood, those that a job is about filled in its
context, and the contexts are released. -/
structure Done (plan : Plan) (b : BindingCache) (F : Registry → Prop) (s s' : Stage)
    (home : Option Handle) (us us' : List NodeTree) (jobs : List Job)
    (log : List (Stage × Step)) : Prop where
  runs : Runs (act plan) s (jobs.flatMap Job.steps) log s'
  regrown : s.document.Regrown s'.document home us us'
  tidy : s'.document.Tidy
  bindings : s'.bindings = s.bindings
  get?_eq : ∀ x, s'.pool.get? x = if x ∈ jobs.map Job.id then none else s.pool.get? x
  sound : s'.pool.Sound
  uniform : s.pool.Uniform F → s'.pool.Uniform F
  functions_eq : s'.pool.functions = s.pool.functions
  near : ∀ entry ∈ log, ∀ x ∈ entry.2.node?, x ∈ handlesOf us ∨ s.document.get? x = none
  handles : us'.map NodeTree.handle = us.map NodeTree.handle
  sighted : ∀ u ∈ us', Sighted b F u
  shapes : us'.map NodeTree.shape = (us.map (worked plan b jobs)).map Prod.fst
  changes : s'.document.mutations =
    s.document.mutations + ((us.map (worked plan b jobs)).map Prod.snd).sum
  filled : ∀ j ∈ jobs, ∃ s'', (s'', Step.fill j.id j.node) ∈ log ∧
    s''.pool.get? j.id = some j.context

section

variable {A B : List NodeTree} {j : Job} {u' : NodeTree} {log' : List (Stage × Step)}

/-- What a job and those after it make of the trees in a row: its node is filled, and the others are
left to the rest. -/
theorem map_worked_cons (plan : Plan) (b : BindingCache) (jobs : List Job)
    (hdistinct : ((A ++ ([u] ++ B)).map NodeTree.handle).Nodup) (hnode : u.handle = j.node) :
    (A ++ ([u] ++ B)).map (worked plan b (j :: jobs)) =
      A.map (worked plan b jobs) ++
        ((u.shape.filled plan b j.context).value, (u.shape.filled plan b j.context).changes) ::
          B.map (worked plan b jobs) := by
  have hside : ∀ v, v ∈ A ∨ v ∈ B → worked plan b (j :: jobs) v = worked plan b jobs v := by
    intro v hv
    refine worked_cons_of_ne fun heq => ?_
    rw [List.map_append, List.map_append, List.map_singleton, List.singleton_append,
      List.nodup_middle, List.nodup_cons, ← List.map_append] at hdistinct
    exact hdistinct.1 (List.mem_map.mpr ⟨v, List.mem_append.mpr hv, heq.symm.trans hnode.symm⟩)
  rw [List.map_append, List.map_append, List.map_singleton, List.singleton_append,
    worked_cons_self hnode.symm, List.map_congr_left fun v hv => hside v (Or.inl hv),
    List.map_congr_left fun v hv => hside v (Or.inr hv)]

namespace Done

theorem nil (hs : s.document.Seated home us) (ht : s.document.Tidy) (hp : s.pool.Sound)
    (hsight : ∀ u ∈ us, Sighted b F u) : Done plan b F s s home us us [] [] := by
  have hworked : us.map (worked plan b []) = us.map fun u => (u.shape, 0) :=
    List.map_congr_left fun u _ => rfl
  exact ⟨.nil s, .refl hs, ht, rfl, fun x => by simp, hp, id, rfl, by simp, rfl, hsight,
    by simp [hworked], by simp [hworked, Function.comp_def], by simp⟩

/-- A job is done and its context released, and then the others are done. -/
theorem cons (hs : s.document.Seated home (A ++ ([u] ++ B)))
    (hjob : s.pool.get? j.id = some j.context) (hnode : u.handle = j.node)
    (hapart : j.node ∉ jobs.map Job.node)
    (hv : Visit plan F s s₁ j.id c home [u] [u'] [.fill j.id u.handle] log)
    (hhandle : u'.handle = u.handle) (hshape : u'.shape = (u.shape.filled plan b j.context).value)
    (hchanges : s₁.document.mutations =
      s.document.mutations + (u.shape.filled plan b j.context).changes)
    (hd : Done plan b F { s₁ with pool := s₁.pool.recycle j.id } s₂ home (A ++ ([u'] ++ B)) us' jobs
      log') :
    Done plan b F s s₂ home (A ++ ([u] ++ B)) us' (j :: jobs)
      (log ++ ((s₁, .release j.id) :: log')) := by
  have hregrown := (hv.regrown.append_right hs.right).append_left hs
  have hget := Pool.get?_recycle hv.pool.get?_self
  have hhandles : (A ++ ([u'] ++ B)).map NodeTree.handle =
      (A ++ ([u] ++ B)).map NodeTree.handle := by simp [hhandle]
  have hworked := map_worked_cons plan b jobs
    (hs.nodup.sublist (Document.Seated.kids.sublist_handlesOf _)) hnode
  have hdone : worked plan b jobs u' = ((u.shape.filled plan b j.context).value, 0) := by
    rw [worked_of_not_mem (by rwa [hhandle, hnode]), hshape]
  refine ⟨?_, hregrown.trans hs hd.regrown, hd.tidy, hd.bindings.trans hv.bindings, fun x => ?_,
    hd.sound, fun hu => hd.uniform ?_, ?_, ?_, hd.handles.trans hhandles, hd.sighted, ?_, ?_, ?_⟩
  · rw [List.flatMap_cons, Job.steps, ← hnode]
    exact hv.runs.append (.cons hd.runs)
  · rw [hd.get?_eq, List.map_cons]
    by_cases hx : x ∈ jobs.map Job.id
    · rw [if_pos hx, if_pos (List.mem_cons_of_mem _ hx)]
    by_cases hj : x = j.id
    · rw [if_neg hx, hget, if_pos hj, if_pos (hj ▸ List.mem_cons_self)]
    · rw [if_neg hx, hget, if_neg hj, hv.pool.get?_of_ne hj, if_neg]
      rw [List.mem_cons, not_or]
      exact ⟨hj, hx⟩
  · exact (hv.pool.uniform hu).recycle hv.pool.get?_self hv.functions
  · exact hd.functions_eq.trans ((Pool.functions_recycle _ _).trans hv.pool.functions_eq)
  · intro entry hentry x hx
    rcases List.mem_append.mp hentry with hentry | hentry
    · refine (hv.near entry hentry x hx).imp_left fun hmem => ?_
      simp only [NodeTree.handlesOf_append, List.mem_append]
      exact Or.inr (Or.inl hmem)
    rcases List.mem_cons.mp hentry with rfl | hentry
    · simp [Step.node?] at hx
    rcases hd.near entry hentry x hx with hmem | hnone
    · exact hregrown.fresh x hmem
    · exact hregrown.not_live hs hnone
  · rw [hd.shapes, hworked]
    simp [hdone]
  · rw [hd.changes, hworked]
    simp only [List.map_append, List.map_cons, List.map_nil, hdone, List.sum_append, List.sum_cons,
      List.sum_nil, hchanges]
    omega
  · intro k hk
    rcases List.mem_cons.mp hk with rfl | hk
    · exact ⟨s, List.mem_append_left _ (hnode ▸ hv.runs.head_mem), hjob⟩
    · obtain ⟨s'', hmem, hcontext⟩ := hd.filled k hk
      exact ⟨s'', List.mem_append_right _ (List.mem_cons_of_mem _ hmem), hcontext⟩

end Done

end

/-- Jobs about different nodes can be done in any order. -/
theorem jobs_done (hfill : ∀ j ∈ jobs, ∀ u ∈ us, u.handle = j.node → Fillable plan b F u)
    (hs : s.document.Seated home us) (ht : s.document.Tidy) (ha : s.document.RootOnTop us)
    (hb : s.bindings = b) (hp : s.pool.Sound)
    (hnodes : ∀ j ∈ jobs, j.node ∈ us.map NodeTree.handle) (hapart : (jobs.map Job.node).Nodup)
    (hnodup : (jobs.map Job.id).Nodup) (hlive : ∀ j ∈ jobs, s.pool.get? j.id = some j.context)
    (hfunctions : ∀ j ∈ jobs, F j.context.functions) (hsight : ∀ u ∈ us, Sighted b F u) :
    ∃ s' us' log, Done plan b F s s' home us us' jobs log := by
  induction jobs generalizing us s with
  | nil => exact ⟨s, us, [], .nil hs ht hp hsight⟩
  | cons j jobs ih =>
    rw [List.map_cons, List.nodup_cons] at hnodup hapart
    obtain ⟨u, hu, hnode⟩ := List.mem_map.mp (hnodes j List.mem_cons_self)
    obtain ⟨A, B, rfl⟩ := List.append_of_mem hu
    have hs : s.document.Seated home (A ++ ([u] ++ B)) := hs
    have hjob := hlive j List.mem_cons_self
    obtain ⟨s₁, u', log, hv, husight, hhandle, -, hshape, hchanges⟩ :=
      hfill j List.mem_cons_self u hu hnode
        ⟨hs.right.left, ht, hb, hp, hjob, hfunctions j List.mem_cons_self⟩ (ha.away_kids hs hu)
        (hsight u hu)
    have hregrown := (hv.regrown.append_right hs.right).append_left hs
    have hhandles : (A ++ ([u'] ++ B)).map NodeTree.handle =
        (A ++ ([u] ++ B)).map NodeTree.handle := by simp [hhandle]
    have hlive' : ∀ k ∈ jobs, (s₁.pool.recycle j.id).get? k.id = some k.context := by
      intro k hk
      have hne : k.id ≠ j.id := fun hid => hnodup.1 (hid ▸ List.mem_map_of_mem hk)
      rw [Pool.get?_recycle hv.pool.get?_self, if_neg hne, hv.pool.get?_of_ne hne,
        hlive k (List.mem_cons_of_mem _ hk)]
    have hmem : ∀ v ∈ A ++ ([u'] ++ B), v = u' ∨ v ∈ A ++ ([u] ++ B) := by
      intro v hv
      simp only [List.mem_append, List.mem_singleton] at hv ⊢
      tauto
    have hfill' : ∀ k ∈ jobs, ∀ v ∈ A ++ ([u'] ++ B), v.handle = k.node → Fillable plan b F v := by
      intro k hk v hv hvk
      rcases hmem v hv with rfl | hv
      · rw [hhandle, hnode] at hvk
        exact absurd (hvk ▸ List.mem_map_of_mem hk) hapart.1
      · exact hfill k (List.mem_cons_of_mem _ hk) v hv hvk
    have hsight' : ∀ v ∈ A ++ ([u'] ++ B), Sighted b F v := by
      intro v hv
      rcases hmem v hv with rfl | hv
      · exact husight
      · exact hsight v hv
    obtain ⟨s₂, us', log', hd⟩ := ih (s := { s₁ with pool := s₁.pool.recycle j.id }) hfill'
      (hregrown.seated hs) hv.tidy (hregrown.rootOnTop hs ha (hhandles ▸ id))
      (hv.bindings.trans hb) (hv.pool.sound.recycle hv.pool.get?_self)
      (fun k hk => hhandles ▸ hnodes k (List.mem_cons_of_mem _ hk)) hapart.2 hnodup.2 hlive'
      (fun k hk => hfunctions k (List.mem_cons_of_mem _ hk)) hsight'
    exact ⟨s₂, us', _, .cons hs hjob hnode hapart.1 hv hhandle hshape hchanges hd⟩

/-! ### Placing one tree -/

/-- Steps that do the same may stand for each other. -/
theorem Visit.of_act_eq {st st' : Step} {new : List NodeTree}
    (hact : act plan s st = act plan s st') (hnode : st.node? = st'.node?)
    (hv : Visit plan F s s' id c home [t] new [st'] log) :
    ∃ log', Visit plan F s s' id c home [t] new [st] ((s, st) :: log') := by
  obtain ⟨hruns, hregrown, htidy, hbindings, hpool, hfunctions, hnear⟩ := hv
  cases hruns with
  | cons hrest =>
    rename_i rest
    refine ⟨rest, .cons (by rwa [hact]), hregrown, htidy, hbindings, hpool, hfunctions,
      fun entry hentry x hx => ?_⟩
    rcases List.mem_cons.mp hentry with rfl | hentry
    · exact hnear (s, st') List.mem_cons_self x (hnode ▸ hx)
    · exact hnear entry (List.mem_cons_of_mem _ hentry) x hx

/-- A node that selects nothing is filled where it is. -/
theorem placeNode_of_none (hset : s.bindings.setOf? (s.document.node h) = some set)
    (hinclude : set.include? = none) (hselect : set.select? = none) :
    s.placeNode plan id h = s.fillNode plan id h := by
  unfold placeNode
  simp only [bindingsOf_eq hset, hinclude, hselect]

/-- A node that selects a value gives way to what stands for it. -/
theorem placeNode_of_some {ev : Evaluator}
    (hset : s.bindings.setOf? (s.document.node h) = some set) (hinclude : set.include? = none)
    (hselect : set.select? = some ev) (hc : s.pool.get? id = some c) :
    s.placeNode plan id h =
      ({ s with pool := s.pool.put id (c.execute ev).2 } : Stage).select id h (c.execute ev).1 := by
  unfold placeNode
  simp only [bindingsOf_eq hset, hinclude, hselect, execute?, hc, Option.map_some]

/-- The root stays where it is when a list has no item for it, and nothing is to be filled. -/
theorem placeNode_root {ev : Evaluator} (plan : Plan)
    (hn : s.document.get? Document.root = some n) (hset : s.bindings.setOf? n = some set)
    (hinclude : set.include? = none) (hselect : set.select? = some ev)
    (hc : s.pool.get? id = some c) (hsurplus : n.Surplus (c.execute ev).1) :
    s.placeNode plan id Document.root =
      ({ s with pool := s.pool.put id (c.execute ev).2 }, [[]]) := by
  have hnode := Document.node_of_get? hn
  rw [placeNode_of_some (by rwa [hnode]) hinclude hselect hc]
  exact select_root (s := { s with pool := s.pool.put id (c.execute ev).2 }) (by rwa [hnode])
    (Document.contains_of_get? hn) id

/-- Each item has its job. -/
theorem exists_job {items : List Item} {i : Item}
    (hcontexts : jobs.map Job.context = items.map c.within)
    (hmem : (h, some i) ∈ (jobs.map Job.node).zip (items.map some)) :
    ∃ j ∈ jobs, j.node = h ∧ j.context = c.within i := by
  induction jobs generalizing items with
  | nil => simp at hmem
  | cons j jobs ih =>
    cases items with
    | nil => simp at hmem
    | cons i' items =>
      rw [List.map_cons, List.map_cons, List.cons.injEq] at hcontexts
      rw [List.map_cons, List.map_cons, List.zip_cons_cons, List.mem_cons] at hmem
      rcases hmem with heq | hmem
      · obtain ⟨rfl, hi⟩ := Prod.mk.inj heq
        obtain rfl := Option.some.inj hi
        exact ⟨j, List.mem_cons_self, rfl, hcontexts.1⟩
      · obtain ⟨k, hk, hjob⟩ := ih hcontexts.2 hmem
        exact ⟨k, List.mem_cons_of_mem _ hk, hjob⟩

/-! ### Placing a node that selects a value -/

/-- What stands for a node that selects a value, in terms of what is filled. -/
theorem map_stand {parts : List (Node × Option Item)} {items : List Item} {ks : List Shape}
    (plan : Plan) (b : BindingCache) (c : Context)
    (hparts : parts.map Prod.snd = items.map some) :
    parts.map (Shape.stand plan b (Shape.placeAll plan b ks) ks c) =
      List.zipWith (fun σ k => ((σ.filled plan b k).value, (σ.filled plan b k).changes))
        (parts.map fun p => Shape.node p.1 ks) (items.map c.within) := by
  induction parts generalizing items with
  | nil => rfl
  | cons p parts ih =>
    obtain ⟨n, i?⟩ := p
    cases items with
    | nil => simp at hparts
    | cons i items =>
      rw [List.map_cons, List.map_cons, List.cons.injEq] at hparts
      obtain ⟨rfl, hparts⟩ := hparts
      rw [List.map_cons, List.map_cons, List.map_cons, List.zipWith_cons_cons, ih hparts]
      rfl

/-- Jobs for trees in their order fill each of them. -/
theorem map_worked (hnodes : jobs.map Job.node = us.map NodeTree.handle)
    (hnodup : (us.map NodeTree.handle).Nodup) :
    us.map (worked plan b jobs) = List.zipWith
      (fun u j => ((u.shape.filled plan b j.context).value, (u.shape.filled plan b j.context).changes))
      us jobs := by
  induction jobs generalizing us with
  | nil =>
    obtain rfl : us = [] := List.map_eq_nil_iff.mp hnodes.symm
    rfl
  | cons j jobs ih =>
    cases us with
    | nil => simp at hnodes
    | cons u us =>
      rw [List.map_cons, List.map_cons, List.cons.injEq] at hnodes
      rw [List.map_cons, List.nodup_cons] at hnodup
      have hrest : us.map (worked plan b (j :: jobs)) = us.map (worked plan b jobs) := by
        refine List.map_congr_left fun v hv => worked_cons_of_ne fun heq => hnodup.1 ?_
        exact List.mem_map.mpr ⟨v, hv, heq.symm.trans hnodes.1⟩
      rw [List.map_cons, List.zipWith_cons_cons, worked_cons_self hnodes.1, hrest,
        ih hnodes.2 hnodup.2]

/-- A node that selects a value stands in its own place, unless a list has no item for it. -/
theorem mem_standing (hn : s.document.get? h = some n) (v : Value) :
    n.Surplus v ∧ s.standing h v = [] ∨ h ∈ s.standing h v := by
  cases v with
  | null | bool _ | number _ | string _ | object _ => exact Or.inr (List.mem_singleton_self h)
  | array items =>
    rw [standing, Document.node_of_get? hn]
    cases hchange : ListChange.of n.marker? items.length with
    | conceal => exact Or.inr (List.mem_singleton_self h)
    | discard => exact Or.inl ⟨⟨items, rfl, hchange⟩, rfl⟩
    | spread | grow _ | keep _ => exact Or.inr (by simp [ListChange.apply])

namespace Selected

variable {v : Value}

/-- What stands there is as large as the node. -/
theorem size (hsel : Selected b F s s' home t c v us jobs) (hu : u ∈ us) : u.size = t.size := by
  have hmem : u.shape ∈ us.map NodeTree.shape := List.mem_map_of_mem hu
  rw [hsel.shapes] at hmem
  obtain ⟨p, -, hp⟩ := List.mem_map.mp hmem
  rw [← NodeTree.size_shape, ← hp, ← NodeTree.size_shape t, t.shape_eq, Shape.size, Shape.size]

theorem handles_nodup (hsel : Selected b F s s' home t c v us jobs) :
    (us.map NodeTree.handle).Nodup :=
  hsel.regrown.nodup.sublist (Document.Seated.kids.sublist_handlesOf us)

/-- The jobs are about different nodes of those that stand there. -/
theorem node_mem (hsel : Selected b F s s' home t c v us jobs) :
    (∀ j ∈ jobs, j.node ∈ us.map NodeTree.handle) ∧ (jobs.map Job.node).Nodup := by
  rcases hsel.jobs with ⟨rfl, -⟩ | ⟨hnodes, -⟩
  · simp
  · rw [hnodes]
    exact ⟨fun j hj => hnodes ▸ List.mem_map_of_mem hj, hsel.handles_nodup⟩

/-- The jobs are done in contexts of items. -/
theorem exists_item (hsel : Selected b F s s' home t c v us jobs) {j : Job} (hj : j ∈ jobs) :
    ∃ i, c.within i = j.context := by
  rcases hsel.jobs with ⟨rfl, -⟩ | ⟨-, items, -, hcontexts⟩
  · simp at hj
  · have hmem : j.context ∈ items.map c.within := hcontexts ▸ List.mem_map_of_mem hj
    obtain ⟨i, -, hi⟩ := List.mem_map.mp hmem
    exact ⟨i, hi⟩

/-- The jobs done, what stands there is what was selected. -/
theorem map_worked (hsel : Selected b F s s' home t c v us jobs) (plan : Plan) :
    us.map (worked plan b jobs) = (t.record.unlinked.select v).map
      (Shape.stand plan b (Shape.placeAll plan b (t.kids.map NodeTree.shape))
        (t.kids.map NodeTree.shape) c) := by
  have hshapes := hsel.shapes
  rcases hsel.jobs with ⟨rfl, hparts⟩ | ⟨hnodes, items, hparts, hcontexts⟩
  · rw [show worked plan b [] = (·, 0) ∘ NodeTree.shape from rfl, ← List.map_map, hshapes,
      List.map_map]
    refine List.map_congr_left fun p hp => ?_
    obtain ⟨q, hq, rfl⟩ := List.mem_map.mp hp
    rw [Shape.stand, hparts q hq]
    rfl
  · have hparts' : (t.record.unlinked.select v).map Prod.snd = items.map some := by
      rw [← hparts, Node.select, List.map_map]
      rfl
    rw [Stage.map_worked hnodes hsel.handles_nodup, map_stand plan b c hparts', ← hshapes, ← hcontexts,
      List.zipWith_map]

/-- A root that selects a value stays on top. -/
theorem rootOnTop (hsel : Selected b F s s' home t c v us jobs) (hs : s.document.Seated home [t])
    (h : s.document.RootOnTop [t]) (hstay : t.handle = Document.root → ¬ t.record.Surplus v) :
    s'.document.RootOnTop us := by
  refine hsel.regrown.rootOnTop hs h fun hroot => ?_
  have htop : t.handle = Document.root := (List.mem_singleton.mp hroot).symm
  have hlive := (hs.held t (List.mem_singleton_self t)).get?_handle
  rcases mem_standing hlive v with ⟨hsurplus, -⟩ | hmem
  · exact absurd hsurplus (hstay htop)
  · rw [hsel.handles]
    exact htop ▸ hmem

/-- Any of the jobs can be done, in any order. -/
theorem done (hsel : Selected b F s s' home t c v us jobs)
    (hfill : ∀ u : NodeTree, u.size = t.size → Fillable plan b F u) (hb : s.bindings = b)
    (hs : s.document.Seated home [t]) (ha : s.document.RootOnTop [t])
    (hstay : t.handle = Document.root → ¬ t.record.Surplus v) (hfunctions : F c.functions)
    {xs : List Job} (hxs : xs.Nodup) (hsub : xs ⊆ jobs) :
    ∃ s₂ us' log, Done plan b F s' s₂ home us us' xs log := by
  obtain ⟨hnodes, hapart⟩ := hsel.node_mem
  refine jobs_done (fun _ _ u hu _ => hfill u (hsel.size hu)) (hsel.regrown.seated hs) hsel.tidy
    (hsel.rootOnTop hs ha hstay) (hsel.bindings.trans hb) hsel.pool.sound
    (fun j hj => hnodes j (hsub hj)) ?_ ?_ (fun j hj => hsel.pool.live j (hsub hj))
    (fun j hj => ?_) hsel.sighted
  · exact hxs.map_on fun j hj k hk => List.inj_on_of_nodup_map hapart (hsub hj) (hsub hk)
  · exact hxs.map_on fun j hj k hk => List.inj_on_of_nodup_map hsel.pool.nodup (hsub hj) (hsub hk)
  · obtain ⟨i, hi⟩ := hsel.exists_item (hsub hj)
    rw [← hi]
    exact hfunctions

end Selected

/-- The set of a sighted node asks for no include. -/
theorem include_of_sighted (hsight : Sighted b F t) (htop : b.setOf? t.record = some set) :
    set.include? = none := by
  cases hsight with
  | node top placed _ _ =>
    obtain rfl := Option.some.inj (top.symm.trans htop)
    exact placed

/-- What stands for a node that selects a value takes its place. -/
theorem placeNode_spec {ev : Evaluator} (plan : Plan) (hr : Ready b F s id c home [t])
    (hstay : t.handle = Document.root → ¬ t.record.Surplus (c.execute ev).1)
    (hsight : Sighted b F t) (htop : b.setOf? t.record = some set)
    (hselect : set.select? = some ev) :
    ∃ us jobs, (s.placeNode plan id t.handle).2.reverse.flatten = jobs.flatMap Job.steps ∧
      Selected b F { s with pool := s.pool.put id (c.execute ev).2 }
        (s.placeNode plan id t.handle).1 home t (c.execute ev).2 (c.execute ev).1 us jobs := by
  have hnode := Document.node_of_get? (hr.seated.held t (List.mem_singleton_self t)).get?_handle
  have hset : s.bindings.setOf? (s.document.node t.handle) = some set := by
    rw [hr.bindings, hnode, htop]
  have hput : Turned F s.pool (s.pool.put id (c.execute ev).2) id (c.execute ev).2 :=
    .put hr.pool hr.context (c.execute ev).2
  rw [placeNode_of_some hset (include_of_sighted hsight htop) hselect hr.context]
  exact select_spec (s := { s with pool := s.pool.put id (c.execute ev).2 }) hr.seated hr.tidy hstay
    hsight hput.sound hput.get?_self

/-- The root may stay where it is with nothing to be filled; otherwise what stands for a node that selects
a value takes its place. -/
theorem placeNode_cases {ev : Evaluator} (plan : Plan) (hr : Ready b F s id c home [t])
    (hsight : Sighted b F t) (htop : b.setOf? t.record = some set)
    (hselect : set.select? = some ev) :
    s.placeNode plan id t.handle = ({ s with pool := s.pool.put id (c.execute ev).2 }, [[]]) ∨
      (t.handle = Document.root → ¬ t.record.Surplus (c.execute ev).1) ∧
        ∃ us jobs, (s.placeNode plan id t.handle).2.reverse.flatten = jobs.flatMap Job.steps ∧
          Selected b F { s with pool := s.pool.put id (c.execute ev).2 }
            (s.placeNode plan id t.handle).1 home t (c.execute ev).2 (c.execute ev).1 us jobs := by
  by_cases hroot : t.handle = Document.root ∧ t.record.Surplus (c.execute ev).1
  · obtain ⟨hroot, hsurplus⟩ := hroot
    have hlive := (hr.seated.held t (List.mem_singleton_self t)).get?_handle
    have hset : s.bindings.setOf? t.record = some set := hr.bindings ▸ htop
    rw [hroot] at hlive ⊢
    exact Or.inl (placeNode_root plan hlive hset (include_of_sighted hsight htop) hselect hr.context
      hsurplus)
  · have hstay : t.handle = Document.root → ¬ t.record.Surplus (c.execute ev).1 :=
      fun htop hsurplus => hroot ⟨htop, hsurplus⟩
    exact Or.inr ⟨hstay, placeNode_spec plan hr hstay hsight htop hselect⟩

/-- A node that selects a value is placed: what stands for it takes its place, and each instance is
filled in the context of its item. -/
theorem select_visit {ev : Evaluator} (plan : Plan) (hr : Ready b F s id c home [t])
    (ha : s.document.RootOnTop [t])
    (hstay : t.handle = Document.root → ¬ t.record.Surplus (c.execute ev).1)
    (hsight : Sighted b F t) (htop : b.setOf? t.record = some set) (hselect : set.select? = some ev)
    (hfill : ∀ u : NodeTree, u.size = t.size → Fillable plan b F u) :
    ∃ s' us log, Visit plan F s s' id (c.execute ev).2 home [t] us [.place id t.handle]
        ((s, .place id t.handle) :: log) ∧
      (∀ u ∈ us, Sighted b F u ∧ u.record.isElement = t.record.isElement) ∧
      us.map NodeTree.handle = s.standing t.handle (c.execute ev).1 ∧
      us.map NodeTree.shape = (t.shape.place plan b c).value ∧
      (home ≠ none → s'.document.mutations =
        s.document.mutations + (t.shape.place plan b c).changes) ∧
      ∀ x i, (x, some i) ∈ (us.map NodeTree.handle).zip
          ((t.record.face.select (c.execute ev).1).map Prod.snd) →
        ∃ s'' id', (s'', Step.fill id' x) ∈ log ∧
          s''.pool.get? id' = some ((c.execute ev).2.within i) := by
  have hfunctions : F (c.execute ev).2.functions := by
    rw [Context.functions_execute]
    exact hr.functions
  have hplace := Shape.place_of_some plan
    (show b.setOf? t.record.unlinked = some set from htop) hselect (t.kids.map NodeTree.shape) c
  rw [← t.shape_eq] at hplace
  obtain ⟨us, jobs, hsteps, hsel⟩ := placeNode_spec plan hr hstay hsight htop hselect
  generalize hact : s.placeNode plan id t.handle = selected at hsteps hsel
  have hact : act plan s (.place id t.handle) = selected := hact
  obtain ⟨s₂, queues⟩ := selected
  dsimp only at hsteps hsel
  generalize c.execute ev = r at hsel hfunctions hplace hstay ⊢
  have hput : Turned F s.pool (s.pool.put id r.2) id r.2 := .put hr.pool hr.context r.2
  have hfirst : ∀ x ∈ (Step.place id t.handle).node?, x ∈ handlesOf [t] := by
    intro x hx
    obtain rfl := Option.some.inj hx
    exact NodeTree.mem_handlesOf_of_mem (List.mem_singleton_self t) t.handle_mem_handles
  obtain ⟨s₃, us', log, hd⟩ := hsel.done hfill hr.bindings hr.seated ha hstay hfunctions
    hsel.pool.nodup.of_map (List.Subset.refl jobs)
  have hget : ∀ x, s₃.pool.get? x = if x = id then some r.2 else s.pool.get? x := by
    intro x
    rw [← hput.get?_eq, hd.get?_eq]
    split
    · next hx =>
      obtain ⟨j, hj, rfl⟩ := List.mem_map.mp hx
      exact (hsel.pool.fresh j hj).symm
    · next hx => exact hsel.pool.frame x hx
  have hturned : Turned F s.pool s₃.pool id r.2 :=
    ⟨hget, hd.sound, fun hu => hd.uniform (hsel.pool.uniform (hput.uniform hu)),
      hd.functions_eq.trans (hsel.pool.functions_eq.trans hput.functions_eq)⟩
  have hshapes := hd.shapes
  have hchanges := hd.changes
  rw [hsel.map_worked plan] at hshapes hchanges
  have hshapes : us'.map NodeTree.shape = (t.shape.place plan b c).value := by rw [hplace, hshapes]
  refine ⟨s₃, us', log, ⟨.one hact (hsteps ▸ hd.runs), hsel.regrown.trans hr.seated hd.regrown,
    hd.tidy, hd.bindings.trans hsel.bindings, hturned, hfunctions, fun entry hentry x hx => ?_⟩,
    fun u hu => ⟨hd.sighted u hu, ?_⟩, hd.handles.trans hsel.handles, hshapes, fun hhome => ?_,
    fun x i hmem => ?_⟩
  · rcases List.mem_cons.mp hentry with rfl | hentry
    · exact Or.inl (hfirst x hx)
    rcases hd.near entry hentry x hx with hmem | hnone
    · exact hsel.regrown.fresh x hmem
    · exact hsel.regrown.not_live hr.seated hnone
  · exact NodeTree.isElement_of_map_shape hshapes hu
  · rw [hplace, hchanges, hsel.changes hhome, Node.selectChanges_unlinked, Nat.add_assoc]
  · rw [hd.handles] at hmem
    rcases hsel.jobs with ⟨rfl, hparts⟩ | ⟨hnodes, items, hparts, hcontexts⟩
    · obtain ⟨p, hp, hi⟩ := List.mem_map.mp (List.of_mem_zip hmem).2
      simp [hparts p hp] at hi
    · rw [← hnodes, hparts] at hmem
      obtain ⟨j, hj, rfl, hcontext⟩ := exists_job hcontexts hmem
      obtain ⟨s'', hlog, hlive⟩ := hd.filled j hj
      exact ⟨s'', j.id, hlog, hcontext ▸ hlive⟩

/-- A node that does not select a value is placed by filling it. -/
theorem place_visit_of_none (plan : Plan) (hr : Ready b F s id c home [t])
    (ha : s.document.Away t.kids) (hsight : Sighted b F t) (htop : b.setOf? t.record = some set)
    (hselect : set.select? = none) (hfill : Fillable plan b F t) :
    ∃ s' us log, Visit plan F s s' id (t.shape.place plan b c).context home [t] us
        [.place id t.handle] log ∧
      (∀ u ∈ us, Sighted b F u ∧ u.record.isElement = t.record.isElement) ∧
      (us = [] ∨ t.handle ∈ us.map NodeTree.handle) ∧
      us.map NodeTree.shape = (t.shape.place plan b c).value ∧
      (home ≠ none → s'.document.mutations =
        s.document.mutations + (t.shape.place plan b c).changes) := by
  obtain ⟨s', u, log, hv, husight, hhandle, helement, hshape, hchanges⟩ := hfill hr ha hsight
  have hnode := Document.node_of_get? (hr.seated.held t (List.mem_singleton_self t)).get?_handle
  have hset : s.bindings.setOf? (s.document.node t.handle) = some set := by
    rw [hr.bindings, hnode, htop]
  have hact : act plan s (.place id t.handle) = act plan s (.fill id t.handle) :=
    placeNode_of_none hset (include_of_sighted hsight htop) hselect
  obtain ⟨log', hv'⟩ := hv.of_act_eq hact rfl
  have hplace := Shape.place_of_none plan
    (show b.setOf? t.record.unlinked = some set from htop) hselect (t.kids.map NodeTree.shape) c
  rw [← t.shape_eq] at hplace
  rw [hplace]
  refine ⟨s', [u], _, hv', fun v hv => ?_, Or.inr (by simp [hhandle]),
    by rw [List.map_singleton, hshape], fun _ => hchanges⟩
  rw [List.mem_singleton.mp hv]
  exact ⟨husight, helement⟩

/-- Every tree can be placed. -/
theorem placeable (t : NodeTree) : Placeable plan b F t := by
  induction hsize : t.size using Nat.strongRecOn generalizing t with
  | ind m ih =>
    have hfill : ∀ u : NodeTree, u.size = t.size → Fillable plan b F u := by
      intro u hu
      refine fill_visit fun k hk _ => ih k.size ?_ k rfl
      obtain ⟨h, n, ks⟩ := u
      have hlt : k.size < (NodeTree.node h n ks).size := NodeTree.size_lt_of_mem hk
      omega
    intro s id c home hr ha hsight
    obtain ⟨set, htop⟩ := hsight.exists_set
    cases hselect : set.select? with
    | none => exact place_visit_of_none plan hr ha.kids hsight htop hselect (hfill t rfl)
    | some ev =>
      obtain ⟨s', us, log, hv, hus, hhandles, hshapes, hchanges, -⟩ :=
        select_visit plan hr ha.rootOnTop (fun hroot => absurd hroot ha.handle_ne_root) hsight htop
          hselect hfill
      have hstanding : us = [] ∨ t.handle ∈ us.map NodeTree.handle := by
        have hlive := (hr.seated.held t (List.mem_singleton_self t)).get?_handle
        rw [hhandles, ← List.map_eq_nil_iff (f := NodeTree.handle), hhandles]
        exact (mem_standing hlive (c.execute ev).1).imp_left And.right
      have hplace := Shape.place_of_some plan
        (show b.setOf? t.record.unlinked = some set from htop) hselect (t.kids.map NodeTree.shape) c
      rw [← t.shape_eq] at hplace
      refine ⟨s', us, (s, .place id t.handle) :: log, ?_, hus, hstanding, hshapes, hchanges⟩
      rw [hplace]
      exact hv

/-- Every tree can be filled. -/
theorem fillable (t : NodeTree) : Fillable plan b F t :=
  fill_visit fun k _ _ => placeable k

/-- A tree is placed in place also at the root, which does not select. -/
theorem place_visit (hplan : plan.inPlace = true) (hr : Ready b F s id c home [t])
    (ha : s.document.Away t.kids) (hroot : t.handle = Document.root → (t.sketch b).selects = false)
    (hsight : Sighted b F t) :
    ∃ s' us log, Visit plan F s s' id
        (Sketch.place plan.templates.idAttribute (t.sketch b) c).2 home [t] us
        [.place id t.handle] log ∧
      (∀ u ∈ us, Sighted b F u ∧ u.record.isElement = t.record.isElement) ∧
      (us = [] ∨ t.handle ∈ us.map NodeTree.handle) ∧
      us.map (NodeTree.sketch b) =
        (Sketch.place plan.templates.idAttribute (t.sketch b) c).1 := by
  have hplaced : ∃ s' us log, Visit plan F s s' id (t.shape.place plan b c).context home [t] us
        [.place id t.handle] log ∧
      (∀ u ∈ us, Sighted b F u ∧ u.record.isElement = t.record.isElement) ∧
      (us = [] ∨ t.handle ∈ us.map NodeTree.handle) ∧
      us.map NodeTree.shape = (t.shape.place plan b c).value ∧
      (home ≠ none → s'.document.mutations =
        s.document.mutations + (t.shape.place plan b c).changes) := by
    by_cases htop : t.handle = Document.root
    · obtain ⟨set, hset⟩ := hsight.exists_set
      have hselect : set.select? = none := by
        have hselects := hroot htop
        rw [NodeTree.sketch_eq_node hset] at hselects
        simpa [Sketch.selects] using hselects
      exact place_visit_of_none plan hr ha hsight hset hselect (fillable t)
    · obtain ⟨h, n, ks⟩ := t
      refine placeable _ hr ⟨fun hmem => ?_, ha.2⟩ hsight
      simp only [NodeTree.handlesOf_cons, NodeTree.handles_node, NodeTree.handlesOf_nil,
        List.append_nil, List.mem_cons] at hmem
      rcases hmem with hmem | hmem
      · exact htop hmem.symm
      · exact ha.1 hmem
  obtain ⟨s', us, log, hv, hus, hmem, hshapes, -⟩ := hplaced
  have hsketch := Shape.sketch_place (b := b) hplan t.shape c
  rw [NodeTree.sketch_shape] at hsketch
  rw [← hsketch]
  exact ⟨s', us, log, hv, hus, hmem, NodeTree.map_sketch_of_map_shape hshapes⟩

end TreeTemplate.Stage
