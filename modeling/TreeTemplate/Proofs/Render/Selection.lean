import TreeTemplate.Proofs.Context.Pool
import TreeTemplate.Proofs.Render.Shape

/-!
What selecting a value comes to.  The node gives way to what stands for it, and what is to be filled
gets a context of its own, which nothing else uses (`Stage.select_spec`).
-/

namespace TreeTemplate

/-! ### Contexts for list items -/

/-- A node that is to be filled in a context of its own. -/
structure Job where
  id : ContextId
  node : Handle
  context : Context

def Job.steps (j : Job) : List Step :=
  [.fill j.id j.node, .release j.id]

namespace Pool

variable {p p₁ p' : Pool} {parent : ContextId} {c : Context} {jobs : List Job} {F : Registry → Prop}

/-- The pool `p'` is `p` with the contexts of the jobs under fresh handles. -/
structure Supplied (F : Registry → Prop) (p p' : Pool) (jobs : List Job) : Prop where
  fresh : ∀ j ∈ jobs, p.get? j.id = none
  nodup : (jobs.map Job.id).Nodup
  live : ∀ j ∈ jobs, p'.get? j.id = some j.context
  frame : ∀ x, x ∉ jobs.map Job.id → p'.get? x = p.get? x
  sound : p'.Sound
  uniform : p.Uniform F → p'.Uniform F
  functions_eq : p'.functions = p.functions

namespace Supplied

theorem nil (hs : p.Sound) : Supplied F p p [] :=
  ⟨by simp, List.nodup_nil, by simp, fun _ _ => rfl, hs, id, rfl⟩

/-- No job has a context that was live before. -/
theorem not_mem {id : ContextId} (h : Supplied F p p' jobs) (hc : p.get? id = some c) :
    id ∉ jobs.map Job.id := by
  intro hmem
  obtain ⟨j, hj, rfl⟩ := List.mem_map.mp hmem
  simp [h.fresh j hj] at hc

theorem cons {j : Job} (ho : Opened p j.id j.context p₁) (h : Supplied F p₁ p' jobs) :
    Supplied F p p' (j :: jobs) := by
  have hj := h.not_mem ho.get?_self
  refine ⟨fun k hk => ?_, ?_, fun k hk => ?_, fun x hx => ?_, h.sound,
    fun hu => h.uniform (ho.uniform F hu), h.functions_eq.trans ho.functions_eq⟩
  · rcases List.mem_cons.mp hk with rfl | hk
    · exact ho.fresh
    · have hfresh := h.fresh k hk
      rw [ho.get?_eq] at hfresh
      split at hfresh
      · simp at hfresh
      · exact hfresh
  · rw [List.map_cons, List.nodup_cons]
    exact ⟨hj, h.nodup⟩
  · rcases List.mem_cons.mp hk with rfl | hk
    · rw [h.frame _ hj, ho.get?_eq, if_pos rfl]
    · exact h.live k hk
  · rw [List.map_cons, List.mem_cons, not_or] at hx
    rw [h.frame x hx.2, ho.get?_eq, if_neg hx.1]

end Supplied

end Pool

/-- The value is a list without an item for the node, which goes. -/
def Node.Surplus (n : Node) (v : Value) : Prop :=
  ∃ items, v = .array items ∧ ListChange.of n.marker? items.length = .discard

namespace Stage

open Document (Regrown)
open NodeTree (Sighted)
open Pool (Supplied)

variable {s : Stage} {p : Pool} {parent id : ContextId} {c : Context} {F : Registry → Prop}
  {b : BindingCache} {home : Option Handle} {t : NodeTree} {h : Handle} {n : Node}
  {ks : List NodeTree} {set : BindingSet}

/-- Scheduling list items gives each of the nodes that there is an item for a context for it. -/
theorem schedule_spec (hs : p.Sound) (hc : p.get? parent = some c) (count index : Nat)
    (nodes : List Handle) (items : List Value) :
    ∃ jobs : List Job,
      (schedule parent count index nodes items p).1 = jobs.flatMap Job.steps ∧
      jobs.map Job.node = nodes.take items.length ∧
      jobs.map Job.context =
        (Item.enumerate count index (items.take nodes.length)).map c.within ∧
      Supplied F p (schedule parent count index nodes items p).2 jobs := by
  induction nodes generalizing index items p with
  | nil => exact ⟨[], by simp [schedule], by simp, by simp [Item.enumerate], .nil hs⟩
  | cons h nodes ih =>
    cases items with
    | nil => exact ⟨[], by simp [schedule], by simp, by simp [Item.enumerate], .nil hs⟩
    | cons v items =>
      have ho := Pool.createItem_opened hs hc v index count
      have hc' : (p.createItem parent v index count).2.get? parent = some c := by
        rw [ho.get?_eq, if_neg, hc]
        intro hparent
        have hfresh := ho.fresh
        simp [← hparent, hc] at hfresh
      obtain ⟨jobs, hsteps, hnodes, hcontexts, hsupplied⟩ := ih ho.sound hc' (index + 1) items
      refine ⟨⟨(p.createItem parent v index count).1, h, c.item v index count⟩ :: jobs, ?_, ?_, ?_,
        .cons ho hsupplied⟩
      · rw [schedule]
        simp only [hsteps, List.flatMap_cons]
        rfl
      · rw [List.map_cons, hnodes]
        rfl
      · rw [List.map_cons, hcontexts]
        rfl

/-! ### Giving way -/

/-- The nodes that stand in the place of a node that selects a value. -/
def standing (s : Stage) (node : Handle) (v : Value) : List Handle :=
  match v with
  | .array items =>
    match ListChange.of (s.document.node node).marker? items.length with
    | .conceal => [node]
    | change => (change.apply node items.length s.document).1.nodes
  | _ => [node]

/-- On the stage `s'` the trees `us` stand in the place of a tree that selected `v` in the context `c`,
and the jobs are to fill them. -/
structure Selected (b : BindingCache) (F : Registry → Prop) (s s' : Stage) (home : Option Handle)
    (t : NodeTree) (c : Context) (v : Value) (us : List NodeTree) (jobs : List Job) : Prop where
  regrown : Regrown s.document s'.document home [t] us
  tidy : s'.document.Tidy
  bindings : s'.bindings = s.bindings
  pool : Supplied F s.pool s'.pool jobs
  handles : us.map NodeTree.handle = s.standing t.handle v
  sighted : ∀ u ∈ us, Sighted b F u
  shapes : us.map NodeTree.shape =
    (t.record.unlinked.select v).map fun p => .node p.1 (t.kids.map NodeTree.shape)
  changes : home ≠ none → s'.document.mutations = s.document.mutations + t.record.selectChanges v
  jobs : (jobs = [] ∧ ∀ p ∈ t.record.face.select v, p.2 = none) ∨
    jobs.map Job.node = us.map NodeTree.handle ∧
      ∃ items : List Item, (t.record.face.select v).map Prod.snd = items.map some ∧
        jobs.map Job.context = items.map c.within

/-- A tree that stays where it is, shown or hidden. -/
theorem selected_shown {v : Value} {i? : Option Item} {jobs : List Job} {s' : Stage} {visible : Bool}
    (hs : s.document.Seated home [t]) (ht : s.document.Tidy) (hsight : Sighted b F t)
    (hdocument : s'.document = s.document.setVisible t.handle visible)
    (hbindings : s'.bindings = s.bindings) (hpool : Supplied F s.pool s'.pool jobs)
    (hstanding : s.standing t.handle v = [t.handle])
    (hselect : ∀ f : Face, f.select v = [({ f with visible := visible }, i?)])
    (hchanges : t.record.selectChanges v = t.record.changes [.visible visible])
    (hjobs : (jobs = [] ∧ i? = none) ∨ jobs.map Job.node = [t.handle] ∧
      ∃ i, i? = some i ∧ jobs.map Job.context = [c.within i]) :
    Selected b F s s' home t c v [t.shown visible] jobs := by
  have htop := (hs.held t (List.mem_singleton_self t)).get?_handle
  obtain ⟨htidy, hregrown⟩ := Document.setVisible_shown hs ht visible
  refine ⟨by rwa [hdocument], by rwa [hdocument], hbindings, hpool, by simp [hstanding], ?_,
    ?_, fun _ => ?_, ?_⟩
  · intro u hu
    rw [List.mem_singleton.mp hu]
    exact hsight.shown visible
  · rw [Node.select, hselect, List.map_singleton, List.map_singleton, List.map_singleton,
      NodeTree.shape_shown]
    rfl
  · rw [hdocument, hchanges]
    exact Document.mutations_edited htop [.visible visible]
  · rw [hselect]
    rcases hjobs with ⟨hjobs, hi⟩ | ⟨hnodes, i, hi, hcontexts⟩
    · exact Or.inl ⟨hjobs, by simp [hi]⟩
    · exact Or.inr ⟨by simpa using hnodes, [i], by simp [hi], by simpa using hcontexts⟩

/-- A single value shows the node and fills it once. -/
theorem selected_single {v : Value} (hs : s.document.Seated home [t]) (ht : s.document.Tidy)
    (hsight : Sighted b F t) (hp : s.pool.Sound) (hc : s.pool.get? id = some c)
    (hselected : s.select id t.handle v =
      (s.edit fun d => d.setVisible t.handle true).queueItems id 1 0 [t.handle] [v])
    (hstanding : s.standing t.handle v = [t.handle])
    (hselect : ∀ f : Face, f.select v = [({ f with visible := true }, some ⟨v, 0, 1⟩)])
    (hchanges : t.record.selectChanges v = t.record.changes [.visible true]) :
    ∃ us jobs, (s.select id t.handle v).2.reverse.flatten = jobs.flatMap Job.steps ∧
      Selected b F s (s.select id t.handle v).1 home t c v us jobs := by
  obtain ⟨jobs, hsteps, hnodes, hcontexts, hsupplied⟩ :=
    schedule_spec (F := F) hp hc 1 0 [t.handle] [v]
  rw [hselected]
  refine ⟨[t.shown true], jobs, by simpa [queueItems, edit] using hsteps, ?_⟩
  exact selected_shown hs ht hsight rfl rfl hsupplied hstanding hselect hchanges
    (Or.inr ⟨hnodes, ⟨v, 0, 1⟩, rfl, by simpa [Item.enumerate] using hcontexts⟩)

/-- A list that leaves nothing to fill. -/
theorem queueItems_nil (s : Stage) (id : ContextId) (count index : Nat) (items : List Value) :
    s.queueItems id count index [] items = (s, [[]]) := by
  simp [queueItems, schedule]

/-- What a list makes of a node below another one counts the same wherever the node is. -/
theorem mutations_selected {items : List Value} {change : ListChange}
    (hs : s.document.Seated home [t]) (ht : s.document.Tidy) (hhome : home ≠ none)
    (hchange : ListChange.of t.record.marker? items.length = change)
    (hstay : t.handle = Document.root → change ≠ .discard) :
    (change.apply t.handle items.length s.document).2.mutations =
      s.document.mutations + t.record.selectChanges (.array items) := by
  obtain ⟨p, rfl⟩ := Option.ne_none_iff_exists'.mp hhome
  subst hchange
  exact ListChange.mutations_apply hs ht hstay

/-- An empty list leaves an instance behind, hidden. -/
theorem selected_conceal {items : List Value} (hs : s.document.Seated home [t])
    (ht : s.document.Tidy) (hsight : Sighted b F t) (hp : s.pool.Sound)
    (hchange : ListChange.of t.record.marker? items.length = .conceal) :
    Selected b F s
      { s with document := (ListChange.conceal.apply t.handle items.length s.document).2 } home t c
      (.array items) [(t.marked (.ofIndex 0 1)).shown false] [] := by
  have htop := (hs.held t (List.mem_singleton_self t)).get?_handle
  have hselect : t.record.face.select (.array items) =
      [({ t.record.face with marker? := some (.ofIndex 0 1), visible := false }, none)] := by
    rw [Face.select, show t.record.face.marker? = t.record.marker? from rfl, hchange]
  obtain ⟨htidy, hregrown⟩ := ListChange.conceal_regrown items.length hs ht
  refine ⟨hregrown, htidy, rfl, .nil hp, ?_, ?_, ?_, fun hhome => ?_, Or.inl ⟨rfl, ?_⟩⟩
  · simp [standing, Document.node_of_get? htop, hchange]
  · intro u hu
    rw [List.mem_singleton.mp hu]
    exact (hsight.marked _).shown false
  · have hmarked := NodeTree.shape_marked (.ofIndex 0 1) t
    rw [List.map_singleton, NodeTree.shape_shown, ← NodeTree.record_shape, ← NodeTree.kids_shape,
      hmarked, Node.select, show t.record.unlinked.face = t.record.face from rfl, hselect]
    rfl
  · exact mutations_selected hs ht hhome hchange fun _ => by simp
  · intro p hp
    rw [hselect] at hp
    rw [List.mem_singleton.mp hp]

/-- A node without an item goes. -/
theorem selected_discard {items : List Value} (hs : s.document.Seated home [t])
    (ht : s.document.Tidy) (hstay : t.handle = Document.root → ¬ t.record.Surplus (.array items))
    (hp : s.pool.Sound) (hchange : ListChange.of t.record.marker? items.length = .discard) :
    Selected b F s
      { s with document := (ListChange.discard.apply t.handle items.length s.document).2 } home t c
      (.array items) [] [] := by
  have htop := (hs.held t (List.mem_singleton_self t)).get?_handle
  have hselect : t.record.face.select (.array items) = [] := by
    rw [Face.select, show t.record.face.marker? = t.record.marker? from rfl, hchange]
  have hroot : t.handle ≠ Document.root := fun htop => hstay htop ⟨items, rfl, hchange⟩
  obtain ⟨htidy, hregrown⟩ := Document.remove_regrown hs ht hroot
  refine ⟨hregrown, htidy, rfl, .nil hp, ?_, by simp, ?_, fun hhome => ?_, Or.inl ⟨rfl, ?_⟩⟩
  · simp [standing, Document.node_of_get? htop, hchange, ListChange.apply]
  · rw [Node.select, show t.record.unlinked.face = t.record.face from rfl, hselect]
    rfl
  · exact mutations_selected hs ht hhome hchange fun htop => absurd htop hroot
  · intro p hp
    simp [hselect] at hp

/-- Instances are shown and get their items to be filled with. -/
theorem selected_instances {items : List Value} {change : ListChange}
    (hs : s.document.Seated home [t]) (ht : s.document.Tidy) (hsight : Sighted b F t)
    (hp : s.pool.Sound) (hc : s.pool.get? id = some c)
    (hchange : ListChange.of t.record.marker? items.length = change)
    (hconceal : change ≠ .conceal) (hdiscard : change ≠ .discard) :
    ∃ us jobs, (s.selectList id t.handle items).2.reverse.flatten = jobs.flatMap Job.steps ∧
      Selected b F s (s.selectList id t.handle items).1 home t c (.array items) us jobs := by
  have htop := (hs.held t (List.mem_singleton_self t)).get?_handle
  have hmarker : (s.document.node t.handle).marker? = t.record.marker? := by
    rw [Document.node_of_get? htop]
  have hextent := ListChange.extent_le t.record.marker? items.length
  rw [hchange] at hextent
  obtain ⟨htidy, us, hlength, halike, hinstances, hregrown⟩ :=
    ListChange.apply_regrown items.length hs ht hconceal hdiscard
  have hle : (us.map NodeTree.handle).length ≤
      (items.drop (change.extent items.length).1).length := by
    rw [List.length_map, List.length_drop, hlength]
    omega
  obtain ⟨jobs, hsteps, hnodes, hcontexts, hsupplied⟩ := schedule_spec (F := F) hp hc items.length
    (change.extent items.length).1 (us.map NodeTree.handle)
    (items.drop (change.extent items.length).1)
  rw [List.length_map, hlength] at hcontexts
  have hselect : t.record.face.select (.array items) =
      (Item.enumerate items.length (change.extent items.length).1
        ((items.drop (change.extent items.length).1).take (change.extent items.length).2)).map
          fun i => (t.record.face.instanceAt i, some i) := by
    rw [Face.select, show t.record.face.marker? = t.record.marker? from rfl, hchange]
    cases change <;> simp_all
  have hlist : s.selectList id t.handle items =
      ({ s with document := (change.apply t.handle items.length s.document).2 } : Stage).queueItems id
        items.length (change.extent items.length).1 (us.map NodeTree.handle)
        (items.drop (change.extent items.length).1) := by
    simp only [selectList, hmarker, hchange, hinstances]
  rw [hlist]
  refine ⟨NodeTree.stamped items.length (change.extent items.length).1 us, jobs,
    by simpa [queueItems] using hsteps, ⟨hregrown, htidy, rfl, hsupplied, ?_, fun u hu => ?_, ?_,
      fun hhome => ?_, Or.inr ⟨?_, _, ?_, hcontexts⟩⟩⟩
  · rw [NodeTree.map_handle_stamped, standing, hmarker, hchange]
    cases change <;> simp_all
  · obtain ⟨v, hv, m, rfl⟩ := NodeTree.exists_of_mem_stamped hu
    exact ((halike v hv).sighted (hsight.shown true)).marked m
  · have hshown : ∀ u ∈ us, u.shape =
        .node { t.record.unlinked with visible := true } (t.kids.map NodeTree.shape) :=
      fun u hu => by rw [(halike u hu).shape_eq, NodeTree.shape_shown]
    rw [NodeTree.map_shape_stamped hshown, Node.select,
      show t.record.unlinked.face = t.record.face from rfl, hselect, List.map_map, List.map_map]
    · rfl
    · rw [hlength, List.length_take, List.length_drop]
      omega
  · exact mutations_selected hs ht hhome hchange fun _ => hdiscard
  · rw [hnodes, List.take_of_length_le hle, NodeTree.map_handle_stamped]
  · rw [hselect, List.map_map]
    rfl

/-- What stands for a node that selects a value takes its place, and what is to be filled has a context
for it. -/
theorem select_spec {v : Value} (hs : s.document.Seated home [t]) (ht : s.document.Tidy)
    (hstay : t.handle = Document.root → ¬ t.record.Surplus v) (hsight : Sighted b F t)
    (hp : s.pool.Sound) (hc : s.pool.get? id = some c) :
    ∃ us jobs, (s.select id t.handle v).2.reverse.flatten = jobs.flatMap Job.steps ∧
      Selected b F s (s.select id t.handle v).1 home t c v us jobs := by
  cases v with
  | null =>
    exact ⟨[t.shown false], [], rfl, selected_shown hs ht hsight rfl rfl (.nil hp) rfl
      (fun _ => rfl) rfl (Or.inl ⟨rfl, rfl⟩)⟩
  | bool _ | number _ | string _ | object _ =>
    exact selected_single hs ht hsight hp hc rfl rfl (fun _ => rfl) rfl
  | array items =>
    have htop := (hs.held t (List.mem_singleton_self t)).get?_handle
    have hmarker : (s.document.node t.handle).marker? = t.record.marker? := by
      rw [Document.node_of_get? htop]
    rw [select]
    cases hchange : ListChange.of t.record.marker? items.length with
    | conceal =>
      have hlist : s.selectList id t.handle items =
          ({ s with document := (ListChange.conceal.apply t.handle items.length s.document).2 },
            [[]]) := by
        simp only [selectList, hmarker, hchange]
        exact queueItems_nil _ id items.length 0 _
      rw [hlist]
      exact ⟨_, [], rfl, selected_conceal hs ht hsight hp hchange⟩
    | discard =>
      have hlist : s.selectList id t.handle items =
          ({ s with document := (ListChange.discard.apply t.handle items.length s.document).2 },
            [[]]) := by
        simp only [selectList, hmarker, hchange]
        exact queueItems_nil _ id items.length 0 _
      rw [hlist]
      exact ⟨_, [], rfl, selected_discard hs ht hstay hp hchange⟩
    | spread => exact selected_instances hs ht hsight hp hc hchange (by simp) (by simp)
    | grow index => exact selected_instances hs ht hsight hp hc hchange (by simp) (by simp)
    | keep index => exact selected_instances hs ht hsight hp hc hchange (by simp) (by simp)

/-- The root stays where it is, also if a list has no item for it. -/
theorem select_root {v : Value} (h : (s.document.node Document.root).Surplus v)
    (hroot : s.document.contains Document.root = true) (id : ContextId) :
    s.select id Document.root v = (s, [[]]) := by
  obtain ⟨items, rfl, hchange⟩ := h
  obtain ⟨r, hr⟩ := Option.isSome_iff_exists.mp hroot
  have hstays : s.document.remove Document.root = s.document := by
    simp only [Document.remove, hr, if_true]
  simp only [select, selectList, hchange, ListChange.apply, hstays]
  exact queueItems_nil s id items.length 0 _

end Stage

end TreeTemplate
