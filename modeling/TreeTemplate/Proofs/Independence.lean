import TreeTemplate.Proofs.Document.Renumbering
import TreeTemplate.Proofs.Render.Family
import TreeTemplate.Proofs.Termination

/-!
The instances of a list do not influence each other.  What is filled in the context of an item is below
its own instance, and its context is its own, so the instances of a list may be filled in any order: the
documents are the same up to the numbering of their nodes, and the context that the list was selected in
is as it was (`Engine.instances_independent`).
-/

namespace TreeTemplate

namespace Stage

open Document (Renumbered)
open NodeTree (handlesOf)

variable {plan : Plan} {b : BindingCache} {F : Registry → Prop} {s s₁ s₂ : Stage}
  {home : Option Handle} {us us₁ us₂ : List NodeTree} {jobs xs ys : List Job}
  {log₁ log₂ : List (Stage × Step)}

/-- The same jobs done in another order make the same document up to the numbering of its nodes. -/
theorem Done.renumbered (hs : s.document.Seated home us) (hd : s.document.Forest)
    (ha : s.document.RootOnTop us) (hnodes : (xs.map Job.node).Nodup) (hperm : xs.Perm ys)
    (h₁ : Done plan b F s s₁ home us us₁ xs log₁) (h₂ : Done plan b F s s₂ home us us₂ ys log₂) :
    ∃ ρ, Renumbered ρ s₁.document s₂.document := by
  have hworked : us.map (worked plan b xs) = us.map (worked plan b ys) :=
    List.map_congr_left fun u _ => worked_perm hperm hnodes u
  have hforest := hd.regrown hs h₁.regrown h₁.tidy fun hmem => h₁.handles ▸ ha.top hmem
  refine h₁.regrown.renumbered hs h₂.regrown ?_ (h₂.handles.trans h₁.handles.symm) hforest
    (h₁.regrown.rootOnTop hs ha (h₁.handles ▸ id)).top ?_
  · rw [h₁.shapes, h₂.shapes, hworked]
  · rw [h₁.changes, h₂.changes, hworked]

/-- Jobs that may be done in any order on a stage: the documents that come of it are the same up to the
numbering of their nodes, and all other contexts stay as they are. -/
def Independent (plan : Plan) (s : Stage) (jobs : List Job) : Prop :=
  ∀ xs ys : List Job, xs.Nodup → xs ⊆ jobs → xs.Perm ys → ∃ s₁ s₂ log₁ log₂,
    Runs (act plan) s (xs.flatMap Job.steps) log₁ s₁ ∧
    Runs (act plan) s (ys.flatMap Job.steps) log₂ s₂ ∧
    (∃ ρ, Renumbered ρ s₁.document s₂.document) ∧
    ∀ id, id ∉ xs.map Job.id →
      s₁.pool.get? id = s.pool.get? id ∧ s₂.pool.get? id = s.pool.get? id

theorem independent_nil (plan : Plan) (s : Stage) : Independent plan s [] := by
  intro xs ys _ hsub hperm
  obtain rfl := List.subset_nil.mp hsub
  obtain rfl := hperm.nil_eq
  exact ⟨s, s, [], [], .nil s, .nil s, ⟨id, .refl s.document⟩, fun _ _ => ⟨rfl, rfl⟩⟩

/-- The jobs for what stands in the place of a node that selects a value are independent. -/
theorem Selected.independent {t : NodeTree} {c : Context} {v : Value}
    (hsel : Selected b F s s₁ home t c v us jobs) (plan : Plan) (hb : s.bindings = b)
    (hs : s.document.Seated home [t]) (ha : s.document.RootOnTop [t])
    (hstay : t.handle = Document.root → ¬ t.record.Surplus v) (hfunctions : F c.functions)
    (hd : s₁.document.Forest) : Independent plan s₁ jobs := by
  intro xs ys hnodup hsub hperm
  have hseated := hsel.regrown.seated hs
  have hfill : ∀ u : NodeTree, u.size = t.size → Fillable plan b F u := fun u _ => fillable u
  obtain ⟨s₂, us₂, log₂, h₂⟩ := hsel.done hfill hb hs ha hstay hfunctions hnodup hsub
  obtain ⟨s₃, us₃, log₃, h₃⟩ := hsel.done hfill hb hs ha hstay hfunctions
    (hperm.nodup_iff.mp hnodup) fun j hj => hsub (hperm.mem_iff.mpr hj)
  have hxs : (xs.map Job.node).Nodup := hnodup.map_on fun j hj k hk =>
    List.inj_on_of_nodup_map hsel.node_mem.2 (hsub hj) (hsub hk)
  have hrenumbered := Done.renumbered hseated hd (hsel.rootOnTop hs ha hstay) hxs hperm h₂ h₃
  refine ⟨s₂, s₃, log₂, log₃, h₂.runs, h₃.runs, hrenumbered, fun id hid => ⟨?_, ?_⟩⟩
  · rw [h₂.get?_eq, if_neg hid]
  · rw [h₃.get?_eq, if_neg fun hmem => hid ((hperm.map Job.id).mem_iff.mpr hmem)]

/-- The instances of a list at a self-contained node have contexts of their own, and are independent. -/
theorem placeNode_independent {id : ContextId} {x : Handle} {c : Context} {items : List Value}
    (plan : Plan) (hd : s.document.Forest) (hp : s.pool.Sound) (hc : s.pool.get? id = some c)
    (hx : s.SelfContained x) (hlist : s.selected? id x = some (.array items)) :
    ∃ jobs : List Job, (s.placeNode plan id x).2 = [jobs.flatMap Job.steps] ∧
      (jobs.map Job.id).Nodup ∧ (jobs.map Job.node).Nodup ∧ id ∉ jobs.map Job.id ∧
      (s.placeNode plan id x).1.pool.get? id ≠ none ∧
      Independent plan (s.placeNode plan id x).1 jobs := by
  obtain ⟨t, ht, rfl, hsight⟩ := hx
  have hlive := ht.get?_handle
  obtain ⟨ks, hs⟩ := hd.seated hlive
  rw [ht.unique (hs.held _ (List.mem_singleton_self _)) rfl] at hs
  obtain ⟨set, htop⟩ := hsight.exists_set
  have hset : s.bindings.setOf? (s.document.node t.handle) = some set := by
    rw [Document.node_of_get? hlive, htop]
  rw [selected?, bindingsOf_eq hset] at hlist
  obtain ⟨ev, hselect, hvalue⟩ := Option.bind_eq_some_iff.mp hlist
  have hvalue : (c.execute ev).1 = .array items := by
    simpa [execute?, hc] using hvalue
  have hput := Pool.Turned.put (F := fun _ => True) hp hc (c.execute ev).2
  have hready : Ready s.bindings (fun _ => True) s id c t.record.parent? [t] :=
    ⟨hs, hd.tidy, rfl, hp, hc, trivial⟩
  rcases placeNode_cases plan hready hsight htop hselect with
    hstays | ⟨hstay, us, jobs, hsteps, hsel⟩
  · rw [hstays]
    refine ⟨[], rfl, List.nodup_nil, List.nodup_nil, List.not_mem_nil, ?_, independent_nil plan _⟩
    simp [hput.get?_self]
  · have hranged : Ranged s [.place id t.handle] := ⟨hd, .single hlive⟩
    have hforest : (s.placeNode plan id t.handle).1.document.Forest := (hranged.act plan).forest
    obtain ⟨queue, hqueue⟩ : ∃ queue, (s.placeNode plan id t.handle).2 = [queue] := by
      rw [placeNode_of_some hset (include_of_sighted hsight htop) hselect hc, hvalue]
      exact ⟨_, rfl⟩
    have hother := hsel.pool.not_mem hput.get?_self
    refine ⟨jobs, ?_, hsel.pool.nodup, hsel.node_mem.2, hother, ?_,
      hsel.independent plan rfl hs (hd.rootOnTop hs) hstay trivial hforest⟩
    · rw [hqueue] at hsteps ⊢
      simpa using hsteps
    · simp [hsel.pool.frame id hother, hput.get?_self]

end Stage

namespace Engine

variable {e : Engine} {s₀ s : Stage} {data : Value} {parent? : Option Value}
  {node x : Handle} {inPlace : Bool} {log : List (Stage × Step)} {w w' : WorkStack Step}
  {context : ContextId} {items : List Value}

/-- The instances of a list do not influence each other.  Without includes below the node that is
rendered, or below the list itself, their jobs may be done in any order, and all that leaves the context
of the list as it is. -/
theorem instances_independent (he : e.Reached) (hs₀ : e.Prepares s₀)
    (hnode : s₀.document.contains node = true)
    (h : e.Reaches s₀ data parent? node inPlace log w s)
    (hnext : w.next = (some (.place context x), w'))
    (hfree : (∀ h ∈ s₀.document.subtree node, (s₀.bindingsUnder node h).include? = none) ∨
      s.SelfContained x)
    (hlist : s.selected? context x = some (.array items)) :
    ∃ jobs : List Job,
      (Stage.act (e.plan inPlace) s (.place context x)).2 = [jobs.flatMap Job.steps] ∧
      (jobs.map Job.id).Nodup ∧ (jobs.map Job.node).Nodup ∧ context ∉ jobs.map Job.id ∧
      (Stage.act (e.plan inPlace) s (.place context x)).1.pool.get? context ≠ none ∧
      Stage.Independent (e.plan inPlace) (Stage.act (e.plan inPlace) s (.place context x)).1 jobs := by
  obtain ⟨n, hn⟩ := Document.exists_of_contains hnode
  have hp := hs₀.pool_sound he
  obtain ⟨hbooks, -, hclean⟩ := h.books hp
  obtain ⟨l, rest, -, -, -, hlive, -⟩ := (h.inOrder hs₀.forest hn hp).taken _ _ hnext
  obtain ⟨c, hc⟩ := Option.ne_none_iff_exists'.mp hlive
  have hcontained : s.SelfContained x := by
    rcases hfree with hfree | hcontained
    · obtain ⟨hpending, -⟩ := WorkStack.pending_of_next hclean hnext
      exact (h.enclosed hs₀.forest (hs₀.bindings_sound he) hp hn hfree).contained x
        (List.mem_filterMap.mpr ⟨.place context x, hpending ▸ List.mem_cons_self, rfl⟩)
    · exact hcontained
  obtain ⟨hranged, -⟩ := h.ranged hs₀.forest hn
  exact Stage.placeNode_independent (e.plan inPlace) hranged.forest hbooks.sound hc hcontained hlist

/-- A list of two items that each set a variable. -/
theorem instances_independent_pair :
    ∃ d s context items jobs, Document.ofMarkup
        "<ul><li data-jst-select=\"items\" data-jst-vars=\"n = $index\"></li></ul>" = .ok d ∧
      (new 0 .default).begun ((new 0 .default).stage d)
        (.object [("items", .array [.ofNat 1, .ofNat 2])]) none ⟨2, 0⟩ = s ∧
      (new 0 .default).contextOn ((new 0 .default).stage d)
        (.object [("items", .array [.ofNat 1, .ofNat 2])]) none = context ∧
      s.selected? context ⟨2, 0⟩ = some (.array items) ∧
      (Stage.act ((new 0 .default).plan true) s (.place context ⟨2, 0⟩)).2 =
        [jobs.flatMap Job.steps] ∧
      jobs.length = 2 ∧
      Stage.Independent ((new 0 .default).plan true)
        (Stage.act ((new 0 .default).plan true) s (.place context ⟨2, 0⟩)).1 jobs := by
  have hparse : parseMarkup
      "<ul><li data-jst-select=\"items\" data-jst-vars=\"n = $index\"></li></ul>" =
      .ok [.element "ul" [] [.element "li"
        [("data-jst-select", "items"), ("data-jst-vars", "n = $index")] []]] := by
    decide +kernel
  have hd := Document.ofMarkup_of_parseMarkup hparse
  generalize hdoc : Document.plantAll _ _ _ = d at hd
  have hnode : d.contains ⟨2, 0⟩ = true := by
    subst hdoc
    decide +kernel
  have hfree : ∀ h ∈ d.subtree ⟨2, 0⟩,
      (((new 0 .default).stage d).bindingsUnder ⟨2, 0⟩ h).include? = none := by
    subst hdoc
    decide +kernel
  have hlist : (((new 0 .default).begun ((new 0 .default).stage d)
        (.object [("items", .array [.ofNat 1, .ofNat 2])]) none ⟨2, 0⟩).selected?
      ((new 0 .default).contextOn ((new 0 .default).stage d)
        (.object [("items", .array [.ofNat 1, .ofNat 2])]) none) ⟨2, 0⟩).any Value.isArray = true := by
    subst hdoc
    decide +kernel
  have hcount : (Stage.act ((new 0 .default).plan true)
      ((new 0 .default).begun ((new 0 .default).stage d)
        (.object [("items", .array [.ofNat 1, .ofNat 2])]) none ⟨2, 0⟩)
      ((new 0 .default).firstStep ((new 0 .default).stage d)
        (.object [("items", .array [.ofNat 1, .ofNat 2])]) none ⟨2, 0⟩)).2.flatten.length = 4 := by
    subst hdoc
    decide +kernel
  have hprepares : (new 0 .default).Prepares ((new 0 .default).stage d) :=
    .document (Document.Reached.ofMarkup hd).forest.wellFormed
  obtain ⟨v, hv, harray⟩ := (Option.any_eq_true _ _).mp hlist
  cases v with
  | array items =>
    obtain ⟨jobs, hqueue, -, -, -, -, hindependent⟩ :=
      instances_independent (.new 0 .default) hprepares hnode .start rfl (Or.inl hfree) hv
    rw [firstStep, hqueue] at hcount
    have hsteps : jobs.length * 2 = 4 := by simpa [Job.steps, List.length_flatMap] using hcount
    have htwo : jobs.length = 2 := by omega
    exact ⟨d, _, _, items, jobs, hd, rfl, rfl, hv, hqueue, htwo, hindependent⟩
  | null | bool _ | number _ | string _ | object _ => cases harray

end Engine

end TreeTemplate
