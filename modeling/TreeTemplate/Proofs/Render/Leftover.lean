import TreeTemplate.Proofs.Document.Tops
import TreeTemplate.Proofs.Render.Inclusion
import TreeTemplate.Proofs.Render.Naming

/-!
What a render leaves over.  An include node that gives way to a copy of its template stays behind, live and
without a parent, with all that is below it; nothing else that a step does leaves a node without a parent
(`Stage.act_leaves`).  So what is not attached after a render is below such a node
(`Engine.render_leftover`), and it is all attached if no include node gave way.
-/

namespace TreeTemplate

open Document (Sheds Unmoved Regrown root)

variable {d d₁ d₂ : Document} {h x y p : Handle} {n : Node}

namespace Templates

variable {t : Templates}

/-! ### Templates -/

theorem container_sheds (t : Templates) (hd : d.Forest) : Sheds d (t.container d).2 [] := by
  unfold container
  split
  · exact .refl
  · obtain ⟨r, hr, -⟩ := hd.rooted
    obtain ⟨-, hg⟩ := Document.createHiddenContainer_grown hd.tidy hr t.idAttribute t.containerId
    exact hg.sheds fun p hp => ⟨r, Option.some.inj hp ▸ hr⟩

/-- What a loader supplies goes below the root. -/
theorem find_sheds (t : Templates) (hd : d.Forest) (loader? : Option Loader) (reference : String) :
    Sheds d (t.find loader? d reference).document [] := by
  have hcontainer := container_sheds t hd
  refine t.find_keeps (P := fun d' => Sheds d d' []) .refl hcontainer (fun source d₂ happend => ?_)
    loader? reference
  have hfinds := container_finds t hd
  obtain ⟨n, hn⟩ := hfinds.live _ rfl
  obtain ⟨-, us, hg⟩ := Document.appendMarkup_grown hfinds.forest.tidy hn happend
  exact hcontainer.trans_nil (hg.sheds fun p hp => ⟨n, Option.some.inj hp ▸ hn⟩)

/-- A copy of a template has no parent at first. -/
theorem clone_sheds (t : Templates) {s : Scan} (hd : s.document.Forest)
    (hn : s.document.get? h = some n) :
    Sheds s.document (t.clone s h).2.document [(t.clone s h).1] := by
  have hprimed := Scan.prime_unmoved s h
  have hd₁ := hd.unmoved hprimed
  obtain ⟨n₁, hn₁, -⟩ := hprimed.get?_after hn
  obtain ⟨ks, ht⟩ := hd₁.held h n₁ hn₁
  obtain ⟨-, u, hu, -, hg⟩ := Document.deepClone_grown hd₁.tidy ht
  rw [NodeTree.handle_node] at hu hg
  have hcopied := hprimed.sheds.trans_nil (hg.sheds (by simp))
  unfold clone
  dsimp only
  rw [← hu]
  exact hcopied.trans (Document.removeAttribute_unmoved _ u.handle t.idAttribute).sheds

end Templates

namespace Stage

variable {plan : Plan} {s s' : Stage} {context : ContextId} {node : Handle} {st : Step}
  {steps : List Step} {T ys : List Handle}

/-! ### Steps -/

/-- The include nodes that a step displaces by a copy of their template. -/
def displaced (plan : Plan) (s : Stage) : Step → List Handle
  | .place context node =>
    match (s.bindingsOf node).1.include? with
    | none => []
    | some i =>
      match (s.bindingsOf node).2.reference? context i with
      | none => []
      | some (reference, s) => if (s.resolveTemplate plan reference).1.isSome then [node] else []
  | .fill _ _ | .release _ => []

/-- From `d` to `d'` the nodes `T` came to be without a parent, and of the nodes `ys`, which are to be worked
on, none is. -/
structure Leaves (d d' : Document) (T ys : List Handle) : Prop where
  sheds : Sheds d d' T
  held : ∀ y ∈ ys, ¬ d'.Top y

theorem Leaves.after (hu : Unmoved d d₁) (hl : Leaves d₁ d₂ T ys) : Leaves d d₂ T ys :=
  ⟨hu.sheds.trans_nil hl.sheds, hl.held⟩

/-- What comes from below a node that has a parent has one before. -/
theorem Leaves.of_inside (hnode : ¬ d.Top x) (hsheds : Sheds d d₁ [])
    (hinside : ∀ y ∈ ys, d.get? y = none ∨ d.Above x y) : Leaves d d₁ [] ys := by
  refine ⟨hsheds, fun y hy htop => ?_⟩
  have hbefore : d.Top y := by simpa using (hsheds y).mp htop
  rcases hinside y hy with hfresh | habove
  · obtain ⟨m, hm, -⟩ := hbefore
    simp [hfresh] at hm
  · obtain rfl := hbefore.eq_of_above habove
    exact hnode hbefore

theorem resolveTemplate_sheds (plan : Plan) (hd : s.document.Forest) (reference : String) :
    Sheds s.document (s.resolveTemplate plan reference).2.document
      (s.resolveTemplate plan reference).1.toList := by
  have hfinds := Templates.find_finds plan.templates hd plan.loader? reference
  have hsheds := Templates.find_sheds plan.templates hd plan.loader? reference
  have hresolved := resolveTemplate_resolution plan s reference
  generalize s.resolveTemplate plan reference = r at hresolved ⊢
  cases hresolved with
  | missing _ hscan =>
    rw [hscan]
    exact hsheds
  | copied hnode hclone =>
    obtain ⟨n, hn⟩ := hfinds.live _ hnode
    have hcloned := Templates.clone_sheds plan.templates (s := s.sought plan reference) hfinds.forest hn
    rw [hclone] at hcloned
    exact hsheds.trans_nil hcloned

theorem remove_sheds (hd : d.Forest) (hpx : d.ParentOf p x) : Sheds d (d.remove x) [] := by
  have hroot : x ≠ root := by
    rintro rfl
    exact hd.links.not_parentOf_root hpx
  obtain ⟨n, hn, hparent⟩ := hpx
  obtain ⟨ks, hs⟩ := hd.seated hn
  rw [hparent] at hs
  exact (Document.remove_regrown hs hd.tidy hroot).2.sheds hs

/-- An include node stays behind if a copy of its template takes its place. -/
theorem transclude_leaves (hd : s.document.Forest) (hpx : s.document.ParentOf p node)
    (reference : String) :
    Leaves s.document (s.transclude plan context node reference).1.document
      (if (s.resolveTemplate plan reference).1.isSome then [node] else [])
      (targets (s.transclude plan context node reference).2) := by
  obtain ⟨n, hn, hparent⟩ := hpx
  obtain ⟨hd₁, hk, hcopies⟩ := resolveTemplate_copies plan hd reference
  have hsheds := resolveTemplate_sheds plan hd reference
  unfold transclude
  generalize s.resolveTemplate plan reference = r at hd₁ hk hcopies hsheds ⊢
  obtain ⟨copy?, s₁⟩ := r
  obtain ⟨n₁, hn₁, hparent₁⟩ := hk node n trivial hn
  have hpx₁ : s₁.document.ParentOf p node := ⟨n₁, hn₁, hparent₁.trans hparent⟩
  cases copy? with
  | none => exact ⟨hsheds.trans_nil (remove_sheds hd₁ hpx₁), by simp [targets]⟩
  | some copy =>
    have hc := hcopies copy rfl
    have hold : ¬ s.document.Top copy := by
      rintro ⟨m, hm, -⟩
      simp [hc.fresh] at hm
    have hroot : copy ≠ root := fun heq => hold (heq ▸ hd.links.root_top)
    have hne : copy ≠ node := by
      rintro rfl
      simp [hc.fresh] at hn
    have habove := hd.links.not_above_of_fresh hk hc.fresh ⟨n, hn⟩
    have hreplaced : Sheds s.document (s₁.document.replace copy node) [node] := by
      intro y
      rw [hd₁.links.top_replace hc.top hroot hpx₁ habove, hsheds y]
      simp only [Option.toList_some, List.mem_singleton]
      refine or_congr_left ⟨?_, fun hy => ⟨Or.inl hy, fun heq => hold (heq ▸ hy)⟩⟩
      rintro ⟨hy | hy, hnot⟩
      · exact hy
      · exact absurd hy hnot
    refine ⟨hreplaced, fun y hy htop => ?_⟩
    obtain rfl : y = copy := by simpa [targets, Step.node?] using hy
    rcases (hreplaced y).mp htop with hbefore | hnode
    · exact hold hbefore
    · exact hne (List.mem_singleton.mp hnode)

theorem instances_shed (hd : d.Forest) (hpx : d.ParentOf p x) (change : ListChange) (count : Nat) :
    Sheds d (change.apply x count d).2 [] := by
  have hroot : x ≠ root := by
    rintro rfl
    exact hd.links.not_parentOf_root hpx
  obtain ⟨n, hn, hparent⟩ := hpx
  obtain ⟨ks, hs⟩ := hd.seated hn
  rw [hparent] at hs
  obtain ⟨us, hregrown, -⟩ := change.exists_apply_positions count hs hd.tidy hroot
  exact hregrown.sheds hs

theorem select_leaves (hd : s.document.Forest) (hpx : s.document.ParentOf p node)
    (context : ContextId) (v : Value) :
    Leaves s.document (s.select context node v).1.document []
      (targets (s.select context node v).2) := by
  obtain ⟨n, hn, -⟩ := id hpx
  refine .of_inside hpx.not_top ?_ (select_yields hd hn context v).inside
  cases v with
  | array items => exact instances_shed hd hpx _ _
  | null => exact (Document.setVisible_unmoved _ node false).sheds
  | bool _ | number _ | string _ | object _ =>
    exact (Document.setVisible_unmoved _ node true).sheds

/-- Filling a node leaves no other without a parent, be it without one itself. -/
theorem fillNode_leaves (hd : s.document.Forest) (hn : s.document.get? node = some n)
    (plan : Plan) (context : ContextId) :
    Leaves s.document (s.fillNode plan context node).1.document []
      (targets (s.fillNode plan context node).2) := by
  refine ⟨?_, fun y hy => (parentOf_of_mem_fillNode hd hn hy).not_top⟩
  obtain ⟨n₁, hn₁, -⟩ := (bindingsOf_unmoved s node).get?_after hn
  have hedited := fun edits => (bindingsOf_unmoved s node).trans (Document.edited_unmoved hn₁ edits)
  have hfilled := fillNode_filled hn plan context
  generalize s.fillNode plan context node = r at hfilled ⊢
  cases hfilled with
  | left edits hdocument | opened edits hdocument =>
    rw [hdocument]
    exact (hedited edits).sheds
  | written edits value clear hdocument =>
    have hd₁ := hd.unmoved (hedited edits)
    obtain ⟨ks, hs⟩ := hd₁.seated (Document.edited_rewritten hn₁ edits).get?_self
    obtain ⟨-, ks', -, hregrown⟩ := Document.applyContent_regrown hs hd₁.tidy value clear
    rw [hdocument]
    exact (hedited edits).sheds.trans_nil (hregrown.sheds_of_handle_eq hs rfl)

/-- The step works on a node that has a parent, or does no more than to fill it. -/
def Firm (s : Stage) : Step → Prop
  | .place _ node =>
    s.document.Top node → (s.bindingsOf node).1.include? = none ∧ (s.bindingsOf node).1.select? = none
  | .fill _ _ | .release _ => True

theorem placeNode_leaves (hd : s.document.Forest) (hn : s.document.get? node = some n) (plan : Plan)
    (hfirm : s.Firm (.place context node)) :
    Leaves s.document (s.placeNode plan context node).1.document
      (displaced plan s (.place context node)) (targets (s.placeNode plan context node).2) := by
  have hseen := bindingsOf_unmoved s node
  have hd₁ := hd.unmoved hseen
  obtain ⟨n₁, hn₁, -⟩ := hseen.get?_after hn
  simp only [Firm] at hfirm
  have hplaced := placeNode_placement plan s context node
  generalize s.placeNode plan context node = r at hplaced ⊢
  cases hplaced with
  | unreferenced hinclude hdead =>
    simp only [displaced, hinclude, hdead]
    exact ⟨hseen.sheds, by simp [targets]⟩
  | included hinclude hreference =>
    have hnot : ¬ s.document.Top node := fun htop => by simpa [hinclude] using (hfirm htop).1
    obtain ⟨p, hp⟩ := Document.Top.exists_parentOf hn hnot
    simp only [displaced, hinclude, hreference]
    rw [← reference?_document hreference] at hd₁ hseen
    exact (transclude_leaves hd₁ (hseen.parentOf_iff.mpr hp) _).after hseen
  | unvalued hinclude _ _ =>
    simp only [displaced, hinclude]
    exact ⟨hseen.sheds, by simp [targets]⟩
  | selected hinclude hselect hvalue =>
    have hnot : ¬ s.document.Top node := fun htop => by simpa [hselect] using (hfirm htop).2
    obtain ⟨p, hp⟩ := Document.Top.exists_parentOf hn hnot
    simp only [displaced, hinclude]
    rw [← execute?_document hvalue] at hd₁ hseen
    exact (select_leaves hd₁ (hseen.parentOf_iff.mpr hp) context _).after hseen
  | filled hinclude _ =>
    simp only [displaced, hinclude]
    exact (fillNode_leaves hd₁ hn₁ plan context).after hseen

/-- A step leaves just the include node without a parent that gives way to a copy. -/
theorem act_leaves (hd : s.document.Forest) (hnode : st.node? = some node)
    (hn : s.document.get? node = some n) (plan : Plan) (hfirm : s.Firm st) :
    Leaves s.document (act plan s st).1.document (displaced plan s st) (targets (act plan s st).2) := by
  cases st with
  | place context x =>
    obtain rfl : x = node := Option.some.inj hnode
    exact placeNode_leaves hd hn plan hfirm
  | fill context x =>
    obtain rfl : x = node := Option.some.inj hnode
    exact fillNode_leaves hd hn plan context
  | release context => simp [Step.node?] at hnode

/-- What a step displaces is its node, if that has a parent. -/
theorem displaced_cases (plan : Plan) (hfirm : s.Firm st) : displaced plan s st = [] ∨
    ∃ y, st.node? = some y ∧ ¬ s.document.Top y ∧ displaced plan s st = [y] := by
  cases st with
  | fill context x => exact Or.inl rfl
  | release context => exact Or.inl rfl
  | place context x =>
    simp only [Firm] at hfirm
    simp only [displaced]
    cases hinclude : (s.bindingsOf x).1.include? with
    | none => exact Or.inl rfl
    | some i =>
      have hnot : ¬ s.document.Top x := fun htop => by simpa [hinclude] using (hfirm htop).1
      dsimp only
      split
      · exact Or.inl rfl
      · split
        · exact Or.inr ⟨x, rfl, hnot, rfl⟩
        · exact Or.inl rfl

/-- The steps that wait work on nodes that have a parent; just the first may be at a node without one, if that
is only filled.  Beside the nodes that had no parent in `d`, just those in `T` have none now. -/
structure Tended (d : Document) (T : List Handle) (s : Stage) (steps : List Step) : Prop where
  ranged : Ranged s steps
  sheds : Sheds d s.document T
  nodup : T.Nodup
  apart : ∀ y ∈ T, ¬ d.Top y
  firm : ∀ st ∈ steps.head?, s.Firm st
  held : ∀ y ∈ steps.tail.filterMap Step.node?, ¬ s.document.Top y

theorem firm_of_held (hheld : ∀ y ∈ steps.filterMap Step.node?, ¬ s.document.Top y)
    (hst : st ∈ steps) : s.Firm st := by
  cases st with
  | fill context x => trivial
  | release context => trivial
  | place context x =>
    exact fun htop => absurd htop (hheld x (List.mem_filterMap.mpr ⟨_, hst, rfl⟩))

theorem Tended.of_held (hranged : Ranged s steps) (hsheds : Sheds d s.document T) (hnodup : T.Nodup)
    (hapart : ∀ y ∈ T, ¬ d.Top y) (hheld : ∀ y ∈ steps.filterMap Step.node?, ¬ s.document.Top y) :
    Tended d T s steps :=
  ⟨hranged, hsheds, hnodup, hapart, fun _ hst => firm_of_held hheld (List.mem_of_mem_head? hst),
    fun y hy => hheld y ((List.tail_sublist steps).filterMap _ |>.subset hy)⟩

/-- What is displaced adds up. -/
theorem Tended.act (ht : Tended d T s (st :: steps)) (plan : Plan) :
    Tended d (T ++ displaced plan s st) (act plan s st).1
      ((act plan s st).2.reverse.flatten ++ steps) := by
  have hranged := ht.ranged.act plan
  have hfirm := ht.firm st rfl
  cases hnode : st.node? with
  | none =>
    cases st with
    | place context x => simp [Step.node?] at hnode
    | fill context x => simp [Step.node?] at hnode
    | release context =>
      rw [show displaced plan s (.release context) = [] from rfl, List.append_nil]
      exact .of_held hranged ht.sheds ht.nodup ht.apart ht.held
  | some node =>
    have hscattered := ht.ranged.scattered
    rw [List.filterMap_cons_some hnode] at hscattered
    obtain ⟨n, hn⟩ := hscattered.head_live
    have hleaves := act_leaves ht.ranged.forest hnode hn plan hfirm
    have hdisplaced := displaced_cases plan hfirm
    generalize displaced plan s st = D at hleaves hdisplaced ⊢
    have hD : D.Nodup ∧ ∀ y ∈ D, y = node ∧ ¬ s.document.Top y := by
      rcases hdisplaced with rfl | ⟨y, hy, hnot, rfl⟩
      · simp
      · obtain rfl : y = node := Option.some.inj (hy.symm.trans hnode)
        simpa using hnot
    refine .of_held hranged (ht.sheds.trans hleaves.sheds) ?_ ?_ fun y hy => ?_
    · refine List.nodup_append.mpr ⟨ht.nodup, hD.1, ?_⟩
      rintro x hx y hy rfl
      exact (hD.2 x hy).2 ((ht.sheds x).mpr (Or.inr hx))
    · intro y hy
      rcases List.mem_append.mp hy with hy | hy
      · exact ht.apart y hy
      · exact fun htop => (hD.2 y hy).2 ((ht.sheds y).mpr (Or.inl htop))
    · rw [List.filterMap_append, List.mem_append] at hy
      rcases hy with hy | hy
      · exact hleaves.held y hy
      · intro htop
        rcases (hleaves.sheds y).mp htop with hbefore | hmem
        · exact ht.held y hy hbefore
        · obtain rfl := (hD.2 y hmem).1
          exact ((List.pairwise_cons.mp hscattered.apart).1 y hy).1 .refl

/-- All that the steps of a record displaced. -/
def leftover (plan : Plan) (log : List (Stage × Step)) : List Handle :=
  log.flatMap fun entry => displaced plan entry.1 entry.2

/-- Steps at nodes without includes displace nothing. -/
theorem Enclosed.displaced (he : Enclosed s (st :: steps)) (plan : Plan) : displaced plan s st = [] := by
  cases st with
  | fill context x => rfl
  | release context => rfl
  | place context x =>
    obtain ⟨t, ht, rfl, hsight⟩ := he.contained x (by simp [Step.node?])
    obtain ⟨set, htop⟩ := hsight.exists_set
    have hset : s.bindings.setOf? (s.document.node t.handle) = some set := by
      rw [Document.node_of_get? ht.get?_handle, htop]
    simp only [Stage.displaced, bindingsOf_eq hset, include_of_sighted hsight htop]

end Stage

namespace Engine

variable {e : Engine} {s s' : Stage} {data : Value} {parent? : Option Value} {node : Handle}
  {inPlace : Bool} {budget : Nat} {log : List (Stage × Step)} {w : WorkStack Step}
  {o : Outcome WalkStats}

/-! ### Renders -/

/-- At every point of a render the nodes without a parent are those there were and those that were
displaced. -/
theorem Reaches.tended (h : e.Reaches s data parent? node inPlace log w s') (hd : s.document.Forest)
    (hn : s.document.get? node = some n)
    (hfirm : s.document.Top node → (s.bindingsUnder node node).include? = none ∧
      (s.bindingsUnder node node).select? = none) :
    Stage.Tended s.document (Stage.leftover (e.plan inPlace) log) s' w.pending := by
  have hprimed : Unmoved s.document (e.begun s data parent? node).document :=
    Scan.prime_unmoved s.toScan node
  obtain ⟨n', hn', -⟩ := hprimed.get?_after hn
  refine h.invariant (fun log s' steps =>
    Stage.Tended s.document (Stage.leftover (e.plan inPlace) log) s' steps) ?_ ?_
  · have hstart : Stage.Ranged (e.begun s data parent? node)
        [.place (e.contextOn s data parent?) node] := ⟨hd.unmoved hprimed, .single hn'⟩
    have hset : ((e.begun s data parent? node).bindingsOf node).1 = s.bindingsUnder node node := by
      rw [Stage.bindingsOf, Stage.bindingsUnder, begun]
    have htop : (e.begun s data parent? node).document.Top node ↔ s.document.Top node := by
      simpa using hprimed.sheds node
    rw [Stage.leftover, List.flatMap_nil]
    refine ⟨hstart, hprimed.sheds, List.nodup_nil, by simp, fun st hst => ?_, by simp⟩
    obtain rfl : Step.place (e.contextOn s data parent?) node = st := by simpa using hst
    simp only [Stage.Firm, hset, htop]
    exact hfirm
  · intro log s₁ st waiting ht
    have hleftover : Stage.leftover (e.plan inPlace) (log ++ [(s₁, st)]) =
        Stage.leftover (e.plan inPlace) log ++ Stage.displaced (e.plan inPlace) s₁ st := by
      simp [Stage.leftover]
    rw [hleftover]
    exact ht.act (e.plan inPlace)

/-- If everything is attached, a render leaves just that unattached which is below the include nodes that
it displaced; these are counted with all that is below them.  The root has to be without an include
and a select of its own. -/
theorem render_leftover (hd : d.WellFormed)
    (hwhole : ∀ x, d.contains x = true → d.isAttached x = true) (hnode : d.contains node = true)
    (hfirm : node = root → ((e.stage d).bindingsUnder node node).include? = none ∧
      ((e.stage d).bindingsUnder node node).select? = none)
    (h : e.render budget d data parent? node inPlace = some o) :
    ∃ log w last, e.Reaches (e.stage d) data parent? node inPlace log w last ∧ w.next.1 = none ∧
      last.document = o.document ∧
      o.document.nodeCount = ((root :: Stage.leftover (e.plan inPlace) log).flatMap
        o.document.subtree).length ∧
      ∀ x, o.document.contains x = true → (o.document.isAttached x = true ↔
        ∀ y ∈ Stage.leftover (e.plan inPlace) log, ¬ o.document.Above y x) := by
  obtain ⟨n, hn⟩ := Document.exists_of_contains hnode
  have hforest := hd.forest
  have honly : ∀ y, d.Top y ↔ y = root := by
    intro y
    constructor
    · intro htop
      obtain ⟨m, hm, -⟩ := id htop
      have hattached := hwhole y (Document.contains_of_get? hm)
      exact (htop.eq_of_above ((hforest.isAttached_iff hm).mp hattached)).symm
    · rintro rfl
      exact hforest.links.root_top
  obtain ⟨⟨s', stats⟩, hrender, rfl⟩ := Option.map_eq_some_iff.mp h
  obtain ⟨log, w, last, hreaches, hend, rfl⟩ := exists_reaches_of_renderOn hrender
  have ht := hreaches.tended (s := e.stage d) hforest hn fun htop => hfirm ((honly node).mp htop)
  generalize hleft : Stage.leftover (e.plan inPlace) log = left at ht
  have hforest' : last.document.Forest := ht.ranged.forest
  have htop : ∀ y, last.document.Top y ↔ y ∈ root :: left := by
    intro y
    rw [ht.sheds y, List.mem_cons]
    exact or_congr_left (honly y)
  have hroot : root ∉ left := fun hmem => ht.apart root hmem ((honly root).mpr rfl)
  refine ⟨log, w, last, hreaches, hend, rfl, ?_, fun x hx => ?_⟩
  · rw [hleft]
    exact hforest'.nodeCount_eq (List.nodup_cons.mpr ⟨hroot, ht.nodup⟩) htop
  · rw [hleft]
    obtain ⟨m, hm⟩ := Document.exists_of_contains hx
    have hattached : last.document.isAttached x = true ↔ last.document.Above root x :=
      hforest'.isAttached_iff hm
    change last.document.isAttached x = true ↔ ∀ y ∈ left, ¬ last.document.Above y x
    rw [hattached]
    constructor
    · intro habove y hy hyx
      have hsame := Document.Top.unique hforest'.links.root_top
        ((htop y).mpr (List.mem_cons_of_mem _ hy)) habove hyx
      exact hroot (hsame ▸ hy)
    · intro hnone
      obtain ⟨y, hy, hyx⟩ := hforest'.links.exists_top hm
      rcases List.mem_cons.mp ((htop y).mp hy) with rfl | hmem
      · exact hyx
      · exact absurd hyx (hnone y hmem)

/-- The include node ⟨2, 0⟩ is left over beside its copy, and counted. -/
example : (((Document.ofMarkup "<b id=\"t\"></b><i data-jst-include=\"#t\"></i>").toOption.bind fun d =>
    (new 0 .default).render 9 d .null none root true).map fun o =>
      (o.document.nodeCount, o.document.subtree root, o.document.isAttached ⟨2, 0⟩)) =
    some (4, [root, ⟨1, 0⟩, ⟨3, 0⟩], false) := by
  decide +kernel

/-- A render of a node without includes displaces nothing. -/
theorem Reaches.leftover_eq_nil (h : e.Reaches s data parent? node inPlace log w s')
    (hd : s.document.Forest) (hb : s.bindings.Sound) (hp : s.pool.Sound)
    (hn : s.document.get? node = some n)
    (hfree : ∀ h ∈ s.document.subtree node, (s.bindingsUnder node h).include? = none) :
    Stage.leftover (e.plan inPlace) log = [] := by
  induction h with
  | start => rfl
  | step before hnext ih =>
    have henclosed := Reaches.enclosed before hd hb hp hn hfree
    obtain ⟨-, hclean⟩ := Reaches.ranged before hd hn
    rw [(WorkStack.pending_of_next hclean hnext).1] at henclosed
    rw [Stage.leftover, List.flatMap_append, ← Stage.leftover, ih]
    simp [henclosed.displaced]

/-- Without includes a render leaves all that is live attached, and counts no more than that. -/
theorem render_attached (he : e.Reached) (hd : d.WellFormed)
    (hwhole : ∀ x, d.contains x = true → d.isAttached x = true) (hnode : d.contains node = true)
    (hfree : ∀ h ∈ d.subtree node, ((e.stage d).bindingsUnder node h).include? = none)
    (hselect : node = root → ((e.stage d).bindingsUnder node node).select? = none)
    (h : e.render budget d data parent? node inPlace = some o) :
    (∀ x, o.document.contains x = true → o.document.isAttached x = true) ∧
      o.document.nodeCount = (o.document.subtree root).length := by
  obtain ⟨n, hn⟩ := Document.exists_of_contains hnode
  have hself : node ∈ d.subtree node := by
    obtain ⟨ks, ht⟩ := hd.forest.held node n hn
    have hsubtree : d.subtree node = (NodeTree.node node n ks).handles := Document.subtree_eq ht
    rw [hsubtree]
    exact NodeTree.handle_mem_handles _
  obtain ⟨log, w, last, hreaches, -, -, hcount, hattached⟩ :=
    render_leftover hd hwhole hnode (fun hroot => ⟨hfree node hself, hselect hroot⟩) h
  have hnil := hreaches.leftover_eq_nil hd.forest he.bindings_sound he.pool_sound hn hfree
  rw [hnil] at hcount hattached
  exact ⟨fun x hx => (hattached x hx).mpr (by simp), by simpa using hcount⟩

end Engine

end TreeTemplate
