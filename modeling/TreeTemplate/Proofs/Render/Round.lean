import TreeTemplate.Proofs.Render.Family
import TreeTemplate.Proofs.Render.InPlace

/-!
Rounds.  A node without bindings is rendered that has a row of nodes with one set among its children:
what is before and after the row is placed as well, and what the row gives way to stands between them
(`Stage.round_visit`).  After an in-place render the next one finds such a row again
(`Engine.Poised.round`).
-/

namespace TreeTemplate

namespace Stage

open NodeTree (Sighted handlesOf)

variable {plan : Plan} {b : BindingCache} {F : Registry → Prop} {s : Stage} {id : ContextId}
  {c : Context} {home : Option Handle} {pre fam post : List NodeTree} {h : Handle} {n : Node}
  {set : BindingSet} {ev : Evaluator}

/-- Rendering the node visits its children in order, and the nodes of the row select one value. -/
theorem round_visit (hplan : plan.inPlace = true)
    (hr : Ready b F s id c home [.node h n (pre ++ (fam ++ post))])
    (ha : s.document.Away (pre ++ (fam ++ post))) (htop : b.setOf? n = some (.empty ""))
    (hsteady : Steady F n.callbacks)
    (hsight : ∀ k ∈ pre ++ (fam ++ post), k.record.isElement = true → Sighted b F k)
    (hfam : ∀ t ∈ fam, t.record.isElement = true ∧ b.setOf? t.record = some set)
    (hselect : set.select? = some ev) (hfree : ev.assignFree = true) :
    ∃ s' c₁ c' pre' uss post' log, Visit plan F s s' id c' home [.node h n (pre ++ (fam ++ post))]
        [.node h { n with children := (pre' ++ (uss.flatten ++ post')).map NodeTree.handle }
          (pre' ++ (uss.flatten ++ post'))] [.place id h] log ∧
      (∀ k ∈ pre' ++ (uss.flatten ++ post'), k.record.isElement = true → Sighted b F k) ∧
      (∀ u ∈ uss.flatten, u.record.isElement = true ∧ b.setOf? u.record = some set) ∧
      List.Forall₂ (Replaced log set c₁ (c₁.execute ev).1) fam uss := by
  have hheld := hr.seated.held _ (List.mem_singleton_self _)
  obtain ⟨s₁, hdocument, hr₁, hbare⟩ := bare_visit hplan hr htop hsteady
  rw [← hdocument] at ha
  have hplace : ∀ ks : List NodeTree, ∀ k ∈ ks, k.record.isElement = true → Placeable plan b F k :=
    fun _ k _ _ => placeable k
  obtain ⟨s₂, pre', log₁, hv₁, hpre, -⟩ := placeAll_visit (hplace pre) hr₁.left ha.left
    fun k hk => hsight k (List.mem_append_left _ hk)
  have hr₂ := hv₁.ready_right hr₁
  have ha₂ := ((hv₁.regrown.append_right hr₁.seated).away hr₁.seated ha).right
  generalize (Shape.placeAll plan b (pre.map NodeTree.shape)
    (c.afterCallbacks n.callbacks)).context = c₁ at hv₁ hr₂
  obtain ⟨s₃, uss, log₂, hv₂, huss, hreplaced⟩ := family_visit hplan hr₂.left ha₂.left
    (fun t ht => ⟨hsight t (by simp [ht]) (hfam t ht).1, hfam t ht⟩) hselect hfree
  have hr₃ := hv₂.ready_right hr₂
  have ha₃ := ((hv₂.regrown.append_right hr₂.seated).away hr₂.seated ha₂).right
  obtain ⟨s₄, post', log₃, hv₃, hpost, -⟩ := placeAll_visit (hplace post) hr₃ ha₃
    fun k hk => hsight k (by simp [hk])
  have hall := hv₁.append hr₁ (hv₂.append hr₂ hv₃)
  have hsteps : ((pre ++ (fam ++ post)).filter fun k => k.record.isElement).map
      (fun k => Step.place id k.handle) =
      (pre.filter fun k => k.record.isElement).map (fun k => Step.place id k.handle) ++
        (fam.map (fun t => Step.place id t.handle) ++
          (post.filter fun k => k.record.isElement).map fun k => Step.place id k.handle) := by
    rw [List.filter_append, List.filter_append, List.filter_eq_self.mpr fun t ht => (hfam t ht).1,
      List.map_append, List.map_append]
  rw [← hsteps] at hall
  refine ⟨s₄, c₁, _, pre', uss, post', _, hbare hall, fun k hk helement => ?_,
    fun u hu => (huss u hu).2, ?_⟩
  · rcases List.mem_append.mp hk with hk | hk
    · exact hpre k hk helement
    rcases List.mem_append.mp hk with hk | hk
    · exact (huss k hk).1
    · exact hpost k hk helement
  · refine NodeTree.forall₂_imp_of_mem hreplaced fun t ht us hus => ?_
    have hright : t.handle ∈ handlesOf (fam ++ post) :=
      NodeTree.mem_handlesOf_of_mem (List.mem_append_left _ ht) t.handle_mem_handles
    have hmem : t.handle ∈ handlesOf (pre ++ (fam ++ post)) := by
      rw [NodeTree.handlesOf_append]
      exact List.mem_append_right _ hright
    obtain ⟨m, hm⟩ := hr₁.seated.live hmem
    have hself : placing? [(s, Step.place id h)] t.handle = none := by
      refine placing?_eq_none fun entry hentry x hx hxt => ?_
      rw [List.mem_singleton.mp hentry] at hx
      obtain rfl := Option.some.inj hx
      exact hheld.handle_not_mem_kids (hxt ▸ hmem)
    have hbefore := hv₁.placing?_eq_none hm fun hpre => hr₁.seated.disjoint hpre hright
    exact hus.lift ([(s, Step.place id h)] ++ log₁) log₃
      ((placing?_append_of_none hself).trans hbefore)

end Stage

namespace NodeTree

variable {b b' : BindingCache} {set : BindingSet} {pre fam post : List NodeTree} {t t' : NodeTree}

/-- No binding at the top, and among the children between others a row of elements that share a set. -/
structure Carries (b : BindingCache) (set : BindingSet) (pre fam post : List NodeTree)
    (t : NodeTree) : Prop where
  kids : t.kids = pre ++ (fam ++ post)
  bare : b.setOf? t.record = some (.empty "")
  sighted : ∀ k ∈ pre ++ (fam ++ post), k.record.isElement = true → Sighted b (fun _ => True) k
  row : ∀ u ∈ fam, u.record.isElement = true ∧ b.setOf? u.record = some set

theorem exists_append_of_forall₂ {R : NodeTree → NodeTree → Prop} {A B us : List NodeTree}
    (h : List.Forall₂ R (A ++ B) us) :
    ∃ us₁ us₂, us = us₁ ++ us₂ ∧ List.Forall₂ R A us₁ ∧ List.Forall₂ R B us₂ := by
  induction A generalizing us with
  | nil => exact ⟨[], us, rfl, .nil, h⟩
  | cons t A ih =>
    cases h with
    | cons htu hrest =>
      obtain ⟨us₁, us₂, rfl, h₁, h₂⟩ := ih hrest
      exact ⟨_ :: us₁, us₂, rfl, .cons htu h₁, h₂⟩

/-- A second look finds the row again. -/
theorem Primed.carries (hb : b.Extends b') (htt' : Primed b t t') (ht : Carries b set pre fam post t) :
    ∃ pre' fam' post', Carries b' set pre' fam' post' t' ∧
      fam'.map NodeTree.handle = fam.map NodeTree.handle := by
  obtain ⟨hkids, hbare, hsighted, hrow⟩ := ht
  obtain ⟨hrecord, hprimed⟩ := htt'
  rename_i h n n' ks ks'
  obtain rfl : ks = pre ++ (fam ++ post) := hkids
  have hbare : b.setOf? n = some (.empty "") := hbare
  obtain rfl : n' = n := hrecord.resolve_right fun hr => by simp [hbare] at hr
  obtain ⟨pre', rest, rfl, hpre, hrest⟩ := exists_append_of_forall₂ hprimed
  obtain ⟨fam', post', rfl, hfam, hpost⟩ := exists_append_of_forall₂ hrest
  refine ⟨pre', fam', post', ⟨rfl, hb.setOf? hbare, fun k' hk' helement => ?_, fun u' hu' => ?_⟩,
    map_handle_of_primed hfam⟩
  · obtain ⟨k, hk, hkk'⟩ := exists_of_forall₂ hprimed hk'
    exact hkk'.sighted hb (hsighted k hk (hkk'.isElement_eq ▸ helement))
  · obtain ⟨u, hu, huu'⟩ := exists_of_forall₂ hfam hu'
    obtain ⟨helement, hset⟩ := hrow u hu
    refine ⟨huu'.isElement_eq.trans helement, hb.setOf? ?_⟩
    obtain ⟨hrecord, -⟩ := huu'
    rw [record_node] at hset ⊢
    rcases hrecord with rfl | ⟨hnone, -⟩
    · exact hset
    · simp [hset] at hnone

end NodeTree

/-- The positions that are on record at some nodes. -/
def Document.markers (d : Document) (hs : List Handle) : List (Option Marker) :=
  hs.map fun h => (d.node h).marker?

/-- What a render with the record `log` makes of the nodes `family`, which all select `v`: the nodes
`family'` stand in their place. -/
structure Round (log : List (Stage × Step)) (d d' : Document) (set : BindingSet) (v : Value)
    (family family' : List Handle) : Prop where
  selection : ∀ h ∈ family, selection? log h = some v
  heirs : family.flatMap (heirs log) = family'
  marked : d'.markers family' = v.regroup (d.markers family)
  shown : set.Calm → family'.countP (fun h => (d'.node h).visible) = v.shownIn family.length
  hidden : v = .array [] → ∀ h ∈ family', (d'.node h).visible = false
  filled : ∀ items, v = .array items → ∀ (j : Nat) h w, family'[j]? = some h → items[j]? = some w →
    ∃ s id c, (s, Step.fill id h) ∈ log ∧ s.pool.get? id = some (Context.item c w j items.length)
  kept : ∀ items count, v = .array items → d.markers family = Marker.row 0 count count →
    family'.take (min count (max 1 items.length)) = family.take (min count (max 1 items.length))

namespace Stage

variable {log : List (Stage × Step)} {d d' : Document} {set : BindingSet} {c : Context} {v : Value}
  {fam us : List NodeTree} {uss : List (List NodeTree)} {ps : List (Face × Option Item)}

/-- What the nodes of a row select tells how the nodes look that stand in its place. -/
theorem map_of_matches {α : Type} {f : Node → α} {g : Face × Option Item → α}
    (h : List.Forall₂ (Matches log set c) us ps) (hus : ∀ u ∈ us, d'.node u.handle = u.record)
    (hf : ∀ u p, p ∈ ps → Matches log set c u p → f u.record = g p) :
    (us.map NodeTree.handle).map (fun h => f (d'.node h)) = ps.map g := by
  have hrecords : (us.map NodeTree.handle).map (fun h => f (d'.node h)) =
      us.map fun u => f u.record := by
    rw [List.map_map]
    exact List.map_congr_left fun u hu => congrArg f (hus u hu)
  rw [hrecords]
  exact (NodeTree.map_eq_map_of_forall₂ h.flip fun p hp u hup => hf u p hp hup)

theorem round_of_replaced (h : List.Forall₂ (Replaced log set c v) fam uss)
    (hfam : ∀ t ∈ fam, (d.node t.handle).marker? = t.record.marker?)
    (hus : ∀ u ∈ uss.flatten, d'.node u.handle = u.record)
    (hlined : Lined (d.markers (fam.map NodeTree.handle))) :
    Round log d d' set v (fam.map NodeTree.handle) (uss.flatten.map NodeTree.handle) := by
  have hmarkers : d.markers (fam.map NodeTree.handle) =
      (fam.map fun t => t.record.face).map Face.marker? := by
    rw [Document.markers, List.map_map, List.map_map]
    exact List.map_congr_left hfam
  have hmatches := matches_of_replaced h
  have hlength : (fam.map NodeTree.handle).length = (fam.map fun t => t.record.face).length := by
    rw [List.length_map, List.length_map]
  refine ⟨fun h' hh' => ?_, heirs_of_replaced h, ?_, fun hcalm => ?_, fun hv h' hh' => ?_,
    fun items hv j h' w hh' hw => ?_, fun items count hv hrow => ?_⟩
  · obtain ⟨t, ht, rfl⟩ := List.mem_map.mp hh'
    obtain ⟨us, -, htus⟩ := NodeTree.exists_of_forall₂ h.flip ht
    exact htus.selection
  · rw [Document.markers, map_of_matches (f := Node.marker?) hmatches hus
      (fun _ _ _ hup => hup.marker?), hmarkers]
    rw [hmarkers] at hlined
    exact Face.map_marker_select hlined v
  · rw [hmarkers] at hlined
    have hvisible := map_of_matches (f := Node.visible) (g := fun p => p.1.visible) hmatches hus
      fun _ _ _ hup => hup.visible (Or.inr hcalm)
    rw [hlength, ← Face.countP_visible_select hlined v]
    rw [show (fun h => (d'.node h).visible) = id ∘ fun h => (d'.node h).visible from rfl,
      ← List.countP_map, hvisible, List.countP_map]
    rfl
  · rw [hmarkers] at hlined
    obtain ⟨f, hf⟩ := Face.flatMap_select_nil hlined
    rw [hv, hf] at hmatches
    obtain ⟨u, us, hu, hnil, hus'⟩ := List.forall₂_cons_right_iff.mp hmatches
    rw [List.forall₂_nil_right_iff.mp hnil] at hus'
    rw [hus', List.map_singleton, List.mem_singleton] at hh'
    rw [hh', hus u (by simp [hus'])]
    exact hu.visible (Or.inl rfl)
  · subst hv
    rw [hmarkers] at hlined
    have hitems : items ≠ [] := fun hnil => by simp [hnil] at hw
    have hselected := Face.flatMap_select_lined hitems hlined
    rw [List.getElem?_map, Option.map_eq_some_iff] at hh'
    obtain ⟨u, hu, rfl⟩ := hh'
    have hitem := congrArg (fun l => l[j]?) hselected
    simp only [List.getElem?_map, Item.getElem?_enumerate, hw, Option.map_some, Nat.zero_add] at hitem
    obtain ⟨p, hp, hpi⟩ := Option.map_eq_some_iff.mp hitem
    obtain ⟨hj, hu⟩ := List.getElem?_eq_some_iff.mp hu
    obtain ⟨hj', hp⟩ := List.getElem?_eq_some_iff.mp hp
    have hup := hmatches.get hj hj'
    rw [List.get_eq_getElem, List.get_eq_getElem, hu, hp] at hup
    obtain ⟨s, id, hmem, hcontext⟩ := hup.filled _ hpi
    exact ⟨s, id, c, hmem, hcontext⟩
  · subst hv
    have hcount : fam.length = count := by
      have hl := congrArg List.length hrow
      rwa [Document.markers, List.length_map, List.length_map, Marker.length_row] at hl
    rw [hmarkers, List.map_map] at hrow
    subst hcount
    have htake := take_of_replaced h hrow (Nat.zero_add _)
    exact htake

end Stage

namespace Engine

open Document (root)
open NodeTree (Carries handlesOf)

variable {e : Engine} {d : Document} {data : Value} {p : Handle} {set : BindingSet}
  {family : List Handle} {ev : Evaluator}

/-- The engine and the document before a render of the node `p` that has the nodes of `family` in a row
among its children, all with one set. -/
structure Poised (e : Engine) (d : Document) (p : Handle) (set : BindingSet)
    (family : List Handle) : Prop extends e.Sound where
  tidy : d.Tidy
  crowned : ∃ R : NodeTree, R.handle = root ∧ d.Seated none [R]
  carried : ∃ home t, t.handle = p ∧ d.Seated home [t] ∧
    (∃ pre post, t.record.children = pre ++ (family ++ post)) ∧
    ∀ data t' functions, e.Opening d data home t t' functions → ∃ pre fam post,
      Carries (e.opened d data t.handle).2.bindings set pre fam post t' ∧
        fam.map NodeTree.handle = family

namespace Poised

/-- The nodes of the row are different. -/
theorem nodup (hp : e.Poised d p set family) : family.Nodup := by
  obtain ⟨home, t, rfl, hs, ⟨pre, post, hblock⟩, -⟩ := hp.carried
  obtain ⟨h, n, ks⟩ := t
  have ht := hs.held _ (List.mem_singleton_self _)
  have hkids : (ks.map NodeTree.handle).Nodup :=
    (Document.Seated.kids ht).nodup.sublist (Document.Seated.kids.sublist_handlesOf ks)
  rw [← ht.children, show n.children = pre ++ (family ++ post) from hblock] at hkids
  exact hkids.of_append_right.of_append_left

/-- A render of the node makes of the row what its nodes select, and the next one can follow. -/
theorem round (hp : e.Poised d p set family) (hlined : Lined (d.markers family))
    (hselect : set.select? = some ev) (hfree : ev.assignFree = true) (data : Value) :
    ∃ log s' v family', e.Trace d data p log s' ∧
      (e.closed (e.opened d data p).1 s').Poised s'.document p set family' ∧
      Round log d s'.document set v family family' := by
  obtain ⟨home, t, rfl, hs, -, hcarried⟩ := hp.carried
  obtain ⟨R, hroot, hR⟩ := hp.crowned
  have ht := hs.held t (List.mem_singleton_self t)
  obtain ⟨t', functions, -, ho⟩ := opening hp.toSound hs hp.tidy data
  obtain ⟨pre, fam, post, hcarries, rfl⟩ := hcarried data t' functions ho
  have haway := ho.away hs (away_kids hR hroot ht)
  have hready := ho.ready (F := fun _ => True) hs trivial
  have hhandle := ho.handle_eq
  obtain ⟨h, n, ks⟩ := t'
  obtain rfl : ks = pre ++ (fam ++ post) := hcarries.kids
  obtain rfl : h = t.handle := hhandle
  have hmarkers : ∀ u ∈ fam, (d.node u.handle).marker? = u.record.marker? := by
    intro u hu
    have hmem : u ∈ pre ++ (fam ++ post) := by simp [hu]
    obtain ⟨m, hm, hrecord⟩ :=
      ho.primed.exists_entry (NodeTree.mem_entries_of_kid hmem u.top_mem_entries)
    rw [Document.node_of_get? (ht.live _ hm)]
    rcases hrecord with hrecord | ⟨r, hrecord⟩ <;> rw [show u.record = _ from hrecord]
  obtain ⟨s', c, c', pre', uss, post', log, hv, hsight, hrow, hreplaced⟩ := Stage.round_visit
    (show (e.plan true).inPlace = true from rfl) hready haway hcarries.bare
    (fun _ _ _ _ => trivial) hcarries.sighted hcarries.row hselect hfree
  have hregrown := ho.regrown.trans hs hv.regrown
  have hlive := hv.pool.get?_self
  have hbindings : (e.closed (e.opened d data t.handle).1 s').bindings =
    (e.opened d data t.handle).2.bindings := hv.bindings
  refine ⟨log, s', _, uss.flatten.map NodeTree.handle, hv.runs, ⟨⟨hbindings ▸ ho.sound,
    hv.pool.sound.recycle hlive⟩, hv.tidy,
    hregrown.crown hR hroot hs fun htop => by simp [htop], home,
    .node t.handle { n with children := (pre' ++ (uss.flatten ++ post')).map NodeTree.handle }
      (pre' ++ (uss.flatten ++ post')), rfl, hregrown.seated hs,
    ⟨pre'.map NodeTree.handle, post'.map NodeTree.handle, by simp⟩, fun data t'' functions' ho' => ?_⟩,
    Stage.round_of_replaced hreplaced hmarkers (fun u hu => ?_) hlined⟩
  · refine ho'.primed.carries ho'.extended ⟨rfl, ?_, ?_, ?_⟩
    · rw [hbindings]
      exact hcarries.bare
    · rw [hbindings]
      exact hsight
    · rw [hbindings]
      exact hrow
  · have hheld := hv.regrown.held _ (List.mem_singleton_self _)
    exact Document.node_of_get? (hheld.kid (by simp [hu])).get?_handle

end Poised

end Engine

end TreeTemplate
