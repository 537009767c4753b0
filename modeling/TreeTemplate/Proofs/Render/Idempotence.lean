import TreeTemplate.Proofs.Document.RoundTrip
import TreeTemplate.Proofs.Render.InPlace
import TreeTemplate.Proofs.Render.Settling

/-!
Rendering twice.  The second of two renders with the same data finds every node as the first one left
it, so the markup stays (`Engine.renderInPlace_idempotent`).
-/

namespace TreeTemplate.Engine

open Document (Regrown root)
open NodeTree (Sighted handlesOf)
open Stage (act)

variable {e : Engine} {d : Document} {data : Value} {node : Handle} {home : Option Handle}
  {t t' u R : NodeTree} {functions : Registry} {F : Registry → Prop}

/-- The engine works on the document: its caches are in order, its contexts know its functions, and it
has no bindings on record for the root and for removed nodes.  Every engine that a program comes by does
(`Registered.fit`). -/
structure Fit (e : Engine) (d : Document) : Prop extends e.Sound where
  uniform : e.pool.Uniform (· = e.pool.functions)
  bare : ∀ n, n = d.vacant ∨ d.get? root = some n →
    ∀ r ∈ n.bindingRef?, r.cache = e.bindings.id → r.index = 0

/-- A new engine works on a parsed document. -/
theorem new_fit (owner : Nat) (config : Config) {source : String} (h : Document.ofMarkup source = .ok d) :
    (new owner config).Fit d := by
  obtain ⟨nodes, -, rfl⟩ := Document.ofMarkup_eq_ok h
  obtain ⟨-, hvacant, us, -, hheld, -⟩ := Document.plantAll_empty_holds nodes
  refine ⟨⟨BindingCache.new_sound owner _, Pool.new_sound _ _⟩, by simp [Pool.Uniform, new, Pool.new],
    fun n hn r hr => ?_⟩
  rcases hn with rfl | hn
  · rw [hvacant] at hr
    simp [Node.new] at hr
  · obtain rfl := Option.some.inj (hheld.get?_handle.symm.trans hn)
    simp [Node.new] at hr

/-- Rendering into a removed node changes no live node. -/
theorem trace_vacant (he : e.Sound) (hblank : (e.stage d).toScan.Blank node)
    (hdead : d.get? node = none) (hchildren : d.vacant.children = []) (data : Value) :
    ∃ log s', e.Trace d data node log s' ∧ ∀ x, s'.document.get? x = d.get? x := by
  obtain ⟨hbindings, hget, hset, hkids⟩ :=
    Scan.prime_vacant (s := (e.stage d).toScan) he.bindings hblank hdead hchildren
  obtain ⟨functions, -, hopened⟩ := Pool.createRoot_opened he.pool data e.globals
  have hset' : (e.opened d data node).2.bindings.setOf?
      ((e.opened d data node).2.document.node node) = some (.empty "") := by
    rw [show (e.opened d data node).2.bindings = e.bindings from hbindings]
    exact hset
  have hcontext := (hopened.get?_eq (e.opened d data node).1).trans (if_pos rfl)
  obtain ⟨s₁, hdocument, -, -, hact⟩ :=
    Stage.place_bare (show (e.plan true).inPlace = true from rfl) hset' hcontext
  rw [show (e.opened d data node).2.document.elementChildren node = [] from hkids] at hact
  exact ⟨_, s₁, .one hact (.nil s₁), fun x => by rw [hdocument]; exact hget x⟩

/-- Nodes without attributes that the engine has no bindings on record for. -/
theorem Fit.blank (he : e.Fit d) {h : Handle} (hcontent : (d.node h).content = .root)
    (hn : d.node h = d.vacant ∨ d.get? root = some (d.node h)) : (e.stage d).toScan.Blank h :=
  ⟨hcontent, he.bare _ hn⟩

/-- A render that finds its node settled leaves the markup. -/
theorem trace_settled (he : e.Sound) (hu : e.pool.Uniform F) (hF : F e.pool.functions) (ht : d.Tidy)
    (hR : d.Seated none [R]) (hroot : R.handle = root) (hs : d.Seated home [t])
    (hsight : Sighted e.bindings F t)
    (hselects : t.handle = root → (t.sketch e.bindings).selects = false)
    (hfixed : ∀ functions, F functions → (Sketch.place e.config.idAttribute (t.sketch e.bindings)
      (Context.root data e.globals functions)).1 = [t.sketch e.bindings]) :
    ∃ log s', e.Trace d data t.handle log s' ∧ s'.document.toMarkup = d.toMarkup := by
  obtain ⟨t', functions, hfunctions, ho⟩ := opening he hs ht data
  have hF' := hfunctions F hu hF
  have hsketch := ho.primed.sketch_eq ho.extended hsight
  obtain ⟨log, s', us, htrace, hregrown, -, -, -, -, -, -, hmem, hsketches⟩ :=
    ho.place hs (away_kids hR hroot (hs.held t (List.mem_singleton_self t))) hF'
      (ho.primed.sighted ho.extended hsight) fun htop => hsketch ▸ hselects htop
  rw [hsketch, hfixed functions hF'] at hsketches
  obtain ⟨u, rfl⟩ := List.length_eq_one_iff.mp (by simpa using congrArg List.length hsketches)
  have husketch : u.sketch s'.bindings = t.sketch e.bindings := by simpa using hsketches
  have hhandle : u.handle = t.handle := by
    rcases hmem with hnil | hmem
    · simp at hnil
    · simpa using Eq.symm (List.mem_singleton.mp hmem)
  have hchars : u.chars = t.chars := by
    rw [← NodeTree.chars_sketch s'.bindings u, husketch, NodeTree.chars_sketch]
  exact ⟨log, s', htrace, hregrown.toMarkup_eq hR hroot hs hhandle hchars
    (NodeTree.kids_chars_eq husketch.symm)⟩

/-- The sketch of a tree whose nodes select without assigning is orderly. -/
theorem Opening.orderly (ho : e.Opening d data home t t' functions) (hs : d.Seated home [t])
    (hd : d.Proper)
    (hselect : ∀ h ∈ d.subtree t.handle,
      ∀ ev ∈ (e.bindingsAt d t.handle h).select?, ev.assignFree = true)
    (hlabels : ∀ h ∈ d.subtree t.handle,
      (((e.bindingsAt d t.handle h).values?.getD []).map Prod.fst).Nodup) :
    (t'.sketch (e.opened d data t.handle).2.bindings).Orderly := by
  refine ho.known.orderly fun entry hentry => ⟨?_, fun set hset => ?_⟩
  · obtain ⟨m, hm, hrecord⟩ := ho.primed.exists_entry hentry
    have hm := hd.orderly _ _ ((hs.held t (List.mem_singleton_self t)).live _ hm)
    rcases hrecord with hrecord | ⟨r, hrecord⟩
    · rwa [hrecord]
    · rwa [hrecord]
  · have hmem := ho.mem_subtree hs hentry
    rw [← ho.bindingsAt_eq hs hentry hset]
    exact ⟨hselect _ hmem, hlabels _ hmem⟩

/-- The root does not select. -/
theorem Opening.not_selects (ho : e.Opening d data home t t' functions) (hd : d.Proper) (he : e.Fit d)
    (htop : t.handle = root) :
    (t'.sketch (e.opened d data t.handle).2.bindings).selects = false := by
  obtain ⟨r, hr, hcontent, -⟩ := hd.rooted
  have hset := ho.top
  rw [← Document.node_of_get? hr] at hcontent hr
  rw [htop, Scan.lookup_blank_fst he.bindings (he.blank hcontent (Or.inr hr)), ← htop] at hset
  rw [NodeTree.sketch_eq_node hset]
  rfl

/-- After a render the same render can be done again, and the markup stays as it is.  There are to be
no include bindings and no callbacks, and selecting assigns nothing. -/
theorem trace_again (hd : d.Proper) (he : e.Fit d) (hnode : d.contains node = true)
    (hinclude : ∀ h ∈ d.subtree node, (e.bindingsAt d node h).include? = none)
    (hcallbacks : ∀ h ∈ d.subtree node, (d.node h).callbacks = [])
    (hselect : ∀ h ∈ d.subtree node, ∀ ev ∈ (e.bindingsAt d node h).select?, ev.assignFree = true)
    (hlabels : ∀ h ∈ d.subtree node,
      (((e.bindingsAt d node h).values?.getD []).map Prod.fst).Nodup) (data : Value) :
    ∃ log s', e.Trace d data node log s' ∧ ∃ log' s'',
      (e.closed (e.opened d data node).1 s').Trace s'.document data node log' s'' ∧
        s''.document.toMarkup = s'.document.toMarkup := by
  obtain ⟨n, hn⟩ := Option.isSome_iff_exists.mp hnode
  obtain ⟨ks, hs⟩ := hd.seated hn
  obtain ⟨r, hr, -, hparent⟩ := hd.rooted
  obtain ⟨kr, hR⟩ := hd.seated hr
  rw [hparent] at hR
  generalize ht : NodeTree.node node n ks = t at hs
  obtain rfl : t.handle = node := by rw [← ht, NodeTree.handle_node]
  obtain ⟨t', functions, hfunctions, ho⟩ := opening he.toSound hs hd.tidy data
  have hF := hfunctions _ he.uniform rfl
  have hsight := ho.sighted (F := (· = e.pool.functions)) hs hinclude fun h hh => by
    rw [hcallbacks h hh]
    simp [Steady]
  have horderly := ho.orderly hs hd hselect hlabels
  have hselects := ho.not_selects hd he
  obtain ⟨log, s', us, htrace, hregrown, htidy, hbindings, hsound, huniform, hknow, hus, hmem,
    hsketches⟩ := ho.place hs (away_kids hR rfl (hs.held t (List.mem_singleton_self t))) hF hsight
      hselects
  refine ⟨log, s', htrace, ?_⟩
  have hstay : t.handle = root → root ∈ us.map NodeTree.handle := by
    intro htop
    obtain ⟨k, hk, -⟩ := Sketch.exists_place_of_not_selects e.config.idAttribute (hselects htop)
      (Context.root data e.globals functions)
    rw [← htop]
    refine hmem.resolve_left ?_
    rintro rfl
    simp [hk] at hsketches
  obtain ⟨R', hroot', hR'⟩ := hregrown.crown hR rfl hs hstay
  rcases hmem with rfl | hmem
  · have hdead : s'.document.get? t.handle = none :=
      hregrown.gone t.handle (by simp [handlesOf, t.handle_mem_handles]) (by simp)
    have hvacant : s'.document.node t.handle = d.vacant := by
      rw [Document.node, hdead, hregrown.vacant]
      rfl
    have hid : s'.bindings.id = e.bindings.id := by
      rw [hbindings]
      exact ho.extended.id_eq
    have hblank :
        ((e.closed (e.opened d data t.handle).1 s').stage s'.document).toScan.Blank t.handle :=
      ⟨hvacant ▸ hd.vacant.1, fun r hr hcache =>
        he.bare _ (Or.inl rfl) r (hvacant ▸ hr) (hcache.trans hid)⟩
    obtain ⟨log', s'', htrace', hget⟩ :=
      trace_vacant hsound hblank hdead (hregrown.vacant ▸ hd.vacant.2) data
    have hheld' := hR'.held R' (List.mem_singleton_self R')
    exact ⟨log', s'', htrace', by rw [Document.toMarkup_eq hheld' hroot',
      Document.toMarkup_eq (hheld'.congr fun x _ => hget x) hroot']⟩
  · obtain ⟨u, hu, hhandle⟩ := List.mem_map.mp hmem
    have husketch : u.sketch s'.bindings ∈ (Sketch.place e.config.idAttribute
        (t'.sketch (e.opened d data t.handle).2.bindings)
        (Context.root data e.globals functions)).1 := hsketches ▸ List.mem_map_of_mem hu
    rw [← hhandle]
    refine trace_settled hsound (huniform he.uniform) hknow htidy hR' hroot'
      ((hregrown.seated hs).of_mem hu) (hus u hu) (fun htop => ?_) fun functions' hF' => ?_
    · obtain ⟨k, hk, hkselects⟩ := Sketch.exists_place_of_not_selects e.config.idAttribute
        (hselects (hhandle ▸ htop)) (Context.root data e.globals functions)
      rw [hk] at husketch
      rwa [← List.mem_singleton.mp husketch] at hkselects
    · obtain rfl : functions' = functions := hF'.trans hF.symm
      exact congrArg Prod.fst ((Sketch.place_again horderly _).1 _ husketch)

/-- Rendering twice with the same data leaves the markup as it is after the first time.  The document is
proper and the engine works on it, the node is live, and below it there are no include bindings and no
callbacks, selecting assigns nothing and the labels of `values` differ; whatever earlier renders left
there, both renders come to an end. -/
theorem renderInPlace_idempotent (hd : d.Proper) (he : e.Fit d) (hnode : d.contains node = true)
    (hinclude : ∀ h ∈ d.subtree node, (e.bindingsAt d node h).include? = none)
    (hcallbacks : ∀ h ∈ d.subtree node, (d.node h).callbacks = [])
    (hselect : ∀ h ∈ d.subtree node, ∀ ev ∈ (e.bindingsAt d node h).select?, ev.assignFree = true)
    (hlabels : ∀ h ∈ d.subtree node,
      (((e.bindingsAt d node h).values?.getD []).map Prod.fst).Nodup) (data : Value) :
    (∃ bound, ∀ budget ≥ bound, ∃ o, e.renderInPlace budget d data node = some o) ∧
      ∀ budget o, e.renderInPlace budget d data node = some o →
        (∃ bound, ∀ budget' ≥ bound, ∃ o',
          o.engine.renderInPlace budget' o.document data node = some o') ∧
        ∀ budget' o', o.engine.renderInPlace budget' o.document data node = some o' →
          o'.document.toMarkup = o.document.toMarkup := by
  obtain ⟨log, s', htrace, log', s'', htrace', hmarkup⟩ :=
    trace_again hd he hnode hinclude hcallbacks hselect hlabels data
  refine ⟨htrace.exists_outcome, fun budget o ho => ?_⟩
  obtain ⟨hengine, hdocument⟩ := htrace.outcome_eq ho
  rw [hengine, hdocument]
  refine ⟨htrace'.exists_outcome, fun budget' o' ho' => ?_⟩
  rw [(htrace'.outcome_eq ho').2, hmarkup]

/-- A list with an attribute for each item, rendered twice. -/
theorem renderInPlace_idempotent_list :
    ∃ d budget o budget' o', Document.ofMarkup
        "<ul><li data-jst-select=\"items\" data-jst-values=\"title=$this\"></li></ul>" = .ok d ∧
      (new 0 .default).renderInPlace budget d (.object [("items", .array [.ofNat 1, .ofNat 2])]) root =
        some o ∧
      o.engine.renderInPlace budget' o.document (.object [("items", .array [.ofNat 1, .ofNat 2])])
        root = some o' ∧
      o'.document.toMarkup = o.document.toMarkup := by
  have hparse : parseMarkup
      "<ul><li data-jst-select=\"items\" data-jst-values=\"title=$this\"></li></ul>" =
        .ok [.element "ul" [] [.element "li"
          [("data-jst-select", "items"), ("data-jst-values", "title=$this")] []]] := by
    decide +kernel
  have hd := Document.ofMarkup_of_parseMarkup hparse
  generalize hdoc : Document.plantAll _ _ _ = d at hd
  have hnode : d.contains root = true := by
    subst hdoc
    decide +kernel
  have hinclude : (d.subtree root).all (fun h =>
      ((new 0 .default).bindingsAt d root h).include?.isNone) = true := by
    subst hdoc
    decide +kernel
  have hcallbacks : (d.subtree root).all (fun h => (d.node h).callbacks.isEmpty) = true := by
    subst hdoc
    decide +kernel
  have hselect : (d.subtree root).all (fun h =>
      ((new 0 .default).bindingsAt d root h).select?.all Evaluator.assignFree) = true := by
    subst hdoc
    decide +kernel
  have hlabels : (d.subtree root).all (fun h => decide
      ((((new 0 .default).bindingsAt d root h).values?.getD []).map Prod.fst).Nodup) = true := by
    subst hdoc
    decide +kernel
  rw [List.all_eq_true] at hinclude hcallbacks hselect hlabels
  obtain ⟨⟨budget, hfirst⟩, hsecond⟩ := renderInPlace_idempotent
    (Document.proper_of_ofMarkup hd) (new_fit 0 .default hd) hnode
    (fun h hh => Option.isNone_iff_eq_none.mp (hinclude h hh))
    (fun h hh => List.isEmpty_iff.mp (hcallbacks h hh))
    (fun h hh ev hev => (Option.all_eq_true _ _).mp (hselect h hh) ev hev)
    (fun h hh => of_decide_eq_true (hlabels h hh))
    (.object [("items", .array [.ofNat 1, .ofNat 2])])
  obtain ⟨o, ho⟩ := hfirst budget (Nat.le_refl budget)
  obtain ⟨⟨budget', hagain⟩, hsame⟩ := hsecond budget o ho
  obtain ⟨o', ho'⟩ := hagain budget' (Nat.le_refl budget')
  exact ⟨d, budget, o, budget', o', hd, ho, ho', hsame budget' o' ho'⟩

end TreeTemplate.Engine
