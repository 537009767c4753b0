import TreeTemplate.Proofs.Document.Scatter
import TreeTemplate.Proofs.Render.Visit

/-!
What a step of a render does to the document.  Looking at nodes moves nothing, finding and copying a
template only adds to the document, and everything else happens inside the subtree of the node that
the step is about (`Stage.act_yields`).  So the nodes of the steps that wait stay live.
-/

namespace TreeTemplate

open Document (Unmoved Grown Kept Yields Rewritten)

variable {d d' d₁ d₂ : Document} {h x : Handle} {n n' m : Node} {ks : List NodeTree}

/-! ### Looking at nodes -/

namespace Scan

theorem lookup_unmoved (s : Scan) (h : Handle) : Unmoved s.document (s.lookup h).2.document := by
  unfold lookup
  split
  · exact .refl
  · dsimp only
    apply Document.modify_unmoved
    intro n
    rfl

theorem prime_unmoved (s : Scan) (h : Handle) : Unmoved s.document (s.prime h).document :=
  prime_keeps (P := fun s' => Unmoved s.document s'.document)
    (fun s' h hs => hs.trans (lookup_unmoved s' h)) .refl h

end Scan

theorem Document.Rewritten.unmoved (hr : Rewritten d d' h n') (hn : d.get? h = some n)
    (hlinks : n'.links = n.links) : Unmoved d d' := by
  refine ⟨fun x => ?_, hr.tidy⟩
  rw [hr.get?_eq]
  split
  · next hx => rw [hx, hn, Option.map_some, Option.map_some, hlinks]
  · rfl

theorem Document.edited_unmoved (hn : d.get? h = some n) (edits : List Edit) :
    Unmoved d (d.edited h edits) := by
  obtain ⟨hparent, hchildren, -⟩ := n.edited_links edits
  exact (Document.edited_rewritten hn edits).unmoved hn (Prod.ext hparent hchildren)

/-! ### Templates -/

/-- A fresh tree without a parent may get another record at its top, with the same links. -/
theorem Document.Grown.rewritten (hg : Grown d d₁ none [.node h n ks]) (hr : Rewritten d₁ d₂ h n')
    (hparent : n'.parent? = n.parent?) (hchildren : n'.children = n.children) :
    Grown d d₂ none [.node h n' ks] := by
  have hheld : d₁.Holds (.node h n ks) := hg.held _ (List.mem_singleton_self _)
  have hhandles : NodeTree.handlesOf [.node h n' ks] = NodeTree.handlesOf [.node h n ks] := by
    simp [NodeTree.handlesOf]
  have hne : ∀ x, x ∉ NodeTree.handlesOf [.node h n ks] → x ≠ h := by
    rintro x hx rfl
    simp at hx
  constructor
  · intro u hu
    rw [List.mem_singleton.mp hu]
    refine hheld.retop hr.get?_self hchildren fun x hx => ?_
    rw [hr.get?_eq, if_neg]
    rintro rfl
    exact hheld.handle_not_mem_kids hx
  · intro u hu
    rw [List.mem_singleton.mp hu]
    exact hparent.trans (hg.parents (.node h n ks) (List.mem_singleton_self _))
  · exact hhandles ▸ hg.nodup
  · exact hhandles ▸ hg.fresh
  · intro x hx hhome
    rw [hhandles] at hx
    rw [hr.get?_eq, if_neg (hne x hx), hg.frame x hx hhome]
  · simp
  · exact hr.vacant.trans hg.vacant

/-- The record of a hidden container. -/
def Node.hiddenContainer (name value : String) : Node :=
  { Node.new (.element "div" [(name, value)]) with parent? := some Document.root, visible := false }

/-- A hidden container is a fresh leaf below the root. -/
theorem Document.createHiddenContainer_grown (ht : d.Tidy) (hroot : d.get? Document.root = some m)
    (name value : String) :
    (d.createHiddenContainer name value).2.Tidy ∧
      Grown d (d.createHiddenContainer name value).2 (some Document.root)
        [.node (d.createHiddenContainer name value).1 (Node.hiddenContainer name value) []] := by
  have ht₁ := ht.alloc (Node.new (.element "div" []))
  have hg₁ := Document.alloc_grown ht (n := Node.new (.element "div" [])) rfl rfl
  unfold Document.createHiddenContainer Document.createElement
  dsimp only
  generalize d.alloc (Node.new (.element "div" [])) = c at ht₁ hg₁ ⊢
  have hn : c.2.get? c.1 = some (Node.new (.element "div" [])) :=
    (hg₁.held _ (List.mem_singleton_self _)).get?_handle
  have hr₂ := Document.setAttribute_rewritten hn name value
  have hr₃ := hr₂.trans (Document.modify_rewritten hr₂.get?_self fun n => { n with visible := false })
  have hg₃ : Grown d _ none [.node c.1 { Node.hiddenContainer name value with parent? := none } []] :=
    hg₁.rewritten hr₃ rfl rfl
  have happended := Document.appendChild_grown hg₃ (hr₃.tidy ht₁) hroot
  rw [NodeTree.handle_node, NodeTree.rehomed] at happended
  exact happended

namespace Templates

variable {t : Templates} {plan : Plan} {loader? : Option Loader} {reference : String}

/-- An element that is found is live. -/
theorem live_of_named? (hd : d.Forest) (hx : t.named? d reference = some x) :
    ∃ n, d.get? x = some n := by
  obtain ⟨r, hr, -⟩ := hd.rooted
  obtain ⟨ks, ht⟩ := hd.held Document.root r hr
  have hmem : x ∈ d.subtree Document.root := (List.mem_filter.mp (List.mem_of_find?_eq_some hx)).1
  have hsubtree : d.subtree Document.root = _ := Document.subtree_eq ht
  rw [hsubtree] at hmem
  exact ht.get?_of_mem hmem

/-- What finding a template does to a document: it only adds to it, and what is found is live. -/
structure Finds (d : Document) (node? : Option Handle) (d' : Document) : Prop where
  forest : d'.Forest
  kept : Kept d d'
  live : ∀ x, node? = some x → ∃ n, d'.get? x = some n

theorem container_finds (t : Templates) (hd : d.Forest) :
    Finds d (some (t.container d).1) (t.container d).2 := by
  unfold container
  split
  · next x hx =>
    refine ⟨hd, .refl, fun y hy => ?_⟩
    obtain rfl := Option.some.inj hy
    exact live_of_named? hd hx
  · obtain ⟨r, hr, -⟩ := hd.rooted
    obtain ⟨ht, hg⟩ := Document.createHiddenContainer_grown hd.tidy hr t.idAttribute t.containerId
    refine ⟨hd.grown (fun p hp => ⟨r, Option.some.inj hp ▸ hr⟩) hg ht, hg.kept, fun y hy => ?_⟩
    obtain rfl := Option.some.inj hy
    exact ⟨_, (hg.held _ (List.mem_singleton_self _)).get?_handle⟩

theorem findLoaded_finds (t : Templates) (hd : d.Forest) (reference : String)
    (markup? : Option String) :
    Finds d (t.findLoaded d reference markup?).1 (t.findLoaded d reference markup?).2 := by
  unfold findLoaded
  cases markup? with
  | none => exact ⟨hd, .refl, fun y hy => live_of_named? hd hy⟩
  | some markup =>
    have hc := container_finds t hd
    dsimp only
    generalize t.container d = c at hc ⊢
    obtain ⟨container, d₁⟩ := c
    obtain ⟨n, hn⟩ := hc.live container rfl
    dsimp only at hn ⊢
    cases happend : d₁.appendMarkup container markup with
    | error e => exact ⟨hc.forest, hc.kept, by simp⟩
    | ok d₂ =>
      have hd₂ := hc.forest.appendMarkup hn happend
      obtain ⟨-, us, hg⟩ := Document.appendMarkup_grown hc.forest.tidy hn happend
      exact ⟨hd₂, hc.kept.trans hg.kept, fun y hy => live_of_named? hd₂ hy⟩

theorem find_finds (t : Templates) (hd : d.Forest) (loader? : Option Loader) (reference : String) :
    Finds d (t.find loader? d reference).node? (t.find loader? d reference).document := by
  unfold find
  split
  · exact ⟨hd, .refl, by simp⟩
  · split
    · next x _ hx =>
      exact ⟨hd, .refl, fun y hy => live_of_named? hd (hx.trans hy)⟩
    · exact ⟨hd, .refl, by simp⟩
    · next load _ => exact findLoaded_finds t hd reference (load reference)

/-- A copy of a live node is fresh, and has no parent. -/
structure Copies (d : Document) (copy : Handle) (d' : Document) : Prop where
  forest : d'.Forest
  kept : Kept d d'
  fresh : d.get? copy = none
  top : ∃ n, d'.get? copy = some n ∧ n.parent? = none

theorem deepClone_copies (hd : d.Forest) (hn : d.get? h = some n) :
    Copies d (d.deepClone h).1 (d.deepClone h).2 := by
  obtain ⟨ks, ht⟩ := hd.held h n hn
  obtain ⟨htidy, u, hu, -, hg⟩ := Document.deepClone_grown hd.tidy ht
  have huu := List.mem_singleton_self u
  rw [NodeTree.handle_node] at hu hg htidy
  constructor
  · exact hd.grown (by simp) hg htidy
  · exact hg.kept
  · rw [← hu]
    exact hg.fresh u.handle (NodeTree.mem_handlesOf_of_mem huu u.handle_mem_handles)
  · rw [← hu]
    exact ⟨u.record, (hg.held u huu).get?_handle, hg.parents u huu⟩

/-- Records may change before and after copying. -/
theorem Copies.unmoved {c : Handle} (hu : Unmoved d d₁) (hc : Copies d₁ c d₂) (hu' : Unmoved d₂ d') :
    Copies d c d' := by
  constructor
  · exact hc.forest.unmoved hu'
  · exact (hu.kept.trans hc.kept).trans hu'.kept
  · exact hu.kept.not_live hc.fresh
  · obtain ⟨n, hn, hp⟩ := hc.top
    obtain ⟨n', hn', hlinks⟩ := hu'.get?_after hn
    exact ⟨n', hn', (congrArg Prod.fst hlinks).trans hp⟩

theorem clone_copies (t : Templates) {s : Scan} (hd : s.document.Forest)
    (hn : s.document.get? h = some n) :
    Copies s.document (t.clone s h).1 (t.clone s h).2.document := by
  have hprimed := Scan.prime_unmoved s h
  obtain ⟨n₁, hn₁, -⟩ := hprimed.get?_after hn
  have hc := deepClone_copies (hd.unmoved hprimed) hn₁
  unfold clone
  dsimp only
  exact hc.unmoved hprimed (Document.removeAttribute_unmoved _ _ t.idAttribute)

end Templates

/-! ### Giving way -/

namespace Document.Yields

/-- Without anything in its place a node may stay as it is. -/
theorem nothing (hd : d.Forest) (hn : d.get? x = some n) : Yields d d x [] :=
  (self hd hn).sublist (List.nil_sublist _)

/-- A node that is removed leaves nothing; the root stays. -/
theorem remove (hd : d.Forest) (hn : d.get? x = some n) : Yields d (d.remove x) x [] := by
  by_cases hroot : x = Document.root
  · subst hroot
    have heq : d.remove Document.root = d := by simp only [Document.remove, hn, if_true]
    rw [heq]
    exact nothing hd hn
  · obtain ⟨ks, hs⟩ := hd.seated hn
    obtain ⟨-, hr⟩ := Document.remove_regrown hs hd.tidy hroot
    exact regrown hd hs hr (hd.remove hn)

/-- A node with other content stands for itself, and nothing inside it. -/
theorem applyContent (hd : d.Forest) (hn : d.get? x = some n) (v : Value) (clear : Bool) :
    Yields d (d.applyContent x v clear) x [x] := by
  obtain ⟨ks, hs⟩ := hd.seated hn
  obtain ⟨ht, ks', -, hr⟩ := Document.applyContent_regrown hs hd.tidy v clear
  refine regrown hd hs hr (hd.regrown hs hr ht fun hmem => ?_)
  have htop := hd.handle_eq_root (hs.held _ (List.mem_singleton_self _)) (by simpa using hmem)
  simpa using htop.symm

end Document.Yields

namespace Stage

variable {plan : Plan} {s : Stage} {context : ContextId} {node : Handle}

/-- The nodes of the steps that a step pushes, in the order in which they come. -/
def targets (queues : List (List Step)) : List Handle :=
  queues.reverse.flatten.filterMap Step.node?

theorem bindingsOf_unmoved (s : Stage) (h : Handle) :
    Unmoved s.document (s.bindingsOf h).2.document :=
  Scan.lookup_unmoved s.toScan h

/-- What is resolved is a copy; the document only grows. -/
theorem resolveTemplate_copies (plan : Plan) (hd : s.document.Forest) (reference : String) :
    (s.resolveTemplate plan reference).2.document.Forest ∧
      Kept s.document (s.resolveTemplate plan reference).2.document ∧
      ∀ copy, (s.resolveTemplate plan reference).1 = some copy →
        Templates.Copies s.document copy (s.resolveTemplate plan reference).2.document := by
  have hfound := Templates.find_finds plan.templates hd plan.loader? reference
  have hresolved := resolveTemplate_resolution plan s reference
  generalize s.resolveTemplate plan reference = r at hresolved ⊢
  cases hresolved with
  | missing _ hscan =>
    rw [hscan]
    exact ⟨hfound.forest, hfound.kept, by simp⟩
  | copied hnode hclone =>
    obtain ⟨n, hn⟩ := hfound.live _ hnode
    have hc := Templates.clone_copies plan.templates (s := s.sought plan reference) hfound.forest hn
    rw [hclone] at hc
    refine ⟨hc.forest, hfound.kept.trans hc.kept, fun copy hcopy => ?_⟩
    obtain rfl := Option.some.inj hcopy
    exact ⟨hc.forest, hfound.kept.trans hc.kept, hfound.kept.not_live hc.fresh, hc.top⟩

theorem transclude_yields (hd : s.document.Forest) (hn : s.document.get? node = some n)
    (reference : String) :
    Yields s.document (s.transclude plan context node reference).1.document node
      (targets (s.transclude plan context node reference).2) := by
  obtain ⟨hd₁, hk, hcopies⟩ := resolveTemplate_copies plan hd reference
  unfold transclude
  generalize s.resolveTemplate plan reference = r at hd₁ hk hcopies ⊢
  obtain ⟨copy?, s₁⟩ := r
  cases copy? with
  | none =>
    obtain ⟨n₁, hn₁, -⟩ := hk node n trivial hn
    exact (Yields.remove hd₁ hn₁).of_kept hd.links hn hk
  | some copy =>
    have hc := hcopies copy rfl
    obtain ⟨m, hm, hfree⟩ := hc.top
    exact Yields.exchange hd hn hk hd₁ hc.fresh hm hfree

/-- Scheduling fills some of the nodes, in their order. -/
theorem targets_schedule (parent : ContextId) (count index : Nat) (nodes : List Handle)
    (items : List Value) (p : Pool) :
    ((schedule parent count index nodes items p).1.filterMap Step.node?).Sublist nodes := by
  induction nodes generalizing index items p with
  | nil => simp [schedule]
  | cons h nodes ih =>
    cases items with
    | nil => simp [schedule]
    | cons v items =>
      rw [schedule]
      exact (ih _ _ _).cons_cons h

/-- What is filled with the items of a list are the nodes that were handed on. -/
theorem queueItems_yields {ys : List Handle} (hy : Yields d s.document node ys) (parent : ContextId)
    (count index : Nat) (items : List Value) :
    Yields d (s.queueItems parent count index ys items).1.document node
      (targets (s.queueItems parent count index ys items).2) := by
  apply hy.sublist
  simp only [targets, queueItems, List.reverse_singleton, List.flatten_singleton]
  exact targets_schedule parent count index ys items s.pool

/-- The nodes that a list makes of a node stand where it stood. -/
theorem instances_yield (hd : d.Forest) (hn : d.get? x = some n) (change : ListChange) (count : Nat) :
    Yields d (change.apply x count d).2 x (change.apply x count d).1.nodes := by
  obtain ⟨ks, hs⟩ := hd.seated hn
  by_cases hconceal : change = .conceal
  · subst hconceal
    have hmarked : Unmoved d (d.setMarker x (some ⟨0, true⟩)) := by
      apply Document.modify_unmoved
      intro m
      rfl
    exact (Yields.nothing hd hn).unmoved (hmarked.trans (Document.setVisible_unmoved _ x false))
  by_cases hdiscard : change = .discard
  · subst hdiscard
    exact Yields.remove hd hn
  obtain ⟨ht, us, -, -, hinstances, hr⟩ :=
    ListChange.apply_regrown count hs hd.tidy hconceal hdiscard
  have hself : x ∈ (change.apply x count d).1.nodes := by
    cases change with
    | conceal => exact absurd rfl hconceal
    | discard => exact absurd rfl hdiscard
    | spread | grow index | keep index => simp [ListChange.apply]
  rw [NodeTree.handle_node] at ht hinstances hr
  rw [hinstances, ← NodeTree.map_handle_stamped count (change.extent count).1] at hself ⊢
  refine Yields.regrown hd hs hr (hd.regrown hs hr ht fun hmem => ?_)
  have htop := hd.handle_eq_root (hs.held _ (List.mem_singleton_self _)) (by simpa using hmem)
  rw [NodeTree.handle_node] at htop
  rwa [← htop]

theorem select_yields (hd : s.document.Forest) (hn : s.document.get? node = some n)
    (context : ContextId) (v : Value) :
    Yields s.document (s.select context node v).1.document node
      (targets (s.select context node v).2) := by
  have hshown : ∀ visible, Unmoved s.document (s.document.setVisible node visible) := fun visible =>
    Document.setVisible_unmoved _ _ visible
  have hself : Yields s.document (s.document.setVisible node true) node [node] :=
    (Yields.self hd hn).unmoved (hshown true)
  cases v with
  | null => exact (Yields.nothing hd hn).unmoved (hshown false)
  | array items => exact queueItems_yields (instances_yield hd hn _ _) _ _ _ _
  | bool _ | number _ | string _ | object _ => exact queueItems_yields hself _ _ _ _

/-- What filling a node comes to: its record is edited where it is, and then its element children are queued,
or other content is written, or that is all. -/
inductive Filled (plan : Plan) (s : Stage) (context : ContextId) (node : Handle) :
    Stage × List (List Step) → Prop
  | left {s' : Stage} (edits : List Edit)
    (hdocument : s'.document = (s.bindingsOf node).2.document.edited node edits) :
    Filled plan s context node (s', [])
  | written {s' : Stage} (edits : List Edit) (value : Value) (clear : Bool)
    (hdocument : s'.document =
      ((s.bindingsOf node).2.document.edited node edits).applyContent node value clear) :
    Filled plan s context node (s', [])
  | opened {s' : Stage} (edits : List Edit)
    (hdocument : s'.document = (s.bindingsOf node).2.document.edited node edits) :
    Filled plan s context node (s', [(s'.document.elementChildren node).map (Step.place context)])

theorem fillNode_filled (hn : s.document.get? node = some n) (plan : Plan) (context : ContextId) :
    Filled plan s context node (s.fillNode plan context node) := by
  obtain ⟨n₁, hn₁, -⟩ := (bindingsOf_unmoved s node).get?_after hn
  unfold fillNode
  dsimp only
  cases (s.bindingsOf node).2.pool.get? context with
  | none => exact .left [] rfl
  | some c =>
    dsimp only
    rw [← Plan.stripped, ← edited_baring]
    obtain ⟨hdescends, hdocument, -⟩ := Filling.fill_eq plan.templates.idAttribute
      (s.bindingsOf node).1 ⟨(s.bindingsOf node).2.document.edited node plan.baring, c, []⟩
      (Document.edited_rewritten hn₁ plan.baring).get?_self
    rw [← Document.edited_append] at hdocument
    generalize survey plan.templates.idAttribute _ _ c = v at hdescends hdocument
    generalize Filling.fill (s.bindingsOf node).1 node _ = r at hdescends hdocument ⊢
    obtain ⟨descends, f⟩ := r
    obtain ⟨edits, verdict, c'⟩ := v
    cases verdict with
    | leave =>
      obtain rfl : descends = false := hdescends
      exact .left _ hdocument
    | write value clear =>
      obtain rfl : descends = false := hdescends
      exact .written _ value clear hdocument
    | descend =>
      obtain rfl : descends = true := hdescends
      exact .opened _ hdocument

/-- Filling a node gives way to the children that are to be visited, if any. -/
theorem fillNode_yields (hd : s.document.Forest) (hn : s.document.get? node = some n)
    (plan : Plan) (context : ContextId) :
    Yields s.document (s.fillNode plan context node).1.document node
      (targets (s.fillNode plan context node).2) := by
  have hseen := bindingsOf_unmoved s node
  obtain ⟨n₁, hn₁, -⟩ := hseen.get?_after hn
  have hedited := fun edits => hseen.trans (Document.edited_unmoved hn₁ edits)
  have hfilled := fillNode_filled hn plan context
  generalize s.fillNode plan context node = r at hfilled ⊢
  cases hfilled with
  | left edits hdocument =>
    rw [hdocument]
    exact (Yields.nothing hd hn).unmoved (hedited edits)
  | written edits value clear hdocument =>
    obtain ⟨n₂, hn₂, -⟩ := (hedited edits).get?_after hn
    have hwritten := (Yields.applyContent (hd.unmoved (hedited edits)) hn₂ value clear).of_kept hd.links hn
      (hedited edits).kept
    rw [← hdocument] at hwritten
    exact hwritten.sublist (List.nil_sublist _)
  | opened edits hdocument =>
    have hunmoved := hedited edits
    rw [← hdocument] at hunmoved
    obtain ⟨n₂, hn₂, -⟩ := hunmoved.get?_after hn
    have hchildren := (Yields.children (hd.unmoved hunmoved) hn₂).of_kept hd.links hn hunmoved.kept
    apply hchildren.sublist
    simp only [targets, List.reverse_singleton, List.flatten_singleton, Document.elementChildren,
      Document.node_of_get? hn₂]
    rw [List.filterMap_map, show Step.node? ∘ Step.place context = some from rfl, List.filterMap_some]
    exact List.filter_sublist

theorem execute?_document {s' : Stage} {e : Evaluator} {v : Value}
    (he : s.execute? context e = some (v, s')) : s'.document = s.document := by
  obtain ⟨c, -, hc⟩ := Option.map_eq_some_iff.mp he
  obtain rfl := (Prod.mk.inj hc).2
  rfl

theorem reference?_document {s' : Stage} {i : Inclusion} {reference : String}
    (hr : s.reference? context i = some (reference, s')) : s'.document = s.document := by
  cases i with
  | literal id =>
    obtain rfl := (Prod.mk.inj (Option.some.inj hr)).2
    rfl
  | computed e =>
    obtain ⟨⟨v, s₁⟩, he, hv⟩ := Option.map_eq_some_iff.mp hr
    obtain rfl := (Prod.mk.inj hv).2
    exact execute?_document he

/-- Placing a node gives way to what stands in its place. -/
theorem placeNode_yields (hd : s.document.Forest) (hn : s.document.get? node = some n)
    (plan : Plan) (context : ContextId) :
    Yields s.document (s.placeNode plan context node).1.document node
      (targets (s.placeNode plan context node).2) := by
  have hseen := bindingsOf_unmoved s node
  have hd₁ := hd.unmoved hseen
  obtain ⟨n₁, hn₁, -⟩ := hseen.get?_after hn
  have hplaced := placeNode_placement plan s context node
  generalize s.placeNode plan context node = r at hplaced ⊢
  cases hplaced with
  | unreferenced _ _ | unvalued _ _ _ => exact (Yields.nothing hd hn).unmoved hseen
  | included _ hreference =>
    rw [← reference?_document hreference] at hd₁ hn₁ hseen
    exact (transclude_yields hd₁ hn₁ _).of_kept hd.links hn hseen.kept
  | selected _ _ hvalue =>
    rw [← execute?_document hvalue] at hd₁ hn₁ hseen
    exact (select_yields hd₁ hn₁ context _).of_kept hd.links hn hseen.kept
  | filled _ _ => exact (fillNode_yields hd₁ hn₁ plan context).of_kept hd.links hn hseen.kept

/-- A step works inside the subtree of its node, and what it pushes comes from there. -/
theorem act_yields {st : Step} (hd : s.document.Forest) (hnode : st.node? = some node)
    (hn : s.document.get? node = some n) (plan : Plan) :
    Yields s.document (act plan s st).1.document node (targets (act plan s st).2) := by
  cases st with
  | place context x =>
    obtain rfl : x = node := Option.some.inj hnode
    exact placeNode_yields hd hn plan context
  | fill context x =>
    obtain rfl : x = node := Option.some.inj hnode
    exact fillNode_yields hd hn plan context
  | release context => simp [Step.node?] at hnode

/-- The nodes of the steps that wait are live and stay outside each other. -/
structure Ranged (s : Stage) (steps : List Step) : Prop where
  forest : s.document.Forest
  scattered : s.document.Scattered (steps.filterMap Step.node?)

/-- Doing the first of the steps that wait keeps the nodes of the others, and of those that it pushes,
live. -/
theorem Ranged.act {st : Step} {steps : List Step} (hr : Ranged s (st :: steps)) (plan : Plan) :
    Ranged (act plan s st).1 ((act plan s st).2.reverse.flatten ++ steps) := by
  cases hnode : st.node? with
  | none =>
    cases st with
    | place context x => simp [Step.node?] at hnode
    | fill context x => simp [Step.node?] at hnode
    | release context => exact ⟨hr.forest, hr.scattered⟩
  | some node =>
    have hscattered := hr.scattered
    rw [List.filterMap_cons_some hnode] at hscattered
    obtain ⟨n, hn⟩ := hscattered.head_live
    have hy := act_yields hr.forest hnode hn plan
    refine ⟨hy.forest, ?_⟩
    rw [List.filterMap_append]
    exact hy.scattered_append hr.forest.links hscattered

theorem Ranged.live {st : Step} {steps : List Step} (hr : Ranged s (st :: steps))
    (hnode : st.node? = some node) : s.document.contains node = true := by
  have hscattered := hr.scattered
  rw [List.filterMap_cons_some hnode] at hscattered
  obtain ⟨n, hn⟩ := hscattered.head_live
  exact Document.contains_of_get? hn

end Stage

end TreeTemplate
