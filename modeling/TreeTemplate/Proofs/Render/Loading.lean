import TreeTemplate.Proofs.Document.Accretion
import TreeTemplate.Proofs.Render.Frame

/-!
What becomes of loaded templates.  Looking for a template only adds to a document, and below the container
of loaded templates nothing is added, so a step of a render whose node is neither above the container nor in
it leaves the templates there as they were loaded (`Stage.act_accretes`).  A render of a node apart from the
container hence only appends to its inner markup (`Engine.render_appends`).  A render of the root, in which
the container is a child like any other, does not leave it alone.
-/

namespace TreeTemplate

open Document (Accretes Retains Spares root)

variable {d d₀ d₁ : Document} {c : Handle} {n : Node}

namespace Templates

variable {t : Templates}

/-- Whether a node has the identity of the container of loaded templates. -/
def isContainer (t : Templates) (d : Document) (h : Handle) : Bool :=
  (d.node h).isElement ∧ d.attribute? h t.idAttribute = some t.containerId

theorem isContainer_congr {h : Handle} (hcontent : (d₁.node h).content = (d.node h).content) :
    t.isContainer d₁ h = t.isContainer d h := by
  rw [isContainer, isContainer, decide_eq_decide, Document.attribute?, Document.attribute?,
    Node.isElement_congr hcontent, Node.attribute?_of_content hcontent]

theorem named?_containerId (t : Templates) (d : Document) :
    t.named? d t.containerId = (d.subtree root).find? (t.isContainer d) := by
  rw [named?, Document.find?, Document.descendants, List.find?_filter]
  simp only [decide_eq_true_eq]
  rfl

/-- The node `c` has the identity of the container, and a place in the document. -/
structure Container (t : Templates) (d : Document) (c : Handle) : Prop where
  live : ∃ n, d.get? c = some n
  named : t.isContainer d c = true
  below : d.Above root c

theorem container_of_named? (hd : d.Forest) (hc : t.named? d t.containerId = some c) :
    t.Container d c := by
  obtain ⟨r, hr, -⟩ := hd.rooted
  obtain ⟨ks, ht⟩ := hd.held root r hr
  have hlive := live_of_named? hd hc
  rw [named?_containerId] at hc
  refine ⟨hlive, List.find?_some hc, ht.above_of_mem ?_⟩
  rw [← Document.subtree_eq ht]
  exact List.mem_of_find?_eq_some hc

/-- What is found in its name is the container itself, or a node that is not below it. -/
theorem Container.found (hc : t.Container d c) (hd : d.Forest) :
    ∃ p, t.named? d t.containerId = some p ∧ (d.Above c p → p = c) := by
  obtain ⟨r, hr, -⟩ := hd.rooted
  obtain ⟨ks, ht⟩ := hd.held root r hr
  have hmem := (hd.mem_handles_iff ht).mpr hc.below
  obtain ⟨p, hp⟩ := Option.isSome_iff_exists.mp (List.find?_isSome.mpr ⟨c, hmem, hc.named⟩)
  refine ⟨p, ?_, hd.links.eq_of_find?_handles ht hmem hc.named hp⟩
  rw [named?_containerId, ← hp]
  exact congrArg (List.find? _) (Document.subtree_eq ht)

/-- The container stays the container while its content and what is above it do. -/
theorem Container.accretes (hc : t.Container d c) (ha : Accretes d d₁ c) (hbelow : d₁.Above root c) :
    t.Container d₁ c := by
  obtain ⟨n, hn⟩ := hc.live
  obtain ⟨n', more, hn', heq⟩ := ha.top n hn
  have hcontent : n'.content = n.content := by
    simpa [Node.unscanned] using congrArg Node.content heq
  have hsame : (d₁.node c).content = (d.node c).content := by
    rw [Document.node_of_get? hn', Document.node_of_get? hn, hcontent]
  exact ⟨⟨n', hn'⟩, (isContainer_congr hsame).trans hc.named, hbelow⟩

theorem Container.retains (hc : t.Container d c) (hd : d.Links) (hr : Retains d d₁) :
    t.Container d₁ c := by
  refine hc.accretes hr.accretes ?_
  rw [hd.above_iff_of_kept hr.kept hc.live]
  exact hc.below

/-- Looking for a template leaves those that were loaded before. -/
theorem find_accretes (hc : t.Container d c) (hd : d.Forest) (loader? : Option Loader)
    (reference : String) : Accretes d (t.find loader? d reference).document c := by
  obtain ⟨p, hp, hbefore⟩ := hc.found hd
  obtain ⟨m, hm⟩ := live_of_named? hd hp
  have hcontainer : t.container d = (p, d) := by
    unfold container
    rw [hp]
  refine t.find_keeps (P := fun d' => Accretes d d' c) Retains.refl.accretes ?_ (fun source d₁ happend => ?_)
    loader? reference
  · rw [hcontainer]
    exact Retains.refl.accretes
  · rw [hcontainer] at happend
    obtain ⟨-, us, hg⟩ := Document.appendMarkup_grown hd.tidy hm happend
    exact hg.accretes hbefore

end Templates

namespace Stage

variable {plan : Plan} {s : Stage} {node : Handle} {steps : List Step}

theorem transclude_accretes (hd : s.document.Forest) (hn : s.document.get? node = some n)
    (hc : plan.templates.Container s.document c)
    (happart : ¬ s.document.Above node c ∧ ¬ s.document.Above c node) (reference : String) :
    Accretes s.document (s.transclude plan context node reference).1.document c := by
  have hfinds := Templates.find_finds plan.templates hd plan.loader? reference
  have hfound := Templates.find_accretes hc hd plan.loader? reference
  have hresolved := resolveTemplate_resolution plan s reference
  unfold transclude
  generalize s.resolveTemplate plan reference = r at hresolved ⊢
  have hlinks := hfinds.forest.links
  obtain ⟨n₁, hn₁, -⟩ := hfinds.kept node n trivial hn
  rw [← hd.links.above_iff_of_kept hfinds.kept hc.live,
    ← hd.links.above_iff_of_kept hfinds.kept ⟨n, hn⟩] at happart
  cases hresolved with
  | missing _ hscan =>
    dsimp only [edit]
    rw [hscan]
    exact hfound.trans ((Spares.remove hfinds.forest hn₁).accretes hlinks happart.1 happart.2)
  | copied hnode hclone =>
    obtain ⟨k, hk⟩ := hfinds.live _ hnode
    have hcopies := Templates.clone_copies plan.templates (s := s.sought plan reference) hfinds.forest hk
    have hretains := Templates.clone_retains plan.templates (s := s.sought plan reference) hfinds.forest hk
    rw [hclone] at hcopies hretains
    obtain ⟨l, hl, hfree⟩ := hcopies.top
    have hexchange := Spares.exchange hfinds.forest hn₁ hretains hcopies.forest hcopies.fresh hl hfree
    exact hfound.trans (hexchange.accretes hlinks happart.1 happart.2)

/-- Placing a node leaves the templates in a container apart from it. -/
theorem placeNode_accretes (hd : s.document.Forest) (hn : s.document.get? node = some n)
    (hc : plan.templates.Container s.document c)
    (happart : ¬ s.document.Above node c ∧ ¬ s.document.Above c node) (context : ContextId) :
    Accretes s.document (s.placeNode plan context node).1.document c := by
  have hseen := bindingsOf_retains s node
  have hunmoved := bindingsOf_unmoved s node
  have hd₁ := hd.unmoved hunmoved
  obtain ⟨n₁, hn₁, -⟩ := hseen node n hn
  have hc₁ := hc.retains hd.links hseen
  rw [← hunmoved.above_iff, ← hunmoved.above_iff] at happart
  have hplaced := placeNode_placement plan s context node
  generalize s.placeNode plan context node = r at hplaced ⊢
  refine hseen.accretes.trans ?_
  cases hplaced with
  | unreferenced _ _ | unvalued _ _ _ => exact Retains.refl.accretes
  | included _ hreference =>
    rw [← reference?_document hreference] at hd₁ hn₁ hc₁ happart ⊢
    exact transclude_accretes hd₁ hn₁ hc₁ happart _
  | selected _ _ hvalue =>
    rw [← execute?_document hvalue] at hd₁ hn₁ happart ⊢
    exact (select_spares hd₁ hn₁ context _).accretes hd₁.links happart.1 happart.2
  | filled _ _ => exact (fillNode_spares hd₁ hn₁ plan context).accretes hd₁.links happart.1 happart.2

/-- A step leaves the templates in a container apart from its node. -/
theorem act_accretes {st : Step} (hd : s.document.Forest) (hnode : st.node? = some node)
    (hn : s.document.get? node = some n) (hc : plan.templates.Container s.document c)
    (happart : ¬ s.document.Above node c ∧ ¬ s.document.Above c node) :
    Accretes s.document (act plan s st).1.document c := by
  cases st with
  | place context x =>
    obtain rfl : x = node := Option.some.inj hnode
    exact placeNode_accretes hd hn hc happart context
  | fill context x =>
    obtain rfl : x = node := Option.some.inj hnode
    exact (fillNode_spares hd hn plan context).accretes hd.links happart.1 happart.2
  | release context => simp [Step.node?] at hnode

/-- The container `c` of a stage is apart from the nodes of the steps that wait, and holds what it held in
`d₀` before anything else. -/
structure Shelved (plan : Plan) (d₀ : Document) (c : Handle) (s : Stage) (steps : List Step) :
    Prop where
  forest : s.document.Forest
  scattered : s.document.Scattered (steps.filterMap Step.node? ++ [c])
  container : plan.templates.Container s.document c
  accretes : Accretes d₀ s.document c

/-- Doing the first of the steps that wait leaves what the container holds. -/
theorem Shelved.act {st : Step} (hs : Shelved plan d₀ c s (st :: steps)) :
    Shelved plan d₀ c (act plan s st).1 ((act plan s st).2.reverse.flatten ++ steps) := by
  cases hnode : st.node? with
  | none =>
    cases st with
    | place context x => simp [Step.node?] at hnode
    | fill context x => simp [Step.node?] at hnode
    | release context => exact ⟨hs.forest, hs.scattered, hs.container, hs.accretes⟩
  | some node =>
    have hscattered := hs.scattered
    rw [List.filterMap_cons_some hnode, List.cons_append] at hscattered
    obtain ⟨n, hn⟩ := hscattered.head_live
    have happart := (List.pairwise_cons.mp hscattered.apart).1 c (by simp)
    have hyields := act_yields hs.forest hnode hn plan
    have haccretes := act_accretes hs.forest hnode hn hs.container happart
    refine ⟨hyields.forest, ?_, ?_, hs.accretes.trans haccretes⟩
    · rw [List.filterMap_append, List.append_assoc]
      exact hyields.scattered_append hs.forest.links hscattered
    · refine hs.container.accretes haccretes ?_
      rw [hs.forest.links.above_iff_of_spared hyields.spared happart.1 hs.container.live]
      exact hs.container.below

end Stage

namespace Engine

variable {e : Engine} {s : Stage} {data : Value} {parent? : Option Value} {node : Handle}
  {inPlace : Bool} {budget : Nat}

/-- At every point of a render apart from the container, its inner markup begins with what it was. -/
theorem Reaches.shelved {log : List (Stage × Step)} {w : WorkStack Step} {s' : Stage}
    (h : e.Reaches s data parent? node inPlace log w s') (hd : s.document.Forest)
    (hn : s.document.get? node = some n) (hc : e.templates.Container s.document c)
    (happart : ¬ s.document.Above node c ∧ ¬ s.document.Above c node) :
    Stage.Shelved (e.plan inPlace) s.document c s' w.pending := by
  have hprimed : Retains s.document (e.begun s data parent? node).document :=
    Scan.prime_retains s.toScan node
  have hunmoved : Document.Unmoved s.document (e.begun s data parent? node).document :=
    Scan.prime_unmoved s.toScan node
  obtain ⟨n', hn', -⟩ := hprimed node n hn
  have hc' := hc.retains hd.links hprimed
  obtain ⟨m, hm⟩ := hc'.live
  rw [← hunmoved.above_iff, ← hunmoved.above_iff] at happart
  refine h.invariant (fun _ s₁ steps => Stage.Shelved (e.plan inPlace) s.document c s₁ steps) ?_ ?_
  · have hscattered : (e.begun s data parent? node).document.Scattered [node, c] :=
      ⟨by simp [hn', hm], by simp [happart]⟩
    exact ⟨hd.unmoved hunmoved, hscattered, hc', hprimed.accretes⟩
  · intro _ s₁ st waiting hs
    exact hs.act

/-- A render of a node that is neither above the container of loaded templates nor in it appends at most to
the inner markup of the container. -/
theorem render_appends {o : Outcome WalkStats} (hd : d.WellFormed) (hnode : d.contains node = true)
    (hc : e.templates.named? d e.templates.containerId = some c)
    (happart : ¬ d.Above node c ∧ ¬ d.Above c node)
    (h : e.render budget d data parent? node inPlace = some o) :
    ∃ more, o.document.innerMarkup c = d.innerMarkup c ++ more := by
  obtain ⟨n, hn⟩ := Document.exists_of_contains hnode
  obtain ⟨m, hm⟩ := Templates.live_of_named? hd.forest hc
  obtain ⟨⟨s', stats⟩, hrender, rfl⟩ := Option.map_eq_some_iff.mp h
  obtain ⟨log, w, last, hreaches, -, rfl⟩ := exists_reaches_of_renderOn hrender
  have hshelved := hreaches.shelved (s := e.stage d) hd.forest hn
    (Templates.container_of_named? hd.forest hc) happart
  exact hshelved.accretes.innerMarkup_eq hd.forest hm

/-- The root is above the container: the first render of it makes the container and leaves the template in
it as it was loaded, the second one fills the template too. -/
example :
    let e := (new 0 .default).setLoader
      (some fun _ => some "<b id=\"t\" data-jst-content=\"x\"></b>")
    let d := Document.plantAll .empty root [.element "i" [("data-jst-include", "#t")] []]
    let shelf := fun d : Document => (e.templates.named? d e.templates.containerId).map d.innerMarkup
    ((e.render 9 d (.object [("x", .string "1")]) none root true).bind fun o =>
      (o.engine.render 9 o.document (.object [("x", .string "1")]) none root true).map fun o' =>
        [shelf o.document, shelf o'.document]) =
      some [some "<b id=\"t\" data-jst-content=\"x\"></b>",
        some "<b id=\"t\" data-jst-content=\"x\">1</b>"] := by
  decide +kernel

end Engine

end TreeTemplate
