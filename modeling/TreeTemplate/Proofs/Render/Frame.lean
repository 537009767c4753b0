import TreeTemplate.Proofs.Document.Frame
import TreeTemplate.Proofs.Lifetime

/-!
What a render leaves alone.  Without a loader a step changes the document only inside the subtree of
its node (`Stage.act_spares`), and all nodes that it goes on with are from there, so a whole render
changes only what is inside the subtree of the node that it renders (`Engine.Reaches.spares`).
-/

namespace TreeTemplate

open Document (Retains Spares Rewritten Unmoved root)

variable {d d' : Document} {h x : Handle} {n n' : Node}

namespace Scan

theorem lookup_retains (s : Scan) (h : Handle) : Retains s.document (s.lookup h).2.document := by
  unfold lookup
  split
  · exact .refl
  · exact Document.setBindingRef_retains _ _ _

theorem prime_retains (s : Scan) (h : Handle) : Retains s.document (s.prime h).document :=
  prime_keeps (P := fun s' => Retains s.document s'.document)
    (fun s' h hs => hs.trans (lookup_retains s' h)) .refl h

end Scan

theorem Document.Rewritten.spares (hr : Rewritten d d' x n') : Spares d d' x := by
  intro y n hn hy
  refine ⟨n, ?_, .of_unscanned rfl⟩
  rw [hr.get?_eq, if_neg, hn]
  rintro rfl
  exact hy .refl

/-- A node that was not there before may be changed. -/
theorem Document.Retains.rewritten {d₁ : Document} (hk : Retains d d₁) (hr : Rewritten d₁ d' x n')
    (hx : d.get? x = none) : Retains d d' := by
  intro y n hn
  obtain ⟨n₁, hn₁, heq⟩ := hk y n hn
  refine ⟨n₁, ?_, heq⟩
  rw [hr.get?_eq, if_neg, hn₁]
  rintro rfl
  simp [hx] at hn

namespace Templates

variable {t : Templates}

theorem find_document (t : Templates) (d : Document) (reference : String) :
    (t.find none d reference).document = d := by
  unfold find
  split
  · rfl
  · split <;> first | rfl | contradiction

/-- A copy of a template leaves every node as it was. -/
theorem clone_retains (t : Templates) {s : Scan} (hd : s.document.Forest)
    (hn : s.document.get? h = some n) : Retains s.document (t.clone s h).2.document := by
  have hprimed := Scan.prime_retains s h
  have hd₁ := hd.unmoved (Scan.prime_unmoved s h)
  obtain ⟨n₁, hn₁, -⟩ := hprimed h n hn
  obtain ⟨ks, ht⟩ := hd₁.held h n₁ hn₁
  obtain ⟨-, u, hu, -, hg⟩ := Document.deepClone_grown hd₁.tidy ht
  rw [NodeTree.handle_node] at hu hg
  have hgrown := hg.retains
  have hcopy := (hg.held u (List.mem_singleton_self u)).get?_handle
  rw [hu] at hcopy
  have hfresh : (s.prime h).document.get? ((s.prime h).document.deepClone h).1 = none := by
    rw [← hu]
    exact hg.fresh u.handle (NodeTree.mem_handlesOf_of_mem (List.mem_singleton_self u)
      u.handle_mem_handles)
  unfold clone
  dsimp only
  exact hprimed.trans
    (hgrown.rewritten (Document.removeAttribute_rewritten hcopy t.idAttribute) hfresh)

end Templates

namespace Document.Spares

/-- A node that is removed leaves nothing; the root stays. -/
theorem remove (hd : d.Forest) (hn : d.get? x = some n) : Spares d (d.remove x) x := by
  by_cases hroot : x = root
  · subst hroot
    have heq : d.remove root = d := by simp only [Document.remove, hn, if_true]
    rw [heq]
    exact Retains.refl.spares
  · obtain ⟨ks, hs⟩ := hd.seated hn
    exact .of_regrown hd hs (Document.remove_regrown hs hd.tidy hroot).2

theorem applyContent (hd : d.Forest) (hn : d.get? x = some n) (v : Value) (clear : Bool) :
    Spares d (d.applyContent x v clear) x := by
  obtain ⟨ks, hs⟩ := hd.seated hn
  obtain ⟨-, ks', -, hr⟩ := Document.applyContent_regrown hs hd.tidy v clear
  exact .of_regrown hd hs hr

end Document.Spares

namespace Stage

variable {plan : Plan} {s : Stage} {context : ContextId} {node : Handle}

theorem bindingsOf_retains (s : Stage) (h : Handle) :
    Retains s.document (s.bindingsOf h).2.document :=
  Scan.lookup_retains s.toScan h

theorem resolveTemplate_retains (hd : s.document.Forest) (hloader : plan.loader? = none)
    (reference : String) :
    Retains s.document (s.resolveTemplate plan reference).2.document := by
  have hfinds := Templates.find_finds plan.templates hd plan.loader? reference
  have hsame : (s.sought plan reference).document = s.document := by
    rw [sought, hloader]
    exact Templates.find_document plan.templates s.document reference
  have hresolved := resolveTemplate_resolution plan s reference
  generalize s.resolveTemplate plan reference = r at hresolved ⊢
  cases hresolved with
  | missing _ hscan =>
    rw [hscan, hsame]
    exact .refl
  | copied hnode hclone =>
    obtain ⟨n, hn⟩ := hfinds.live _ hnode
    have hretains := Templates.clone_retains plan.templates (s := s.sought plan reference) hfinds.forest hn
    rwa [hsame, hclone] at hretains

theorem transclude_spares (hd : s.document.Forest) (hn : s.document.get? node = some n)
    (hloader : plan.loader? = none) (reference : String) :
    Spares s.document (s.transclude plan context node reference).1.document node := by
  have hk := resolveTemplate_retains hd hloader reference
  obtain ⟨hd₁, -, hcopies⟩ := resolveTemplate_copies plan hd reference
  unfold transclude
  generalize s.resolveTemplate plan reference = r at hd₁ hk hcopies ⊢
  obtain ⟨copy?, s₁⟩ := r
  cases copy? with
  | none =>
    obtain ⟨n₁, hn₁, -⟩ := hk node n hn
    exact (hk.spares).trans hd.links (.remove hd₁ hn₁)
  | some copy =>
    have hc := hcopies copy rfl
    obtain ⟨m, hm, hfree⟩ := hc.top
    exact .exchange hd hn hk hd₁ hc.fresh hm hfree

/-- What a list makes of a node stands in its place. -/
theorem instances_spare (hd : d.Forest) (hn : d.get? x = some n) (change : ListChange) (count : Nat) :
    Spares d (change.apply x count d).2 x := by
  obtain ⟨ks, hs⟩ := hd.seated hn
  by_cases hconceal : change = .conceal
  · subst hconceal
    exact .of_regrown hd hs (ListChange.conceal_regrown count hs hd.tidy).2
  by_cases hdiscard : change = .discard
  · subst hdiscard
    exact .remove hd hn
  obtain ⟨-, us, -, -, -, hr⟩ := ListChange.apply_regrown count hs hd.tidy hconceal hdiscard
  exact .of_regrown hd hs hr

theorem select_spares (hd : s.document.Forest) (hn : s.document.get? node = some n)
    (context : ContextId) (v : Value) :
    Spares s.document (s.select context node v).1.document node := by
  cases v with
  | array items => exact instances_spare hd hn _ _
  | null => exact (Document.setVisible_rewritten hn false).spares
  | bool _ | number _ | string _ | object _ => exact (Document.setVisible_rewritten hn true).spares

/-- Filling a node changes nothing outside its subtree. -/
theorem fillNode_spares (hd : s.document.Forest) (hn : s.document.get? node = some n)
    (plan : Plan) (context : ContextId) :
    Spares s.document (s.fillNode plan context node).1.document node := by
  have hseen := bindingsOf_retains s node
  obtain ⟨n₁, hn₁, -⟩ := hseen node n hn
  have hedited := fun edits => Document.edited_rewritten hn₁ edits
  have hspared := fun edits => hseen.spares.trans hd.links (hedited edits).spares
  have hfilled := fillNode_filled hn plan context
  generalize s.fillNode plan context node = r at hfilled ⊢
  cases hfilled with
  | left edits hdocument | opened edits hdocument =>
    rw [hdocument]
    exact hspared edits
  | written edits value clear hdocument =>
    have hmoved := (bindingsOf_unmoved s node).trans (Document.edited_unmoved hn₁ edits)
    rw [hdocument]
    exact (hspared edits).trans hd.links
      (.applyContent (hd.unmoved hmoved) (hedited edits).get?_self value clear)

/-- Placing a node changes nothing outside its subtree. -/
theorem placeNode_spares (hd : s.document.Forest) (hn : s.document.get? node = some n)
    (plan : Plan) (hloader : plan.loader? = none) (context : ContextId) :
    Spares s.document (s.placeNode plan context node).1.document node := by
  have hseen := bindingsOf_retains s node
  have hunmoved := bindingsOf_unmoved s node
  have hd₁ := hd.unmoved hunmoved
  obtain ⟨n₁, hn₁, -⟩ := hseen node n hn
  have hplaced := placeNode_placement plan s context node
  generalize s.placeNode plan context node = r at hplaced ⊢
  cases hplaced with
  | unreferenced _ _ | unvalued _ _ _ => exact hseen.spares
  | included _ hreference =>
    rw [← reference?_document hreference] at hd₁ hn₁ hseen
    exact hseen.spares.trans hd.links (transclude_spares hd₁ hn₁ hloader _)
  | selected _ _ hvalue =>
    rw [← execute?_document hvalue] at hd₁ hn₁ hseen
    exact hseen.spares.trans hd.links (select_spares hd₁ hn₁ context _)
  | filled _ _ => exact hseen.spares.trans hd.links (fillNode_spares hd₁ hn₁ plan context)

/-- Without a loader a step changes nothing outside the subtree of its node. -/
theorem act_spares {st : Step} (hd : s.document.Forest) (hnode : st.node? = some node)
    (hn : s.document.get? node = some n) (hloader : plan.loader? = none) :
    Spares s.document (act plan s st).1.document node := by
  cases st with
  | place context x =>
    obtain rfl : x = node := Option.some.inj hnode
    exact placeNode_spares hd hn plan hloader context
  | fill context x =>
    obtain rfl : x = node := Option.some.inj hnode
    exact fillNode_spares hd hn plan context
  | release context => simp [Step.node?] at hnode

/-- The document of a stage is `d` changed inside the subtree of `x`, and the steps that wait work on
nodes from there or on fresh ones. -/
structure Within (d : Document) (x : Handle) (s : Stage) (steps : List Step) : Prop where
  ranged : Ranged s steps
  spared : Spares d s.document x
  inside : ∀ y ∈ steps.filterMap Step.node?, d.get? y = none ∨ d.Above x y

/-- A step that works inside a subtree goes on inside it. -/
theorem Within.act {st : Step} {steps : List Step} (hd : d.Links) (hw : Within d x s (st :: steps))
    (hloader : plan.loader? = none) :
    Within d x (act plan s st).1 ((act plan s st).2.reverse.flatten ++ steps) := by
  have hranged := hw.ranged.act plan
  cases hnode : st.node? with
  | none =>
    cases st with
    | place context y => simp [Step.node?] at hnode
    | fill context y => simp [Step.node?] at hnode
    | release context => exact ⟨hranged, hw.spared, hw.inside⟩
  | some node =>
    have hinside := hw.inside
    have hscattered := hw.ranged.scattered
    rw [List.filterMap_cons_some hnode] at hinside hscattered
    have hfrom := hinside node List.mem_cons_self
    obtain ⟨n, hn⟩ := hscattered.head_live
    have hyields := act_yields hw.ranged.forest hnode hn plan
    refine ⟨hranged, hw.spared.trans_below hd hfrom (act_spares hw.ranged.forest hnode hn hloader), ?_⟩
    intro y hy
    rw [List.filterMap_append, List.mem_append] at hy
    rcases hy with hy | hy
    · by_contra hout
      rw [not_or] at hout
      obtain ⟨k, hk⟩ := Option.ne_none_iff_exists'.mp hout.1
      obtain ⟨k', hk', -⟩ := hw.spared y k hk hout.2
      rcases hyields.inside y hy with hnone | hbelow
      · simp [hk'] at hnone
      · rw [hd.above_iff_of_spared hw.spared.keeps hout.2 ⟨k, hk⟩] at hbelow
        rcases hfrom with hnone | hxn
        · obtain ⟨m, hm⟩ := hd.live_of_above hbelow ⟨k, hk⟩
          simp [hnone] at hm
        · exact hout.2 (hxn.trans hbelow)
    · exact hinside y (List.mem_cons_of_mem _ hy)

end Stage

namespace Engine

variable {e : Engine} {s : Stage} {data : Value} {parent? : Option Value} {node : Handle}
  {inPlace : Bool} {budget : Nat}

/-- At every point of a render without a loader, what is outside the subtree of the node is as it was
when the render began. -/
theorem Reaches.spares {log : List (Stage × Step)} {w : WorkStack Step} {s' : Stage}
    (h : e.Reaches s data parent? node inPlace log w s') (hd : s.document.Forest)
    (hn : s.document.get? node = some n) (hloader : e.loader? = none) :
    Spares s.document s'.document node := by
  have hclean : (WorkStack.new : WorkStack Step).Clean := by simp [WorkStack.Clean, WorkStack.new]
  obtain ⟨hpending, hclean'⟩ := WorkStack.pushItems_spec WorkStack.new
    [.place (e.contextOn s data parent?) node] hclean
  have hprimed : Retains s.document (e.begun s data parent? node).document :=
    Scan.prime_retains s.toScan node
  obtain ⟨n', hn', -⟩ := hprimed node n hn
  suffices Stage.Within s.document node s' w.pending from this.spared
  refine (WorkStack.Reaches.invariant (Stage.act (e.plan inPlace))
    (fun _ s₁ steps => Stage.Within s.document node s₁ steps) ?_ hclean' ?_ h).1
  · intro _ s₁ st waiting hw
    exact hw.act hd.links hloader
  · rw [hpending]
    refine ⟨⟨hd.unmoved (Scan.prime_unmoved s.toScan node), .single hn'⟩, hprimed.spares, ?_⟩
    intro y hy
    obtain rfl : y = node := by simpa [Step.node?, WorkStack.pending, WorkStack.new] using hy
    exact Or.inr .refl

theorem renderOn_spares {s' : Stage} {stats : WalkStats} (hd : s.document.Forest)
    (hn : s.document.get? node = some n) (hloader : e.loader? = none)
    (h : e.renderOn budget s data parent? node inPlace = some (s', stats)) :
    Spares s.document s'.document node := by
  obtain ⟨log, w, last, hreaches, -, rfl⟩ := exists_reaches_of_renderOn h
  exact hreaches.spares hd hn hloader

/-- A render into a copy leaves every node as it was. -/
theorem renderClone_retains {o : Outcome Handle} (hd : d.Forest) (hn : d.get? node = some n)
    (hloader : e.loader? = none) (h : e.renderClone budget d data node = some o) :
    Retains d o.document := by
  have hc := Templates.clone_copies (e.plan false).templates (s := (e.stage d).toScan) hd hn
  have hk := Templates.clone_retains (e.plan false).templates (s := (e.stage d).toScan) hd hn
  unfold renderClone Stage.cloneTemplate at h
  dsimp only at h
  generalize (e.plan false).templates.clone (e.stage d).toScan node = c at hc hk h
  obtain ⟨⟨s', stats⟩, hrender, rfl⟩ := Option.map_eq_some_iff.mp h
  obtain ⟨m, hm, -⟩ := hc.top
  have hfresh : d.get? c.1 = none := hc.fresh
  have hspared := renderOn_spares hc.forest hm hloader hrender
  intro y k hy
  obtain ⟨k₁, hk₁, heq⟩ := hk y k hy
  have hout := hd.links.not_above_of_fresh hk.kept hfresh ⟨k, hy⟩
  obtain ⟨k₂, hk₂, hrelists⟩ := hspared y k₁ hk₁ hout
  refine ⟨k₂, hk₂, (hrelists.unscanned_eq fun hmem => ?_).trans heq⟩
  rw [Node.children_of_unscanned heq] at hmem
  obtain ⟨l, hl⟩ := hd.links.child_live y k c.1 hy hmem
  simp [hfresh] at hl

/-- A render without a loader touches only the subtree of its node: everything else stays as it was,
except that other nodes may stand in the place of the node.  A render into a copy leaves the markup. -/
theorem render_framed (hd : d.WellFormed) (hnode : d.contains node = true) (hloader : e.loader? = none)
    (data : Value) :
    (∀ budget parent? inPlace o, e.render budget d data parent? node inPlace = some o →
      d.Framed o.document node) ∧
    ∀ budget o, e.renderClone budget d data node = some o → o.document.toMarkup = d.toMarkup := by
  obtain ⟨n, hn⟩ := Document.exists_of_contains hnode
  constructor
  · intro budget parent? inPlace o h
    obtain ⟨⟨s', stats⟩, hrender, rfl⟩ := Option.map_eq_some_iff.mp h
    exact (renderOn_spares (s := e.stage d) hd.forest hn hloader hrender).framed hd.links
  · intro budget o h
    exact (renderClone_retains hd.forest hn hloader h).toMarkup_eq hd.forest

/-- A node is replaced by a copy of a template outside its subtree, and the template stays as it was. -/
theorem render_framed_include :
    ∃ d budget o o', Document.ofMarkup
        "<ul><li data-jst-include=\"#t\"></li></ul><b id=\"t\"></b>" = .ok d ∧
      (new 0 .default).render budget d .null none ⟨2, 0⟩ true = some o ∧
      d.Framed o.document ⟨2, 0⟩ ∧
      (new 0 .default).renderClone budget d .null ⟨2, 0⟩ = some o' ∧
      o'.document.toMarkup = d.toMarkup := by
  have hparse : parseMarkup "<ul><li data-jst-include=\"#t\"></li></ul><b id=\"t\"></b>" =
      .ok [.element "ul" [] [.element "li" [("data-jst-include", "#t")] []],
        .element "b" [("id", "t")] []] := by
    decide +kernel
  have hd := Document.ofMarkup_of_parseMarkup hparse
  generalize hdoc : Document.plantAll _ _ _ = d at hd
  have hnode : d.contains ⟨2, 0⟩ = true := by
    subst hdoc
    decide +kernel
  have hrender : ((new 0 .default).render 9 d .null none ⟨2, 0⟩ true).isSome = true := by
    subst hdoc
    decide +kernel
  have hclone : ((new 0 .default).renderClone 9 d .null ⟨2, 0⟩).isSome = true := by
    subst hdoc
    decide +kernel
  obtain ⟨o, ho⟩ := Option.isSome_iff_exists.mp hrender
  obtain ⟨o', ho'⟩ := Option.isSome_iff_exists.mp hclone
  obtain ⟨hframed, hmarkup⟩ := render_framed (Document.Reached.ofMarkup hd).forest.wellFormed hnode
    (e := new 0 .default) rfl .null
  exact ⟨d, 9, o, o', hd, ho, hframed 9 none true o ho, ho', hmarkup 9 o' ho'⟩

end Engine

end TreeTemplate
