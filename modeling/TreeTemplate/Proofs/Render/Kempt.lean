import TreeTemplate.Proofs.Binding.Coherence
import TreeTemplate.Proofs.Document.Ground
import TreeTemplate.Proofs.Lifetime

/-!
What the theorems on renders ask of a document.  No element has an attribute twice, and the root, as what
handles to removed nodes read as, is without attributes and children, so that no cache puts more on record
there than the set without bindings (`Document.Kempt`).  Every operation keeps that, and so does every step
of a render (`Stage.act_kempt`), whatever the engine is: so all documents that a program comes by are proper
(`Document.Reached.proper`).
-/

namespace TreeTemplate

open Document (root Grounded)

variable {d : Document} {h p old reference : Handle} {n : Node}

/-! ### Documents -/

/-- No attribute is there twice, and on a root nothing is on record but the first set. -/
structure Node.Kempt (n : Node) : Prop where
  orderly : n.content.Orderly
  bare : n.content = .root → ∀ r ∈ n.bindingRef?, r.index = 0

theorem lasting_kempt : Lasting (fun _ n => n.Kempt) Node.Kempt := by
  constructor
  · intro h n n' hn hkin
    refine ⟨hkin.content ▸ hn.orderly, fun hcontent r hr => ?_⟩
    rw [hkin.content] at hcontent
    rw [hkin.bindingRef?] at hr
    exact hn.bare hcontent r hr
  · intro h n hn horderly
    exact ⟨horderly, fun _ r hr => by simp [hn.bindingRef?] at hr⟩
  · intro n hcontent hn
    exact ⟨by simp [hcontent, Content.Orderly], fun _ r hr => by simp [hn.bindingRef?] at hr⟩

/-- All nodes are kempt, what handles to removed nodes read as is, and the root is no element. -/
structure Document.Kempt (d : Document) : Prop where
  ground : d.Grounded
  nodes : d.All (fun _ n => n.Kempt) Node.Kempt

namespace Document.Kempt

/-- Changes of other things than content, children and what is on record may be made through any
handle. -/
theorem touch {f : Node → Node} (hd : d.Kempt) (hcontent : ∀ n : Node, (f n).content = n.content)
    (hchildren : ∀ n : Node, (f n).children = n.children)
    (href : ∀ n : Node, (f n).bindingRef? = n.bindingRef?) : (d.modify h f).Kempt := by
  have hkempt : ∀ n : Node, n.Kempt → (f n).Kempt := by
    intro n hn
    refine ⟨hcontent n ▸ hn.orderly, fun hroot r hr => ?_⟩
    rw [hcontent] at hroot
    rw [href] at hr
    exact hn.bare hroot r hr
  refine ⟨hd.ground.touch hcontent hchildren, hd.nodes.put (fun n hn => ?_) fun hnone => ?_⟩
  · rw [writable_of_get? hn]
    exact hkempt n (hd.nodes.live h n hn)
  · have hwritable : d.writable h = Node.new .root := by simp [writable, hnone]
    rw [hwritable]
    exact hkempt _ (lasting_kempt.vacant _ rfl ⟨rfl, rfl⟩)

theorem setAttribute (hd : d.Kempt) (h : Handle) (name value : String) :
    (d.setAttribute h name value).Kempt := by
  refine ⟨hd.ground.setAttribute h name value, hd.nodes.setAttribute lasting_kempt
    fun n tag attributes hn hcontent => ⟨?_, fun hroot => ?_⟩⟩
  · have horderly := (hd.nodes.live h n hn).orderly
    rw [hcontent] at horderly
    exact Dict.keys_put_nodup horderly
  · simp at hroot

theorem removeAttribute (hd : d.Kempt) (h : Handle) (name : String) :
    (d.removeAttribute h name).Kempt := by
  refine ⟨hd.ground.removeAttribute h name, hd.nodes.removeAttribute lasting_kempt
    fun n tag attributes hn hcontent => ⟨?_, fun hroot => ?_⟩⟩
  · have horderly := (hd.nodes.live h n hn).orderly
    rw [hcontent] at horderly
    exact Dict.keys_erase_nodup horderly
  · simp at hroot

theorem setAttributeValue (hd : d.Kempt) (h : Handle) (name : String) (v : Value) :
    (d.setAttributeValue h name v).Kempt := by
  unfold Document.setAttributeValue
  split
  · exact hd.setAttribute h _ _
  · exact hd.removeAttribute h _
  · exact hd.setAttribute h _ _

theorem setVisible (hd : d.Kempt) (h : Handle) (v : Bool) : (d.setVisible h v).Kempt :=
  ⟨hd.ground.setVisible h v, hd.nodes.setVisible lasting_kempt h v⟩

theorem modifyProperties (hd : d.Kempt) (h : Handle) (f : Dict Value → Dict Value) :
    (d.modifyProperties h f).Kempt := by
  apply hd.touch <;> exact fun _ => rfl

theorem setData (hd : d.Kempt) (h : Handle) (name : String) (v : Value) : (d.setData h name v).Kempt := by
  apply hd.touch <;> exact fun _ => rfl

theorem modifyCallbacks (hd : d.Kempt) (h : Handle) (f : List Callback → List Callback) :
    (d.modify h fun n => { n with callbacks := f n.callbacks }).Kempt :=
  hd.touch (fun _ => rfl) (fun _ => rfl) fun _ => rfl

theorem appendChild (hd : d.Kempt) (hp : d.contains p = true) (h : Handle) :
    (d.appendChild p h).Kempt :=
  ⟨hd.ground.appendChild hp h, hd.nodes.appendChild lasting_kempt p h⟩

theorem insertBefore (hd : d.Kempt) (h reference : Handle) : (d.insertBefore h reference).Kempt :=
  ⟨hd.ground.insertBefore h reference, hd.nodes.insertBefore lasting_kempt h reference⟩

theorem insertAfter (hd : d.Kempt) (h reference : Handle) : (d.insertAfter h reference).Kempt :=
  ⟨hd.ground.insertAfter h reference, hd.nodes.insertAfter lasting_kempt h reference⟩

theorem replace (hd : d.Kempt) (h old : Handle) : (d.replace h old).Kempt :=
  ⟨hd.ground.replace h old, hd.nodes.replace lasting_kempt h old⟩

theorem remove (hd : d.Kempt) (h : Handle) : (d.remove h).Kempt :=
  ⟨hd.ground.remove h, hd.nodes.remove lasting_kempt h⟩

theorem clearChildren (hd : d.Kempt) (h : Handle) : (d.clearChildren h).Kempt :=
  ⟨hd.ground.clearChildren h, hd.nodes.clearChildren lasting_kempt h⟩

/-! New nodes get handles that the root does not have, since it is live. -/

theorem createElement (hk : d.Kempt) (hd : d.Forest) (tag : String) : (d.createElement tag).2.Kempt := by
  obtain ⟨r, hr, -⟩ := hd.rooted
  have hgrown := alloc_grown hd.tidy (n := Node.new (.element tag [])) rfl rfl
  exact ⟨hk.ground.grown ⟨r, hr⟩ hgrown, hk.nodes.createElement lasting_kempt tag⟩

theorem appendText (hk : d.Kempt) (hd : d.Forest) (hn : d.get? h = some n) (text : String) :
    (d.appendText h text).Kempt := by
  obtain ⟨r, hr, -⟩ := hd.rooted
  obtain ⟨-, u, -, hgrown⟩ := appendText_grown hd.tidy hn text
  exact ⟨hk.ground.grown ⟨r, hr⟩ hgrown, hk.nodes.appendText lasting_kempt h text⟩

theorem appendMarkup {d' : Document} {source : String} (hk : d.Kempt) (hd : d.Forest)
    (hn : d.get? h = some n) (happend : d.appendMarkup h source = .ok d') : d'.Kempt := by
  obtain ⟨r, hr, -⟩ := hd.rooted
  obtain ⟨-, us, hgrown⟩ := appendMarkup_grown hd.tidy hn happend
  exact ⟨hk.ground.grown ⟨r, hr⟩ hgrown, hk.nodes.appendMarkup lasting_kempt happend⟩

theorem deepClone (hk : d.Kempt) (hd : d.Forest) (hn : d.get? h = some n) :
    (d.deepClone h).2.Kempt := by
  obtain ⟨r, hr, -⟩ := hd.rooted
  obtain ⟨ks, ht⟩ := hd.held h n hn
  obtain ⟨-, u, -, -, hgrown⟩ := deepClone_grown hd.tidy ht
  exact ⟨hk.ground.grown ⟨r, hr⟩ hgrown,
    hk.nodes.deepClone lasting_kempt (fun _ _ _ hn => hn) (fun _ _ hn => hn) h⟩

theorem createHiddenContainer (hk : d.Kempt) (hd : d.Forest) (name value : String) :
    (d.createHiddenContainer name value).2.Kempt := by
  obtain ⟨r, hr, -⟩ := hd.rooted
  obtain ⟨-, hgrown⟩ := createHiddenContainer_grown hd.tidy hr name value
  exact ⟨hk.ground.grown ⟨r, hr⟩ hgrown, hk.nodes.createHiddenContainer lasting_kempt name value⟩

theorem applyContent (hk : d.Kempt) (hd : d.Forest) (hn : d.get? h = some n) (v : Value)
    (clear : Bool) : (d.applyContent h v clear).Kempt := by
  obtain ⟨ks, hs⟩ := hd.seated hn
  obtain ⟨-, ks', -, hregrown⟩ := applyContent_regrown hs hd.tidy v clear
  have hforest := (Yields.applyContent hd hn v clear).forest
  refine ⟨hk.ground.regrown hs hregrown hforest fun u hu hroot => ?_,
    hk.nodes.applyContent lasting_kempt h v clear⟩
  obtain rfl := List.mem_singleton.mp hu
  obtain rfl : h = root := hroot
  exact hk.ground.root n hn

/-- Of the instances of a node only the node itself may be the root. -/
theorem instances (hk : d.Kempt) (hd : d.Forest) (hn : d.get? h = some n) (change : ListChange)
    (count : Nat) : (change.apply h count d).2.Kempt := by
  have hnodes := hk.nodes.instances lasting_kempt (fun _ _ _ hn => hn) (fun _ _ hn => hn) change h count
  have hforest := (Stage.instances_yield hd hn change count).forest
  refine ⟨?_, hnodes⟩
  by_cases hconceal : change = .conceal
  · subst hconceal
    have hmarked : (d.setMarker h (some ⟨0, true⟩)).Grounded :=
      hk.ground.touch (fun _ => rfl) fun _ => rfl
    exact hmarked.setVisible h false
  by_cases hdiscard : change = .discard
  · subst hdiscard
    exact hk.ground.remove h
  obtain ⟨ks, hs⟩ := hd.seated hn
  obtain ⟨-, us, -, halike, -, hregrown⟩ :=
    ListChange.apply_regrown count hs hd.tidy hconceal hdiscard
  refine hk.ground.regrown hs hregrown hforest fun u hu hroot => ?_
  obtain ⟨r, hr, -⟩ := hd.rooted
  have hmem : root ∈ NodeTree.handlesOf (NodeTree.stamped count (change.extent count).1 us) :=
    NodeTree.mem_handlesOf_of_mem hu (hroot ▸ u.handle_mem_handles)
  have hold : root ∈ (NodeTree.node h n ks).handles := by
    rcases hregrown.fresh root hmem with hold | hfresh
    · simpa using hold
    · simp [hr] at hfresh
  have htop : h = root := hd.handle_eq_root (hs.held _ (List.mem_singleton_self _)) hold
  obtain ⟨t, ht, m, rfl⟩ := NodeTree.exists_of_mem_stamped hu
  rw [NodeTree.marked, NodeTree.record_retop, (halike t ht).content_eq, NodeTree.shown,
    NodeTree.record_retop]
  exact hk.ground.root n (htop ▸ hn)

end Document.Kempt

/-! ### Scans -/

namespace Scan

/-- What is put on record on a root is the first set. -/
theorem lookup_kempt (s : Scan) (h : Handle) (hk : s.document.Kempt) : (s.lookup h).2.document.Kempt := by
  unfold lookup
  split
  · exact hk
  dsimp only
  have hfirst : (s.document.node h).content = .root →
      (s.bindings.intern s.compiler (s.bindings.rawBindings s.document h)).1 = 0 := by
    intro hcontent
    rw [show s.bindings.rawBindings s.document h =
      (s.document.node h).rawBindings s.bindings.namePrefix from rfl, Node.rawBindings_of_root hcontent]
    rfl
  generalize s.bindings.intern s.compiler (s.bindings.rawBindings s.document h) = interned at hfirst ⊢
  obtain ⟨i, bindings, compiler⟩ := interned
  refine ⟨hk.ground.touch (fun _ => rfl) fun _ => rfl, hk.nodes.put (fun n hn => ?_) fun hnone => ?_⟩
  · rw [Document.node_of_get? hn] at hfirst
    rw [Document.writable_of_get? hn]
    refine ⟨(hk.nodes.live h n hn).orderly, fun hcontent r hr => ?_⟩
    obtain rfl := Option.some.inj hr
    exact hfirst hcontent
  · have hvacant : s.document.node h = s.document.vacant := by
      rw [Document.node, hnone, Option.getD_none]
    rw [hvacant] at hfirst
    refine ⟨?_, fun _ r hr => ?_⟩
    · simp [Document.writable, hnone, Node.new, Content.Orderly]
    · obtain rfl := Option.some.inj hr
      exact hfirst hk.ground.vacant.1

theorem prime_kempt (s : Scan) (h : Handle) (hk : s.document.Kempt) : (s.prime h).document.Kempt :=
  prime_keeps (P := fun s => s.document.Kempt) (fun s h => s.lookup_kempt h) hk h

end Scan

theorem Document.Kempt.edited (hk : d.Kempt) (h : Handle) (edits : List Edit) :
    (d.edited h edits).Kempt := by
  induction edits generalizing d with
  | nil => exact hk
  | cons e rest ih =>
    apply ih
    cases e with
    | identity name id => exact hk.setAttribute h name id
    | value name v => exact hk.setAttributeValue h name v
    | property path v => exact hk.modifyProperties h fun properties => Value.assignPath properties path v
    | data name v => exact hk.setData h name v
    | visible v => exact hk.setVisible h v

/-! ### Templates -/

namespace Templates

theorem container_kempt (t : Templates) (hk : d.Kempt) (hd : d.Forest) : (t.container d).2.Kempt := by
  unfold container
  split
  · exact hk
  · exact hk.createHiddenContainer hd _ _

theorem find_kempt (t : Templates) (hk : d.Kempt) (hd : d.Forest) (loader? : Option Loader)
    (reference : String) : (t.find loader? d reference).document.Kempt := by
  have hcontainer := container_kempt t hk hd
  refine t.find_keeps hk hcontainer (fun source d₂ happend => ?_) loader? reference
  have hfinds := container_finds t hd
  obtain ⟨n, hn⟩ := hfinds.live _ rfl
  exact hcontainer.appendMarkup hfinds.forest hn happend

theorem clone_kempt (t : Templates) {s : Scan} (hk : s.document.Kempt) (hd : s.document.Forest)
    (hn : s.document.get? h = some n) : (t.clone s h).2.document.Kempt := by
  have hprimed := Scan.prime_unmoved s h
  obtain ⟨n₁, hn₁, -⟩ := hprimed.get?_after hn
  have hcloned := (s.prime_kempt h hk).deepClone (hd.unmoved hprimed) hn₁
  unfold clone
  dsimp only
  exact hcloned.removeAttribute _ t.idAttribute

end Templates

/-! ### Steps -/

namespace Stage

variable {plan : Plan} {s : Stage} {context : ContextId} {node : Handle} {st : Step}

theorem resolveTemplate_kempt (plan : Plan) (hk : s.document.Kempt) (hd : s.document.Forest)
    (reference : String) : (s.resolveTemplate plan reference).2.document.Kempt := by
  have hfinds := Templates.find_finds plan.templates hd plan.loader? reference
  have hfound := Templates.find_kempt plan.templates hk hd plan.loader? reference
  have hresolved := resolveTemplate_resolution plan s reference
  generalize s.resolveTemplate plan reference = r at hresolved ⊢
  cases hresolved with
  | missing _ hscan =>
    rw [hscan]
    exact hfound
  | copied hnode hclone =>
    obtain ⟨n, hn⟩ := hfinds.live _ hnode
    have hcloned := Templates.clone_kempt plan.templates (s := s.sought plan reference) hfound
      hfinds.forest hn
    rwa [hclone] at hcloned

theorem transclude_kempt (hk : s.document.Kempt) (hd : s.document.Forest) (reference : String) :
    (s.transclude plan context node reference).1.document.Kempt := by
  have hresolved := resolveTemplate_kempt plan hk hd reference
  unfold transclude
  generalize s.resolveTemplate plan reference = resolved at hresolved ⊢
  obtain ⟨_ | copy, s₁⟩ := resolved
  · exact hresolved.remove node
  · exact hresolved.replace copy node

theorem select_kempt (hk : s.document.Kempt) (hd : s.document.Forest)
    (hn : s.document.get? node = some n) (v : Value) : (s.select context node v).1.document.Kempt := by
  cases v with
  | array items => exact hk.instances hd hn _ _
  | null => exact hk.setVisible node false
  | bool _ | number _ | string _ | object _ => exact hk.setVisible node true

theorem fillNode_kempt (hk : s.document.Kempt) (hd : s.document.Forest)
    (hn : s.document.get? node = some n) (plan : Plan) (context : ContextId) :
    (s.fillNode plan context node).1.document.Kempt := by
  have hseen := bindingsOf_unmoved s node
  obtain ⟨n₁, hn₁, -⟩ := hseen.get?_after hn
  have hedited : ∀ edits, ((s.bindingsOf node).2.document.edited node edits).Kempt :=
    (s.toScan.lookup_kempt node hk).edited node
  have hfilled := fillNode_filled hn plan context
  generalize s.fillNode plan context node = r at hfilled ⊢
  cases hfilled with
  | left edits hdocument | opened edits hdocument => exact hdocument ▸ hedited edits
  | written edits value clear hdocument =>
    have hd₁ := hd.unmoved (hseen.trans (Document.edited_unmoved hn₁ edits))
    rw [hdocument]
    exact (hedited edits).applyContent hd₁ (Document.edited_rewritten hn₁ edits).get?_self value clear

theorem placeNode_kempt (hk : s.document.Kempt) (hd : s.document.Forest)
    (hn : s.document.get? node = some n) (plan : Plan) (context : ContextId) :
    (s.placeNode plan context node).1.document.Kempt := by
  have hseen := bindingsOf_unmoved s node
  have hd₁ := hd.unmoved hseen
  have hk₁ : (s.bindingsOf node).2.document.Kempt := s.toScan.lookup_kempt node hk
  obtain ⟨n₁, hn₁, -⟩ := hseen.get?_after hn
  have hplaced := placeNode_placement plan s context node
  generalize s.placeNode plan context node = r at hplaced ⊢
  cases hplaced with
  | unreferenced _ _ | unvalued _ _ _ => exact hk₁
  | included _ hreference =>
    rw [← reference?_document hreference] at hd₁ hk₁
    exact transclude_kempt hk₁ hd₁ _
  | selected _ _ hvalue =>
    rw [← execute?_document hvalue] at hd₁ hk₁ hn₁
    exact select_kempt hk₁ hd₁ hn₁ _
  | filled _ _ => exact fillNode_kempt hk₁ hd₁ hn₁ plan context

/-- A step keeps the document kempt. -/
theorem act_kempt (hk : s.document.Kempt) (hd : s.document.Forest)
    (hlive : ∀ x, st.node? = some x → s.document.contains x = true) (plan : Plan) :
    (act plan s st).1.document.Kempt := by
  cases st with
  | place context x =>
    obtain ⟨n, hn⟩ := Document.exists_of_contains (hlive x rfl)
    exact placeNode_kempt hk hd hn plan context
  | fill context x =>
    obtain ⟨n, hn⟩ := Document.exists_of_contains (hlive x rfl)
    exact fillNode_kempt hk hd hn plan context
  | release context => exact hk

end Stage

/-! ### Renders -/

namespace Engine

variable {e : Engine} {s s' : Stage} {data : Value} {parent? : Option Value} {node : Handle}
  {inPlace : Bool} {budget : Nat} {log : List (Stage × Step)} {w : WorkStack Step}

/-- At every point of a render the document is kempt. -/
theorem Reaches.kempt (h : e.Reaches s data parent? node inPlace log w s') (hk : s.document.Kempt)
    (hd : s.document.Forest) (hn : s.document.get? node = some n) : s'.document.Kempt := by
  have hunmoved : Document.Unmoved s.document (e.begun s data parent? node).document :=
    Scan.prime_unmoved s.toScan node
  obtain ⟨n', hn', -⟩ := hunmoved.get?_after hn
  refine (h.invariant (fun _ s steps => s.document.Kempt ∧ Stage.Ranged s steps)
    ⟨s.toScan.prime_kempt node hk, hd.unmoved hunmoved, .single hn'⟩ fun _ s st waiting hs => ?_).1
  obtain ⟨hkempt, hranged⟩ := hs
  exact ⟨Stage.act_kempt hkempt hranged.forest (fun x hnode => hranged.live hnode) (e.plan inPlace),
    hranged.act (e.plan inPlace)⟩

theorem renderOn_kempt {stats : WalkStats} (hk : s.document.Kempt) (hd : s.document.Forest)
    (hn : s.document.get? node = some n)
    (h : e.renderOn budget s data parent? node inPlace = some (s', stats)) : s'.document.Kempt := by
  obtain ⟨log, w, last, hreaches, -, rfl⟩ := exists_reaches_of_renderOn h
  exact hreaches.kempt hk hd hn

theorem render_kempt {o : Outcome WalkStats} (hk : d.Kempt) (hd : d.Forest)
    (hn : d.get? node = some n) (h : e.render budget d data parent? node inPlace = some o) :
    o.document.Kempt := by
  obtain ⟨⟨s', stats⟩, hrender, rfl⟩ := Option.map_eq_some_iff.mp h
  exact renderOn_kempt (s := e.stage d) hk hd hn hrender

theorem renderClone_kempt {o : Outcome Handle} (hk : d.Kempt) (hd : d.Forest)
    (hn : d.get? node = some n) (h : e.renderClone budget d data node = some o) :
    o.document.Kempt := by
  have hc := Templates.clone_copies (e.plan false).templates (s := (e.stage d).toScan) hd hn
  have hcloned := Templates.clone_kempt (e.plan false).templates (s := (e.stage d).toScan) hk hd hn
  unfold renderClone Stage.cloneTemplate at h
  dsimp only at h
  generalize (e.plan false).templates.clone (e.stage d).toScan node = c at hc hcloned h
  obtain ⟨⟨s', stats⟩, hrender, rfl⟩ := Option.map_eq_some_iff.mp h
  obtain ⟨m, hm, -⟩ := hc.top
  exact renderOn_kempt hcloned hc.forest hm hrender

theorem process_kempt {o : Outcome Unit} {t : TemplateHandle} (hk : d.Kempt) (hd : d.Forest)
    (hn : ∀ x ∈ t.node?, ∃ n, d.get? x = some n) (h : e.process budget d t data = some o) :
    o.document.Kempt := by
  unfold process at h
  cases hnode : t.node? with
  | none =>
    rw [hnode] at h
    obtain rfl := Option.some.inj h
    exact hk
  | some x =>
    rw [hnode] at h
    obtain ⟨o', hrender, rfl⟩ := Option.map_eq_some_iff.mp h
    obtain ⟨n, hn⟩ := hn x hnode
    exact render_kempt hk hd hn hrender

end Engine

/-! ### Programs -/

namespace Document

theorem kempt_empty : empty.Kempt := by
  refine ⟨grounded_empty, fun h n hn => ?_, lasting_kempt.vacant _ rfl ⟨rfl, rfl⟩⟩
  obtain rfl := eq_root_of_get?_empty hn
  obtain rfl : Node.new .root = n := Option.some.inj hn
  exact lasting_kempt.vacant _ rfl ⟨rfl, rfl⟩

theorem kempt_of_ofMarkup {source : String} (h : ofMarkup source = .ok d) : d.Kempt := by
  have hproper := proper_of_ofMarkup h
  have hblank := blank_of_ofMarkup h
  obtain ⟨r, hr, hcontent, -⟩ := hproper.rooted
  refine ⟨⟨fun n hn => ?_, hproper.vacant⟩, fun h n hn => ⟨hproper.orderly h n hn, fun _ r hr => ?_⟩,
    lasting_kempt.vacant _ hblank.vacant.1 hblank.vacant.2⟩
  · exact Option.some.inj (hr.symm.trans hn) ▸ hcontent
  · simp [(hblank.live h n hn).bindingRef?] at hr

theorem Reached.kempt (h : Reached d) : d.Kempt := by
  induction h with
  | empty => exact kempt_empty
  | ofMarkup h => exact kempt_of_ofMarkup h
  | createElement hd tag ih => exact ih.createElement hd.forest tag
  | appendChild _ hp _ _ _ ih => exact ih.appendChild hp _
  | appendText hd hh text ih =>
    obtain ⟨n, hn⟩ := exists_of_contains hh
    exact ih.appendText hd.forest hn text
  | appendMarkup hd hh happend ih =>
    obtain ⟨n, hn⟩ := exists_of_contains hh
    exact ih.appendMarkup hd.forest hn happend
  | insertBefore _ _ _ _ _ ih => exact ih.insertBefore _ _
  | insertAfter _ _ _ _ _ ih => exact ih.insertAfter _ _
  | replace _ _ _ _ _ ih => exact ih.replace _ _
  | remove _ _ ih => exact ih.remove _
  | clearChildren _ _ ih => exact ih.clearChildren _
  | deepClone hd hh ih =>
    obtain ⟨n, hn⟩ := exists_of_contains hh
    exact ih.deepClone hd.forest hn
  | createHiddenContainer hd name value ih => exact ih.createHiddenContainer hd.forest name value
  | setAttribute _ h name value ih => exact ih.setAttribute h name value
  | removeAttribute _ h name ih => exact ih.removeAttribute h name
  | setVisible _ h visible ih => exact ih.setVisible h visible
  | attachCallback _ h c ih => exact ih.modifyCallbacks h (· ++ [c])
  | detachCallbacks _ h ih => exact ih.modifyCallbacks h fun _ => []
  | modifyProperties _ h f ih => exact ih.modifyProperties h f
  | setData _ h name v ih => exact ih.setData h name v
  | resetMutations _ ih => exact ⟨⟨ih.ground.root, ih.ground.vacant⟩, ih.nodes.live, ih.nodes.vacant⟩
  | render hd hnode hrender ih =>
    obtain ⟨n, hn⟩ := exists_of_contains hnode
    exact Engine.render_kempt ih hd.forest hn hrender
  | renderClone hd hnode hrender ih =>
    obtain ⟨n, hn⟩ := exists_of_contains hnode
    exact Engine.renderClone_kempt ih hd.forest hn hrender
  | process hd hnode hrender ih =>
    exact Engine.process_kempt ih hd.forest (fun x hx => exists_of_contains (hnode x hx)) hrender
  | findTemplate hd e id ih => exact Templates.find_kempt _ ih hd.forest _ id
  | resolveTemplate hd e reference ih =>
    exact Stage.resolveTemplate_kempt (s := e.stage _) _ ih hd.forest reference

/-- Whatever a program does with live handles, its documents stay proper. -/
theorem Reached.proper (h : Reached d) : d.Proper := by
  have hforest := h.forest
  have hkempt := h.kempt
  obtain ⟨r, hr, hparent⟩ := hforest.rooted
  exact ⟨hforest.tidy, ⟨r, hr, hkempt.ground.root r hr, hparent⟩, hforest.held, hforest.listed,
    fun h n hn => (hkempt.nodes.live h n hn).orderly, hkempt.ground.vacant⟩

end Document

end TreeTemplate
