import TreeTemplate.Proofs.Context.Dispatch
import TreeTemplate.Proofs.Context.Pooling
import TreeTemplate.Proofs.Render.Twins

/-!
Renders that keep to one registry.  As long as the callbacks in a document leave every context its functions
(`Document.Loyal`), each step of a render leaves all contexts of the pool with the functions that the pool
was made for, the released ones that wait for reuse included (`Stage.Schooled.step`).
-/

namespace TreeTemplate

def Node.Loyal (n : Node) : Prop :=
  ∀ k ∈ n.callbacks, TreeTemplate.Loyal k

/-- Every callback in the document is loyal, those that are attached to removed nodes included. -/
def Document.Loyal (d : Document) : Prop :=
  d.All (fun _ n => n.Loyal) Node.Loyal

variable {d : Document} {h : Handle} {n : Node} {F : Registry} {c : Context}

theorem Node.Blank.loyal (hn : n.Blank) : n.Loyal := by
  simp [Node.Loyal, hn.callbacks]

theorem Node.Loyal.congr {n' : Node} (hn : n.Loyal) (hcallbacks : n'.callbacks = n.callbacks) :
    n'.Loyal := by
  rwa [Node.Loyal, hcallbacks]

theorem lasting_loyal : Lasting (fun _ n => n.Loyal) Node.Loyal := by
  constructor
  · exact fun _ _ _ hn hkin => hn.congr hkin.callbacks
  · exact fun _ _ hn _ => hn.loyal
  · exact fun _ _ hn => hn.loyal

/-! ### Documents -/

theorem Document.Loyal.modify {f : Node → Node} (hd : d.Loyal) (hf : ∀ n : Node, n.Loyal → (f n).Loyal) :
    (d.modify h f).Loyal := by
  refine All.put hd ?_ ?_
  · intro m hm
    rw [writable_of_get? hm]
    exact hf m (hd.live h m hm)
  · intro hnone
    have hwritable : d.writable h = Node.new .root := by simp [writable, hnone]
    have hblank : (Node.new .root).Blank := ⟨rfl, rfl⟩
    rw [hwritable]
    exact hf _ hblank.loyal

/-- A loyal callback may be attached. -/
theorem Document.Loyal.attachCallback {k : Callback} (hd : d.Loyal) (h : Handle)
    (hk : TreeTemplate.Loyal k) : (d.attachCallback h k).Loyal := by
  refine hd.modify fun n hn k' hk' => ?_
  rcases List.mem_append.mp hk' with hold | hnew
  · exact hn k' hold
  · rwa [List.mem_singleton.mp hnew]

theorem Document.Loyal.setAttribute (hd : d.Loyal) (h : Handle) (name value : String) :
    (d.setAttribute h name value).Loyal :=
  All.setAttribute lasting_loyal hd fun n _ _ hn _ => hd.live h n hn

theorem Document.Loyal.removeAttribute (hd : d.Loyal) (h : Handle) (name : String) :
    (d.removeAttribute h name).Loyal :=
  All.removeAttribute lasting_loyal hd fun n _ _ hn _ => hd.live h n hn

theorem Document.Loyal.assignProperty (hd : d.Loyal) (h : Handle) (path : String) (v : Value) :
    (d.assignProperty h path v).Loyal :=
  All.modifyProperties lasting_loyal hd h _

theorem Document.Loyal.deepClone (hd : d.Loyal) (h : Handle) : (d.deepClone h).2.Loyal :=
  All.deepClone lasting_loyal hd (fun _ _ _ hn => hn) (fun _ _ hn => hn) h

theorem Scan.lookup_loyal (s : Scan) (h : Handle) (hd : s.document.Loyal) :
    (s.lookup h).2.document.Loyal := by
  unfold lookup
  split
  · exact hd
  · dsimp only
    exact hd.modify fun n hn => hn.congr rfl

theorem Scan.prime_loyal (s : Scan) (h : Handle) (hd : s.document.Loyal) :
    (s.prime h).document.Loyal :=
  prime_keeps (P := fun s => s.document.Loyal) (fun s h => s.lookup_loyal h) hd h

theorem Plan.stripped_loyal (plan : Plan) (node : Handle) (hd : d.Loyal) :
    (plan.stripped node d).Loyal := by
  unfold stripped
  split
  · exact hd
  · exact hd.removeAttribute node _

/-! ### Fillings -/

theorem Document.Loyal.node (hd : d.Loyal) (h : Handle) : (d.node h).Loyal := by
  unfold Document.node
  cases hn : d.get? h with
  | none => exact hd.vacant
  | some n => exact hd.live h n hn

namespace Filling

variable {f : Filling} {set : BindingSet}

/-- The callbacks are loyal, and the context is one that `c` becomes. -/
structure Stems (c : Context) (f : Filling) : Prop where
  document : f.document.Loyal
  becomes : c.Becomes f.context

namespace Stems

theorem execute (hf : f.Stems c) (e : Evaluator) : (f.execute e).2.Stems c :=
  ⟨hf.document, hf.becomes.execute e⟩

theorem holds (hf : f.Stems c) (condition? : Option Evaluator) : (f.holds condition?).2.Stems c := by
  cases condition? with
  | none => exact hf
  | some e => exact hf.execute e

theorem each (put : Filling → String → Value → Filling)
    (hput : ∀ f label v, Stems c f → (put f label v).Stems c) (es : Labelled) (hf : f.Stems c) :
    (each put es f).Stems c := by
  induction es generalizing f with
  | nil => exact hf
  | cons p rest ih => exact ih (hput _ _ _ (hf.execute p.2))

theorem runCallbacks {callbacks : List Callback} (hloyal : ∀ k ∈ callbacks, Loyal k)
    (hf : f.Stems c) : (runCallbacks callbacks f).Stems c := by
  induction callbacks generalizing f with
  | nil => exact hf
  | cons k rest ih =>
    have hstep : c.Becomes (k f.context).context := hf.becomes.callback (hloyal k List.mem_cons_self)
    exact ih (fun k hk => hloyal k (List.mem_cons_of_mem _ hk)) ⟨hf.document, hstep⟩

theorem runStatements (es : List Evaluator) (hf : f.Stems c) : (runStatements es f).Stems c := by
  induction es generalizing f with
  | nil => exact hf
  | cons e rest ih => exact ih (hf.execute e)

theorem setAttribute (hf : f.Stems c) (name value : String) :
    (f.edit fun d => d.setAttribute h name value).Stems c :=
  ⟨hf.document.setAttribute h name value, hf.becomes⟩

theorem setVisible (hf : f.Stems c) (v : Bool) : (f.edit fun d => d.setVisible h v).Stems c :=
  ⟨.setVisible lasting_loyal hf.document h v, hf.becomes⟩

theorem putValue (hf : f.Stems c) (label : String) (v : Value) :
    (putValue h f label v).Stems c := by
  unfold Filling.putValue
  split
  · exact hf
  · exact ⟨hf.document, hf.becomes.setVariable _ _⟩
  · exact ⟨hf.document.assignProperty h _ v, hf.becomes⟩
  · unfold Document.setAttributeValue
    split
    · exact hf.setAttribute _ _
    · exact ⟨hf.document.removeAttribute h _, hf.becomes⟩
    · exact hf.setAttribute _ _

theorem identify (hf : f.Stems c) (idAttribute : String) :
    (identify idAttribute set h f).Stems c := by
  unfold Filling.identify
  split
  · exact hf.setAttribute _ _
  · next e _ _ =>
    dsimp only
    split
    · exact (hf.execute e).setAttribute _ _
    · exact hf.execute e
  · exact hf

theorem gate (hf : f.Stems c) : (gate set h f).2.Stems c := by
  unfold Filling.gate
  split
  · exact hf
  · next e _ => exact (hf.execute e).setVisible _

theorem assign (hf : f.Stems c) : (assign set h f).Stems c := by
  have hvariables := hf.each setVariable
    (fun _ _ _ hf => ⟨hf.document, hf.becomes.setVariable _ _⟩) (set.vars?.getD [])
  have hvalues := hvariables.each (Filling.putValue h) (fun _ label v hf => hf.putValue label v)
    (set.values?.getD [])
  have hdata := hvalues.each (putData h)
    (fun _ label v hf => ⟨.setData lasting_loyal hf.document h label v, hf.becomes⟩)
    (set.data?.getD [])
  exact (hdata.runCallbacks (hdata.document.node h)).runStatements _

theorem reveal (hf : f.Stems c) : (reveal set h f).Stems c := by
  have hwhen : ∀ (f : Filling) (condition v : Bool), f.Stems c →
      (if condition then f.edit fun d => d.setVisible h v else f).Stems c := by
    intro f condition v hf
    cases condition with
    | true => exact hf.setVisible v
    | false => exact hf
  exact hwhen _ _ _ ((hwhen _ _ _ (hf.holds _)).holds _)

theorem settleContent (hf : f.Stems c) : (settleContent set h f).2.Stems c := by
  have hskip := hf.holds set.skip?
  unfold Filling.settleContent
  dsimp only
  split
  · exact hskip
  · split
    · next e _ =>
      have hread := hskip.execute e
      exact ⟨.applyContent lasting_loyal hread.document h _ _, hread.becomes⟩
    · exact hskip

theorem fill (hf : f.Stems c) : (f.fill set h).2.Stems c := by
  have hgate : (Filling.gate set h f).2.Stems c := hf.gate
  unfold Filling.fill
  generalize Filling.gate set h f = gated at hgate ⊢
  obtain ⟨opened, f'⟩ := gated
  cases opened with
  | false => exact hgate
  | true => exact hgate.assign.reveal.settleContent

end Stems

end Filling

/-- What filling a node makes of its context comes from evaluating, setting variables and running the
callbacks of the document. -/
theorem Plan.filling_stems (plan : Plan) (set : BindingSet) (node : Handle) (hd : d.Loyal)
    (c : Context) : (plan.filling set node c d).2.Stems c := by
  have hstripped : Filling.Stems c ⟨plan.stripped node d, c, []⟩ :=
    ⟨plan.stripped_loyal node hd, .refl⟩
  exact (hstripped.identify plan.templates.idAttribute).fill

/-! ### Pools -/

namespace Pool

variable {p : Pool} {id : ContextId}

/-- The pool is in order, and all of its contexts know the functions `F`. -/
structure Schooled (F : Registry) (p : Pool) : Prop where
  sound : p.Sound
  knows : p.Knows F

namespace Schooled

theorem level (hp : p.Schooled F) : Level F p p :=
  ⟨rfl, rfl, hp.sound, hp.knows, hp.knows⟩

theorem of_level {q : Pool} (h : Level F p q) : p.Schooled F :=
  ⟨h.sound, h.left⟩

theorem new (F : Registry) (pooling : Bool) : (new F pooling).Schooled F :=
  ⟨new_sound F pooling, new_knows F pooling⟩

theorem createRoot (hp : p.Schooled F) (data : Value) (globals : Variables) :
    (p.createRoot data globals).2.Schooled F :=
  of_level (hp.level.createRoot data globals).2

theorem createChild (hp : p.Schooled F) (data : Value) (parent : ContextId) :
    (p.createChild data parent).2.Schooled F :=
  of_level (hp.level.createChild data parent).2

theorem createItem (hp : p.Schooled F) (parent : ContextId) (data : Value) (index count : Nat) :
    (p.createItem parent data index count).2.Schooled F :=
  of_level (hp.level.createItem parent data index count).2

theorem put (hp : p.Schooled F) {k : Context} (hk : p.get? id = some k) (hc : c.functions = F) :
    (p.put id c).Schooled F :=
  of_level (hp.level.put hk hc)

theorem recycle (hp : p.Schooled F) (id : ContextId) : (p.recycle id).Schooled F :=
  of_level (hp.level.recycle id)

end Schooled

end Pool

/-! ### Steps -/

namespace Stage

variable {s : Stage} {id : ContextId}

/-- All contexts know the functions `F`, and the callbacks in the document do not change that. -/
structure Schooled (F : Registry) (s : Stage) : Prop where
  pool : s.pool.Schooled F
  document : s.document.Loyal

namespace Schooled

theorem bindingsOf (hs : s.Schooled F) (node : Handle) : (s.bindingsOf node).2.Schooled F := by
  have hlookup := s.toScan.lookup_loyal node hs.document
  unfold Stage.bindingsOf
  generalize s.toScan.lookup node = looked at hlookup ⊢
  exact ⟨hs.pool, hlookup⟩

theorem edit (hs : s.Schooled F) (change : Document → Document) (hd : (change s.document).Loyal) :
    (s.edit change).Schooled F :=
  ⟨hs.pool, hd⟩

theorem execute? {e : Evaluator} {v : Value} {s' : Stage} (hs : s.Schooled F)
    (he : s.execute? id e = some (v, s')) : s'.Schooled F := by
  obtain ⟨c, hc, heq⟩ := Option.map_eq_some_iff.mp he
  obtain ⟨-, rfl⟩ := Prod.mk.inj heq
  have hfunctions := (c.functions_execute e).trans (hs.pool.knows.live id c hc)
  exact ⟨hs.pool.put hc hfunctions, hs.document⟩

theorem reference? {i : Inclusion} {reference : String} {s' : Stage} (hs : s.Schooled F)
    (hr : s.reference? id i = some (reference, s')) : s'.Schooled F := by
  cases i with
  | literal name =>
    obtain ⟨-, rfl⟩ := Prod.mk.inj (Option.some.inj hr)
    exact hs
  | computed e =>
    obtain ⟨⟨v, s₁⟩, he, heq⟩ := Option.map_eq_some_iff.mp hr
    obtain ⟨-, rfl⟩ := Prod.mk.inj heq
    exact hs.execute? he

theorem findTemplate (hs : s.Schooled F) (plan : Plan) (reference : String) :
    (s.findTemplate plan reference).2.Schooled F :=
  ⟨hs.pool, Templates.find_all lasting_loyal hs.document plan.templates plan.loader? reference⟩

theorem cloneTemplate (hs : s.Schooled F) (plan : Plan) (template : Handle) :
    (s.cloneTemplate plan template).2.Schooled F := by
  have hcloned : (plan.templates.clone s.toScan template).2.document.Loyal := by
    have hprimed := s.toScan.prime_loyal template hs.document
    unfold Templates.clone
    generalize s.toScan.prime template = primed at hprimed ⊢
    exact (hprimed.deepClone template).removeAttribute _ _
  unfold Stage.cloneTemplate
  generalize plan.templates.clone s.toScan template = cloned at hcloned ⊢
  exact ⟨hs.pool, hcloned⟩

theorem resolveTemplate (hs : s.Schooled F) (plan : Plan) (reference : String) :
    (s.resolveTemplate plan reference).2.Schooled F := by
  have hfound := hs.findTemplate plan reference
  unfold Stage.resolveTemplate
  generalize s.findTemplate plan reference = found at hfound ⊢
  obtain ⟨_ | template, s'⟩ := found
  · exact hfound
  · exact hfound.cloneTemplate plan template

theorem transclude (hs : s.Schooled F) (plan : Plan) (id : ContextId) (node : Handle)
    (reference : String) : (s.transclude plan id node reference).1.Schooled F := by
  have hresolved := hs.resolveTemplate plan reference
  unfold Stage.transclude
  generalize s.resolveTemplate plan reference = resolved at hresolved ⊢
  obtain ⟨_ | copy, s'⟩ := resolved
  · exact hresolved.edit (fun d => d.remove node) (.remove lasting_loyal hresolved.document node)
  · exact hresolved.edit (fun d => d.replace copy node)
      (.replace lasting_loyal hresolved.document copy node)

theorem schedule {p : Pool} (hp : p.Schooled F) (parent : ContextId) (count index : Nat)
    (nodes : List Handle) (items : List Value) :
    (Stage.schedule parent count index nodes items p).2.Schooled F := by
  induction nodes generalizing index items p with
  | nil => exact hp
  | cons h nodes ih =>
    cases items with
    | nil => exact hp
    | cons v items => exact ih (hp.createItem parent v index count) (index + 1) items

theorem queueItems (hs : s.Schooled F) (parent : ContextId) (count index : Nat)
    (nodes : List Handle) (items : List Value) :
    (s.queueItems parent count index nodes items).1.Schooled F :=
  ⟨schedule hs.pool parent count index nodes items, hs.document⟩

theorem select (hs : s.Schooled F) (id : ContextId) (node : Handle) (v : Value) :
    (s.select id node v).1.Schooled F := by
  have hvisible := fun shown =>
    hs.edit (fun d => d.setVisible node shown) (.setVisible lasting_loyal hs.document node shown)
  cases v with
  | array items =>
    have hinstances := Document.All.instances lasting_loyal hs.document (fun _ _ _ hn => hn)
      (fun _ _ hn => hn) (ListChange.of (s.document.node node).marker? items.length) node items.length
    have hspread := hs.edit (fun d => ((ListChange.of (s.document.node node).marker? items.length).apply
      node items.length d).2) hinstances
    exact hspread.queueItems id _ _ _ _
  | null => exact hvisible false
  | bool _ | number _ | string _ | object _ => exact (hvisible true).queueItems id 1 0 [node] _

theorem fillNode (hs : s.Schooled F) (plan : Plan) (id : ContextId) (node : Handle) :
    (s.fillNode plan id node).1.Schooled F := by
  have hseen := hs.bindingsOf node
  cases hc : (s.bindingsOf node).2.pool.get? id with
  | none =>
    unfold Stage.fillNode
    dsimp only
    rw [hc]
    exact hseen
  | some c =>
    have hfilled := plan.filling_stems (s.bindingsOf node).1 node hseen.document c
    have hfunctions := hfilled.becomes.functions_eq.trans (hseen.pool.knows.live id c hc)
    rw [fillNode_filling plan hc]
    exact ⟨hseen.pool.put hc hfunctions, hfilled.document⟩

theorem placeNode (hs : s.Schooled F) (plan : Plan) (id : ContextId) (node : Handle) :
    (s.placeNode plan id node).1.Schooled F := by
  have hseen := hs.bindingsOf node
  have hplaced := placeNode_placement plan s id node
  generalize s.placeNode plan id node = r at hplaced ⊢
  cases hplaced with
  | unreferenced _ _ | unvalued _ _ _ => exact hseen
  | included _ hreference => exact (hseen.reference? hreference).transclude plan id node _
  | selected _ _ hvalue => exact (hseen.execute? hvalue).select id node _
  | filled _ _ => exact hseen.fillNode plan id node

/-- A step leaves every context with the functions that it knows. -/
theorem step (hs : s.Schooled F) (plan : Plan) (st : Step) (depth : Nat) :
    (s.step plan st depth).1.Schooled F := by
  cases st with
  | place id node => exact hs.placeNode plan id node
  | fill id node => exact hs.fillNode plan id node
  | release id => exact ⟨hs.pool.recycle id, hs.document⟩

end Schooled

end Stage

end TreeTemplate
