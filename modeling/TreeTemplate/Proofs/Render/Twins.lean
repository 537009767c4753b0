import TreeTemplate.Proofs.Context.Mirror
import TreeTemplate.Proofs.Render.Filling
import TreeTemplate.Proofs.Render.Lease

/-!
Two stages that look the same.  Their documents differ in nothing but what is on record, their pools hold
the same contexts under different handles, and what their caches remember is what there is
(`Stage.Twins`).  A step on one of them and its counterpart on the other lead to such stages again and
push counterparts (`Stage.Twins.act`), provided that recognised attributes stay as they are.
-/

namespace TreeTemplate

/-- The step with other handles of contexts. -/
def Step.rename (ρ : ContextId → ContextId) : Step → Step
  | .place context node => .place (ρ context) node
  | .fill context node => .fill (ρ context) node
  | .release context => .release (ρ context)

theorem Step.rename_congr {ρ ρ' : ContextId → ContextId} {st : Step}
    (h : ρ' st.context = ρ st.context) : st.rename ρ' = st.rename ρ := by
  cases st with
  | place context node => exact congrArg (place · node) h
  | fill context node => exact congrArg (fill · node) h
  | release context => exact congrArg release h

namespace Templates

variable {P : Handle → Node → Prop} {Q : Node → Prop} {d : Document}

theorem container_unscanned (t : Templates) (d : Document) :
    t.container d.unscanned = ((t.container d).1, (t.container d).2.unscanned) := by
  simp only [container, named?, Document.find?_unscanned]
  cases d.find? t.idAttribute t.containerId with
  | some h => rfl
  | none => exact Document.createHiddenContainer_unscanned d _ _

/-- What is on record makes no difference to what is found. -/
theorem find_unscanned (t : Templates) (loader? : Option Loader) (d : Document) (reference : String) :
    t.find loader? d.unscanned reference =
      { t.find loader? d reference with
        document := (t.find loader? d reference).document.unscanned } := by
  have hnamed : ∀ d : Document, t.named? d.unscanned reference = t.named? d reference :=
    fun d => d.find?_unscanned t.idAttribute reference
  have hloaded : ∀ markup? : Option String, t.findLoaded d.unscanned reference markup? =
      ((t.findLoaded d reference markup?).1, (t.findLoaded d reference markup?).2.unscanned) := by
    intro markup?
    cases markup? with
    | none => simp only [findLoaded, hnamed]
    | some markup =>
      simp only [findLoaded, container_unscanned, Document.appendMarkup_unscanned]
      cases (t.container d).2.appendMarkup (t.container d).1 markup with
      | error e => rfl
      | ok d' => exact congrArg (·, _) (hnamed d')
  simp only [find, hnamed]
  split
  · rfl
  · cases t.named? d reference with
    | some h => rfl
    | none =>
      cases loader? with
      | none => rfl
      | some load => simp only [hloaded]

/-- Looking for a template only adds nodes. -/
theorem find_all (hL : Lasting P Q) (hd : d.All P Q) (t : Templates) (loader? : Option Loader)
    (reference : String) : (t.find loader? d reference).document.All P Q := by
  have hcontainer : (t.container d).2.All P Q := by
    unfold container
    split
    · exact hd
    · exact .createHiddenContainer hL hd _ _
  exact t.find_keeps hd hcontainer (fun _ _ happend => .appendMarkup hL hcontainer happend) loader? reference

end Templates

namespace Scan

variable {σ τ : Setting} {s s₁ s₂ : Scan}

theorem Coherent.namePrefix_of_known (hs : s.Coherent σ) {b : BindingCache}
    (hb : σ.Known s.bindings b) : b.namePrefix = σ.namePrefix := by
  rcases hb with rfl | hb
  · exact hs.namePrefix_eq
  · exact (hs.apart b hb).2

/-- A copy of a template is to be trusted if its identity is no binding. -/
theorem Coherent.clone (hs : s.Coherent σ) {t : Templates}
    (hid : ∀ b : Binding, σ.namePrefix ++ b.suffix ≠ t.idAttribute) (h : Handle) :
    σ.Trusts s.bindings
      ((s.document.deepClone h).2.removeAttribute (s.document.deepClone h).1 t.idAttribute) := by
  have hL := lasting_trusted (σ.Known s.bindings) σ.functions
  have hcopied := hs.nodes.deepClone hL (fun _ _ _ hn => hn) (fun _ _ hn => hn.trusted) h
  apply hcopied.removeAttribute hL
  intro n tag attributes hn hcontent
  refine (hcopied.live _ n hn).congr rfl rfl fun b hb => ?_
  rw [hs.namePrefix_of_known hb]
  simp only [Node.rawBindings, Node.attribute?, hcontent, Dict.get?_erase_of_ne (hid _)]

theorem Twins.clone (ht : Twins σ τ s₁ s₂) {t : Templates}
    (hid : ∀ b : Binding, σ.namePrefix ++ b.suffix ≠ t.idAttribute) (h : Handle) :
    (t.clone s₂ h).1 = (t.clone s₁ h).1 ∧ Twins σ τ (t.clone s₁ h).2 (t.clone s₂ h).2 := by
  have hprimed := ht.prime h
  unfold Templates.clone
  generalize s₁.prime h = t₁ at hprimed ⊢
  generalize s₂.prime h = t₂ at hprimed ⊢
  have hid' : ∀ b : Binding, τ.namePrefix ++ b.suffix ≠ t.idAttribute := by
    rw [ht.namePrefix]
    exact hid
  have hcloned := hprimed.edit
    (fun d => (d.deepClone h).2.removeAttribute (d.deepClone h).1 t.idAttribute)
    (fun d => by rw [Document.deepClone_unscanned, Document.removeAttribute_unscanned])
    (hprimed.left.clone hid h) (hprimed.right.clone hid' h)
  have hcopy : ∀ d : Document, (d.unscanned.deepClone h).1 = (d.deepClone h).1 := by
    intro d
    rw [Document.deepClone_unscanned]
  refine ⟨?_, hcloned⟩
  have hcopies := congrArg (fun d : Document => (d.deepClone h).1) hprimed.document
  rwa [hcopy, hcopy] at hcopies

end Scan

theorem Plan.stripped_unscanned (plan : Plan) (node : Handle) (d : Document) :
    plan.stripped node d.unscanned = (plan.stripped node d).unscanned := by
  unfold stripped
  cases plan.inPlace with
  | true => rfl
  | false => exact d.removeAttribute_unscanned node plan.templates.idAttribute

/-- What filling a node in a context comes to. -/
def Plan.filling (plan : Plan) (set : BindingSet) (node : Handle) (c : Context) (d : Document) :
    Bool × Filling :=
  (Filling.identify plan.templates.idAttribute set node ⟨plan.stripped node d, c, []⟩).fill set node

theorem Plan.filling_eq (plan : Plan) {set₁ set₂ : BindingSet} (hset : set₂.plain = set₁.plain)
    (node : Handle) (c : Context) {d₁ d₂ : Document} (hd : d₂.unscanned = d₁.unscanned) :
    (plan.filling set₂ node c d₂).1 = (plan.filling set₁ node c d₁).1 ∧
      (plan.filling set₂ node c d₂).2.unscanned = (plan.filling set₁ node c d₁).2.unscanned := by
  have hstripped : (Filling.mk (plan.stripped node d₂) c []).unscanned =
      (Filling.mk (plan.stripped node d₁) c []).unscanned := by
    simp only [Filling.unscanned, ← stripped_unscanned, hd]
  exact Filling.fill_eq_of_unscanned_eq hstripped hset plan.templates.idAttribute node

/-- Filling a node leaves on record what was there. -/
theorem Plan.filling_kept (plan : Plan) (set : BindingSet) (node : Handle) {c : Context}
    {σ : Scan.Setting} {b : BindingCache} {d : Document} (hd : σ.Trusts b d)
    (hc : c.functions = σ.functions) :
    (plan.filling set node c d).2.Kept σ.functions d.Holdover
      (Node.Vacated (σ.Known b) σ.functions) := by
  have hE := hd.enduring
  have hstripped : (plan.stripped node d).All d.Holdover (Node.Vacated (σ.Known b) σ.functions) := by
    unfold stripped
    cases plan.inPlace with
    | true => exact hd.holdover
    | false =>
      exact hd.holdover.removeAttribute hE.toLasting fun n tag attributes hn _ =>
        hE.content node n _ (hd.holdover.live node n hn)
  have hkept : Filling.Kept σ.functions d.Holdover (Node.Vacated (σ.Known b) σ.functions)
      ⟨plan.stripped node d, c, []⟩ := ⟨hstripped, hc⟩
  exact .fill hE (.identify hE hkept node plan.templates.idAttribute set) node set

/-- Filling a node in twin documents leaves twin documents. -/
theorem Scan.Twins.filling {σ τ : Scan.Setting} {s₁ s₂ : Scan} {plan : Plan} {set₁ set₂ : BindingSet}
    {node : Handle} {c : Context} {f₁ f₂ : Bool × Filling} (ht : Scan.Twins σ τ s₁ s₂)
    (hset : set₂.plain = set₁.plain) (hc : c.functions = σ.functions)
    (hf₁ : plan.filling set₁ node c s₁.document = f₁)
    (hf₂ : plan.filling set₂ node c s₂.document = f₂)
    (hsame : s₁.document.Undisturbed σ.namePrefix f₁.2.document) :
    f₂.1 = f₁.1 ∧ f₂.2.context = f₁.2.context ∧ f₂.2.notes = f₁.2.notes ∧
      f₁.2.context.functions = σ.functions ∧
      Twins σ τ { s₁ with document := f₁.2.document } { s₂ with document := f₂.2.document } := by
  have hkept₁ := plan.filling_kept set₁ node ht.left.nodes hc
  have hkept₂ := plan.filling_kept set₂ node ht.right.nodes (hc.trans ht.functions.symm)
  obtain ⟨hdescend, hfilled⟩ := plan.filling_eq hset node c ht.document
  rw [hf₁] at hkept₁
  rw [hf₂] at hkept₂
  rw [hf₁, hf₂] at hdescend hfilled
  simp only [Filling.unscanned, Filling.mk.injEq] at hfilled
  obtain ⟨hdocument, hcontext, hnotes⟩ := hfilled
  have hsame' : s₂.document.Undisturbed τ.namePrefix f₂.2.document := by
    rw [ht.namePrefix]
    exact hsame.congr (fun x => by rw [ht.document]) fun x => by rw [hdocument]
  have htrusts₁ := ht.left.nodes.undisturbed (fun b hb => ht.left.namePrefix_of_known hb)
    hkept₁.nodes hsame
  have htrusts₂ := ht.right.nodes.undisturbed (fun b hb => ht.right.namePrefix_of_known hb)
    hkept₂.nodes hsame'
  exact ⟨hdescend, hcontext, hnotes, hkept₁.functions, ht.left.edit htrusts₁, ht.right.edit htrusts₂,
    ht.namePrefix, ht.functions, hdocument⟩

namespace Stage

open Scan (Setting)

variable {σ τ : Setting} {ρ ρ' : ContextId → ContextId} {s s₁ s₂ t₁ t₂ : Stage} {plan : Plan}
  {id : ContextId} {c : Context} {h : Handle} {set₁ set₂ : BindingSet} {p p' : Pool}
  {r₁ r₂ : Stage × List (List Step)}

/-- The stages look the same, `ρ` telling the handles of contexts on the second one from those on the
first. -/
structure Twins (σ τ : Setting) (ρ : ContextId → ContextId) (s₁ s₂ : Stage) : Prop where
  scan : Scan.Twins σ τ s₁.toScan s₂.toScan
  pool : Pool.Twins σ.functions ρ s₁.pool s₂.pool
  journal : s₂.journal = s₁.journal

/-- What two steps make of twin stages and push, `p` being the pool that the first one found: contexts
that were live keep their counterparts. -/
def Answers (σ τ : Setting) (ρ : ContextId → ContextId) (p : Pool)
    (r₁ r₂ : Stage × List (List Step)) : Prop :=
  ∃ ρ', (∀ x, p.get? x ≠ none → ρ' x = ρ x) ∧ r₂.2 = r₁.2.map (List.map (Step.rename ρ')) ∧
    Twins σ τ ρ' r₁.1 r₂.1

/-- Filling a node in a live context. -/
theorem fillNode_filling {node : Handle} (plan : Plan)
    (hc : (s.bindingsOf node).2.pool.get? id = some c) :
    s.fillNode plan id node =
      let seen := (s.bindingsOf node).2
      let filled := plan.filling (s.bindingsOf node).1 node c seen.document
      ({ seen with
          document := filled.2.document
          pool := seen.pool.put id filled.2.context
          journal := { seen.journal with notes := seen.journal.notes ++ filled.2.notes } },
        if filled.1 then [(filled.2.document.elementChildren node).map (Step.place id)] else []) := by
  unfold fillNode
  generalize s.bindingsOf node = b at hc ⊢
  obtain ⟨set, t⟩ := b
  dsimp only at hc ⊢
  rw [hc]
  unfold Plan.filling Plan.stripped
  dsimp only
  generalize Filling.fill set node _ = filled
  obtain ⟨descends, f⟩ := filled
  cases descends with
  | false => rfl
  | true => rfl

theorem Answers.mono (hlive : ∀ x, p.get? x ≠ none → p'.get? x ≠ none)
    (h : Answers σ τ ρ p' r₁ r₂) : Answers σ τ ρ p r₁ r₂ := by
  obtain ⟨ρ', hρ, hpushed, ht⟩ := h
  exact ⟨ρ', fun x hx => hρ x (hlive x hx), hpushed, ht⟩

namespace Twins

/-- Nothing is pushed. -/
theorem answers_nil (ht : Twins σ τ ρ s₁ s₂) (p : Pool) :
    Answers σ τ ρ p (s₁, []) (s₂, []) :=
  ⟨ρ, fun _ _ => rfl, rfl, ht⟩

theorem bindingsOf (ht : Twins σ τ ρ s₁ s₂) (h : Handle) :
    (s₂.bindingsOf h).1.plain = (s₁.bindingsOf h).1.plain ∧
      Twins σ τ ρ (s₁.bindingsOf h).2 (s₂.bindingsOf h).2 := by
  obtain ⟨hset, hscan⟩ := ht.scan.lookup h
  exact ⟨hset, hscan, ht.pool, ht.journal⟩

/-- Changes that leave records alone. -/
theorem edit (ht : Twins σ τ ρ s₁ s₂) (change : Document → Document)
    (hchange : ∀ d : Document, change d.unscanned = (change d).unscanned)
    (hlasting : ∀ (P : Handle → Node → Prop) (Q : Node → Prop) (d : Document),
      Lasting P Q → d.All P Q → (change d).All P Q) :
    Twins σ τ ρ (s₁.edit change) (s₂.edit change) := by
  refine ⟨ht.scan.edit change hchange ?_ ?_, ht.pool, ht.journal⟩
  · exact hlasting _ _ _ (lasting_trusted _ _) ht.scan.left.nodes
  · exact hlasting _ _ _ (lasting_trusted _ _) ht.scan.right.nodes

/-- An evaluation in a context and its counterpart gives the same value. -/
theorem execute? (ht : Twins σ τ ρ s₁ s₂) (hc : s₁.pool.get? id = some c) {e₁ e₂ : Evaluator}
    (he : e₂.plain = e₁.plain) :
    ∃ v t₁ t₂, s₁.execute? id e₁ = some (v, t₁) ∧ s₂.execute? (ρ id) e₂ = some (v, t₂) ∧
      Twins σ τ ρ t₁ t₂ ∧ ∀ x, s₁.pool.get? x ≠ none → t₁.pool.get? x ≠ none := by
  have hc' := ht.pool.mirrors.get?_eq id c hc
  have hsame : c.execute e₂ = c.execute e₁ := by
    have hplain : ∀ e : Evaluator, c.execute e.plain = c.execute e := fun _ => rfl
    rw [← hplain e₂, he, hplain]
  have hfunctions := (c.functions_execute e₁).trans (ht.pool.leftKnows.live id c hc)
  refine ⟨(c.execute e₁).1, { s₁ with pool := s₁.pool.put id (c.execute e₁).2 },
    { s₂ with pool := s₂.pool.put (ρ id) (c.execute e₁).2 }, ?_, ?_,
    ⟨ht.scan, ht.pool.put hc hfunctions, ht.journal⟩, fun x hx => ?_⟩
  · rw [Stage.execute?, hc, Option.map_some]
  · rw [Stage.execute?, hc', Option.map_some, hsame]
  · rw [Pool.get?_put hc]
    split
    · simp
    · exact hx

theorem reference? (ht : Twins σ τ ρ s₁ s₂) (hc : s₁.pool.get? id = some c) {i₁ i₂ : Inclusion}
    (hi : i₂.plain = i₁.plain) :
    ∃ reference t₁ t₂, s₁.reference? id i₁ = some (reference, t₁) ∧
      s₂.reference? (ρ id) i₂ = some (reference, t₂) ∧ Twins σ τ ρ t₁ t₂ ∧
      ∀ x, s₁.pool.get? x ≠ none → t₁.pool.get? x ≠ none := by
  cases i₁ with
  | literal name =>
    cases i₂ with
    | computed e => simp [Inclusion.plain] at hi
    | literal name' =>
      obtain rfl : name' = name := by simpa [Inclusion.plain] using hi
      exact ⟨name', s₁, s₂, rfl, rfl, ht, fun x hx => hx⟩
  | computed e₁ =>
    cases i₂ with
    | literal name => simp [Inclusion.plain] at hi
    | computed e₂ =>
      obtain ⟨v, t₁, t₂, h₁, h₂, ht', hlive⟩ := ht.execute? hc (by simpa [Inclusion.plain] using hi)
      refine ⟨v.display, t₁, t₂, ?_, ?_, ht', hlive⟩
      · rw [Stage.reference?, h₁, Option.map_some]
      · rw [Stage.reference?, h₂, Option.map_some]

/-! ### Templates -/

theorem findTemplate (ht : Twins σ τ ρ s₁ s₂) (plan : Plan) (reference : String) :
    (s₂.findTemplate plan reference).1 = (s₁.findTemplate plan reference).1 ∧
      Twins σ τ ρ (s₁.findTemplate plan reference).2 (s₂.findTemplate plan reference).2 := by
  have hfind := fun d => Templates.find_unscanned plan.templates plan.loader? d reference
  have hsame := (hfind s₂.document).symm.trans
    (Eq.trans (by rw [ht.scan.document]) (hfind s₁.document))
  have hnode := congrArg Found.node? hsame
  have hasked := congrArg Found.asked hsame
  have hdocument := congrArg Found.document hsame
  dsimp only at hnode hasked hdocument
  refine ⟨hnode, ⟨?_, ?_, ht.scan.namePrefix, ht.scan.functions, hdocument⟩, ht.pool, ?_⟩
  · exact ht.scan.left.edit (Templates.find_all (lasting_trusted _ _) ht.scan.left.nodes _ _ _)
  · exact ht.scan.right.edit (Templates.find_all (lasting_trusted _ _) ht.scan.right.nodes _ _ _)
  · simp only [Stage.findTemplate, hasked, ht.journal]

theorem cloneTemplate (ht : Twins σ τ ρ s₁ s₂)
    (hid : ∀ b : Binding, σ.namePrefix ++ b.suffix ≠ plan.templates.idAttribute) (h : Handle) :
    (s₂.cloneTemplate plan h).1 = (s₁.cloneTemplate plan h).1 ∧
      Twins σ τ ρ (s₁.cloneTemplate plan h).2 (s₂.cloneTemplate plan h).2 := by
  obtain ⟨hcopy, hscan⟩ := ht.scan.clone hid h
  unfold Stage.cloneTemplate
  generalize plan.templates.clone s₁.toScan h = cloned₁ at hcopy hscan ⊢
  generalize plan.templates.clone s₂.toScan h = cloned₂ at hcopy hscan ⊢
  exact ⟨hcopy, hscan, ht.pool, ht.journal⟩

theorem resolveTemplate (ht : Twins σ τ ρ s₁ s₂)
    (hid : ∀ b : Binding, σ.namePrefix ++ b.suffix ≠ plan.templates.idAttribute)
    (reference : String) :
    (s₂.resolveTemplate plan reference).1 = (s₁.resolveTemplate plan reference).1 ∧
      Twins σ τ ρ (s₁.resolveTemplate plan reference).2 (s₂.resolveTemplate plan reference).2 := by
  obtain ⟨hnode, hfound⟩ := ht.findTemplate plan reference
  unfold Stage.resolveTemplate
  generalize s₁.findTemplate plan reference = found₁ at hnode hfound ⊢
  generalize s₂.findTemplate plan reference = found₂ at hnode hfound ⊢
  obtain ⟨node?, t₁⟩ := found₁
  obtain ⟨node?', t₂⟩ := found₂
  obtain rfl : node?' = node? := hnode
  cases node?' with
  | none => exact ⟨rfl, hfound⟩
  | some template =>
    obtain ⟨hcopy, hcloned⟩ := hfound.cloneTemplate hid template
    exact ⟨congrArg some hcopy, hcloned⟩

theorem transclude (ht : Twins σ τ ρ s₁ s₂)
    (hid : ∀ b : Binding, σ.namePrefix ++ b.suffix ≠ plan.templates.idAttribute) (id : ContextId)
    (node : Handle) (reference : String) (p : Pool) :
    Answers σ τ ρ p (s₁.transclude plan id node reference)
      (s₂.transclude plan (ρ id) node reference) := by
  obtain ⟨hcopy, hresolved⟩ := ht.resolveTemplate hid reference
  unfold Stage.transclude
  generalize s₁.resolveTemplate plan reference = resolved₁ at hcopy hresolved ⊢
  generalize s₂.resolveTemplate plan reference = resolved₂ at hcopy hresolved ⊢
  obtain ⟨copy?, t₁⟩ := resolved₁
  obtain ⟨copy?', t₂⟩ := resolved₂
  obtain rfl : copy?' = copy? := hcopy
  cases copy?' with
  | none =>
    have hremoved := hresolved.edit (·.remove node) (fun d => d.remove_unscanned node)
      fun P Q d hL hd => hd.remove hL node
    exact hremoved.answers_nil p
  | some copy =>
    have hreplaced := hresolved.edit (·.replace copy node)
      (fun d => d.replace_unscanned copy node)
      fun P Q d hL hd => hd.replace hL copy node
    exact ⟨ρ, fun _ _ => rfl, rfl, hreplaced⟩

/-! ### Selecting -/

/-- Contexts for list items are opened under counterparts. -/
theorem schedule {q : Pool} (hp : Pool.Twins σ.functions ρ p q) (hc : p.get? id = some c)
    (count index : Nat) (nodes : List Handle) (items : List Value) :
    ∃ ρ', (∀ x, p.get? x ≠ none → ρ' x = ρ x) ∧
      (Stage.schedule (ρ id) count index nodes items q).1 =
        (Stage.schedule id count index nodes items p).1.map (Step.rename ρ') ∧
      Pool.Twins σ.functions ρ' (Stage.schedule id count index nodes items p).2
        (Stage.schedule (ρ id) count index nodes items q).2 := by
  induction nodes generalizing ρ index items p q with
  | nil => exact ⟨ρ, fun _ _ => rfl, rfl, hp⟩
  | cons h nodes ih =>
    cases items with
    | nil => exact ⟨ρ, fun _ _ => rfl, rfl, hp⟩
    | cons v items =>
      have hopened := Pool.createItem_opened hp.left hc v index count
      have hitem := hp.createItem hc v index count
      rw [Stage.schedule, Stage.schedule]
      generalize p.createItem id v index count = created at hopened hitem ⊢
      generalize q.createItem (ρ id) v index count = created' at hitem ⊢
      have hold : ∀ x, p.get? x ≠ none →
          Function.update ρ created.1 created'.1 x = ρ x ∧ created.2.get? x = p.get? x := by
        intro x hx
        have hne : x ≠ created.1 := fun heq => hx (heq ▸ hopened.fresh)
        exact ⟨Function.update_of_ne hne _ _, hopened.get?_of_ne hne⟩
      obtain ⟨hid, hlive⟩ := hold id (by simp [hc])
      obtain ⟨ρ', hρ, hsteps, hpool⟩ := ih hitem (hlive.trans hc) (index + 1) items
      rw [hid] at hsteps hpool
      have hnew : ρ' created.1 = created'.1 := by
        rw [hρ created.1 (by simp [hopened.get?_self]), Function.update_self]
      refine ⟨ρ', fun x hx => ?_, ?_, hpool⟩
      · obtain ⟨hsame, hstays⟩ := hold x hx
        rw [hρ x (by rwa [hstays]), hsame]
      · dsimp only
        rw [hsteps, List.map_cons, List.map_cons, Step.rename, Step.rename, hnew]

theorem queueItems (ht : Twins σ τ ρ s₁ s₂) (hc : s₁.pool.get? id = some c) (count index : Nat)
    (nodes : List Handle) (items : List Value) :
    Answers σ τ ρ s₁.pool (s₁.queueItems id count index nodes items)
      (s₂.queueItems (ρ id) count index nodes items) := by
  obtain ⟨ρ', hρ, hsteps, hpool⟩ := schedule ht.pool hc count index nodes items
  exact ⟨ρ', hρ, congrArg ([·]) hsteps, ht.scan, hpool, ht.journal⟩

theorem selectList (ht : Twins σ τ ρ s₁ s₂) (hc : s₁.pool.get? id = some c) (node : Handle)
    (items : List Value) :
    Answers σ τ ρ s₁.pool (s₁.selectList id node items) (s₂.selectList (ρ id) node items) := by
  have hmarker : (s₂.document.node node).marker? = (s₁.document.node node).marker? :=
    Node.marker_of_unscanned (ht.scan.node_eq node)
  unfold Stage.selectList
  dsimp only
  rw [hmarker]
  generalize ListChange.of (s₁.document.node node).marker? items.length = change
  have hstood := ht.scan.edit (fun d => (change.apply node items.length d).2)
    (fun d => by rw [change.apply_unscanned])
    (ht.scan.left.nodes.instances (lasting_trusted _ _) (fun _ _ _ hn => hn)
      (fun _ _ hn => hn.trusted) change node items.length)
    (ht.scan.right.nodes.instances (lasting_trusted _ _) (fun _ _ _ hn => hn)
      (fun _ _ hn => hn.trusted) change node items.length)
  have hinstances : (change.apply node items.length s₂.document).1 =
      (change.apply node items.length s₁.document).1 := by
    have hfirst := fun d => congrArg Prod.fst (change.apply_unscanned node items.length d)
    rw [← hfirst s₂.document, ht.scan.document, hfirst]
  rw [hinstances]
  have hstage : Twins σ τ ρ { s₁ with document := (change.apply node items.length s₁.document).2 }
      { s₂ with document := (change.apply node items.length s₂.document).2 } :=
    ⟨hstood, ht.pool, ht.journal⟩
  exact hstage.queueItems hc _ _ _ _

theorem select (ht : Twins σ τ ρ s₁ s₂) (hc : s₁.pool.get? id = some c) (node : Handle)
    (v : Value) : Answers σ τ ρ s₁.pool (s₁.select id node v) (s₂.select (ρ id) node v) := by
  have hvisible : ∀ shown : Bool,
      Twins σ τ ρ (s₁.edit fun d => d.setVisible node shown) (s₂.edit fun d => d.setVisible node shown) :=
    fun shown => ht.edit (·.setVisible node shown) (fun d => d.setVisible_unscanned node shown)
      fun P Q d hL hd => hd.setVisible hL node shown
  cases v with
  | array items => exact ht.selectList hc node items
  | null => exact (hvisible false).answers_nil s₁.pool
  | bool _ | number _ | string _ | object _ => exact (hvisible true).queueItems hc 1 0 [node] _

/-! ### Filling -/

theorem fillNode (ht : Twins σ τ ρ s₁ s₂) (hc : s₁.pool.get? id = some c) (node : Handle)
    (hsame : s₁.document.Undisturbed σ.namePrefix (s₁.fillNode plan id node).1.document) :
    Answers σ τ ρ s₁.pool (s₁.fillNode plan id node) (s₂.fillNode plan (ρ id) node) := by
  obtain ⟨hset, hseen⟩ := ht.bindingsOf node
  have hlook : ∀ x, (s₁.bindingsOf node).2.document.unscanned.get? x =
      s₁.document.unscanned.get? x := fun x => (ht.scan.get?_lookup node x).1
  have hpool := s₁.bindingsOf_pool node
  rw [← hpool] at hc ⊢
  have hc' := hseen.pool.mirrors.get?_eq id c hc
  have hfunctions := hseen.pool.leftKnows.live id c hc
  rw [fillNode_filling plan hc] at hsame ⊢
  rw [fillNode_filling plan hc']
  generalize s₁.bindingsOf node = b₁ at *
  generalize s₂.bindingsOf node = b₂ at *
  obtain ⟨set₁, t₁⟩ := b₁
  obtain ⟨set₂, t₂⟩ := b₂
  dsimp only at *
  generalize hf₁ : plan.filling set₁ node c t₁.document = f₁ at *
  generalize hf₂ : plan.filling set₂ node c t₂.document = f₂ at *
  obtain ⟨hdescend, hcontext, hnotes, hfunctions', hfilled⟩ :=
    hseen.scan.filling hset hfunctions hf₁ hf₂ (hsame.congr hlook fun _ => rfl)
  have hkids := hfilled.elementChildren_eq node
  refine ⟨ρ, fun _ _ => rfl, ?_, ?_⟩
  · dsimp only at hkids ⊢
    rw [hdescend, hkids]
    split
    · simp [Step.rename]
    · rfl
  · rw [hcontext, hnotes, hseen.journal]
    exact ⟨hfilled, hseen.pool.put hc hfunctions', rfl⟩

/-! ### Steps -/

theorem placeNode (ht : Twins σ τ ρ s₁ s₂)
    (hid : ∀ b : Binding, σ.namePrefix ++ b.suffix ≠ plan.templates.idAttribute)
    (hc : s₁.pool.get? id = some c) (node : Handle)
    (hsame : s₁.document.Undisturbed σ.namePrefix (s₁.placeNode plan id node).1.document) :
    Answers σ τ ρ s₁.pool (s₁.placeNode plan id node) (s₂.placeNode plan (ρ id) node) := by
  obtain ⟨hset, hseen⟩ := ht.bindingsOf node
  have hlook : ∀ x, (s₁.bindingsOf node).2.document.unscanned.get? x =
      s₁.document.unscanned.get? x := fun x => (ht.scan.get?_lookup node x).1
  have hpool := s₁.bindingsOf_pool node
  rw [← hpool] at hc ⊢
  unfold Stage.placeNode at hsame ⊢
  generalize s₁.bindingsOf node = b₁ at *
  generalize s₂.bindingsOf node = b₂ at *
  obtain ⟨set₁, t₁⟩ := b₁
  obtain ⟨set₂, t₂⟩ := b₂
  dsimp only at *
  have hinclude : set₂.include?.map Inclusion.plain = set₁.include?.map Inclusion.plain :=
    congrArg BindingSet.include? hset
  have hselect : set₂.select?.map Evaluator.plain = set₁.select?.map Evaluator.plain :=
    congrArg BindingSet.select? hset
  cases hi₁ : set₁.include? with
  | some i₁ =>
    rw [hi₁, Option.map_some, Option.map_eq_some_iff] at hinclude
    obtain ⟨i₂, hi₂, hi⟩ := hinclude
    obtain ⟨reference, u₁, u₂, h₁, h₂, hu, hlive⟩ := hseen.reference? hc hi
    simp only [hi₂, h₁, h₂]
    exact (hu.transclude hid id node reference u₁.pool).mono hlive
  | none =>
    rw [hi₁, Option.map_none, Option.map_eq_none_iff] at hinclude
    cases he₁ : set₁.select? with
    | some e₁ =>
      rw [he₁, Option.map_some, Option.map_eq_some_iff] at hselect
      obtain ⟨e₂, he₂, he⟩ := hselect
      obtain ⟨v, u₁, u₂, h₁, h₂, hu, hlive⟩ := hseen.execute? hc he
      obtain ⟨c', hc'⟩ := Option.ne_none_iff_exists'.mp (hlive id (by simp [hc]))
      simp only [hinclude, he₂, h₁, h₂]
      exact (hu.select hc' node v).mono hlive
    | none =>
      rw [he₁, Option.map_none, Option.map_eq_none_iff] at hselect
      simp only [hi₁, he₁] at hsame
      simp only [hinclude, hselect]
      exact hseen.fillNode hc node (hsame.congr hlook fun _ => rfl)

/-- A step on a stage and its counterpart on a stage that looks the same. -/
theorem act {st : Step} (ht : Twins σ τ ρ s₁ s₂)
    (hid : ∀ b : Binding, σ.namePrefix ++ b.suffix ≠ plan.templates.idAttribute)
    (hlive : s₁.pool.get? st.context ≠ none)
    (hsame : s₁.document.Undisturbed σ.namePrefix (Stage.act plan s₁ st).1.document) :
    Answers σ τ ρ s₁.pool (Stage.act plan s₁ st) (Stage.act plan s₂ (st.rename ρ)) := by
  obtain ⟨c, hc⟩ := Option.ne_none_iff_exists'.mp hlive
  cases st with
  | place id node => exact ht.placeNode hid hc node hsame
  | fill id node => exact ht.fillNode hc node hsame
  | release id =>
    have hreleased : Twins σ τ ρ { s₁ with pool := s₁.pool.recycle id }
        { s₂ with pool := s₂.pool.recycle (ρ id) } := ⟨ht.scan, ht.pool.recycle hc, ht.journal⟩
    exact hreleased.answers_nil s₁.pool

end Twins

end Stage

end TreeTemplate
