import TreeTemplate.Proofs.Binding.Coherence

/-!
Filling a node and what is remembered.  Serials of evaluators and sets on record make no difference to
filling a node (`Filling.fill_plain`, `Filling.fill_unscanned`).  Filling may change attributes, but
what it leaves on record is what was there (`Filling.fill_kept`); so if the recognised attributes come
out as they were, the nodes are to be trusted as before (`Scan.Setting.Trusts.undisturbed`).
-/

namespace TreeTemplate

namespace Filling

variable (f : Filling) (set : BindingSet) (h : Handle)

/-! ### Serials -/

theorem holds_plain (condition? : Option Evaluator) :
    f.holds (condition?.map Evaluator.plain) = f.holds condition? := by
  cases condition? <;> rfl

theorem each_plain (put : Filling → String → Value → Filling) (es : Labelled) (f : Filling) :
    each put es.plain f = each put es f := by
  induction es generalizing f with
  | nil => rfl
  | cons p rest ih => exact ih _

theorem getD_plain (es? : Option Labelled) :
    (es?.map Labelled.plain).getD [] = (es?.getD []).plain := by
  cases es? <;> rfl

theorem runStatements_plain (es : List Evaluator) (f : Filling) :
    runStatements (es.map Evaluator.plain) f = runStatements es f := by
  induction es generalizing f with
  | nil => rfl
  | cons e rest ih => exact ih _

theorem identify_plain (idAttribute : String) :
    identify idAttribute set.plain h f = identify idAttribute set h f := by
  simp only [identify, BindingSet.plain]
  cases set.id? with
  | some id => rfl
  | none => cases set.idExpr? <;> rfl

/-- The serials of a set make no difference. -/
theorem fill_plain : f.fill set.plain h = f.fill set h := by
  have hgate : gate set.plain h f = gate set h f := by
    simp only [gate, BindingSet.plain]
    cases set.gate? <;> rfl
  have hassign : ∀ f : Filling, assign set.plain h f = assign set h f := by
    intro f
    have hstatements : (set.eval?.map (List.map Evaluator.plain)).getD [] =
        (set.eval?.getD []).map Evaluator.plain := by
      cases set.eval? <;> rfl
    simp only [assign, BindingSet.plain, getD_plain, each_plain, hstatements, runStatements_plain]
  have hreveal : ∀ f : Filling, reveal set.plain h f = reveal set h f := by
    intro f
    simp only [reveal, BindingSet.plain, holds_plain]
  have hcontent : ∀ f : Filling, settleContent set.plain h f = settleContent set h f := by
    intro f
    simp only [settleContent, BindingSet.plain, holds_plain]
    cases set.content? <;> rfl
  simp only [fill, hgate, hassign, hreveal, hcontent]

/-! ### Records -/

/-- The filling of the document without the sets on record. -/
def unscanned (f : Filling) : Filling :=
  { f with document := f.document.unscanned }

theorem execute_unscanned (e : Evaluator) :
    f.unscanned.execute e = ((f.execute e).1, (f.execute e).2.unscanned) :=
  rfl

theorem holds_unscanned (condition? : Option Evaluator) :
    f.unscanned.holds condition? = ((f.holds condition?).1, (f.holds condition?).2.unscanned) := by
  cases condition? <;> rfl

theorem edit_unscanned {change : Document → Document}
    (hchange : change f.document.unscanned = (change f.document).unscanned) :
    f.unscanned.edit change = (f.edit change).unscanned := by
  simp only [edit, unscanned, hchange]

theorem each_unscanned {put : Filling → String → Value → Filling}
    (hput : ∀ f label v, put (unscanned f) label v = (put f label v).unscanned) (es : Labelled)
    (f : Filling) : each put es f.unscanned = (each put es f).unscanned := by
  induction es generalizing f with
  | nil => rfl
  | cons p rest ih =>
    obtain ⟨label, e⟩ := p
    simp only [each, execute_unscanned, hput, ih]

theorem putValue_unscanned (label : String) (v : Value) :
    putValue h f.unscanned label v = (putValue h f label v).unscanned := by
  unfold putValue
  split
  · rfl
  · rfl
  · exact f.edit_unscanned (Document.assignProperty_unscanned _ _ _ _)
  · exact f.edit_unscanned (Document.setAttributeValue_unscanned _ _ _ _)

theorem putData_unscanned (label : String) (v : Value) :
    putData h f.unscanned label v = (putData h f label v).unscanned :=
  f.edit_unscanned (Document.setData_unscanned _ _ _ _)

theorem runCallbacks_unscanned (callbacks : List Callback) (f : Filling) :
    runCallbacks callbacks f.unscanned = (runCallbacks callbacks f).unscanned := by
  induction callbacks generalizing f with
  | nil => rfl
  | cons callback rest ih =>
    rw [runCallbacks, runCallbacks]
    exact ih { f with context := (callback f.context).context, notes := _ }

theorem runStatements_unscanned (es : List Evaluator) (f : Filling) :
    runStatements es f.unscanned = (runStatements es f).unscanned := by
  induction es generalizing f with
  | nil => rfl
  | cons e rest ih => rw [runStatements, execute_unscanned, ih, runStatements]

theorem identify_unscanned (idAttribute : String) :
    identify idAttribute set h f.unscanned = (identify idAttribute set h f).unscanned := by
  have hput : ∀ (f : Filling) (id : String),
      (f.unscanned.edit fun d => d.setAttribute h idAttribute id) =
        (f.edit fun d => d.setAttribute h idAttribute id).unscanned :=
    fun f id => f.edit_unscanned (Document.setAttribute_unscanned _ _ _ _)
  unfold identify
  cases set.id? with
  | some id => exact hput f id
  | none =>
    cases set.idExpr? with
    | none => rfl
    | some e =>
      dsimp only
      rw [execute_unscanned]
      dsimp only
      split
      · exact hput _ _
      · rfl

theorem setVisible_unscanned (f : Filling) (v : Bool) :
    (f.unscanned.edit fun d => d.setVisible h v) = (f.edit fun d => d.setVisible h v).unscanned :=
  f.edit_unscanned (Document.setVisible_unscanned _ _ _)

theorem gate_unscanned : gate set h f.unscanned = ((gate set h f).1, (gate set h f).2.unscanned) := by
  unfold gate
  cases set.gate? with
  | none => rfl
  | some e =>
    dsimp only
    rw [execute_unscanned]
    dsimp only
    rw [setVisible_unscanned]

theorem assign_unscanned : assign set h f.unscanned = (assign set h f).unscanned := by
  have hvariables : ∀ (f : Filling) label v,
      f.unscanned.setVariable label v = (f.setVariable label v).unscanned := fun _ _ _ => rfl
  have hcallbacks : ∀ f : Filling, (f.unscanned.document.node h).callbacks =
      (f.document.node h).callbacks := by
    intro f
    rw [unscanned, Document.node_unscanned, Node.unscanned]
  simp only [assign, each_unscanned hvariables,
    each_unscanned fun f label v => putValue_unscanned f h label v,
    each_unscanned fun f label v => putData_unscanned f h label v, hcallbacks,
    runCallbacks_unscanned, runStatements_unscanned]

theorem reveal_unscanned : reveal set h f.unscanned = (reveal set h f).unscanned := by
  simp only [reveal, holds_unscanned, setVisible_unscanned, ← apply_ite]

theorem settleContent_unscanned : settleContent set h f.unscanned =
    ((settleContent set h f).1, (settleContent set h f).2.unscanned) := by
  simp only [settleContent, holds_unscanned]
  split
  · rfl
  · cases set.content? with
    | none => rfl
    | some e =>
      dsimp only
      rw [execute_unscanned]
      dsimp only
      rw [edit_unscanned]
      exact Document.applyContent_unscanned _ _ _ _

/-- The sets on record make no difference. -/
theorem fill_unscanned : f.unscanned.fill set h = ((f.fill set h).1, (f.fill set h).2.unscanned) := by
  simp only [fill, gate_unscanned]
  generalize gate set h f = gated
  obtain ⟨opened, f'⟩ := gated
  cases opened with
  | false => rfl
  | true =>
    dsimp only
    rw [assign_unscanned, reveal_unscanned, settleContent_unscanned]

/-- Fillings that differ in nothing but records and serials come out so. -/
theorem fill_eq_of_unscanned_eq {f₁ f₂ : Filling} {set₁ set₂ : BindingSet}
    (hf : f₂.unscanned = f₁.unscanned) (hset : set₂.plain = set₁.plain) (idAttribute : String)
    (h : Handle) :
    ((identify idAttribute set₂ h f₂).fill set₂ h).1 =
        ((identify idAttribute set₁ h f₁).fill set₁ h).1 ∧
      ((identify idAttribute set₂ h f₂).fill set₂ h).2.unscanned =
        ((identify idAttribute set₁ h f₁).fill set₁ h).2.unscanned := by
  have hcommon : ∀ (f : Filling) (set : BindingSet),
      (((identify idAttribute set h f).fill set h).1,
          ((identify idAttribute set h f).fill set h).2.unscanned) =
        (identify idAttribute set.plain h f.unscanned).fill set.plain h := by
    intro f set
    rw [fill_plain, identify_plain, identify_unscanned, fill_unscanned]
  have heq := (hcommon f₂ set₂).trans (Eq.trans (by rw [hf, hset]) (hcommon f₁ set₁).symm)
  exact Prod.mk.inj heq

end Filling

/-! ### What stays on record -/

variable {P : Handle → Node → Prop} {Q : Node → Prop} {F : Registry} {d d' : Document} {h : Handle}
  {f : Filling} {σ : Scan.Setting} {b : BindingCache}

/-- Properties that nodes keep as long as what is on record and what is attached stay, and by which
callbacks leave a context its functions. -/
structure Enduring (F : Registry) (P : Handle → Node → Prop) (Q : Node → Prop) : Prop
    extends Lasting P Q where
  content : ∀ h n c, P h n → P h { n with content := c }
  steady : ∀ h n, P h n → Steady (· = F) n.callbacks
  vacant_steady : ∀ n, Q n → Steady (· = F) n.callbacks

namespace Filling

/-- The nodes are as described, and the context has its functions. -/
structure Kept (F : Registry) (P : Handle → Node → Prop) (Q : Node → Prop) (f : Filling) : Prop where
  nodes : f.document.All P Q
  functions : f.context.functions = F

namespace Kept

theorem execute (hf : f.Kept F P Q) (e : Evaluator) : (f.execute e).2.Kept F P Q :=
  ⟨hf.nodes, (f.context.functions_execute e).trans hf.functions⟩

theorem edit {change : Document → Document} (hf : f.Kept F P Q) (hd : (change f.document).All P Q) :
    (f.edit change).Kept F P Q :=
  ⟨hd, hf.functions⟩

theorem holds (hf : f.Kept F P Q) (condition? : Option Evaluator) :
    (f.holds condition?).2.Kept F P Q := by
  cases condition? with
  | none => exact hf
  | some e => exact hf.execute e

theorem each (put : Filling → String → Value → Filling)
    (hput : ∀ f label v, Kept F P Q f → (put f label v).Kept F P Q) (es : Labelled)
    (hf : f.Kept F P Q) : (each put es f).Kept F P Q := by
  induction es generalizing f with
  | nil => exact hf
  | cons p rest ih => exact ih (hput _ _ _ (hf.execute p.2))

theorem runCallbacks {callbacks : List Callback} (hsteady : Steady (· = F) callbacks)
    (hf : f.Kept F P Q) : (runCallbacks callbacks f).Kept F P Q := by
  induction callbacks generalizing f with
  | nil => exact hf
  | cons callback rest ih =>
    have hstep : (callback f.context).context.functions = F :=
      hsteady callback List.mem_cons_self _ hf.functions
    have hrest : Steady (· = F) rest := fun k hk => hsteady k (List.mem_cons_of_mem callback hk)
    exact ih hrest ⟨hf.nodes, hstep⟩

theorem runStatements (es : List Evaluator) (hf : f.Kept F P Q) :
    (runStatements es f).Kept F P Q := by
  induction es generalizing f with
  | nil => exact hf
  | cons e rest ih => exact ih (hf.execute e)

variable (hE : Enduring F P Q) (hf : f.Kept F P Q) (h : Handle)
include hE hf

theorem setAttribute (name value : String) :
    (f.edit fun d => d.setAttribute h name value).Kept F P Q :=
  hf.edit (.setAttribute hE.toLasting hf.nodes fun n _ _ hn _ =>
    hE.content h n _ (hf.nodes.live h n hn))

theorem setVisible (v : Bool) : (f.edit fun d => d.setVisible h v).Kept F P Q :=
  hf.edit (.setVisible hE.toLasting hf.nodes h v)

theorem putValue (label : String) (v : Value) : (putValue h f label v).Kept F P Q := by
  unfold Filling.putValue
  split
  · exact hf
  · exact ⟨hf.nodes, hf.functions⟩
  · exact hf.edit (.modifyProperties hE.toLasting hf.nodes h _)
  · unfold Document.setAttributeValue
    split
    · exact setAttribute hE hf h _ _
    · exact hf.edit (.removeAttribute hE.toLasting hf.nodes fun n _ _ hn _ =>
        hE.content h n _ (hf.nodes.live h n hn))
    · exact setAttribute hE hf h _ _

theorem identify (idAttribute : String) (set : BindingSet) :
    (identify idAttribute set h f).Kept F P Q := by
  unfold Filling.identify
  split
  · exact setAttribute hE hf h _ _
  · next e _ _ =>
    dsimp only
    split
    · exact setAttribute hE (hf.execute e) h _ _
    · exact hf.execute e
  · exact hf

theorem gate (set : BindingSet) : (gate set h f).2.Kept F P Q := by
  unfold Filling.gate
  split
  · exact hf
  · next e _ => exact setVisible hE (hf.execute e) h _

theorem callbacks_steady : Steady (· = F) (f.document.node h).callbacks := by
  unfold Document.node
  cases hn : f.document.get? h with
  | some n => exact hE.steady h n (hf.nodes.live h n hn)
  | none => exact hE.vacant_steady _ hf.nodes.vacant

theorem assign (set : BindingSet) : (assign set h f).Kept F P Q := by
  unfold Filling.assign
  have hvariables := hf.each setVariable (fun _ _ _ hf => ⟨hf.nodes, hf.functions⟩)
    (set.vars?.getD [])
  have hvalues := hvariables.each (Filling.putValue h)
    (fun _ label v hf => putValue hE hf h label v) (set.values?.getD [])
  have hdata := hvalues.each (putData h)
    (fun _ label v hf => hf.edit (.setData hE.toLasting hf.nodes h label v)) (set.data?.getD [])
  exact (hdata.runCallbacks (callbacks_steady hE hdata h)).runStatements _

theorem reveal (set : BindingSet) : (reveal set h f).Kept F P Q := by
  unfold Filling.reveal
  have hwhen : ∀ (f : Filling) (condition v : Bool), f.Kept F P Q →
      (if condition then f.edit fun d => d.setVisible h v else f).Kept F P Q := by
    intro f condition v hf
    cases condition with
    | true => exact setVisible hE hf h v
    | false => exact hf
  exact hwhen _ _ _ ((hwhen _ _ _ (hf.holds _)).holds _)

theorem settleContent (set : BindingSet) : (settleContent set h f).2.Kept F P Q := by
  have hskip := hf.holds set.skip?
  unfold Filling.settleContent
  dsimp only
  split
  · exact hskip
  · split
    · next e _ =>
      have hread := hskip.execute e
      exact ⟨.applyContent hE.toLasting hread.nodes h _ _, hread.functions⟩
    · exact hskip

theorem fill (set : BindingSet) : (f.fill set h).2.Kept F P Q := by
  have hgate := gate hE hf h set
  unfold Filling.fill
  generalize Filling.gate set h f = gated at hgate ⊢
  obtain ⟨opened, f'⟩ := gated
  cases opened with
  | false => exact hgate
  | true => exact settleContent hE (reveal hE (assign hE hgate h set) h set) h set

end Kept

end Filling

/-- Nothing is on record on the node and nothing attached, or what was there in `d`. -/
def Document.Holdover (d : Document) (h : Handle) (n : Node) : Prop :=
  n.Blank ∨ ∃ m, d.get? h = some m ∧ n.bindingRef? = m.bindingRef? ∧ n.callbacks = m.callbacks

/-- A node that is live in both documents has the same recognised attributes in both. -/
def Document.Undisturbed (namePrefix : String) (d d' : Document) : Prop :=
  ∀ h n n', d.get? h = some n → d'.get? h = some n' →
    ∀ b : Binding, n'.attribute? (namePrefix ++ b.suffix) = n.attribute? (namePrefix ++ b.suffix)

/-- It does not matter what is on record. -/
theorem Document.Undisturbed.congr {namePrefix : String} {d₁ d₁' d₂ d₂' : Document}
    (hsame : Undisturbed namePrefix d₁ d₁') (hd : ∀ x, d₂.unscanned.get? x = d₁.unscanned.get? x)
    (hd' : ∀ x, d₂'.unscanned.get? x = d₁'.unscanned.get? x) : Undisturbed namePrefix d₂ d₂' := by
  have hattribute : ∀ {d d' : Document} {h : Handle} {n : Node},
      d'.unscanned.get? h = d.unscanned.get? h → d'.get? h = some n →
        ∃ m, d.get? h = some m ∧ n.content = m.content := by
    intro d d' h n heq hn
    rw [get?_unscanned, get?_unscanned, hn, Option.map_some] at heq
    obtain ⟨m, hm, hcontent⟩ := Option.map_eq_some_iff.mp heq.symm
    exact ⟨m, hm, Node.content_of_unscanned hcontent.symm⟩
  intro h n n' hn hn' b
  obtain ⟨m, hm, hcontent⟩ := hattribute (hd h) hn
  obtain ⟨m', hm', hcontent'⟩ := hattribute (hd' h) hn'
  have hattributes := hsame h m m' hm hm' b
  simpa only [Node.attribute?, hcontent, hcontent'] using hattributes

theorem Binding.mem_all (b : Binding) : b ∈ all := by
  cases b <;> simp [all]

/-- Only the nodes in the slots matter. -/
theorem Document.undisturbed_iff {namePrefix : String} {d d' : Document} :
    d.Undisturbed namePrefix d' ↔ ∀ i, ∀ hi : i < d.slots.size, ∀ n ∈ d.slots[i].node?,
      ∀ n' ∈ d'.get? ⟨i, d.slots[i].generation⟩, ∀ b ∈ Binding.all,
        n'.attribute? (namePrefix ++ b.suffix) = n.attribute? (namePrefix ++ b.suffix) := by
  constructor
  · intro h i hi n hn n' hn' b _
    refine h ⟨i, d.slots[i].generation⟩ n n' ?_ hn' b
    simpa [get?, hi] using hn
  · intro h x n n' hn hn' b
    unfold get? at hn
    split at hn
    · next slot hslot =>
      obtain ⟨hlt, rfl⟩ := Array.getElem?_eq_some_iff.mp hslot
      split at hn
      · next hgeneration => exact h x.slot hlt n hn n' (by rwa [hgeneration]) b b.mem_all
      · simp at hn
    · simp at hn

instance (namePrefix : String) (d d' : Document) : Decidable (d.Undisturbed namePrefix d') :=
  decidable_of_iff _ Document.undisturbed_iff.symm

namespace Scan.Setting.Trusts

theorem holdover (hd : σ.Trusts b d) :
    d.All d.Holdover (Node.Vacated (σ.Known b) σ.functions) :=
  ⟨fun _ n hn => Or.inr ⟨n, hn, rfl, rfl⟩, hd.vacant⟩

theorem enduring (hd : σ.Trusts b d) :
    Enduring σ.functions d.Holdover (Node.Vacated (σ.Known b) σ.functions) := by
  constructor
  · constructor
    · rintro h n n' (hn | ⟨m, hm, href, hcallbacks⟩) hkin
      · exact Or.inl ⟨hkin.bindingRef?.trans hn.bindingRef?, hkin.callbacks.trans hn.callbacks⟩
      · exact Or.inr ⟨m, hm, hkin.bindingRef?.trans href, hkin.callbacks.trans hcallbacks⟩
    · exact fun h n hn _ => Or.inl hn
    · exact (lasting_trusted _ _).vacant
  · rintro h n c (hn | hn)
    · exact Or.inl ⟨hn.bindingRef?, hn.callbacks⟩
    · exact Or.inr hn
  · rintro h n (hn | ⟨m, hm, -, hcallbacks⟩)
    · have htrusted : n.Trusted (σ.Known b) σ.functions := hn.trusted
      exact htrusted.steady
    · rw [hcallbacks]
      exact (hd.live h m hm).steady
  · exact fun n hn => hn.trusted.steady

/-- What was on record is right if the recognised attributes are what they were. -/
theorem undisturbed (hd : σ.Trusts b d) (hname : ∀ b', σ.Known b b' → b'.namePrefix = σ.namePrefix)
    (hd' : d'.All d.Holdover (Node.Vacated (σ.Known b) σ.functions))
    (hsame : d.Undisturbed σ.namePrefix d') : σ.Trusts b d' := by
  refine ⟨fun h n' hn' => ?_, hd'.vacant⟩
  rcases hd'.live h n' hn' with hblank | ⟨n, hn, href, hcallbacks⟩
  · exact hblank.trusted
  · refine (hd.live h n hn).congr href hcallbacks fun b' hb' => ?_
    have hattributes := hsame h n n' hn hn'
    rw [hname b' hb']
    simp only [Node.rawBindings, hattributes]

end Scan.Setting.Trusts

end TreeTemplate
