import TreeTemplate.Proofs.Document.Events
import TreeTemplate.Proofs.Render.Confinement

/-!
What the steps of a render do to the slots.  Looking at nodes and filling them only writes, except for
the content that a node is given.  The other events are those of finding and copying templates, of
the instances that a list needs or does without, and of nodes that give way to a template.  Nothing
is assumed of the handles: a step whose node is not live any more goes by the same events.
-/

namespace TreeTemplate

open Document (Event Annals SameSlots)

variable {d d' : Document} {h node : Handle} {s : Stage} {plan : Plan} {context : ContextId}

/-! ### Templates -/

namespace Scan

theorem lookup_sameSlots (s : Scan) (h : Handle) :
    SameSlots s.document (s.lookup h).2.document := by
  unfold lookup
  split
  · exact .refl _
  · exact .setBindingRef _ h _

theorem prime_sameSlots (s : Scan) (h : Handle) : SameSlots s.document (s.prime h).document :=
  prime_keeps (P := fun s' => SameSlots s.document s'.document)
    (fun s' h hs => hs.trans (lookup_sameSlots s' h)) (.refl _) h

end Scan

namespace Templates

variable (t : Templates)

/-- The events of making sure of the container of loaded templates. -/
def containerEvents (d : Document) : List Event :=
  match t.named? d t.containerId with
  | some _ => []
  | none => [.allocated (d.createHiddenContainer t.idAttribute t.containerId).1]

theorem container_annals (d : Document) :
    Annals d (t.containerEvents d) (t.container d).2 := by
  unfold containerEvents container
  cases t.named? d t.containerId with
  | some h => exact .done d
  | none => exact Document.createHiddenContainer_annals d _ _

/-- The events of looking for a template again after the loader has answered. -/
def findLoadedEvents (d : Document) (markup? : Option String) : List Event :=
  match markup? with
  | none => []
  | some markup =>
    t.containerEvents d ++ (t.container d).2.appendMarkupEvents (t.container d).1 markup

theorem findLoaded_annals (d : Document) (reference : String) (markup? : Option String) :
    Annals d (t.findLoadedEvents d markup?) (t.findLoaded d reference markup?).2 := by
  unfold findLoadedEvents findLoaded
  cases markup? with
  | none => exact .done d
  | some markup =>
    dsimp only
    cases happend : (t.container d).2.appendMarkup (t.container d).1 markup with
    | ok d' => exact (t.container_annals d).append (Document.appendMarkup_annals happend)
    | error e =>
      rw [Document.appendMarkupEvents_of_error happend, List.append_nil]
      exact t.container_annals d

def findEvents (loader? : Option Loader) (d : Document) (reference : String) : List Event :=
  if reference.isEmpty then []
  else
    match t.named? d reference, loader? with
    | none, some load => t.findLoadedEvents d (load reference)
    | _, _ => []

theorem find_annals (loader? : Option Loader) (d : Document) (reference : String) :
    Annals d (t.findEvents loader? d reference) (t.find loader? d reference).document := by
  unfold findEvents find
  split
  · exact .done d
  · cases t.named? d reference with
    | some h => exact .done d
    | none =>
      cases loader? with
      | none => exact .done d
      | some load => exact t.findLoaded_annals d reference _

def cloneEvents (s : Scan) (template : Handle) : List Event :=
  (s.prime template).document.deepCloneEvents template

theorem clone_annals (s : Scan) (template : Handle) :
    Annals s.document (cloneEvents s template) (t.clone s template).2.document := by
  have hclone := Document.deepClone_annals (s.prime template).document template
  unfold Templates.clone cloneEvents
  dsimp only
  generalize (s.prime template).document.deepClone template = r at hclone ⊢
  exact .write (Scan.prime_sameSlots s template) (hclone.then_write (.removeAttribute r.2 r.1 _))

/-- The copy of a template is given out. -/
theorem fst_clone_mem (s : Scan) (template : Handle) :
    (t.clone s template).1 ∈ Document.allocations (cloneEvents s template) := by
  unfold Templates.clone cloneEvents
  exact Document.fst_deepClone_mem _ template

end Templates

/-! ### Filling -/

namespace Filling

variable {f : Filling} {set : BindingSet}

theorem holds_document (f : Filling) (condition? : Option Evaluator) :
    (f.holds condition?).2.document = f.document := by
  cases condition? <;> rfl

theorem runCallbacks_document (callbacks : List Callback) (f : Filling) :
    (runCallbacks callbacks f).document = f.document := by
  induction callbacks generalizing f with
  | nil => rfl
  | cons callback rest ih => exact ih _

theorem runStatements_document (es : List Evaluator) (f : Filling) :
    (runStatements es f).document = f.document := by
  induction es generalizing f with
  | nil => rfl
  | cons e rest ih => exact ih _

theorem each_sameSlots (put : Filling → String → Value → Filling)
    (hput : ∀ f label v, SameSlots f.document (put f label v).document) (es : Labelled)
    (f : Filling) : SameSlots f.document (each put es f).document := by
  induction es generalizing f with
  | nil => exact .refl _
  | cons entry rest ih => exact (hput (f.execute entry.2).2 entry.1 _).trans (ih _)

theorem putValue_sameSlots (h : Handle) (f : Filling) (label : String) (v : Value) :
    SameSlots f.document (putValue h f label v).document := by
  unfold putValue
  split
  · exact .refl _
  · exact .refl _
  · exact .assignProperty _ h _ v
  · exact .setAttributeValue _ h _ _

theorem identify_sameSlots (idAttribute : String) (set : BindingSet) (h : Handle) (f : Filling) :
    SameSlots f.document (identify idAttribute set h f).document := by
  unfold identify
  split
  · exact .setAttribute _ h _ _
  · dsimp only
    split
    · exact .setAttribute _ h _ _
    · exact .refl _
  · exact .refl _

theorem gate_sameSlots (set : BindingSet) (h : Handle) (f : Filling) :
    SameSlots f.document (gate set h f).2.document := by
  unfold gate
  split
  · exact .refl _
  · exact .setVisible _ h _

theorem assign_sameSlots (set : BindingSet) (h : Handle) (f : Filling) :
    SameSlots f.document (assign set h f).document := by
  unfold assign
  dsimp only
  rw [runStatements_document, runCallbacks_document]
  have hvars := each_sameSlots setVariable (fun f _ _ => .refl f.document) (set.vars?.getD []) f
  have hvalues := each_sameSlots (putValue h) (putValue_sameSlots h) (set.values?.getD [])
    (each setVariable (set.vars?.getD []) f)
  have hdata := each_sameSlots (putData h) (fun f name v => .setData f.document h name v)
    (set.data?.getD []) (each (putValue h) (set.values?.getD [])
      (each setVariable (set.vars?.getD []) f))
  exact (hvars.trans hvalues).trans hdata

theorem reveal_sameSlots (set : BindingSet) (h : Handle) (f : Filling) :
    SameSlots f.document (reveal set h f).document := by
  have hshow : ∀ (condition? : Option Evaluator) (f : Filling) (v : Bool),
      SameSlots f.document (if (f.holds condition?).1 then
        (f.holds condition?).2.edit fun d => d.setVisible h v
        else (f.holds condition?).2).document := by
    intro condition? f v
    have hsame : SameSlots f.document (f.holds condition?).2.document := by
      rw [holds_document]
      exact .refl _
    split
    · exact hsame.trans (.setVisible _ h v)
    · exact hsame
  exact (hshow set.show? f true).trans (hshow set.hide? _ false)

/-- The events of the content that a node is given. -/
def settleEvents (set : BindingSet) (h : Handle) (f : Filling) : List Event :=
  if (f.holds set.skip?).1 then []
  else
    match set.content? with
    | some e => f.document.applyContentEvents h ((f.holds set.skip?).2.execute e).1
        set.clearsContent
    | none => []

theorem settleContent_annals (set : BindingSet) (h : Handle) (f : Filling) :
    Annals f.document (settleEvents set h f) (settleContent set h f).2.document := by
  have hdocument := holds_document f set.skip?
  unfold settleEvents settleContent
  generalize f.holds set.skip? = r at hdocument ⊢
  obtain ⟨skipped, f₁⟩ := r
  dsimp only at hdocument ⊢
  split
  · rw [hdocument]
    exact .done _
  · cases set.content? with
    | none =>
      rw [hdocument]
      exact .done _
    | some e =>
      rw [← hdocument]
      exact Document.applyContent_annals _ h _ _

def fillEvents (set : BindingSet) (h : Handle) (f : Filling) : List Event :=
  if (gate set h f).1 then
    settleEvents set h (reveal set h (assign set h (gate set h f).2))
  else []

theorem fill_annals (set : BindingSet) (h : Handle) (f : Filling) :
    Annals f.document (fillEvents set h f) (f.fill set h).2.document := by
  have hgate := gate_sameSlots set h f
  unfold fillEvents fill
  generalize gate set h f = r at hgate ⊢
  obtain ⟨opens, f₁⟩ := r
  cases opens with
  | false => exact .of_sameSlots hgate
  | true =>
    have hassigned := hgate.trans (assign_sameSlots set h f₁)
    exact .write (hassigned.trans (reveal_sameSlots set h _)) (settleContent_annals set h _)

end Filling

/-! ### Steps -/

namespace Stage

/-- The events of copying the template that a reference names. -/
def resolveEvents (plan : Plan) (s : Stage) (reference : String) : List Event :=
  plan.templates.findEvents plan.loader? s.document reference ++
    match s.findTemplate plan reference with
    | (some template, s) => Templates.cloneEvents s.toScan template
    | (none, _) => []

theorem findTemplate_annals (plan : Plan) (s : Stage) (reference : String) :
    Annals s.document (plan.templates.findEvents plan.loader? s.document reference)
      (s.findTemplate plan reference).2.document :=
  plan.templates.find_annals plan.loader? s.document reference

theorem resolveTemplate_annals (plan : Plan) (s : Stage) (reference : String) :
    Annals s.document (s.resolveEvents plan reference)
      (s.resolveTemplate plan reference).2.document := by
  have hfind := findTemplate_annals plan s reference
  unfold resolveEvents resolveTemplate
  generalize s.findTemplate plan reference = r at hfind ⊢
  obtain ⟨template?, s₁⟩ := r
  cases template? with
  | none =>
    rw [List.append_nil]
    exact hfind
  | some template => exact hfind.append (plan.templates.clone_annals s₁.toScan template)

/-- The events of putting a copy of a template in the place of a node. -/
def transcludeEvents (plan : Plan) (s : Stage) (node : Handle) (reference : String) : List Event :=
  s.resolveEvents plan reference ++
    match s.resolveTemplate plan reference with
    | (some _, _) => []
    | (none, s) => s.document.removeEvents node

theorem transclude_annals (plan : Plan) (s : Stage) (context : ContextId) (node : Handle)
    (reference : String) : Annals s.document (s.transcludeEvents plan node reference)
      (s.transclude plan context node reference).1.document := by
  have hresolve := resolveTemplate_annals plan s reference
  unfold transcludeEvents transclude
  generalize s.resolveTemplate plan reference = r at hresolve ⊢
  obtain ⟨copy?, s₁⟩ := r
  cases copy? with
  | none => exact hresolve.append (Document.remove_annals s₁.document node)
  | some copy =>
    rw [List.append_nil]
    exact hresolve.then_write (.replace s₁.document copy node)

/-- The events of making a node stand for the value that it selects. -/
def selectEvents (s : Stage) (node : Handle) (v : Value) : List Event :=
  match v with
  | .array items =>
    (ListChange.of (s.document.node node).marker? items.length).events node items.length s.document
  | _ => []

theorem select_annals (s : Stage) (context : ContextId) (node : Handle) (v : Value) :
    Annals s.document (s.selectEvents node v) (s.select context node v).1.document := by
  cases v with
  | array items => exact ListChange.apply_annals _ node items.length s.document
  | null | bool _ | number _ | string _ | object _ =>
    exact .of_sameSlots (.setVisible s.document node _)

theorem stripped_sameSlots (plan : Plan) (node : Handle) (d : Document) :
    SameSlots d (plan.stripped node d) := by
  unfold Plan.stripped
  split
  · exact .refl _
  · exact .removeAttribute _ node _

def fillNodeEvents (plan : Plan) (s : Stage) (context : ContextId) (node : Handle) : List Event :=
  match (s.bindingsOf node).2.pool.get? context with
  | none => []
  | some c => Filling.fillEvents (s.bindingsOf node).1 node
      (Filling.identify plan.templates.idAttribute (s.bindingsOf node).1 node
        ⟨plan.stripped node (s.bindingsOf node).2.document, c, []⟩)

theorem fillNode_annals (plan : Plan) (s : Stage) (context : ContextId) (node : Handle) :
    Annals s.document (s.fillNodeEvents plan context node)
      (s.fillNode plan context node).1.document := by
  have hseen : SameSlots s.document (s.bindingsOf node).2.document :=
    Scan.lookup_sameSlots s.toScan node
  unfold fillNodeEvents fillNode
  generalize s.bindingsOf node = b at hseen ⊢
  obtain ⟨set, s₁⟩ := b
  dsimp only at hseen ⊢
  cases s₁.pool.get? context with
  | none => exact .of_sameSlots hseen
  | some c =>
    dsimp only
    rw [← Plan.stripped]
    have hidentified := Filling.identify_sameSlots plan.templates.idAttribute set node
      ⟨plan.stripped node s₁.document, c, []⟩
    have hfill := Filling.fill_annals set node
      (Filling.identify plan.templates.idAttribute set node ⟨plan.stripped node s₁.document, c, []⟩)
    have hstripped := hseen.trans (stripped_sameSlots plan node s₁.document)
    generalize Filling.identify plan.templates.idAttribute set node _ = f at hidentified hfill ⊢
    have hall := Annals.write (hstripped.trans hidentified) hfill
    split <;> exact hall

def placeNodeEvents (plan : Plan) (s : Stage) (context : ContextId) (node : Handle) : List Event :=
  match (s.bindingsOf node).1.include?, (s.bindingsOf node).1.select? with
  | some i, _ =>
    match (s.bindingsOf node).2.reference? context i with
    | some (reference, s) => s.transcludeEvents plan node reference
    | none => []
  | none, some e =>
    match (s.bindingsOf node).2.execute? context e with
    | some (v, s) => s.selectEvents node v
    | none => []
  | none, none => (s.bindingsOf node).2.fillNodeEvents plan context node

theorem placeNode_annals (plan : Plan) (s : Stage) (context : ContextId) (node : Handle) :
    Annals s.document (s.placeNodeEvents plan context node)
      (s.placeNode plan context node).1.document := by
  have hseen : SameSlots s.document (s.bindingsOf node).2.document :=
    Scan.lookup_sameSlots s.toScan node
  have hplaced := placeNode_placement plan s context node
  unfold placeNodeEvents
  generalize s.placeNode plan context node = r at hplaced ⊢
  cases hplaced with
  | unreferenced hinclude hdead =>
    simp only [hinclude, hdead]
    exact .of_sameSlots hseen
  | included hinclude hreference =>
    simp only [hinclude, hreference]
    rw [← reference?_document hreference] at hseen
    exact .write hseen (transclude_annals plan _ context node _)
  | unvalued hinclude hselect hdead =>
    simp only [hinclude, hselect, hdead]
    exact .of_sameSlots hseen
  | selected hinclude hselect hvalue =>
    simp only [hinclude, hselect, hvalue]
    rw [← execute?_document hvalue] at hseen
    exact .write hseen (select_annals _ context node _)
  | filled hinclude hselect =>
    simp only [hinclude, hselect]
    exact .write hseen (fillNode_annals plan _ context node)

def stepEvents (plan : Plan) (s : Stage) (st : Step) : List Event :=
  match st with
  | .place context node => s.placeNodeEvents plan context node
  | .fill context node => s.fillNodeEvents plan context node
  | .release _ => []

theorem step_annals (plan : Plan) (s : Stage) (st : Step) (depth : Nat) :
    Annals s.document (s.stepEvents plan st) (s.step plan st depth).1.document := by
  cases st with
  | place context node => exact placeNode_annals plan s context node
  | fill context node => exact fillNode_annals plan s context node
  | release context => exact .done _

def eventsOf (plan : Plan) (log : List (Stage × Step)) : List Event :=
  log.flatMap fun entry => entry.1.stepEvents plan entry.2

theorem eventsOf_concat (plan : Plan) (log : List (Stage × Step)) (s : Stage) (st : Step) :
    eventsOf plan (log ++ [(s, st)]) = eventsOf plan log ++ s.stepEvents plan st := by
  rw [eventsOf, List.flatMap_append, List.flatMap_singleton, ← eventsOf]

end Stage

end TreeTemplate
