import TreeTemplate.Proofs.Context.Eval
import TreeTemplate.Proofs.Dict
import TreeTemplate.Proofs.Document.Planting
import TreeTemplate.Render.Fill

/-!
What filling a node comes to.  The bindings of a node are evaluated in its context only, so what they
ask for is known without looking at the document: changes of the node's record, a verdict on what is
inside it, and the context afterwards (`Survey`).  Filling carries this out (`Filling.fill_eq`).
-/

namespace TreeTemplate

/-! ### Changes of one record -/

namespace Content

/-- The content with an attribute set; only elements have attributes. -/
def put (c : Content) (name value : String) : Content :=
  match c with
  | .element tag attributes => .element tag (Dict.put attributes name value)
  | c => c

def erase (c : Content) (name : String) : Content :=
  match c with
  | .element tag attributes => .element tag (Dict.erase attributes name)
  | c => c

/-- The content with an attribute set to a value: `true` gives it its own name, `false` removes it. -/
def putValue (c : Content) (name : String) (v : Value) : Content :=
  match v with
  | .bool true => c.put name name
  | .bool false => c.erase name
  | v => c.put name v.display

end Content

/-- A change of what is recorded on a node. -/
inductive Edit where
  | identity (name id : String)
  | value (name : String) (v : Value)
  | property (path : String) (v : Value)
  | data (name : String) (v : Value)
  | visible (v : Bool)

namespace Edit

def record (n : Node) : Edit → Node
  | identity name id => { n with content := n.content.put name id }
  | value name v => { n with content := n.content.putValue name v }
  | property path v => { n with properties := Value.assignPath n.properties path v }
  | data name v => { n with data := Dict.put n.data name v }
  | visible v => { n with visible := v }

def document (h : Handle) (d : Document) : Edit → Document
  | identity name id => d.setAttribute h name id
  | value name v => d.setAttributeValue h name v
  | property path v => d.assignProperty h path v
  | data name v => d.setData h name v
  | visible v => d.setVisible h v

theorem record_links (n : Node) (e : Edit) :
    (e.record n).parent? = n.parent? ∧ (e.record n).children = n.children ∧
      (e.record n).bindingRef? = n.bindingRef? ∧ (e.record n).marker? = n.marker? ∧
      (e.record n).callbacks = n.callbacks := by
  cases e <;> exact ⟨rfl, rfl, rfl, rfl, rfl⟩

end Edit

/-- A record after several changes. -/
def Node.edited (n : Node) (edits : List Edit) : Node :=
  edits.foldl Edit.record n

/-- Changes leave the links and what is not theirs alone. -/
theorem Node.edited_links (n : Node) (edits : List Edit) :
    (n.edited edits).parent? = n.parent? ∧ (n.edited edits).children = n.children ∧
      (n.edited edits).bindingRef? = n.bindingRef? ∧ (n.edited edits).marker? = n.marker? ∧
      (n.edited edits).callbacks = n.callbacks := by
  induction edits generalizing n with
  | nil => exact ⟨rfl, rfl, rfl, rfl, rfl⟩
  | cons e rest ih =>
    obtain ⟨hparent, hchildren, href, hmarker, hcallbacks⟩ := e.record_links n
    have hrest := ih (e.record n)
    rwa [hparent, hchildren, href, hmarker, hcallbacks] at hrest

theorem Content.put_isElement (n : Node) (name value : String) :
    { n with content := n.content.put name value }.isElement = n.isElement := by
  unfold Node.isElement Content.put
  cases n.content <;> rfl

theorem Content.putValue_isElement (n : Node) (name : String) (v : Value) :
    { n with content := n.content.putValue name v }.isElement = n.isElement := by
  cases v with
  | bool value =>
    cases value with
    | true => exact put_isElement n name name
    | false =>
      unfold Node.isElement putValue erase
      cases n.content <;> rfl
  | null | number _ | string _ | array _ | object _ => exact put_isElement n name _

/-- Changes leave an element an element. -/
theorem Node.isElement_edited (n : Node) (edits : List Edit) :
    (n.edited edits).isElement = n.isElement := by
  induction edits generalizing n with
  | nil => rfl
  | cons e rest ih =>
    have he : (e.record n).isElement = n.isElement := by
      cases e with
      | identity name id => exact Content.put_isElement n name id
      | value name v => exact Content.putValue_isElement n name v
      | property path v => rfl
      | data name v => rfl
      | visible v => rfl
    exact (ih _).trans he

/-- A document after several changes of one node. -/
def Document.edited (d : Document) (h : Handle) (edits : List Edit) : Document :=
  edits.foldl (Edit.document h) d

namespace Document

variable {d d₁ d₂ : Document} {h : Handle} {n n₁ n₂ : Node} {edits : List Edit}

/-- The document `d'` is `d` with another record under a live handle. -/
structure Rewritten (d d' : Document) (h : Handle) (n : Node) : Prop where
  get?_eq : ∀ x, d'.get? x = if x = h then some n else d.get? x
  vacant : d'.vacant = d.vacant
  tidy : d.Tidy → d'.Tidy

namespace Rewritten

theorem refl (hn : d.get? h = some n) : Rewritten d d h n := by
  refine ⟨fun x => ?_, rfl, id⟩
  split
  · next hx => rw [hx, hn]
  · rfl

theorem put (hn : d.get? h = some n) (n₁ : Node) : Rewritten d (d.put h n₁) h n₁ :=
  ⟨get?_put hn n₁, vacant_put hn n₁, fun ht => ht.put hn n₁⟩

theorem mutated (hr : Rewritten d d₁ h n) : Rewritten d d₁.mutated h n :=
  ⟨hr.get?_eq, hr.vacant, fun ht => (hr.tidy ht).mutated⟩

theorem get?_self (hr : Rewritten d d₁ h n) : d₁.get? h = some n := by
  rw [hr.get?_eq, if_pos rfl]

theorem trans (hr : Rewritten d d₁ h n₁) (hr' : Rewritten d₁ d₂ h n₂) : Rewritten d d₂ h n₂ := by
  refine ⟨fun x => ?_, hr'.vacant.trans hr.vacant, fun ht => hr'.tidy (hr.tidy ht)⟩
  rw [hr'.get?_eq, hr.get?_eq]
  split <;> rfl

end Rewritten

theorem setAttribute_rewritten (hn : d.get? h = some n) (name value : String) :
    Rewritten d (d.setAttribute h name value) h { n with content := n.content.put name value } := by
  unfold setAttribute Content.put
  simp only [writable_of_get? hn]
  cases hcontent : n.content with
  | element tag attributes =>
    simp only
    split
    · next hget =>
      rw [Dict.put_of_get? hget, ← hcontent]
      exact .refl hn
    · exact (Rewritten.put hn _).mutated
  | root | text s | comment s =>
    simp only
    rw [← hcontent]
    exact .put hn n

theorem removeAttribute_rewritten (hn : d.get? h = some n) (name : String) :
    Rewritten d (d.removeAttribute h name) h { n with content := n.content.erase name } := by
  unfold removeAttribute Content.erase
  simp only [writable_of_get? hn]
  cases hcontent : n.content with
  | element tag attributes =>
    simp only
    split
    · exact (Rewritten.put hn _).mutated
    · next hhas =>
      rw [Dict.erase_of_not_mem (by simpa [Dict.has_iff] using hhas), ← hcontent]
      exact .refl hn
  | root | text s | comment s =>
    simp only
    rw [← hcontent]
    exact .put hn n

theorem setAttributeValue_rewritten (hn : d.get? h = some n) (name : String) (v : Value) :
    Rewritten d (d.setAttributeValue h name v) h
      { n with content := n.content.putValue name v } := by
  cases v with
  | bool b =>
    cases b with
    | true => exact setAttribute_rewritten hn name name
    | false => exact removeAttribute_rewritten hn name
  | null | number _ | string _ | array _ | object _ => exact setAttribute_rewritten hn name _

theorem setVisible_rewritten (hn : d.get? h = some n) (v : Bool) :
    Rewritten d (d.setVisible h v) h { n with visible := v } := by
  unfold setVisible
  simp only [writable_of_get? hn]
  split
  · next hv =>
    subst hv
    exact .put hn n
  · exact (Rewritten.put hn _).mutated

theorem modify_rewritten (hn : d.get? h = some n) (f : Node → Node) :
    Rewritten d (d.modify h f) h (f n) :=
  ⟨get?_modify hn f, vacant_modify hn f, fun ht => ht.modify hn f⟩

theorem edit_rewritten (hn : d.get? h = some n) (e : Edit) :
    Rewritten d (e.document h d) h (e.record n) := by
  cases e with
  | identity name id => exact setAttribute_rewritten hn name id
  | value name v => exact setAttributeValue_rewritten hn name v
  | property path v =>
    exact modify_rewritten hn fun n =>
      { n with properties := Value.assignPath n.properties path v }
  | data name v => exact modify_rewritten hn fun n => { n with data := Dict.put n.data name v }
  | visible v => exact setVisible_rewritten hn v

theorem edited_rewritten (hn : d.get? h = some n) (edits : List Edit) :
    Rewritten d (d.edited h edits) h (n.edited edits) := by
  induction edits generalizing d n with
  | nil => exact .refl hn
  | cons e rest ih =>
    have he := edit_rewritten hn e
    exact he.trans (ih he.get?_self)

theorem edited_append (d : Document) (h : Handle) (edits more : List Edit) :
    d.edited h (edits ++ more) = (d.edited h edits).edited h more :=
  List.foldl_append

theorem callbacks_edited (hn : d.get? h = some n) (edits : List Edit) :
    ((d.edited h edits).node h).callbacks = n.callbacks := by
  rw [node_of_get? (edited_rewritten hn edits).get?_self, (n.edited_links edits).2.2.2.2]

end Document

/-! ### Evaluating bindings -/

/-- What becomes of what is inside a node. -/
inductive Verdict where
  /-- It stays. -/
  | leave
  /-- A value is made the content. -/
  | write (v : Value) (clear : Bool)
  /-- The children are visited. -/
  | descend

namespace Verdict

def descends : Verdict → Bool
  | descend => true
  | _ => false

/-- Whether the verdict can come from the bindings. -/
def Agrees (set : BindingSet) : Verdict → Prop
  | leave => True
  | write _ _ => set.content?.isSome = true
  | descend => set.content? = none

/-- The document with the content settled. -/
def settle (h : Handle) (d : Document) : Verdict → Document
  | write v clear => d.applyContent h v clear
  | _ => d

end Verdict

/-- What the bindings of a node ask for. -/
structure Survey where
  edits : List Edit
  verdict : Verdict
  context : Context

namespace Context

def holds (c : Context) (condition? : Option Evaluator) : Bool × Context :=
  match condition? with
  | some e => ((c.execute e).1.isTruthy, (c.execute e).2)
  | none => (false, c)

/-- The values of labelled expressions, each bound before the next is evaluated. -/
def readings (bind : Context → String → Value → Context) :
    Labelled → Context → List (String × Value) × Context
  | [], c => ([], c)
  | (label, e) :: rest, c =>
    let more := readings bind rest (bind (c.execute e).2 label (c.execute e).1)
    ((label, (c.execute e).1) :: more.1, more.2)

/-- Bind what a label of `values` stands for, if it is a variable. -/
def bindLabel (c : Context) (label : String) (v : Value) : Context :=
  match label.toList with
  | '$' :: _ => c.setVariable label v
  | _ => c

def afterCallbacks (c : Context) (callbacks : List Callback) : Context :=
  callbacks.foldl (fun c k => (k c).context) c

def afterStatements (c : Context) (statements : List Evaluator) : Context :=
  statements.foldl (fun c e => (c.execute e).2) c

end Context

namespace Survey

/-- The change that a label of `values` stands for. -/
def valueEdits (p : String × Value) : List Edit :=
  match p.1.toList with
  | [] => []
  | '$' :: _ => []
  | '.' :: path => [.property (String.ofList path) p.2]
  | _ => [.value p.1 p.2]

def identity (idAttribute : String) (set : BindingSet) (c : Context) : List Edit × Context :=
  match set.id?, set.idExpr? with
  | some id, _ => ([.identity idAttribute id], c)
  | none, some e =>
    (if (c.execute e).1.isTruthy then [.identity idAttribute (c.execute e).1.display] else [],
      (c.execute e).2)
  | none, none => ([], c)

def gate (set : BindingSet) (c : Context) : Bool × List Edit × Context :=
  match set.gate? with
  | none => (true, [], c)
  | some e =>
    ((c.execute e).1.isTruthy, [.visible (c.execute e).1.isTruthy], (c.execute e).2)

/-- What sets variables, attributes, properties and data, with callbacks and statements after it. -/
def assign (set : BindingSet) (callbacks : List Callback) (c : Context) : List Edit × Context :=
  let c := (Context.readings Context.setVariable (set.vars?.getD []) c).2
  let values := Context.readings Context.bindLabel (set.values?.getD []) c
  let data := Context.readings (fun c _ _ => c) (set.data?.getD []) values.2
  (values.1.flatMap valueEdits ++ data.1.map fun p => .data p.1 p.2,
    (data.2.afterCallbacks callbacks).afterStatements (set.eval?.getD []))

/-- Whether the node is to be shown and whether it is to be hidden. -/
def reveal (set : BindingSet) (c : Context) : List Edit × Context :=
  let shown := c.holds set.show?
  let hidden := shown.2.holds set.hide?
  ((if shown.1 then [.visible true] else []) ++ (if hidden.1 then [.visible false] else []),
    hidden.2)

/-- What is to become of what is inside the node. -/
def inside (set : BindingSet) (c : Context) : Verdict × Context :=
  let skipped := c.holds set.skip?
  if skipped.1 then (.leave, skipped.2)
  else
    match set.content? with
    | some e => (.write (skipped.2.execute e).1 set.clearsContent, (skipped.2.execute e).2)
    | none => (.descend, skipped.2)

end Survey

/-- What the bindings of a node ask for in a context. -/
def survey (idAttribute : String) (set : BindingSet) (callbacks : List Callback) (c : Context) :
    Survey :=
  let identity := Survey.identity idAttribute set c
  let gate := Survey.gate set identity.2
  if gate.1 then
    let assigned := Survey.assign set callbacks gate.2.2
    let revealed := Survey.reveal set assigned.2
    let inside := Survey.inside set revealed.2
    ⟨identity.1 ++ gate.2.1 ++ assigned.1 ++ revealed.1, inside.1, inside.2⟩
  else ⟨identity.1 ++ gate.2.1, .leave, gate.2.2⟩

section

variable {F : Registry → Prop} {set : BindingSet} {callbacks : List Callback} {c : Context}
  {idAttribute : String}

/-- New content comes from a content binding, and with one the children are not visited. -/
theorem survey_agrees (idAttribute : String) (set : BindingSet) (callbacks : List Callback)
    (c : Context) : (survey idAttribute set callbacks c).verdict.Agrees set := by
  have hinside : ∀ c, (Survey.inside set c).1.Agrees set := by
    intro c
    unfold Survey.inside
    dsimp only
    split
    · trivial
    · cases hcontent : set.content? with
      | none => exact hcontent
      | some e => exact Option.isSome_iff_exists.mpr ⟨e, hcontent⟩
  unfold survey
  dsimp only
  split
  · exact hinside _
  · trivial

/-- The callbacks leave the functions of a context as described. -/
def Steady (F : Registry → Prop) (callbacks : List Callback) : Prop :=
  ∀ k ∈ callbacks, ∀ c : Context, F c.functions → F (k c).context.functions

namespace Context

theorem functions_holds (c : Context) (condition? : Option Evaluator) :
    (c.holds condition?).2.functions = c.functions := by
  cases condition? with
  | none => rfl
  | some e => exact functions_execute c e

theorem functions_readings (bind : Context → String → Value → Context)
    (hbind : ∀ c label v, (bind c label v).functions = c.functions) (es : Labelled) (c : Context) :
    (c.readings bind es).2.functions = c.functions := by
  induction es generalizing c with
  | nil => rfl
  | cons entry rest ih =>
    obtain ⟨label, e⟩ := entry
    rw [readings]
    exact (ih _).trans ((hbind _ _ _).trans (functions_execute c e))

theorem functions_bindLabel (c : Context) (label : String) (v : Value) :
    (c.bindLabel label v).functions = c.functions := by
  unfold bindLabel
  split <;> rfl

theorem functions_afterStatements (statements : List Evaluator) (c : Context) :
    (c.afterStatements statements).functions = c.functions := by
  induction statements generalizing c with
  | nil => rfl
  | cons e rest ih => exact (ih _).trans (functions_execute c e)

theorem functions_afterCallbacks (hsteady : Steady F callbacks) (hc : F c.functions) :
    F (c.afterCallbacks callbacks).functions := by
  induction callbacks generalizing c with
  | nil => exact hc
  | cons k rest ih =>
    exact ih (fun k hk => hsteady k (List.mem_cons_of_mem _ hk))
      (hsteady k List.mem_cons_self c hc)

end Context

namespace Survey

theorem functions_identity (idAttribute : String) (set : BindingSet) (c : Context) :
    (identity idAttribute set c).2.functions = c.functions := by
  unfold identity
  split
  · rfl
  · exact Context.functions_execute c _
  · rfl

theorem functions_gate (set : BindingSet) (c : Context) :
    (gate set c).2.2.functions = c.functions := by
  unfold gate
  split
  · rfl
  · exact Context.functions_execute c _

theorem functions_assign (hsteady : Steady F callbacks) (hc : F c.functions) :
    F (assign set callbacks c).2.functions := by
  unfold assign
  dsimp only
  rw [Context.functions_afterStatements]
  refine Context.functions_afterCallbacks hsteady ?_
  rwa [Context.functions_readings _ fun _ _ _ => rfl,
    Context.functions_readings _ Context.functions_bindLabel,
    Context.functions_readings Context.setVariable fun _ _ _ => rfl]

theorem functions_reveal (set : BindingSet) (c : Context) :
    (reveal set c).2.functions = c.functions :=
  (Context.functions_holds _ _).trans (Context.functions_holds c _)

theorem functions_inside (set : BindingSet) (c : Context) :
    (inside set c).2.functions = c.functions := by
  unfold inside
  dsimp only
  split
  · exact Context.functions_holds c _
  · split
    · exact (Context.functions_execute _ _).trans (Context.functions_holds c _)
    · exact Context.functions_holds c _

end Survey

/-- Bindings cannot change the functions that a context knows; only callbacks can. -/
theorem survey_functions (hsteady : Steady F callbacks) (hc : F c.functions) :
    F (survey idAttribute set callbacks c).context.functions := by
  unfold survey
  dsimp only
  split
  · rw [Survey.functions_inside, Survey.functions_reveal]
    refine Survey.functions_assign hsteady ?_
    rwa [Survey.functions_gate, Survey.functions_identity]
  · rwa [Survey.functions_gate, Survey.functions_identity]

end

/-! ### Filling -/

namespace Filling

variable {f : Filling} {set : BindingSet} {h : Handle} {n : Node}

/-- The filling `f'` is `f` after changes of a node, in another context. -/
structure Moved (f f' : Filling) (h : Handle) (edits : List Edit) (c : Context) : Prop where
  document : f'.document = f.document.edited h edits
  context : f'.context = c

theorem Moved.trans {f₁ f₂ : Filling} {edits more : List Edit} {c c' : Context}
    (hf : Moved f f₁ h edits c) (hf' : Moved f₁ f₂ h more c') :
    Moved f f₂ h (edits ++ more) c' :=
  ⟨by rw [hf'.document, hf.document, Document.edited_append], hf'.context⟩

theorem holds_moved (f : Filling) (h : Handle) (condition? : Option Evaluator) :
    (f.holds condition?).1 = (f.context.holds condition?).1 ∧
      Moved f (f.holds condition?).2 h [] (f.context.holds condition?).2 := by
  cases condition? <;> exact ⟨rfl, rfl, rfl⟩

/-- Handing on labelled values changes what handing on each of them changes. -/
theorem each_moved (put : Filling → String → Value → Filling)
    (bind : Context → String → Value → Context) (edits : String × Value → List Edit)
    (hput : ∀ f label v, Moved f (put f label v) h (edits (label, v)) (bind f.context label v))
    (es : Labelled) (f : Filling) :
    Moved f (each put es f) h ((f.context.readings bind es).1.flatMap edits)
      (f.context.readings bind es).2 := by
  induction es generalizing f with
  | nil => exact ⟨rfl, rfl⟩
  | cons entry rest ih =>
    obtain ⟨label, e⟩ := entry
    have hfirst := hput (f.execute e).2 label (f.execute e).1
    have hrest := ih (put (f.execute e).2 label (f.execute e).1)
    rw [hfirst.context] at hrest
    have hboth := hfirst.trans hrest
    exact ⟨hboth.document, hboth.context⟩

theorem putValue_moved (f : Filling) (label : String) (v : Value) :
    Moved f (putValue h f label v) h (Survey.valueEdits (label, v))
      (f.context.bindLabel label v) := by
  unfold putValue Survey.valueEdits Context.bindLabel
  dsimp only
  generalize label.toList = cs
  rcases cs with _ | ⟨c, path⟩
  · exact ⟨rfl, rfl⟩
  by_cases hvariable : c = '$'
  · subst hvariable
    exact ⟨rfl, rfl⟩
  by_cases hproperty : c = '.'
  · subst hproperty
    exact ⟨rfl, rfl⟩
  · constructor <;> (repeat' split) <;> first | rfl | simp_all

theorem runCallbacks_moved (callbacks : List Callback) (f : Filling) :
    Moved f (runCallbacks callbacks f) h [] (f.context.afterCallbacks callbacks) := by
  induction callbacks generalizing f with
  | nil => exact ⟨rfl, rfl⟩
  | cons k rest ih =>
    have hrest := ih ⟨f.document, (k f.context).context, f.notes ++ (k f.context).notes⟩
    exact ⟨hrest.document, hrest.context⟩

theorem runStatements_moved (statements : List Evaluator) (f : Filling) :
    Moved f (runStatements statements f) h [] (f.context.afterStatements statements) := by
  induction statements generalizing f with
  | nil => exact ⟨rfl, rfl⟩
  | cons e rest ih =>
    have hrest := ih (f.execute e).2
    exact ⟨hrest.document, hrest.context⟩

theorem identify_moved (idAttribute : String) (set : BindingSet) (f : Filling) :
    Moved f (identify idAttribute set h f) h (Survey.identity idAttribute set f.context).1
      (Survey.identity idAttribute set f.context).2 := by
  unfold identify Survey.identity
  cases set.id? with
  | some id => exact ⟨rfl, rfl⟩
  | none =>
    cases set.idExpr? with
    | none => exact ⟨rfl, rfl⟩
    | some e =>
      cases htruthy : (f.context.execute e).1.isTruthy with
      | true => simpa [execute, htruthy] using ⟨rfl, rfl⟩
      | false => simpa [execute, htruthy] using ⟨rfl, rfl⟩

theorem gate_moved (set : BindingSet) (f : Filling) :
    (gate set h f).1 = (Survey.gate set f.context).1 ∧
      Moved f (gate set h f).2 h (Survey.gate set f.context).2.1
        (Survey.gate set f.context).2.2 := by
  unfold gate Survey.gate
  cases set.gate? <;> exact ⟨rfl, rfl, rfl⟩

theorem assign_moved (set : BindingSet) (f : Filling) (hn : f.document.get? h = some n) :
    Moved f (assign set h f) h (Survey.assign set n.callbacks f.context).1
      (Survey.assign set n.callbacks f.context).2 := by
  have hvars := each_moved (h := h) setVariable Context.setVariable (fun _ => [])
    (fun f label v => ⟨rfl, rfl⟩) (set.vars?.getD []) f
  rw [List.flatMap_eq_nil_iff.mpr fun _ _ => rfl] at hvars
  unfold assign Survey.assign
  dsimp only
  generalize each setVariable (set.vars?.getD []) f = f₁ at hvars
  have hvalues := each_moved (putValue h) Context.bindLabel Survey.valueEdits putValue_moved
    (set.values?.getD []) f₁
  rw [hvars.context] at hvalues
  generalize each (putValue h) (set.values?.getD []) f₁ = f₂ at hvalues
  have hdata := each_moved (h := h) (putData h) (fun c _ _ => c) (fun p => [.data p.1 p.2])
    (fun f label v => ⟨rfl, rfl⟩) (set.data?.getD []) f₂
  rw [hvalues.context, ← List.map_eq_flatMap] at hdata
  generalize each (putData h) (set.data?.getD []) f₂ = f₃ at hdata
  have hedits := (hvars.trans hvalues).trans hdata
  have hcallbacks : (f₃.document.node h).callbacks = n.callbacks := by
    rw [hedits.document, Document.callbacks_edited hn]
  rw [hcallbacks]
  have hcalled := runCallbacks_moved (h := h) n.callbacks f₃
  rw [hdata.context] at hcalled
  have hdone := runStatements_moved (h := h) (set.eval?.getD []) (runCallbacks n.callbacks f₃)
  rw [hcalled.context] at hdone
  have hall := (hedits.trans hcalled).trans hdone
  rwa [List.nil_append, List.append_nil, List.append_nil] at hall

theorem reveal_moved (set : BindingSet) (f : Filling) :
    Moved f (reveal set h f) h (Survey.reveal set f.context).1 (Survey.reveal set f.context).2 := by
  obtain ⟨hshown, hf₁⟩ := holds_moved f h set.show?
  unfold reveal Survey.reveal
  dsimp only
  rw [hshown]
  generalize (f.holds set.show?).2 = f₁ at hf₁
  generalize hf₂ : (if (f.context.holds set.show?).1 = true then
    f₁.edit fun d => d.setVisible h true else f₁) = f₂
  have hmoved : Moved f f₂ h (if (f.context.holds set.show?).1 then [.visible true] else [])
      (f.context.holds set.show?).2 := by
    subst hf₂
    split
    · exact ⟨by rw [edit, hf₁.document]; rfl, hf₁.context⟩
    · exact hf₁
  obtain ⟨hhidden, hf₃⟩ := holds_moved f₂ h set.hide?
  rw [hmoved.context] at hhidden hf₃
  rw [hhidden]
  generalize (f₂.holds set.hide?).2 = f₃ at hf₃
  refine hmoved.trans ?_
  split
  · exact ⟨by rw [edit, hf₃.document]; rfl, hf₃.context⟩
  · exact hf₃

theorem settleContent_eq (set : BindingSet) (f : Filling) :
    (settleContent set h f).1 = (Survey.inside set f.context).1.descends ∧
      (settleContent set h f).2.document =
        (Survey.inside set f.context).1.settle h f.document ∧
      (settleContent set h f).2.context = (Survey.inside set f.context).2 := by
  obtain ⟨hskipped, hf₁⟩ := holds_moved f h set.skip?
  have hdocument : (f.holds set.skip?).2.document = f.document := hf₁.document
  unfold settleContent Survey.inside
  dsimp only
  rw [hskipped]
  split
  · exact ⟨rfl, hdocument, hf₁.context⟩
  · cases set.content? with
    | none => exact ⟨rfl, hdocument, hf₁.context⟩
    | some e =>
      rw [← hf₁.context]
      exact ⟨rfl, by rw [← hdocument]; rfl, rfl⟩

/-- Filling a live node carries out what its bindings ask for. -/
theorem fill_eq (idAttribute : String) (set : BindingSet) (f : Filling)
    (hn : f.document.get? h = some n) :
    let v := survey idAttribute set n.callbacks f.context
    let r := (identify idAttribute set h f).fill set h
    r.1 = v.verdict.descends ∧ r.2.document = v.verdict.settle h (f.document.edited h v.edits) ∧
      r.2.context = v.context := by
  have hidentity := identify_moved (h := h) idAttribute set f
  obtain ⟨hopen, hgate⟩ := gate_moved (h := h) set (identify idAttribute set h f)
  rw [hidentity.context] at hopen hgate
  unfold survey fill
  dsimp only
  generalize gate set h (identify idAttribute set h f) = gated at hopen hgate ⊢
  obtain ⟨isOpen, f₁⟩ := gated
  have hgated := hidentity.trans hgate
  dsimp only at hopen hgated
  subst hopen
  cases (Survey.gate set (Survey.identity idAttribute set f.context).2).1 with
  | false => exact ⟨rfl, hgated.document, hgated.context⟩
  | true =>
    have hn₁ := (Document.edited_rewritten hn ((Survey.identity idAttribute set f.context).1 ++
      (Survey.gate set (Survey.identity idAttribute set f.context).2).2.1)).get?_self
    rw [← hgated.document] at hn₁
    have hassigned := assign_moved set f₁ hn₁
    rw [hgated.context, (n.edited_links _).2.2.2.2] at hassigned
    have hrevealed := reveal_moved (h := h) set (assign set h f₁)
    rw [hassigned.context] at hrevealed
    have hall := (hgated.trans hassigned).trans hrevealed
    have hinside := settleContent_eq (h := h) set (reveal set h (assign set h f₁))
    rw [hall.context, hall.document] at hinside
    exact hinside

end Filling

end TreeTemplate
