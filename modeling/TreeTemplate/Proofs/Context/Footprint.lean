import Mathlib.Data.List.Basic
import TreeTemplate.Proofs.Context.Eval
import TreeTemplate.Proofs.Dict

/-!
What an evaluation reads and writes.  It looks up the names that the expression reads, and it sets variables
that the expression assigns: two evaluations in contexts that agree on the names that are read go alike and
set the same variables to the same values, one after the other (`Eval.Alike`, `Eval.eval_alike`), so that
everything else in the two contexts is left as it was (`Eval.eval_footprint`).
-/

namespace TreeTemplate

mutual

/-- The names that an expression looks up. -/
def Expr.reads : Expr → List String
  | .literal _ => []
  | .identifier name => [name]
  | .member base _ => base.reads
  | .index base i => base.reads ++ i.reads
  | .call _ args => Expr.readsAll args
  | .method receiver _ args => receiver.reads ++ Expr.readsAll args
  | .unary _ operand => operand.reads
  | .binary _ left right => left.reads ++ right.reads
  | .lazy _ left right => left.reads ++ right.reads
  | .conditional condition yes no => condition.reads ++ (yes.reads ++ no.reads)
  | .array items => Expr.readsAll items
  | .object entries => Expr.readsEntries entries
  | .assign _ value => value.reads

/-- The names that several expressions look up. -/
def Expr.readsAll : List Expr → List String
  | [] => []
  | e :: es => e.reads ++ Expr.readsAll es

/-- The names that the entries of an object look up. -/
def Expr.readsEntries : List (String × Expr) → List String
  | [] => []
  | (_, e) :: es => e.reads ++ Expr.readsEntries es

end

mutual

def Expr.targets : Expr → List String
  | .literal _ => []
  | .identifier _ => []
  | .member base _ => base.targets
  | .index base i => base.targets ++ i.targets
  | .call _ args => Expr.targetsAll args
  | .method receiver _ args => receiver.targets ++ Expr.targetsAll args
  | .unary _ operand => operand.targets
  | .binary _ left right => left.targets ++ right.targets
  | .lazy _ left right => left.targets ++ right.targets
  | .conditional condition yes no => condition.targets ++ (yes.targets ++ no.targets)
  | .array items => Expr.targetsAll items
  | .object entries => Expr.targetsEntries entries
  | .assign name value => name :: value.targets

/-- The variables that several expressions assign. -/
def Expr.targetsAll : List Expr → List String
  | [] => []
  | e :: es => e.targets ++ Expr.targetsAll es

/-- The variables that the entries of an object assign. -/
def Expr.targetsEntries : List (String × Expr) → List String
  | [] => []
  | (_, e) :: es => e.targets ++ Expr.targetsEntries es

end

namespace Context

variable {c k : Context} {name : String} {ws us : List (String × Value)}

/-- What a name stands for: a variable, or else a property of the data. -/
def named? (c : Context) (name : String) : Option Value :=
  match c.lookup? name with
  | some v => some v
  | none =>
    match c.data with
    | .object entries => Dict.get? entries name
    | _ => none

/-- The context after setting variables one after the other. -/
def after (c : Context) (ws : List (String × Value)) : Context :=
  ws.foldl (fun c w => c.setVariable w.1 w.2) c

theorem after_append (c : Context) (ws us : List (String × Value)) :
    c.after (ws ++ us) = (c.after ws).after us :=
  List.foldl_append

theorem data_after (c : Context) (ws : List (String × Value)) : (c.after ws).data = c.data := by
  induction ws generalizing c with
  | nil => rfl
  | cons w ws ih => exact ih (c.setVariable w.1 w.2)

theorem functions_after (c : Context) (ws : List (String × Value)) :
    (c.after ws).functions = c.functions := by
  induction ws generalizing c with
  | nil => rfl
  | cons w ws ih => exact ih (c.setVariable w.1 w.2)

theorem lookup?_setVariable (c : Context) (name : String) (v : Value) (x : String) :
    (c.setVariable name v).lookup? x = if x = name then some v else c.lookup? x :=
  Dict.get?_put c.vars name x v

/-- A variable that is not written stays as it is. -/
theorem lookup?_after_of_not_mem (h : name ∉ ws.map Prod.fst) :
    (c.after ws).lookup? name = c.lookup? name := by
  induction ws generalizing c with
  | nil => rfl
  | cons w ws ih =>
    rw [List.map_cons, List.mem_cons, not_or] at h
    change ((c.setVariable w.1 w.2).after ws).lookup? name = _
    rw [ih h.2, lookup?_setVariable, if_neg h.1]

/-- The last write to a variable is what counts, whatever the context. -/
theorem exists_lookup?_after (h : name ∈ ws.map Prod.fst) :
    ∃ v, ∀ c : Context, (c.after ws).lookup? name = some v := by
  induction ws with
  | nil => cases h
  | cons w ws ih =>
    by_cases hws : name ∈ ws.map Prod.fst
    · obtain ⟨v, hv⟩ := ih hws
      exact ⟨v, fun c => hv (c.setVariable w.1 w.2)⟩
    · have hname : name = w.1 := by
        rw [List.map_cons, List.mem_cons] at h
        exact h.resolve_right hws
      refine ⟨w.2, fun c => ?_⟩
      change ((c.setVariable w.1 w.2).after ws).lookup? name = _
      rw [lookup?_after_of_not_mem hws, lookup?_setVariable, if_pos hname]

theorem named?_setVariable (c : Context) (name : String) (v : Value) (x : String) :
    (c.setVariable name v).named? x = if x = name then some v else c.named? x := by
  rw [named?, named?, lookup?_setVariable]
  by_cases h : x = name
  · rw [if_pos h, if_pos h]
  · rw [if_neg h, if_neg h]
    rfl

/-- The two contexts know the same functions, and the names, none of them that of the snapshot, stand for the
same. -/
structure Agree (names : List String) (c k : Context) : Prop where
  functions : c.functions = k.functions
  names : ∀ x ∈ names, x ≠ contextName ∧ c.named? x = k.named? x

theorem Agree.setVariable {names : List String} (h : Agree names c k) (name : String) (v : Value) :
    Agree names (c.setVariable name v) (k.setVariable name v) := by
  refine ⟨h.functions, fun x hx => ⟨(h.names x hx).1, ?_⟩⟩
  rw [named?_setVariable, named?_setVariable, (h.names x hx).2]

theorem Agree.after {names : List String} (h : Agree names c k) (ws : List (String × Value)) :
    Agree names (c.after ws) (k.after ws) := by
  induction ws generalizing c k with
  | nil => exact h
  | cons w ws ih => exact ih (h.setVariable w.1 w.2)

end Context

namespace Eval

open Context

variable {α β : Type} {c k : Context} {names targets : List String}

/-- A name that is not that of the snapshot is a variable, a property of the data, or nothing. -/
theorem resolve_eq {name : String} (h : name ≠ contextName) (c : Context) :
    resolve c name = match c.named? name with
      | some v => .ok v
      | none => .error (.unresolved name) := by
  rw [resolve, named?]
  cases c.lookup? name with
  | some v => rfl
  | none =>
    dsimp only
    rw [if_neg h]
    cases c.data <;> rfl

/-! ### Evaluation step by step -/

/-- Go on with the value of an evaluation, if there is one, in the context that it leaves. -/
def andThen (r : Except EvalError α × Context) (next : α → Context → Except EvalError β × Context) :
    Except EvalError β × Context :=
  match r with
  | (.ok v, c) => next v c
  | (.error e, c) => (.error e, c)

theorem eval_member (c : Context) (base : Expr) (property : String) :
    eval c (.member base property) = andThen (eval c base) fun v c => (member v property, c) := by
  rw [eval]
  rcases eval c base with ⟨_ | _, _⟩ <;> rfl

theorem eval_index (c : Context) (base i : Expr) :
    eval c (.index base i) = andThen (eval c base) fun v c =>
      andThen (eval c i) fun i c => (indexed v i, c) := by
  rw [eval]
  rcases eval c base with ⟨_ | v, c⟩
  · rfl
  · dsimp only [andThen]
    rcases eval c i with ⟨_ | _, _⟩ <;> rfl

theorem eval_call (c : Context) (name : String) (args : List Expr) :
    eval c (.call name args) = andThen (evalAll c args) fun vs c => (call c name vs, c) := by
  rw [eval]
  rcases evalAll c args with ⟨_ | _, _⟩ <;> rfl

theorem eval_method (c : Context) (receiver : Expr) (name : String) (args : List Expr) :
    eval c (.method receiver name args) = andThen (eval c receiver) fun v c =>
      andThen (evalAll c args) fun vs c => (call c name (v :: vs), c) := by
  rw [eval]
  rcases eval c receiver with ⟨_ | v, c⟩
  · rfl
  · dsimp only [andThen]
    rcases evalAll c args with ⟨_ | _, _⟩ <;> rfl

theorem eval_unary (c : Context) (op : UnaryOp) (operand : Expr) :
    eval c (.unary op operand) = andThen (eval c operand) fun v c => (.ok (unary op v), c) := by
  rw [eval]
  rcases eval c operand with ⟨_ | _, _⟩ <;> rfl

theorem eval_binary (c : Context) (op : BinaryOp) (left right : Expr) :
    eval c (.binary op left right) = andThen (eval c left) fun a c =>
      andThen (eval c right) fun b c => (.ok (binary op a b), c) := by
  rw [eval]
  rcases eval c left with ⟨_ | v, c⟩
  · rfl
  · dsimp only [andThen]
    rcases eval c right with ⟨_ | _, _⟩ <;> rfl

theorem eval_lazy (c : Context) (op : LazyOp) (left right : Expr) :
    eval c (.lazy op left right) = andThen (eval c left) fun a c =>
      if settles op a then (.ok a, c) else eval c right := by
  rw [eval]
  rcases eval c left with ⟨_ | _, _⟩ <;> rfl

theorem eval_conditional (c : Context) (condition yes no : Expr) :
    eval c (.conditional condition yes no) = andThen (eval c condition) fun v c =>
      if v.isTruthy then eval c yes else eval c no := by
  rw [eval]
  rcases eval c condition with ⟨_ | _, _⟩ <;> rfl

theorem eval_array (c : Context) (items : List Expr) :
    eval c (.array items) = andThen (evalAll c items) fun vs c => (.ok (.array vs), c) := by
  rw [eval]
  rcases evalAll c items with ⟨_ | _, _⟩ <;> rfl

theorem eval_object (c : Context) (entries : List (String × Expr)) :
    eval c (.object entries) = andThen (evalEntries c [] entries) fun es c => (.ok (.object es), c) := by
  rw [eval]
  rcases evalEntries c [] entries with ⟨_ | _, _⟩ <;> rfl

theorem eval_assign (c : Context) (name : String) (value : Expr) :
    eval c (.assign name value) = andThen (eval c value) fun v c => (.ok v, c.setVariable name v) := by
  rw [eval]
  rcases eval c value with ⟨_ | _, _⟩ <;> rfl

theorem evalAll_cons (c : Context) (e : Expr) (es : List Expr) :
    evalAll c (e :: es) = andThen (eval c e) fun v c =>
      andThen (evalAll c es) fun vs c => (.ok (v :: vs), c) := by
  rw [evalAll]
  rcases eval c e with ⟨_ | v, c⟩
  · rfl
  · dsimp only [andThen]
    rcases evalAll c es with ⟨_ | _, _⟩ <;> rfl

theorem evalEntries_cons (c : Context) (seen : Dict Value) (key : String) (e : Expr)
    (es : List (String × Expr)) :
    evalEntries c seen ((key, e) :: es) =
      andThen (eval c e) fun v c => evalEntries c (Dict.put seen key v) es := by
  rw [evalEntries]
  rcases eval c e with ⟨_ | _, _⟩ <;> rfl

/-! ### Two evaluations side by side -/

/-- The two evaluations, in the contexts `c` and `k`, give the same and make the same writes, to targets
only. -/
def Alike (targets : List String) (c k : Context) (r s : Except EvalError α × Context) : Prop :=
  r.1 = s.1 ∧ ∃ ws : List (String × Value),
    (∀ w ∈ ws, w.1 ∈ targets) ∧ r.2 = c.after ws ∧ s.2 = k.after ws

theorem Alike.same (targets : List String) (c k : Context) (r : Except EvalError α) :
    Alike targets c k (r, c) (r, k) :=
  ⟨rfl, [], by simp, rfl, rfl⟩

theorem call_after (h : Agree names c k) (name : String) (args : List Value) (ws : List (String × Value)) :
    call (c.after ws) name args = call (k.after ws) name args := by
  rw [call, call, (h.after ws).functions]

theorem Alike.andThen {r s : Except EvalError α × Context}
    {next next' : α → Context → Except EvalError β × Context} (h : Alike targets c k r s)
    (hnext : ∀ v ws, Alike targets (c.after ws) (k.after ws) (next v (c.after ws)) (next' v (k.after ws))) :
    Alike targets c k (andThen r next) (andThen s next') := by
  obtain ⟨r, c'⟩ := r
  obtain ⟨s, k'⟩ := s
  obtain ⟨hresult, ws, hws, hc, hk⟩ := h
  dsimp only at hresult hc hk
  subst hresult hc hk
  cases r with
  | error e => exact ⟨rfl, ws, hws, rfl, rfl⟩
  | ok v =>
    obtain ⟨hresult', us, hus, hc', hk'⟩ := hnext v ws
    refine ⟨hresult', ws ++ us, List.forall_mem_append.mpr ⟨hws, hus⟩, ?_, ?_⟩
    · rw [after_append]
      exact hc'
    · rw [after_append]
      exact hk'

mutual

/-- Evaluations go alike in contexts that agree on the names that the expression reads. -/
theorem eval_alike {c k : Context} (e : Expr) (hreads : e.reads ⊆ names) (htargets : e.targets ⊆ targets)
    (h : Agree names c k) : Alike targets c k (eval c e) (eval k e) := by
  match e with
  | .literal l => exact .same targets c k _
  | .identifier name =>
    obtain ⟨hname, hsame⟩ := h.names name (hreads (List.mem_singleton_self name))
    have hresolve : resolve c name = resolve k name := by rw [resolve_eq hname, resolve_eq hname, hsame]
    rw [eval, eval, hresolve]
    exact .same targets c k _
  | .member base property =>
    rw [eval_member, eval_member]
    exact (eval_alike base hreads htargets h).andThen fun v ws => .same ..
  | .index base i =>
    obtain ⟨hbase, hi⟩ := List.append_subset.mp hreads
    obtain ⟨hbase', hi'⟩ := List.append_subset.mp htargets
    rw [eval_index, eval_index]
    refine (eval_alike base hbase hbase' h).andThen fun v ws => ?_
    exact (eval_alike i hi hi' (h.after ws)).andThen fun v ws => .same ..
  | .call name args =>
    rw [eval_call, eval_call]
    refine (evalAll_alike args hreads htargets h).andThen fun vs ws => ?_
    rw [call_after h]
    exact .same ..
  | .method receiver name args =>
    obtain ⟨hreceiver, hargs⟩ := List.append_subset.mp hreads
    obtain ⟨hreceiver', hargs'⟩ := List.append_subset.mp htargets
    rw [eval_method, eval_method]
    refine (eval_alike receiver hreceiver hreceiver' h).andThen fun v ws => ?_
    refine (evalAll_alike args hargs hargs' (h.after ws)).andThen fun vs us => ?_
    rw [call_after (h.after ws)]
    exact .same ..
  | .unary op operand =>
    rw [eval_unary, eval_unary]
    exact (eval_alike operand hreads htargets h).andThen fun v ws => .same ..
  | .binary op left right =>
    obtain ⟨hleft, hright⟩ := List.append_subset.mp hreads
    obtain ⟨hleft', hright'⟩ := List.append_subset.mp htargets
    rw [eval_binary, eval_binary]
    refine (eval_alike left hleft hleft' h).andThen fun a ws => ?_
    exact (eval_alike right hright hright' (h.after ws)).andThen fun b us => .same ..
  | .lazy op left right =>
    obtain ⟨hleft, hright⟩ := List.append_subset.mp hreads
    obtain ⟨hleft', hright'⟩ := List.append_subset.mp htargets
    rw [eval_lazy, eval_lazy]
    refine (eval_alike left hleft hleft' h).andThen fun a ws => ?_
    split
    · exact .same ..
    · exact eval_alike right hright hright' (h.after ws)
  | .conditional condition yes no =>
    obtain ⟨hcondition, hbranches⟩ := List.append_subset.mp hreads
    obtain ⟨hcondition', hbranches'⟩ := List.append_subset.mp htargets
    obtain ⟨hyes, hno⟩ := List.append_subset.mp hbranches
    obtain ⟨hyes', hno'⟩ := List.append_subset.mp hbranches'
    rw [eval_conditional, eval_conditional]
    refine (eval_alike condition hcondition hcondition' h).andThen fun v ws => ?_
    split
    · exact eval_alike yes hyes hyes' (h.after ws)
    · exact eval_alike no hno hno' (h.after ws)
  | .array items =>
    rw [eval_array, eval_array]
    exact (evalAll_alike items hreads htargets h).andThen fun vs ws => .same ..
  | .object entries =>
    rw [eval_object, eval_object]
    exact (evalEntries_alike [] entries hreads htargets h).andThen fun es ws => .same ..
  | .assign name value =>
    obtain ⟨hname, hvalue⟩ := List.cons_subset.mp htargets
    rw [eval_assign, eval_assign]
    refine (eval_alike value hreads hvalue h).andThen fun v ws => ?_
    exact ⟨rfl, [(name, v)], List.forall_mem_singleton.mpr hname, rfl, rfl⟩

theorem evalAll_alike {c k : Context} (es : List Expr) (hreads : Expr.readsAll es ⊆ names)
    (htargets : Expr.targetsAll es ⊆ targets) (h : Agree names c k) :
    Alike targets c k (evalAll c es) (evalAll k es) := by
  match es with
  | [] => exact .same targets c k _
  | e :: es =>
    obtain ⟨he, hes⟩ := List.append_subset.mp hreads
    obtain ⟨he', hes'⟩ := List.append_subset.mp htargets
    rw [evalAll_cons, evalAll_cons]
    refine (eval_alike e he he' h).andThen fun v ws => ?_
    exact (evalAll_alike es hes hes' (h.after ws)).andThen fun vs us => .same ..

theorem evalEntries_alike {c k : Context} (seen : Dict Value) (es : List (String × Expr))
    (hreads : Expr.readsEntries es ⊆ names) (htargets : Expr.targetsEntries es ⊆ targets)
    (h : Agree names c k) : Alike targets c k (evalEntries c seen es) (evalEntries k seen es) := by
  match es with
  | [] => exact .same targets c k _
  | (key, e) :: es =>
    obtain ⟨he, hes⟩ := List.append_subset.mp hreads
    obtain ⟨he', hes'⟩ := List.append_subset.mp htargets
    rw [evalEntries_cons, evalEntries_cons]
    refine (eval_alike e he he' h).andThen fun v ws => ?_
    exact evalEntries_alike (Dict.put seen key v) es hes hes' (h.after ws)

end

/-- An evaluation reads and writes only what the expression names.  In contexts with the same functions that
agree on the names that are read, it gives the same value or the same error; the data, the functions and all
variables that are no targets of assignments stay as they are, and each target is left as it is in both
contexts or set to one value in both. -/
theorem eval_footprint {e : Expr} (hsnapshot : contextName ∉ e.reads) (hfunctions : c.functions = k.functions)
    (hnames : ∀ x ∈ e.reads, c.named? x = k.named? x) :
    (eval c e).1 = (eval k e).1 ∧
      ((eval c e).2.data = c.data ∧ (eval c e).2.functions = c.functions ∧
        ∀ x ∉ e.targets, (eval c e).2.lookup? x = c.lookup? x) ∧
      ((eval k e).2.data = k.data ∧ (eval k e).2.functions = k.functions ∧
        ∀ x ∉ e.targets, (eval k e).2.lookup? x = k.lookup? x) ∧
      ∀ x ∈ e.targets,
        ((eval c e).2.lookup? x = c.lookup? x ∧ (eval k e).2.lookup? x = k.lookup? x) ∨
          ∃ v, (eval c e).2.lookup? x = some v ∧ (eval k e).2.lookup? x = some v := by
  have hagree : Agree e.reads c k := by
    refine ⟨hfunctions, fun x hx => ⟨?_, hnames x hx⟩⟩
    rintro rfl
    exact hsnapshot hx
  obtain ⟨hresult, ws, hws, hc, hk⟩ :=
    eval_alike e (List.Subset.refl e.reads) (List.Subset.refl e.targets) hagree
  have hkept : ∀ x ∉ e.targets, x ∉ ws.map Prod.fst := by
    intro x hx hmem
    obtain ⟨w, hw, rfl⟩ := List.mem_map.mp hmem
    exact hx (hws w hw)
  rw [hc, hk]
  refine ⟨hresult, ⟨data_after c ws, functions_after c ws, ?_⟩,
    ⟨data_after k ws, functions_after k ws, ?_⟩, ?_⟩
  · exact fun x hx => lookup?_after_of_not_mem (hkept x hx)
  · exact fun x hx => lookup?_after_of_not_mem (hkept x hx)
  · intro x _
    by_cases hx : x ∈ ws.map Prod.fst
    · obtain ⟨v, hv⟩ := exists_lookup?_after hx
      exact .inr ⟨v, hv c, hv k⟩
    · exact .inl ⟨lookup?_after_of_not_mem hx, lookup?_after_of_not_mem hx⟩

/-- An assignment before a failure is made in both contexts, whether its value comes from a variable or from
the data. -/
theorem eval_footprint_failed :
    let e : Expr := .array [.assign "t" (.identifier "x"), .member (.identifier "x") "p"]
    let c : Context := ⟨[("x", .null)], .string "", .empty⟩
    let k : Context := ⟨[("u", .bool true)], .object [("x", .null)], .empty⟩
    (contextName ∉ e.reads ∧ c.functions = k.functions ∧ ∀ x ∈ e.reads, c.named? x = k.named? x) ∧
      (eval c e).1 = .error (.propertyOfNull "p") ∧ (eval k e).1 = .error (.propertyOfNull "p") ∧
      (eval k e).2.lookup? "u" = some (.bool true) ∧
      ∃ v, (eval c e).2.lookup? "t" = some v ∧ (eval k e).2.lookup? "t" = some v := by
  intro e c k
  have hsnapshot : contextName ∉ e.reads := by decide
  have hnames : ∀ x ∈ e.reads, c.named? x = k.named? x := by
    intro x hx
    obtain rfl : x = "x" := by simpa [e, Expr.reads, Expr.readsAll] using hx
    rfl
  obtain ⟨hresult, -, ⟨-, -, hkept⟩, htargets⟩ := eval_footprint (c := c) (k := k) hsnapshot rfl hnames
  have hfailed : (eval c e).1 = .error (.propertyOfNull "p") := rfl
  have hset : (eval c e).2.lookup? "t" ≠ c.lookup? "t" := by
    have hsome : (eval c e).2.lookup? "t" = some .null := rfl
    rw [hsome]
    rintro ⟨⟩
  refine ⟨⟨hsnapshot, rfl, hnames⟩, hfailed, hresult ▸ hfailed, hkept "u" (by decide), ?_⟩
  exact (htargets "t" (by decide)).resolve_left fun hleft => hset hleft.1

end Eval

end TreeTemplate
