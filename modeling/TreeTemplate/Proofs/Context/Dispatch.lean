import TreeTemplate.Context.Callback
import TreeTemplate.Proofs.Context.Eval

/-!
The function calls that an evaluation makes.  `Context.dispatches` lists them with what they give: each
gives what the function gives that the registry of the context has under its name
(`Context.dispatches_answered`), and nothing else in the evaluation looks at the registry
(`Context.execute_rewired`).
-/

namespace TreeTemplate

/-- What a call by name gives if the name stands for the function, or for none. -/
def HostFunction.answer (f? : Option HostFunction) (name : String) (args : List Value) :
    Except EvalError Value :=
  match f? with
  | none => .error (.unknownFunction name)
  | some f =>
    if f.takes args.length then (f.run args).mapError .function
    else .error (.function (.invalidArity name f.min f.max args.length))

def Registry.function? (r : Registry) (name : String) : Option HostFunction :=
  Dict.get? r.functions name

/-- The callback leaves every context its functions. -/
def Loyal (k : Callback) : Prop :=
  ∀ c : Context, (k c).context.functions = c.functions

/-- A context that knows other functions. -/
def Context.rewired (c : Context) (F : Registry) : Context :=
  { c with functions := F }

namespace Eval

/-- A function call: the name, the values of the arguments, and what the call gives. -/
structure Dispatch where
  name : String
  args : List Value
  answer : Except EvalError Value

/-- The call gives what the function gives that `find?` finds under its name. -/
def Dispatch.AnsweredBy (find? : String → Option HostFunction) (k : Dispatch) : Prop :=
  k.answer = HostFunction.answer (find? k.name) k.name k.args

theorem call_eq (c : Context) (name : String) (args : List Value) :
    call c name args = HostFunction.answer (c.functions.function? name) name args := by
  unfold call Registry.call? HostFunction.answer Registry.function?
  cases Dict.get? c.functions.functions name with
  | none => rfl
  | some f =>
    by_cases htakes : f.takes args.length
    · simp only [htakes, if_true]
      cases f.run args <;> rfl
    · simp only [htakes]
      rfl

variable {α : Type} {c : Context} {F : Registry}

/-- What is done with the value of an evaluation, if there is one. -/
def following (r : Except EvalError α × Context) (next : α → Context → List Dispatch) :
    List Dispatch :=
  match r with
  | (.ok v, c) => next v c
  | (.error _, _) => []

mutual

/-- The calls that the evaluation of an expression makes, in order. -/
def dispatches (c : Context) : Expr → List Dispatch
  | .literal _ => []
  | .identifier _ => []
  | .member base _ => dispatches c base
  | .index base i => dispatches c base ++ following (eval c base) fun _ c => dispatches c i
  | .call name args =>
    dispatchesAll c args ++ following (evalAll c args) fun vs c => [⟨name, vs, call c name vs⟩]
  | .method receiver name args =>
    dispatches c receiver ++ following (eval c receiver) fun v c =>
      dispatchesAll c args ++ following (evalAll c args) fun vs c =>
        [⟨name, v :: vs, call c name (v :: vs)⟩]
  | .unary _ operand => dispatches c operand
  | .binary _ left right =>
    dispatches c left ++ following (eval c left) fun _ c => dispatches c right
  | .lazy op left right =>
    dispatches c left ++ following (eval c left) fun a c =>
      if settles op a then [] else dispatches c right
  | .conditional condition yes no =>
    dispatches c condition ++ following (eval c condition) fun v c =>
      if v.isTruthy then dispatches c yes else dispatches c no
  | .array items => dispatchesAll c items
  | .object entries => dispatchesEntries c entries
  | .assign _ value => dispatches c value

/-- The calls that the evaluation of expressions makes, from left to right. -/
def dispatchesAll (c : Context) : List Expr → List Dispatch
  | [] => []
  | e :: rest => dispatches c e ++ following (eval c e) fun _ c => dispatchesAll c rest

/-- The calls that the evaluation of the entries of an object makes. -/
def dispatchesEntries (c : Context) : List (String × Expr) → List Dispatch
  | [] => []
  | (_, e) :: rest => dispatches c e ++ following (eval c e) fun _ c => dispatchesEntries c rest

end

/-! ### Every call is answered by the registry -/

theorem functions_of_eval {c' : Context} {e : Expr} {r : Except EvalError Value}
    (h : eval c e = (r, c')) : c'.functions = c.functions := by
  have hkept := eval_keeps (P := fun k => k.functions = c.functions) e (Or.inr fun _ _ _ h => h) rfl
  rwa [h] at hkept

theorem functions_of_evalAll {c' : Context} {es : List Expr} {r : Except EvalError (List Value)}
    (h : evalAll c es = (r, c')) : c'.functions = c.functions := by
  have hkept :=
    evalAll_keeps (P := fun k => k.functions = c.functions) es (Or.inr fun _ _ _ h => h) rfl
  rwa [h] at hkept

theorem forall_mem_following {P : Dispatch → Prop} {r : Except EvalError α × Context}
    {next : α → Context → List Dispatch}
    (h : ∀ v c', r = (.ok v, c') → ∀ k ∈ next v c', P k) : ∀ k ∈ following r next, P k := by
  obtain ⟨_ | v, c'⟩ := r
  · simp [following]
  · exact h v c' rfl

theorem answeredBy_call (hc : c.functions = F) (name : String) (args : List Value) :
    ∀ k ∈ [(⟨name, args, call c name args⟩ : Dispatch)], k.AnsweredBy F.function? :=
  List.forall_mem_singleton.mpr (hc ▸ call_eq c name args)

mutual

/-- Each call gives what the function gives that the registry has under its name. -/
theorem dispatches_answered {c : Context} (e : Expr) (hc : c.functions = F) :
    ∀ k ∈ dispatches c e, k.AnsweredBy F.function? := by
  match e with
  | .literal l => simp [dispatches]
  | .identifier name => simp [dispatches]
  | .member base property =>
    rw [dispatches]
    exact dispatches_answered base hc
  | .index base i =>
    rw [dispatches]
    refine List.forall_mem_append.mpr ⟨dispatches_answered base hc, forall_mem_following ?_⟩
    intro v c' hbase
    exact dispatches_answered i ((functions_of_eval hbase).trans hc)
  | .call name args =>
    rw [dispatches]
    refine List.forall_mem_append.mpr ⟨dispatchesAll_answered args hc, forall_mem_following ?_⟩
    intro vs c' hargs
    exact answeredBy_call ((functions_of_evalAll hargs).trans hc) name vs
  | .method receiver name args =>
    rw [dispatches]
    refine List.forall_mem_append.mpr ⟨dispatches_answered receiver hc, forall_mem_following ?_⟩
    intro v c' hreceiver
    have hc' := (functions_of_eval hreceiver).trans hc
    refine List.forall_mem_append.mpr ⟨dispatchesAll_answered args hc', forall_mem_following ?_⟩
    intro vs c'' hargs
    exact answeredBy_call ((functions_of_evalAll hargs).trans hc') name (v :: vs)
  | .unary op operand =>
    rw [dispatches]
    exact dispatches_answered operand hc
  | .binary op left right =>
    rw [dispatches]
    refine List.forall_mem_append.mpr ⟨dispatches_answered left hc, forall_mem_following ?_⟩
    intro v c' hleft
    exact dispatches_answered right ((functions_of_eval hleft).trans hc)
  | .lazy op left right =>
    rw [dispatches]
    refine List.forall_mem_append.mpr ⟨dispatches_answered left hc, forall_mem_following ?_⟩
    intro v c' hleft
    split
    · simp
    · exact dispatches_answered right ((functions_of_eval hleft).trans hc)
  | .conditional condition yes no =>
    rw [dispatches]
    refine List.forall_mem_append.mpr ⟨dispatches_answered condition hc, forall_mem_following ?_⟩
    intro v c' hcondition
    have hc' := (functions_of_eval hcondition).trans hc
    split
    · exact dispatches_answered yes hc'
    · exact dispatches_answered no hc'
  | .array items =>
    rw [dispatches]
    exact dispatchesAll_answered items hc
  | .object entries =>
    rw [dispatches]
    exact dispatchesEntries_answered entries hc
  | .assign name value =>
    rw [dispatches]
    exact dispatches_answered value hc

theorem dispatchesAll_answered {c : Context} (es : List Expr) (hc : c.functions = F) :
    ∀ k ∈ dispatchesAll c es, k.AnsweredBy F.function? := by
  match es with
  | [] => simp [dispatchesAll]
  | e :: rest =>
    rw [dispatchesAll]
    refine List.forall_mem_append.mpr ⟨dispatches_answered e hc, forall_mem_following ?_⟩
    intro v c' he
    exact dispatchesAll_answered rest ((functions_of_eval he).trans hc)

theorem dispatchesEntries_answered {c : Context} (es : List (String × Expr))
    (hc : c.functions = F) : ∀ k ∈ dispatchesEntries c es, k.AnsweredBy F.function? := by
  match es with
  | [] => simp [dispatchesEntries]
  | (key, e) :: rest =>
    rw [dispatchesEntries]
    refine List.forall_mem_append.mpr ⟨dispatches_answered e hc, forall_mem_following ?_⟩
    intro v c' he
    exact dispatchesEntries_answered rest ((functions_of_eval he).trans hc)

end

/-! ### Nothing else looks at the registry -/

/-- The outcome of an evaluation, in a context that knows other functions. -/
def rewire (F : Registry) (r : Except EvalError α × Context) : Except EvalError α × Context :=
  (r.1, r.2.rewired F)

theorem call_rewired {name : String} {args : List Value}
    (h : Dispatch.AnsweredBy F.function? ⟨name, args, call c name args⟩) :
    call (c.rewired F) name args = call c name args :=
  (call_eq _ name args).trans h.symm

mutual

/-- An evaluation comes to the same with any registry that answers its calls alike. -/
theorem eval_rewired {c : Context} (e : Expr)
    (h : ∀ k ∈ dispatches c e, k.AnsweredBy F.function?) :
    eval (c.rewired F) e = rewire F (eval c e) := by
  match e with
  | .literal l => rfl
  | .identifier name => rfl
  | .member base property =>
    rw [dispatches] at h
    rw [eval, eval, eval_rewired base h]
    generalize eval c base = r
    obtain ⟨_ | v, c'⟩ := r <;> rfl
  | .index base i =>
    rw [dispatches] at h
    rw [eval, eval, eval_rewired base fun k hk => h k (List.mem_append_left _ hk)]
    generalize eval c base = r at h
    obtain ⟨_ | v, c'⟩ := r
    · rfl
    · dsimp only [rewire]
      rw [eval_rewired i fun k hk => h k (List.mem_append_right _ hk)]
      generalize eval c' i = r'
      obtain ⟨_ | w, c''⟩ := r' <;> rfl
  | .call name args =>
    rw [dispatches] at h
    rw [eval, eval, evalAll_rewired args fun k hk => h k (List.mem_append_left _ hk)]
    generalize evalAll c args = r at h
    obtain ⟨_ | vs, c'⟩ := r
    · rfl
    · dsimp only [rewire]
      rw [call_rewired (h _ (List.mem_append_right _ (List.mem_singleton_self _)))]
  | .method receiver name args =>
    rw [dispatches] at h
    rw [eval, eval, eval_rewired receiver fun k hk => h k (List.mem_append_left _ hk)]
    generalize eval c receiver = r at h
    obtain ⟨_ | v, c'⟩ := r
    · rfl
    · have hargs : ∀ k ∈ dispatchesAll c' args ++ following (evalAll c' args) fun vs c =>
          [⟨name, v :: vs, call c name (v :: vs)⟩], k.AnsweredBy F.function? :=
        fun k hk => h k (List.mem_append_right _ hk)
      dsimp only [rewire]
      rw [evalAll_rewired args fun k hk => hargs k (List.mem_append_left _ hk)]
      generalize evalAll c' args = r' at hargs
      obtain ⟨_ | vs, c''⟩ := r'
      · rfl
      · dsimp only [rewire]
        rw [call_rewired (hargs _ (List.mem_append_right _ (List.mem_singleton_self _)))]
  | .unary op operand =>
    rw [dispatches] at h
    rw [eval, eval, eval_rewired operand h]
    generalize eval c operand = r
    obtain ⟨_ | v, c'⟩ := r <;> rfl
  | .binary op left right =>
    rw [dispatches] at h
    rw [eval, eval, eval_rewired left fun k hk => h k (List.mem_append_left _ hk)]
    generalize eval c left = r at h
    obtain ⟨_ | a, c'⟩ := r
    · rfl
    · dsimp only [rewire]
      rw [eval_rewired right fun k hk => h k (List.mem_append_right _ hk)]
      generalize eval c' right = r'
      obtain ⟨_ | b, c''⟩ := r' <;> rfl
  | .lazy op left right =>
    rw [dispatches] at h
    rw [eval, eval, eval_rewired left fun k hk => h k (List.mem_append_left _ hk)]
    generalize eval c left = r at h
    obtain ⟨_ | a, c'⟩ := r
    · rfl
    · have hright : ∀ k ∈ if settles op a then [] else dispatches c' right,
          k.AnsweredBy F.function? := fun k hk => h k (List.mem_append_right _ hk)
      dsimp only [rewire]
      split
      · rfl
      · next hsettles =>
        rw [if_neg hsettles] at hright
        exact eval_rewired right hright
  | .conditional condition yes no =>
    rw [dispatches] at h
    rw [eval, eval, eval_rewired condition fun k hk => h k (List.mem_append_left _ hk)]
    generalize eval c condition = r at h
    obtain ⟨_ | v, c'⟩ := r
    · rfl
    · have hbranch : ∀ k ∈ if v.isTruthy then dispatches c' yes else dispatches c' no,
          k.AnsweredBy F.function? := fun k hk => h k (List.mem_append_right _ hk)
      dsimp only [rewire]
      split
      · next htruthy =>
        rw [if_pos htruthy] at hbranch
        exact eval_rewired yes hbranch
      · next htruthy =>
        rw [if_neg htruthy] at hbranch
        exact eval_rewired no hbranch
  | .array items =>
    rw [dispatches] at h
    rw [eval, eval, evalAll_rewired items h]
    generalize evalAll c items = r
    obtain ⟨_ | vs, c'⟩ := r <;> rfl
  | .object entries =>
    rw [dispatches] at h
    rw [eval, eval, evalEntries_rewired [] entries h]
    generalize evalEntries c [] entries = r
    obtain ⟨_ | vs, c'⟩ := r <;> rfl
  | .assign name value =>
    rw [dispatches] at h
    rw [eval, eval, eval_rewired value h]
    generalize eval c value = r
    obtain ⟨_ | v, c'⟩ := r <;> rfl

theorem evalAll_rewired {c : Context} (es : List Expr)
    (h : ∀ k ∈ dispatchesAll c es, k.AnsweredBy F.function?) :
    evalAll (c.rewired F) es = rewire F (evalAll c es) := by
  match es with
  | [] => rfl
  | e :: rest =>
    rw [dispatchesAll] at h
    rw [evalAll, evalAll, eval_rewired e fun k hk => h k (List.mem_append_left _ hk)]
    generalize eval c e = r at h
    obtain ⟨_ | v, c'⟩ := r
    · rfl
    · dsimp only [rewire]
      rw [evalAll_rewired rest fun k hk => h k (List.mem_append_right _ hk)]
      generalize evalAll c' rest = r'
      obtain ⟨_ | vs, c''⟩ := r' <;> rfl

theorem evalEntries_rewired {c : Context} (seen : Dict Value) (es : List (String × Expr))
    (h : ∀ k ∈ dispatchesEntries c es, k.AnsweredBy F.function?) :
    evalEntries (c.rewired F) seen es = rewire F (evalEntries c seen es) := by
  match es with
  | [] => rfl
  | (key, e) :: rest =>
    rw [dispatchesEntries] at h
    rw [evalEntries, evalEntries, eval_rewired e fun k hk => h k (List.mem_append_left _ hk)]
    generalize eval c e = r at h
    obtain ⟨_ | v, c'⟩ := r
    · rfl
    · dsimp only [rewire]
      exact evalEntries_rewired _ rest fun k hk => h k (List.mem_append_right _ hk)

end

end Eval

namespace Context

/-- The calls that running an evaluator makes. -/
def dispatches (c : Context) (e : Evaluator) : List Eval.Dispatch :=
  match e.expr? with
  | some expr => Eval.dispatches c expr
  | none => []

theorem dispatches_answered {c : Context} {F : Registry} (hc : c.functions = F) (e : Evaluator) :
    ∀ k ∈ c.dispatches e, k.AnsweredBy F.function? := by
  unfold dispatches
  split
  · exact Eval.dispatches_answered _ hc
  · simp

/-- The registry of a context shows in the value of an evaluator only through the calls. -/
theorem execute_rewired {c : Context} {F : Registry} {e : Evaluator}
    (h : ∀ k ∈ c.dispatches e, k.AnsweredBy F.function?) :
    (c.rewired F).execute e = ((c.execute e).1, (c.execute e).2.rewired F) := by
  have htry : (c.rewired F).tryExecute e = Eval.rewire F (c.tryExecute e) := by
    unfold tryExecute
    unfold dispatches at h
    cases hexpr : e.expr? with
    | none => rfl
    | some expr =>
      rw [hexpr] at h
      exact Eval.eval_rewired expr h
  unfold execute
  rw [htry]
  obtain ⟨_ | v, c'⟩ := c.tryExecute e <;> rfl

/-! ### What becomes of a context during a render -/

/-- The context comes from `c` as expressions are evaluated in it, variables are set, and callbacks run
that leave it its functions. -/
inductive Becomes (c : Context) : Context → Prop
  | refl : Becomes c c
  | execute {c' : Context} (h : Becomes c c') (e : Evaluator) : Becomes c (c'.execute e).2
  | setVariable {c' : Context} (h : Becomes c c') (name : String) (v : Value) :
      Becomes c (c'.setVariable name v)
  | callback {c' : Context} {k : Callback} (h : Becomes c c') (hk : Loyal k) :
      Becomes c (k c').context

theorem Becomes.functions_eq {c c' : Context} (h : c.Becomes c') : c'.functions = c.functions := by
  induction h with
  | refl => rfl
  | execute _ e ih => exact (functions_execute _ e).trans ih
  | setVariable _ name v ih => exact ih
  | callback _ hk ih => exact (hk _).trans ih

end Context

end TreeTemplate
