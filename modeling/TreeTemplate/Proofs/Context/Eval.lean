import TreeTemplate.Context.Run

/-!
What evaluation does to a context.  A property of contexts that no assignment breaks holds after an
evaluation if it held before (`Eval.eval_keeps`); without assignments any property does, so the
context stays as it is.
-/

namespace TreeTemplate

mutual

/-- Whether no assignment occurs in an expression. -/
def Expr.assignFree : Expr → Bool
  | .literal _ => true
  | .identifier _ => true
  | .member base _ => base.assignFree
  | .index base position => base.assignFree && position.assignFree
  | .call _ args => Expr.allAssignFree args
  | .method receiver _ args => receiver.assignFree && Expr.allAssignFree args
  | .unary _ operand => operand.assignFree
  | .binary _ left right => left.assignFree && right.assignFree
  | .lazy _ left right => left.assignFree && right.assignFree
  | .conditional condition yes no => condition.assignFree && yes.assignFree && no.assignFree
  | .array items => Expr.allAssignFree items
  | .object entries => Expr.entriesAssignFree entries
  | .assign _ _ => false

/-- Whether no assignment occurs in any of the expressions. -/
def Expr.allAssignFree : List Expr → Bool
  | [] => true
  | e :: rest => e.assignFree && Expr.allAssignFree rest

/-- Whether no assignment occurs in the values of the entries. -/
def Expr.entriesAssignFree : List (String × Expr) → Bool
  | [] => true
  | (_, e) :: rest => e.assignFree && Expr.entriesAssignFree rest

end

/-- Whether no assignment occurs in what an evaluator runs. -/
def Evaluator.assignFree (e : Evaluator) : Bool :=
  e.expr?.all Expr.assignFree

namespace Eval

/-- The property survives every assignment. -/
def Assignable (P : Context → Prop) : Prop :=
  ∀ c name v, P c → P (c.setVariable name v)

mutual

/-- A property of contexts survives an evaluation if it survives assignments, or there are none. -/
theorem eval_keeps {P : Context → Prop} {c : Context} (e : Expr)
    (h : e.assignFree = true ∨ Assignable P) (hc : P c) : P (eval c e).2 := by
  match e with
  | .literal l => exact hc
  | .identifier name => exact hc
  | .member base property =>
    have hbase := eval_keeps base (h.imp_left (by simp [Expr.assignFree])) hc
    rw [eval]
    split
    · next heq =>
      rw [heq] at hbase
      exact hbase
    · exact hbase
  | .index base index =>
    have hbase := eval_keeps base (h.imp_left (by simp +contextual [Expr.assignFree])) hc
    rw [eval]
    split
    · next v c' heq =>
      rw [heq] at hbase
      have hindex := eval_keeps index (h.imp_left (by simp [Expr.assignFree])) hbase
      split
      · next heq' =>
        rw [heq'] at hindex
        exact hindex
      · exact hindex
    · exact hbase
  | .call name args =>
    have hargs := evalAll_keeps args (h.imp_left (by simp [Expr.assignFree])) hc
    rw [eval]
    split
    · next heq =>
      rw [heq] at hargs
      exact hargs
    · next heq =>
      rw [heq] at hargs
      exact hargs
  | .method receiver name args =>
    have hreceiver := eval_keeps receiver (h.imp_left (by simp +contextual [Expr.assignFree])) hc
    rw [eval]
    split
    · next v c' heq =>
      rw [heq] at hreceiver
      have hargs := evalAll_keeps args (h.imp_left (by simp [Expr.assignFree])) hreceiver
      split
      · next heq' =>
        rw [heq'] at hargs
        exact hargs
      · next heq' =>
        rw [heq'] at hargs
        exact hargs
    · exact hreceiver
  | .unary op operand =>
    have hoperand := eval_keeps operand (h.imp_left (by simp [Expr.assignFree])) hc
    rw [eval]
    split
    · next heq =>
      rw [heq] at hoperand
      exact hoperand
    · exact hoperand
  | .binary op left right =>
    have hleft := eval_keeps left (h.imp_left (by simp +contextual [Expr.assignFree])) hc
    rw [eval]
    split
    · next a c' heq =>
      rw [heq] at hleft
      have hright := eval_keeps right (h.imp_left (by simp [Expr.assignFree])) hleft
      split
      · next heq' =>
        rw [heq'] at hright
        exact hright
      · exact hright
    · exact hleft
  | .lazy op left right =>
    have hleft := eval_keeps left (h.imp_left (by simp +contextual [Expr.assignFree])) hc
    rw [eval]
    split
    · next a c' heq =>
      rw [heq] at hleft
      split
      · exact hleft
      · exact eval_keeps right (h.imp_left (by simp [Expr.assignFree])) hleft
    · exact hleft
  | .conditional condition yes no =>
    have hcondition :=
      eval_keeps condition (h.imp_left (by simp +contextual [Expr.assignFree])) hc
    rw [eval]
    split
    · next v c' heq =>
      rw [heq] at hcondition
      split
      · exact eval_keeps yes (h.imp_left (by simp +contextual [Expr.assignFree])) hcondition
      · exact eval_keeps no (h.imp_left (by simp [Expr.assignFree])) hcondition
    · exact hcondition
  | .array items =>
    have hitems := evalAll_keeps items (h.imp_left (by simp [Expr.assignFree])) hc
    rw [eval]
    split
    · next heq =>
      rw [heq] at hitems
      exact hitems
    · next heq =>
      rw [heq] at hitems
      exact hitems
  | .object entries =>
    have hentries := evalEntries_keeps [] entries (h.imp_left (by simp [Expr.assignFree])) hc
    rw [eval]
    split
    · next heq =>
      rw [heq] at hentries
      exact hentries
    · next heq =>
      rw [heq] at hentries
      exact hentries
  | .assign name value =>
    have hset : Assignable P := h.resolve_left (by simp [Expr.assignFree])
    have hvalue := eval_keeps value (Or.inr hset) hc
    rw [eval]
    split
    · next v c' heq =>
      rw [heq] at hvalue
      exact hset c' name v hvalue
    · exact hvalue

theorem evalAll_keeps {P : Context → Prop} {c : Context} (es : List Expr)
    (h : Expr.allAssignFree es = true ∨ Assignable P) (hc : P c) : P (evalAll c es).2 := by
  match es with
  | [] => exact hc
  | e :: rest =>
    have he := eval_keeps e (h.imp_left (by simp +contextual [Expr.allAssignFree])) hc
    rw [evalAll]
    split
    · next v c' heq =>
      rw [heq] at he
      have hrest := evalAll_keeps rest (h.imp_left (by simp [Expr.allAssignFree])) he
      split
      · next heq' =>
        rw [heq'] at hrest
        exact hrest
      · exact hrest
    · next heq =>
      rw [heq] at he
      exact he

theorem evalEntries_keeps {P : Context → Prop} {c : Context} (seen : Dict Value)
    (es : List (String × Expr)) (h : Expr.entriesAssignFree es = true ∨ Assignable P) (hc : P c) :
    P (evalEntries c seen es).2 := by
  match es with
  | [] => exact hc
  | (key, e) :: rest =>
    have he := eval_keeps e (h.imp_left (by simp +contextual [Expr.entriesAssignFree])) hc
    rw [evalEntries]
    split
    · next v c' heq =>
      rw [heq] at he
      exact evalEntries_keeps _ rest (h.imp_left (by simp [Expr.entriesAssignFree])) he
    · next heq =>
      rw [heq] at he
      exact he

end

end Eval

namespace Context

variable {c : Context} {e : Evaluator}

theorem tryExecute_keeps {P : Context → Prop} (h : e.assignFree = true ∨ Eval.Assignable P)
    (hc : P c) : P (c.tryExecute e).2 := by
  unfold tryExecute
  cases hexpr : e.expr? with
  | none => exact hc
  | some expr =>
    exact Eval.eval_keeps expr (h.imp_left (by simp [Evaluator.assignFree, hexpr])) hc

theorem execute_keeps {P : Context → Prop} (h : e.assignFree = true ∨ Eval.Assignable P)
    (hc : P c) : P (c.execute e).2 := by
  have htry := tryExecute_keeps h hc
  unfold execute
  split
  · next heq =>
    rw [heq] at htry
    exact htry
  · next heq =>
    rw [heq] at htry
    exact htry

/-- What assigns nothing leaves the context as it is. -/
theorem execute_context (h : e.assignFree = true) : (c.execute e).2 = c :=
  execute_keeps (P := (· = c)) (Or.inl h) rfl

theorem functions_tryExecute (c : Context) (e : Evaluator) :
    (c.tryExecute e).2.functions = c.functions :=
  tryExecute_keeps (P := fun k => k.functions = c.functions) (Or.inr fun _ _ _ h => h) rfl

/-- The functions stay the same. -/
theorem functions_execute (c : Context) (e : Evaluator) : (c.execute e).2.functions = c.functions :=
  execute_keeps (P := fun k => k.functions = c.functions) (Or.inr fun _ _ _ h => h) rfl

end Context

end TreeTemplate
