import TreeTemplate.Context.Eval
import TreeTemplate.Proofs.Number.Whole

/-!
Indexing by numbers.  Equality does not ask whether a number is stored as a whole number, indexing does: a
floating-point number indexes nothing (`Eval.indexed_real`).  Literals and operators store a number with at
most 53 bits as a whole number (`Value.Settled`), and what is stored so indexes alike when it is equal
(`Eval.indexed_congr_of_settled`).  Data may hold `1.0`, which equals `1` and indexes nothing.
-/

namespace TreeTemplate

open Number (toInt?)

/-- A floating-point number stands for no whole number of at most 53 bits. -/
def Num.Settled : Num → Prop
  | whole _ => True
  | real x => ∀ k, toInt? x = some k → 2 ^ 53 ≤ k.natAbs

/-- The value is neither a list nor an object, and a settled number if it is a number. -/
def Value.Settled : Value → Prop
  | .number n => n.Settled
  | .array _ | .object _ => False
  | .null | .bool _ | .string _ => True

/-! ### Where settled values come from -/

theorem Num.settled_real_of_none {x : Float} (hx : toInt? x = none) : (Num.real x).Settled := by
  intro k hk
  rw [hx] at hk
  contradiction

theorem Num.settled_real_of_some {x : Float} {k : Int} (hx : toInt? x = some k) (hk : 2 ^ 53 ≤ k.natAbs) :
    (Num.real x).Settled := by
  intro k' hk'
  obtain rfl := Option.some.inj (hx.symm.trans hk')
  exact hk

theorem Num.eq_real_of_ofFloat? {x : Float} {n : Num} (h : Num.ofFloat? x = some n) : n = real x := by
  unfold Num.ofFloat? at h
  split at h
  · exact (Option.some.inj h).symm
  · contradiction

theorem Literal.settled_ofFloat (x : Float) : (Literal.ofFloat x).value.Settled := by
  unfold Literal.ofFloat
  split
  · next k hk =>
    split
    · trivial
    · next hlarge =>
      have hbits : 2 ^ 53 ≤ Nat.pow 2 63 := Nat.pow_le_pow_right (by decide) (by decide)
      exact Num.settled_real_of_some hk (hbits.trans (Nat.le_of_not_lt hlarge))
  · next hx =>
    split
    · next n hn =>
      rw [Num.eq_real_of_ofFloat? hn]
      exact Num.settled_real_of_none hx
    · trivial

namespace Value

variable {u v : Value}

theorem settled_ofFloat (x : Float) : (ofFloat x).Settled := by
  unfold ofFloat
  split
  · next k hk =>
    split
    · trivial
    · next hlarge => exact Num.settled_real_of_some hk (Nat.le_of_not_lt hlarge)
  · next hx =>
    split
    · next n hn =>
      rw [Num.eq_real_of_ofFloat? hn]
      exact Num.settled_real_of_none hx
    · trivial

theorem settled_add (a b : Value) : (add a b).Settled := by
  unfold add
  split
  · trivial
  · exact settled_ofFloat _

/-- Without a list or an object, only numbers can be equal and different. -/
theorem eq_or_numbers_of_strictEquals (hu : u.Settled) (h : strictEquals u v = true) :
    u = v ∨ ∃ m n, u = .number m ∧ v = .number n := by
  cases u with
  | array _ | object _ => contradiction
  | null | bool _ | number _ | string _ => cases v <;> simp_all [strictEquals, same]

end Value

namespace Eval

variable {m n : Num} {u v base : Value} {l : Nat}

/-- What a prefix operator gives is settled. -/
theorem settled_unary (op : UnaryOp) (v : Value) : (unary op v).Settled := by
  cases op with
  | not => trivial
  | negate | plus => exact Value.settled_ofFloat _

/-- What a binary operator gives is settled. -/
theorem settled_binary (op : BinaryOp) (a b : Value) : (binary op a b).Settled := by
  cases op with
  | add => exact Value.settled_add a b
  | subtract | multiply | divide | modulo => exact Value.settled_ofFloat _
  | less | lessEqual | greater | greaterEqual | equal | notEqual | strictEqual | strictNotEqual => trivial

/-! ### Indexing -/

/-- What a list or text has at a position. -/
def at? (base : Value) (i : Nat) : Option Value :=
  match base with
  | .array items => items[i]?
  | .string s => (s.toList[i]?).map fun c => .string (String.ofList [c])
  | _ => none

/-- A number indexes a list or text by its position. -/
theorem indexed_number (hbase : base.length? = some l) (n : Num) :
    indexed base (.number n) = .ok (((position? n).bind (at? base)).getD .null) := by
  cases base with
  | array items => rfl
  | string s =>
    rw [indexed]
    cases position? n with
    | none => rfl
    | some i => cases h : s.toList[i]? <;> simp [at?, h]
  | null | bool _ | number _ | object _ => contradiction

theorem at?_eq_none (hbase : base.length? = some l) {i : Nat} (hi : l ≤ i) : at? base i = none := by
  cases base with
  | array items =>
    obtain rfl := Option.some.inj hbase
    exact List.getElem?_eq_none hi
  | string s =>
    obtain rfl := Option.some.inj hbase
    rw [at?, List.getElem?_eq_none hi, Option.map_none]
  | null | bool _ | number _ | object _ => contradiction

/-- A floating-point number indexes nothing. -/
theorem indexed_real (hbase : base.length? = some l) (x : Float) :
    indexed base (.number (.real x)) = .ok .null :=
  indexed_number hbase (.real x)

/-- A whole number of more than 53 bits is no position of a list or text. -/
theorem indexed_long (hbase : base.length? = some l) (hl : l ≤ 2 ^ 53) {i : Int} (hi : 2 ^ 53 ≤ i.natAbs) :
    indexed base (.number (.whole i)) = .ok .null := by
  rw [indexed_number hbase, position?]
  split
  · rw [Option.bind_some, at?_eq_none hbase (by omega), Option.getD_none]
  · rfl

/-- A settled floating-point number equals no whole number of at most 53 bits. -/
theorem long_of_settled {i : Int} {x : Float} (hx : (Num.real x).Settled)
    (h : toInt? (Float.ofInt i) = toInt? x) : 2 ^ 53 ≤ i.natAbs := by
  by_contra hlt
  exact hlt (hx i (h ▸ Number.toInt?_ofInt (Nat.lt_of_not_le hlt)))

theorem indexed_congr_of_beq (hbase : base.length? = some l) (hl : l ≤ 2 ^ 53) (hm : m.Settled)
    (hn : n.Settled) (h : (m.toFloat == n.toFloat) = true) :
    indexed base (.number m) = indexed base (.number n) := by
  have hsame : toInt? m.toFloat = toInt? n.toFloat := Number.toInt?_congr h
  cases m with
  | whole i =>
    cases n with
    | whole j =>
      rcases Number.eq_or_long_of_ofInt_beq h with rfl | ⟨hi, hj⟩
      · rfl
      · rw [indexed_long hbase hl hi, indexed_long hbase hl hj]
    | real y => rw [indexed_long hbase hl (long_of_settled hn hsame), indexed_real hbase]
  | real x =>
    cases n with
    | whole j => rw [indexed_long hbase hl (long_of_settled hm hsame.symm), indexed_real hbase]
    | real y => rw [indexed_real hbase, indexed_real hbase]

/-- Settled values that are equal index a list or text alike. -/
theorem indexed_congr_of_settled (hbase : base.length? = some l) (hl : l ≤ 2 ^ 53) (hu : u.Settled)
    (hv : v.Settled) (h : Value.strictEquals u v = true) : indexed base u = indexed base v := by
  rcases Value.eq_or_numbers_of_strictEquals hu h with rfl | ⟨m, n, rfl, rfl⟩
  · rfl
  · exact indexed_congr_of_beq hbase hl hu hv h

/-- Equal numbers index a list or text alike, unless one of them is not settled: that one indexes nothing. -/
theorem indexed_of_strictEquals (hbase : base.length? = some l) (hl : l ≤ 2 ^ 53)
    (h : Value.strictEquals (.number m) (.number n) = true) :
    indexed base (.number m) = indexed base (.number n) ∨
      ∃ p ∈ [m, n], ¬p.Settled ∧ indexed base (.number p) = .ok .null := by
  have hnothing : ∀ p : Num, ¬p.Settled → indexed base (.number p) = .ok .null := by
    intro p hp
    cases p with
    | whole i => exact absurd trivial hp
    | real x => exact indexed_real hbase x
  by_cases hm : m.Settled
  · by_cases hn : n.Settled
    · exact .inl (indexed_congr_of_beq hbase hl hm hn h)
    · exact .inr ⟨n, by simp, hn, hnothing n hn⟩
  · exact .inr ⟨m, by simp, hm, hnothing m hm⟩

/-- The number `1.0` of data equals `1` and indexes nothing. -/
example :
    let items : Value := .array [.string "x", .string "y"]
    Value.strictEquals (.number (.real 1.0)) (.number (.whole 1)) = true ∧
      indexed items (.number (.whole 1)) = .ok (.string "y") ∧
      indexed items (.number (.real 1.0)) = .ok .null :=
  ⟨by decide +kernel, rfl, rfl⟩

end Eval

end TreeTemplate
