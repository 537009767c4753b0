import Mathlib.Tactic.Ring
import TreeTemplate.Proofs.Expression.Soundness

/-!
How high an accepted tree can be.  Levels of room are spent one by one on the way down, yet an operand gives
back what its prefix operators and suffixes took of it once it is complete, and the operators after it build
on top of it: each level of room allows for one operand and as many suffixes and folds around it as there is
room left, so that a tree read with `room` is of height at most `room ^ 2` (`lowAt`), and an accepted one of
height at most `nestingLimit ^ 2` (`height_parse_le`).  The limit itself is no bound.
-/

namespace TreeTemplate

mutual

/-- The number of nodes on the longest path from the root of a tree down to a leaf. -/
def Expr.height : Expr → Nat
  | .literal _ => 1
  | .identifier _ => 1
  | .member base _ => base.height + 1
  | .index base i => max base.height i.height + 1
  | .call _ args => Expr.heightAll args + 1
  | .method receiver _ args => max receiver.height (Expr.heightAll args) + 1
  | .unary _ operand => operand.height + 1
  | .binary _ left right => max left.height right.height + 1
  | .lazy _ left right => max left.height right.height + 1
  | .conditional condition yes no => max condition.height (max yes.height no.height) + 1
  | .array items => Expr.heightAll items + 1
  | .object entries => Expr.heightEntries entries + 1
  | .assign _ value => value.height + 1

def Expr.heightAll : List Expr → Nat
  | [] => 0
  | e :: es => max e.height (Expr.heightAll es)

/-- The height of the highest value of the entries. -/
def Expr.heightEntries : List (String × Expr) → Nat
  | [] => 0
  | (_, e) :: es => max e.height (Expr.heightEntries es)

end

namespace Expr

theorem heightAll_le_iff {n : Nat} {es : List Expr} :
    heightAll es ≤ n ↔ ∀ e ∈ es, e.height ≤ n := by
  induction es with
  | nil => simp [heightAll]
  | cons e es ih => rw [heightAll, Nat.max_le, ih, List.forall_mem_cons]

theorem heightEntries_le_iff {n : Nat} {es : List (String × Expr)} :
    heightEntries es ≤ n ↔ ∀ p ∈ es, p.2.height ≤ n := by
  induction es with
  | nil => simp [heightEntries]
  | cons p es ih => rw [heightEntries, Nat.max_le, ih, List.forall_mem_cons]

theorem heightAll_reverse_le {n : Nat} {es : List Expr} (h : heightAll es ≤ n) :
    heightAll es.reverse ≤ n := by
  simpa [heightAll_le_iff] using h

theorem heightEntries_reverse_le {n : Nat} {es : List (String × Expr)} (h : heightEntries es ≤ n) :
    heightEntries es.reverse ≤ n := by
  simpa [heightEntries_le_iff] using h

end Expr

namespace Parser

variable {stop fuel room n : Nat} {level : Level} {ts rest : List Lexeme} {e : Expr}

/-- The bounds for what is read with this fuel.  Suffixes and folds are counted from what they build on. -/
structure LowAt (stop fuel : Nat) : Prop where
  expression : ∀ {room level ts e rest}, expression stop fuel room level ts = .ok (e, rest) →
    e.height ≤ room ^ 2
  folds : ∀ {room n level left ts e rest}, room ^ 2 ≤ n → left.height ≤ n →
    folds stop fuel room level left ts = .ok (e, rest) → e.height ≤ n + room
  operand : ∀ {room ts e rest}, operand stop fuel room ts = .ok (e, rest) →
    e.height ≤ room ^ 2 + room + 1
  primary : ∀ {room x ts e rest}, primary stop fuel room x ts = .ok (e, rest) →
    e.height ≤ room ^ 2 + 1
  suffixes : ∀ {room n e ts e' rest}, room ^ 2 ≤ n → e.height ≤ n →
    suffixes stop fuel room e ts = .ok (e', rest) → e'.height ≤ n + room
  arguments : ∀ {room ts es rest}, arguments stop fuel room ts = .ok (es, rest) →
    Expr.heightAll es ≤ room ^ 2
  moreArguments : ∀ {room seen ts es rest}, Expr.heightAll seen ≤ room ^ 2 →
    moreArguments stop fuel room seen ts = .ok (es, rest) → Expr.heightAll es ≤ room ^ 2
  arrayItems : ∀ {room seen ts es rest}, Expr.heightAll seen ≤ room ^ 2 →
    arrayItems stop fuel room seen ts = .ok (es, rest) → Expr.heightAll es ≤ room ^ 2
  objectEntries : ∀ {room seen ts es rest}, Expr.heightEntries seen ≤ room ^ 2 →
    objectEntries stop fuel room seen ts = .ok (es, rest) → Expr.heightEntries es ≤ room ^ 2

theorem lowAt_zero (stop : Nat) : LowAt stop 0 := by
  constructor
  all_goals
    intros
    rename_i h
    simp [expression, folds, operand, primary, suffixes, arguments, moreArguments, arrayItems,
      objectEntries] at h

/-- One more level of room is worth an operand and everything around it. -/
theorem square_succ (room : Nat) : (room + 1) ^ 2 = room ^ 2 + room + 1 + room := by
  ring

namespace LowAt

variable (ih : LowAt stop fuel)

include ih

theorem expression_succ (h : Parser.expression stop (fuel + 1) room level ts = .ok (e, rest)) :
    e.height ≤ room ^ 2 := by
  cases room with
  | zero => simp [Parser.expression] at h
  | succ room =>
    rw [Parser.expression] at h
    obtain ⟨⟨left, ts'⟩, hleft, hfolds⟩ := bind_eq_ok h
    rw [square_succ]
    exact ih.folds (by omega) (ih.operand hleft) hfolds

/-- A fold puts one node on top of what was read and of operands read with less room. -/
theorem folds_succ {left : Expr} (hn : room ^ 2 ≤ n) (hleft : left.height ≤ n)
    (h : Parser.folds stop (fuel + 1) room level left ts = .ok (e, rest)) : e.height ≤ n + room := by
  cases ts with
  | nil =>
    rw [Parser.folds] at h
    cases h
    omega
  | cons x more =>
    cases hfold : foldAt? level x.token with
    | none =>
      rw [folds_stop hfold] at h
      cases h
      omega
    | some fold =>
      cases room with
      | zero =>
        rw [folds_zero hfold] at h
        cases h
      | succ room =>
        rw [square_succ] at hn
        have hwrap : ∀ {left' ts'}, left'.height ≤ n + 1 →
            Parser.folds stop fuel room level left' ts' = .ok (e, rest) →
            e.height ≤ n + (room + 1) := by
          intro left' ts' hleft' hfolds
          have hlow := ih.folds (by omega) hleft' hfolds
          omega
        cases fold with
        | assign =>
          rw [folds_assign hfold] at h
          cases left
          case identifier name =>
            obtain ⟨⟨value, ts'⟩, hvalue, hfolds⟩ := bind_eq_ok h
            have hlow := ih.expression hvalue
            exact hwrap (by rw [Expr.height]; omega) hfolds
          all_goals cases h
        | conditional =>
          rw [folds_conditional hfold] at h
          obtain ⟨⟨yes, ts₁⟩, hyes, h₁⟩ := bind_eq_ok h
          obtain ⟨ts₂, -, h₂⟩ := bind_eq_ok h₁
          obtain ⟨⟨no, ts₃⟩, hno, hfolds⟩ := bind_eq_ok h₂
          have hlowYes := ih.expression hyes
          have hlowNo := ih.expression hno
          exact hwrap (by rw [Expr.height]; omega) hfolds
        | binary op r =>
          rw [folds_tree hfold rfl] at h
          obtain ⟨⟨right, ts'⟩, hright, hfolds⟩ := bind_eq_ok h
          have hlow := ih.expression hright
          exact hwrap (by rw [Expr.height]; omega) hfolds
        | lazy op r =>
          rw [folds_tree hfold rfl] at h
          obtain ⟨⟨right, ts'⟩, hright, hfolds⟩ := bind_eq_ok h
          have hlow := ih.expression hright
          exact hwrap (by rw [Expr.height]; omega) hfolds

theorem operand_succ (h : Parser.operand stop (fuel + 1) room ts = .ok (e, rest)) :
    e.height ≤ room ^ 2 + room + 1 := by
  cases ts with
  | nil =>
    rw [Parser.operand] at h
    cases h
  | cons x more =>
    rw [Parser.operand.eq_def] at h
    dsimp only at h
    split at h
    · cases h
    · next op room _ =>
      obtain ⟨⟨e', ts'⟩, hoperand, h⟩ := bind_eq_ok h
      dsimp only at h
      cases h
      have hlow : e'.height ≤ room ^ 2 + room + 1 := ih.operand hoperand
      rw [Expr.height, square_succ]
      omega
    · next room _ =>
      obtain ⟨⟨e', ts'⟩, hprimary, hsuffixes⟩ := bind_eq_ok h
      have hlow := ih.suffixes (by omega) (ih.primary hprimary) hsuffixes
      omega

theorem primary_succ {x : Lexeme} (h : Parser.primary stop (fuel + 1) room x ts = .ok (e, rest)) :
    e.height ≤ room ^ 2 + 1 := by
  rw [Parser.primary] at h
  split at h
  · cases h
    simp [Expr.height]
  · split at h
    · cases h
      simp [Expr.height]
    · obtain ⟨⟨e', ts'⟩, hexpression, h⟩ := bind_eq_ok h
      obtain ⟨us, -, h⟩ := bind_eq_ok h
      cases h
      exact Nat.le_succ_of_le (ih.expression hexpression)
    · obtain ⟨⟨es, ts'⟩, hitems, h⟩ := bind_eq_ok h
      cases h
      rw [Expr.height]
      exact Nat.succ_le_succ (ih.arrayItems (Nat.zero_le _) hitems)
    · obtain ⟨⟨es, ts'⟩, hentries, h⟩ := bind_eq_ok h
      cases h
      rw [Expr.height]
      exact Nat.succ_le_succ (ih.objectEntries (Nat.zero_le _) hentries)
    · cases h

/-- So does a suffix. -/
theorem suffixes_succ {e' : Expr} (hn : room ^ 2 ≤ n) (he : e.height ≤ n)
    (h : Parser.suffixes stop (fuel + 1) room e ts = .ok (e', rest)) : e'.height ≤ n + room := by
  cases ts with
  | nil =>
    rw [Parser.suffixes] at h
    cases h
    omega
  | cons x more =>
    have hwrap : ∀ {room e₁ ts'}, (room + 1) ^ 2 ≤ n → e₁.height ≤ n + 1 →
        Parser.suffixes stop fuel room e₁ ts' = .ok (e', rest) → e'.height ≤ n + (room + 1) := by
      intro room e₁ ts' hn he₁ hsuffixes
      rw [square_succ] at hn
      have hlow := ih.suffixes (by omega) he₁ hsuffixes
      omega
    have hless : ∀ room : Nat, (room + 1) ^ 2 ≤ n → room ^ 2 ≤ n :=
      fun room => Nat.le_trans (Nat.pow_le_pow_left (Nat.le_succ room) 2)
    rw [Parser.suffixes.eq_def] at h
    dsimp only at h
    split at h
    · cases h
    · cases h
    · cases h
    · next room _ =>
      split at h
      · cases h
      · split at h
        · cases h
        · split at h
          · obtain ⟨⟨es, ts'⟩, harguments, h⟩ := bind_eq_ok h
            have hargs := Nat.le_trans (ih.arguments harguments) (hless room hn)
            dsimp only at h
            exact hwrap hn (by rw [Expr.height]; omega) h
          · exact hwrap hn (by rw [Expr.height]; omega) h
    · next room _ =>
      obtain ⟨⟨i, ts'⟩, hindex, hclosing⟩ := bind_eq_ok h
      obtain ⟨us, -, hsuffixes⟩ := bind_eq_ok hclosing
      have hlow := Nat.le_trans (ih.expression hindex) (hless room hn)
      dsimp only at hsuffixes
      exact hwrap hn (by rw [Expr.height]; omega) hsuffixes
    · next room _ =>
      split at h
      · obtain ⟨⟨es, ts'⟩, harguments, h⟩ := bind_eq_ok h
        have hargs := Nat.le_trans (ih.arguments harguments) (hless room hn)
        dsimp only at h
        exact hwrap hn (by rw [Expr.height]; omega) h
      · cases h
    · cases h
      omega

theorem arguments_succ {es : List Expr}
    (h : Parser.arguments stop (fuel + 1) room ts = .ok (es, rest)) :
    Expr.heightAll es ≤ room ^ 2 := by
  rw [Parser.arguments] at h
  obtain ⟨us, -, hlist⟩ := bind_eq_ok h
  split at hlist
  · cases hlist
    exact Nat.zero_le _
  · exact ih.moreArguments (Nat.zero_le _) hlist

theorem moreArguments_succ {seen es : List Expr} (hseen : Expr.heightAll seen ≤ room ^ 2)
    (h : Parser.moreArguments stop (fuel + 1) room seen ts = .ok (es, rest)) :
    Expr.heightAll es ≤ room ^ 2 := by
  rw [Parser.moreArguments] at h
  obtain ⟨⟨e, us⟩, hexpression, hlist⟩ := bind_eq_ok h
  have hmore : Expr.heightAll (e :: seen) ≤ room ^ 2 :=
    Nat.max_le.mpr ⟨ih.expression hexpression, hseen⟩
  dsimp only at hlist
  split at hlist
  · exact ih.moreArguments hmore hlist
  · split at hlist
    · cases hlist
      exact Expr.heightAll_reverse_le hmore
    · cases hlist

theorem arrayItems_succ {seen es : List Expr} (hseen : Expr.heightAll seen ≤ room ^ 2)
    (h : Parser.arrayItems stop (fuel + 1) room seen ts = .ok (es, rest)) :
    Expr.heightAll es ≤ room ^ 2 := by
  rw [Parser.arrayItems] at h
  split at h
  · cases h
    exact Expr.heightAll_reverse_le hseen
  · obtain ⟨⟨e, us⟩, hexpression, hlist⟩ := bind_eq_ok h
    have hmore : Expr.heightAll (e :: seen) ≤ room ^ 2 :=
      Nat.max_le.mpr ⟨ih.expression hexpression, hseen⟩
    dsimp only at hlist
    split at hlist
    · exact ih.arrayItems hmore hlist
    · split at hlist
      · cases hlist
        exact Expr.heightAll_reverse_le hmore
      · cases hlist

theorem objectEntries_succ {seen es : List (String × Expr)}
    (hseen : Expr.heightEntries seen ≤ room ^ 2)
    (h : Parser.objectEntries stop (fuel + 1) room seen ts = .ok (es, rest)) :
    Expr.heightEntries es ≤ room ^ 2 := by
  cases ts with
  | nil =>
    rw [Parser.objectEntries] at h
    cases h
  | cons x more =>
    rw [Parser.objectEntries] at h
    split at h
    · cases h
      exact Expr.heightEntries_reverse_le hseen
    · split at h
      · cases h
      · next key _ =>
        obtain ⟨ts', -, hvalue⟩ := bind_eq_ok h
        obtain ⟨⟨e, us⟩, hexpression, hlist⟩ := bind_eq_ok hvalue
        have hmore : Expr.heightEntries ((key, e) :: seen) ≤ room ^ 2 :=
          Nat.max_le.mpr ⟨ih.expression hexpression, hseen⟩
        dsimp only at hlist
        split at hlist
        · exact ih.objectEntries hmore hlist
        · split at hlist
          · cases hlist
            exact Expr.heightEntries_reverse_le hmore
          · cases hlist

end LowAt

/-- A tree read with `room` is of height at most `room ^ 2`. -/
theorem lowAt (stop fuel : Nat) : LowAt stop fuel := by
  induction fuel with
  | zero => exact lowAt_zero stop
  | succ fuel ih =>
    constructor
    · exact ih.expression_succ
    · exact ih.folds_succ
    · exact ih.operand_succ
    · exact ih.primary_succ
    · exact ih.suffixes_succ
    · exact ih.arguments_succ
    · exact ih.moreArguments_succ
    · exact ih.arrayItems_succ
    · exact ih.objectEntries_succ

end Parser

/-- An accepted tree is of height at most `nestingLimit ^ 2`. -/
theorem Parser.height_parseTokens_le {stop : Nat} {ts : List Lexeme} {e : Expr}
    (h : parseTokens stop ts = .ok e) : e.height ≤ nestingLimit ^ 2 := by
  unfold parseTokens at h
  split at h
  · cases h
  · split at h
    · next hexpression =>
      cases h
      exact (lowAt stop _).expression hexpression
    · cases h
    · cases h

/-- The limit itself is no bound: of `!…!a + a`, the sum stands where the first `a` does, and nothing counts
the operators before it any more. -/
example (ts : List Token)
    (hts : ts = List.replicate 255 (.punct .bang) ++ [.identifier "a", .punct .plus, .identifier "a"]) :
    (Parser.parseTokens 258 (ts.map (⟨·, 0, 0⟩))).map Expr.height = .ok (nestingLimit + 1) := by
  subst hts
  decide +kernel

/-- Recursion over an accepted tree goes no deeper than the square of the limit. -/
theorem height_parse_le {source : String} {e : Expr} (h : parse source = .ok e) :
    e.height ≤ nestingLimit ^ 2 := by
  unfold parse at h
  dsimp only at h
  split at h
  · exact Parser.height_parseTokens_le h
  · cases h

end TreeTemplate
