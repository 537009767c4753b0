import Mathlib.Data.List.Basic
import TreeTemplate.Walk

/-!
Walks as runs.  A walk hands the waiting items to its handler one by one, and what the handler pushes
comes before what waits (`Runs`).  The stack of queues and its spare queues only carry this list of
waiting items, so a run decides what `WorkStack.run` gives, and how much fuel it takes
(`WorkStack.run_eq`).
-/

namespace TreeTemplate

variable {σ α : Type}

/-- The handler `act` turns `s` into `s'` by doing the waiting items and all that they push.  The
record holds each item with the state that it was done in. -/
inductive Runs (act : σ → α → σ × List (List α)) : σ → List α → List (σ × α) → σ → Prop
  | nil (s : σ) : Runs act s [] [] s
  | cons {s s' : σ} {a : α} {waiting : List α} {log : List (σ × α)}
      (rest : Runs act (act s a).1 ((act s a).2.reverse.flatten ++ waiting) log s') :
      Runs act s (a :: waiting) ((s, a) :: log) s'

namespace Runs

variable {act : σ → α → σ × List (List α)} {s s₁ s₂ : σ} {items items' : List α}
  {log log' : List (σ × α)}

/-- What waits behind is done afterwards. -/
theorem append (h : Runs act s items log s₁) (h' : Runs act s₁ items' log' s₂) :
    Runs act s (items ++ items') (log ++ log') s₂ := by
  induction h with
  | nil s => exact h'
  | cons rest ih =>
    rw [List.cons_append, List.cons_append]
    refine .cons ?_
    rw [← List.append_assoc]
    exact ih h'

/-- One item, then what it pushes. -/
theorem one {a : α} {s' : σ} {queues : List (List α)} (hact : act s a = (s₁, queues))
    (h : Runs act s₁ queues.reverse.flatten log s') : Runs act s [a] ((s, a) :: log) s' := by
  refine .cons ?_
  rw [hact, List.append_nil]
  exact h

/-- An item that pushes nothing. -/
theorem leaf {a : α} (hact : act s a = (s₁, [])) : Runs act s [a] [(s, a)] s₁ :=
  .one hact (.nil s₁)

/-- The record and the outcome of a run are determined. -/
theorem unique (h : Runs act s items log s₁) (h' : Runs act s items log' s₂) :
    log = log' ∧ s₁ = s₂ := by
  induction h generalizing log' with
  | nil s =>
    cases h'
    exact ⟨rfl, rfl⟩
  | cons rest ih =>
    cases h' with
    | cons rest' =>
      obtain ⟨rfl, rfl⟩ := ih rest'
      exact ⟨rfl, rfl⟩

end Runs

/-- A handler that keeps a record of what it is given. -/
def recording (act : σ → α → σ × List (List α)) (r : σ × List (σ × α)) (a : α) :
    (σ × List (σ × α)) × List (List α) :=
  (((act r.1 a).1, r.2 ++ [(r.1, a)]), (act r.1 a).2)

/-- A recording handler does the same and records it. -/
theorem Runs.recording {act : σ → α → σ × List (List α)} {s s' : σ} {items : List α}
    {log : List (σ × α)} (h : Runs act s items log s') (seen : List (σ × α)) :
    ∃ log', log'.length = log.length ∧
      Runs (TreeTemplate.recording act) (s, seen) items log' (s', seen ++ log) := by
  induction h generalizing seen with
  | nil s => exact ⟨[], rfl, by simpa using Runs.nil (s, seen)⟩
  | @cons s s' a waiting log rest ih =>
    obtain ⟨log', hlength, hrest⟩ := ih (seen ++ [(s, a)])
    refine ⟨((s, seen), a) :: log', by simp [hlength], .cons ?_⟩
    simpa [TreeTemplate.recording] using hrest

namespace WorkStack

variable {act : σ → α → σ × List (List α)} {s : σ}

/-- The items that wait, in the order in which they will be done. -/
def pending (w : WorkStack α) : List α :=
  w.queues.flatMap WorkQueue.remaining

/-- The spare queues hold no items. -/
def Clean (w : WorkStack α) : Prop :=
  ∀ q ∈ w.spares, q.remaining = []

theorem pushItems_spec (w : WorkStack α) (items : List α) (h : w.Clean) :
    (w.pushItems items).pending = items ++ w.pending ∧ (w.pushItems items).Clean := by
  obtain ⟨q, w', hcreate, hq, hqueues, hclean⟩ : ∃ q w', w.createQueue = (q, w') ∧
      q.remaining = [] ∧ w'.queues = w.queues ∧ w'.Clean := by
    unfold createQueue
    cases hspares : w.spares with
    | nil => exact ⟨_, _, rfl, rfl, rfl, h⟩
    | cons q rest =>
      exact ⟨_, _, rfl, h q (by simp [hspares]), rfl, fun q' hq' => h q' (by
        rw [hspares]
        exact List.mem_cons_of_mem q hq')⟩
  have hpending : w'.pending = w.pending := by rw [pending, pending, hqueues]
  rw [pushItems, hcreate]
  simp only [push]
  split
  · next hempty =>
    have hitems : items = [] := by
      simp only [WorkQueue.isEmpty, WorkQueue.size, WorkQueue.append, hq, List.nil_append,
        beq_iff_eq] at hempty
      exact List.eq_nil_of_length_eq_zero (by omega)
    refine ⟨by simpa [hitems, recycle, pending] using hpending, fun q' hq' => ?_⟩
    rcases List.mem_cons.mp hq' with rfl | hq'
    · rfl
    · exact hclean q' hq'
  · exact ⟨by simp [pending, WorkQueue.append, hq, hqueues], hclean⟩

theorem foldl_pushItems_spec (queues : List (List α)) (w : WorkStack α) (h : w.Clean) :
    (queues.foldl pushItems w).pending = queues.reverse.flatten ++ w.pending ∧
      (queues.foldl pushItems w).Clean := by
  induction queues generalizing w with
  | nil => exact ⟨rfl, h⟩
  | cons items rest ih =>
    obtain ⟨hpending, hclean⟩ := pushItems_spec w items h
    obtain ⟨hpending', hclean'⟩ := ih _ hclean
    exact ⟨by simp [hpending', hpending], hclean'⟩

/-- The item taken is the first that waits, if any does. -/
theorem takeNext_spec (queues spares : List (WorkQueue α)) (h : ∀ q ∈ spares, q.remaining = []) :
    ∃ spares', (∀ q ∈ spares', q.remaining = []) ∧
      ((queues.flatMap WorkQueue.remaining = [] ∧ takeNext queues spares = (none, [], spares')) ∨
        ∃ a queues', queues.flatMap WorkQueue.remaining =
            a :: queues'.flatMap WorkQueue.remaining ∧
          takeNext queues spares = (some a, queues', spares')) := by
  induction queues generalizing spares with
  | nil => exact ⟨spares, h, Or.inl ⟨rfl, rfl⟩⟩
  | cons q rest ih =>
    cases hq : q.remaining with
    | nil =>
      have hnext : takeNext (q :: rest) spares = takeNext rest (WorkQueue.empty :: spares) := by
        simp [takeNext, WorkQueue.take?, hq]
      rw [hnext, List.flatMap_cons, hq, List.nil_append]
      refine ih (WorkQueue.empty :: spares) fun q' hq' => ?_
      rcases List.mem_cons.mp hq' with rfl | hq'
      · rfl
      · exact h q' hq'
    | cons a more =>
      refine ⟨spares, h, Or.inr ⟨a, ⟨q.taken + 1, more⟩ :: rest, by simp [hq], ?_⟩⟩
      simp [takeNext, WorkQueue.take?, hq]

/-- A walk ends where the run of its waiting items ends, if there is fuel for each of them. -/
theorem run_eq {s' : σ} {items : List α} {log : List (σ × α)} (h : Runs act s items log s')
    (w : WorkStack α) (hclean : w.Clean) (hpending : w.pending = items) (fuel : Nat) :
    (run (fun s a _ => act s a) fuel w s).map (·.1) =
      if log.length ≤ fuel then some s' else none := by
  induction h generalizing w fuel with
  | nil s =>
    obtain ⟨spares', -, ⟨-, hnext⟩ | ⟨a, queues', hitems, -⟩⟩ :=
      takeNext_spec w.queues w.spares hclean
    · rw [run.eq_def]
      simp [next, hnext]
    · rw [pending] at hpending
      simp [hitems] at hpending
  | @cons s s' a waiting log rest ih =>
    rw [pending] at hpending
    obtain ⟨spares', hclean', ⟨hitems, -⟩ | ⟨b, queues', hitems, hnext⟩⟩ :=
      takeNext_spec w.queues w.spares hclean
    · simp [hitems] at hpending
    · rw [hitems, List.cons.injEq] at hpending
      obtain ⟨rfl, hwaiting⟩ := hpending
      cases fuel with
      | zero =>
        rw [run.eq_def]
        simp [next, hnext]
      | succ fuel =>
        have hclean'' : ({ w with queues := queues', spares := spares' } : WorkStack α).countItem.Clean :=
          hclean'
        obtain ⟨hpushed, hcleanPushed⟩ := foldl_pushItems_spec (act s b).2 _ hclean''
        have hrun := ih _ hcleanPushed (by rw [hpushed, ← hwaiting]; rfl) fuel
        rw [run.eq_def]
        simp only [next, hnext, List.length_cons, Nat.add_le_add_iff_right]
        exact hrun

theorem runFrom_eq {s' : σ} {a : α} {log : List (σ × α)} (h : Runs act s [a] log s') (fuel : Nat) :
    (runFrom (fun s a _ => act s a) fuel a s).map (·.1) =
      if log.length ≤ fuel then some s' else none := by
  have hclean : (new : WorkStack α).Clean := by simp [Clean, new]
  obtain ⟨hpending, hclean'⟩ := pushItems_spec new [a] hclean
  have hrun := run_eq h _ hclean' (by simpa [pending, new] using hpending) fuel
  rw [runFrom, Option.map_map]
  exact hrun

/-! ### Points of a walk -/

/-- On its way the walk of `w` from `s` comes to the stack `w'` and the state `s'`.  The record holds
the items handled until then, each with the state that it was handled in. -/
inductive Reaches (handle : Handler σ α) (w : WorkStack α) (s : σ) :
    List (σ × α) → WorkStack α → σ → Prop
  | start : Reaches handle w s [] w s
  | step {log : List (σ × α)} {w₁ w₂ : WorkStack α} {s₁ : σ} {a : α}
      (before : Reaches handle w s log w₁ s₁) (next : w₁.next = (some a, w₂)) :
      Reaches handle w s (log ++ [(s₁, a)])
        ((handle s₁ a w₂.countItem.depth).2.foldl pushItems w₂.countItem)
        (handle s₁ a w₂.countItem.depth).1

namespace Reaches

variable {handle : Handler σ α} {w w' : WorkStack α} {s' : σ} {log : List (σ × α)}

/-- From a point of a walk the walk goes on. -/
theorem run_eq (h : Reaches handle w s log w' s') (fuel : Nat) :
    run handle (log.length + fuel) w s = run handle fuel w' s' := by
  induction h generalizing fuel with
  | start => simp
  | step before hnext ih =>
    rw [List.length_append, List.length_singleton, Nat.add_assoc, Nat.add_comm 1 fuel, ih (fuel + 1),
      run.eq_def]
    simp only [hnext]

/-- A walk that comes to a point after its first item comes to it. -/
theorem head {w₁ : WorkStack α} {a : α} (hnext : w.next = (some a, w₁))
    (h : Reaches handle ((handle s a w₁.countItem.depth).2.foldl pushItems w₁.countItem)
      (handle s a w₁.countItem.depth).1 log w' s') :
    Reaches handle w s ((s, a) :: log) w' s' := by
  induction h with
  | start => exact .step .start hnext
  | step before hnext' ih => exact .step ih hnext'

/-- A walk that has an outcome comes to its end. -/
theorem exists_of_run {fuel : Nat} {stats : WalkStats}
    (h : run handle fuel w s = some (s', stats, w')) :
    ∃ log last, Reaches handle w s log last s' ∧ last.next.1 = none := by
  induction fuel generalizing w s with
  | zero =>
    rw [run.eq_def] at h
    rcases hnext : w.next with ⟨_ | a, w₁⟩
    · simp only [hnext, Option.some.injEq, Prod.mk.injEq] at h
      obtain ⟨rfl, -⟩ := h
      exact ⟨[], w, .start, by rw [hnext]⟩
    · simp [hnext] at h
  | succ fuel ih =>
    rw [run.eq_def] at h
    rcases hnext : w.next with ⟨_ | a, w₁⟩
    · simp only [hnext, Option.some.injEq, Prod.mk.injEq] at h
      obtain ⟨rfl, -⟩ := h
      exact ⟨[], w, .start, by rw [hnext]⟩
    · simp only [hnext] at h
      obtain ⟨log, last, hlast, hend⟩ := ih h
      exact ⟨(s, a) :: log, last, .head hnext hlast, hend⟩

end Reaches

/-- The next item is the first that waits; without one, nothing waits. -/
theorem next_spec {w : WorkStack α} (hclean : w.Clean) :
    (w.next.1 = none ∧ w.pending = []) ∨
      ∃ a w', w.next = (some a, w') ∧ w.pending = a :: w'.pending ∧ w'.Clean := by
  obtain ⟨spares', hclean', ⟨hitems, hnext⟩ | ⟨a, queues', hitems, hnext⟩⟩ :=
    takeNext_spec w.queues w.spares hclean
  · exact Or.inl ⟨by rw [next, hnext], hitems⟩
  · exact Or.inr ⟨a, { w with queues := queues', spares := spares' }, by rw [next, hnext], hitems,
      hclean'⟩

theorem pending_of_next {w w' : WorkStack α} {a : α} (hclean : w.Clean)
    (hnext : w.next = (some a, w')) : w.pending = a :: w'.pending ∧ w'.Clean := by
  rcases next_spec hclean with ⟨hnone, -⟩ | ⟨b, w₁, hnext', hpending, hclean'⟩
  · simp [hnext] at hnone
  · rw [hnext] at hnext'
    obtain ⟨hab, rfl⟩ := Prod.mk.inj hnext'
    obtain rfl := Option.some.inj hab
    exact ⟨hpending, hclean'⟩

theorem pending_of_next_none {w : WorkStack α} (hclean : w.Clean) (hnext : w.next.1 = none) :
    w.pending = [] := by
  rcases next_spec hclean with ⟨-, hpending⟩ | ⟨b, w₁, hnext', -⟩
  · exact hpending
  · simp [hnext'] at hnext

/-- What holds where a walk begins, and stays so when the first waiting item is handled and what it
pushes waits before the others, holds at every point of the walk. -/
theorem Reaches.invariant (act : σ → α → σ × List (List α))
    (Inv : List (σ × α) → σ → List α → Prop) {w w' : WorkStack α} {s' : σ} {log : List (σ × α)}
    (hstep : ∀ log s a waiting, Inv log s (a :: waiting) →
      Inv (log ++ [(s, a)]) (act s a).1 ((act s a).2.reverse.flatten ++ waiting))
    (hclean : w.Clean) (hstart : Inv [] s w.pending)
    (h : Reaches (fun s a _ => act s a) w s log w' s') : Inv log s' w'.pending ∧ w'.Clean := by
  induction h with
  | start => exact ⟨hstart, hclean⟩
  | step before hnext ih =>
    obtain ⟨hinv, hclean₁⟩ := ih
    obtain ⟨hpending, hclean₂⟩ := pending_of_next hclean₁ hnext
    rw [hpending] at hinv
    obtain ⟨hpushed, hclean₃⟩ := foldl_pushItems_spec _ _
      (show WorkStack.Clean (WorkStack.countItem _) from hclean₂)
    refine ⟨?_, hclean₃⟩
    rw [hpushed]
    exact hstep _ _ _ _ hinv

end WorkStack

end TreeTemplate
