import Mathlib.Data.List.Basic
import TreeTemplate.Walk

/-!
The walk of a stack of queues as a recursion.  What an item pushes is visited before the rest of its own
queue, the newest queue first, each queue at its own depth (`Tour`).  A stack of queues makes the same
calls (`WorkStack.run_tour`), and whatever walks it was used for before, its spare queues do not matter
(`WorkStack.run_iff_tour`).
-/

namespace TreeTemplate

variable {σ α : Type}

/-- A call of a handler: the item, the number of queues at that time, that of the item among them, and how
many queues with items the handler pushed. -/
structure Call (α : Type) where
  item : α
  depth : Nat
  pushed : Nat
  deriving DecidableEq, Repr

/-- The numbers of queues after each of the pushes. -/
def Call.heights (c : Call α) : List Nat :=
  List.range' (c.depth + 1) c.pushed

def filled (queues : List (List α)) : List (List α) :=
  queues.filter fun items => !items.isEmpty

/-- The visit of queues, the newest first, that lie on `below` others.  What an item pushes lies on its
own queue and is visited at once, before the rest of that queue; the record holds the calls in order. -/
inductive Tour (handle : Handler σ α) : Nat → σ → List (List α) → List (Call α) → σ → Prop
  | done (below : Nat) (s : σ) : Tour handle below s [] [] s
  | drained {below : Nat} {s s' : σ} {older : List (List α)} {log : List (Call α)}
      (rest : Tour handle below s older log s') : Tour handle below s ([] :: older) log s'
  | item {below : Nat} {s s₁ s₂ s' : σ} {a : α} {more : List α} {older queues : List (List α)}
      {log log' : List (Call α)}
      (handled : handle s a (below + older.length + 1) = (s₁, queues))
      (pushes : Tour handle (below + older.length + 1) s₁ (filled queues).reverse log s₂)
      (rest : Tour handle below s₂ (more :: older) log' s') :
      Tour handle below s ((a :: more) :: older)
        (⟨a, below + older.length + 1, (filled queues).length⟩ :: (log ++ log')) s'

namespace Tour

variable {handle : Handler σ α} {below : Nat} {s s' s₁ : σ} {newer older : List (List α)}
  {log log' : List (Call α)}

/-- Newer queues are visited first. -/
theorem append (h : Tour handle (below + older.length) s newer log s₁)
    (h' : Tour handle below s₁ older log' s') :
    Tour handle below s (newer ++ older) (log ++ log') s' := by
  generalize hdepth : below + older.length = depth at h
  induction h with
  | done => exact h'
  | drained _ ih => exact .drained (ih h' hdepth)
  | @item _ _ _ _ _ a more queues' pushed _ _ handled pushes _ _ ih =>
    subst hdepth
    have hlength : below + older.length + queues'.length + 1 =
        below + (queues' ++ older).length + 1 := by
      rw [List.length_append]
      omega
    rw [hlength] at handled pushes ⊢
    rw [List.cons_append, List.cons_append, List.append_assoc]
    exact .item handled pushes (ih h' rfl)

/-- The visit of newer queues comes to an end before older ones are visited. -/
theorem exists_append (h : Tour handle below s (newer ++ older) log s') :
    ∃ log₁ s₁ log₂, Tour handle (below + older.length) s newer log₁ s₁ ∧
      Tour handle below s₁ older log₂ s' ∧ log = log₁ ++ log₂ := by
  generalize hqueues : newer ++ older = queues at h
  induction h generalizing newer with
  | done below s =>
    obtain ⟨rfl, rfl⟩ := List.append_eq_nil_iff.mp hqueues
    exact ⟨[], s, [], .done _ s, .done _ s, rfl⟩
  | @drained below s s' queues log rest ih =>
    cases newer with
    | nil =>
      obtain rfl : older = [] :: queues := hqueues
      exact ⟨[], s, log, .done _ s, .drained rest, rfl⟩
    | cons q newer =>
      obtain ⟨rfl, htail⟩ := List.cons.inj hqueues
      obtain ⟨log₁, s₁, log₂, h₁, h₂, hlog⟩ := ih htail
      exact ⟨log₁, s₁, log₂, .drained h₁, h₂, hlog⟩
  | @item below s s₁ s₂ s' a more queues pushed log log' handled pushes rest _ ih =>
    cases newer with
    | nil =>
      obtain rfl : older = (a :: more) :: queues := hqueues
      exact ⟨[], s, _, .done _ s, .item handled pushes rest, rfl⟩
    | cons q newer =>
      rw [List.cons_append, List.cons.injEq] at hqueues
      obtain ⟨rfl, rfl⟩ := hqueues
      obtain ⟨log₁, s₃, log₂, h₁, h₂, rfl⟩ := ih List.cons_append
      have hlength : below + (newer ++ older).length + 1 =
          below + older.length + newer.length + 1 := by
        rw [List.length_append]
        omega
      rw [hlength] at handled pushes ⊢
      refine ⟨_, s₃, log₂, .item handled pushes h₁, h₂, ?_⟩
      rw [List.cons_append, List.append_assoc]

end Tour

/-- A handler that keeps a record of its calls. -/
def noting (handle : Handler σ α) : Handler (σ × List (Call α)) α := fun r a depth =>
  (((handle r.1 a depth).1, r.2 ++ [⟨a, depth, (filled (handle r.1 a depth).2).length⟩]),
    (handle r.1 a depth).2)

namespace WorkStack

variable {w w' : WorkStack α} {handle : Handler σ α} {s s' : σ} {fuel : Nat} {stats : WalkStats}

/-- All spare queues are as good as new. -/
def Rinsed (w : WorkStack α) : Prop :=
  ∀ q ∈ w.spares, q = WorkQueue.empty

/-- The greatest of some numbers of queues, if `depth` is the greatest so far. -/
def peak (depth : Nat) (heights : List Nat) : Nat :=
  heights.foldl max depth

/-! ### Pushing -/

theorem map_remaining_ofList (queues : List (List α)) :
    (queues.map WorkQueue.ofList).map WorkQueue.remaining = queues := by
  rw [List.map_map]
  exact List.map_id queues

theorem pushItems_queues (hw : w.Rinsed) (items : List α) :
    (w.pushItems items).Rinsed ∧ (w.pushItems items).stats.items = w.stats.items ∧
      (w.pushItems items).queues =
        (filled [items]).map WorkQueue.ofList ++ w.queues ∧
      (w.pushItems items).stats.depth =
        peak w.stats.depth (List.range' (w.depth + 1) (filled [items]).length) := by
  obtain ⟨w', hcreate, hqueues, hstats, hrinsed⟩ : ∃ w', w.createQueue = (WorkQueue.empty, w') ∧
      w'.queues = w.queues ∧ w'.stats = w.stats ∧ w'.Rinsed := by
    unfold createQueue
    cases hspares : w.spares with
    | nil => exact ⟨w, rfl, rfl, rfl, hw⟩
    | cons q rest =>
      have hq : q = WorkQueue.empty := hw q (by simp [hspares])
      refine ⟨{ w with spares := rest }, by rw [hq], rfl, rfl, ?_⟩
      intro q' hq'
      apply hw q'
      rw [hspares]
      exact List.mem_cons_of_mem q hq'
  have hdepth : w'.depth = w.depth := by rw [depth, depth, hqueues]
  rw [pushItems, hcreate]
  cases items with
  | nil =>
    refine ⟨?_, by rw [← hstats]; rfl, by rw [← hqueues]; rfl, by rw [← hstats]; rfl⟩
    intro q hq
    rcases List.mem_cons.mp hq with rfl | hq
    · rfl
    · exact hrinsed q hq
  | cons a more =>
    refine ⟨hrinsed, by rw [← hstats]; rfl, by rw [← hqueues]; rfl, ?_⟩
    rw [← hdepth, ← hstats]
    rfl

theorem foldl_pushItems_queues (queues : List (List α)) (hw : w.Rinsed) :
    (queues.foldl pushItems w).Rinsed ∧ (queues.foldl pushItems w).stats.items = w.stats.items ∧
      (queues.foldl pushItems w).queues =
        (filled queues).reverse.map WorkQueue.ofList ++ w.queues ∧
      (queues.foldl pushItems w).stats.depth =
        peak w.stats.depth (List.range' (w.depth + 1) (filled queues).length) := by
  induction queues generalizing w with
  | nil => exact ⟨hw, rfl, rfl, rfl⟩
  | cons items rest ih =>
    obtain ⟨hrinsed, hitems, hqueues, hpeak⟩ := pushItems_queues hw items
    obtain ⟨hrinsed', hitems', hqueues', hpeak'⟩ := ih hrinsed
    have hsplit : filled (items :: rest) = filled [items] ++ filled rest := by
      rw [filled, filled, filled, ← List.filter_append]
      rfl
    refine ⟨hrinsed', hitems'.trans hitems, ?_, ?_⟩
    · have hone : (filled [items]).reverse = filled [items] := by
        cases items <;> rfl
      rw [List.foldl_cons, hqueues', hqueues, hsplit, List.reverse_append, List.map_append,
        List.append_assoc, hone]
    · have hdepth : (w.pushItems items).depth = w.depth + (filled [items]).length := by
        rw [depth, hqueues, List.length_append, List.length_map, Nat.add_comm]
        rfl
      rw [List.foldl_cons, hpeak', hpeak, hdepth, hsplit, List.length_append, peak, peak, peak,
        ← List.foldl_append]
      congr 1
      rw [← List.range'_append_1]
      congr 2
      omega

/-! ### Taking -/

variable {q : WorkQueue α} {rest : List (WorkQueue α)} {a : α} {more : List α} {queues : List (List α)}

/-- The stack when its newest queue, which holds nothing more, is put aside. -/
def dropped (w : WorkStack α) (rest : List (WorkQueue α)) : WorkStack α :=
  { w with queues := rest, spares := WorkQueue.empty :: w.spares }

/-- The stack when an item is taken from its newest queue, which then holds `more`. -/
def taken (w : WorkStack α) (q : WorkQueue α) (more : List α) (rest : List (WorkQueue α)) :
    WorkStack α :=
  { w with queues := ⟨q.taken + 1, more⟩ :: rest }.countItem

theorem run_drained (hw : w.queues = q :: rest) (hq : q.remaining = []) (fuel : Nat) (s : σ) :
    run handle fuel w s = run handle fuel (w.dropped rest) s := by
  have hnext : w.next = (w.dropped rest).next := by
    simp [next, dropped, hw, takeNext, WorkQueue.take?, hq]
  rw [run.eq_def, run.eq_def]
  dsimp only
  rw [hnext]

theorem run_item (hw : w.queues = q :: rest) (hq : q.remaining = a :: more) (fuel : Nat) (s : σ) :
    run handle (fuel + 1) w s =
      run handle fuel ((handle s a (rest.length + 1)).2.foldl pushItems (w.taken q more rest))
        (handle s a (rest.length + 1)).1 := by
  have hnext : w.next = (some a, { w with queues := ⟨q.taken + 1, more⟩ :: rest }) := by
    simp [next, hw, takeNext, WorkQueue.take?, hq]
  rw [run.eq_def]
  dsimp only
  rw [hnext]
  rfl

theorem run_nil (hw : w.queues = []) (fuel : Nat) (s : σ) :
    run handle fuel w s = some (s, w.stats, { w with stats := ⟨0, 0⟩ }) := by
  have hnext : w.next = (none, w) := by
    rw [next, hw, takeNext, ← hw]
  rw [run.eq_def]
  dsimp only
  rw [hnext]

/-! ### Stack and recursion -/

/-- The counts after some calls, if they were `stats` before. -/
def counted (stats : WalkStats) (log : List (Call α)) : WalkStats :=
  ⟨stats.items + log.length, peak stats.depth (log.flatMap Call.heights)⟩

/-- The stack makes the calls of the visit of its newer queues, then it goes on with the older ones. -/
theorem run_tour {below : Nat} {newer : List (List α)} {log : List (Call α)}
    (h : Tour handle below s newer log s') {older : List (WorkQueue α)} (holder : older.length = below)
    {qs : List (WorkQueue α)} (hqs : qs.map WorkQueue.remaining = newer)
    (hw : w.queues = qs ++ older) (hrinsed : w.Rinsed) :
    ∃ w' : WorkStack α, w'.queues = older ∧ w'.Rinsed ∧ w'.stats = counted w.stats log ∧
      ∀ fuel seen, run (noting handle) (fuel + log.length) w (s, seen) =
        run (noting handle) fuel w' (s', seen ++ log) := by
  induction h generalizing w older qs with
  | done below s =>
    obtain rfl := List.map_eq_nil_iff.mp hqs
    exact ⟨w, hw, hrinsed, rfl, fun fuel seen => by rw [List.append_nil]; rfl⟩
  | @drained below s s' olderItems log rest ih =>
    obtain ⟨q, qs, rfl, hq, hqs⟩ := List.map_eq_cons_iff.mp hqs
    have hrinsed' : (w.dropped (qs ++ older)).Rinsed := by
      intro q' hq'
      rcases List.mem_cons.mp hq' with rfl | hq'
      · rfl
      · exact hrinsed q' hq'
    obtain ⟨w', hqueues, hrinsed'', hstats, hrun⟩ := ih holder hqs rfl hrinsed'
    refine ⟨w', hqueues, hrinsed'', hstats, fun fuel seen => ?_⟩
    rw [run_drained hw hq]
    exact hrun fuel seen
  | @item below s s₁ s₂ s' a more olderItems queues log log' handled pushes rest ih₁ ih₂ =>
    obtain ⟨q, qs, rfl, hq, hqs⟩ := List.map_eq_cons_iff.mp hqs
    rw [List.cons_append] at hw
    subst holder
    have hlength : (qs ++ older).length = older.length + olderItems.length := by
      rw [List.length_append, ← hqs, List.length_map, Nat.add_comm]
    have hrinsed₁ : (w.taken q more (qs ++ older)).Rinsed := hrinsed
    obtain ⟨hrinsed₂, hitems, hqueues, hpeak⟩ := foldl_pushItems_queues queues hrinsed₁
    have hown : (⟨q.taken + 1, more⟩ :: (qs ++ older) : List (WorkQueue α)).length =
        older.length + olderItems.length + 1 := by rw [List.length_cons, hlength]
    obtain ⟨w₁, hqueues₁, hrinsed₃, hstats₁, hrun₁⟩ :=
      ih₁ hown (map_remaining_ofList _) hqueues hrinsed₂
    have hrest : (⟨q.taken + 1, more⟩ :: qs : List (WorkQueue α)).map WorkQueue.remaining =
        more :: olderItems := by rw [List.map_cons, hqs]
    obtain ⟨w₂, hqueues₂, hrinsed₄, hstats₂, hrun₂⟩ := ih₂ rfl hrest hqueues₁ hrinsed₃
    refine ⟨w₂, hqueues₂, hrinsed₄, ?_, fun fuel seen => ?_⟩
    · have hdepth : (w.taken q more (qs ++ older)).depth = older.length + olderItems.length + 1 := by
        rw [← hlength]
        rfl
      rw [hstats₂, hstats₁, counted, counted, counted, hitems, hpeak, hdepth, peak, peak, peak, peak,
        ← List.foldl_append, ← List.foldl_append, List.flatMap_cons, List.flatMap_append]
      congr 1
      · rw [List.length_cons, List.length_append]
        change w.stats.items + 1 + log.length + log'.length = _
        omega
      · rw [List.append_assoc]
        rfl
    · have hhandled : noting handle (s, seen) a ((qs ++ older).length + 1) =
          ((s₁, seen ++ [⟨a, older.length + olderItems.length + 1, (filled queues).length⟩]),
            queues) := by
        rw [hlength, noting, handled]
      rw [List.length_cons, List.length_append, ← Nat.add_assoc, run_item hw hq, hhandled]
      have hfuel : fuel + (log.length + log'.length) = fuel + log'.length + log.length := by omega
      rw [hfuel, hrun₁, hrun₂, List.append_assoc, List.append_assoc]
      rfl

/-- Keeping a record changes nothing. -/
theorem run_noting (handle : Handler σ α) (fuel : Nat) (w : WorkStack α) (s : σ)
    (seen : List (Call α)) :
    (run (noting handle) fuel w (s, seen)).map (fun r => (r.1.1, r.2)) = run handle fuel w s := by
  induction fuel generalizing w s seen with
  | zero =>
    rw [run.eq_def, run.eq_def]
    dsimp only
    rcases w.next with ⟨_ | a, w'⟩ <;> rfl
  | succ fuel ih =>
    rw [run.eq_def, run.eq_def]
    dsimp only
    rcases w.next with ⟨_ | a, w'⟩
    · rfl
    · exact ih _ _ _

/-- What waits on a stack: the items of each queue, the newest queue first. -/
def waiting (w : WorkStack α) : List (List α) :=
  w.queues.map WorkQueue.remaining

/-- Putting exhausted queues aside, until the newest queue has an item or no queue is left, changes
neither the runs nor the tours. -/
theorem exists_undrained (handle : Handler σ α) (hw : w.Rinsed) :
    ∃ w₁ : WorkStack α, w₁.Rinsed ∧
      (∀ fuel s, run handle fuel w s = run handle fuel w₁ s) ∧
      (∀ s log s', Tour handle 0 s w₁.waiting log s' → Tour handle 0 s w.waiting log s') ∧
      (w₁.queues = [] ∨ ∃ q rest a more, w₁.queues = q :: rest ∧ q.remaining = a :: more) := by
  generalize hqueues : w.queues = queues
  induction queues generalizing w with
  | nil => exact ⟨w, hw, fun _ _ => rfl, fun _ _ _ => id, Or.inl hqueues⟩
  | cons q rest ih =>
    cases hq : q.remaining with
    | cons a more =>
      exact ⟨w, hw, fun _ _ => rfl, fun _ _ _ => id, Or.inr ⟨q, rest, a, more, hqueues, hq⟩⟩
    | nil =>
      have hdropped : (w.dropped rest).Rinsed := by
        intro q' hq'
        rcases List.mem_cons.mp hq' with rfl | hq'
        · rfl
        · exact hw q' hq'
      obtain ⟨w₁, hrinsed, hrun, htour, hnewest⟩ := ih hdropped rfl
      refine ⟨w₁, hrinsed, fun fuel s => ?_, fun s log s' h => ?_, hnewest⟩
      · rw [run_drained hqueues hq, hrun]
      · rw [waiting, hqueues, List.map_cons, hq]
        exact .drained (htour s log s' h)

/-- Without queues a run ends at once. -/
theorem tour_of_nil (hnil : w.queues = []) (h : run handle fuel w s = some (s', stats, w'))
    (hw : w.Rinsed) :
    Tour handle 0 s w.waiting [] s' ∧ w'.queues = [] ∧ w'.stats = ⟨0, 0⟩ ∧ w'.Rinsed := by
  rw [run_nil hnil, Option.some.injEq, Prod.mk.injEq, Prod.mk.injEq] at h
  obtain ⟨rfl, -, rfl⟩ := h
  refine ⟨?_, hnil, rfl, hw⟩
  rw [waiting, hnil]
  exact .done 0 s

/-- A run that comes to an end makes a tour of what waits, and it leaves no queues and no counts. -/
theorem exists_tour (h : run handle fuel w s = some (s', stats, w')) (hw : w.Rinsed) :
    (∃ log, Tour handle 0 s w.waiting log s') ∧
      w'.queues = [] ∧ w'.stats = ⟨0, 0⟩ ∧ w'.Rinsed := by
  induction fuel generalizing w s with
  | zero =>
    obtain ⟨w₁, hrinsed, hrun, htour, hnil | ⟨q, rest, a, more, hqueues, hq⟩⟩ :=
      exists_undrained handle hw
    · obtain ⟨hlog, hdone⟩ := tour_of_nil hnil (hrun 0 s ▸ h) hrinsed
      exact ⟨⟨[], htour _ _ _ hlog⟩, hdone⟩
    · rw [hrun, run.eq_def] at h
      simp [next, hqueues, takeNext, WorkQueue.take?, hq] at h
  | succ fuel ih =>
    obtain ⟨w₁, hrinsed, hrun, htour, hnil | ⟨q, rest, a, more, hqueues, hq⟩⟩ :=
      exists_undrained handle hw
    · obtain ⟨hlog, hdone⟩ := tour_of_nil hnil (hrun (fuel + 1) s ▸ h) hrinsed
      exact ⟨⟨[], htour _ _ _ hlog⟩, hdone⟩
    · rw [hrun, run_item hqueues hq] at h
      have htaken : (w₁.taken q more rest).Rinsed := hrinsed
      obtain ⟨hpushed, -, hnewer, -⟩ :=
        foldl_pushItems_queues (handle s a (rest.length + 1)).2 htaken
      obtain ⟨⟨log, hlog⟩, hdone⟩ := ih h hpushed
      have hwaiting : ((handle s a (rest.length + 1)).2.foldl pushItems
          (w₁.taken q more rest)).waiting =
          (filled (handle s a (rest.length + 1)).2).reverse ++
            more :: rest.map WorkQueue.remaining := by
        rw [waiting, hnewer, List.map_append, map_remaining_ofList]
        rfl
      rw [hwaiting] at hlog
      obtain ⟨log₁, s₂, log₂, hpushes, hrest, -⟩ := hlog.exists_append
      have hlength : rest.length + 1 = 0 + (rest.map WorkQueue.remaining).length + 1 := by
        rw [List.length_map, Nat.zero_add]
      rw [List.length_cons, ← Nat.add_assoc, ← hlength] at hpushes
      have htop : Tour handle 0 s ((a :: more) :: rest.map WorkQueue.remaining) _ s' :=
        .item rfl (hlength ▸ hpushes) hrest
      have hnewest : w₁.waiting = (a :: more) :: rest.map WorkQueue.remaining := by
        rw [waiting, hqueues, List.map_cons, hq]
      rw [← hnewest] at htop
      exact ⟨⟨_, htour s _ s' htop⟩, hdone⟩

/-! ### Reuse -/

/-- A stack between two walks: a new one, or what a walk that came to an end has left. -/
inductive Idle : WorkStack α → Prop
  | new : Idle new
  | walked {τ : Type} {handle : Handler τ α} {w w' : WorkStack α} {queues : List (List α)}
      {fuel : Nat} {s s' : τ} {stats : WalkStats} (before : Idle w)
      (ran : run handle fuel (queues.foldl pushItems w) s = some (s', stats, w')) : Idle w'

theorem Idle.blank (h : Idle w) : w.queues = [] ∧ w.stats = ⟨0, 0⟩ ∧ w.Rinsed := by
  induction h with
  | new => exact ⟨rfl, rfl, by simp [Rinsed, WorkStack.new]⟩
  | walked before ran ih =>
    obtain ⟨-, -, hrinsed⟩ := ih
    exact (exists_tour ran (foldl_pushItems_queues _ hrinsed).1).2

/-- A run on a stack between two walks is the tour of the queues that were pushed, as if they were pushed
at depth 0.  It comes to an end if and only if the tour does, and then with a budget of one for each call
it makes the calls of the tour, in the same order and each at the same depth, whatever the stack was used
for before.  The counts are the number of calls and the largest number of queues after any push, and the
stack can be used again. -/
theorem run_iff_tour (hw : w.Idle) (handle : Handler σ α) (queues : List (List α)) (s : σ) :
    ((∃ fuel r, run handle fuel (queues.foldl pushItems w) s = some r) ↔
      ∃ log s', Tour handle 0 s (filled queues).reverse log s') ∧
    ∀ log s', Tour handle 0 s (filled queues).reverse log s' → ∃ w' : WorkStack α, w'.Idle ∧
      ∀ fuel ≥ log.length,
        run (noting handle) fuel (queues.foldl pushItems w) (s, []) = some ((s', log),
          ⟨log.length, (List.range' 1 (filled queues).length ++
            log.flatMap Call.heights).foldl max 0⟩, w') := by
  obtain ⟨hnone, hstats, hrinsed⟩ := hw.blank
  obtain ⟨hpushed, hitems, hqueues, hpeak⟩ := foldl_pushItems_queues queues hrinsed
  rw [hnone, List.append_nil] at hqueues
  have hwaiting : (queues.foldl pushItems w).waiting = (filled queues).reverse := by
    rw [waiting, hqueues, map_remaining_ofList]
  have hforward : ∀ log s', Tour handle 0 s (filled queues).reverse log s' →
      ∃ w' : WorkStack α, w'.Idle ∧ ∀ fuel ≥ log.length,
        run (noting handle) fuel (queues.foldl pushItems w) (s, []) = some ((s', log),
          ⟨log.length, (List.range' 1 (filled queues).length ++
            log.flatMap Call.heights).foldl max 0⟩, w') := by
    intro log s' htour
    have hnil : ([] : List (WorkQueue α)).length = 0 := rfl
    obtain ⟨w₁, hqueues₁, -, hstats₁, hrun⟩ :=
      run_tour htour hnil hwaiting (List.append_nil _).symm hpushed
    have hcounts : w₁.stats = ⟨log.length, (List.range' 1 (filled queues).length ++
        log.flatMap Call.heights).foldl max 0⟩ := by
      rw [hstats₁, counted, hitems, hpeak, hstats, depth, hnone, peak, peak, ← List.foldl_append,
        Nat.zero_add]
      rfl
    have hend : ∀ fuel ≥ log.length,
        run (noting handle) fuel (queues.foldl pushItems w) (s, []) =
          some ((s', log), w₁.stats, { w₁ with stats := ⟨0, 0⟩ }) := by
      intro fuel hfuel
      obtain ⟨more, rfl⟩ := Nat.exists_eq_add_of_le' hfuel
      rw [hrun, run_nil hqueues₁, List.nil_append]
    refine ⟨{ w₁ with stats := ⟨0, 0⟩ }, .walked hw (hend _ (Nat.le_refl _)), ?_⟩
    rwa [hcounts] at hend
  refine ⟨⟨?_, ?_⟩, hforward⟩
  · rintro ⟨fuel, ⟨s', stats, w'⟩, hrun⟩
    obtain ⟨⟨log, hlog⟩, -⟩ := exists_tour hrun hpushed
    rw [hwaiting] at hlog
    exact ⟨log, s', hlog⟩
  · rintro ⟨log, s', htour⟩
    obtain ⟨w', -, hrun⟩ := hforward log s' htour
    have hplain := run_noting handle log.length (queues.foldl pushItems w) s []
    rw [hrun _ (Nat.le_refl _)] at hplain
    exact ⟨_, _, hplain.symm⟩

/-- A stack that was used before visits the newest queue first. -/
theorem run_iff_tour_twice :
    ∃ w w' : WorkStack Nat, w.spares.length = 2 ∧ w.Idle ∧ w'.Idle ∧
      run (noting fun s a _ => (s, if a = 1 then [[2, 3], [], [4]] else [])) 5
          ([[1], [5]].foldl pushItems w) ((), []) =
        some (((), [⟨5, 2, 0⟩, ⟨1, 1, 2⟩, ⟨4, 3, 0⟩, ⟨2, 2, 0⟩, ⟨3, 2, 0⟩]), ⟨5, 3⟩, w') := by
  have hbefore : run (fun (s : Unit) (_ : Nat) _ => (s, [])) 2 ([[7], [8]].foldl pushItems new) () =
      some ((), ⟨2, 2⟩, ⟨[], [WorkQueue.empty, WorkQueue.empty], ⟨0, 0⟩⟩) := rfl
  have hidle : (⟨[], [WorkQueue.empty, WorkQueue.empty], ⟨0, 0⟩⟩ : WorkStack Nat).Idle :=
    .walked .new hbefore
  obtain ⟨-, htour⟩ := run_iff_tour hidle
    (fun (s : Unit) a _ => (s, if a = 1 then [[2, 3], [], [4]] else [])) [[1], [5]] ()
  obtain ⟨w', hw', hrun⟩ := htour _ ()
    (.item rfl (.done _ _) (.drained (.item rfl
      (.item rfl (.done _ _) (.drained (.item rfl (.done _ _) (.item rfl (.done _ _)
        (.drained (.done _ _)))))) (.drained (.done _ _)))))
  exact ⟨_, w', rfl, hidle, hw', hrun 5 (Nat.le_refl 5)⟩

end WorkStack

end TreeTemplate
