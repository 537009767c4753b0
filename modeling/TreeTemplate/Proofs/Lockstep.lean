import TreeTemplate.Proofs.Walk

/-!
Walks in lockstep.  Two walks whose items correspond to each other, and push corresponding items, go the
same way: they take the same items and end together, with the same counts
(`WorkStack.run_lockstep`).  What corresponds to an item may change as long as no item waits that has
another counterpart then.
-/

namespace TreeTemplate

variable {σ τ α β : Type}

def WorkQueue.map (f : α → β) (q : WorkQueue α) : WorkQueue β :=
  ⟨q.taken, q.remaining.map f⟩

namespace WorkStack

def map (f : α → β) (w : WorkStack α) : WorkStack β :=
  ⟨w.queues.map (WorkQueue.map f), w.spares.map (WorkQueue.map f), w.stats⟩

variable {f g : α → β} {w : WorkStack α}

theorem map_new (f : α → β) : (new : WorkStack α).map f = new :=
  rfl

theorem depth_map (f : α → β) (w : WorkStack α) : (w.map f).depth = w.depth := by
  simp [depth, map]

theorem countItem_map (f : α → β) (w : WorkStack α) : (w.map f).countItem = w.countItem.map f :=
  rfl

theorem pushItems_map (f : α → β) (w : WorkStack α) (items : List α) :
    (w.map f).pushItems (items.map f) = (w.pushItems items).map f := by
  have hcreate : (w.map f).createQueue = (w.createQueue.1.map f, w.createQueue.2.map f) := by
    obtain ⟨queues, spares, stats⟩ := w
    cases spares <;> rfl
  have happend : ∀ q : WorkQueue α, (q.map f).append (items.map f) = (q.append items).map f := by
    intro q
    simp [WorkQueue.append, WorkQueue.map]
  have hpush : ∀ (q : WorkQueue α) (w : WorkStack α), (w.map f).push (q.map f) = (w.push q).map f := by
    intro q w
    have hempty : (q.map f).isEmpty = q.isEmpty := by
      simp [WorkQueue.isEmpty, WorkQueue.size, WorkQueue.map]
    simp only [push, hempty, depth_map]
    split
    · rfl
    · rfl
  rw [pushItems, hcreate, pushItems]
  dsimp only
  rw [happend, hpush]

theorem foldl_pushItems_map (f : α → β) (queues : List (List α)) (w : WorkStack α) :
    (queues.map (List.map f)).foldl pushItems (w.map f) = (queues.foldl pushItems w).map f := by
  induction queues generalizing w with
  | nil => rfl
  | cons items rest ih => rw [List.map_cons, List.foldl_cons, pushItems_map, ih, List.foldl_cons]

theorem next_map (f : α → β) (w : WorkStack α) :
    (w.map f).next = (w.next.1.map f, w.next.2.map f) := by
  have htake : ∀ queues spares : List (WorkQueue α),
      takeNext (queues.map (WorkQueue.map f)) (spares.map (WorkQueue.map f)) =
        ((takeNext queues spares).1.map f, (takeNext queues spares).2.1.map (WorkQueue.map f),
          (takeNext queues spares).2.2.map (WorkQueue.map f)) := by
    intro queues
    induction queues with
    | nil => exact fun spares => rfl
    | cons q rest ih =>
      intro spares
      obtain ⟨taken, remaining⟩ := q
      cases remaining with
      | nil => exact ih (WorkQueue.empty :: spares)
      | cons a more => rfl
  obtain ⟨queues, spares, stats⟩ := w
  simp only [next, map, htake]

/-- Counterparts of items that do not wait do not matter. -/
theorem map_congr (hclean : w.Clean) (h : ∀ a ∈ w.pending, f a = g a) : w.map f = w.map g := by
  have hqueue : ∀ q : WorkQueue α, (∀ a ∈ q.remaining, f a = g a) → q.map f = q.map g := by
    intro q hq
    exact congrArg (WorkQueue.mk q.taken) (List.map_congr_left hq)
  have hqueues : w.queues.map (WorkQueue.map f) = w.queues.map (WorkQueue.map g) := by
    refine List.map_congr_left fun q hq => hqueue q fun a ha => h a ?_
    exact List.mem_flatMap.mpr ⟨q, hq, ha⟩
  have hspares : w.spares.map (WorkQueue.map f) = w.spares.map (WorkQueue.map g) := by
    refine List.map_congr_left fun q hq => hqueue q fun a ha => ?_
    simp [hclean q hq] at ha
  simp only [map, hqueues, hspares]

/-- Walks of which each step keeps `R`, a relation of the states and of what waits under a renaming of
items, end together.  `Q` is what is known of the first walk at each of its points. -/
theorem run_lockstep (act₁ : σ → α → σ × List (List α)) (act₂ : τ → β → τ × List (List β))
    (Q : σ → α → Prop) (R : (α → β) → σ → τ → List α → Prop)
    (hstep : ∀ f s₁ s₂ a waiting, R f s₁ s₂ (a :: waiting) → Q s₁ a → ∃ f',
      (∀ b ∈ waiting, f' b = f b) ∧ (act₂ s₂ (f a)).2 = (act₁ s₁ a).2.map (List.map f') ∧
        R f' (act₁ s₁ a).1 (act₂ s₂ (f a)).1 ((act₁ s₁ a).2.reverse.flatten ++ waiting))
    (fuel : Nat) {s₁ : σ} {s₂ : τ} (hclean : w.Clean) (hR : R f s₁ s₂ w.pending)
    (hQ : ∀ log w' s', Reaches (fun s a _ => act₁ s a) w s₁ log w' s' →
      ∀ a ∈ w'.next.1, Q s' a) :
    (run (fun s a _ => act₁ s a) fuel w s₁ = none ∧
        run (fun s a _ => act₂ s a) fuel (w.map f) s₂ = none) ∨
      ∃ (f' : α → β) (s₁' : σ) (s₂' : τ) (stats : WalkStats) (w' : WorkStack α),
        run (fun s a _ => act₁ s a) fuel w s₁ = some (s₁', stats, w') ∧
        run (fun s a _ => act₂ s a) fuel (w.map f) s₂ = some (s₂', stats, w'.map f') ∧
        R f' s₁' s₂' [] := by
  induction fuel generalizing f w s₁ s₂ with
  | zero =>
    rw [run.eq_def, run.eq_def]
    dsimp only
    rw [next_map]
    rcases hnext : w.next with ⟨_ | a, w₁⟩
    · rw [pending_of_next_none hclean (by rw [hnext])] at hR
      exact Or.inr ⟨f, s₁, s₂, w₁.stats, { w₁ with stats := ⟨0, 0⟩ }, rfl, rfl, hR⟩
    · exact Or.inl ⟨rfl, rfl⟩
  | succ fuel ih =>
    rw [run.eq_def, run.eq_def]
    dsimp only
    rw [next_map]
    rcases hnext : w.next with ⟨_ | a, w₁⟩
    · rw [pending_of_next_none hclean (by rw [hnext])] at hR
      exact Or.inr ⟨f, s₁, s₂, w₁.stats, { w₁ with stats := ⟨0, 0⟩ }, rfl, rfl, hR⟩
    · obtain ⟨hpending, hclean₁⟩ := pending_of_next hclean hnext
      rw [hpending] at hR
      obtain ⟨f', hf', hpushed, hR'⟩ := hstep f s₁ s₂ a w₁.pending hR
        (hQ [] w s₁ .start a (by rw [hnext]; rfl))
      obtain ⟨hpending', hclean'⟩ := foldl_pushItems_spec (act₁ s₁ a).2 w₁.countItem hclean₁
      have hsame : w₁.countItem.map f = w₁.countItem.map f' :=
        map_congr hclean₁ fun b hb => (hf' b hb).symm
      simp only [Option.map_some, countItem_map]
      rw [hpushed, hsame, foldl_pushItems_map]
      refine ih hclean' ?_ fun log w' s' hreaches => hQ ((s₁, a) :: log) w' s' (.head hnext hreaches)
      rw [hpending']
      exact hR'

end WorkStack

end TreeTemplate
