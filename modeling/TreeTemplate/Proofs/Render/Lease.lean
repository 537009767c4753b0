import TreeTemplate.Proofs.Render.Visit

/-!
Contexts on lease.  The steps of a render name their contexts by slots, and slots are used again; so
a step that waits is noted with the time at which its context was opened (`Lease`), and a ledger keeps
these notes in order.  What one step does to the pool is said once (`Stage.act_stepped`).  From it
follows what holds at every point of a render (`Books`): a step that waits finds the context that it
was made for, and a context that a step opened is released once, after everything done in it.
-/

namespace TreeTemplate

def Step.context : Step → ContextId
  | place id _ => id
  | fill id _ => id
  | release id => id

/-! ### One step -/

namespace Job

variable {jobs : List Job} {st : Step}

theorem context_mem (hst : st ∈ jobs.flatMap Job.steps) : st.context ∈ jobs.map Job.id := by
  obtain ⟨j, hj, hst⟩ := List.mem_flatMap.mp hst
  have hid : st.context = j.id := by
    rcases List.mem_cons.mp hst with rfl | hst
    · rfl
    · obtain rfl := List.mem_singleton.mp hst
      rfl
  exact hid ▸ List.mem_map_of_mem hj

/-- The release of a context comes after all that is done in it. -/
theorem steps_ordered (hnodup : (jobs.map Job.id).Nodup) :
    (jobs.flatMap Job.steps).Pairwise fun a b => a ≠ .release b.context := by
  induction jobs with
  | nil => simp
  | cons j jobs ih =>
    rw [List.map_cons, List.nodup_cons] at hnodup
    have hlater : ∀ st ∈ jobs.flatMap Job.steps, Step.release j.id ≠ .release st.context := by
      rintro st hst heq
      have hid : j.id = st.context := Step.release.inj heq
      exact hnodup.1 (hid ▸ context_mem hst)
    rw [List.flatMap_cons, List.pairwise_append]
    refine ⟨by simp [Job.steps], ih hnodup.2, fun a ha b hb => ?_⟩
    rcases List.mem_cons.mp ha with rfl | ha
    · simp
    · rw [List.mem_singleton.mp ha]
      exact hlater b hb

end Job

namespace Pool

variable {p p' p₁ : Pool} {st : Step} {pushed : List Step} {id : ContextId}
  {c : Context} {jobs : List Job}

/-- What the step `st` does to a pool: `p` becomes `p'`.  The steps pushed are about the context of
`st`, which they do not release, or about contexts that it opened; these are released in the end. -/
structure Stepped (st : Step) (p p' : Pool) (pushed : List Step) : Prop where
  sound : p'.Sound
  kept : st ≠ .release st.context → p'.get? st.context ≠ none
  released : st = .release st.context → p'.get? st.context = none ∧ pushed = []
  frame : ∀ x, x ≠ st.context → p.get? x ≠ none → p'.get? x = p.get? x
  live : ∀ st' ∈ pushed, p'.get? st'.context ≠ none
  fresh : ∀ st' ∈ pushed, st'.context ≠ st.context → p.get? st'.context = none
  keeps : .release st.context ∉ pushed
  opened : ∀ x, p.get? x = none → p'.get? x ≠ none → .release x ∈ pushed
  ordered : pushed.Pairwise fun a b => a ≠ .release b.context

namespace Stepped

/-- A context is released. -/
theorem of_release (hs : p.Sound) (hc : p.get? id = some c) :
    Stepped (.release id) p (p.recycle id) [] := by
  have hget := get?_recycle hc
  constructor
  · exact hs.recycle hc
  · exact fun h => absurd rfl h
  · exact fun _ => ⟨by rw [hget]; exact if_pos rfl, rfl⟩
  · intro x hx _
    rw [hget]
    exact if_neg hx
  · simp
  · simp
  · simp
  · intro x hnone hsome
    rw [hget, hnone, ite_self] at hsome
    exact absurd rfl hsome
  · exact .nil

/-- Nodes are to be placed in the context of the step. -/
theorem of_turned (hst : st ≠ .release st.context) (hc : p.get? st.context ≠ none)
    (ht : Turned (fun _ => True) p p' st.context c) (nodes : List Handle) :
    Stepped st p p' (nodes.map (.place st.context)) := by
  have hlive : p'.get? st.context ≠ none := by simp [ht.get?_self]
  constructor
  · exact ht.sound
  · exact fun _ => hlive
  · exact fun h => absurd h hst
  · exact fun x hx _ => ht.get?_of_ne hx
  · intro st' hst'
    obtain ⟨x, -, rfl⟩ := List.mem_map.mp hst'
    exact hlive
  · intro st' hst' hne
    obtain ⟨x, -, rfl⟩ := List.mem_map.mp hst'
    exact absurd rfl hne
  · simp
  · intro x hnone hsome
    by_cases hx : x = st.context
    · exact absurd (hx ▸ hnone) hc
    · rw [ht.get?_of_ne hx] at hsome
      exact absurd hnone hsome
  · rw [List.pairwise_map]
    exact List.pairwise_of_forall fun _ _ => by simp

/-- Contexts are opened for jobs, which come next. -/
theorem of_supplied (hst : st ≠ .release st.context) (hc : p.get? st.context ≠ none)
    (ht : Turned (fun _ => True) p p₁ st.context c) (hj : Supplied (fun _ => True) p₁ p' jobs) :
    Stepped st p p' (jobs.flatMap Job.steps) := by
  have hown : st.context ∉ jobs.map Job.id := hj.not_mem ht.get?_self
  constructor
  · exact hj.sound
  · intro _
    rw [hj.frame _ hown, ht.get?_self]
    simp
  · exact fun h => absurd h hst
  · intro x hx hlive
    have hold : x ∉ jobs.map Job.id := by
      intro hmem
      obtain ⟨j, hjob, rfl⟩ := List.mem_map.mp hmem
      exact hlive ((ht.get?_of_ne hx).symm.trans (hj.fresh j hjob))
    rw [hj.frame x hold, ht.get?_of_ne hx]
  · intro st' hst'
    obtain ⟨j, hjob, hid⟩ := List.mem_map.mp (Job.context_mem hst')
    rw [← hid, hj.live j hjob]
    simp
  · intro st' hst' hne
    obtain ⟨j, hjob, hid⟩ := List.mem_map.mp (Job.context_mem hst')
    rw [← ht.get?_of_ne hne, ← hid, hj.fresh j hjob]
  · intro hmem
    have hid : (Step.release st.context).context ∈ jobs.map Job.id := Job.context_mem hmem
    exact hown hid
  · intro x hnone hsome
    have hx : x ≠ st.context := by
      rintro rfl
      exact hc hnone
    have hmem : x ∈ jobs.map Job.id := by
      by_contra hmem
      rw [hj.frame x hmem, ht.get?_of_ne hx] at hsome
      exact hsome hnone
    obtain ⟨j, hjob, rfl⟩ := List.mem_map.mp hmem
    exact List.mem_flatMap.mpr ⟨j, hjob, by simp [Job.steps]⟩
  · exact Job.steps_ordered hj.nodup

end Stepped

end Pool

namespace Stage

open Pool (Turned Supplied Stepped)

variable {plan : Plan} {s s' : Stage} {id : ContextId} {c : Context} {node : Handle}

theorem bindingsOf_pool (s : Stage) (node : Handle) : (s.bindingsOf node).2.pool = s.pool := by
  unfold bindingsOf
  generalize s.toScan.lookup node = r
  rfl

theorem execute?_turned {e : Evaluator} {v : Value} (hs : s.pool.Sound)
    (he : s.execute? id e = some (v, s')) : ∃ c, Turned (fun _ => True) s.pool s'.pool id c := by
  obtain ⟨c, hc, heq⟩ := Option.map_eq_some_iff.mp he
  obtain ⟨-, rfl⟩ := Prod.mk.inj heq
  exact ⟨_, .put hs hc (c.execute e).2⟩

theorem reference?_turned {i : Inclusion} {reference : String} (hs : s.pool.Sound)
    (hc : s.pool.get? id = some c) (hr : s.reference? id i = some (reference, s')) :
    ∃ c, Turned (fun _ => True) s.pool s'.pool id c := by
  cases i with
  | literal name =>
    obtain ⟨-, rfl⟩ := Prod.mk.inj (Option.some.inj hr)
    exact ⟨c, .refl hs hc⟩
  | computed e =>
    obtain ⟨⟨v, s₁⟩, he, heq⟩ := Option.map_eq_some_iff.mp hr
    obtain ⟨-, rfl⟩ := Prod.mk.inj heq
    exact execute?_turned hs he

/-- Templates do not use contexts. -/
theorem resolveTemplate_pool (plan : Plan) (s : Stage) (reference : String) :
    (s.resolveTemplate plan reference).2.pool = s.pool := by
  have hresolved := resolveTemplate_resolution plan s reference
  generalize s.resolveTemplate plan reference = r at hresolved ⊢
  cases hresolved with
  | missing _ _ hpool | copied _ _ hpool => exact hpool

theorem transclude_pool (plan : Plan) (s : Stage) (id : ContextId) (node : Handle)
    (reference : String) :
    (s.transclude plan id node reference).1.pool = s.pool ∧
      ∃ nodes : List Handle, (s.transclude plan id node reference).2.reverse.flatten =
        nodes.map (Step.place id) := by
  have hpool := resolveTemplate_pool plan s reference
  unfold transclude
  generalize s.resolveTemplate plan reference = r at hpool ⊢
  obtain ⟨copy?, s₁⟩ := r
  cases copy? with
  | none => exact ⟨hpool, [], rfl⟩
  | some copy => exact ⟨hpool, [copy], rfl⟩

theorem queueItems_supplied (hs : s.pool.Sound) (hc : s.pool.get? id = some c) (count index : Nat)
    (nodes : List Handle) (items : List Value) :
    ∃ jobs, (s.queueItems id count index nodes items).2.reverse.flatten = jobs.flatMap Job.steps ∧
      Supplied (fun _ => True) s.pool (s.queueItems id count index nodes items).1.pool jobs := by
  obtain ⟨jobs, hsteps, -, -, hsupplied⟩ := schedule_spec hs hc count index nodes items
  exact ⟨jobs, by simpa [queueItems] using hsteps, hsupplied⟩

/-- Selecting a value opens contexts for jobs. -/
theorem select_supplied (hs : s.pool.Sound) (hc : s.pool.get? id = some c) (node : Handle)
    (v : Value) :
    ∃ jobs, (s.select id node v).2.reverse.flatten = jobs.flatMap Job.steps ∧
      Supplied (fun _ => True) s.pool (s.select id node v).1.pool jobs := by
  cases v with
  | null => exact ⟨[], rfl, .nil hs⟩
  | array items => exact queueItems_supplied (s := { s with document := _ }) hs hc _ _ _ _
  | bool _ | number _ | string _ | object _ =>
    exact queueItems_supplied (s := s.edit _) hs hc _ _ _ _

/-- Filling a node changes its context alone. -/
theorem fillNode_turned (hs : s.pool.Sound) (hc : s.pool.get? id = some c) (plan : Plan)
    (node : Handle) :
    (∃ c', Turned (fun _ => True) s.pool (s.fillNode plan id node).1.pool id c') ∧
      ∃ nodes : List Handle,
        (s.fillNode plan id node).2.reverse.flatten = nodes.map (Step.place id) := by
  unfold fillNode
  have hpool := s.bindingsOf_pool node
  generalize s.bindingsOf node = b at hpool ⊢
  obtain ⟨set, s₁⟩ := b
  dsimp only at hpool ⊢
  rw [hpool, hc]
  dsimp only
  generalize Filling.fill set node _ = filled
  obtain ⟨descends, f⟩ := filled
  cases descends with
  | false => exact ⟨⟨_, .put hs hc f.context⟩, [], rfl⟩
  | true => exact ⟨⟨_, .put hs hc f.context⟩, f.document.elementChildren node, by simp⟩

/-- Placing a node uses its context and opens others for jobs. -/
theorem placeNode_stepped (hs : s.pool.Sound) (hc : s.pool.get? id = some c) (plan : Plan)
    (node : Handle) :
    Stepped (.place id node) s.pool (s.placeNode plan id node).1.pool
      (s.placeNode plan id node).2.reverse.flatten := by
  have hst : Step.place id node ≠ .release (Step.place id node).context := by simp
  have hlive : s.pool.get? (Step.place id node).context ≠ none := by
    rw [show (Step.place id node).context = id from rfl, hc]
    simp
  have hplaced := placeNode_placement plan s id node
  rw [← s.bindingsOf_pool node] at hs hc hlive ⊢
  generalize s.placeNode plan id node = r at hplaced ⊢
  cases hplaced with
  | unreferenced _ _ | unvalued _ _ _ => exact .of_turned hst hlive (.refl hs hc) []
  | @included _ reference s₁ _ hreference =>
    obtain ⟨c₁, ht⟩ := reference?_turned hs hc hreference
    obtain ⟨hsame, nodes, hpushed⟩ := transclude_pool plan s₁ id node reference
    rw [hsame, hpushed]
    exact .of_turned hst hlive ht nodes
  | selected _ _ hvalue =>
    obtain ⟨c₁, ht⟩ := execute?_turned hs hvalue
    obtain ⟨jobs, hpushed, hj⟩ := select_supplied ht.sound ht.get?_self node _
    rw [hpushed]
    exact .of_supplied hst hlive ht hj
  | filled _ _ =>
    obtain ⟨⟨c₁, ht⟩, nodes, hpushed⟩ := fillNode_turned hs hc plan node
    rw [hpushed]
    exact .of_turned hst hlive ht nodes

/-- What a step in a live context does to the pool. -/
theorem act_stepped {st : Step} (hs : s.pool.Sound) (hlive : s.pool.get? st.context ≠ none)
    (plan : Plan) :
    Stepped st s.pool (act plan s st).1.pool (act plan s st).2.reverse.flatten := by
  obtain ⟨c, hc⟩ := Option.ne_none_iff_exists'.mp hlive
  cases st with
  | place id node => exact placeNode_stepped hs hc plan node
  | fill id node =>
    have hc : s.pool.get? id = some c := hc
    obtain ⟨⟨c', ht⟩, nodes, hpushed⟩ := fillNode_turned hs hc plan node
    have hact : act plan s (.fill id node) = s.fillNode plan id node := rfl
    rw [hact, hpushed]
    exact .of_turned (by simp) hlive ht nodes
  | release id => exact .of_release hs hc

end Stage

/-! ### Leases -/

/-- A step that waits, or is done, with the time at which the context that it is about was opened: the
number of steps that were done by then, the opening one included.  The context of the render itself is
there from the start. -/
structure Lease where
  step : Step
  since : Nat
  deriving DecidableEq

namespace Lease

def context (l : Lease) : ContextId :=
  l.step.context

/-- The lease of a step that is pushed by the step of `l` at the time `now`: the context of that step
stays on lease, and any other one is new. -/
def renew (l : Lease) (now : Nat) (st : Step) : Lease :=
  ⟨st, if st.context = l.context then l.since else now⟩

end Lease

/-- The leases of the steps that are done and of those that wait, each in their order. -/
structure Ledger where
  done : List Lease
  waiting : List Lease

namespace Ledger

/-- Enter that the first of the waiting steps is done on the stage `s`. -/
def book (plan : Plan) (g : Ledger) (s : Stage) : Ledger :=
  match g.waiting with
  | [] => g
  | l :: rest =>
    ⟨g.done ++ [l],
      (Stage.act plan s l.step).2.reverse.flatten.map (l.renew (g.done.length + 1)) ++ rest⟩

/-- The ledger of a render that began with the step `first` and has the record `log`. -/
def ofLog (plan : Plan) (first : Step) (log : List (Stage × Step)) : Ledger :=
  log.foldl (fun g entry => g.book plan entry.1) ⟨[], [⟨first, 0⟩]⟩

/-- Once the steps that wait are done too, the context `id` that was opened at the time `since` is
released once, and nothing is done in it afterwards. -/
def Closes (g : Ledger) (id : ContextId) (since : Nat) : Prop :=
  ∃ before after, g.done ++ g.waiting = before ++ ⟨.release id, since⟩ :: after ∧
    ⟨.release id, since⟩ ∉ before ∧ ∀ l ∈ after, l.context = id → l.since ≠ since

end Ledger

/-! ### The course of a render -/

namespace Stage

variable {plan : Plan} {s s' : Stage} {log : List (Stage × Step)} {first st : Step} {k : Nat}

/-- The pool at the time `k` of a render that has the record `log` and has come to the stage `s`. -/
def poolAt (log : List (Stage × Step)) (s : Stage) (k : Nat) : Pool :=
  ((log.map fun entry => entry.1.pool)[k]?).getD s.pool

theorem poolAt_length (log : List (Stage × Step)) (s : Stage) : poolAt log s log.length = s.pool := by
  simp [poolAt]

/-- One more step does not change the past. -/
theorem poolAt_concat (st : Step) (s' : Stage) (hk : k ≤ log.length) :
    poolAt (log ++ [(s, st)]) s' k = poolAt log s k := by
  unfold poolAt
  rw [List.map_append]
  rcases Nat.lt_or_eq_of_le hk with hlt | rfl
  · rw [List.getElem?_append_left (by simpa using hlt)]
    have hsome : k < (log.map fun entry => entry.1.pool).length := by simpa using hlt
    rw [List.getElem?_eq_getElem hsome]
    rfl
  · simp

theorem poolAt_concat_length (st : Step) (s' : Stage) :
    poolAt (log ++ [(s, st)]) s' (log.length + 1) = s'.pool := by
  simpa using poolAt_length (log ++ [(s, st)]) s'

/-- A step of the render opens the context `id` at the time `since`. -/
def OpenedAt (log : List (Stage × Step)) (s : Stage) (id : ContextId) (since : Nat) : Prop :=
  ∃ k < log.length, since = k + 1 ∧ (poolAt log s k).get? id = none ∧
    (poolAt log s since).get? id ≠ none

namespace OpenedAt

variable {id : ContextId} {since : Nat}

theorem since_le (h : OpenedAt log s id since) : since ≤ log.length := by
  obtain ⟨k, hk, rfl, -⟩ := h
  exact hk

theorem concat (h : OpenedAt log s id since) (st : Step) (s' : Stage) :
    OpenedAt (log ++ [(s, st)]) s' id since := by
  obtain ⟨k, hk, rfl, hnone, hsome⟩ := h
  refine ⟨k, by simp; omega, rfl, ?_, ?_⟩
  · rwa [poolAt_concat st s' (by omega)]
  · rwa [poolAt_concat st s' (by omega)]

/-- What the last step opens. -/
theorem last (hnone : s.pool.get? id = none) (hsome : s'.pool.get? id ≠ none) (st : Step) :
    OpenedAt (log ++ [(s, st)]) s' id (log.length + 1) := by
  refine ⟨log.length, by simp, rfl, ?_, ?_⟩
  · rwa [poolAt_concat st s' (Nat.le_refl _), poolAt_length]
  · rwa [poolAt_concat_length]

theorem of_concat (h : OpenedAt (log ++ [(s, st)]) s' id since) :
    OpenedAt log s id since ∨
      since = log.length + 1 ∧ s.pool.get? id = none ∧ s'.pool.get? id ≠ none := by
  obtain ⟨k, hk, rfl, hnone, hsome⟩ := h
  rw [List.length_append, List.length_singleton] at hk
  rcases Nat.lt_or_eq_of_le (Nat.le_of_lt_succ hk) with hlt | rfl
  · rw [poolAt_concat st s' (by omega)] at hnone hsome
    exact Or.inl ⟨k, hlt, rfl, hnone, hsome⟩
  · rw [poolAt_concat st s' (by omega), poolAt_length] at hnone
    rw [poolAt_concat_length] at hsome
    exact Or.inr ⟨rfl, hnone, hsome⟩

end OpenedAt

/-- The context of a lease is that of the render, or a step opened it.  Since then it has been live, it
was not released, and only steps that are about it have changed it. -/
structure Held (own : ContextId) (log : List (Stage × Step)) (s : Stage) (l : Lease) : Prop where
  origin : l.since = 0 ∧ l.context = own ∨ OpenedAt log s l.context l.since
  live : ∀ k, l.since ≤ k → k ≤ log.length → (poolAt log s k).get? l.context ≠ none
  kept : ∀ k s' st, l.since ≤ k → log[k]? = some (s', st) → st ≠ .release l.context ∧
    (st.context ≠ l.context → (poolAt log s (k + 1)).get? l.context = s'.pool.get? l.context)

namespace Held

variable {own : ContextId} {l l' : Lease}

theorem since_le (h : Held own log s l) : l.since ≤ log.length := by
  rcases h.origin with ⟨hzero, -⟩ | hopened
  · omega
  · exact hopened.since_le

theorem live_now (h : Held own log s l) : s.pool.get? l.context ≠ none := by
  have hlive := h.live log.length h.since_le (Nat.le_refl _)
  rwa [poolAt_length] at hlive

/-- A context is on lease since one time only. -/
theorem since_unique (h : Held own log s l) (h' : Held own log s l') (heq : l.context = l'.context) :
    l.since = l'.since := by
  have hle : ∀ {l l' : Lease}, Held own log s l → Held own log s l' → l.context = l'.context →
      l'.since ≤ l.since := by
    intro l l' h h' heq
    rcases h'.origin with ⟨hzero, -⟩ | ⟨k, hk, hsince, hnone, -⟩
    · omega
    · by_contra hlt
      exact h.live k (by omega) (by omega) (heq ▸ hnone)
  exact Nat.le_antisymm (hle h' h heq.symm) (hle h h' heq)

/-- The context of the render begins its lease. -/
theorem start (hl : l.since = 0) (hlive : s.pool.get? l.context ≠ none) :
    Held l.context [] s l := by
  constructor
  · exact Or.inl ⟨hl, rfl⟩
  · intro k _ hk
    obtain rfl := Nat.le_zero.mp hk
    exact hlive
  · simp

/-- A lease goes on through a step that does not release its context. -/
theorem concat (h : Held own log s l) (hst : st ≠ .release l.context)
    (hlive : s'.pool.get? l.context ≠ none)
    (hframe : st.context ≠ l.context → s'.pool.get? l.context = s.pool.get? l.context) :
    Held own (log ++ [(s, st)]) s' l := by
  constructor
  · exact h.origin.imp_right fun hopened => hopened.concat st s'
  · intro k hsince hk
    rw [List.length_append, List.length_singleton] at hk
    rcases Nat.lt_or_eq_of_le hk with hlt | rfl
    · rw [poolAt_concat st s' (by omega)]
      exact h.live k hsince (by omega)
    · rwa [poolAt_concat_length]
  · intro k s₁ st₁ hsince hentry
    have hk : k < log.length + 1 := by simpa using (List.getElem?_eq_some_iff.mp hentry).choose
    rcases Nat.lt_or_eq_of_le (Nat.le_of_lt_succ hk) with hlt | rfl
    · rw [List.getElem?_append_left hlt] at hentry
      rw [poolAt_concat st s' (by omega)]
      exact h.kept k s₁ st₁ hsince hentry
    · rw [List.getElem?_concat_length] at hentry
      obtain ⟨rfl, rfl⟩ := Prod.mk.inj (Option.some.inj hentry)
      rw [poolAt_concat_length]
      exact ⟨hst, hframe⟩

/-- A step begins the lease of a context that it opens. -/
theorem begin (hsince : l.since = log.length + 1) (hnone : s.pool.get? l.context = none)
    (hsome : s'.pool.get? l.context ≠ none) (st : Step) : Held own (log ++ [(s, st)]) s' l := by
  constructor
  · rw [hsince]
    exact Or.inr (.last hnone hsome st)
  · intro k hle hk
    rw [List.length_append, List.length_singleton] at hk
    obtain rfl : k = log.length + 1 := by omega
    rwa [poolAt_concat_length]
  · intro k s₁ st₁ hle hentry
    have hk : k < log.length + 1 := by simpa using (List.getElem?_eq_some_iff.mp hentry).choose
    omega

end Held

/-- What holds at every point of a render that began with the pool `p₀`, in the context `own`. -/
structure Books (own : ContextId) (p₀ : Pool) (log : List (Stage × Step)) (s : Stage) (g : Ledger) :
    Prop where
  sound : s.pool.Sound
  steps : g.done.map Lease.step = log.map Prod.snd
  held : ∀ l ∈ g.waiting, Held own log s l
  since_le : ∀ l ∈ g.done ++ g.waiting, l.since ≤ log.length
  /-- The context of the render is not released on the way. -/
  since_ne : ∀ l ∈ g.waiting, l.step = .release l.context → l.since ≠ 0
  /-- Nothing is done in a context that was released. -/
  ordered : (g.done ++ g.waiting).Pairwise fun l l' =>
    l.step = .release l'.context → l'.since ≠ l.since
  /-- Every context that a step opened is released. -/
  entered : ∀ id since, OpenedAt log s id since → ⟨.release id, since⟩ ∈ g.done ++ g.waiting
  /-- The contexts that were live at the start stay. -/
  old : ∀ id, p₀.get? id ≠ none → ∀ k ≤ log.length, (poolAt log s k).get? id ≠ none
  /-- Any other live context waits for its release. -/
  new : ∀ id, s.pool.get? id ≠ none → p₀.get? id ≠ none ∨
    ∃ l ∈ g.waiting, l.step = .release id

namespace Books

open Pool (Stepped)

variable {own : ContextId} {p₀ : Pool} {g : Ledger} {l : Lease} {done rest : List Lease}
  {pushed steps : List Step}

theorem length_done (hb : Books own p₀ log s g) : g.done.length = log.length := by
  simpa using congrArg List.length hb.steps

/-- The books of a render that is about to begin. -/
theorem start (hs : s.pool.Sound) (hlive : s.pool.get? first.context ≠ none)
    (hfirst : first ≠ .release first.context) :
    Books first.context s.pool [] s ⟨[], [⟨first, 0⟩]⟩ := by
  constructor
  · exact hs
  · rfl
  · intro l hl
    obtain rfl := List.mem_singleton.mp hl
    exact Held.start (l := ⟨first, 0⟩) rfl hlive
  · simp
  · intro l hl hstep
    obtain rfl := List.mem_singleton.mp hl
    exact absurd hstep hfirst
  · simp
  · rintro id since ⟨k, hk, -⟩
    simp at hk
  · intro id hid k hk
    obtain rfl := Nat.le_zero.mp hk
    exact hid
  · exact fun id hid => Or.inl hid

/-- A context that a step opened is released once, after everything that is done in it. -/
theorem closes (hb : Books own p₀ log s g) {id : ContextId} {since : Nat}
    (hopened : OpenedAt log s id since) : g.Closes id since := by
  obtain ⟨before, after, hall⟩ := List.append_of_mem (hb.entered id since hopened)
  have hordered := hb.ordered
  rw [hall, List.pairwise_append, List.pairwise_cons] at hordered
  obtain ⟨-, ⟨hafter, -⟩, hbefore⟩ := hordered
  refine ⟨before, after, hall, fun hmem => ?_, fun l hl hcontext => ?_⟩
  · exact hbefore _ hmem _ List.mem_cons_self rfl rfl
  · exact hafter l hl (by rw [← hcontext])

/-- When no step waits, the contexts are live that were live at the start. -/
theorem get?_eq_none_iff (hb : Books own p₀ log s g) (hg : g.waiting = []) (id : ContextId) :
    s.pool.get? id = none ↔ p₀.get? id = none := by
  have hold : p₀.get? id ≠ none → s.pool.get? id ≠ none := by
    intro hid
    have hnow := hb.old id hid log.length (Nat.le_refl _)
    rwa [poolAt_length] at hnow
  have hnew : s.pool.get? id ≠ none → p₀.get? id ≠ none := by
    intro hid
    rcases hb.new id hid with hid | ⟨l, hl, -⟩
    · exact hid
    · simp [hg] at hl
  exact not_iff_not.mp ⟨hnew, hold⟩

/-! #### One more step -/

/-- A step that is pushed is about the context of the step that pushed it, which it does not release,
or about one that was opened. -/
theorem renew_cases {p p' : Pool} (hstep : Stepped l.step p p' pushed) (hst : st ∈ pushed)
    (now : Nat) :
    st.context = l.context ∧ (l.renew now st).since = l.since ∧ st ≠ .release st.context ∨
      p.get? st.context = none ∧ (l.renew now st).since = now := by
  by_cases hown : st.context = l.context
  · refine Or.inl ⟨hown, if_pos hown, fun hrelease => hstep.keeps ?_⟩
    rw [hrelease, hown] at hst
    exact hst
  · exact Or.inr ⟨hstep.fresh st hst hown, if_neg hown⟩

theorem held_next (hb : Books own p₀ log s ⟨done, l :: rest⟩)
    (hstep : Stepped l.step s.pool s'.pool pushed) :
    ∀ l' ∈ pushed.map (l.renew (log.length + 1)) ++ rest,
      Held own (log ++ [(s, l.step)]) s' l' := by
  have hl : Held own log s l := hb.held l List.mem_cons_self
  intro l' hl'
  rcases List.mem_append.mp hl' with hl' | hl'
  · obtain ⟨st, hst, rfl⟩ := List.mem_map.mp hl'
    have hlive := hstep.live st hst
    rcases renew_cases hstep hst (log.length + 1) with ⟨hown, hsince, -⟩ | ⟨hnone, hsince⟩
    · have hkeeps : l.step ≠ .release l.context := by
        intro hrelease
        simp [(hstep.released hrelease).2] at hst
      have hgoes : Held own (log ++ [(s, l.step)]) s' l :=
        hl.concat hkeeps (hown ▸ hlive) fun hne => absurd rfl hne
      obtain ⟨horigin, hlive', hkept⟩ := hgoes
      have hcontext : (l.renew (log.length + 1) st).context = l.context := hown
      constructor
      · rwa [hcontext, hsince]
      · rwa [hcontext, hsince]
      · rwa [hcontext, hsince]
    · exact .begin hsince hnone hlive l.step
  · have hl'held : Held own log s l' := hb.held l' (List.mem_cons_of_mem l hl')
    have hkeeps : l.step ≠ .release l'.context := by
      intro hrelease
      have hcontext : l.context = l'.context := by
        unfold Lease.context
        rw [hrelease]
        rfl
      have hordered := hb.ordered
      rw [List.pairwise_append, List.pairwise_cons] at hordered
      exact hordered.2.1.1 l' hl' hrelease (hl'held.since_unique hl hcontext.symm)
    by_cases hown : l'.context = l.context
    · rw [hown] at hkeeps
      have hlive : s'.pool.get? l.context ≠ none := hstep.kept hkeeps
      rw [← hown] at hkeeps hlive
      exact hl'held.concat hkeeps hlive fun hne => absurd hown.symm hne
    · have hframe := hstep.frame l'.context hown hl'held.live_now
      apply hl'held.concat hkeeps
      · rw [hframe]
        exact hl'held.live_now
      · exact fun _ => hframe

theorem since_le_next (hb : Books own p₀ log s ⟨done, l :: rest⟩)
    (hstep : Stepped l.step s.pool s'.pool pushed) :
    ∀ l' ∈ (done ++ [l]) ++ (pushed.map (l.renew (log.length + 1)) ++ rest),
      l'.since ≤ log.length + 1 := by
  intro l' hl'
  have hold : ∀ l' ∈ done ++ l :: rest, l'.since ≤ log.length + 1 := fun l' hl' =>
    Nat.le_succ_of_le (hb.since_le l' hl')
  simp only [List.mem_append, List.mem_cons, List.not_mem_nil, or_false] at hl' hold
  rcases hl' with (hl' | rfl) | hl' | hl'
  · exact hold l' (Or.inl hl')
  · exact hold l' (Or.inr (Or.inl rfl))
  · obtain ⟨st, hst, rfl⟩ := List.mem_map.mp hl'
    rcases renew_cases hstep hst (log.length + 1) with ⟨-, hsince, -⟩ | ⟨-, hsince⟩
    · rw [hsince]
      exact hold l (Or.inr (Or.inl rfl))
    · exact Nat.le_of_eq hsince
  · exact hold l' (Or.inr (Or.inr hl'))

theorem ordered_next (hb : Books own p₀ log s ⟨done, l :: rest⟩)
    (hstep : Stepped l.step s.pool s'.pool pushed) :
    ((done ++ [l]) ++ (pushed.map (l.renew (log.length + 1)) ++ rest)).Pairwise fun l l' =>
      l.step = .release l'.context → l'.since ≠ l.since := by
  have hordered := hb.ordered
  have hsince_le := hb.since_le
  simp only [List.pairwise_append, List.pairwise_cons] at hordered
  simp only [List.mem_append, List.mem_cons] at hsince_le
  obtain ⟨hdone, ⟨hl, hrest⟩, hacross⟩ := hordered
  have hnew : ∀ l' ∈ pushed.map (l.renew (log.length + 1)),
      l'.context = l.context ∧ l'.since = l.since ∧ l'.step ≠ .release l'.context ∨
        s.pool.get? l'.context = none ∧ l'.since = log.length + 1 := by
    intro l' hl'
    obtain ⟨st, hst, rfl⟩ := List.mem_map.mp hl'
    exact renew_cases hstep hst _
  have hself : ∀ l' ∈ pushed.map (l.renew (log.length + 1)), l.step ≠ .release l.context := by
    intro l' hl' hrelease
    simp [(hstep.released hrelease).2] at hl'
  have hpushed : (pushed.map (l.renew (log.length + 1))).Pairwise fun l l' =>
      l.step = .release l'.context → l'.since ≠ l.since := by
    rw [List.pairwise_map]
    exact hstep.ordered.imp fun hne hrelease => absurd hrelease hne
  have hafter : ∀ b ∈ pushed.map (l.renew (log.length + 1)), ∀ c ∈ rest,
      b.step = .release c.context → c.since ≠ b.since := by
    intro b hb c hc hrelease
    have hcontext : b.context = c.context := by
      unfold Lease.context
      rw [hrelease]
      rfl
    rcases hnew b hb with ⟨-, -, hkeeps⟩ | ⟨-, hsince⟩
    · exact absurd (hcontext ▸ hrelease) hkeeps
    · have hle := hsince_le c (Or.inr (Or.inr hc))
      omega
  have hbefore : ∀ a ∈ done ++ [l], ∀ b ∈ pushed.map (l.renew (log.length + 1)),
      a.step = .release b.context → b.since ≠ a.since := by
    intro a ha b hb hrelease
    rw [List.mem_append, List.mem_singleton] at ha
    rcases hnew b hb with ⟨hcontext, hsince, -⟩ | ⟨-, hsince⟩
    · rw [hcontext] at hrelease
      rw [hsince]
      rcases ha with ha | rfl
      · exact hacross a ha l List.mem_cons_self hrelease
      · exact absurd hrelease (hself b hb)
    · have hle := hsince_le a (ha.imp_right Or.inl)
      omega
  rw [List.pairwise_append, List.pairwise_append, List.pairwise_append]
  refine ⟨⟨hdone, List.pairwise_singleton _ _, ?_⟩, ⟨hpushed, hrest, hafter⟩, ?_⟩
  · intro a ha b hb
    rw [List.mem_singleton.mp hb]
    exact hacross a ha l List.mem_cons_self
  · intro a ha b hb
    rcases List.mem_append.mp hb with hb | hb
    · exact hbefore a ha b hb
    · rcases List.mem_append.mp ha with ha | ha
      · exact hacross a ha b (List.mem_cons_of_mem l hb)
      · rw [List.mem_singleton.mp ha]
        exact hl b hb

theorem entered_next (hb : Books own p₀ log s ⟨done, l :: rest⟩)
    (hstep : Stepped l.step s.pool s'.pool pushed) {id : ContextId} {since : Nat}
    (hopened : OpenedAt (log ++ [(s, l.step)]) s' id since) :
    ⟨.release id, since⟩ ∈
      (done ++ [l]) ++ (pushed.map (l.renew (log.length + 1)) ++ rest) := by
  rcases hopened.of_concat with hopened | ⟨rfl, hnone, hsome⟩
  · have hmem := hb.entered id since hopened
    simp only [List.mem_append, List.mem_cons] at hmem ⊢
    tauto
  · have hpushed := hstep.opened id hnone hsome
    have hne : id ≠ l.context := by
      rintro rfl
      exact (hb.held l List.mem_cons_self).live_now hnone
    have hrenew : l.renew (log.length + 1) (.release id) = ⟨.release id, log.length + 1⟩ :=
      congrArg (Lease.mk (.release id)) (if_neg hne)
    apply List.mem_append_right
    apply List.mem_append_left
    rw [← hrenew]
    exact List.mem_map_of_mem hpushed

theorem old_next (hb : Books own p₀ log s ⟨done, l :: rest⟩)
    (hstep : Stepped l.step s.pool s'.pool pushed) {id : ContextId} (hid : p₀.get? id ≠ none) :
    ∀ k ≤ log.length + 1, (poolAt (log ++ [(s, l.step)]) s' k).get? id ≠ none := by
  intro k hk
  rcases Nat.lt_or_eq_of_le hk with hlt | rfl
  · rw [poolAt_concat l.step s' (by omega)]
    exact hb.old id hid k (by omega)
  · have hnow := hb.old id hid log.length (Nat.le_refl _)
    rw [poolAt_length] at hnow
    rw [poolAt_concat_length]
    by_cases hown : id = l.context
    · subst hown
      apply hstep.kept
      intro hrelease
      rcases (hb.held l List.mem_cons_self).origin with ⟨hzero, -⟩ | ⟨k, hk, -, hnone, -⟩
      · exact hb.since_ne l List.mem_cons_self hrelease hzero
      · exact hb.old l.context hid k (Nat.le_of_lt hk) hnone
    · rwa [hstep.frame id hown hnow]

theorem new_next (hb : Books own p₀ log s ⟨done, l :: rest⟩)
    (hstep : Stepped l.step s.pool s'.pool pushed) {id : ContextId} (hid : s'.pool.get? id ≠ none) :
    p₀.get? id ≠ none ∨
      ∃ l' ∈ pushed.map (l.renew (log.length + 1)) ++ rest, l'.step = .release id := by
  by_cases hnone : s.pool.get? id = none
  · have hpushed := hstep.opened id hnone hid
    exact Or.inr ⟨_, List.mem_append_left _ (List.mem_map_of_mem hpushed), rfl⟩
  · refine (hb.new id hnone).imp_right ?_
    rintro ⟨l', hl', hrelease⟩
    rcases List.mem_cons.mp hl' with rfl | hl'
    · have hcontext : l'.step.context = id := by
        rw [hrelease]
        rfl
      rw [← hcontext] at hrelease hid
      exact absurd (hstep.released hrelease).1 hid
    · exact ⟨l', List.mem_append_right _ hl', hrelease⟩

/-- Doing the first of the steps that wait keeps the books. -/
theorem next (hb : Books own p₀ log s ⟨done, l :: rest⟩)
    (hstep : Stepped l.step s.pool s'.pool pushed) :
    Books own p₀ (log ++ [(s, l.step)]) s'
      ⟨done ++ [l], pushed.map (l.renew (log.length + 1)) ++ rest⟩ := by
  have hlength : (log ++ [(s, l.step)]).length = log.length + 1 := by simp
  constructor
  · exact hstep.sound
  · rw [List.map_append, List.map_append, hb.steps]
    rfl
  · exact hb.held_next hstep
  · rw [hlength]
    exact hb.since_le_next hstep
  · intro l' hl' hrelease
    rcases List.mem_append.mp hl' with hl' | hl'
    · obtain ⟨st, hst, rfl⟩ := List.mem_map.mp hl'
      rcases renew_cases hstep hst (log.length + 1) with ⟨-, -, hkeeps⟩ | ⟨-, hsince⟩
      · exact absurd hrelease hkeeps
      · omega
    · exact hb.since_ne l' (List.mem_cons_of_mem l hl') hrelease
  · exact hb.ordered_next hstep
  · intro id since hopened
    exact hb.entered_next hstep hopened
  · rw [hlength]
    intro id hid
    exact hb.old_next hstep hid
  · intro id hid
    exact hb.new_next hstep hid

/-- The ledger is kept along with the record. -/
theorem book (hb : Books own p₀ log s g) (hg : g.waiting.map Lease.step = st :: steps)
    (plan : Plan) :
    Books own p₀ (log ++ [(s, st)]) (act plan s st).1 (g.book plan s) ∧
      (g.book plan s).waiting.map Lease.step = (act plan s st).2.reverse.flatten ++ steps := by
  obtain ⟨done, waiting⟩ := g
  cases waiting with
  | nil => simp at hg
  | cons l rest =>
    obtain ⟨rfl, rfl⟩ := List.cons.inj hg
    have hlive := (hb.held l List.mem_cons_self).live_now
    have hnext := hb.next (act_stepped hb.sound hlive plan)
    have hlength : done.length = log.length := hb.length_done
    rw [← hlength] at hnext
    refine ⟨hnext, ?_⟩
    rw [Ledger.book, List.map_append, List.map_map]
    exact congrArg (· ++ rest.map Lease.step) (List.map_id _)

end Books

end Stage

end TreeTemplate
