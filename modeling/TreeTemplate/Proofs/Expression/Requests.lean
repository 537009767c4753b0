import Mathlib.Data.Finset.Card
import Mathlib.Data.List.Pairwise
import TreeTemplate.Proofs.Expression.Caching

/-!
What a compiler answers to requests of any kind, over any sequence of them
(`Compiler.History.after_transparent`).  Nothing shows of the cache but that evaluators are shared: each
of them is what its source parses to, and two are the same one just if it was remembered for both.
-/

namespace TreeTemplate

/-- Whether the policy has what the source compiles to remembered. -/
def FailurePolicy.keeps (policy : FailurePolicy) (source : String) : Bool :=
  (parse source).toOption.isSome || policy = .cacheFailure

namespace Compiler

variable {policy : FailurePolicy} {source : String}

inductive Request
  | compile (source : String)
  | list (source : String)
  | sequence (source : String)
  | clear

namespace Request

def sources : Request → List String
  | compile source => [source]
  | list source => (labelledSources source).map Prod.snd
  | sequence source => splitSequence source
  | clear => []

/-- The evaluators that are returned, and the compiler after that. -/
def serve (c : Compiler) : Request → List Evaluator × Compiler
  | compile source => ([(c.compile source).1], (c.compile source).2)
  | list source => ((c.compileList source).1.map Prod.snd, (c.compileList source).2)
  | sequence source => c.compileSequence source
  | clear => ([], c.clear)

/-- Every request but `clear` has its expressions compiled one after another. -/
theorem serve_eq (c : Compiler) {r : Request} (hr : r ≠ clear) : r.serve c = c.compileAll r.sources := by
  cases r with
  | compile source => rfl
  | list source => exact c.compileList_snd source
  | sequence source => rfl
  | clear => exact absurd rfl hr

end Request

/-- A compiler with the evaluators that it has returned, each with the number of times that the
compiler was cleared before. -/
structure History where
  compiler : Compiler
  cleared : Nat
  answers : List (Nat × Evaluator)

namespace History

variable {s : History} {r : Request} {e : Evaluator} {a b : Nat × Evaluator}

def start (policy : FailurePolicy) : History :=
  ⟨new policy, 0, []⟩

def serve (s : History) (r : Request) : History :=
  let (es, c) := r.serve s.compiler
  ⟨c, match r with
    | .clear => s.cleared + 1
    | _ => s.cleared, s.answers ++ es.map fun e => (s.cleared, e)⟩

def after (policy : FailurePolicy) (requests : List Request) : History :=
  requests.foldl serve (start policy)

/-- The sources of the evaluators that were returned. -/
def sources (s : History) : List String :=
  s.answers.map fun a => a.2.source

/-- The evaluators returned since the compiler was last cleared. -/
def recent (s : History) : List Evaluator :=
  (s.answers.filter fun a => a.1 == s.cleared).map Prod.snd

theorem mem_recent : e ∈ s.recent ↔ (s.cleared, e) ∈ s.answers := by
  simp [recent, and_comm]

/-- The evaluators are the same one just if it was remembered for both of them. -/
def Sharing (policy : FailurePolicy) (a b : Nat × Evaluator) : Prop :=
  a.2.serial = b.2.serial ↔ a.1 = b.1 ∧ a.2.source = b.2.source ∧ policy.keeps a.2.source = true

instance : Std.Symm (Sharing policy) where
  symm a b h := by
    rw [Sharing, eq_comm]
    refine h.trans ⟨?_, ?_⟩ <;> rintro ⟨hcleared, hsource, hkeeps⟩
    · exact ⟨hcleared.symm, hsource.symm, hsource ▸ hkeeps⟩
    · exact ⟨hcleared.symm, hsource.symm, hsource ▸ hkeeps⟩

theorem Sharing.refl (h : policy.keeps a.2.source = true) : Sharing policy a a :=
  ⟨fun _ => ⟨rfl, rfl, h⟩, fun _ => rfl⟩

/-- What the compiler has returned, what it remembers and what it counts agree. -/
structure Accounted (policy : FailurePolicy) (s : History) : Prop where
  policy_eq : s.compiler.policy = policy
  genuine : ∀ a ∈ s.answers, a.2.plain = evaluator a.2.source 0
  past : ∀ a ∈ s.answers, a.1 ≤ s.cleared ∧ a.2.serial < s.compiler.next
  cached : ∀ source e, Dict.get? s.compiler.cache source = some e ↔
    e ∈ s.recent ∧ e.source = source ∧ policy.keeps source = true
  keys_nodup : (Dict.keys s.compiler.cache).Nodup
  counted : s.compiler.hits + s.compiler.misses = s.recent.length
  sharing : s.answers.Pairwise (Sharing policy)

theorem start_accounted (policy : FailurePolicy) : (start policy).Accounted policy where
  policy_eq := rfl
  genuine := by simp [start]
  past := by simp [start]
  cached := by simp [start, new, recent, Dict.get?]
  keys_nodup := List.nodup_nil
  counted := rfl
  sharing := .nil

/-! ### One expression -/

/-- The compiler becomes `c` and returns one more evaluator. -/
def note (s : History) (c : Compiler) (e : Evaluator) : History :=
  ⟨c, s.cleared, s.answers ++ [(s.cleared, e)]⟩

theorem recent_note (s : History) (c : Compiler) (e : Evaluator) :
    (s.note c e).recent = s.recent ++ [e] := by
  simp [recent, note]

/-- The accounts stay in order when the compiler remembers at most what it returns and counts that. -/
theorem Accounted.noted {c : Compiler} (h : s.Accounted policy)
    (hpolicy : c.policy = s.compiler.policy) (hnext : s.compiler.next ≤ c.next)
    (hgenuine : e.plain = evaluator e.source 0) (hserial : e.serial < c.next)
    (hcached : ∀ source e', Dict.get? c.cache source = some e' ↔
      Dict.get? s.compiler.cache source = some e' ∨
        e' = e ∧ e'.source = source ∧ policy.keeps source = true)
    (hnodup : (Dict.keys c.cache).Nodup)
    (hcounted : c.hits + c.misses = s.compiler.hits + s.compiler.misses + 1)
    (hsharing : ∀ a ∈ s.answers, Sharing policy a (s.cleared, e)) : (s.note c e).Accounted policy := by
  have hmem : ∀ a, a ∈ (s.note c e).answers ↔ a ∈ s.answers ∨ a = (s.cleared, e) := by
    simp [note]
  constructor
  · exact hpolicy.trans h.policy_eq
  · intro a ha
    rcases (hmem a).mp ha with ha | rfl
    · exact h.genuine a ha
    · exact hgenuine
  · intro a ha
    rcases (hmem a).mp ha with ha | rfl
    · exact ⟨(h.past a ha).1, (h.past a ha).2.trans_le hnext⟩
    · exact ⟨Nat.le_refl s.cleared, hserial⟩
  · intro source e'
    rw [recent_note, List.mem_append, List.mem_singleton, or_and_right, ← h.cached source e']
    exact hcached source e'
  · exact hnodup
  · rw [recent_note, List.length_append, List.length_singleton, ← h.counted]
    exact hcounted
  · refine List.pairwise_append.mpr ⟨h.sharing, List.pairwise_singleton _ _, fun a ha b hb => ?_⟩
    rw [List.mem_singleton.mp hb]
    exact hsharing a ha

/-- What was remembered is returned again. -/
theorem Accounted.hit (h : s.Accounted policy) (he : Dict.get? s.compiler.cache source = some e) :
    (s.note { s.compiler with hits := s.compiler.hits + 1 } e).Accounted policy := by
  obtain ⟨hrecent, rfl, hkeeps⟩ := (h.cached source e).mp he
  have hmem : (s.cleared, e) ∈ s.answers := mem_recent.mp hrecent
  refine h.noted rfl (Nat.le_refl _) (h.genuine _ hmem) (h.past _ hmem).2 (fun other e' => ?_)
    h.keys_nodup (Nat.succ_add _ _) fun a ha => ?_
  · rw [or_iff_left_of_imp]
    rintro ⟨rfl, rfl, -⟩
    exact he
  · by_cases hae : a = (s.cleared, e)
    · rw [hae]
      exact .refl hkeeps
    · exact h.sharing.forall ha hmem hae

/-- What was not remembered is compiled, and remembered if the policy keeps it. -/
theorem Accounted.miss (h : s.Accounted policy) (hnone : Dict.get? s.compiler.cache source = none) :
    (s.note { s.compiler with
      misses := s.compiler.misses + 1
      next := s.compiler.next + 1
      cache := if policy.keeps source then
          Dict.put s.compiler.cache source (evaluator source s.compiler.next)
        else s.compiler.cache } (evaluator source s.compiler.next)).Accounted policy := by
  refine h.noted rfl (Nat.le_succ _) rfl (Nat.lt_succ_self _) (fun other e' => ?_) ?_
    (Nat.add_assoc _ _ 1) fun a ha => ?_
  · dsimp only
    split
    · next hkeeps =>
      rw [Dict.get?_put]
      split
      · next heq =>
        subst heq
        rw [hnone]
        constructor
        · intro he'
          obtain rfl := Option.some.inj he'
          exact Or.inr ⟨rfl, rfl, hkeeps⟩
        · rintro (he' | ⟨rfl, -, -⟩)
          · cases he'
          · rfl
      · next hne =>
        rw [or_iff_left]
        rintro ⟨rfl, hsource, -⟩
        exact hne hsource.symm
    · next hkeeps =>
      rw [or_iff_left]
      rintro ⟨rfl, rfl, hother⟩
      exact hkeeps hother
  · dsimp only
    split
    · exact Dict.keys_put_nodup h.keys_nodup
    · exact h.keys_nodup
  · constructor
    · intro hserial
      exact absurd hserial (Nat.ne_of_lt (h.past a ha).2)
    · rintro ⟨hcleared, hsource, hkeeps⟩
      dsimp only [evaluator] at hcleared hsource
      have hrecent : a.2 ∈ s.recent := mem_recent.mpr (hcleared ▸ ha)
      have hcached := (h.cached source a.2).mpr ⟨hrecent, hsource, hsource ▸ hkeeps⟩
      rw [hnone] at hcached
      cases hcached

/-- The compiler compiles one expression. -/
def compile (s : History) (source : String) : History :=
  s.note (s.compiler.compile source).2 (s.compiler.compile source).1

theorem Accounted.compile (h : s.Accounted policy) (source : String) :
    (s.compile source).Accounted policy ∧ (s.compile source).sources = s.sources ++ [source] := by
  rw [History.compile, Compiler.compile]
  cases hget : Dict.get? s.compiler.cache source with
  | some e =>
    refine ⟨h.hit hget, ?_⟩
    obtain ⟨-, hsource, -⟩ := (h.cached source e).mp hget
    simp [sources, note, hsource]
  | none =>
    refine ⟨?_, ?_⟩
    · have hmiss := h.miss hget
      rw [← h.policy_eq] at hmiss ⊢
      exact hmiss
    · simp [sources, note, evaluator]

/-! ### Requests -/

theorem foldl_compile (s : History) (sources : List String) :
    sources.foldl compile s = ⟨(s.compiler.compileAll sources).2, s.cleared,
      s.answers ++ (s.compiler.compileAll sources).1.map fun e => (s.cleared, e)⟩ := by
  induction sources generalizing s with
  | nil => simp [compileAll]
  | cons source rest ih =>
    rw [List.foldl_cons, ih]
    simp [compile, note, compileAll]

theorem serve_eq_foldl (s : History) (hr : r ≠ .clear) : s.serve r = r.sources.foldl compile s := by
  rw [foldl_compile, ← r.serve_eq s.compiler hr]
  cases r with
  | clear => exact absurd rfl hr
  | _ => rfl

theorem Accounted.foldl_compile (h : s.Accounted policy) (sources : List String) :
    (sources.foldl History.compile s).Accounted policy ∧
      (sources.foldl History.compile s).sources = s.sources ++ sources := by
  induction sources generalizing s with
  | nil => exact ⟨h, (List.append_nil _).symm⟩
  | cons source rest ih =>
    obtain ⟨hone, hsources⟩ := h.compile source
    obtain ⟨hrest, hsources'⟩ := ih hone
    refine ⟨hrest, ?_⟩
    rw [List.foldl_cons, hsources', hsources, List.append_assoc, List.singleton_append]

theorem Accounted.clear (h : s.Accounted policy) : (s.serve .clear).Accounted policy := by
  have hrecent : (s.serve .clear).recent = [] := by
    simp only [recent, History.serve, Request.serve, List.map_nil, List.append_nil, List.map_eq_nil_iff,
      List.filter_eq_nil_iff, beq_iff_eq]
    intro a ha heq
    have hpast := (h.past a ha).1
    omega
  have hanswers : (s.serve .clear).answers = s.answers := by
    simp [History.serve, Request.serve]
  constructor
  · exact h.policy_eq
  · rw [hanswers]
    exact h.genuine
  · rw [hanswers]
    exact fun a ha => ⟨(h.past a ha).1.trans (Nat.le_succ _), (h.past a ha).2⟩
  · intro source e
    rw [hrecent]
    simp [History.serve, Request.serve, Compiler.clear, Dict.get?]
  · exact List.nodup_nil
  · rw [hrecent]
    rfl
  · rw [hanswers]
    exact h.sharing

/-- A request that is served is one that shows among the answers, in its place. -/
theorem Accounted.serve (h : s.Accounted policy) (r : Request) :
    (s.serve r).Accounted policy ∧ (s.serve r).sources = s.sources ++ r.sources := by
  by_cases hr : r = .clear
  · subst hr
    exact ⟨h.clear, by simp [sources, History.serve, Request.serve, Request.sources]⟩
  · rw [serve_eq_foldl s hr]
    exact h.foldl_compile r.sources

theorem Accounted.foldl_serve (h : s.Accounted policy) (requests : List Request) :
    (requests.foldl History.serve s).Accounted policy ∧
      (requests.foldl History.serve s).sources = s.sources ++ requests.flatMap Request.sources := by
  induction requests generalizing s with
  | nil => exact ⟨h, (List.append_nil _).symm⟩
  | cons r rest ih =>
    obtain ⟨hone, hsources⟩ := h.serve r
    obtain ⟨hrest, hsources'⟩ := ih hone
    refine ⟨hrest, ?_⟩
    rw [List.foldl_cons, hsources', hsources, List.flatMap_cons, List.append_assoc]

/-! ### Transparency -/

/-- The sources for which an evaluator was returned since the compiler was last cleared and the policy
has it remembered. -/
def remembered (policy : FailurePolicy) (s : History) : Finset String :=
  ((s.recent.map Evaluator.source).filter policy.keeps).toFinset

theorem Accounted.keys_eq (h : s.Accounted policy) :
    (Dict.keys s.compiler.cache).toFinset = s.remembered policy := by
  ext source
  simp only [remembered, List.mem_toFinset, Dict.mem_keys_iff, h.cached, List.mem_filter, List.mem_map]
  constructor
  · rintro ⟨e, hrecent, hsource, hkeeps⟩
    exact ⟨⟨e, hrecent, hsource⟩, hkeeps⟩
  · rintro ⟨⟨e, hrecent, hsource⟩, hkeeps⟩
    exact ⟨e, hrecent, hsource, hkeeps⟩

/-- What shows of the compiler that has served the requests. -/
structure Transparent (policy : FailurePolicy) (requests : List Request) (s : History) : Prop where
  /-- Each evaluator has the source that was asked for. -/
  sources_eq : s.sources = requests.flatMap Request.sources
  isValid_iff : ∀ a ∈ s.answers, a.2.isValid = true ↔ ∃ x, parse a.2.source = .ok x
  expr?_iff : ∀ a ∈ s.answers, ∀ x, a.2.expr? = some x ↔ parse a.2.source = .ok x
  sharing : s.answers.Pairwise (Sharing policy)
  /-- Exactly the sources to be remembered are. -/
  cached : (Dict.keys s.compiler.cache).toFinset = s.remembered policy
  counted : s.compiler.stats.hits + s.compiler.stats.misses = s.recent.length
  entries : s.compiler.stats.entries = (s.remembered policy).card

theorem expr?_eq_some_iff (he : e.plain = evaluator e.source 0) (x : Expr) :
    e.expr? = some x ↔ parse e.source = .ok x := by
  have hexpr : e.expr? = (parse e.source).toOption := congrArg Evaluator.expr? he
  rw [hexpr]
  cases parse e.source <;> simp [Except.toOption]

/-- Whatever a compiler is asked for, each evaluator that it returns holds what its source parses to.
Since the compiler was last cleared, a source has one evaluator if the policy has it remembered and a
new one each time if not; the counts tell how many expressions were compiled and how many sources are
remembered. -/
theorem after_transparent (policy : FailurePolicy) (requests : List Request) :
    (after policy requests).Transparent policy requests := by
  obtain ⟨h, hsources⟩ := (start_accounted policy).foldl_serve requests
  rw [← after] at h hsources
  constructor
  · exact hsources
  · intro a ha
    rw [Evaluator.isValid, Option.isSome_iff_exists]
    simp only [expr?_eq_some_iff (h.genuine a ha)]
  · exact fun a ha => expr?_eq_some_iff (h.genuine a ha)
  · exact h.sharing
  · exact h.keys_eq
  · exact h.counted
  · rw [← h.keys_eq, List.toFinset_card_of_nodup h.keys_nodup, Dict.keys, List.length_map]
    rfl

example : (after .retry [.list "a=x | b= +", .clear, .sequence "x; +; x; +"]).compiler.stats =
    ⟨1, 3, 1⟩ := by
  decide +kernel

end History

end Compiler

end TreeTemplate
