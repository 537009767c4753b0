import Mathlib.Logic.Function.Basic
import TreeTemplate.Proofs.Context.Pool

/-!
Pools that hold the same contexts under different handles (`Pool.Mirrors`).  What is done to one of them
under a handle and to the other under the counterpart leaves them so: new contexts are set up alike,
whatever they are made from, as long as all of them know the same functions (`Pool.Knows`).
-/

namespace TreeTemplate.Pool

variable {p q p' q' : Pool} {ρ : ContextId → ContextId} {x y id id' parent : ContextId}
  {c k : Context} {F : Registry}

/-! ### Functions -/

/-- All contexts of the pool know the functions `F`, and so will new ones. -/
structure Knows (p : Pool) (F : Registry) : Prop where
  functions_eq : p.functions = F
  uniform : p.Uniform (· = F)
  live : ∀ x c, p.get? x = some c → c.functions = F

theorem new_knows (F : Registry) (pooling : Bool) : (new F pooling).Knows F :=
  ⟨rfl, by simp [Uniform, new], by simp [get?, new]⟩

theorem Knows.opened (hp : p.Knows F) (ho : Opened p id c p') (hc : c.functions = F) :
    p'.Knows F := by
  refine ⟨ho.functions_eq.trans hp.functions_eq, ho.uniform _ hp.uniform, fun x k hk => ?_⟩
  rw [ho.get?_eq] at hk
  split at hk
  · obtain rfl := Option.some.inj hk
    exact hc
  · exact hp.live x k hk

theorem Knows.put (hp : p.Knows F) (hk : p.get? id = some k) (hc : c.functions = F) :
    (p.put id c).Knows F := by
  refine ⟨(functions_put p id c).trans hp.functions_eq, fun k hk => ?_, fun x k' hk' => ?_⟩
  · rw [spares_put] at hk
    exact hp.uniform k hk
  · rw [get?_put hk] at hk'
    split at hk'
    · obtain rfl := Option.some.inj hk'
      exact hc
    · exact hp.live x k' hk'

theorem Knows.recycle (hp : p.Knows F) (hc : p.get? id = some c) : (p.recycle id).Knows F := by
  refine ⟨(functions_recycle p id).trans hp.functions_eq, hp.uniform.recycle hc (hp.live id c hc),
    fun x k hk => ?_⟩
  rw [get?_recycle hc] at hk
  split at hk
  · simp at hk
  · exact hp.live x k hk

/-- A new root context knows the functions of the pool. -/
theorem Knows.createRoot (hp : p.Knows F) (hs : p.Sound) (data : Value) (globals : Variables) :
    Opened p (p.createRoot data globals).1 (Context.root data globals F)
      (p.createRoot data globals).2 := by
  obtain ⟨functions, hfunctions, ho⟩ := createRoot_opened hs data globals
  obtain rfl := hfunctions (· = F) hp.uniform hp.functions_eq
  exact ho

/-! ### Counterparts -/

/-- The pool `q` holds every context of `p`, under the handle that `ρ` gives. -/
structure Mirrors (ρ : ContextId → ContextId) (p q : Pool) : Prop where
  get?_eq : ∀ x c, p.get? x = some c → q.get? (ρ x) = some c
  inj : ∀ x y, p.get? x ≠ none → p.get? y ≠ none → ρ x = ρ y → x = y

namespace Mirrors

theorem of_empty (ρ : ContextId → ContextId) (q : Pool) (hp : ∀ x, p.get? x = none) :
    Mirrors ρ p q := by
  constructor
  · intro x c hc
    simp [hp x] at hc
  · intro x y hx
    exact absurd (hp x) hx

theorem put (h : Mirrors ρ p q) (hk : p.get? id = some k) (c : Context) :
    Mirrors ρ (p.put id c) (q.put (ρ id) c) := by
  have hlive : ∀ x, (p.put id c).get? x ≠ none → p.get? x ≠ none := by
    intro x hx
    rw [get?_put hk] at hx
    split at hx
    · next heq => simp [heq, hk]
    · exact hx
  constructor
  · intro x k' hk'
    have hx := hlive x (by simp [hk'])
    rw [get?_put hk] at hk'
    rw [get?_put (h.get?_eq id k hk)]
    by_cases heq : x = id
    · rw [if_pos heq] at hk'
      rw [if_pos (congrArg ρ heq)]
      exact hk'
    · rw [if_neg heq] at hk'
      rw [if_neg fun hρ => heq (h.inj x id hx (by simp [hk]) hρ)]
      exact h.get?_eq x k' hk'
  · intro x y hx hy
    exact h.inj x y (hlive x hx) (hlive y hy)

/-- Equal contexts are opened on both sides. -/
theorem opened (h : Mirrors ρ p q) (hp : Opened p id c p') (hq : Opened q id' c q') :
    Mirrors (Function.update ρ id id') p' q' := by
  have hfresh : ∀ x, x ≠ id → p'.get? x ≠ none → p.get? x ≠ none ∧ ρ x ≠ id' := by
    intro x hx hlive
    rw [hp.get?_of_ne hx] at hlive
    obtain ⟨k, hk⟩ := Option.ne_none_iff_exists'.mp hlive
    refine ⟨hlive, fun heq => ?_⟩
    have hold := h.get?_eq x k hk
    rw [heq, hq.fresh] at hold
    simp at hold
  constructor
  · intro x k hk
    by_cases hx : x = id
    · subst hx
      rw [hp.get?_self] at hk
      rw [Function.update_self, hq.get?_self, hk]
    · obtain ⟨-, hne⟩ := hfresh x hx (by simp [hk])
      rw [hp.get?_of_ne hx] at hk
      rw [Function.update_of_ne hx, hq.get?_of_ne hne]
      exact h.get?_eq x k hk
  · intro x y hx hy heq
    by_cases hxid : x = id <;> by_cases hyid : y = id
    · rw [hxid, hyid]
    · subst hxid
      rw [Function.update_self, Function.update_of_ne hyid] at heq
      exact absurd heq.symm (hfresh y hyid hy).2
    · subst hyid
      rw [Function.update_self, Function.update_of_ne hxid] at heq
      exact absurd heq (hfresh x hxid hx).2
    · rw [Function.update_of_ne hxid, Function.update_of_ne hyid] at heq
      exact h.inj x y (hfresh x hxid hx).1 (hfresh y hyid hy).1 heq

theorem recycle (h : Mirrors ρ p q) (hc : p.get? id = some c) :
    Mirrors ρ (p.recycle id) (q.recycle (ρ id)) := by
  have hlive : ∀ x, (p.recycle id).get? x ≠ none → x ≠ id ∧ p.get? x ≠ none := by
    intro x hx
    rw [get?_recycle hc] at hx
    split at hx
    · exact absurd rfl hx
    · next hne => exact ⟨hne, hx⟩
  constructor
  · intro x k hk
    obtain ⟨hne, hx⟩ := hlive x (by simp [hk])
    rw [get?_recycle hc, if_neg hne] at hk
    rw [get?_recycle (h.get?_eq id c hc), if_neg fun heq => hne (h.inj x id hx (by simp [hc]) heq)]
    exact h.get?_eq x k hk
  · intro x y hx hy
    exact h.inj x y (hlive x hx).2 (hlive y hy).2

end Mirrors

/-! ### Two pools -/

/-- Pools that are in order and hold the same contexts, which know the functions `F`. -/
structure Twins (F : Registry) (ρ : ContextId → ContextId) (p q : Pool) : Prop where
  left : p.Sound
  right : q.Sound
  leftKnows : p.Knows F
  rightKnows : q.Knows F
  mirrors : Mirrors ρ p q

namespace Twins

theorem put (h : Twins F ρ p q) (hk : p.get? id = some k) (hc : c.functions = F) :
    Twins F ρ (p.put id c) (q.put (ρ id) c) := by
  have hk' := h.mirrors.get?_eq id k hk
  exact ⟨h.left.put hk c, h.right.put hk' c, h.leftKnows.put hk hc, h.rightKnows.put hk' hc,
    h.mirrors.put hk c⟩

theorem opened (h : Twins F ρ p q) (hp : Opened p id c p') (hq : Opened q id' c q')
    (hc : c.functions = F) : Twins F (Function.update ρ id id') p' q' :=
  ⟨hp.sound, hq.sound, h.leftKnows.opened hp hc, h.rightKnows.opened hq hc, h.mirrors.opened hp hq⟩

theorem recycle (h : Twins F ρ p q) (hc : p.get? id = some c) :
    Twins F ρ (p.recycle id) (q.recycle (ρ id)) := by
  have hc' := h.mirrors.get?_eq id c hc
  exact ⟨h.left.recycle hc, h.right.recycle hc', h.leftKnows.recycle hc, h.rightKnows.recycle hc',
    h.mirrors.recycle hc⟩

theorem createRoot (h : Twins F ρ p q) (data : Value) (globals : Variables) :
    Twins F (Function.update ρ (p.createRoot data globals).1 (q.createRoot data globals).1)
      (p.createRoot data globals).2 (q.createRoot data globals).2 :=
  h.opened (h.leftKnows.createRoot h.left data globals) (h.rightKnows.createRoot h.right data globals)
    rfl

theorem createChild (h : Twins F ρ p q) (hc : p.get? parent = some c) (data : Value) :
    Twins F (Function.update ρ (p.createChild data parent).1 (q.createChild data (ρ parent)).1)
      (p.createChild data parent).2 (q.createChild data (ρ parent)).2 :=
  h.opened (createChild_opened h.left hc data)
    (createChild_opened h.right (h.mirrors.get?_eq parent c hc) data) (h.leftKnows.live parent c hc)

theorem createItem (h : Twins F ρ p q) (hc : p.get? parent = some c) (data : Value)
    (index count : Nat) :
    Twins F (Function.update ρ (p.createItem parent data index count).1
        (q.createItem (ρ parent) data index count).1)
      (p.createItem parent data index count).2 (q.createItem (ρ parent) data index count).2 :=
  h.opened (createItem_opened h.left hc data index count)
    (createItem_opened h.right (h.mirrors.get?_eq parent c hc) data index count)
    (h.leftKnows.live parent c hc)

end Twins

end TreeTemplate.Pool
