import TreeTemplate.Proofs.Lockstep
import TreeTemplate.Proofs.Render.Twins
import TreeTemplate.Proofs.Tenancy

/-!
Renders side by side.  Engines with the same settings render a node on stages that look the same: at
every point the stages look the same and counterparts of the same steps wait (`Stage.Abreast`), so both
renders come to an end in the same number of steps, and the stages that they leave look the same
(`Engine.renderOn_twins`).
-/

namespace TreeTemplate

open Scan (Setting)
open Stage (Books)

variable {σ τ : Setting} {ρ ρ₀ : ContextId → ContextId} {s₁ s₂ : Stage} {own : ContextId}
  {p p₀ q : Pool} {F : Registry}

namespace Stage

/-- Two renders have come to stages that look the same, on which the first has the steps `waiting` left
to do and the second their counterparts.  The first one began with the pool `p₀`, the contexts of which
keep the counterparts that `ρ₀` gives. -/
def Abreast (σ τ : Setting) (own : ContextId) (p₀ : Pool) (ρ₀ : ContextId → ContextId)
    (f : Step → Step) (s₁ s₂ : Stage) (waiting : List Step) : Prop :=
  ∃ ρ log g, f = Step.rename ρ ∧ Twins σ τ ρ s₁ s₂ ∧ (∀ x, p₀.get? x ≠ none → ρ x = ρ₀ x) ∧
    Books own p₀ log s₁ g ∧ g.waiting.map Lease.step = waiting

/-- The next step of both renders. -/
theorem Abreast.next {plan : Plan} {f : Step → Step} {st : Step} {waiting : List Step}
    (h : Abreast σ τ own p₀ ρ₀ f s₁ s₂ (st :: waiting))
    (hid : ∀ b : Binding, σ.namePrefix ++ b.suffix ≠ plan.templates.idAttribute)
    (hsame : s₁.document.Undisturbed σ.namePrefix (act plan s₁ st).1.document) :
    ∃ f', (∀ b ∈ waiting, f' b = f b) ∧
      (act plan s₂ (f st)).2 = (act plan s₁ st).2.map (List.map f') ∧
      Abreast σ τ own p₀ ρ₀ f' (act plan s₁ st).1 (act plan s₂ (f st)).1
        ((act plan s₁ st).2.reverse.flatten ++ waiting) := by
  obtain ⟨ρ, log, g, rfl, ht, hρ, hbooks, hwaiting⟩ := h
  have hlive : ∀ b ∈ st :: waiting, s₁.pool.get? b.context ≠ none := by
    intro b hb
    rw [← hwaiting] at hb
    obtain ⟨l, hl, rfl⟩ := List.mem_map.mp hb
    exact (hbooks.held l hl).live_now
  obtain ⟨ρ', hρ', hpushed, ht'⟩ := ht.act hid (hlive st List.mem_cons_self) hsame
  obtain ⟨hbooks', hwaiting'⟩ := hbooks.book hwaiting plan
  refine ⟨Step.rename ρ', fun b hb => ?_, hpushed, ρ', _, _, rfl, ht', fun x hx => ?_, hbooks',
    hwaiting'⟩
  · exact Step.rename_congr (hρ' b.context (hlive b (List.mem_cons_of_mem st hb)))
  · have hstays := hbooks.old x hx log.length (Nat.le_refl _)
    rw [poolAt_length] at hstays
    rw [hρ' x hstays, hρ x hx]

end Stage

namespace Engine

variable {e e₁ e₂ : Engine} {data : Value} {parent? : Option Value} {node : Handle} {inPlace : Bool}

/-- The engines differ in nothing but what they remember. -/
structure Peers (e₁ e₂ : Engine) : Prop where
  config : e₂.config = e₁.config
  functions : e₂.functions = e₁.functions
  globals : e₂.globals = e₁.globals
  loader? : e₂.loader? = e₁.loader?

theorem Peers.plan_eq (h : Peers e₁ e₂) (inPlace : Bool) : e₂.plan inPlace = e₁.plan inPlace := by
  rw [plan, templates, h.config, h.loader?, plan, templates]

/-- The contexts of a render are opened under counterparts. -/
theorem openContexts_twins (hpeers : Peers e₁ e₂) (h : Pool.Twins F ρ p q) (data : Value)
    (parent? : Option Value) :
    ∃ ρ', Pool.Twins F ρ' (e₁.openContexts p data parent?).2.2 (e₂.openContexts q data parent?).2.2 ∧
      ρ' (e₁.openContexts p data parent?).1 = (e₂.openContexts q data parent?).1 ∧
      (e₂.openContexts q data parent?).2.1 = (e₁.openContexts p data parent?).2.1.map ρ' := by
  cases parent? with
  | none =>
    have hroot := h.createRoot data e₁.globals
    simp only [openContexts, hpeers.globals]
    exact ⟨_, hroot, Function.update_self _ _ _, rfl⟩
  | some parentData =>
    have hroot := h.createRoot parentData e₁.globals
    have hopened := h.leftKnows.createRoot h.left parentData e₁.globals
    simp only [openContexts, hpeers.globals]
    generalize p.createRoot parentData e₁.globals = above at hroot hopened ⊢
    generalize q.createRoot parentData e₁.globals = above' at hroot ⊢
    have hchild := hroot.createChild hopened.get?_self data
    have hfresh := (Pool.createChild_opened hopened.sound hopened.get?_self data).fresh
    have hne : above.1 ≠ (above.2.createChild data above.1).1 := by
      intro heq
      rw [← heq, hopened.get?_self] at hfresh
      simp at hfresh
    rw [Function.update_self] at hchild
    refine ⟨_, hchild, Function.update_self _ _ _, ?_⟩
    rw [Option.map_some, Function.update_of_ne hne, Function.update_self]

/-- The contexts of a render are released under counterparts. -/
theorem closeContexts_twins (h : Pool.Twins F ρ p q) {above? : Option ContextId}
    (hown : p.get? own ≠ none) (habove : ∀ x ∈ above?, p.get? x ≠ none ∧ x ≠ own) :
    Pool.Twins F ρ (closeContexts own above? p) (closeContexts (ρ own) (above?.map ρ) q) := by
  obtain ⟨c, hc⟩ := Option.ne_none_iff_exists'.mp hown
  have hclosed := h.recycle hc
  cases habove? : above? with
  | none => exact hclosed
  | some x =>
    obtain ⟨hx, hne⟩ := habove x habove?
    obtain ⟨c', hc'⟩ := Option.ne_none_iff_exists'.mp hx
    have hstays : (p.recycle own).get? x = some c' := by
      rw [Pool.get?_recycle hc, if_neg hne, hc']
    exact hclosed.recycle hstays

/-- A render is a walk from its first step, after which its contexts are released. -/
theorem renderOn_eq_run (e : Engine) (budget : Nat) (s : Stage) (data : Value)
    (parent? : Option Value) (node : Handle) (inPlace : Bool) :
    e.renderOn budget s data parent? node inPlace =
      (WorkStack.run (Stage.step (e.plan inPlace)) budget
          (WorkStack.new.pushItems [e.firstStep s data parent? node])
          (e.begun s data parent? node)).map fun r =>
        ({ r.1 with
            pool := closeContexts (e.contextOn s data parent?)
              (e.openContexts s.pool data parent?).2.1 r.1.pool },
          r.2.1) := by
  unfold renderOn Stage.render WorkStack.runFrom
  dsimp only
  rw [Option.map_map]
  rfl

/-- No step of a render changes a recognised attribute of a node. -/
def Undisturbing (e : Engine) (s : Stage) (data : Value) (parent? : Option Value) (node : Handle)
    (inPlace : Bool) : Prop :=
  ∀ log w s', e.Reaches s data parent? node inPlace log w s' → ∀ st ∈ w.next.1,
    s'.document.Undisturbed e.config.attributePrefix (Stage.act (e.plan inPlace) s' st).1.document

/-- Renders begin abreast: only their first steps wait. -/
theorem begun_abreast (hpeers : Peers e₁ e₂) (ht : Stage.Twins σ τ ρ s₁ s₂) (data : Value)
    (parent? : Option Value) (node : Handle) :
    ∃ ρ₀, Stage.Abreast σ τ (e₁.contextOn s₁ data parent?)
        (e₁.openContexts s₁.pool data parent?).2.2 ρ₀ (Step.rename ρ₀)
        (e₁.begun s₁ data parent? node) (e₂.begun s₂ data parent? node)
        [e₁.firstStep s₁ data parent? node] ∧
      ρ₀ (e₁.contextOn s₁ data parent?) = e₂.contextOn s₂ data parent? ∧
      (e₂.openContexts s₂.pool data parent?).2.1 =
        (e₁.openContexts s₁.pool data parent?).2.1.map ρ₀ := by
  obtain ⟨ρ₀, hpool, hcontext, habove⟩ := openContexts_twins hpeers ht.pool data parent?
  have hbegan := e₁.openContexts_began ht.pool.left data parent?
  have hbegun : Stage.Twins σ τ ρ₀ (e₁.begun s₁ data parent? node) (e₂.begun s₂ data parent? node) :=
    ⟨ht.scan.prime node, hpool, ht.journal⟩
  have hbooks : Books (e₁.firstStep s₁ data parent? node).context
      (e₁.begun s₁ data parent? node).pool [] (e₁.begun s₁ data parent? node)
      ⟨[], [⟨e₁.firstStep s₁ data parent? node, 0⟩]⟩ :=
    Books.start hbegan.sound hbegan.live (by simp [firstStep])
  exact ⟨ρ₀, ⟨ρ₀, [], _, rfl, hbegun, fun _ _ => rfl, hbooks, rfl⟩, hcontext, habove⟩

/-- Renders that have come to their end abreast leave stages that look the same. -/
theorem closed_twins (hs : s₁.pool.Sound) {f : Step → Step} {t₁ t₂ : Stage} {waiting : List Step}
    (h : Stage.Abreast σ τ own (e₁.openContexts s₁.pool data parent?).2.2 ρ₀ f t₁ t₂ waiting)
    (hcontext : ρ₀ (e₁.contextOn s₁ data parent?) = e₂.contextOn s₂ data parent?)
    (habove : (e₂.openContexts s₂.pool data parent?).2.1 =
      (e₁.openContexts s₁.pool data parent?).2.1.map ρ₀) :
    ∃ ρ', Pool.Twins σ.functions ρ'
      (closeContexts (e₁.contextOn s₁ data parent?) (e₁.openContexts s₁.pool data parent?).2.1 t₁.pool)
      (closeContexts (e₂.contextOn s₂ data parent?) (e₂.openContexts s₂.pool data parent?).2.1
        t₂.pool) ∧ Stage.Twins σ τ ρ' t₁ t₂ := by
  obtain ⟨ρ', log, g, -, ht, hρ, hbooks, -⟩ := h
  have hbegan := e₁.openContexts_began hs data parent?
  have hstays : ∀ x, (e₁.openContexts s₁.pool data parent?).2.2.get? x ≠ none →
      t₁.pool.get? x ≠ none := by
    intro x hx
    have hold := hbooks.old x hx log.length (Nat.le_refl _)
    rwa [Stage.poolAt_length] at hold
  have hclosed := closeContexts_twins ht.pool (hstays _ hbegan.live)
    (fun x hx => ⟨hstays x (hbegan.above x hx).2.1, (hbegan.above x hx).2.2⟩)
  have hmap : (e₁.openContexts s₁.pool data parent?).2.1.map ρ' =
      (e₁.openContexts s₁.pool data parent?).2.1.map ρ₀ :=
    Option.map_congr fun x hx => hρ x (hbegan.above x hx).2.1
  unfold contextOn at hcontext ⊢
  rw [hρ _ hbegan.live, hcontext, hmap, ← habove] at hclosed
  exact ⟨ρ', hclosed, ht⟩

/-- Renders on stages that look the same end together, with the same counts, and what they leave looks
the same. -/
theorem renderOn_twins (hpeers : Peers e₁ e₂) (ht : Stage.Twins σ τ ρ s₁ s₂)
    (hname : e₁.config.attributePrefix = σ.namePrefix)
    (hid : ∀ b : Binding, σ.namePrefix ++ b.suffix ≠ e₁.config.idAttribute)
    (hquiet : e₁.Undisturbing s₁ data parent? node inPlace) (budget : Nat) :
    (e₁.renderOn budget s₁ data parent? node inPlace = none ∧
        e₂.renderOn budget s₂ data parent? node inPlace = none) ∨
      ∃ ρ' s₁' s₂' stats, e₁.renderOn budget s₁ data parent? node inPlace = some (s₁', stats) ∧
        e₂.renderOn budget s₂ data parent? node inPlace = some (s₂', stats) ∧
        Stage.Twins σ τ ρ' s₁' s₂' := by
  obtain ⟨ρ₀, hstart, hcontext, habove⟩ := begun_abreast hpeers ht data parent? node
  have hfirst : e₂.firstStep s₂ data parent? node =
      (e₁.firstStep s₁ data parent? node).rename ρ₀ :=
    congrArg (Step.place · node) hcontext.symm
  obtain ⟨hpending, hclean⟩ : (WorkStack.new.pushItems [e₁.firstStep s₁ data parent? node]).pending =
      [e₁.firstStep s₁ data parent? node] ∧ WorkStack.Clean _ :=
    WorkStack.pushItems_spec WorkStack.new _ (by simp [WorkStack.Clean, WorkStack.new])
  rw [← hpending] at hstart
  have hrun := WorkStack.run_lockstep (Stage.act (e₁.plan inPlace)) (Stage.act (e₁.plan inPlace))
    (fun s st => s.document.Undisturbed e₁.config.attributePrefix
      (Stage.act (e₁.plan inPlace) s st).1.document) _
    (fun f s₁ s₂ st waiting hR hQ => hR.next hid (hname ▸ hQ)) budget hclean hstart hquiet
  rw [← WorkStack.pushItems_map, WorkStack.map_new, List.map_singleton, ← hfirst] at hrun
  rw [renderOn_eq_run, renderOn_eq_run, hpeers.plan_eq]
  rcases hrun with ⟨h₁, h₂⟩ | ⟨f, s₁', s₂', stats, w', h₁, h₂, hend⟩
  · exact Or.inl ⟨congrArg _ h₁, congrArg _ h₂⟩
  · obtain ⟨ρ', hpool, ht'⟩ := closed_twins ht.pool.left hend hcontext habove
    exact Or.inr ⟨ρ', _, _, stats, congrArg _ h₁, congrArg _ h₂, ht'.scan, hpool, ht'.journal⟩

end Engine

end TreeTemplate
