import TreeTemplate.Proofs.Render.Turns

/-!
Engines that take turns on a document.  What a host hears and reads is what one of them alone would have
made it hear and read (`Engine.play_eq_perform`), as all that the engines remember agrees with what the
nodes have (`Engine.Attuned`).
-/

namespace TreeTemplate

open Document (root)

/-- What the node has on record is of none of the owners, and its callbacks leave a context its
functions. -/
structure Node.Foreign (owners : Nat → Prop) (F : Registry) (n : Node) : Prop where
  owner : ∀ r ∈ n.bindingRef?, ¬ owners r.cache.owner
  steady : Steady (· = F) n.callbacks

/-- No engine of these owners has looked at the document, and handles to removed nodes read as
nothing. -/
def Document.Unclaimed (owners : Nat → Prop) (F : Registry) (d : Document) : Prop :=
  d.All (fun _ n => n.Foreign owners F) fun n =>
    n.Foreign owners F ∧ n.content = .root ∧ (n.bindingRef? ≠ none → n.unscanned = Node.new .root)

theorem Document.unclaimed_of_ofMarkup {source : String} {d : Document} (h : ofMarkup source = .ok d)
    (owners : Nat → Prop) (F : Registry) : d.Unclaimed owners F := by
  have hforeign : ∀ n : Node, n.Blank → n.Foreign owners F := by
    rintro n ⟨href, hcallbacks⟩
    exact ⟨by simp [href], by simp [hcallbacks, Steady]⟩
  exact (blank_of_ofMarkup h).imp (fun _ n hn => hforeign n hn)
    fun n hn => ⟨hforeign n hn.2, hn.1, fun href => absurd hn.2.bindingRef? href⟩

theorem Node.Trusted.imp {known known' : BindingCache → Prop} {F : Registry} {n : Node}
    (hn : n.Trusted known F) (h : ∀ b, known' b → known b) : n.Trusted known' F :=
  ⟨fun b hb => hn.vouched b (h b hb), hn.steady⟩

namespace Engine

variable {ι κ : Type} {e e₁ e₂ : Engine} {crew : ι → Engine} {crew₁ : ι → Engine}
  {crew₂ : κ → Engine} {d d₁ d₂ : Document} {s : Stage}

/-! ### Crews -/

/-- The cache of an engine of the crew. -/
def Aboard (crew : ι → Engine) (b : BindingCache) : Prop :=
  ∃ k, b = (crew k).bindings

/-- The engine `e'` has the settings of `e`, what it remembers of expressions and sets is right, and no
context is open. -/
structure Ready (e e' : Engine) : Prop where
  peers : Peers e e'
  namePrefix : e'.bindings.namePrefix = e.config.attributePrefix
  faithful : e'.compiler.Faithful
  honest : e'.bindings.Honest
  sound : e'.pool.Sound
  knows : e'.pool.Knows e.functions
  empty : ∀ x, e'.pool.get? x = none

/-- The engines of the crew are ready and have their own caches, and what nodes have on record of one of
these is right. -/
structure Attuned (e : Engine) (crew : ι → Engine) (d : Document) : Prop where
  ready : ∀ k, Ready e (crew k)
  apart : ∀ j k, j ≠ k → (crew j).bindings.id.owner ≠ (crew k).bindings.id.owner
  nodes : d.All (fun _ n => n.Trusted (Aboard crew) e.functions)
    (Node.Vacated (Aboard crew) e.functions)

/-- What stays as it is while the engine `k` takes a turn. -/
def setting (e : Engine) (crew : ι → Engine) (k : ι) : Scan.Setting :=
  ⟨(crew k).bindings.id, e.config.attributePrefix, fun b => ∃ j, j ≠ k ∧ b = (crew j).bindings,
    e.functions⟩

namespace Attuned

theorem anew {owner : ι → Nat} (howner : Function.Injective owner)
    (hd : d.Unclaimed (fun o => ∃ k, o = owner k) e.functions) :
    Attuned e (fun k => e.anew (owner k)) d := by
  have htrusted : ∀ n : Node, n.Foreign (fun o => ∃ k, o = owner k) e.functions →
      n.Trusted (Aboard fun k => e.anew (owner k)) e.functions := by
    rintro n hn
    refine ⟨?_, hn.steady⟩
    rintro b ⟨k, rfl⟩ r hr hrecord
    exact absurd ⟨k, hrecord⟩ (hn.owner r hr)
  constructor
  · intro k
    exact ⟨⟨rfl, rfl, rfl, rfl⟩, rfl, Compiler.new_faithful _, BindingCache.new_honest _ _,
      Pool.new_sound _ _, Pool.new_knows _ _, fun x => by simp [Engine.anew, Pool.get?, Pool.new]⟩
  · exact fun j k hne heq => hne (howner heq)
  · exact hd.imp (fun _ n hn => htrusted n hn) fun n hn => ⟨htrusted n hn.1, hn.2.1, hn.2.2⟩

/-- What the engine `k` works with is coherent. -/
theorem coherent (h : Attuned e crew d) (k : ι) :
    Scan.Coherent (setting e crew k) ((crew k).stage d).toScan := by
  have hknown : ∀ b, (setting e crew k).Known (crew k).bindings b → Aboard crew b := by
    rintro b (rfl | ⟨j, -, rfl⟩)
    · exact ⟨k, rfl⟩
    · exact ⟨j, rfl⟩
  constructor
  · rfl
  · exact (h.ready k).namePrefix
  · exact (h.ready k).faithful
  · exact (h.ready k).honest
  · rintro b ⟨j, hne, rfl⟩
    exact ⟨h.apart j k hne, (h.ready j).namePrefix⟩
  · exact h.nodes.retrust fun n hn => hn.imp hknown

/-- Whichever engine takes the next turn, it begins on a stage that looks the same. -/
theorem twins (h₁ : Attuned e crew₁ d₁) (h₂ : Attuned e crew₂ d₂)
    (hd : d₂.unscanned = d₁.unscanned) (j : ι) (k : κ) :
    Stage.Twins (setting e crew₁ j) (setting e crew₂ k) id ((crew₁ j).stage d₁)
      ((crew₂ k).stage d₂) := by
  have hj := h₁.ready j
  have hk := h₂.ready k
  exact ⟨⟨h₁.coherent j, h₂.coherent k, rfl, rfl, hd⟩,
    ⟨hj.sound, hk.sound, hj.knows, hk.knows, .of_empty id _ hj.empty⟩, rfl⟩

variable [DecidableEq ι] [DecidableEq κ]

/-- One of the engines is replaced by one of the same owner. -/
theorem replace (h : Attuned e crew d) {k : ι} {e' : Engine} (he' : Ready e e')
    (howner : e'.bindings.id.owner = (crew k).bindings.id.owner)
    (hnodes : (setting e crew k).Trusts e'.bindings d₁) :
    Attuned e (Function.update crew k e') d₁ := by
  have hself : Function.update crew k e' k = e' := Function.update_self _ _ _
  have hother : ∀ j, j ≠ k → Function.update crew k e' j = crew j :=
    fun j hne => Function.update_of_ne hne _ _
  have howners : ∀ j, (Function.update crew k e' j).bindings.id.owner =
      (crew j).bindings.id.owner := by
    intro j
    by_cases hj : j = k
    · subst hj
      rw [hself, howner]
    · rw [hother j hj]
  have haboard : ∀ b, Aboard (Function.update crew k e') b →
      (setting e crew k).Known e'.bindings b := by
    rintro b ⟨j, rfl⟩
    by_cases hj : j = k
    · subst hj
      rw [hself]
      exact Or.inl rfl
    · rw [hother j hj]
      exact Or.inr ⟨j, hj, rfl⟩
  constructor
  · intro j
    by_cases hj : j = k
    · subst hj
      rwa [hself]
    · rw [hother j hj]
      exact h.ready j
  · intro i j hne
    rw [howners, howners]
    exact h.apart i j hne
  · exact hnodes.retrust fun n hn => hn.imp haboard

/-- The crew after one of its engines has taken a turn. -/
theorem settle (h : Attuned e crew d) {k : ι} (hs : s.toScan.Coherent (setting e crew k))
    (hsound : s.pool.Sound) (hknows : s.pool.Knows e.functions) (hempty : ∀ x, s.pool.get? x = none)
    {α : Type} (value : α) :
    Attuned e (Function.update crew k ((crew k).settle s value).engine) s.document := by
  have hpeers := (h.ready k).peers
  refine h.replace ⟨⟨hpeers.config, hpeers.functions, hpeers.globals, hpeers.loader?⟩,
    hs.namePrefix_eq, hs.faithful, hs.honest, hsound, hknows, hempty⟩ ?_ hs.nodes
  exact congrArg CacheId.owner hs.id_eq

/-- The crew after one of its engines has forgotten what it remembered. -/
theorem clear (h : Attuned e crew d) (k : ι) :
    Attuned e (Function.update crew k (crew k).clearCaches) d := by
  have hk := h.ready k
  have htrusted : ∀ n : Node, n.Trusted (Aboard crew) e.functions →
      n.Trusted ((setting e crew k).Known (crew k).clearCaches.bindings) e.functions := by
    rintro n hn
    refine ⟨?_, hn.steady⟩
    rintro b (rfl | ⟨j, -, rfl⟩)
    · exact (hn.vouched _ ⟨k, rfl⟩).clear
    · exact hn.vouched _ ⟨j, rfl⟩
  exact h.replace ⟨⟨hk.peers.config, hk.peers.functions, hk.peers.globals, hk.peers.loader?⟩,
    hk.namePrefix, Compiler.clear_faithful _, BindingCache.clear_honest hk.honest, hk.sound, hk.knows,
    hk.empty⟩ rfl (h.nodes.retrust htrusted)

end Attuned

/-! ### Turns of two crews -/

variable [DecidableEq ι] [DecidableEq κ]

theorem Peers.between (h₁ : Peers e e₁) (h₂ : Peers e e₂) : Peers e₁ e₂ :=
  ⟨h₂.config.trans h₁.config.symm, h₂.functions.trans h₁.functions.symm,
    h₂.globals.trans h₁.globals.symm, h₂.loader?.trans h₁.loader?.symm⟩

/-- A turn of each of two crews comes to the same. -/
def Agree (e : Engine) (crew₁ : ι → Engine) (j : ι) (crew₂ : κ → Engine) (k : κ)
    (o₁? o₂? : Option (Outcome Reply)) : Prop :=
  (o₁? = none ∧ o₂? = none) ∨
    ∃ o₁ o₂, o₁? = some o₁ ∧ o₂? = some o₂ ∧ Outcome.notice o₂ = Outcome.notice o₁ ∧
      o₂.document.unscanned = o₁.document.unscanned ∧
      Attuned e (Function.update crew₁ j o₁.engine) o₁.document ∧
      Attuned e (Function.update crew₂ k o₂.engine) o₂.document

/-- What is left of two renders that came to the same. -/
theorem Attuned.agree (h₁ : Attuned e crew₁ d₁) (h₂ : Attuned e crew₂ d₂) {j : ι} {k : κ}
    {ρ : ContextId → ContextId} {s₁ s₂ : Stage}
    (ht : Stage.Twins (setting e crew₁ j) (setting e crew₂ k) ρ s₁ s₂)
    (hempty₁ : ∀ x, s₁.pool.get? x = none) (hempty₂ : ∀ x, s₂.pool.get? x = none) (reply : Reply) :
    Agree e crew₁ j crew₂ k (some ((crew₁ j).settle s₁ reply))
      (some ((crew₂ k).settle s₂ reply)) := by
  refine Or.inr ⟨_, _, rfl, rfl, ?_, ht.scan.document,
    h₁.settle ht.scan.left ht.pool.left ht.pool.leftKnows hempty₁ reply,
    h₂.settle ht.scan.right ht.pool.right ht.pool.rightKnows hempty₂ reply⟩
  have hmarkup : s₂.document.toMarkup = s₁.document.toMarkup := by
    rw [← Document.toMarkup_unscanned, ht.scan.document, Document.toMarkup_unscanned]
  simp only [Outcome.notice, Engine.settle, hmarkup, ht.journal]

/-- Renders on stages that look the same come to the same. -/
theorem Attuned.renderOn (h₁ : Attuned e crew₁ d₁) (h₂ : Attuned e crew₂ d₂)
    (hid : ∀ b : Binding, e.config.attributePrefix ++ b.suffix ≠ e.config.idAttribute) {j : ι} {k : κ}
    {ρ : ContextId → ContextId} {s₁ s₂ : Stage}
    (ht : Stage.Twins (setting e crew₁ j) (setting e crew₂ k) ρ s₁ s₂)
    (hempty₁ : ∀ x, s₁.pool.get? x = none) (hempty₂ : ∀ x, s₂.pool.get? x = none) (budget : Nat)
    {data : Value} {parent? : Option Value} {node : Handle} {inPlace : Bool}
    (hfair : (crew₁ j).Undisturbing s₁ data parent? node inPlace) (reply : WalkStats → Reply) :
    Agree e crew₁ j crew₂ k
      (((crew₁ j).renderOn budget s₁ data parent? node inPlace).map fun r =>
        (crew₁ j).settle r.1 (reply r.2))
      (((crew₂ k).renderOn budget s₂ data parent? node inPlace).map fun r =>
        (crew₂ k).settle r.1 (reply r.2)) := by
  have hpeers := (h₁.ready j).peers
  have hname : (crew₁ j).config.attributePrefix = (setting e crew₁ j).namePrefix :=
    congrArg Config.attributePrefix hpeers.config
  have hid' : ∀ b : Binding,
      (setting e crew₁ j).namePrefix ++ b.suffix ≠ (crew₁ j).config.idAttribute := by
    rw [hpeers.config]
    exact hid
  rcases renderOn_twins (hpeers.between (h₂.ready k).peers) ht hname hid' hfair budget with
    ⟨hnone₁, hnone₂⟩ | ⟨ρ', s₁', s₂', stats, hsome₁, hsome₂, ht'⟩
  · rw [hnone₁, hnone₂]
    exact Or.inl ⟨rfl, rfl⟩
  · rw [hsome₁, hsome₂, Option.map_some, Option.map_some]
    obtain ⟨-, hstay₁⟩ := renderOn_pool ht.pool.left hsome₁
    obtain ⟨-, hstay₂⟩ := renderOn_pool ht.pool.right hsome₂
    exact h₁.agree h₂ ht' (fun x => (hstay₁ x).mpr (hempty₁ x))
      (fun x => (hstay₂ x).mpr (hempty₂ x)) (reply stats)

/-- Renders into copies come to the same. -/
theorem Attuned.renderClone (h₁ : Attuned e crew₁ d₁) (h₂ : Attuned e crew₂ d₂)
    (hid : ∀ b : Binding, e.config.attributePrefix ++ b.suffix ≠ e.config.idAttribute)
    (hd : d₂.unscanned = d₁.unscanned) (j : ι) (k : κ) (budget : Nat) {data : Value} {node : Handle}
    (hfair : (Turn.renderClone budget data node).Fair (crew₁ j) d₁) :
    Agree e crew₁ j crew₂ k ((Turn.renderClone budget data node).run (crew₁ j) d₁)
      ((Turn.renderClone budget data node).run (crew₂ k) d₂) := by
  have hpeers := (h₁.ready j).peers
  have hplan := (hpeers.between (h₂.ready k).peers).plan_eq false
  have hid' : ∀ b : Binding, (setting e crew₁ j).namePrefix ++ b.suffix ≠
      ((crew₁ j).plan false).templates.idAttribute := by
    change ∀ b : Binding, _ ≠ (crew₁ j).config.idAttribute
    rw [hpeers.config]
    exact hid
  obtain ⟨hcopy, hcloned⟩ := (h₁.twins h₂ hd j k).cloneTemplate hid' node
  have hagree := h₁.renderOn h₂ hid hcloned (h₁.ready j).empty (h₂.ready k).empty budget hfair
    fun _ => .copy (((crew₁ j).stage d₁).cloneTemplate ((crew₁ j).plan false) node).1
  simp only [Turn.run, Engine.renderClone, Option.map_map, hplan, hcopy]
  exact hagree

/-- Changes by hand come to the same. -/
theorem Attuned.edit (h₁ : Attuned e crew₁ d₁) (h₂ : Attuned e crew₂ d₂)
    (hd : d₂.unscanned = d₁.unscanned) (j : ι) (k : κ) {change : HostEdit}
    (hfair : (Turn.edit change).Fair (crew₁ j) d₁) :
    Agree e crew₁ j crew₂ k ((Turn.edit change).run (crew₁ j) d₁)
      ((Turn.edit change).run (crew₂ k) d₂) := by
  have ht := h₁.twins h₂ hd j k
  obtain ⟨hsame, hsteady⟩ := hfair
  rw [(h₁.ready j).peers.config] at hsame
  rw [(h₁.ready j).peers.functions] at hsteady
  have hsame' : d₂.Undisturbed e.config.attributePrefix (change.apply d₂) :=
    hsame.congr (fun x => by rw [hd]) fun x => by
      rw [← change.apply_unscanned, hd, change.apply_unscanned]
  have htrusts₁ := change.trusts ht.scan.left.nodes
    (fun b hb => ht.scan.left.namePrefix_of_known hb) hsame hsteady
  have htrusts₂ := change.trusts ht.scan.right.nodes
    (fun b hb => ht.scan.right.namePrefix_of_known hb) hsame' hsteady
  have hchanged : Stage.Twins (setting e crew₁ j) (setting e crew₂ k) id
      ((crew₁ j).stage (change.apply d₁)) ((crew₂ k).stage (change.apply d₂)) :=
    ⟨ht.scan.edit change.apply change.apply_unscanned htrusts₁ htrusts₂, ht.pool, rfl⟩
  exact h₁.agree h₂ hchanged (h₁.ready j).empty (h₂.ready k).empty .done

/-- The same turn comes to the same, whichever engine takes it. -/
theorem Attuned.run (h₁ : Attuned e crew₁ d₁) (h₂ : Attuned e crew₂ d₂)
    (hid : ∀ b : Binding, e.config.attributePrefix ++ b.suffix ≠ e.config.idAttribute)
    (hd : d₂.unscanned = d₁.unscanned) (j : ι) (k : κ) {t : Turn} (hfair : t.Fair (crew₁ j) d₁) :
    Agree e crew₁ j crew₂ k (t.run (crew₁ j) d₁) (t.run (crew₂ k) d₂) := by
  cases t with
  | render budget data parent? node inPlace =>
    have hagree := h₁.renderOn h₂ hid (h₁.twins h₂ hd j k) (h₁.ready j).empty (h₂.ready k).empty
      budget hfair .stats
    simp only [Turn.run, Engine.render, Option.map_map]
    exact hagree
  | renderClone budget data node => exact h₁.renderClone h₂ hid hd j k budget hfair
  | edit change => exact h₁.edit h₂ hd j k hfair

end Engine

end TreeTemplate
