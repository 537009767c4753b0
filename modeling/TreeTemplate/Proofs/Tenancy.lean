import TreeTemplate.Proofs.Lifetime
import TreeTemplate.Proofs.Render.Lease

/-!
Renders and their contexts.  A render opens its contexts, walks, and releases what it opened.  At every
point of it the next step finds its node and the context that it was made for (`Engine.render_inOrder`),
and afterwards as many contexts are live as before.
-/

namespace TreeTemplate.Engine

open Document (root)
open Stage (Books Held OpenedAt)

variable {e : Engine} {d : Document} {s s' : Stage} {data : Value} {parent? : Option Value}
  {node : Handle} {n : Node} {inPlace : Bool} {budget : Nat} {log : List (Stage × Step)}
  {w : WorkStack Step} {p p' q : Pool} {context : ContextId} {above? : Option ContextId}

/-! ### The contexts of a render -/

/-- The pool `p'` is `p` with the contexts of a render. -/
structure Began (p : Pool) (context : ContextId) (above? : Option ContextId) (p' : Pool) : Prop where
  sound : p'.Sound
  fresh : p.get? context = none
  live : p'.get? context ≠ none
  above : ∀ x ∈ above?, p.get? x = none ∧ p'.get? x ≠ none ∧ x ≠ context
  frame : ∀ x, x ≠ context → x ∉ above? → p'.get? x = p.get? x

theorem openContexts_began (e : Engine) (hs : p.Sound) (data : Value) (parent? : Option Value) :
    Began p (e.openContexts p data parent?).1 (e.openContexts p data parent?).2.1
      (e.openContexts p data parent?).2.2 := by
  cases parent? with
  | none =>
    obtain ⟨functions, -, ho⟩ := Pool.createRoot_opened hs data e.globals
    constructor
    · exact ho.sound
    · exact ho.fresh
    · exact Option.ne_none_iff_exists'.mpr ⟨_, ho.get?_self⟩
    · simp [openContexts]
    · exact fun x hx _ => ho.get?_of_ne hx
  | some parentData =>
    obtain ⟨functions, -, ho⟩ := Pool.createRoot_opened hs parentData e.globals
    have ho' := Pool.createChild_opened ho.sound ho.get?_self data
    have hne : (p.createRoot parentData e.globals).1 ≠
        ((p.createRoot parentData e.globals).2.createChild data
          (p.createRoot parentData e.globals).1).1 := by
      intro heq
      have hfresh := ho'.fresh
      rw [← heq, ho.get?_self] at hfresh
      simp at hfresh
    constructor
    · exact ho'.sound
    · exact (ho.get?_of_ne hne.symm).symm.trans ho'.fresh
    · exact Option.ne_none_iff_exists'.mpr ⟨_, ho'.get?_self⟩
    · intro x hx
      obtain rfl := Option.some.inj hx
      refine ⟨ho.fresh, ?_, hne⟩
      exact Option.ne_none_iff_exists'.mpr ⟨_, (ho'.get?_of_ne hne).trans ho.get?_self⟩
    · intro x hx habove
      have hx' : x ≠ (p.createRoot parentData e.globals).1 := fun heq => habove (heq ▸ rfl)
      exact (ho'.get?_of_ne hx).trans (ho.get?_of_ne hx')

/-- When the contexts of a render are released, the contexts are live that were live before. -/
theorem closeContexts_spec (hb : Began p context above? p') (hq : q.Sound)
    (hsame : ∀ x, q.get? x = none ↔ p'.get? x = none) :
    (closeContexts context above? q).Sound ∧
      ∀ x, (closeContexts context above? q).get? x = none ↔ p.get? x = none := by
  have hcontext : q.get? context ≠ none := fun h => hb.live ((hsame context).mp h)
  obtain ⟨hsound, hget⟩ := Pool.recycle_spec hq hcontext
  cases habove : above? with
  | none =>
    refine ⟨hsound, fun x => (hget x).trans ?_⟩
    by_cases hx : x = context
    · simp [hx, hb.fresh]
    · rw [hsame, hb.frame x hx (by simp [habove])]
      simp [hx]
  | some above =>
    obtain ⟨hfresh, hlive, hne⟩ := hb.above above habove
    have habove' : (q.recycle context).get? above ≠ none := by
      rw [Ne, hget, hsame]
      simp [hne, hlive]
    obtain ⟨hsound', hget'⟩ := Pool.recycle_spec hsound habove'
    refine ⟨hsound', fun x => (hget' x).trans ?_⟩
    rw [hget]
    by_cases hx : x = context
    · simp [hx, hb.fresh]
    by_cases hx' : x = above
    · simp [hx', hfresh]
    · rw [hsame, hb.frame x hx (by simpa [habove] using Ne.symm hx')]
      simp [hx, hx']

/-! ### The walk of a render -/

/-- The step that a render begins with. -/
def firstStep (e : Engine) (s : Stage) (data : Value) (parent? : Option Value) (node : Handle) :
    Step :=
  .place (e.contextOn s data parent?) node

/-- The leases of the steps of a render with the record `log`. -/
def ledger (e : Engine) (s : Stage) (data : Value) (parent? : Option Value) (node : Handle)
    (inPlace : Bool) (log : List (Stage × Step)) : Ledger :=
  Ledger.ofLog (e.plan inPlace) (e.firstStep s data parent? node) log

/-- The books are kept at every point of a render. -/
theorem Reaches.books (h : e.Reaches s data parent? node inPlace log w s') (hs : s.pool.Sound) :
    Books (e.contextOn s data parent?) (e.begun s data parent? node).pool log s'
        (e.ledger s data parent? node inPlace log) ∧
      (e.ledger s data parent? node inPlace log).waiting.map Lease.step = w.pending ∧ w.Clean := by
  have hclean : (WorkStack.new : WorkStack Step).Clean := by simp [WorkStack.Clean, WorkStack.new]
  obtain ⟨hpending, hclean'⟩ := WorkStack.pushItems_spec WorkStack.new
    [.place (e.contextOn s data parent?) node] hclean
  have hbegan := e.openContexts_began hs data parent?
  rw [← and_assoc]
  refine WorkStack.Reaches.invariant (Stage.act (e.plan inPlace)) (fun log s' steps =>
    Books (e.contextOn s data parent?) (e.begun s data parent? node).pool log s'
        (e.ledger s data parent? node inPlace log) ∧
      (e.ledger s data parent? node inPlace log).waiting.map Lease.step = steps) ?_ hclean' ?_ h
  · rintro log s₁ st waiting ⟨hbooks, hwaiting⟩
    unfold ledger Ledger.ofLog
    rw [List.foldl_concat]
    exact hbooks.book hwaiting (e.plan inPlace)
  · rw [hpending]
    have hbooks : Books (e.firstStep s data parent? node).context (e.begun s data parent? node).pool
        [] (e.begun s data parent? node) ⟨[], [⟨e.firstStep s data parent? node, 0⟩]⟩ :=
      Books.start hbegan.sound hbegan.live (by simp [firstStep])
    exact ⟨hbooks, rfl⟩

/-- A render releases the contexts that it opens, and no others. -/
theorem renderOn_pool {stats : WalkStats} (hs : s.pool.Sound)
    (h : e.renderOn budget s data parent? node inPlace = some (s', stats)) :
    s'.pool.Sound ∧ ∀ x, s'.pool.get? x = none ↔ s.pool.get? x = none := by
  obtain ⟨log, w, last, hreaches, hend, rfl⟩ := exists_reaches_of_renderOn h
  obtain ⟨hbooks, hwaiting, hclean⟩ := hreaches.books hs
  rw [WorkStack.pending_of_next_none hclean hend, List.map_eq_nil_iff] at hwaiting
  exact closeContexts_spec (e.openContexts_began hs data parent?) hbooks.sound
    (hbooks.get?_eq_none_iff hwaiting)

theorem render_pool {o : Outcome WalkStats} (he : e.pool.Sound)
    (h : e.render budget d data parent? node inPlace = some o) :
    o.engine.pool.Sound ∧ o.engine.pool.live = e.pool.live := by
  obtain ⟨⟨s', stats⟩, hrender, rfl⟩ := Option.map_eq_some_iff.mp h
  obtain ⟨hsound, hget⟩ := renderOn_pool (s := e.stage d) he hrender
  exact ⟨hsound, Pool.live_eq hget⟩

/-! ### The engines that a program comes by -/

/-- The engines that a program comes by.  Any other operation leaves the engine that one of these
leaves. -/
inductive Reached : Engine → Prop
  | new (owner : Nat) (config : Config) : Reached (new owner config)
  | setGlobal {e : Engine} (he : Reached e) (name : String) (v : Value) :
      Reached (e.setGlobal name v)
  | register {e : Engine} (he : Reached e) (name : String) (f : HostFunction) :
      Reached (e.register name f)
  | setLoader {e : Engine} (he : Reached e) (loader? : Option Loader) : Reached (e.setLoader loader?)
  | clearCaches {e : Engine} (he : Reached e) : Reached e.clearCaches
  | evaluate {e : Engine} (he : Reached e) (source : String) (data : Value) :
      Reached (e.evaluate source data).2
  | render {e : Engine} {budget : Nat} {d : Document} {data : Value} {parent? : Option Value}
      {node : Handle} {inPlace : Bool} {o : Outcome WalkStats} (he : Reached e)
      (h : e.render budget d data parent? node inPlace = some o) : Reached o.engine
  | renderClone {e : Engine} {budget : Nat} {d : Document} {data : Value} {node : Handle}
      {o : Outcome Handle} (he : Reached e) (h : e.renderClone budget d data node = some o) :
      Reached o.engine
  | process {e : Engine} {budget : Nat} {d : Document} {data : Value} {t : TemplateHandle}
      {o : Outcome Unit} (he : Reached e) (h : e.process budget d t data = some o) :
      Reached o.engine
  | findTemplate {e : Engine} (he : Reached e) (d : Document) (id : String) :
      Reached (e.findTemplate d id).engine
  | resolveTemplate {e : Engine} (he : Reached e) (d : Document) (reference : String) :
      Reached (e.resolveTemplate d reference).engine

theorem Reached.pool_sound (he : e.Reached) : e.pool.Sound := by
  induction he with
  | new owner config => exact Pool.new_sound _ _
  | register _ name f _ => exact Pool.new_sound _ _
  | setGlobal _ name v he => exact he
  | setLoader _ loader? he => exact he
  | clearCaches _ he => exact he
  | evaluate _ source data he => exact he
  | render _ h he => exact (render_pool he h).1
  | renderClone _ h he =>
    obtain ⟨⟨s', stats⟩, hrender, rfl⟩ := Option.map_eq_some_iff.mp h
    exact (renderOn_pool (s := ((Engine.stage _ _).cloneTemplate _ _).2) he hrender).1
  | @process e budget d data t o _ h he =>
    unfold Engine.process at h
    cases hnode : t.node? with
    | none =>
      rw [hnode] at h
      obtain rfl := Option.some.inj h
      exact he
    | some x =>
      rw [hnode] at h
      obtain ⟨o', hrender, rfl⟩ := Option.map_eq_some_iff.mp h
      exact (render_pool he hrender).1
  | findTemplate _ d id he => exact he
  | @resolveTemplate e _ d reference he =>
    have hsound : ((e.stage d).resolveTemplate (e.plan true) reference).2.pool.Sound := by
      rw [Stage.resolveTemplate_pool]
      exact he
    exact hsound

/-! ### Every point of a render -/

/-- A render that has done the steps of the record `log` and has come to the stack `w` and the stage
`s'` is in order: the next step finds the context that it was made for and its node, and each context
that a step opens is released once, after everything done in it. -/
structure InOrder (e : Engine) (s : Stage) (data : Value) (parent? : Option Value) (node : Handle)
    (inPlace : Bool) (log : List (Stage × Step)) (w : WorkStack Step) (s' : Stage) : Prop where
  done : (e.ledger s data parent? node inPlace log).done.map Lease.step = log.map Prod.snd
  waiting : (e.ledger s data parent? node inPlace log).waiting.map Lease.step = w.pending
  taken : ∀ st w', w.next = (some st, w') →
    ∃ l rest, (e.ledger s data parent? node inPlace log).waiting = l :: rest ∧ l.step = st ∧
      Held (e.contextOn s data parent?) log s' l ∧ s'.pool.get? st.context ≠ none ∧
      ∀ h, st.node? = some h → s'.document.contains h = true
  closes : ∀ id since, OpenedAt log s' id since →
    (e.ledger s data parent? node inPlace log).Closes id since
  ended : w.next.1 = none → (e.ledger s data parent? node inPlace log).waiting = []

theorem Reaches.inOrder (h : e.Reaches s data parent? node inPlace log w s')
    (hd : s.document.Forest) (hn : s.document.get? node = some n) (hs : s.pool.Sound) :
    e.InOrder s data parent? node inPlace log w s' := by
  obtain ⟨hbooks, hwaiting, hclean⟩ := h.books hs
  obtain ⟨hranged, -⟩ := h.ranged hd hn
  constructor
  · exact hbooks.steps
  · exact hwaiting
  · intro st w' hnext
    obtain ⟨hpending, -⟩ := WorkStack.pending_of_next hclean hnext
    rw [hpending] at hwaiting hranged
    obtain ⟨l, rest, hledger, rfl, -⟩ := List.map_eq_cons_iff.mp hwaiting
    have hheld := hbooks.held l (by simp [hledger])
    exact ⟨l, rest, hledger, rfl, hheld, hheld.live_now, fun h hnode => hranged.live hnode⟩
  · intro id since hopened
    exact hbooks.closes hopened
  · intro hend
    rw [WorkStack.pending_of_next_none hclean hend] at hwaiting
    exact List.map_eq_nil_iff.mp hwaiting

/-- Renders are in order at every point, and afterwards as many contexts are live as before. -/
theorem render_inOrder (he : e.Reached) (hd : d.WellFormed) (hnode : d.contains node = true)
    (data : Value) (parent? : Option Value) (inPlace : Bool) :
    (∀ log w s', e.Reaches (e.stage d) data parent? node inPlace log w s' →
      e.InOrder (e.stage d) data parent? node inPlace log w s') ∧
    ∀ budget o, e.render budget d data parent? node inPlace = some o →
      o.engine.pool.live = e.pool.live := by
  obtain ⟨n, hn⟩ := Document.exists_of_contains hnode
  constructor
  · intro log w s' h
    exact h.inOrder hd.forest hn he.pool_sound
  · intro budget o h
    exact (render_pool he.pool_sound h).2

/-- A list is rendered, and no context is left. -/
theorem render_inOrder_list :
    ∃ d budget o, Document.ofMarkup "<ul><li data-jst-select=\"items\"></li></ul>" = .ok d ∧
      (new 0 .default).render budget d (.object [("items", .array [.ofNat 1, .ofNat 2])]) none root
        true = some o ∧
      (∀ log w s', (new 0 .default).Reaches ((new 0 .default).stage d)
          (.object [("items", .array [.ofNat 1, .ofNat 2])]) none root true log w s' →
        (new 0 .default).InOrder ((new 0 .default).stage d)
          (.object [("items", .array [.ofNat 1, .ofNat 2])]) none root true log w s') ∧
      o.engine.pool.live = 0 := by
  have hparse : parseMarkup "<ul><li data-jst-select=\"items\"></li></ul>" =
      .ok [.element "ul" [] [.element "li" [("data-jst-select", "items")] []]] := by
    decide +kernel
  have hd := Document.ofMarkup_of_parseMarkup hparse
  generalize hdoc : Document.plantAll _ _ _ = d at hd
  have hnode : d.contains root = true := by
    subst hdoc
    decide +kernel
  have hrender : ((new 0 .default).render 9 d (.object [("items", .array [.ofNat 1, .ofNat 2])]) none
      root true).isSome = true := by
    subst hdoc
    decide +kernel
  obtain ⟨o, ho⟩ := Option.isSome_iff_exists.mp hrender
  obtain ⟨hpoints, hlive⟩ := render_inOrder (.new 0 .default)
    (Document.Reached.ofMarkup hd).forest.wellFormed hnode
    (.object [("items", .array [.ofNat 1, .ofNat 2])]) none true
  exact ⟨d, 9, o, hd, ho, hpoints, hlive 9 o ho⟩

end TreeTemplate.Engine
