import TreeTemplate.Proofs.Context.Eval
import TreeTemplate.Proofs.Context.Mirror

/-!
Pooling does not show.  Whatever is asked of a pool, by live handles or dead ones, a pool that keeps
released contexts for reuse gives the answers of one that drops them, and the two go on holding the
same contexts under the same handles (`Pool.serveAll_pooling`).
-/

namespace TreeTemplate.Pool

variable {p q : Pool} {id : ContextId} {c k : Context} {F : Registry} {r : Request}

inductive Request
  | createRoot (data : Value) (globals : Variables)
  | createChild (data : Value) (parent : ContextId)
  | createItem (parent : ContextId) (data : Value) (index count : Nat)
  | setVariable (id : ContextId) (name : String) (v : Value)
  /-- Run an expression and hear of its error. -/
  | tryExecute (id : ContextId) (e : Evaluator)
  /-- Run an expression, `$default` standing in for an error. -/
  | execute (id : ContextId) (e : Evaluator)
  | recycle (id : ContextId)

inductive Answer
  /-- There is a new context of this handle. -/
  | opened (id : ContextId)
  | outcome (result : Except EvalError Value)
  | value (v : Value)
  | done
  /-- The handle is that of no live context. -/
  | dead

def visit (p : Pool) (id : ContextId) (work : Context → Answer × Context) : Answer × Pool :=
  match p.get? id with
  | some c => ((work c).1, p.put id (work c).2)
  | none => (.dead, p)

def serve (p : Pool) : Request → Answer × Pool
  | .createRoot data globals =>
    let (id, p) := p.createRoot data globals
    (.opened id, p)
  | .createChild data parent =>
    let (id, p) := p.createChild data parent
    (.opened id, p)
  | .createItem parent data index count =>
    let (id, p) := p.createItem parent data index count
    (.opened id, p)
  | .setVariable id name v => p.visit id fun c => (.done, c.setVariable name v)
  | .tryExecute id e => p.visit id fun c =>
    let (result, c) := c.tryExecute e
    (.outcome result, c)
  | .execute id e => p.visit id fun c =>
    let (v, c) := c.execute e
    (.value v, c)
  | .recycle id => (.done, p.recycle id)

/-- Answer requests one after another. -/
def serveAll (p : Pool) : List Request → List Answer × Pool
  | [] => ([], p)
  | r :: rest =>
    let (answer, p) := p.serve r
    let (answers, p) := p.serveAll rest
    (answer :: answers, p)

/-! ### What is opened -/

theorem createChild_opens (hs : p.Sound) (data : Value) (parent : ContextId) :
    ∃ c, Opened p (p.createChild data parent).1 c (p.createChild data parent).2 := by
  cases hparent : p.get? parent with
  | some c => exact ⟨_, createChild_opened hs hparent data⟩
  | none =>
    have heq : p.createChild data parent =
        p.takeSpare.2.store (p.takeSpare.1.resetRoot data []) := by
      simp only [createChild, get?_takeSpare, hparent]
    rw [heq]
    exact ⟨_, store_opened hs _⟩

theorem createItem_opens (hs : p.Sound) (parent : ContextId) (data : Value) (index count : Nat) :
    ∃ c, Opened p (p.createItem parent data index count).1 c
      (p.createItem parent data index count).2 := by
  obtain ⟨c, ho⟩ := createChild_opens hs data parent
  have heq : p.createItem parent data index count =
      ((p.createChild data parent).1,
        (p.createChild data parent).2.put (p.createChild data parent).1
          (c.setPosition index count)) := by
    simp only [createItem, ho.get?_self]
  rw [heq]
  exact ⟨_, ho.put _⟩

/-- Whatever the pool opens next takes the place of no live context, and those stay as they are. -/
def OpensFresh (p : Pool) : Prop :=
  ∀ r id, (p.serve r).1 = .opened id →
    p.get? id = none ∧ ∀ x, x ≠ id → (p.serve r).2.get? x = p.get? x

theorem Sound.opensFresh (hs : p.Sound) : p.OpensFresh := by
  have hopened : ∀ {p' : Pool} {id : ContextId} {c : Context}, Opened p id c p' →
      p.get? id = none ∧ ∀ x, x ≠ id → p'.get? x = p.get? x :=
    fun ho => ⟨ho.fresh, fun x hx => ho.get?_of_ne hx⟩
  have hvisit : ∀ (x id : ContextId) (work : Context → Answer × Context),
      (∀ c, (work c).1 ≠ .opened id) → (p.visit x work).1 ≠ .opened id := by
    intro x id work hwork
    unfold visit
    split
    · exact hwork _
    · simp
  intro r id hanswer
  cases r with
  | createRoot data globals =>
    obtain rfl := Answer.opened.inj hanswer
    obtain ⟨functions, -, ho⟩ := createRoot_opened hs data globals
    exact hopened ho
  | createChild data parent =>
    obtain rfl := Answer.opened.inj hanswer
    obtain ⟨c, ho⟩ := createChild_opens hs data parent
    exact hopened ho
  | createItem parent data index count =>
    obtain rfl := Answer.opened.inj hanswer
    obtain ⟨c, ho⟩ := createItem_opens hs parent data index count
    exact hopened ho
  | setVariable x name v => exact absurd hanswer (hvisit x id _ fun c => by simp)
  | tryExecute x e => exact absurd hanswer (hvisit x id _ fun c => by simp)
  | execute x e => exact absurd hanswer (hvisit x id _ fun c => by simp)
  | recycle x => simp [serve] at hanswer

/-! ### Pools that look the same -/

/-- Pools with the same contexts in the same slots, which know the functions `F`.  What the pools keep
for reuse may differ. -/
structure Level (F : Registry) (p q : Pool) : Prop where
  slots_eq : q.slots = p.slots
  free_eq : q.free = p.free
  sound : p.Sound
  left : p.Knows F
  right : q.Knows F

namespace Level

theorem get?_eq (h : Level F p q) (x : ContextId) : q.get? x = p.get? x := by
  rw [get?, h.slots_eq, get?]

theorem live_eq (h : Level F p q) : q.live = p.live := by
  rw [live, h.slots_eq, live]

theorem sound_right (h : Level F p q) : q.Sound :=
  ⟨h.free_eq ▸ h.sound.free_nodup, by rw [h.free_eq, h.slots_eq]; exact h.sound.mem_free⟩

theorem new (F : Registry) (pooling pooling' : Bool) :
    Level F (new F pooling) (new F pooling') :=
  ⟨rfl, rfl, new_sound F pooling, new_knows F pooling, new_knows F pooling'⟩

/-- A context that is set up alike on both sides gets the same handle. -/
theorem opened (h : Level F p q) (hc : c.functions = F) :
    (q.takeSpare.2.store c).1 = (p.takeSpare.2.store c).1 ∧
      Level F (p.takeSpare.2.store c).2 (q.takeSpare.2.store c).2 := by
  have hp := store_opened h.sound c
  have hq := store_opened h.sound_right c
  obtain ⟨hpslots, hpfree, -⟩ := takeSpare_slots p
  obtain ⟨hqslots, hqfree, -⟩ := takeSpare_slots q
  have hslots : q.takeSpare.2.slots = p.takeSpare.2.slots := by rw [hqslots, hpslots, h.slots_eq]
  have hfree : q.takeSpare.2.free = p.takeSpare.2.free := by rw [hqfree, hpfree, h.free_eq]
  have hstore : (q.takeSpare.2.store c).1 = (p.takeSpare.2.store c).1 ∧
      (q.takeSpare.2.store c).2.slots = (p.takeSpare.2.store c).2.slots ∧
      (q.takeSpare.2.store c).2.free = (p.takeSpare.2.store c).2.free := by
    unfold store
    rw [hfree, hslots]
    cases p.takeSpare.2.free with
    | nil => exact ⟨rfl, rfl, rfl⟩
    | cons slot rest => exact ⟨rfl, rfl, rfl⟩
  exact ⟨hstore.1, hstore.2.1, hstore.2.2, hp.sound, h.left.opened hp hc, h.right.opened hq hc⟩

/-- A root context is the same, whatever it was made from. -/
theorem resetRoot (h : Level F p q) (data : Value) (globals : Variables) :
    (p.takeSpare.1.resetRoot data globals) = Context.root data globals F ∧
      (q.takeSpare.1.resetRoot data globals) = Context.root data globals F := by
  have hset : ∀ {p : Pool}, p.Knows F →
      p.takeSpare.1.resetRoot data globals = Context.root data globals F := by
    intro p hp
    have hfunctions : p.takeSpare.1.functions = F := hp.uniform.takeSpare.2 hp.functions_eq
    rw [Context.root, Context.resetRoot, hfunctions]
    rfl
  exact ⟨hset h.left, hset h.right⟩

theorem createRoot (h : Level F p q) (data : Value) (globals : Variables) :
    (q.createRoot data globals).1 = (p.createRoot data globals).1 ∧
      Level F (p.createRoot data globals).2 (q.createRoot data globals).2 := by
  obtain ⟨hp, hq⟩ := h.resetRoot data globals
  simp only [Pool.createRoot, hp, hq]
  exact h.opened rfl

theorem createChild (h : Level F p q) (data : Value) (parent : ContextId) :
    (q.createChild data parent).1 = (p.createChild data parent).1 ∧
      Level F (p.createChild data parent).2 (q.createChild data parent).2 := by
  simp only [Pool.createChild, get?_takeSpare, h.get?_eq]
  cases hparent : p.get? parent with
  | some c => exact h.opened (c := c.child data) (h.left.live parent c hparent)
  | none =>
    obtain ⟨hp, hq⟩ := h.resetRoot data []
    simp only [hp, hq]
    exact h.opened rfl

theorem put (h : Level F p q) (hk : p.get? id = some k) (hc : c.functions = F) :
    Level F (p.put id c) (q.put id c) := by
  have hk' : q.get? id = some k := (h.get?_eq id).trans hk
  refine ⟨?_, ?_, h.sound.put hk c, h.left.put hk hc, h.right.put hk' hc⟩
  · simp only [Pool.put, hk, hk', h.slots_eq]
  · simp only [Pool.put, hk, hk', h.free_eq]

theorem createItem (h : Level F p q) (parent : ContextId) (data : Value) (index count : Nat) :
    (q.createItem parent data index count).1 = (p.createItem parent data index count).1 ∧
      Level F (p.createItem parent data index count).2
        (q.createItem parent data index count).2 := by
  obtain ⟨hid, hchild⟩ := h.createChild data parent
  simp only [Pool.createItem, hid, hchild.get?_eq]
  cases hk : (p.createChild data parent).2.get? (p.createChild data parent).1 with
  | some k => exact ⟨rfl, hchild.put hk (hchild.left.live _ k hk)⟩
  | none => exact ⟨rfl, hchild⟩

theorem visit (h : Level F p q) (id : ContextId) {work : Context → Answer × Context}
    (hwork : ∀ c, (work c).2.functions = c.functions) :
    (q.visit id work).1 = (p.visit id work).1 ∧
      Level F (p.visit id work).2 (q.visit id work).2 := by
  simp only [Pool.visit, h.get?_eq]
  cases hk : p.get? id with
  | some k => exact ⟨rfl, h.put hk ((hwork k).trans (h.left.live id k hk))⟩
  | none => exact ⟨rfl, h⟩

theorem recycle (h : Level F p q) (id : ContextId) : Level F (p.recycle id) (q.recycle id) := by
  cases hk : p.get? id with
  | some k =>
    have hk' : q.get? id = some k := (h.get?_eq id).trans hk
    refine ⟨?_, ?_, h.sound.recycle hk, h.left.recycle hk, h.right.recycle hk'⟩
    · simp only [Pool.recycle, hk, hk', h.slots_eq]
    · simp only [Pool.recycle, hk, hk', h.free_eq]
  | none =>
    have hk' : q.get? id = none := (h.get?_eq id).trans hk
    simp only [Pool.recycle, hk, hk']
    exact h

/-- The pools answer a request alike. -/
theorem serve (h : Level F p q) (r : Request) :
    (q.serve r).1 = (p.serve r).1 ∧ Level F (p.serve r).2 (q.serve r).2 := by
  cases r with
  | createRoot data globals =>
    obtain ⟨hid, hlevel⟩ := h.createRoot data globals
    exact ⟨congrArg Answer.opened hid, hlevel⟩
  | createChild data parent =>
    obtain ⟨hid, hlevel⟩ := h.createChild data parent
    exact ⟨congrArg Answer.opened hid, hlevel⟩
  | createItem parent data index count =>
    obtain ⟨hid, hlevel⟩ := h.createItem parent data index count
    exact ⟨congrArg Answer.opened hid, hlevel⟩
  | setVariable id name v => exact h.visit id fun c => rfl
  | tryExecute id e => exact h.visit id fun c => c.functions_tryExecute e
  | execute id e => exact h.visit id fun c => c.functions_execute e
  | recycle id => exact ⟨rfl, h.recycle id⟩

theorem serveAll (h : Level F p q) (requests : List Request) :
    (q.serveAll requests).1 = (p.serveAll requests).1 ∧
      Level F (p.serveAll requests).2 (q.serveAll requests).2 := by
  induction requests generalizing p q with
  | nil => exact ⟨rfl, h⟩
  | cons r rest ih =>
    obtain ⟨hanswer, hlevel⟩ := h.serve r
    obtain ⟨hanswers, hlevel'⟩ := ih hlevel
    refine ⟨?_, hlevel'⟩
    simp only [Pool.serveAll, hanswer, hanswers]

end Level

/-- Whether a pool keeps released contexts for reuse does not show: it gives the same answers, holds the
same contexts under the same handles and has as many of them.  Either way the free list holds every
vacant slot once and nothing else, so that no live context is ever lost to a new one. -/
theorem serveAll_pooling (F : Registry) (requests : List Request) :
    let kept := (new F true).serveAll requests
    let dropped := (new F false).serveAll requests
    dropped.1 = kept.1 ∧ (∀ id, dropped.2.get? id = kept.2.get? id) ∧
      dropped.2.live = kept.2.live ∧ (kept.2.Sound ∧ dropped.2.Sound) ∧
      kept.2.OpensFresh ∧ dropped.2.OpensFresh := by
  obtain ⟨hanswers, h⟩ := (Level.new F true false).serveAll requests
  exact ⟨hanswers, h.get?_eq, h.live_eq, ⟨h.sound, h.sound_right⟩, h.sound.opensFresh,
    h.sound_right.opensFresh⟩

end TreeTemplate.Pool
