import TreeTemplate.Proofs.Binding.Diary
import TreeTemplate.Proofs.Render.HostEdit

/-!
Caches that share a document.  They look at its nodes and are cleared while the document changes, in any
order.  What one of them has on record never misleads another one, nor itself after it was cleared, and a
look finds the one set of what this cache read of the node, or of the node that it was copied from
(`Desk.run_coherent`).
-/

namespace TreeTemplate

/-- All that a host does but copying nodes leaves what is on record where it is. -/
theorem HostEdit.tells {known : BindingCache → Prop} {issued : CacheId → Prop} {y : Diary}
    {d : Document} (change : HostEdit) (hcopy : ∀ h, change ≠ .deepClone h)
    (hy : y.Tells known issued d) : y.Tells known issued (change.apply d) := by
  have hL := Diary.lasting_covers y known
  have hd := hy.nodes
  have hcallbacks : ∀ (h : Handle) (f : List Callback → List Callback),
      (d.modify h fun n => { n with callbacks := f n.callbacks }).All
        (fun h n => y.Covers known (some h) n) (y.Covers known none) := by
    intro h f
    apply hd.put
    · intro n hn
      rw [Document.writable_of_get? hn]
      exact (hd.live h n hn).congr rfl
    · intro hnone
      rw [Document.writable, hnone, Option.getD_none]
      exact Diary.covers_of_none rfl
  have hshallow := fun hchange => change.all_of_not_deep hchange hL hd
  refine hy.edit ?_
  cases change with
  | deepClone h => exact absurd rfl (hcopy h)
  | setAttribute h name value =>
    exact hd.setAttribute hL fun n _ _ hn _ => (hd.live h n hn).congr rfl
  | removeAttribute h name =>
    exact hd.removeAttribute hL fun n _ _ hn _ => (hd.live h n hn).congr rfl
  | attachCallback h callback => exact hcallbacks h (· ++ [callback])
  | detachCallbacks h => exact hcallbacks h fun _ => []
  | _ => exact hshallow id

/-- A document and the caches that look at it. -/
structure Desk where
  document : Document
  caches : List BindingCache

namespace Desk

/-- What may happen at a desk.  Whoever looks brings a compiler along. -/
inductive Event where
  /-- A new cache, after those that there are. -/
  | openCache (namePrefix : String)
  | lookup (c : Nat) (k : Compiler) (h : Handle)
  | prime (c : Nat) (k : Compiler) (h : Handle)
  | clear (c : Nat)
  | edit (change : HostEdit)

variable (s : Desk) (y : Diary) (c : Nat) (k : Compiler)

/-- The document as one of the caches is going to look at it. -/
def scan? : Option Scan :=
  (s.caches[c]?).map fun b => ⟨s.document, k, b⟩

/-- The desk after one of the caches has looked at the document. -/
def settle (scan : Scan) : Desk :=
  ⟨scan.document, s.caches.set c scan.bindings⟩

/-- What an event does; nothing, if there is no such cache. -/
def step : Event → Desk
  | .openCache namePrefix =>
    { s with caches := s.caches ++ [BindingCache.new s.caches.length namePrefix] }
  | .lookup c k h =>
    match s.scan? c k with
    | some scan => s.settle c (scan.lookup h).2
    | none => s
  | .prime c k h =>
    match s.scan? c k with
    | some scan => s.settle c (scan.prime h)
    | none => s
  | .clear c => { s with caches := s.caches.modify c BindingCache.clear }
  | .edit change => { s with document := change.apply s.document }

def note : Event → Diary
  | .lookup c k h =>
    match s.scan? c k with
    | some scan => (Watch.look ⟨scan, y⟩ h).diary
    | none => y
  | .prime c k h =>
    match s.scan? c k with
    | some scan => (Watch.prime ⟨scan, y⟩ h).diary
    | none => y
  | .edit (.deepClone h) => (Diary.copyWithin s.document.reach none h (s.document, y)).2
  | _ => y

def run : List Event → Desk × Diary → Desk × Diary
  | [], s => s
  | e :: rest, (s, y) => run rest (s.step e, s.note y e)

/-! ### One event -/

/-- The caches have had this identity. -/
def Issued (id : CacheId) : Prop :=
  ∃ b, s.caches[id.owner]? = some b ∧ id.epoch ≤ b.id.epoch

/-- Every cache is in order and owns its identities, and the diary is right. -/
structure Consistent (s : Desk) (y : Diary) : Prop where
  owner : ∀ (c : Nat) (b : BindingCache), s.caches[c]? = some b → b.id.owner = c
  indexed : ∀ b ∈ s.caches, b.Indexed
  tells : y.Tells (· ∈ s.caches) s.Issued s.document

namespace Consistent

variable {s : Desk} {y : Diary} {c : Nat} {b : BindingCache} {k : Compiler}

theorem watch (hs : s.Consistent y) (hb : s.caches[c]? = some b) (k : Compiler) :
    Watch.Consistent (fun b' => ∃ j, j ≠ c ∧ s.caches[j]? = some b') s.Issued b.id
      ⟨⟨s.document, k, b⟩, y⟩ := by
  refine ⟨rfl, hs.indexed b (List.mem_of_getElem? hb), ?_, ?_, ?_⟩
  · rintro b' ⟨j, hne, hj⟩ hid
    rw [← hs.owner j b' hj, ← hs.owner c b hb, hid] at hne
    exact hne rfl
  · exact ⟨b, by rw [hs.owner c b hb, hb], Nat.le_refl _⟩
  · refine hs.tells.mono (fun b' hb' => Or.inl ?_) fun _ hid => hid
    rcases hb' with rfl | ⟨j, -, hj⟩
    · exact List.mem_of_getElem? hb
    · exact List.mem_of_getElem? hj

theorem settle (hs : s.Consistent y) (hb : s.caches[c]? = some b) {w : Watch}
    (hw : w.Consistent (fun b' => ∃ j, j ≠ c ∧ s.caches[j]? = some b') s.Issued b.id) :
    (s.settle c w.toScan).Consistent w.diary := by
  have hlt : c < s.caches.length := (List.getElem?_eq_some_iff.mp hb).choose
  have hself : (s.caches.set c w.bindings)[c]? = some w.bindings := List.getElem?_set_self hlt
  have hother : ∀ j, j ≠ c → (s.caches.set c w.bindings)[j]? = s.caches[j]? :=
    fun j hne => List.getElem?_set_ne hne.symm
  have hmem : ∀ b' ∈ s.caches.set c w.bindings,
      b' = w.bindings ∨ ∃ j, j ≠ c ∧ s.caches[j]? = some b' := by
    intro b' hb'
    obtain ⟨j, hj⟩ := List.mem_iff_getElem?.mp hb'
    by_cases hne : j = c
    · subst hne
      exact Or.inl (Option.some.inj (hj.symm.trans hself))
    · exact Or.inr ⟨j, hne, (hother j hne).symm.trans hj⟩
  constructor
  · intro j b' hj
    by_cases hne : j = c
    · subst hne
      obtain rfl := Option.some.inj (hself.symm.trans hj)
      rw [hw.id_eq, hs.owner j b hb]
    · exact hs.owner j b' ((hother j hne).symm.trans hj)
  · intro b' hb'
    rcases hmem b' hb' with rfl | ⟨j, -, hj⟩
    · exact hw.indexed
    · exact hs.indexed b' (List.mem_of_getElem? hj)
  · refine hw.tells.mono (fun b' hb' => Or.inl (hmem b' hb')) ?_
    rintro id ⟨b', hb', hepoch⟩
    by_cases hne : id.owner = c
    · obtain rfl := Option.some.inj ((hne ▸ hb').symm.trans hb)
      exact ⟨w.bindings, by rw [Desk.settle, hne, hself], hw.id_eq ▸ hepoch⟩
    · exact ⟨b', (hother _ hne).trans hb', hepoch⟩

/-- A cache that is opened has an identity of its own. -/
theorem not_issued_new (s : Desk) (namePrefix : String) :
    ¬ s.Issued (BindingCache.new s.caches.length namePrefix).id := by
  rintro ⟨b, hb, -⟩
  simp [BindingCache.new] at hb

/-- A cache that is cleared has an identity that it has not had. -/
theorem not_issued_clear (hs : s.Consistent y) (hb : s.caches[c]? = some b) :
    ¬ s.Issued b.clear.id := by
  rintro ⟨b', hb', hepoch⟩
  rw [BindingCache.clear, hs.owner c b hb, hb] at hb'
  obtain rfl := Option.some.inj hb'
  exact absurd hepoch (Nat.not_succ_le_self _)

theorem openCache (hs : s.Consistent y) (namePrefix : String) :
    (s.step (.openCache namePrefix)).Consistent y := by
  have hcases : ∀ (j : Nat) (b : BindingCache),
      (s.caches ++ [BindingCache.new s.caches.length namePrefix])[j]? = some b →
        s.caches[j]? = some b ∨ j = s.caches.length ∧ b = .new s.caches.length namePrefix := by
    intro j b hj
    rw [List.getElem?_append] at hj
    split at hj
    · exact Or.inl hj
    · rw [List.getElem?_singleton] at hj
      split at hj
      · exact Or.inr ⟨by omega, (Option.some.inj hj).symm⟩
      · simp at hj
  constructor
  · intro j b hj
    rcases hcases j b hj with hj | ⟨rfl, rfl⟩
    · exact hs.owner j b hj
    · rfl
  · intro b hb
    rcases List.mem_append.mp hb with hb | hb
    · exact hs.indexed b hb
    · obtain rfl := List.mem_singleton.mp hb
      exact BindingCache.new_indexed _ _
  · refine hs.tells.mono (fun b hb => ?_) ?_
    · rcases List.mem_append.mp hb with hb | hb
      · exact Or.inl hb
      · obtain rfl := List.mem_singleton.mp hb
        exact Or.inr (not_issued_new s namePrefix)
    · rintro id ⟨b, hb, hepoch⟩
      exact ⟨b, List.getElem?_append_left (List.getElem?_eq_some_iff.mp hb).choose ▸ hb, hepoch⟩

theorem clear (hs : s.Consistent y) (c : Nat) : (s.step (.clear c)).Consistent y := by
  have hcases : ∀ (j : Nat) (b : BindingCache),
      (s.caches.modify c BindingCache.clear)[j]? = some b →
        s.caches[j]? = some b ∨ ∃ b₀, s.caches[j]? = some b₀ ∧ b = b₀.clear := by
    intro j b hj
    rw [List.getElem?_modify] at hj
    split at hj
    · obtain ⟨b₀, hb₀, rfl⟩ := Option.map_eq_some_iff.mp hj
      exact Or.inr ⟨b₀, hb₀, rfl⟩
    · exact Or.inl (by simpa using hj)
  constructor
  · intro j b hj
    rcases hcases j b hj with hb | ⟨b₀, hb₀, rfl⟩
    · exact hs.owner j b hb
    · exact hs.owner j b₀ hb₀
  · intro b hb
    obtain ⟨j, hj⟩ := List.mem_iff_getElem?.mp hb
    rcases hcases j b hj with hb | ⟨b₀, hb₀, rfl⟩
    · exact hs.indexed b (List.mem_of_getElem? hb)
    · exact (hs.indexed b₀ (List.mem_of_getElem? hb₀)).clear
  · refine hs.tells.mono (fun b hb => ?_) ?_
    · obtain ⟨j, hj⟩ := List.mem_iff_getElem?.mp hb
      rcases hcases j b hj with hb | ⟨b₀, hb₀, rfl⟩
      · exact Or.inl (List.mem_of_getElem? hb)
      · exact Or.inr (hs.not_issued_clear hb₀)
    · rintro id ⟨b, hb, hepoch⟩
      have hget : (s.caches.modify c BindingCache.clear)[id.owner]? =
          some (if c = id.owner then b.clear else b) := by
        rw [List.getElem?_modify, hb, Option.map_eq_map, Option.map_some]
      refine ⟨_, hget, ?_⟩
      split
      · exact Nat.le_succ_of_le hepoch
      · exact hepoch

theorem step (hs : s.Consistent y) (e : Event) : (s.step e).Consistent (s.note y e) := by
  cases e with
  | openCache namePrefix => exact hs.openCache namePrefix
  | clear c => exact hs.clear c
  | lookup c k h =>
    rw [Desk.step, Desk.note, scan?]
    cases hb : s.caches[c]? with
    | none => exact hs
    | some b => exact hs.settle hb ((hs.watch hb k).look h)
  | prime c k h =>
    rw [Desk.step, Desk.note, scan?]
    cases hb : s.caches[c]? with
    | none => exact hs
    | some b =>
      have hprimed := Watch.prime_keeps (fun _ h hw => hw.look h) (hs.watch hb k) h
      rw [Option.map_some]
      dsimp only
      rw [← Watch.toScan_prime ⟨⟨s.document, k, b⟩, y⟩ h]
      exact hs.settle hb hprimed
  | edit change =>
    refine ⟨hs.owner, hs.indexed, ?_⟩
    have hother := fun hcopy => change.tells hcopy hs.tells
    cases change with
    | deepClone h =>
      have hcopied := Diary.Tells.copyWithin (s := (s.document, y)) hs.tells s.document.reach none h
      rw [Diary.fst_copyWithin] at hcopied
      exact hcopied
    | _ => exact hother fun _ heq => nomatch heq

theorem run (hs : s.Consistent y) (events : List Event) :
    (Desk.run events (s, y)).1.Consistent (Desk.run events (s, y)).2 := by
  induction events generalizing s y with
  | nil => exact hs
  | cons e rest ih => exact ih (hs.step e)

end Consistent

/-! ### Runs -/

theorem run_fst (events : List Event) (s : Desk) (y : Diary) :
    (run events (s, y)).1 = events.foldl step s := by
  induction events generalizing s y with
  | nil => rfl
  | cons e rest ih => exact ih (s.step e) (s.note y e)

/-- A desk without caches is consistent if nothing is on record. -/
theorem blank_consistent {d : Document}
    (hd : d.All (fun _ n => n.Blank) fun n => n.content = .root ∧ n.Blank) :
    Consistent ⟨d, []⟩ .blank := by
  refine ⟨by simp, by simp, by simp [Diary.blank], ?_, by simp [Diary.blank], by simp [Diary.blank]⟩
  exact hd.imp (fun _ _ hn => Diary.covers_of_none hn.bindingRef?)
    fun _ hn => Diary.covers_of_none hn.2.bindingRef?

/-- What the caches at a desk remember is what they read, according to the diary. -/
structure Coherent (s : Desk) (y : Diary) : Prop where
  first : ∀ b ∈ s.caches, b.sets[0]? = some (BindingSet.empty "")
  /-- The index leads from the fingerprint of each other set to its place, and nowhere else. -/
  places : ∀ b ∈ s.caches, ∀ key i, Dict.get? b.byFingerprint key = some i ↔
    1 ≤ i ∧ ∃ set, b.sets[i]? = some set ∧ set.fingerprint = key
  /-- No fingerprint has two sets. -/
  distinct : ∀ b ∈ s.caches, ∀ (i j : Nat) (set set' : BindingSet), b.sets[i]? = some set →
    b.sets[j]? = some set' → set.fingerprint = set'.fingerprint → i = j
  entries : ∀ b ∈ s.caches, b.stats.entries = b.stats.misses
  /-- A place on record is one of the cache that takes it for its own, and this cache has read the node
  or the one that it was copied from; no other cache takes it for its own. -/
  resolved : ∀ (c : Nat) b, s.caches[c]? = some b → ∀ h i, b.slotOf s.document h = some i →
    i < b.sets.size ∧ (∃ raw, y.seen b.id (s.document.spot h) = some raw) ∧
      ∀ (c' : Nat) b', c' ≠ c → s.caches[c']? = some b' → b'.slotOf s.document h = none
  /-- A cache that is opened or cleared has nothing on record, and it has read nothing. -/
  renewed : ∀ b, (∃ namePrefix, b = .new s.caches.length namePrefix) ∨
      (∃ b₀ ∈ s.caches, b = BindingCache.clear b₀) →
    (∀ h, b.slotOf s.document h = none) ∧ ∀ x, y.seen b.id x = none
  /-- A look at a node with a place on record finds the set of what was read. -/
  recalled : ∀ b ∈ s.caches, ∀ k h i, b.slotOf s.document h = some i →
    b.sets[i]? = some (Scan.lookup ⟨s.document, k, b⟩ h).1 ∧
      ∃ raw, y.seen b.id (s.document.spot h) = some raw ∧
        (Scan.lookup ⟨s.document, k, b⟩ h).1.fingerprint = fingerprint raw
  /-- A look at any other node finds the set of the bindings that the node has now. -/
  scanned : ∀ b ∈ s.caches, ∀ k h, b.slotOf s.document h = none →
    (Scan.lookup ⟨s.document, k, b⟩ h).1.fingerprint = fingerprint (b.rawBindings s.document h)
  /-- All looks so far found the set of what was read, which is still in the cache if that was not
  cleared in between. -/
  found : ∀ f ∈ y.found, ∃ raw i, f.raw? = some raw ∧ f.place? = some i ∧
    f.set.fingerprint = fingerprint raw ∧ ∀ b ∈ s.caches, b.id = f.cache → b.sets[i]? = some f.set
  /-- Between clears the same bindings have led to the same set. -/
  shared : ∀ f ∈ y.found, ∀ g ∈ y.found, f.cache = g.cache → f.raw? = g.raw? →
    f.place? = g.place? ∧ f.set = g.set

namespace Consistent

variable {s : Desk} {y : Diary} {c : Nat} {b : BindingCache}

/-- Nothing is on record of an identity that no cache has had. -/
theorem slotOf_of_not_issued (hs : s.Consistent y) (hb : ¬ s.Issued b.id) :
    (∀ h, b.slotOf s.document h = none) ∧ ∀ x, y.seen b.id x = none := by
  have hseen : ∀ x, y.seen b.id x = none := by
    intro x
    rw [Option.eq_none_iff_forall_ne_some]
    exact fun raw hraw => hb (hs.tells.seen _ _ raw hraw)
  refine ⟨fun h => ?_, hseen⟩
  rw [Option.eq_none_iff_forall_ne_some]
  intro i hi
  obtain ⟨raw, hraw, -⟩ :=
    Diary.covers_node hs.tells.nodes h _ (BindingCache.slotOf_eq_some_iff.mp hi)
  simp [hseen] at hraw

theorem coherent (hs : s.Consistent y) : s.Coherent y := by
  have hwatch : ∀ b ∈ s.caches, ∀ k, ∃ idle, Watch.Consistent idle s.Issued b.id
      ⟨⟨s.document, k, b⟩, y⟩ := by
    intro b hb k
    obtain ⟨c, hc⟩ := List.mem_iff_getElem?.mp hb
    exact ⟨_, hs.watch hc k⟩
  constructor
  case first => exact fun b hb => (hs.indexed b hb).first
  case places => exact fun b hb => (hs.indexed b hb).places
  case distinct => exact fun b hb i j set set' hi hj => (hs.indexed b hb).place_inj hi hj
  case entries =>
    intro b hb
    have hsize := (hs.indexed b hb).size_eq
    simp only [BindingCache.stats]
    omega
  case resolved =>
    intro c b hb h i hi
    obtain ⟨raw, set, hseen, hset, -⟩ := (hs.watch hb (Compiler.new .retry)).of_slotOf hi
    refine ⟨(Array.getElem?_eq_some_iff.mp hset).choose, ⟨raw, hseen⟩, fun c' b' hne hb' => ?_⟩
    rw [Option.eq_none_iff_forall_ne_some]
    intro j hj
    rw [BindingCache.slotOf_eq_some_iff] at hi hj
    have hid : b.id = b'.id := congrArg BindingRef.cache (Option.some.inj (hi.symm.trans hj))
    exact hne ((hs.owner c' b' hb').symm.trans (hid ▸ hs.owner c b hb))
  case renewed =>
    rintro b (⟨namePrefix, rfl⟩ | ⟨b₀, hb₀, rfl⟩)
    · exact hs.slotOf_of_not_issued (not_issued_new s namePrefix)
    · obtain ⟨c, hc⟩ := List.mem_iff_getElem?.mp hb₀
      exact hs.slotOf_of_not_issued (hs.not_issued_clear hc)
  case recalled =>
    intro b hb k h i hi
    obtain ⟨idle, hw⟩ := hwatch b hb k
    obtain ⟨raw, set, hseen, hset, hkey, hlookup, -⟩ := hw.of_slotOf hi
    have hlookup : Scan.lookup ⟨s.document, k, b⟩ h = (set, ⟨s.document, k, b⟩) := hlookup
    rw [hlookup]
    exact ⟨hset, raw, hseen, hkey⟩
  case scanned =>
    intro b hb k h hnone
    obtain ⟨idle, hw⟩ := hwatch b hb k
    obtain ⟨i, -, -, -, -, hkey, -⟩ := hw.of_slotOf_none hnone
    exact hkey
  case found =>
    intro f hf
    obtain ⟨-, raw, i, hraw, hplace, hkey, hset⟩ := hs.tells.found f hf
    exact ⟨raw, i, hraw, hplace, hkey, hset⟩
  case shared => exact hs.tells.shared

end Consistent

/-- However caches look at a document, are opened and cleared while it changes: they stay coherent. -/
theorem run_coherent {source : String} {d : Document} (hd : Document.ofMarkup source = .ok d)
    (events : List Event) :
    (run events (⟨d, []⟩, .blank)).1 = events.foldl step ⟨d, []⟩ ∧
      (run events (⟨d, []⟩, .blank)).1.Coherent (run events (⟨d, []⟩, .blank)).2 :=
  ⟨run_fst events _ _, ((blank_consistent (Document.blank_of_ofMarkup hd)).run events).coherent⟩

/-- Two caches look at a node whose bindings change, and at a copy of it, and one of them is cleared. -/
theorem run_coherent_pair :
    ∃ d, Document.ofMarkup "<p data-jst-if=\"a\"></p>" = .ok d ∧
      let k := Compiler.new .retry
      let r := run [.openCache "data-jst-", .openCache "data-jst-", .lookup 0 k ⟨1, 0⟩,
        .edit (.deepClone ⟨1, 0⟩), .edit (.setAttribute ⟨1, 0⟩ "data-jst-if" "b"),
        .lookup 0 k ⟨2, 0⟩, .lookup 1 k ⟨1, 0⟩, .lookup 0 k ⟨1, 0⟩, .clear 0, .lookup 0 k ⟨1, 0⟩]
        (⟨d, []⟩, .blank)
      r.2.found.map (fun f => (f.cache, f.raw?, f.place?)) =
        [(⟨0, 1⟩, some [(.gate, "b")], some 1), (⟨0, 0⟩, some [(.gate, "b")], some 2),
          (⟨1, 0⟩, some [(.gate, "b")], some 1), (⟨0, 0⟩, some [(.gate, "a")], some 1),
          (⟨0, 0⟩, some [(.gate, "a")], some 1)] ∧ r.1.Coherent r.2 := by
  have hparse : parseMarkup "<p data-jst-if=\"a\"></p>" =
      .ok [.element "p" [("data-jst-if", "a")] []] := by
    decide +kernel
  have hd := Document.ofMarkup_of_parseMarkup hparse
  refine ⟨_, hd, ?_, (run_coherent hd _).2⟩
  decide +kernel

end Desk

end TreeTemplate
