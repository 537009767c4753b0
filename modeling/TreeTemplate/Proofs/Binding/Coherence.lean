import TreeTemplate.Proofs.Binding.Meaning
import TreeTemplate.Proofs.Binding.Scan
import TreeTemplate.Proofs.Document.Records
import TreeTemplate.Proofs.Document.Unscanned
import TreeTemplate.Proofs.Render.Survey

/-!
What a binding cache can change.  Every set on record that a cache takes for its own is the set of the
bindings that the node has (`Scan.Coherent`), so a look at a node finds what reading its attributes
anew would find, and scans over documents that differ only in what is on record find the same
(`Scan.Twins`).
-/

namespace TreeTemplate

/-- The bindings written on a node, in the order of fingerprints. -/
def Node.rawBindings (namePrefix : String) (n : Node) : List RawBinding :=
  Binding.all.filterMap fun b => (n.attribute? (namePrefix ++ b.suffix)).map fun v => (b, v)

theorem Node.rawBindings_congr {n n' : Node} (h : n'.content = n.content) (namePrefix : String) :
    n'.rawBindings namePrefix = n.rawBindings namePrefix := by
  simp only [rawBindings, attribute?, h]

theorem Node.rawBindings_of_root {n : Node} (h : n.content = .root) (namePrefix : String) :
    n.rawBindings namePrefix = [] := by
  refine List.filterMap_eq_nil_iff.mpr fun b _ => ?_
  simp [attribute?, h]

/-- Only elements have bindings. -/
theorem Node.isElement_of_rawBindings {n : Node} {namePrefix : String}
    (h : n.rawBindings namePrefix ≠ []) : n.isElement = true := by
  cases hcontent : n.content with
  | element tag attributes => simp [isElement, hcontent]
  | _ => simp [rawBindings, attribute?, hcontent] at h

/-! ### Caches -/

namespace BindingCache

variable {b b' : BindingCache} {n n' : Node} {raw : List RawBinding} {i : Nat}

/-- The set at a place is that of the given bindings. -/
def Places (b : BindingCache) (i : Nat) (raw : List RawBinding) : Prop :=
  ∃ set, b.sets[i]? = some set ∧ set.plain = BindingSet.meaning raw

/-- Every fingerprint leads to the set of the bindings that it is of. -/
structure Honest (b : BindingCache) : Prop where
  first : b.sets[0]? = some (BindingSet.empty "")
  indexed : ∀ key i, Dict.get? b.byFingerprint key = some i →
    ∃ raw, fingerprint raw = key ∧ b.Places i raw

/-- What the node has on record of this cache is not newer than the cache, and if the cache takes it for
its own it is the set of the node's bindings. -/
def Vouches (b : BindingCache) (n : Node) : Prop :=
  ∀ r ∈ n.bindingRef?, r.cache.owner = b.id.owner →
    r.cache.epoch ≤ b.id.epoch ∧ (r.cache = b.id → b.Places r.index (n.rawBindings b.namePrefix))

theorem Places.extend (h : Extends b b') (hp : b.Places i raw) : b'.Places i raw := by
  obtain ⟨set, hset, hplain⟩ := hp
  exact ⟨set, h.sets i set hset, hplain⟩

theorem Vouches.extend (h : Extends b b') (hname : b'.namePrefix = b.namePrefix) (hv : b.Vouches n) :
    b'.Vouches n := by
  intro r hr howner
  rw [h.id_eq] at howner ⊢
  rw [hname]
  obtain ⟨hepoch, hplaces⟩ := hv r hr howner
  exact ⟨hepoch, fun hcache => (hplaces hcache).extend h⟩

theorem Vouches.congr (hv : b.Vouches n) (href : n'.bindingRef? = n.bindingRef?)
    (hraw : n'.rawBindings b.namePrefix = n.rawBindings b.namePrefix) : b.Vouches n' := by
  intro r hr
  rw [href] at hr
  rw [hraw]
  exact hv r hr

theorem vouches_of_none (h : n.bindingRef? = none) : b.Vouches n := by
  intro r hr
  simp [h] at hr

/-- A set on record is that of the node's bindings. -/
theorem Vouches.setOf?_plain (hv : b.Vouches n) {set : BindingSet} (hset : b.setOf? n = some set) :
    set.plain = BindingSet.meaning (n.rawBindings b.namePrefix) := by
  simp only [BindingCache.setOf?, Option.bind_eq_some_iff] at hset
  obtain ⟨r, hr, hset⟩ := hset
  split at hset
  · next hid =>
    obtain ⟨set', hset', hplain⟩ := (hv r hr (congrArg CacheId.owner hid)).2 hid
    obtain rfl := Option.some.inj (hset.symm.trans hset')
    exact hplain
  · simp at hset

theorem new_honest (owner : Nat) (namePrefix : String) : (new owner namePrefix).Honest :=
  ⟨rfl, by simp [new, Dict.get?]⟩

theorem clear_honest (hb : b.Honest) : b.clear.Honest := by
  constructor
  · rw [sets_clear hb.first]
    rfl
  · simp [clear, Dict.get?]

/-- What is on record on a node is old to a cache that was cleared. -/
theorem Vouches.clear (hv : b.Vouches n) : b.clear.Vouches n := by
  intro r hr howner
  obtain ⟨hepoch, -⟩ := hv r hr howner
  refine ⟨Nat.le_succ_of_le hepoch, fun hcache => ?_⟩
  have hnew : r.cache.epoch = b.id.epoch + 1 := congrArg CacheId.epoch hcache
  omega

/-- Interning gives the place of the set of the bindings. -/
theorem intern_honest (hb : b.Honest) {k : Compiler} (hk : k.Faithful) (raw : List RawBinding) :
    (b.intern k raw).2.1.Honest ∧ (b.intern k raw).2.2.Faithful ∧ Extends b (b.intern k raw).2.1 ∧
      (b.intern k raw).2.1.namePrefix = b.namePrefix ∧
      (b.intern k raw).2.1.Places (b.intern k raw).1 raw := by
  unfold intern
  split
  · next hnil =>
    rw [List.isEmpty_iff] at hnil
    subst hnil
    exact ⟨hb, hk, .refl b, rfl, _, hb.first, rfl⟩
  dsimp only
  split
  · next i hi =>
    obtain ⟨raw', hkey, hplaces⟩ := hb.indexed _ i hi
    have heq : raw' = raw := fingerprint_inj hkey
    exact ⟨⟨hb.first, hb.indexed⟩, hk, ⟨rfl, fun _ _ h => h⟩, rfl, heq ▸ hplaces⟩
  · obtain ⟨hplain, hk'⟩ := BindingSet.build_plain hk raw
    generalize BindingSet.build (fingerprint raw) raw k = built at hplain hk' ⊢
    have hpush : ∀ (i : Nat) (other : BindingSet), b.sets[i]? = some other →
        (b.sets.push built.1)[i]? = some other :=
      fun _ _ hother => getElem?_push_eq_some_iff.mpr (Or.inr hother)
    refine ⟨⟨hpush _ _ hb.first, fun key i hi => ?_⟩, hk', ⟨rfl, hpush⟩, rfl, built.1,
      Array.getElem?_push_size, hplain⟩
    rw [Dict.get?_put] at hi
    split at hi
    · next hkey =>
      obtain rfl := Option.some.inj hi
      exact ⟨raw, hkey.symm, built.1, Array.getElem?_push_size, hplain⟩
    · obtain ⟨raw', hkey, set, hset, hplain'⟩ := hb.indexed key i hi
      exact ⟨raw', hkey, set, hpush i set hset, hplain'⟩

end BindingCache

/-! ### Nodes -/

variable {known : BindingCache → Prop} {F : Registry} {n n' : Node}

/-- What a node has on record is right for every cache that there is, and its callbacks leave a context
its functions. -/
structure Node.Trusted (known : BindingCache → Prop) (F : Registry) (n : Node) : Prop where
  vouched : ∀ b, known b → b.Vouches n
  steady : Steady (· = F) n.callbacks

/-- What handles to removed nodes read as: there are no attributes, and nothing but a set on record, if
there is one. -/
structure Node.Vacated (known : BindingCache → Prop) (F : Registry) (n : Node) : Prop where
  trusted : n.Trusted known F
  content : n.content = .root
  bare : n.bindingRef? ≠ none → n.unscanned = Node.new .root

theorem Node.Trusted.congr (hn : n.Trusted known F) (href : n'.bindingRef? = n.bindingRef?)
    (hcallbacks : n'.callbacks = n.callbacks)
    (hraw : ∀ b, known b → n'.rawBindings b.namePrefix = n.rawBindings b.namePrefix) :
    n'.Trusted known F :=
  ⟨fun b hb => (hn.vouched b hb).congr href (hraw b hb), hcallbacks ▸ hn.steady⟩

theorem Document.All.retrust {known' : BindingCache → Prop} {d : Document}
    (hd : d.All (fun _ n => n.Trusted known F) (Node.Vacated known F))
    (h : ∀ n : Node, n.Trusted known F → n.Trusted known' F) :
    d.All (fun _ n => n.Trusted known' F) (Node.Vacated known' F) :=
  hd.imp (fun _ n hn => h n hn) fun n hn => ⟨h n hn.trusted, hn.content, hn.bare⟩

theorem Node.Blank.trusted (hn : n.Blank) : n.Trusted known F := by
  refine ⟨fun b _ => BindingCache.vouches_of_none hn.bindingRef?, ?_⟩
  rw [hn.callbacks]
  simp [Steady]

theorem lasting_trusted (known : BindingCache → Prop) (F : Registry) :
    Lasting (fun _ n => n.Trusted known F) (Node.Vacated known F) := by
  constructor
  · intro h n n' hn hkin
    exact hn.congr hkin.bindingRef? hkin.callbacks fun b _ => Node.rawBindings_congr hkin.content _
  · intro h n hn _
    exact hn.trusted
  · intro n hcontent hn
    refine ⟨hn.trusted, hcontent, fun href => absurd hn.bindingRef? href⟩

theorem Document.get?_modify_id (d : Document) (h x : Handle) :
    (d.modify h id).get? x = d.get? x := by
  cases hn : d.get? h with
  | some n => rw [modify, writable_of_get? hn, id, put_self hn]
  | none =>
    rw [modify, put, hn]
    rfl

/-! ### Scans -/

namespace Scan

/-- What stays as it is while a cache is at work: its identity, what the names of binding attributes
begin with, the caches that are idle, and the functions of contexts. -/
structure Setting where
  id : CacheId
  namePrefix : String
  idle : BindingCache → Prop
  functions : Registry

variable {s s₁ s₂ : Scan} {σ τ : Setting} {d : Document} {h : Handle}

def Setting.Known (σ : Setting) (b b' : BindingCache) : Prop :=
  b' = b ∨ σ.idle b'

/-- Every record of a document is right for every cache that there is, `b` being at work. -/
def Setting.Trusts (σ : Setting) (b : BindingCache) (d : Document) : Prop :=
  d.All (fun _ n => n.Trusted (σ.Known b) σ.functions) (Node.Vacated (σ.Known b) σ.functions)

/-- What is remembered is what there is: compiled expressions, sets by fingerprint, and what nodes have
on record of the cache at work and of idle ones. -/
structure Coherent (σ : Setting) (s : Scan) : Prop where
  id_eq : s.bindings.id = σ.id
  namePrefix_eq : s.bindings.namePrefix = σ.namePrefix
  faithful : s.compiler.Faithful
  honest : s.bindings.Honest
  apart : ∀ b, σ.idle b → b.id.owner ≠ σ.id.owner ∧ b.namePrefix = σ.namePrefix
  nodes : σ.Trusts s.bindings s.document

namespace Coherent

theorem node (hs : s.Coherent σ) (h : Handle) :
    (s.document.node h).Trusted (σ.Known s.bindings) σ.functions := by
  unfold Document.node
  cases hn : s.document.get? h with
  | none => exact hs.nodes.vacant.trusted
  | some n => exact hs.nodes.live h n hn

/-- The document may change as long as its nodes are to be trusted. -/
theorem edit (hs : s.Coherent σ) (hd : σ.Trusts s.bindings d) :
    Coherent σ { s with document := d } :=
  ⟨hs.id_eq, hs.namePrefix_eq, hs.faithful, hs.honest, hs.apart, hd⟩

/-- Interning for a node keeps what there is coherent, and the node may then have the set on record. -/
theorem intern (hs : s.Coherent σ) (raw : List RawBinding) :
    let interned := s.bindings.intern s.compiler raw
    Coherent σ ⟨s.document, interned.2.2, interned.2.1⟩ ∧ interned.2.1.Places interned.1 raw := by
  obtain ⟨hhonest, hfaithful, hextends, hname, hplaces⟩ :=
    BindingCache.intern_honest hs.honest hs.faithful raw
  dsimp only
  generalize s.bindings.intern s.compiler raw = interned at *
  obtain ⟨i, bindings, compiler⟩ := interned
  dsimp only at *
  have htrusted : ∀ n : Node, n.Trusted (σ.Known s.bindings) σ.functions →
      n.Trusted (σ.Known bindings) σ.functions := by
    rintro n hn
    refine ⟨?_, hn.steady⟩
    rintro b (rfl | hb)
    · exact (hn.vouched _ (Or.inl rfl)).extend hextends hname
    · exact hn.vouched b (Or.inr hb)
  exact ⟨⟨hextends.id_eq.trans hs.id_eq, hname.trans hs.namePrefix_eq, hfaithful, hhonest, hs.apart,
    hs.nodes.retrust htrusted⟩, hplaces⟩

/-- A node with the set of its bindings on record is to be trusted. -/
theorem recorded {i : Nat} (hs : s.Coherent σ) (hsteady : Steady (· = σ.functions) n.callbacks)
    (hplaces : s.bindings.Places i (n.rawBindings s.bindings.namePrefix)) :
    ({ n with bindingRef? := some ⟨s.bindings.id, i⟩ } : Node).Trusted (σ.Known s.bindings)
      σ.functions := by
  refine ⟨?_, hsteady⟩
  rintro b (rfl | hb) r hr howner
  · obtain rfl := Option.some.inj hr
    exact ⟨Nat.le_refl _, fun _ => hplaces⟩
  · obtain rfl := Option.some.inj hr
    rw [hs.id_eq] at howner
    exact absurd howner.symm (hs.apart b hb).1

/-- Putting the set of a node on record. -/
theorem setBindingRef {i : Nat} (hs : s.Coherent σ) (h : Handle)
    (hplaces : s.bindings.Places i ((s.document.node h).rawBindings s.bindings.namePrefix)) :
    Coherent σ { s with document := s.document.setBindingRef h ⟨s.bindings.id, i⟩ } := by
  apply hs.edit
  apply hs.nodes.put
  · intro n hn
    rw [Document.node_of_get? hn] at hplaces
    rw [Document.writable_of_get? hn]
    exact hs.recorded (hs.nodes.live h n hn).steady hplaces
  · intro hnone
    have hwritable : s.document.writable h = Node.new .root := by
      rw [Document.writable, hnone, Option.getD_none]
    have hvacant : s.document.node h = s.document.vacant := by
      rw [Document.node, hnone, Option.getD_none]
    rw [hvacant, Node.rawBindings_of_root hs.nodes.vacant.content] at hplaces
    rw [hwritable]
    refine ⟨hs.recorded (by simp [Steady, Node.new]) ?_, rfl, fun _ => rfl⟩
    rwa [Node.rawBindings_of_root rfl]

/-- Writing back a node that has a set on record changes nothing, whether the node is live or not. -/
theorem modify_id (hs : s.Coherent σ) (href : (s.document.node h).bindingRef? ≠ none) :
    s.document.unscanned.modify h id = s.document.unscanned := by
  cases hn : s.document.get? h with
  | some n =>
    have hlive : s.document.unscanned.get? h = some n.unscanned := by
      rw [Document.get?_unscanned, hn, Option.map_some]
    rw [Document.modify, Document.writable_of_get? hlive]
    exact Document.put_self hlive
  | none =>
    rw [Document.node, hn, Option.getD_none] at href
    have hdead : s.document.unscanned.get? h = none := by
      rw [Document.get?_unscanned, hn, Option.map_none]
    have hbare : s.document.unscanned.vacant = Node.new .root := hs.nodes.vacant.bare href
    rw [Document.modify, Document.writable, hdead, Option.getD_none, Document.put, hdead, ← hbare]
    rfl

/-- A look at a node finds the set of its bindings, and apart from the record it writes the node
back. -/
theorem lookup (hs : s.Coherent σ) (h : Handle) :
    (s.lookup h).1.plain = BindingSet.meaning ((s.document.node h).rawBindings σ.namePrefix) ∧
      (s.lookup h).2.Coherent σ ∧
      (s.lookup h).2.document.unscanned = s.document.unscanned.modify h id := by
  unfold Scan.lookup
  rw [BindingCache.remembered?_eq, ← hs.namePrefix_eq]
  cases hset : s.bindings.setOf? (s.document.node h) with
  | some set =>
    have hvouched := (hs.node h).vouched _ (Or.inl rfl)
    refine ⟨hvouched.setOf?_plain hset, hs, (hs.modify_id fun hnone => ?_).symm⟩
    simp [BindingCache.setOf?, hnone] at hset
  | none =>
    have hraw : s.bindings.rawBindings s.document h =
        (s.document.node h).rawBindings s.bindings.namePrefix := rfl
    obtain ⟨hinterned, hplaces⟩ := hs.intern (s.bindings.rawBindings s.document h)
    have hname := hinterned.namePrefix_eq.trans hs.namePrefix_eq.symm
    dsimp only at hinterned hplaces hname ⊢
    generalize s.bindings.intern s.compiler (s.bindings.rawBindings s.document h) = interned at *
    obtain ⟨i, bindings, compiler⟩ := interned
    dsimp only at *
    have hplaced := hplaces
    rw [hraw, ← hname] at hplaced
    obtain ⟨set, hset', hplain⟩ := hplaces
    refine ⟨?_, hinterned.setBindingRef h hplaced, Document.unscanned_setBindingRef _ _ _⟩
    rw [hset', Option.getD_some, hplain, hraw]

end Coherent

/-! ### Two scans -/

/-- Coherent scans of documents that differ in nothing but what is on record. -/
structure Twins (σ τ : Setting) (s₁ s₂ : Scan) : Prop where
  left : s₁.Coherent σ
  right : s₂.Coherent τ
  namePrefix : τ.namePrefix = σ.namePrefix
  functions : τ.functions = σ.functions
  document : s₂.document.unscanned = s₁.document.unscanned

namespace Twins

theorem node_eq (ht : Twins σ τ s₁ s₂) (h : Handle) :
    (s₂.document.node h).unscanned = (s₁.document.node h).unscanned := by
  rw [← Document.node_unscanned, ht.document, Document.node_unscanned]

theorem elementChildren_eq (ht : Twins σ τ s₁ s₂) (h : Handle) :
    s₂.document.elementChildren h = s₁.document.elementChildren h := by
  rw [← Document.elementChildren_unscanned, ht.document, Document.elementChildren_unscanned]

theorem reach_eq (ht : Twins σ τ s₁ s₂) : s₂.document.reach = s₁.document.reach := by
  rw [← Document.reach_unscanned, ht.document, Document.reach_unscanned]

/-- Looks at the same node find sets of one meaning. -/
theorem lookup (ht : Twins σ τ s₁ s₂) (h : Handle) :
    (s₂.lookup h).1.plain = (s₁.lookup h).1.plain ∧ Twins σ τ (s₁.lookup h).2 (s₂.lookup h).2 := by
  obtain ⟨hset₁, hs₁, hdocument₁⟩ := ht.left.lookup h
  obtain ⟨hset₂, hs₂, hdocument₂⟩ := ht.right.lookup h
  have hraw := Node.rawBindings_congr (Node.content_of_unscanned (ht.node_eq h)) σ.namePrefix
  refine ⟨?_, hs₁, hs₂, ht.namePrefix, ht.functions, ?_⟩
  · rw [hset₂, ht.namePrefix, hraw, hset₁]
  · rw [hdocument₂, ht.document, hdocument₁]

/-- A look changes no node but for what is on record. -/
theorem get?_lookup (ht : Twins σ τ s₁ s₂) (h x : Handle) :
    (s₁.lookup h).2.document.unscanned.get? x = s₁.document.unscanned.get? x ∧
      (s₂.lookup h).2.document.unscanned.get? x = s₂.document.unscanned.get? x := by
  obtain ⟨-, -, hdocument₁⟩ := ht.left.lookup h
  obtain ⟨-, -, hdocument₂⟩ := ht.right.lookup h
  rw [hdocument₁, hdocument₂]
  exact ⟨Document.get?_modify_id _ h x, Document.get?_modify_id _ h x⟩

theorem primeWithin (ht : Twins σ τ s₁ s₂) (depth : Nat) (h : Handle) :
    Twins σ τ (primeWithin depth h s₁) (primeWithin depth h s₂) := by
  induction depth generalizing h s₁ s₂ with
  | zero => exact (ht.lookup h).2
  | succ depth ih =>
    have hfold : ∀ (hs : List Handle) (s₁ s₂ : Scan), Twins σ τ s₁ s₂ →
        Twins σ τ (hs.foldr (Scan.primeWithin depth) s₁) (hs.foldr (Scan.primeWithin depth) s₂) := by
      intro hs s₁ s₂ ht
      induction hs with
      | nil => exact ht
      | cons h rest ih' => exact ih ih' h
    have hlooked := (ht.lookup h).2
    have hkids := hlooked.elementChildren_eq h
    rw [Scan.primeWithin, Scan.primeWithin]
    rw [hkids]
    exact hfold _ _ _ hlooked

theorem prime (ht : Twins σ τ s₁ s₂) (h : Handle) : Twins σ τ (s₁.prime h) (s₂.prime h) := by
  rw [Scan.prime, Scan.prime, ht.reach_eq]
  exact ht.primeWithin _ h

/-- The documents may change alike as long as their nodes are to be trusted. -/
theorem edit (ht : Twins σ τ s₁ s₂) (change : Document → Document)
    (hchange : ∀ d : Document, change d.unscanned = (change d).unscanned)
    (h₁ : σ.Trusts s₁.bindings (change s₁.document))
    (h₂ : τ.Trusts s₂.bindings (change s₂.document)) :
    Twins σ τ { s₁ with document := change s₁.document }
      { s₂ with document := change s₂.document } := by
  refine ⟨ht.left.edit h₁, ht.right.edit h₂, ht.namePrefix, ht.functions, ?_⟩
  rw [← hchange, ht.document, hchange]

end Twins

end Scan

end TreeTemplate
