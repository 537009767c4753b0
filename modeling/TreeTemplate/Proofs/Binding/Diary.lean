import TreeTemplate.Proofs.Binding.Meaning
import TreeTemplate.Proofs.Binding.Scan
import TreeTemplate.Proofs.Document.Records

/-!
Where the sets on record come from.  A diary is kept of what caches read on nodes and of what looks
found; nothing that the program does depends on it.  Copies of a node inherit what was read of it.  A set
on record of a cache that takes it for its own is the set of the bindings that this cache read, according
to the diary, on the node or on the one it was copied from (`Diary.Tells`).
-/

namespace TreeTemplate

/-! ### Caches -/

namespace BindingSet

theorem fingerprint_add (s : BindingSet) (k : Compiler) (r : RawBinding) :
    (s.add k r).1.fingerprint = s.fingerprint := by
  obtain ⟨b, v⟩ := r
  cases b with
  | «include» =>
    simp only [add]
    cases literalReference? v <;> rfl
  | _ => simp only [add]

theorem fingerprint_addAll (s : BindingSet) (k : Compiler) (raw : List RawBinding) :
    (s.addAll k raw).1.fingerprint = s.fingerprint := by
  induction raw generalizing s k with
  | nil => rfl
  | cons r rest ih =>
    rw [addAll]
    exact (ih _ _).trans (fingerprint_add s k r)

theorem fingerprint_build (key : String) (raw : List RawBinding) (k : Compiler) :
    (build key raw k).1.fingerprint = key :=
  fingerprint_addAll (empty key) k raw

end BindingSet

namespace BindingCache

variable {b b' : BindingCache} {raw : List RawBinding} {set set' : BindingSet} {i j : Nat}

/-- There is one set for every fingerprint that the cache knows; the first set is the one without
bindings, and every other one was a miss. -/
structure Indexed (b : BindingCache) : Prop where
  first : b.sets[0]? = some (BindingSet.empty "")
  places : ∀ key i, Dict.get? b.byFingerprint key = some i ↔
    1 ≤ i ∧ ∃ set, b.sets[i]? = some set ∧ set.fingerprint = key
  nonempty : ∀ i set, 1 ≤ i → b.sets[i]? = some set → set.fingerprint ≠ ""
  size_eq : b.sets.size = b.misses + 1

/-- The set at a place is the one of these bindings. -/
def Lists (b : BindingCache) (i : Nat) (raw : List RawBinding) : Prop :=
  ∃ set, b.sets[i]? = some set ∧ set.fingerprint = fingerprint raw

theorem Lists.extend (h : Extends b b') (hi : b.Lists i raw) : b'.Lists i raw := by
  obtain ⟨set, hset, hkey⟩ := hi
  exact ⟨set, h.sets i set hset, hkey⟩

theorem slotOf_eq_some_iff {d : Document} {h : Handle} :
    b.slotOf d h = some i ↔ (d.node h).bindingRef? = some ⟨b.id, i⟩ := by
  unfold slotOf
  rcases (d.node h).bindingRef? with _ | ⟨cache, index⟩
  · simp
  · dsimp only
    split
    · next hid => simp [hid]
    · next hid => simp [hid]

namespace Indexed

theorem sound (hb : b.Indexed) : b.Sound := by
  refine ⟨hb.first, fun key i hi => ?_⟩
  obtain ⟨-, set, hset, -⟩ := (hb.places key i).mp hi
  exact (Array.getElem?_eq_some_iff.mp hset).choose

/-- No fingerprint has two sets. -/
theorem place_inj (hb : b.Indexed) (hi : b.sets[i]? = some set) (hj : b.sets[j]? = some set')
    (hkey : set.fingerprint = set'.fingerprint) : i = j := by
  have hfirst : ∀ set, b.sets[0]? = some set → set.fingerprint = "" := by
    intro set hset
    obtain rfl := Option.some.inj (hb.first.symm.trans hset)
    rfl
  rcases Nat.eq_zero_or_pos i with rfl | hipos
  · rcases Nat.eq_zero_or_pos j with rfl | hjpos
    · rfl
    · exact absurd (hkey.symm.trans (hfirst set hi)) (hb.nonempty j set' hjpos hj)
  · rcases Nat.eq_zero_or_pos j with rfl | hjpos
    · exact absurd (hkey.trans (hfirst set' hj)) (hb.nonempty i set hipos hi)
    · have hplace := (hb.places set'.fingerprint i).mpr ⟨hipos, set, hi, hkey⟩
      have hplace' := (hb.places set'.fingerprint j).mpr ⟨hjpos, set', hj, rfl⟩
      exact Option.some.inj (hplace.symm.trans hplace')

end Indexed

theorem new_indexed (owner : Nat) (namePrefix : String) : (new owner namePrefix).Indexed := by
  have hnone : ∀ i set, 1 ≤ i → (new owner namePrefix).sets[i]? ≠ some set := by
    intro i set hi hset
    have hlt := (Array.getElem?_eq_some_iff.mp hset).choose
    simp [new] at hlt
    omega
  refine ⟨rfl, fun key i => ?_, fun i set hi hset => absurd hset (hnone i set hi), rfl⟩
  constructor
  · intro hi
    simp [new, Dict.get?] at hi
  · rintro ⟨hi, set, hset, -⟩
    exact absurd hset (hnone i set hi)

theorem Indexed.clear (hb : b.Indexed) : b.clear.Indexed := by
  have hsets : b.clear.sets = (new b.id.owner b.namePrefix).sets := sets_clear hb.first
  have hnew := new_indexed b.id.owner b.namePrefix
  constructor
  · rw [hsets]
    exact hnew.first
  · rw [hsets]
    exact hnew.places
  · rw [hsets]
    exact hnew.nonempty
  · rw [hsets]
    rfl

/-- Interning gives the place of the set of the bindings. -/
theorem intern_indexed (hb : b.Indexed) (k : Compiler) (raw : List RawBinding) :
    (b.intern k raw).2.1.Indexed ∧ Extends b (b.intern k raw).2.1 ∧
      (b.intern k raw).2.1.Lists (b.intern k raw).1 raw := by
  unfold intern
  split
  · next hnil =>
    rw [List.isEmpty_iff] at hnil
    subst hnil
    exact ⟨hb, .refl b, _, hb.first, rfl⟩
  next hraw =>
  rw [List.isEmpty_iff] at hraw
  dsimp only
  split
  · next i hi =>
    obtain ⟨-, hplace⟩ := (hb.places _ _).mp hi
    exact ⟨⟨hb.first, hb.places, hb.nonempty, hb.size_eq⟩, ⟨rfl, fun _ _ h => h⟩, hplace⟩
  next hnone =>
  have hkey : (BindingSet.build (fingerprint raw) raw k).1.fingerprint = fingerprint raw :=
    BindingSet.fingerprint_build _ _ _
  generalize BindingSet.build (fingerprint raw) raw k = built at hkey ⊢
  have hpush : ∀ i other, (b.sets.push built.1)[i]? = some other ↔
      i = b.sets.size ∧ built.1 = other ∨ b.sets[i]? = some other :=
    fun _ _ => getElem?_push_eq_some_iff
  have hpos : 1 ≤ b.sets.size := by
    have := hb.size_eq
    omega
  refine ⟨⟨(hpush _ _).mpr (Or.inr hb.first), fun key i => ?_, fun i set hi hset => ?_, ?_⟩,
    ⟨rfl, fun i set hset => (hpush i set).mpr (Or.inr hset)⟩, built.1,
    (hpush _ _).mpr (Or.inl ⟨rfl, rfl⟩), hkey⟩
  · rw [Dict.get?_put]
    split
    · next heq =>
      subst heq
      constructor
      · intro hi
        obtain rfl := Option.some.inj hi
        exact ⟨hpos, built.1, (hpush _ _).mpr (Or.inl ⟨rfl, rfl⟩), hkey⟩
      · rintro ⟨hi, set, hset, hfp⟩
        rcases (hpush _ _).mp hset with ⟨rfl, -⟩ | hset
        · rfl
        · rw [(hb.places _ i).mpr ⟨hi, set, hset, hfp⟩] at hnone
          simp at hnone
    · next hne =>
      rw [hb.places]
      constructor
      · rintro ⟨hi, set, hset, hfp⟩
        exact ⟨hi, set, (hpush _ _).mpr (Or.inr hset), hfp⟩
      · rintro ⟨hi, set, hset, hfp⟩
        rcases (hpush _ _).mp hset with ⟨-, rfl⟩ | hset
        · exact absurd (hfp.symm.trans hkey) hne
        · exact ⟨hi, set, hset, hfp⟩
  · rcases (hpush _ _).mp hset with ⟨-, rfl⟩ | hset
    · rw [hkey, Ne, fingerprint_eq_empty_iff]
      exact hraw
    · exact hb.nonempty i set hi hset
  · rw [Array.size_push, hb.size_eq]

end BindingCache

/-! ### Diaries -/

/-- The node that a handle reads as; handles to removed nodes all read as the vacant one. -/
def Document.spot (d : Document) (h : Handle) : Option Handle :=
  if d.contains h then some h else none

theorem Document.spot_cases (d : Document) (h : Handle) :
    (∃ n, d.get? h = some n ∧ d.spot h = some h ∧ d.node h = n) ∨
      d.get? h = none ∧ d.spot h = none ∧ d.node h = d.vacant := by
  cases hn : d.get? h with
  | some n => exact Or.inl ⟨n, rfl, by simp [spot, contains, hn], node_of_get? hn⟩
  | none => exact Or.inr ⟨rfl, by simp [spot, contains, hn], by simp [node, hn]⟩

theorem Document.bindingRef?_setBindingRef (d : Document) (h : Handle) (r : BindingRef) :
    ((d.setBindingRef h r).node h).bindingRef? = some r := by
  rcases d.spot_cases h with ⟨n, hn, -⟩ | ⟨hn, -⟩
  · rw [setBindingRef, node_of_get? ((get?_modify hn _ h).trans (if_pos rfl))]
  · have hput : d.setBindingRef h r = { d with vacant := { d.writable h with bindingRef? := some r } } := by
      rw [setBindingRef, modify, put, hn]
    rw [hput]
    change ((d.get? h).getD { d.writable h with bindingRef? := some r }).bindingRef? = some r
    rw [hn, Option.getD_none]

/-- What a look at a node found: which cache looked, what this cache had read of the node, where the set
is, and the set. -/
structure Finding where
  cache : CacheId
  raw? : Option (List RawBinding)
  place? : Option Nat
  set : BindingSet

structure Diary where
  /-- The bindings that a node had when a cache read its attributes for the last time. -/
  seen : CacheId → Option Handle → Option (List RawBinding)
  /-- What looks found, the last one first. -/
  found : List Finding

namespace Diary

/-- The diary before anything was looked at. -/
def blank : Diary :=
  ⟨fun _ _ => none, []⟩

def read (y : Diary) (id : CacheId) (x : Option Handle) (raw : List RawBinding) : Diary :=
  { y with seen := fun id' x' => if id' = id ∧ x' = x then some raw else y.seen id' x' }

theorem seen_read (y : Diary) (id id' : CacheId) (x x' : Option Handle) (raw : List RawBinding) :
    (y.read id x raw).seen id' x' = if id' = id ∧ x' = x then some raw else y.seen id' x' :=
  rfl

/-- A node becomes a copy of another one. -/
def inherit (y : Diary) (original copy : Option Handle) : Diary :=
  { y with seen := fun id x => y.seen id (if x = copy then original else x) }

theorem seen_inherit (y : Diary) (id : CacheId) (original copy x : Option Handle) :
    (y.inherit original copy).seen id x = y.seen id (if x = copy then original else x) :=
  rfl

/-- Copy a node and everything below it, as `Document.copyWithin` does; each copy inherits what was read
of its original. -/
def copyWithin : Nat → Option Handle → Handle → Document × Diary → Document × Diary
  | depth, home, h, (d, y) =>
    let top := d.copyTop home (d.node h)
    let s := (top.2, y.inherit (d.spot h) (some top.1))
    match depth with
    | 0 => s
    | depth + 1 => (d.node h).children.foldl (fun s c => copyWithin depth (some top.1) c s) s

end Diary

/-- A scan of which a diary is kept. -/
structure Watch extends Scan where
  diary : Diary

namespace Watch

/-- The diary after the attributes of a node have been read, unless there is a set on record. -/
def reading (w : Watch) (h : Handle) : Diary :=
  match w.bindings.remembered? w.document h with
  | some _ => w.diary
  | none =>
    w.diary.read w.bindings.id (w.document.spot h) (w.bindings.rawBindings w.document h)

theorem found_reading (w : Watch) (h : Handle) : (w.reading h).found = w.diary.found := by
  unfold reading
  split <;> rfl

def finding (w : Watch) (h : Handle) : Finding where
  cache := w.bindings.id
  raw? := (w.reading h).seen w.bindings.id (w.document.spot h)
  place? := (w.lookup h).2.bindings.slotOf (w.lookup h).2.document h
  set := (w.lookup h).1

def look (w : Watch) (h : Handle) : Watch :=
  ⟨(w.lookup h).2, { w.reading h with found := w.finding h :: w.diary.found }⟩

/-- Look at a node and at the elements below it, as `Scan.primeWithin` does. -/
def primeWithin : Nat → Handle → Watch → Watch
  | depth, h, w =>
    let w := w.look h
    match depth with
    | 0 => w
    | depth + 1 => (w.document.elementChildren h).foldr (primeWithin depth) w

/-- Look at a node and at every element below it. -/
def prime (w : Watch) (h : Handle) : Watch :=
  primeWithin w.document.reach h w

end Watch

/-! ### What is done does not depend on the diary -/

theorem Diary.fst_copyWithin (depth : Nat) (home : Option Handle) (h : Handle)
    (s : Document × Diary) : (copyWithin depth home h s).1 = (s.1.copyWithin depth home h).2 := by
  induction depth generalizing home h s with
  | zero => rw [copyWithin, Document.copyWithin_eq]
  | succ depth ih =>
    have hfold : ∀ (hs : List Handle) (home : Option Handle) (s : Document × Diary),
        (hs.foldl (fun s c => copyWithin depth home c s) s).1 =
          hs.foldl (fun d c => (Document.copyWithin depth home c d).2) s.1 := by
      intro hs home s
      induction hs generalizing s with
      | nil => rfl
      | cons c rest ih' => rw [List.foldl_cons, ih', ih, List.foldl_cons]
    rw [copyWithin, Document.copyWithin_eq]
    exact hfold _ _ _

namespace Watch

theorem toScan_primeWithin (depth : Nat) (h : Handle) (w : Watch) :
    (primeWithin depth h w).toScan = Scan.primeWithin depth h w.toScan := by
  induction depth generalizing h w with
  | zero => rfl
  | succ depth ih =>
    have hfold : ∀ (hs : List Handle) (w : Watch),
        (hs.foldr (primeWithin depth) w).toScan = hs.foldr (Scan.primeWithin depth) w.toScan := by
      intro hs w
      induction hs with
      | nil => rfl
      | cons c rest ih' => rw [List.foldr_cons, ih, ih', List.foldr_cons]
    rw [primeWithin, Scan.primeWithin]
    exact hfold _ _

theorem toScan_prime (w : Watch) (h : Handle) : (w.prime h).toScan = w.toScan.prime h :=
  toScan_primeWithin _ h w

/-- What looks keep, priming keeps. -/
theorem prime_keeps {P : Watch → Prop} (hlook : ∀ w h, P w → P (w.look h)) {w : Watch} (hw : P w)
    (h : Handle) : P (w.prime h) := by
  suffices ∀ depth h w, P w → P (primeWithin depth h w) from this _ h w hw
  intro depth
  induction depth with
  | zero =>
    intro h w hw
    exact hlook w h hw
  | succ depth ih =>
    intro h w hw
    rw [primeWithin]
    generalize Document.elementChildren _ _ = kids
    induction kids with
    | nil => exact hlook w h hw
    | cons k rest ihrest => exact ih k _ ihrest

end Watch

/-! ### What a diary tells -/

section

variable {known known' : BindingCache → Prop} {issued issued' : CacheId → Prop} {y y' : Diary}
  {d : Document} {n n' : Node} {x : Option Handle} {h : Handle} {b : BindingCache}

/-- What a node has on record of a cache was read by this cache, and if it is one of the caches that
there are, the set is that of the bindings that it read. -/
def Diary.Covers (y : Diary) (known : BindingCache → Prop) (x : Option Handle) (n : Node) : Prop :=
  ∀ r ∈ n.bindingRef?, ∃ raw, y.seen r.cache x = some raw ∧
    ∀ b, known b → b.id = r.cache → b.Lists r.index raw

/-- A finding is a set with the fingerprint of what was read, which stays where it is as long as the
cache is not cleared. -/
def Finding.Right (known : BindingCache → Prop) (f : Finding) : Prop :=
  ∃ raw i, f.raw? = some raw ∧ f.place? = some i ∧ f.set.fingerprint = fingerprint raw ∧
    ∀ b, known b → b.id = f.cache → b.sets[i]? = some f.set

/-- The diary is about the caches that there are and the incarnations that they have had. -/
structure Diary.Tells (y : Diary) (known : BindingCache → Prop) (issued : CacheId → Prop)
    (d : Document) : Prop where
  seen : ∀ id x raw, y.seen id x = some raw → issued id
  nodes : d.All (fun h n => y.Covers known (some h) n) (y.Covers known none)
  found : ∀ f ∈ y.found, issued f.cache ∧ f.Right known
  shared : ∀ f ∈ y.found, ∀ g ∈ y.found, f.cache = g.cache → f.raw? = g.raw? →
    f.place? = g.place? ∧ f.set = g.set

namespace Diary

theorem Covers.congr (hn : y.Covers known x n) (href : n'.bindingRef? = n.bindingRef?) :
    y.Covers known x n' := by
  intro r hr
  rw [href] at hr
  exact hn r hr

theorem covers_of_none (href : n.bindingRef? = none) : y.Covers known x n := by
  intro r hr
  simp [href] at hr

theorem lasting_covers (y : Diary) (known : BindingCache → Prop) :
    Lasting (fun h n => y.Covers known (some h) n) (y.Covers known none) :=
  ⟨fun _ _ _ hn hkin => hn.congr hkin.bindingRef?, fun _ _ hn _ => covers_of_none hn.bindingRef?,
    fun _ _ hn => covers_of_none hn.bindingRef?⟩

/-- The node that a handle reads as is covered. -/
theorem covers_node (hd : d.All (fun h n => y.Covers known (some h) n) (y.Covers known none))
    (h : Handle) : y.Covers known (d.spot h) (d.node h) := by
  rcases d.spot_cases h with ⟨n, hn, hspot, hnode⟩ | ⟨-, hspot, hnode⟩
  · rw [hspot, hnode]
    exact hd.live h n hn
  · rw [hspot, hnode]
    exact hd.vacant

namespace Tells

theorem edit {d' : Document} (hy : y.Tells known issued d)
    (hd : d'.All (fun h n => y.Covers known (some h) n) (y.Covers known none)) :
    y.Tells known issued d' :=
  ⟨hy.seen, hd, hy.found, hy.shared⟩

/-- Caches of which nothing is on record may come, and others may go. -/
theorem mono (hy : y.Tells known issued d)
    (hknown : ∀ b, known' b → known b ∨ ¬ issued b.id) (hissued : ∀ id, issued id → issued' id) :
    y.Tells known' issued' d := by
  have hcovers : ∀ x n, y.Covers known x n → y.Covers known' x n := by
    intro x n hn r hr
    obtain ⟨raw, hseen, hlists⟩ := hn r hr
    refine ⟨raw, hseen, fun b hb hid => ?_⟩
    rcases hknown b hb with hb | hnew
    · exact hlists b hb hid
    · exact absurd (hy.seen _ _ _ hseen) (hid ▸ hnew)
  refine ⟨fun id x raw hseen => hissued id (hy.seen id x raw hseen),
    hy.nodes.imp (fun h => hcovers (some h)) (hcovers none), fun f hf => ?_, hy.shared⟩
  obtain ⟨hcache, raw, i, hraw, hplace, hkey, hset⟩ := hy.found f hf
  refine ⟨hissued _ hcache, raw, i, hraw, hplace, hkey, fun b hb hid => ?_⟩
  rcases hknown b hb with hb | hnew
  · exact hset b hb hid
  · exact absurd hcache (hid ▸ hnew)

/-- A cache reads the attributes of a node on which it has nothing on record, and puts the set of what
it read on record. -/
theorem read {idle : BindingCache → Prop} {b' : BindingCache} {raw : List RawBinding} {i : Nat}
    (hy : y.Tells (fun c => c = b ∨ idle c) issued d) (hissued : issued b.id)
    (hapart : ∀ c, idle c → c.id ≠ b.id) (hslot : b.slotOf d h = none)
    (hextends : b.Extends b') (hlists : b'.Lists i raw) :
    (y.read b.id (d.spot h) raw).Tells (fun c => c = b' ∨ idle c) issued
      (d.setBindingRef h ⟨b'.id, i⟩) := by
  have hnot : ∀ r ∈ (d.node h).bindingRef?, r.cache ≠ b.id := by
    rintro ⟨cache, index⟩ hr rfl
    rw [BindingCache.slotOf_eq_some_iff.mpr hr] at hslot
    simp at hslot
  have hcovers : ∀ x n, y.Covers (fun c => c = b ∨ idle c) x n →
      (x = d.spot h → n = d.node h) →
      (y.read b.id (d.spot h) raw).Covers (fun c => c = b' ∨ idle c) x n := by
    intro x n hn hx r hr
    obtain ⟨raw', hseen, hlists'⟩ := hn r hr
    refine ⟨raw', ?_, ?_⟩
    · rw [seen_read, if_neg]
      · exact hseen
      · rintro ⟨hid, hspot⟩
        exact hnot r (hx hspot ▸ hr) hid
    · rintro c (rfl | hc) hid
      · exact (hlists' b (Or.inl rfl) (hextends.id_eq.symm.trans hid)).extend hextends
      · exact hlists' c (Or.inr hc) hid
  have hrecorded : ∀ n : Node, (y.read b.id (d.spot h) raw).Covers (fun c => c = b' ∨ idle c)
      (d.spot h) { n with bindingRef? := some ⟨b'.id, i⟩ } := by
    intro n r hr
    obtain rfl := Option.some.inj hr
    refine ⟨raw, by rw [seen_read, if_pos ⟨hextends.id_eq, rfl⟩], ?_⟩
    rintro c (rfl | hc) hid
    · exact hlists
    · exact absurd (hid.trans hextends.id_eq) (hapart c hc)
  have hall : d.All (fun x n => (y.read b.id (d.spot h) raw).Covers (fun c => c = b' ∨ idle c) (some x) n)
      ((y.read b.id (d.spot h) raw).Covers (fun c => c = b' ∨ idle c) none) := by
    constructor
    · intro x n hn
      refine hcovers _ n (hy.nodes.live x n hn) fun hx => ?_
      rcases d.spot_cases h with ⟨m, -, hspot, -⟩ | ⟨-, hspot, -⟩
      · obtain rfl := Option.some.inj (hx.trans hspot)
        exact (Document.node_of_get? hn).symm
      · simp [hspot] at hx
    · refine hcovers _ _ hy.nodes.vacant fun hx => ?_
      rcases d.spot_cases h with ⟨m, -, hspot, -⟩ | ⟨-, -, hnode⟩
      · simp [hspot] at hx
      · exact hnode.symm
  refine ⟨fun id x raw' hseen => ?_, ?_, fun f hf => ?_, hy.shared⟩
  · rw [seen_read] at hseen
    split at hseen
    · next hid => exact hid.1 ▸ hissued
    · exact hy.seen id x raw' hseen
  · have hput := hrecorded (d.writable h)
    generalize y.read b.id (d.spot h) raw = y' at hput hall ⊢
    apply hall.put
    · intro n hn
      rcases d.spot_cases h with ⟨-, -, hspot, -⟩ | ⟨hnone, -⟩
      · rwa [hspot] at hput
      · simp [hnone] at hn
    · intro hnone
      rcases d.spot_cases h with ⟨n, hn, -⟩ | ⟨-, hspot, -⟩
      · simp [hnone] at hn
      · rwa [hspot] at hput
  · obtain ⟨hcache, raw', j, hraw, hplace, hkey, hset⟩ := hy.found f hf
    refine ⟨hcache, raw', j, hraw, hplace, hkey, ?_⟩
    rintro c (rfl | hc) hid
    · exact hextends.sets _ _ (hset b (Or.inl rfl) (hextends.id_eq.symm.trans hid))
    · exact hset c (Or.inr hc) hid

/-- A copy is covered by what was read of its original. -/
theorem copyTop (hy : y.Tells known issued d) (home : Option Handle) (h : Handle) :
    (y.inherit (d.spot h) (some (d.copyTop home (d.node h)).1)).Tells known issued
      (d.copyTop home (d.node h)).2 := by
  have htop := covers_node hy.nodes h
  generalize d.node h = n at htop ⊢
  generalize hid : (d.copyTop home n).1 = id
  have halloc : (d.alloc { n with parent? := home, children := [] }).2.All
      (fun x m => (y.inherit (d.spot h) (some id)).Covers known (some x) m)
      ((y.inherit (d.spot h) (some id)).Covers known none) := by
    constructor
    · intro x m hm
      rcases Document.of_get?_alloc hm with ⟨hx, rfl⟩ | ⟨hx, hm⟩
      · intro r hr
        rw [seen_inherit, if_pos (congrArg some (hx.trans hid))]
        exact htop r hr
      · intro r hr
        rw [seen_inherit, if_neg fun heq => hx ((Option.some.inj heq).trans hid.symm)]
        exact hy.nodes.live x m hm r hr
    · intro r hr
      rw [Document.vacant_alloc] at hr
      exact hy.nodes.vacant r hr
  refine ⟨fun id x raw hseen => hy.seen id _ raw hseen, ?_, hy.found, hy.shared⟩
  cases home with
  | none => exact halloc
  | some p => exact halloc.modifyChildren (lasting_covers _ _) p (· ++ [_])

theorem copyWithin {s : Document × Diary} (hs : s.2.Tells known issued s.1) (depth : Nat)
    (home : Option Handle) (h : Handle) : (Diary.copyWithin depth home h s).2.Tells known issued
      (Diary.copyWithin depth home h s).1 := by
  induction depth generalizing home h s with
  | zero => exact hs.copyTop home h
  | succ depth ih =>
    have hfold : ∀ (kids : List Handle) (home : Option Handle) (s : Document × Diary),
        s.2.Tells known issued s.1 →
        (kids.foldl (fun s c => Diary.copyWithin depth home c s) s).2.Tells known issued
          (kids.foldl (fun s c => Diary.copyWithin depth home c s) s).1 := by
      intro kids home s hs
      induction kids generalizing s with
      | nil => exact hs
      | cons c rest ih' => exact ih' _ (ih hs home c)
    rw [Diary.copyWithin]
    exact hfold _ _ _ (hs.copyTop home h)

end Tells

end Diary

end

/-! ### Looks -/

namespace Watch

variable {idle : BindingCache → Prop} {issued : CacheId → Prop} {id : CacheId} {w : Watch}
  {h : Handle} {i : Nat}

/-- The cache at work is in order and differs from those that are idle, and the diary is right. -/
structure Consistent (idle : BindingCache → Prop) (issued : CacheId → Prop) (id : CacheId)
    (w : Watch) : Prop where
  id_eq : w.bindings.id = id
  indexed : w.bindings.Indexed
  apart : ∀ c, idle c → c.id ≠ id
  current : issued id
  tells : w.diary.Tells (fun c => c = w.bindings ∨ idle c) issued w.document

namespace Consistent

/-- A place on record is that of the set of what the cache read. -/
theorem of_slotOf (hw : w.Consistent idle issued id) (hslot : w.bindings.slotOf w.document h = some i) :
    ∃ raw set, w.diary.seen w.bindings.id (w.document.spot h) = some raw ∧
      w.bindings.sets[i]? = some set ∧ set.fingerprint = fingerprint raw ∧
      w.lookup h = (set, w.toScan) ∧ w.reading h = w.diary := by
  obtain ⟨raw, hseen, hlists⟩ :=
    Diary.covers_node hw.tells.nodes h _ (BindingCache.slotOf_eq_some_iff.mp hslot)
  obtain ⟨set, hset, hkey⟩ := hlists w.bindings (Or.inl rfl) rfl
  have hremembered : w.bindings.remembered? w.document h = some set := by
    rw [BindingCache.remembered?, hslot, Option.bind_some, hset]
  refine ⟨raw, set, hseen, hset, hkey, ?_, ?_⟩
  · rw [Scan.lookup, hremembered]
  · rw [reading, hremembered]

/-- A look at a node on which the cache has nothing on record reads the attributes. -/
theorem of_slotOf_none (hw : w.Consistent idle issued id)
    (hslot : w.bindings.slotOf w.document h = none) :
    ∃ i, (w.lookup h).2.bindings.Indexed ∧ w.bindings.Extends (w.lookup h).2.bindings ∧
      (w.lookup h).2.document = w.document.setBindingRef h ⟨(w.lookup h).2.bindings.id, i⟩ ∧
      (w.lookup h).2.bindings.sets[i]? = some (w.lookup h).1 ∧
      (w.lookup h).1.fingerprint = fingerprint (w.bindings.rawBindings w.document h) ∧
      w.reading h = w.diary.read w.bindings.id (w.document.spot h)
        (w.bindings.rawBindings w.document h) := by
  have hremembered : w.bindings.remembered? w.document h = none := by
    rw [BindingCache.remembered?, hslot, Option.bind_none]
  obtain ⟨hindexed, hextends, set, hset, hkey⟩ := BindingCache.intern_indexed hw.indexed w.compiler
    (w.bindings.rawBindings w.document h)
  rw [reading, Scan.lookup, hremembered]
  dsimp only
  rw [hset, Option.getD_some]
  exact ⟨_, hindexed, hextends, rfl, hset, hkey, rfl⟩

/-- A look finds the set of what the cache read of the node, and leaves its place on record. -/
theorem look_spec (hw : w.Consistent idle issued id) (h : Handle) :
    Consistent idle issued id ⟨(w.lookup h).2, w.reading h⟩ ∧
      ∃ raw i, (w.finding h).raw? = some raw ∧ (w.finding h).place? = some i ∧
        (w.lookup h).2.bindings.sets[i]? = some (w.lookup h).1 ∧
        (w.lookup h).1.fingerprint = fingerprint raw := by
  obtain rfl := hw.id_eq
  cases hslot : w.bindings.slotOf w.document h with
  | some i =>
    obtain ⟨raw, set, hseen, hset, hkey, hlookup, hreading⟩ := hw.of_slotOf hslot
    rw [finding, hlookup, hreading]
    exact ⟨hw, raw, i, hseen, hslot, hset, hkey⟩
  | none =>
    obtain ⟨i, hindexed, hextends, hdocument, hset, hkey, hreading⟩ := hw.of_slotOf_none hslot
    have hplace : (w.lookup h).2.bindings.slotOf (w.lookup h).2.document h = some i := by
      rw [BindingCache.slotOf_eq_some_iff, hdocument, Document.bindingRef?_setBindingRef]
    rw [finding, hplace, hreading]
    refine ⟨⟨hextends.id_eq, hindexed, hw.apart, hw.current, ?_⟩, _, i, ?_, rfl, hset, hkey⟩
    · dsimp only
      rw [hdocument]
      exact hw.tells.read hw.current hw.apart hslot hextends ⟨_, hset, hkey⟩
    · rw [Diary.seen_read, if_pos ⟨rfl, rfl⟩]

/-- Looks keep the diary right. -/
theorem look (hw : w.Consistent idle issued id) (h : Handle) :
    (w.look h).Consistent idle issued id := by
  obtain ⟨hglance, raw, i, hraw, hplace, hset, hkey⟩ := hw.look_spec h
  obtain rfl := hw.id_eq
  have hright : issued (w.finding h).cache ∧
      (w.finding h).Right fun c => c = (w.lookup h).2.bindings ∨ idle c := by
    refine ⟨hw.current, raw, i, hraw, hplace, hkey, ?_⟩
    rintro c (rfl | hc) hcache
    · exact hset
    · exact absurd hcache (hw.apart c hc)
  have hsame : ∀ f ∈ w.diary.found, f.cache = (w.finding h).cache →
      f.raw? = (w.finding h).raw? → f.place? = (w.finding h).place? ∧ f.set = (w.finding h).set := by
    intro f hf hcache hraw'
    rw [← w.found_reading h] at hf
    obtain ⟨-, raw', j, hrawf, hplacef, hkeyf, hsetf⟩ := hglance.tells.found f hf
    have hsetf := hsetf _ (Or.inl rfl) (hglance.id_eq.trans hcache.symm)
    obtain rfl : raw' = raw := Option.some.inj (hrawf.symm.trans (hraw'.trans hraw))
    obtain rfl := hglance.indexed.place_inj hsetf hset (hkeyf.trans hkey.symm)
    exact ⟨hplacef.trans hplace.symm, Option.some.inj (hsetf.symm.trans hset)⟩
  have hfound := hglance.tells.found
  have hshared := hglance.tells.shared
  rw [w.found_reading h] at hfound hshared
  refine ⟨hglance.id_eq, hglance.indexed, hglance.apart, hglance.current, hglance.tells.seen,
    hglance.tells.nodes, ?_, ?_⟩
  · intro f hf
    rcases List.mem_cons.mp hf with rfl | hf
    · exact hright
    · exact hfound f hf
  · intro f hf g hg hcache hraw'
    rcases List.mem_cons.mp hf with rfl | hf
    · rcases List.mem_cons.mp hg with rfl | hg
      · exact ⟨rfl, rfl⟩
      · exact (hsame g hg hcache.symm hraw'.symm).imp Eq.symm Eq.symm
    · rcases List.mem_cons.mp hg with rfl | hg
      · exact hsame f hf hcache hraw'
      · exact hshared f hf g hg hcache hraw'

end Consistent

end Watch

end TreeTemplate
