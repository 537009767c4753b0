import TreeTemplate.Binding.Set
import TreeTemplate.Document.Edit

/-!
A cache of binding sets by fingerprint.

A node remembers its set, so a second look at it (or at a copy of it) does not read its attributes
again.  What a node remembers holds only for the cache that put it there, and only until that cache
is cleared.
-/

namespace TreeTemplate

structure BindingCache where
  id : CacheId
  /-- What the names of binding attributes begin with. -/
  namePrefix : String
  /-- The sets in order of creation; the first is the one without bindings. -/
  sets : Array BindingSet
  /-- The place of every set but the first. -/
  byFingerprint : Dict Nat
  hits : Nat
  misses : Nat

/-- What looking at nodes changes. -/
structure Scan where
  document : Document
  compiler : Compiler
  bindings : BindingCache

namespace BindingCache

/-- An empty cache.  Caches of different owners never take each other's records for their own. -/
def new (owner : Nat) (namePrefix : String) : BindingCache :=
  ⟨⟨owner, 0⟩, namePrefix, #[BindingSet.empty ""], [], 0, 0⟩

def attributeName (c : BindingCache) (b : Binding) : String :=
  c.namePrefix ++ b.suffix

/-- The set of a node without bindings. -/
def emptySet (c : BindingCache) : BindingSet :=
  (c.sets[0]?).getD (BindingSet.empty "")

/-- The bindings written on a node, in the order of fingerprints. -/
def rawBindings (c : BindingCache) (d : Document) (h : Handle) : List RawBinding :=
  Binding.all.filterMap fun b => (d.attribute? h (c.attributeName b)).map fun v => (b, v)

/-- The place recorded on a node, if this cache recorded it since it was last cleared. -/
def slotOf (c : BindingCache) (d : Document) (h : Handle) : Option Nat :=
  match (d.node h).bindingRef? with
  | some r => if r.cache = c.id then some r.index else none
  | none => none

def remembered? (c : BindingCache) (d : Document) (h : Handle) : Option BindingSet :=
  (c.slotOf d h).bind fun i => c.sets[i]?

/-- The place of the set for the given bindings, which is built if there is none. -/
def intern (c : BindingCache) (k : Compiler) (raw : List RawBinding) :
    Nat × BindingCache × Compiler :=
  if raw.isEmpty then (0, c, k)
  else
    let key := fingerprint raw
    match Dict.get? c.byFingerprint key with
    | some i => (i, { c with hits := c.hits + 1 }, k)
    | none =>
      let (set, k) := BindingSet.build key raw k
      (c.sets.size,
        { c with
          misses := c.misses + 1
          sets := c.sets.push set
          byFingerprint := Dict.put c.byFingerprint key c.sets.size },
        k)

/-- The sets with bindings, in order of creation. -/
def distinctSets (c : BindingCache) : List BindingSet :=
  c.sets.toList.drop 1

/-- What the cache has done since it was last cleared. -/
def stats (c : BindingCache) : CacheStats :=
  ⟨c.hits, c.misses, c.sets.size - 1⟩

/-- Forget every set.  Records made so far are not its own any more. -/
def clear (c : BindingCache) : BindingCache :=
  { c with
    id := { c.id with epoch := c.id.epoch + 1 }
    sets := c.sets.take 1
    byFingerprint := []
    hits := 0
    misses := 0 }

end BindingCache

namespace Scan

def lookup (s : Scan) (h : Handle) : BindingSet × Scan :=
  match s.bindings.remembered? s.document h with
  | some set => (set, s)
  | none =>
    let raw := s.bindings.rawBindings s.document h
    let (i, bindings, compiler) := s.bindings.intern s.compiler raw
    ((bindings.sets[i]?).getD bindings.emptySet,
      ⟨s.document.setBindingRef h ⟨bindings.id, i⟩, compiler, bindings⟩)

/-- Look at a node and at the elements below it, the last child first; `depth` bounds the chain of
children. -/
def primeWithin : Nat → Handle → Scan → Scan
  | depth, h, s =>
    let s := (s.lookup h).2
    match depth with
    | 0 => s
    | depth + 1 => (s.document.elementChildren h).foldr (primeWithin depth) s

/-- Look at a node and at every element below it. -/
def prime (s : Scan) (h : Handle) : Scan :=
  primeWithin s.document.reach h s

end Scan

end TreeTemplate
