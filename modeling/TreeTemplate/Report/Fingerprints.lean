import TreeTemplate.Binding.Cache
import TreeTemplate.Config.Basic

/-!
Counting which bindings a document uses: one row for every distinct binding set, with the number of
elements that share it.
-/

namespace TreeTemplate

/-- How often each binding set is used, in the order in which the cache met them, and what the cache
did to tell. -/
structure FingerprintReport where
  rows : List (Nat × String)
  stats : CacheStats

namespace FingerprintReport

/-- A binding cache that has looked at a document, and the document with what the nodes remember. -/
def scan (config : Config) (d : Document) : Scan :=
  Scan.prime ⟨d, Compiler.new config.failurePolicy, BindingCache.new 0 config.attributePrefix⟩
    Document.root

/-- The number of elements that remember the set at a place of the cache. -/
def users (s : Scan) (place : Nat) : Nat :=
  (s.document.descendants Document.root).countP fun h =>
    s.bindings.slotOf s.document h == some place

def ofDocument (config : Config) (d : Document) : FingerprintReport :=
  let s := scan config d
  { rows := s.bindings.distinctSets.mapIdx fun i set => (users s (i + 1), set.fingerprint)
    stats := s.bindings.stats }

/-- A number in a field of at least four places. -/
def countText (n : Nat) : String :=
  let digits := toString n
  String.ofList (List.replicate (4 - digits.length) ' ') ++ digits

def summary (r : FingerprintReport) : String :=
  toString r.stats.entries ++ " distinct sets, " ++ toString r.stats.hits ++ " shared lookups (" ++
    Number.fixedText 1 r.stats.hitRate ++ "% hit rate)"

def lines (r : FingerprintReport) : List String :=
  (r.rows.map fun row => countText row.1 ++ "  " ++ row.2) ++ [r.summary]

end FingerprintReport

end TreeTemplate
