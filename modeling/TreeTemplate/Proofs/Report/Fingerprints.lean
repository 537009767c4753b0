import Mathlib.Algebra.BigOperators.Group.List.Lemmas
import TreeTemplate.Proofs.Binding.Census
import TreeTemplate.Proofs.Document.RoundTrip
import TreeTemplate.Report.Fingerprints

/-!
What the report on the bindings of a document says.  Looking at the root of a parsed document looks at
each of its elements, so every distinct fingerprint has a row with the number of elements that it is of,
and each element with bindings was either the first with its fingerprint or shares the set of another
one (`FingerprintReport.ofDocument_right`).
-/

namespace TreeTemplate

open Document (root)

/-- The fingerprints of the elements in document order; that of an element without bindings is empty. -/
def Document.fingerprints (d : Document) (namePrefix : String) : List String :=
  (d.descendants root).map fun h => fingerprint ((d.node h).rawBindings namePrefix)

namespace NodeTree

variable {b : BindingCache} {t k : NodeTree} {e : Handle × Node} {room : Nat}

/-- Only elements that markup can spell have anything below them. -/
theorem normal_below (h : t.outline.Normal room) (hk : k ∈ t.kids) :
    t.record.isElement = true ∧ ∃ room, k.outline.Normal room := by
  obtain ⟨x, m, us⟩ := t
  have hmem : k.outline ∈ us.map outline := List.mem_map_of_mem hk
  rw [outline] at h
  generalize us.map outline = os at h hmem
  generalize hcontent : m.content = content at h
  cases h with
  | element _ _ _ _ _ _ kids_normal =>
    exact ⟨by rw [record_node, Node.isElement, hcontent], _, kids_normal _ hmem⟩
  | text _ => cases hmem
  | comment _ => cases hmem

/-- Priming goes down through elements, so it reaches all of them where only they have anything below
them. -/
theorem Known.exists_setOf? (hknown : Known b t) (hnormal : ∀ k ∈ t.kids, ∃ room, k.outline.Normal room)
    (he : e ∈ t.entries) (helement : e.2.isElement = true) : ∃ set, b.setOf? e.2 = some set := by
  induction t using NodeTree.induct with
  | step h n ks ih =>
    obtain ⟨htop, hkids⟩ := hknown
    rw [entries, List.mem_cons, List.mem_flatMap] at he
    rcases he with rfl | ⟨k, hk, he⟩
    · exact ⟨_, htop⟩
    obtain ⟨room, hroom⟩ := hnormal k hk
    have hbelow : k.record.isElement = true := by
      obtain ⟨x, m, us⟩ := k
      rw [entries, List.mem_cons, List.mem_flatMap] at he
      rcases he with rfl | ⟨u, hu, -⟩
      · exact helement
      · exact (normal_below hroom hu).1
    exact ih k hk (hkids k hk hbelow) (fun u hu => (normal_below hroom hu).2) he

end NodeTree

/-- The elements of a parsed document are in the tree of the root. -/
theorem Document.Parsed.mem_descendants_iff {d : Document} {n : Node} {ks : List NodeTree}
    (hd : d.Parsed n ks) (h : Handle) :
    h ∈ d.descendants root ↔ ∃ m, d.get? h = some m ∧ m.isElement = true := by
  have hsubtree : d.subtree root = (NodeTree.node root n ks).handles := subtree_eq hd.held
  rw [descendants, List.mem_filter, hsubtree]
  constructor
  · rintro ⟨hh, helement⟩
    obtain ⟨m, hm⟩ := hd.held.get?_of_mem hh
    exact ⟨m, hm, by rwa [node_of_get? hm] at helement⟩
  · rintro ⟨m, hm, helement⟩
    exact ⟨hd.live h m hm, by rwa [node_of_get? hm]⟩

namespace FingerprintReport

variable {config : Config} {d : Document} {source namePrefix key : String} {s : Scan} {h : Handle}
  {n : Node} {set : BindingSet} {i : Nat}

/-! ### Rows -/

/-- The fingerprints of the sets but the first. -/
def keys (s : Scan) : List String :=
  s.bindings.distinctSets.map BindingSet.fingerprint

theorem keys_getElem?_eq_some_iff : (keys s)[i]? = some key ↔
    ∃ set, s.bindings.sets[i + 1]? = some set ∧ set.fingerprint = key := by
  simp [keys, BindingCache.distinctSets]

theorem mem_keys_iff : key ∈ keys s ↔
    ∃ i set, 1 ≤ i ∧ s.bindings.sets[i]? = some set ∧ set.fingerprint = key := by
  simp only [List.mem_iff_getElem?, keys_getElem?_eq_some_iff]
  constructor
  · rintro ⟨i, set, hset, hkey⟩
    exact ⟨i + 1, set, Nat.le_add_left 1 i, hset, hkey⟩
  · rintro ⟨i, set, hpos, hset, hkey⟩
    exact ⟨i - 1, set, by rwa [Nat.sub_add_cancel hpos], hkey⟩

/-! ### What the cache has looked at -/

/-- The cache has looked at every element of the document. -/
structure Surveyed (namePrefix : String) (d : Document) (s : Scan) : Prop where
  census : s.Census namePrefix d
  elements_eq : s.document.descendants root = d.descendants root
  nodup : (d.descendants root).Nodup
  mem_iff : ∀ h, h ∈ d.descendants root ↔ ∃ n, d.get? h = some n ∧ n.isElement = true
  placed : ∀ h ∈ d.descendants root, ∃ i, s.Places h i

/-- What there is after looking at the root of a parsed document: its tree, and a set on record on each
element. -/
theorem scan_spec (config : Config) {ks : List NodeTree} (hd : d.Parsed n ks) :
    ∃ t, t.handle = root ∧ (scan config d).document.Holds t ∧
      t.handles = (NodeTree.node root n ks).handles ∧
      ∀ e ∈ t.entries, e.2.isElement = true → ∃ set, (scan config d).bindings.setOf? e.2 = some set := by
  obtain ⟨t, hadvanced, hprimed, hknown, -⟩ := Scan.prime_spec
    (s := ⟨d, .new config.failurePolicy, .new 0 config.attributePrefix⟩)
    (.single hd.held hd.parent) hd.tidy (BindingCache.new_sound _ _)
  have hnormal : ∀ k ∈ t.kids, ∃ room, k.outline.Normal room := by
    intro k hk
    have houtline := hprimed.outline_eq
    obtain ⟨h, m, us⟩ := t
    simp only [NodeTree.outline, NodeTree.Outline.node.injEq] at houtline
    have hmem : k.outline ∈ ks.map NodeTree.outline := houtline.2.2 ▸ List.mem_map_of_mem hk
    obtain ⟨k', hk', heq⟩ := List.mem_map.mp hmem
    exact ⟨_, heq ▸ hd.normal k' hk'⟩
  refine ⟨t, hprimed.handle_eq, hadvanced.regrown.held t (List.mem_singleton_self t),
    hprimed.handles_eq, fun e he helement => ?_⟩
  exact hknown.exists_setOf? hnormal he helement

theorem scan_surveyed (config : Config) (hd : Document.ofMarkup source = .ok d) :
    Surveyed config.attributePrefix d (scan config d) := by
  obtain ⟨n, ks, hparsed⟩ := Document.parsed_of_ofMarkup hd
  have hblank := Document.blank_of_ofMarkup hd
  have hcensus : (scan config d).Census config.attributePrefix d :=
    (Scan.Census.new (fun h n hn => (hblank.live h n hn).bindingRef?) hblank.vacant.1 _ _ _).prime root
  obtain ⟨t, hroot, ht, hhandles, hsets⟩ := scan_spec config hparsed
  generalize scan config d = s at *
  have hsubtree : d.subtree root = t.handles := (Document.subtree_eq hparsed.held).trans hhandles.symm
  have hsubtree' : s.document.subtree root = t.handles := hroot ▸ Document.subtree_eq ht
  constructor
  · exact hcensus
  · rw [Document.descendants, Document.descendants, hsubtree, hsubtree']
    refine List.filter_congr fun h hh => ?_
    obtain ⟨m, hm⟩ := ht.get?_of_mem hh
    obtain ⟨m', hm', heq⟩ := hcensus.get?_before hm
    rw [Document.node_of_get? hm, Document.node_of_get? hm', Node.isElement_congr heq]
  · rw [Document.descendants, hsubtree]
    exact ht.nodup.filter _
  · exact hparsed.mem_descendants_iff
  · intro h hh
    obtain ⟨m, hm, helement⟩ := (hparsed.mem_descendants_iff h).mp hh
    obtain ⟨m', he⟩ := NodeTree.exists_entry_of_mem_handles (hhandles ▸ hparsed.live h m hm)
    obtain ⟨n', hn', heq⟩ := hcensus.get?_after hm
    obtain rfl : m' = n' := Option.some.inj ((ht.live _ he).symm.trans hn')
    obtain ⟨set, hset⟩ := hsets _ he ((Node.isElement_congr heq).trans helement)
    exact Scan.exists_places hn' hset

namespace Surveyed

/-- An element has the set of its fingerprint on record, and no other one. -/
theorem slotOf_iff (hs : Surveyed namePrefix d s) (hh : h ∈ d.descendants root)
    (hset : s.bindings.sets[i]? = some set) : s.bindings.slotOf s.document h = some i ↔
      fingerprint ((d.node h).rawBindings namePrefix) = set.fingerprint := by
  obtain ⟨m, hm, -⟩ := (hs.mem_iff h).mp hh
  obtain ⟨j, hj⟩ := hs.placed h hh
  obtain ⟨set', hset', hkey⟩ := hs.census.listed h m j hm hj
  rw [Document.node_of_get? hm, hj.slotOf, ← hkey, Option.some_inj]
  constructor
  · rintro rfl
    rw [Option.some.inj (hset'.symm.trans hset)]
  · exact hs.census.indexed.place_inj hset' hset

/-- The elements that have a set on record are those with its fingerprint. -/
theorem users_eq (hs : Surveyed namePrefix d s) (hset : s.bindings.sets[i]? = some set) :
    users s i = (d.fingerprints namePrefix).count set.fingerprint := by
  rw [users, hs.elements_eq, Document.fingerprints, List.count, List.countP_map]
  refine List.countP_congr fun h hh => ?_
  simp only [Function.comp_apply, beq_iff_eq]
  exact hs.slotOf_iff hh hset

theorem keys_nodup (hs : Surveyed namePrefix d s) : (keys s).Nodup := by
  rw [List.nodup_iff_getElem?_ne_getElem?]
  intro i j hij hj heq
  rw [List.getElem?_eq_getElem hj] at heq
  obtain ⟨set, hset, hkey⟩ := keys_getElem?_eq_some_iff.mp heq
  obtain ⟨set', hset', hkey'⟩ := keys_getElem?_eq_some_iff.mp (List.getElem?_eq_getElem hj)
  have hplace := hs.census.indexed.place_inj hset hset' (hkey.trans hkey'.symm)
  omega

/-- The places of sets with bindings are on record on the elements with bindings. -/
theorem mem_marked_iff (hs : Surveyed namePrefix d s) :
    h ∈ s.marked ↔ h ∈ d.descendants root ∧ (d.node h).rawBindings namePrefix ≠ [] := by
  constructor
  · rintro ⟨i, hpos, n, hn, href⟩
    have hi : s.Places h i := ⟨n, hn, href⟩
    obtain ⟨m, hm, -⟩ := hs.census.get?_before hn
    have hraw := (hs.census.indexed.pos_iff (hs.census.listed h m i hm hi)).mp hpos
    rw [Document.node_of_get? hm]
    exact ⟨(hs.mem_iff h).mpr ⟨m, hm, Node.isElement_of_rawBindings hraw⟩, hraw⟩
  · rintro ⟨hh, hraw⟩
    obtain ⟨m, hm, -⟩ := (hs.mem_iff h).mp hh
    rw [Document.node_of_get? hm] at hraw
    obtain ⟨i, hi⟩ := hs.placed h hh
    exact ⟨i, (hs.census.indexed.pos_iff (hs.census.listed h m i hm hi)).mpr hraw, hi⟩

theorem mem_keys (hs : Surveyed namePrefix d s) :
    key ∈ keys s ↔ key ∈ d.fingerprints namePrefix ∧ key ≠ "" := by
  simp only [mem_keys_iff, Document.fingerprints, List.mem_map]
  constructor
  · rintro ⟨i, set, hpos, hset, rfl⟩
    obtain ⟨h, hi⟩ := hs.census.used i set hpos hset
    obtain ⟨hh, -⟩ := hs.mem_marked_iff.mp ⟨i, hpos, hi⟩
    exact ⟨⟨h, hh, (hs.slotOf_iff hh hset).mp hi.slotOf⟩, hs.census.indexed.nonempty i set hpos hset⟩
  · rintro ⟨⟨h, hh, rfl⟩, hne⟩
    rw [Ne, fingerprint_eq_empty_iff] at hne
    obtain ⟨i, hpos, hi⟩ := hs.mem_marked_iff.mpr ⟨hh, hne⟩
    obtain ⟨m, hm, -⟩ := (hs.mem_iff h).mp hh
    obtain ⟨set, hset, hkey⟩ := hs.census.listed h m i hm hi
    rw [Document.node_of_get? hm]
    exact ⟨i, set, hpos, hset, hkey⟩

/-- Each fingerprint of a set stands in a row with the number of elements that it is of. -/
theorem rows_eq (hs : Surveyed namePrefix d s) :
    (s.bindings.distinctSets.mapIdx fun i set => (users s (i + 1), set.fingerprint)) =
      (keys s).map fun key => ((d.fingerprints namePrefix).count key, key) := by
  refine List.ext_getElem? fun i => ?_
  rw [List.getElem?_mapIdx, List.getElem?_map, keys, List.getElem?_map]
  cases hplace : s.bindings.distinctSets[i]? with
  | none => rfl
  | some set =>
    have hset : s.bindings.sets[i + 1]? = some set := by
      simpa [BindingCache.distinctSets] using hplace
    simp only [Option.map_some, hs.users_eq hset]

/-- The counts sum up to the number of elements with bindings. -/
theorem sum_counts (hs : Surveyed namePrefix d s) :
    ((keys s).map fun key => (d.fingerprints namePrefix).count key).sum =
      (d.descendants root).countP fun h => (d.node h).rawBindings namePrefix ≠ [] := by
  have hperm : (keys s).Perm ((d.fingerprints namePrefix).dedup.filter (· ≠ "")) := by
    rw [List.perm_ext_iff_of_nodup hs.keys_nodup ((List.nodup_dedup _).filter _)]
    intro key
    simp [hs.mem_keys]
  rw [(hperm.map _).sum_eq, List.sum_map_count_dedup_filter_eq_countP, Document.fingerprints,
    List.countP_map]
  refine List.countP_congr fun h _ => ?_
  simp [fingerprint_eq_empty_iff]

/-- The cache has counted every element with bindings once. -/
theorem counted (hs : Surveyed namePrefix d s) :
    s.bindings.hits + s.bindings.misses =
      (d.descendants root).countP fun h => (d.node h).rawBindings namePrefix ≠ [] := by
  have hmarked : s.marked = ((d.descendants root).filter fun h =>
      (d.node h).rawBindings namePrefix ≠ []).toFinset := by
    ext h
    simp [hs.mem_marked_iff]
  rw [hs.census.counted, hmarked, Set.ncard_coe_finset,
    List.toFinset_card_of_nodup (hs.nodup.filter _), List.countP_eq_length_filter]

end Surveyed

/-- The report on a document lists each fingerprint of elements with bindings once, with the number of
elements that it is of; these numbers and the counts of the cache both sum up to the number of elements
with bindings. -/
structure Right (r : FingerprintReport) (namePrefix : String) (d : Document) : Prop where
  elements_nodup : (d.descendants root).Nodup
  mem_elements : ∀ h, h ∈ d.descendants root ↔ ∃ n, d.get? h = some n ∧ n.isElement = true
  keys_nodup : (r.rows.map Prod.snd).Nodup
  mem_keys : ∀ key, key ∈ r.rows.map Prod.snd ↔ key ∈ d.fingerprints namePrefix ∧ key ≠ ""
  count : ∀ row ∈ r.rows, row.1 = (d.fingerprints namePrefix).count row.2
  sum : (r.rows.map Prod.fst).sum =
    (d.descendants root).countP fun h => (d.node h).rawBindings namePrefix ≠ []
  stats : r.stats.entries + r.stats.hits = (r.rows.map Prod.fst).sum
  entries : r.stats.entries = r.rows.length

/-- The report on a parsed document counts right, whatever names binding attributes have. -/
theorem ofDocument_right (config : Config) (hd : Document.ofMarkup source = .ok d) :
    (ofDocument config d).Right config.attributePrefix d := by
  have hs := scan_surveyed config hd
  have hrows : (ofDocument config d).rows = (keys (scan config d)).map fun key =>
      ((d.fingerprints config.attributePrefix).count key, key) := hs.rows_eq
  have hsum : ((ofDocument config d).rows.map Prod.fst).sum = (d.descendants root).countP fun h =>
      (d.node h).rawBindings config.attributePrefix ≠ [] := by
    rw [hrows, List.map_map]
    exact hs.sum_counts
  have hkeys : (ofDocument config d).rows.map Prod.snd = keys (scan config d) := by
    simp [hrows, Function.comp_def]
  constructor
  · exact hs.nodup
  · exact hs.mem_iff
  · rw [hkeys]
    exact hs.keys_nodup
  · rw [hkeys]
    exact fun key => hs.mem_keys
  · rw [hrows]
    intro row hrow
    obtain ⟨key, -, rfl⟩ := List.mem_map.mp hrow
    rfl
  · exact hsum
  · rw [hsum, ← hs.counted, Nat.add_comm]
    have hsize := hs.census.indexed.size_eq
    simp only [ofDocument, BindingCache.stats]
    omega
  · simp [ofDocument, BindingCache.stats, BindingCache.distinctSets]

/-- Two elements share their bindings, one has others and one has none. -/
theorem ofDocument_right_shared :
    ∃ d, Document.ofMarkup ("<p data-jst-content=\"x\"></p><p data-jst-content=\"x\"></p>" ++
        "<i data-jst-if=\"y\"></i><b></b>") = .ok d ∧
      (ofDocument .default d).rows = [(1, "if=y"), (2, "content=x")] ∧
      (ofDocument .default d).stats = ⟨1, 2, 2⟩ ∧ (ofDocument .default d).Right "data-jst-" d := by
  have hparse : parseMarkup ("<p data-jst-content=\"x\"></p><p data-jst-content=\"x\"></p>" ++
      "<i data-jst-if=\"y\"></i><b></b>") =
      .ok [.element "p" [("data-jst-content", "x")] [], .element "p" [("data-jst-content", "x")] [],
        .element "i" [("data-jst-if", "y")] [], .element "b" [] []] := by
    decide +kernel
  have hd := Document.ofMarkup_of_parseMarkup hparse
  exact ⟨_, hd, by decide +kernel, by decide +kernel, ofDocument_right .default hd⟩

end FingerprintReport

end TreeTemplate
