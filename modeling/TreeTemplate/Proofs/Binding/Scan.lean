import TreeTemplate.Binding.Cache
import TreeTemplate.Proofs.Dict
import TreeTemplate.Proofs.Document.Sibling

/-!
Looking at nodes for their bindings.  A look only ever adds sets to the cache (`Extends`) and records
on the node which set it found; a node that has a set on record is not touched again.  After
`Scan.prime` every element of a tree has a set on record.
-/

namespace TreeTemplate

namespace BindingCache

variable {b b' b₁ b₂ : BindingCache} {k : Compiler} {n : Node} {raw : List RawBinding}

/-- The set that a node has on record, if it is of this cache. -/
def setOf? (b : BindingCache) (n : Node) : Option BindingSet :=
  n.bindingRef?.bind fun r => if r.cache = b.id then b.sets[r.index]? else none

theorem setOf?_congr (b : BindingCache) {n n' : Node} (h : n'.bindingRef? = n.bindingRef?) :
    b.setOf? n' = b.setOf? n := by
  rw [setOf?, h, setOf?]

/-- The first set is the one without bindings, and every fingerprint leads to a set. -/
structure Sound (b : BindingCache) : Prop where
  first : b.sets[0]? = some (BindingSet.empty "")
  indexed : ∀ (key : String) (i : Nat), Dict.get? b.byFingerprint key = some i → i < b.sets.size

/-- The cache `b'` is `b` with more sets. -/
structure Extends (b b' : BindingCache) : Prop where
  id_eq : b'.id = b.id
  sets : ∀ (i : Nat) (set : BindingSet), b.sets[i]? = some set → b'.sets[i]? = some set

namespace Extends

theorem refl (b : BindingCache) : Extends b b :=
  ⟨rfl, fun _ _ h => h⟩

theorem trans (h : Extends b b₁) (h' : Extends b₁ b₂) : Extends b b₂ :=
  ⟨h'.id_eq.trans h.id_eq, fun i set hset => h'.sets i set (h.sets i set hset)⟩

/-- A set on record stays what it is. -/
theorem setOf? (h : Extends b b') {set : BindingSet} (hset : b.setOf? n = some set) :
    b'.setOf? n = some set := by
  simp only [BindingCache.setOf?, Option.bind_eq_some_iff] at hset ⊢
  obtain ⟨r, hr, hset⟩ := hset
  refine ⟨r, hr, ?_⟩
  rw [h.id_eq]
  split at hset
  · next hid =>
    rw [if_pos hid]
    exact h.sets _ _ hset
  · simp at hset

end Extends

theorem new_sound (owner : Nat) (namePrefix : String) : (new owner namePrefix).Sound :=
  ⟨rfl, by simp [new, Dict.get?]⟩

theorem remembered?_eq (b : BindingCache) (d : Document) (h : Handle) :
    b.remembered? d h = b.setOf? (d.node h) := by
  unfold remembered? slotOf setOf?
  cases (d.node h).bindingRef? with
  | none => rfl
  | some r =>
    simp only [Option.bind_some]
    split <;> simp

/-- Sets stay where they are when another one is added. -/
theorem getElem?_push_eq_some_iff {sets : Array BindingSet} {new set : BindingSet} {i : Nat} :
    (sets.push new)[i]? = some set ↔ i = sets.size ∧ new = set ∨ sets[i]? = some set := by
  rw [Array.getElem?_push]
  split
  · next hi =>
    subst hi
    simp
  · next hi => simp [hi]

/-- Interning only adds a set, and gives the place of one. -/
theorem intern_spec (hb : b.Sound) (k : Compiler) (raw : List RawBinding) :
    (b.intern k raw).2.1.Sound ∧ Extends b (b.intern k raw).2.1 ∧
      ∃ set, (b.intern k raw).2.1.sets[(b.intern k raw).1]? = some set := by
  unfold intern
  split
  · exact ⟨hb, .refl b, _, hb.first⟩
  dsimp only
  split
  · next i hi =>
    have hlt := hb.indexed _ i hi
    exact ⟨⟨hb.first, hb.indexed⟩, ⟨rfl, fun _ _ h => h⟩, b.sets[i], by simp [hlt]⟩
  · have hpush : ∀ (set : BindingSet) (i : Nat) (other : BindingSet),
        b.sets[i]? = some other → (b.sets.push set)[i]? = some other :=
      fun _ _ _ hother => getElem?_push_eq_some_iff.mpr (Or.inr hother)
    refine ⟨⟨hpush _ _ _ hb.first, fun key i hi => ?_⟩, ⟨rfl, hpush _⟩, _,
      Array.getElem?_push_size⟩
    rw [Dict.get?_put] at hi
    rw [Array.size_push]
    split at hi
    · obtain rfl := Option.some.inj hi
      omega
    · have := hb.indexed key i hi
      omega

/-- Clearing a cache keeps its first set. -/
theorem sets_clear {set : BindingSet} (hset : b.sets[0]? = some set) : b.clear.sets = #[set] := by
  have hpos := (Array.getElem?_eq_some_iff.mp hset).choose
  apply Array.ext_getElem?
  intro i
  rw [clear, Array.take_eq_extract, Array.getElem?_extract]
  cases i with
  | zero =>
    rw [if_pos (by omega), Nat.add_zero, hset]
    rfl
  | succ i =>
    rw [if_neg (by omega)]
    rfl

theorem Sound.clear (hb : b.Sound) : b.clear.Sound := by
  refine ⟨?_, by simp [BindingCache.clear, Dict.get?]⟩
  rw [sets_clear hb.first]
  rfl

end BindingCache

namespace NodeTree

variable {b b' : BindingCache} {t t' : NodeTree} {ts ts' : List NodeTree}

/-- The topmost node and every element below it have a set on record. -/
inductive Known (b : BindingCache) : NodeTree → Prop
  | node {h : Handle} {n : Node} {ks : List NodeTree} {set : BindingSet}
      (top : b.setOf? n = some set)
      (kids : ∀ k ∈ ks, k.record.isElement = true → Known b k) : Known b (node h n ks)

theorem Known.mono (hb : b.Extends b') (ht : Known b t) : Known b' t := by
  induction ht with
  | node top _ ih => exact .node (hb.setOf? top) ih

/-- The tree `t'` is `t` with sets put on record where `b` knows of none. -/
inductive Primed (b : BindingCache) : NodeTree → NodeTree → Prop
  | node {h : Handle} {n n' : Node} {ks ks' : List NodeTree}
      (record : n' = n ∨ b.setOf? n = none ∧ ∃ r, n' = { n with bindingRef? := some r })
      (kids : List.Forall₂ (Primed b) ks ks') : Primed b (node h n ks) (node h n' ks')

namespace Primed

theorem refl (b : BindingCache) (t : NodeTree) : Primed b t t := by
  induction t using NodeTree.induct with
  | step h n ks ih => exact .node (Or.inl rfl) (List.forall₂_same.mpr ih)

/-- What is unknown to a larger cache is unknown to a smaller one. -/
theorem mono (hb : b.Extends b') (h : Primed b' t t') : Primed b t t' := by
  induction t using NodeTree.induct generalizing t' with
  | step h n ks ih =>
    obtain ⟨hrecord, hkids⟩ := h
    refine .node (hrecord.imp_right fun hr => ⟨?_, hr.2⟩) ?_
    · cases hset : b.setOf? n with
      | none => rfl
      | some set => simp [hb.setOf? hset] at hr
    · exact forall₂_imp_of_mem hkids fun k hk _ => ih k hk

theorem handle_eq (h : Primed b t t') : t'.handle = t.handle := by
  cases h
  rfl

theorem content_eq (h : Primed b t t') : t'.record.content = t.record.content := by
  obtain ⟨rfl | ⟨-, r, rfl⟩, -⟩ := h <;> rfl

theorem visible_eq (h : Primed b t t') : t'.record.visible = t.record.visible := by
  obtain ⟨rfl | ⟨-, r, rfl⟩, -⟩ := h <;> rfl

theorem isElement_eq (h : Primed b t t') : t'.record.isElement = t.record.isElement :=
  Node.isElement_congr h.content_eq

end Primed

theorem map_handle_of_primed (h : List.Forall₂ (Primed b) ts ts') :
    ts'.map handle = ts.map handle :=
  map_eq_of_forall₂ h fun _ _ _ hk => hk.handle_eq

namespace Primed

theorem handles_eq (h : Primed b t t') : t'.handles = t.handles := by
  induction t using NodeTree.induct generalizing t' with
  | step x n ks ih =>
    obtain ⟨-, hkids⟩ := h
    rw [handles_node, handles_node, List.flatMap_def, List.flatMap_def,
      map_eq_of_forall₂ hkids fun k hk _ => ih k hk]

/-- Every node was there before, perhaps without a set on record. -/
theorem exists_entry (h : Primed b t t') {e : Handle × Node} (he : e ∈ t'.entries) :
    ∃ n, (e.1, n) ∈ t.entries ∧ (e.2 = n ∨ ∃ r, e.2 = { n with bindingRef? := some r }) := by
  induction t using NodeTree.induct generalizing t' with
  | step x n ks ih =>
    obtain ⟨hrecord, hkids⟩ := h
    rw [entries, List.mem_cons, List.mem_flatMap] at he
    rcases he with rfl | ⟨k', hk', he⟩
    · exact ⟨n, top_mem_entries _, hrecord.imp_right And.right⟩
    · obtain ⟨k, hk, hkk'⟩ := exists_of_forall₂ hkids hk'
      obtain ⟨m, hm, hrecord'⟩ := ih k hk hkk' he
      exact ⟨m, mem_entries_of_kid hk hm, hrecord'⟩

theorem outline_eq (h : Primed b t t') : t'.outline = t.outline := by
  induction t using NodeTree.induct generalizing t' with
  | step x n ks ih =>
    have hcontent := h.content_eq
    have hvisible := h.visible_eq
    obtain ⟨-, hkids⟩ := h
    rw [outline, outline, map_eq_of_forall₂ hkids fun k hk _ => ih k hk]
    simp only [record_node] at hcontent hvisible
    rw [hcontent, hvisible]

theorem chars_eq (h : Primed b t t') : t'.chars = t.chars := by
  rw [chars, h.outline_eq, chars]

end Primed

end NodeTree

namespace Document

variable {d : Document} {h : Handle} {n : Node} {ks : List NodeTree}

/-- The elements among the children of a held node. -/
theorem elementChildren_eq (ht : d.Holds (.node h n ks)) :
    d.elementChildren h = (ks.filter fun k => k.record.isElement).map NodeTree.handle := by
  have hn : d.node h = n := node_of_get? ht.get?_handle
  rw [elementChildren, hn, ht.children, List.filter_map]
  congr 1
  refine List.filter_congr fun k hk => ?_
  rw [Function.comp_apply, node_of_get? (ht.kid hk).get?_handle]

end Document

namespace Scan

open NodeTree (Primed Known handlesOf)

variable {s s' s₁ s₂ : Scan} {home : Option Handle} {t : NodeTree} {h : Handle} {n : Node}
  {A B C ks : List NodeTree}

/-- The scan `s'` is `s` with the trees `new` in the place of `old`, and perhaps more sets. -/
structure Advanced (s s' : Scan) (home : Option Handle) (old new : List NodeTree) : Prop where
  regrown : s.document.Regrown s'.document home old new
  tidy : s'.document.Tidy
  sound : s'.bindings.Sound
  extended : s.bindings.Extends s'.bindings

theorem Advanced.refl (hs : s.document.Seated home A) (ht : s.document.Tidy)
    (hb : s.bindings.Sound) : Advanced s s home A A :=
  ⟨.refl hs, ht, hb, .refl _⟩

/-- A node with a set on record is not touched. -/
theorem lookup_of_setOf? {set : BindingSet} (h' : s.bindings.setOf? (s.document.node h) = some set) :
    s.lookup h = (set, s) := by
  rw [lookup, BindingCache.remembered?_eq, h']

/-- The set on record of a held node is what a look finds. -/
theorem lookup_of_mem_entries {e : Handle × Node} {set : BindingSet} (ht : s.document.Holds t)
    (he : e ∈ t.entries) (hset : s.bindings.setOf? e.2 = some set) : (s.lookup e.1).1 = set := by
  rw [lookup_of_setOf? (by rw [Document.node_of_get? (ht.live e he), hset])]

/-- Looks keep the cache in order. -/
theorem lookup_sound (hb : s.bindings.Sound) (h : Handle) : (s.lookup h).2.bindings.Sound := by
  unfold lookup
  cases s.bindings.remembered? s.document h with
  | some set => exact hb
  | none =>
    exact (BindingCache.intern_spec hb s.compiler (s.bindings.rawBindings s.document h)).1

/-- What looks keep, priming keeps. -/
theorem primeWithin_keeps {P : Scan → Prop} (hlook : ∀ s h, P s → P (s.lookup h).2) (hs : P s)
    (depth : Nat) (h : Handle) : P (primeWithin depth h s) := by
  induction depth generalizing s h with
  | zero =>
    rw [primeWithin.eq_def]
    exact hlook s h hs
  | succ depth ih =>
    rw [primeWithin.eq_def]
    dsimp only
    generalize Document.elementChildren _ _ = kids
    induction kids with
    | nil => exact hlook s h hs
    | cons k rest ihrest => exact ih ihrest k

theorem prime_keeps {P : Scan → Prop} (hlook : ∀ s h, P s → P (s.lookup h).2) (hs : P s)
    (h : Handle) : P (s.prime h) :=
  primeWithin_keeps hlook hs _ h

theorem prime_sound (hb : s.bindings.Sound) (h : Handle) : (s.prime h).bindings.Sound :=
  prime_keeps (P := fun s => s.bindings.Sound) (fun _ h hb => lookup_sound hb h) hb h

/-- What is recorded on a node that has no attributes can only be the set without bindings. -/
def Blank (s : Scan) (h : Handle) : Prop :=
  (s.document.node h).content = .root ∧
    ∀ r ∈ (s.document.node h).bindingRef?, r.cache = s.bindings.id → r.index = 0

/-- A look at a node without attributes finds the set without bindings, and changes nothing but the
record of the node. -/
theorem lookup_blank (hb : s.bindings.Sound) (hblank : s.Blank h) :
    s.bindings.setOf? (s.document.node h) = some (.empty "") ∧ s.lookup h = (.empty "", s) ∨
      s.lookup h = (.empty "",
        { s with document := s.document.setBindingRef h ⟨s.bindings.id, 0⟩ }) := by
  cases hset : s.bindings.setOf? (s.document.node h) with
  | some set =>
    have hfound := hset
    simp only [BindingCache.setOf?, Option.bind_eq_some_iff] at hfound
    obtain ⟨r, hr, hfound⟩ := hfound
    split at hfound
    · next hid =>
      rw [hblank.2 r hr hid, hb.first] at hfound
      obtain rfl := Option.some.inj hfound
      exact Or.inl ⟨rfl, lookup_of_setOf? hset⟩
    · simp at hfound
  | none =>
    have hraw : s.bindings.rawBindings s.document h = [] := by
      refine List.filterMap_eq_nil_iff.mpr fun k _ => ?_
      simp [Document.attribute?, Node.attribute?, hblank.1]
    right
    rw [lookup, BindingCache.remembered?_eq, hset, hraw]
    simp [BindingCache.intern, hb.first]

theorem lookup_blank_fst (hb : s.bindings.Sound) (hblank : s.Blank h) :
    (s.lookup h).1 = .empty "" := by
  rcases lookup_blank hb hblank with ⟨-, hlookup⟩ | hlookup <;> rw [hlookup]

/-- A look at a held node finds a set and leaves it on record. -/
theorem lookup_spec (hs : s.document.Seated home [.node h n ks]) (ht : s.document.Tidy)
    (hb : s.bindings.Sound) :
    ∃ n', (n' = n ∨ s.bindings.setOf? n = none ∧ ∃ r, n' = { n with bindingRef? := some r }) ∧
      (s.lookup h).2.bindings.setOf? n' = some (s.lookup h).1 ∧
      Advanced s (s.lookup h).2 home [.node h n ks] [.node h n' ks] := by
  have hn : s.document.get? h = some n := (hs.held _ (List.mem_singleton_self _)).get?_handle
  have hnode := Document.node_of_get? hn
  cases hset : s.bindings.setOf? n with
  | some set =>
    rw [lookup_of_setOf? (by rw [hnode, hset])]
    exact ⟨n, Or.inl rfl, hset, .refl hs ht hb⟩
  | none =>
    obtain ⟨hsound, hextends, set, hplace⟩ :=
      BindingCache.intern_spec hb s.compiler (s.bindings.rawBindings s.document h)
    have hlookup : s.lookup h =
        let interned := s.bindings.intern s.compiler (s.bindings.rawBindings s.document h)
        ((interned.2.1.sets[interned.1]?).getD interned.2.1.emptySet,
          ⟨s.document.setBindingRef h ⟨interned.2.1.id, interned.1⟩, interned.2.2, interned.2.1⟩) := by
      rw [lookup, BindingCache.remembered?_eq, hnode, hset]
    rw [hlookup]
    generalize s.bindings.intern s.compiler (s.bindings.rawBindings s.document h) = interned at *
    refine ⟨{ n with bindingRef? := some ⟨interned.2.1.id, interned.1⟩ }, Or.inr ⟨rfl, _, rfl⟩, ?_,
      ⟨Document.setBindingRef_regrown hs _, ?_, hsound, hextends⟩⟩
    · simp [BindingCache.setOf?, hplace]
    · exact ht.modify hn fun m => { m with bindingRef? := some ⟨interned.2.1.id, interned.1⟩ }

/-- What primes each of several seated trees primes all of them, the last one first. -/
theorem foldr_prime {f : Handle → Scan → Scan}
    (hf : ∀ k ∈ ks, ∀ s : Scan, s.document.Seated home [k] → s.document.Tidy → s.bindings.Sound →
      ∃ k', Advanced s (f k.handle s) home [k] [k'] ∧ Primed s.bindings k k' ∧
        Known (f k.handle s).bindings k')
    (hs : s.document.Seated home ks) (ht : s.document.Tidy) (hb : s.bindings.Sound) :
    ∃ ks', Advanced s
        (((ks.filter fun k => k.record.isElement).map NodeTree.handle).foldr f s) home ks ks' ∧
      List.Forall₂ (Primed s.bindings) ks ks' ∧
      ∀ k' ∈ ks', k'.record.isElement = true → Known
        (((ks.filter fun k => k.record.isElement).map NodeTree.handle).foldr f s).bindings k' := by
  induction ks with
  | nil => exact ⟨[], .refl hs ht hb, .nil, by simp⟩
  | cons k rest ih =>
    have hcons : s.document.Seated home ([k] ++ rest) := hs
    obtain ⟨rest', hadvanced, hprimed, hknown⟩ :=
      ih (fun k hk => hf k (List.mem_cons_of_mem _ hk)) hcons.right
    generalize hs₁ : ((rest.filter fun k => k.record.isElement).map NodeTree.handle).foldr f s = s₁
      at hadvanced hknown
    have hregrown := hadvanced.regrown.append_left hcons
    have hseated := hregrown.seated hcons
    by_cases helement : k.record.isElement = true
    · obtain ⟨k', hadvanced', hprimed', hknown'⟩ :=
        hf k List.mem_cons_self s₁ hseated.left hadvanced.tidy hadvanced.sound
      rw [List.filter_cons_of_pos (by simpa using helement), List.map_cons, List.foldr_cons, hs₁]
      refine ⟨k' :: rest', ⟨hregrown.trans hcons (hadvanced'.regrown.append_right hseated),
        hadvanced'.tidy, hadvanced'.sound, hadvanced.extended.trans hadvanced'.extended⟩,
        .cons (hprimed'.mono hadvanced.extended) hprimed, fun u hu helement => ?_⟩
      rcases List.mem_cons.mp hu with rfl | hu
      · exact hknown'
      · exact (hknown u hu helement).mono hadvanced'.extended
    · rw [List.filter_cons_of_neg (by simpa using helement), hs₁]
      refine ⟨k :: rest', ⟨hregrown, hadvanced.tidy, hadvanced.sound, hadvanced.extended⟩,
        .cons (.refl _ k) hprimed, fun u hu helement' => ?_⟩
      rcases List.mem_cons.mp hu with rfl | hu
      · exact absurd helement' helement
      · exact hknown u hu helement'

theorem primeWithin_spec {depth : Nat} (hs : s.document.Seated home [t]) (ht : s.document.Tidy)
    (hb : s.bindings.Sound) (hdepth : t.size ≤ depth + 1) :
    ∃ t', Advanced s (primeWithin depth t.handle s) home [t] [t'] ∧ Primed s.bindings t t' ∧
      Known (primeWithin depth t.handle s).bindings t' ∧
      (primeWithin depth t.handle s).bindings.setOf? t'.record = some (s.lookup t.handle).1 := by
  induction t using NodeTree.induct generalizing depth s home with
  | step h n ks ih =>
    obtain ⟨n', hrecord, htop, hadvanced⟩ := lookup_spec hs ht hb
    rw [NodeTree.handle_node, primeWithin.eq_def]
    dsimp only
    generalize (s.lookup h).1 = set at htop
    generalize (s.lookup h).2 = s₁ at htop hadvanced ⊢
    have hseated := hadvanced.regrown.seated hs
    have hheld := hseated.held _ (List.mem_singleton_self _)
    cases depth with
    | zero =>
      obtain rfl : ks = [] := by
        cases ks with
        | nil => rfl
        | cons k rest =>
          have hlt := NodeTree.size_lt_of_mem (h := h) (n := n)
            (show k ∈ k :: rest from List.mem_cons_self)
          have hpos := k.size_pos
          omega
      exact ⟨_, hadvanced, .node hrecord .nil, .node htop (by simp), htop⟩
    | succ depth =>
      have hkids : ∀ k ∈ ks, ∀ s : Scan, s.document.Seated (some h) [k] → s.document.Tidy →
          s.bindings.Sound → ∃ k', Advanced s (primeWithin depth k.handle s) (some h) [k] [k'] ∧
            Primed s.bindings k k' ∧ Known (primeWithin depth k.handle s).bindings k' := by
        intro k hk s hs ht hb
        have hlt := NodeTree.size_lt_of_mem (h := h) (n := n) hk
        have hdepth' : k.size ≤ depth + 1 := by omega
        obtain ⟨k', hadvanced, hprimed, hknown, -⟩ := ih k hk hs ht hb hdepth'
        exact ⟨k', hadvanced, hprimed, hknown⟩
      obtain ⟨ks', hadvanced', hprimed, hknown⟩ :=
        foldr_prime hkids (Document.Seated.kids hheld) hadvanced.tidy hadvanced.sound
      rw [← Document.elementChildren_eq hheld] at hadvanced' hknown
      have hlinks : { n' with children := ks'.map NodeTree.handle } = n' := by
        rw [NodeTree.map_handle_of_primed hprimed, ← hheld.children]
      have hinner := hadvanced'.regrown.inner hseated
      rw [hlinks] at hinner
      refine ⟨_, ⟨hadvanced.regrown.trans hs hinner, hadvanced'.tidy, hadvanced'.sound,
        hadvanced.extended.trans hadvanced'.extended⟩, ?_, ?_, hadvanced'.extended.setOf? htop⟩
      · exact .node hrecord (hprimed.imp fun _ _ hk => hk.mono hadvanced.extended)
      · exact .node (hadvanced'.extended.setOf? htop) hknown

/-- After a node was primed, it and every element below it have a set on record, and nothing else has
changed.  The set of the node is the one that a look at it alone finds. -/
theorem prime_spec (hs : s.document.Seated home [t]) (ht : s.document.Tidy)
    (hb : s.bindings.Sound) :
    ∃ t', Advanced s (s.prime t.handle) home [t] [t'] ∧ Primed s.bindings t t' ∧
      Known (s.prime t.handle).bindings t' ∧
      (s.prime t.handle).bindings.setOf? t'.record = some (s.lookup t.handle).1 := by
  have hsize := (hs.held t (List.mem_singleton_self t)).size_lt_reach
  exact primeWithin_spec hs ht hb (by omega)

/-- Priming a removed node changes no live node. -/
theorem prime_vacant (hb : s.bindings.Sound) (hblank : s.Blank h) (hdead : s.document.get? h = none)
    (hchildren : s.document.vacant.children = []) :
    (s.prime h).bindings = s.bindings ∧
      (∀ x, (s.prime h).document.get? x = s.document.get? x) ∧
      s.bindings.setOf? ((s.prime h).document.node h) = some (.empty "") ∧
      (s.prime h).document.elementChildren h = [] := by
  have hnode : s.document.node h = s.document.vacant := by simp [Document.node, hdead]
  rcases lookup_blank hb hblank with ⟨hset, hlookup⟩ | hlookup
  · have hkids : s.document.elementChildren h = [] := by
      simp [Document.elementChildren, hnode, hchildren]
    have hprime : s.prime h = s := by
      rw [prime, Document.reach, primeWithin, hlookup]
      simp [hkids]
    rw [hprime]
    exact ⟨rfl, fun _ => rfl, hset, hkids⟩
  · have hput : s.document.setBindingRef h ⟨s.bindings.id, 0⟩ = { s.document with
        vacant := { Node.new .root with bindingRef? := some ⟨s.bindings.id, 0⟩ } } := by
      simp [Document.setBindingRef, Document.modify, Document.writable, Document.put, hdead]
    have hget : ∀ x, (s.document.setBindingRef h ⟨s.bindings.id, 0⟩).get? x = s.document.get? x := by
      intro x
      rw [hput]
      rfl
    have hvacant : (s.document.setBindingRef h ⟨s.bindings.id, 0⟩).node h =
        { Node.new .root with bindingRef? := some ⟨s.bindings.id, 0⟩ } := by
      rw [Document.node, hget, hdead, hput]
      rfl
    have hkids : (s.document.setBindingRef h ⟨s.bindings.id, 0⟩).elementChildren h = [] := by
      simp [Document.elementChildren, hvacant, Node.new]
    have hprime : s.prime h =
        { s with document := s.document.setBindingRef h ⟨s.bindings.id, 0⟩ } := by
      rw [prime, Document.reach, primeWithin, hlookup]
      simp [hkids]
    rw [hprime]
    exact ⟨rfl, hget, by simp [hvacant, BindingCache.setOf?, hb.first], hkids⟩

end Scan

end TreeTemplate
