import TreeTemplate.Proofs.Document.Cloning
import TreeTemplate.Proofs.Render.Loading

/-!
Lookups that find nothing to load.  When the loader has no markup the document stays as it is, and so it does
when the markup does not parse, provided that the container of loaded templates is there.  If it is not, such
markup leaves a new container behind everything else, hidden and empty (`Templates.find_of_fails`).  That
container is found from then on, so lookups in a row add one at most (`Templates.findAll_of_fails`).
-/

namespace TreeTemplate

namespace Document

open NodeTree (handlesOf)

variable {d d' : Document} {p : Handle} {m n : Node} {ks new : List NodeTree}

/-! ### Growth below the root -/

theorem finite_contains (d : Document) : {h | d.contains h = true}.Finite := by
  have hfinite : {h | ∃ n, d.get? h = some n}.Finite := finite_live d
  exact hfinite.subset fun h hh => exists_of_contains hh

/-- What grows below a live node is counted. -/
theorem Grown.nodeCount (ht : d.Tidy) (ht' : d'.Tidy) (hm : d.get? p = some m)
    (hg : Grown d d' (some p) new) : d'.nodeCount = d.nodeCount + (handlesOf new).length := by
  have hlive : {x | d'.contains x = true} = {x | d.contains x = true} ∪ {x | x ∈ handlesOf new} := by
    ext x
    simp only [Set.mem_ofPred_eq, Set.mem_union]
    by_cases hx : x ∈ handlesOf new
    · obtain ⟨u, hu, hxu⟩ := NodeTree.mem_handlesOf.mp hx
      obtain ⟨k, hk⟩ := (hg.held u hu).get?_of_mem hxu
      simp [contains_of_get? hk, hx]
    by_cases hxp : some p = some x
    · obtain rfl := Option.some.inj hxp
      simp [contains_of_get? hm, contains_of_get? (hg.parent p rfl m hm)]
    · simp [contains, hg.frame x hx hxp, hx]
  have hapart : Disjoint {x | d.contains x = true} {x | x ∈ handlesOf new} := by
    refine Set.disjoint_left.mpr fun x hx hnew => ?_
    obtain ⟨k, hk⟩ := exists_of_contains hx
    exact hg.not_mem_new hk hnew
  have hnew : {x | x ∈ handlesOf new} = ↑(handlesOf new).toFinset := by
    ext x
    simp
  rw [← ht'.nodeCount_eq, hlive, Set.ncard_union_eq hapart (finite_contains d) (List.finite_toSet _),
    ht.nodeCount_eq, hnew, Set.ncard_coe_finset, List.toFinset_card_of_nodup hg.nodup]

theorem Grown.content_node {home : Option Handle} {x : Handle} (hg : Grown d d' home new)
    (hm : d.get? x = some m) : (d'.node x).content = (d.node x).content := by
  by_cases hhome : home = some x
  · rw [node_of_get? hm, node_of_get? (hg.parent x hhome m hm)]
  · rw [node, node, hg.frame x (hg.not_mem_new hm) hhome, hg.vacant]

/-- What grows below the root stands behind what is there. -/
theorem Grown.holds_root (ht : d.Holds (.node root n ks)) (hparent : n.parent? = none)
    (hg : Grown d d' (some root) new) :
    d'.Holds (.node root { n with children := (ks ++ new).map NodeTree.handle } (ks ++ new)) := by
  have hs : d.Seated none [.node root n ks] := .single ht hparent
  exact ((hg.regrown_kids ht).inner hs).held _ (List.mem_singleton_self _)

theorem mutations_createHiddenContainer (ht : d.Tidy) (name value : String) :
    (d.createHiddenContainer name value).2.mutations = d.mutations + 2 := by
  have hg := alloc_grown ht (n := Node.new (.element "div" [])) rfl rfl
  have hn := (hg.held _ (List.mem_singleton_self _)).get?_handle
  rw [NodeTree.handle_node] at hn
  have hset := mutations_setAttribute hn name value
  rw [if_neg (by simp [Content.put, Node.new, Dict.put])] at hset
  simp [createHiddenContainer, createElement, appendChild, hset]

end Document

open Document (Grown root)

/-- A loader supplies nothing for a reference: it has no markup, or markup that does not parse. -/
def Loader.Fails (load : Loader) (reference : String) : Prop :=
  ∀ markup, load reference = some markup → ∃ error, parseMarkup markup = .error error

namespace Templates

variable {t : Templates} {d d' : Document} {c : Handle} {load : Loader} {reference : String}
  {references : List String}

/-- The document `d'` is `d` with a container for loaded templates behind everything else, which is hidden
and holds nothing. -/
structure Equipped (t : Templates) (d d' : Document) : Prop where
  forest : d'.Forest
  missing : t.named? d t.containerId = none
  container : ∃ c, t.named? d' t.containerId = some c ∧
    Grown d d' (some root) [.node c (Node.hiddenContainer t.idAttribute t.containerId) []]
  toMarkup : d'.toMarkup = d.toMarkup ++
    String.ofList (Document.nodeChars (Node.hiddenContainer t.idAttribute t.containerId) [])
  nodeCount : d'.nodeCount = d.nodeCount + 1
  mutations : d'.mutations = d.mutations + 2

/-- A container that grows below the root is the one that is found, if there was none. -/
theorem named?_of_grown (hd : d.Forest) (hmissing : t.named? d t.containerId = none)
    (hg : Grown d d' (some root) [.node c (Node.hiddenContainer t.idAttribute t.containerId) []]) :
    t.named? d' t.containerId = some c := by
  obtain ⟨r, hr, hparent⟩ := hd.rooted
  obtain ⟨ks, hheld⟩ := hd.held root r hr
  have hsubtree : d.subtree root = _ := Document.subtree_eq hheld
  have hsubtree' : d'.subtree root = (NodeTree.node root r ks).handles ++ [c] := by
    have heq := Document.subtree_eq (hg.holds_root hheld hparent)
    simpa [NodeTree.handles_node] using heq
  rw [named?_containerId, hsubtree, List.find?_eq_none] at hmissing
  have hold : (NodeTree.node root r ks).handles.find? (t.isContainer d') = none := by
    refine List.find?_eq_none.mpr fun x hx => ?_
    obtain ⟨m, hm⟩ := hheld.get?_of_mem hx
    rw [isContainer_congr]
    · exact hmissing x hx
    · exact hg.content_node hm
  have hnew : t.isContainer d' c = true := by
    have hleaf := (hg.held _ (List.mem_singleton_self _)).get?_handle
    rw [NodeTree.handle_node] at hleaf
    simp [isContainer, Document.attribute?, Document.node_of_get? hleaf, Node.hiddenContainer, Node.new,
      Node.isElement, Node.attribute?, Dict.get?]
  rw [named?_containerId, hsubtree', List.find?_append, hold, Option.none_or, List.find?_singleton,
    if_pos hnew]

/-- A missing container is made. -/
theorem container_equipped (hd : d.Forest) (hmissing : t.named? d t.containerId = none) :
    t.Equipped d (t.container d).2 := by
  obtain ⟨r, hr, hparent⟩ := hd.rooted
  obtain ⟨ks, hheld⟩ := hd.held root r hr
  have hforest := (container_finds t hd).forest
  have hcontainer : t.container d = d.createHiddenContainer t.idAttribute t.containerId := by
    rw [container, hmissing]
  obtain ⟨ht, hg⟩ := Document.createHiddenContainer_grown hd.tidy hr t.idAttribute t.containerId
  rw [hcontainer] at hforest ⊢
  refine ⟨hforest, hmissing, ⟨_, named?_of_grown hd hmissing hg, hg⟩, ?_, ?_, ?_⟩
  · rw [Document.toMarkup_eq (hg.holds_root hheld hparent) rfl, Document.toMarkup_eq hheld rfl,
      NodeTree.kids_node, NodeTree.kids_node, List.flatMap_append, String.ofList_append]
    simp [NodeTree.chars_node]
  · rw [hg.nodeCount hd.tidy ht hr]
    simp
  · exact Document.mutations_createHiddenContainer hd.tidy t.idAttribute t.containerId

/-- Markup that does not parse is put into no container, but there is one then. -/
theorem findLoaded_of_fails (hload : load.Fails reference) :
    t.findLoaded d reference (load reference) =
      if load reference = none then (t.named? d reference, d) else (none, (t.container d).2) := by
  cases hmarkup : load reference with
  | none => rfl
  | some markup =>
    obtain ⟨error, herror⟩ := hload markup hmarkup
    simp [findLoaded, Document.appendMarkup, herror, Except.map]

/-- A lookup whose loader supplies nothing makes the container if there is markup that does not parse, and
does nothing to the document otherwise. -/
theorem find_document_of_fails (hload : load.Fails reference) :
    (t.find (some load) d reference).document = d ∨
      reference ≠ "" ∧ t.named? d reference = none ∧ load reference ≠ none ∧
        (t.find (some load) d reference).document = (t.container d).2 := by
  unfold find
  by_cases hempty : reference.isEmpty = true
  · rw [if_pos hempty]
    exact .inl rfl
  rw [if_neg hempty]
  cases hmissing : t.named? d reference with
  | some h => exact .inl rfl
  | none =>
    simp only [findLoaded_of_fails hload]
    by_cases hmarkup : load reference = none
    · rw [if_pos hmarkup]
      exact .inl rfl
    · rw [if_neg hmarkup]
      exact .inr ⟨by simpa using hempty, trivial, hmarkup, rfl⟩

theorem container_of_named (hc : t.named? d t.containerId = some c) : t.container d = (c, d) := by
  rw [container, hc]

/-- Where the container is there, a loader that supplies nothing leaves the document as it is. -/
theorem find_document_of_named (hload : load.Fails reference)
    (hc : t.named? d t.containerId = some c) :
    (t.find (some load) d reference).document = d := by
  rcases find_document_of_fails (t := t) (d := d) hload with h | ⟨-, -, -, h⟩
  · exact h
  · rw [h, container_of_named hc]

/-- A lookup whose loader supplies nothing leaves the document as it is, or with a new container. -/
theorem find_equipped_of_fails (hd : d.Forest) (hload : load.Fails reference) :
    (t.find (some load) d reference).document = d ∨
      t.Equipped d (t.find (some load) d reference).document := by
  cases hc : t.named? d t.containerId with
  | some c => exact .inl (find_document_of_named hload hc)
  | none =>
    rcases find_document_of_fails (t := t) (d := d) hload with h | ⟨-, -, -, h⟩
    · exact .inl h
    · exact .inr (h ▸ container_equipped hd hc)

/-- What is neither in the document nor supplied is not found, and the document stays as it is just when the
loader has no markup or the container is there already. -/
theorem find_of_fails (hd : d.WellFormed) (hload : load.Fails reference) (hreference : reference ≠ "")
    (hmissing : t.named? d reference = none) :
    (t.find (some load) d reference).node? = none ∧
      ((t.find (some load) d reference).document = d ∨
        t.Equipped d (t.find (some load) d reference).document) ∧
      ((t.find (some load) d reference).document = d ↔
        load reference = none ∨ t.named? d t.containerId ≠ none) := by
  have hfind : t.find (some load) d reference =
      ⟨none, if load reference = none then d else (t.container d).2, true⟩ := by
    unfold find
    rw [if_neg (by simpa using hreference), hmissing]
    simp only [findLoaded_of_fails hload, hmissing]
    split <;> rfl
  refine ⟨by rw [hfind], find_equipped_of_fails hd.forest hload, ?_⟩
  rw [hfind]
  cases hc : t.named? d t.containerId with
  | some c => simp [container_of_named hc]
  | none =>
    have hequipped := container_equipped hd.forest hc
    by_cases hmarkup : load reference = none
    · simp [hmarkup]
    · simp only [hmarkup, if_false, ne_eq, not_true_eq_false, or_self, iff_false]
      intro heq
      have hmutations := hequipped.mutations
      rw [heq] at hmutations
      omega

/-! ### Lookups in a row -/

/-- A document after looking for several templates, one after another. -/
def findAll (t : Templates) (loader? : Option Loader) (d : Document) (references : List String) :
    Document :=
  references.foldl (fun d reference => (t.find loader? d reference).document) d

theorem findAll_of_named (hload : ∀ reference ∈ references, load.Fails reference)
    (hc : t.named? d t.containerId = some c) : t.findAll (some load) d references = d := by
  induction references with
  | nil => rfl
  | cons reference rest ih =>
    rw [List.forall_mem_cons] at hload
    rw [findAll, List.foldl_cons, find_document_of_named hload.1 hc]
    exact ih hload.2

/-- However many lookups fail, a document stays as it is or gets one container. -/
theorem findAll_of_fails (hd : d.WellFormed)
    (hload : ∀ reference ∈ references, load.Fails reference) :
    t.findAll (some load) d references = d ∨
      t.Equipped d (t.findAll (some load) d references) := by
  induction references with
  | nil => exact .inl rfl
  | cons reference rest ih =>
    rw [List.forall_mem_cons] at hload
    rw [findAll, List.foldl_cons]
    rcases find_equipped_of_fails (t := t) hd.forest hload.1 with h | h
    · rw [h]
      exact ih hload.2
    · obtain ⟨c, hc, -⟩ := h.container
      have hrest : t.findAll (some load) _ rest = _ := findAll_of_named hload.2 hc
      rw [findAll] at hrest
      rw [hrest]
      exact .inr h

/-- A template that does not parse leaves a container. -/
example :
    let t : Templates := ⟨"id", "shelf"⟩
    let d := Document.plantAll .empty root [.element "p" [] []]
    let d' := t.findAll (some fun _ => some "<b id='t'>") d ["t", "u"]
    (d'.nodeCount, d'.mutations, d'.toMarkup) =
      (d.nodeCount + 1, d.mutations + 2, "<p></p><div id=\"shelf\" style=\"display:none\"></div>") := by
  decide +kernel

end Templates

end TreeTemplate
