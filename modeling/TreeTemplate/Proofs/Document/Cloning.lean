import TreeTemplate.Proofs.Lifetime
import TreeTemplate.Proofs.Render.Changes

/-!
Copies of nodes.  A copy is a tree of its own, like the one that it was made of, and leaves everything
else in the document as it is; once it is removed, the document is as it was before
(`Document.deepClone_remove`).
-/

namespace TreeTemplate.Document

open NodeTree (Alike handlesOf)

variable {d d' d'' : Document} {h c : Handle} {n : Node} {t u : NodeTree}

/-- The document `d'` is `d` with the copy `c` of the node `h`: a tree without a parent, of the shape of
the tree below `h` and with its records, on handles that stood for nothing. -/
structure Cloned (d : Document) (h c : Handle) (d' : Document) : Prop where
  wellFormed : d'.WellFormed
  alike : ∃ t u, d.Holds t ∧ t.handle = h ∧ d'.Holds u ∧ u.handle = c ∧ Alike t u
  detached : d'.contains c = true ∧ d'.parent? c = none
  fresh : ∀ x ∈ d'.subtree c, d.contains x = false
  kept : ∀ x n, d.get? x = some n → d'.get? x = some n
  contains_iff : ∀ x, d'.contains x = true ↔ d.contains x = true ∨ x ∈ d'.subtree c
  toMarkup : d'.toMarkup = d.toMarkup
  mutations : d'.mutations = d.mutations

/-- The document `d''` is `d'` without the copy `c`, and nothing sets it apart from `d`. -/
structure Undone (d d' : Document) (c : Handle) (d'' : Document) : Prop where
  wellFormed : d''.WellFormed
  contains_iff : ∀ x, d''.contains x = true ↔ d'.contains x = true ∧ x ∉ d'.subtree c
  same : ∀ x, d''.get? x = d.get? x
  nodeCount : d''.nodeCount = d.nodeCount
  toMarkup : d''.toMarkup = d.toMarkup
  mutations : d''.mutations = d.mutations

/-! ### Documents that read the same -/

/-- A document shows what is below the root, so nodes beside it do not show. -/
theorem Forest.toMarkup_eq (hd : d.Forest) (hkept : ∀ x n, d.get? x = some n → d'.get? x = some n) :
    d'.toMarkup = d.toMarkup := by
  obtain ⟨r, hr, -⟩ := hd.rooted
  obtain ⟨ks, hheld⟩ := hd.held root r hr
  have hheld' : d'.Holds (.node root r ks) := by
    refine hheld.congr fun x hx => ?_
    obtain ⟨n, hn⟩ := hheld.get?_of_mem hx
    rw [hn, hkept x n hn]
  rw [Document.toMarkup_eq hheld rfl, Document.toMarkup_eq hheld' rfl]

/-- Documents with the same live handles count the same. -/
theorem Tidy.nodeCount_congr (ht : d.Tidy) (ht' : d'.Tidy) (hsame : ∀ x, d'.get? x = d.get? x) :
    d'.nodeCount = d.nodeCount := by
  have hlive : {x | d'.contains x = true} = {x | d.contains x = true} := by
    ext x
    simp [contains, hsame]
  rw [← ht'.nodeCount_eq, hlive, ht.nodeCount_eq]

/-! ### Copies -/

theorem Grown.contains_iff (hg : Grown d d' none [u]) (x : Handle) :
    d'.contains x = true ↔ d.contains x = true ∨ x ∈ u.handles := by
  by_cases hx : x ∈ u.handles
  · obtain ⟨n, hn⟩ := (hg.held u (List.mem_singleton_self u)).get?_of_mem hx
    simp [contains, hn, hx]
  · simp [contains, hg.frame x (by simpa [handlesOf] using hx) (by simp), hx]

/-- A fresh tree like that of `h` makes a document with a copy of `h`. -/
theorem Grown.cloned (hd : d.Forest) (hd' : d'.Forest) (ht : d.Holds t) (halike : Alike t u)
    (hg : Grown d d' none [u]) (hmutations : d'.mutations = d.mutations) :
    Cloned d t.handle u.handle d' := by
  have hu : u ∈ [u] := List.mem_singleton_self u
  have htop : d'.get? u.handle = some u.record := (hg.held u hu).get?_handle
  have hsubtree : d'.subtree u.handle = u.handles := subtree_eq (hg.held u hu)
  have hkept : ∀ x n, d.get? x = some n → d'.get? x = some n := fun x n hn => by
    rw [hg.frame x (hg.not_mem_new hn) (by simp), hn]
  constructor
  · exact hd'.wellFormed
  · exact ⟨t, u, ht, rfl, hg.held u hu, rfl, halike⟩
  · refine ⟨contains_of_get? htop, ?_⟩
    rw [parent?, node_of_get? htop, hg.parents u hu]
  · intro x hx
    rw [hsubtree] at hx
    simp [contains, hg.fresh x (NodeTree.mem_handlesOf_of_mem hu hx)]
  · exact hkept
  · rw [hsubtree]
    exact hg.contains_iff
  · exact hd.toMarkup_eq hkept
  · exact hmutations

/-- A node without a parent goes without a change of the markup being counted. -/
theorem mutations_remove_free (hn : d.get? h = some n) (hparent : n.parent? = none) :
    (d.remove h).mutations = d.mutations := by
  rw [remove, hn]
  by_cases hroot : h = root
  · simp [hroot]
  · simp [hroot, hparent]

/-- A fresh tree without a parent leaves nothing when it is removed. -/
theorem Grown.undone (hd : d.Forest) (hd' : d'.Forest) (hg : Grown d d' none [u])
    (hmutations : d'.mutations = d.mutations) : Undone d d' u.handle (d'.remove u.handle) := by
  have hu : u ∈ [u] := List.mem_singleton_self u
  have hheld : d'.Holds u := hg.held u hu
  have hparent : u.record.parent? = none := hg.parents u hu
  have hroot : u.handle ≠ root := by
    intro heq
    obtain ⟨r, hr, -⟩ := hd.rooted
    have hfresh := hg.fresh u.handle (NodeTree.mem_handlesOf_of_mem hu u.handle_mem_handles)
    simp [heq, hr] at hfresh
  obtain ⟨htidy, hr⟩ := remove_regrown (.single hheld hparent) hd'.tidy hroot
  have hgone : ∀ x ∈ u.handles, (d'.remove u.handle).get? x = none := fun x hx =>
    hr.gone x (NodeTree.mem_handlesOf_of_mem hu hx) (by simp)
  have hframe : ∀ x, x ∉ u.handles → (d'.remove u.handle).get? x = d'.get? x := fun x hx =>
    hr.frame x (by simpa [handlesOf] using hx) (by simp) (by simp)
  have hsame : ∀ x, (d'.remove u.handle).get? x = d.get? x := by
    intro x
    by_cases hx : x ∈ u.handles
    · rw [hgone x hx, hg.fresh x (NodeTree.mem_handlesOf_of_mem hu hx)]
    · rw [hframe x hx, hg.frame x (by simpa [handlesOf] using hx) (by simp)]
  constructor
  · exact (hd'.remove hheld.get?_handle).wellFormed
  · intro x
    rw [subtree_eq hheld]
    by_cases hx : x ∈ u.handles
    · simp [contains, hgone x hx, hx]
    · simp [contains, hframe x hx, hx]
  · exact hsame
  · exact hd.tidy.nodeCount_congr htidy hsame
  · exact hd.toMarkup_eq fun x n hn => (hsame x).trans hn
  · rw [mutations_remove_free hheld.get?_handle hparent, hmutations]

/-- A copy of a live node is like it, stands apart from everything that was live before and does not
show.  Removing it brings the document back to what it was. -/
theorem deepClone_remove (hd : d.WellFormed) (hh : d.contains h = true) :
    Cloned d h (d.deepClone h).1 (d.deepClone h).2 ∧
      Undone d (d.deepClone h).2 (d.deepClone h).1 ((d.deepClone h).2.remove (d.deepClone h).1) := by
  obtain ⟨n, hn⟩ := exists_of_contains hh
  obtain ⟨ks, ht⟩ := hd.forest.held h n hn
  obtain ⟨-, u, hu, halike, hg⟩ := deepClone_grown hd.tidy ht
  rw [NodeTree.handle_node] at hu hg
  have hd' : (d.deepClone h).2.Forest := hd.forest.deepClone hn
  have hmutations := d.mutations_deepClone h
  rw [← hu]
  exact ⟨hg.cloned hd.forest hd' ht halike hmutations, hg.undone hd.forest hd' hmutations⟩

/-- A list with a text is copied; the copy of the list takes the slot of a node that was removed. -/
theorem deepClone_remove_reused :
    ∃ d, d.WellFormed ∧ d.contains ⟨1, 0⟩ = true ∧ d.contains ⟨3, 0⟩ = false ∧
      (d.deepClone ⟨1, 0⟩).1 = ⟨3, 1⟩ ∧ (d.deepClone ⟨1, 0⟩).2.subtree ⟨3, 1⟩ = [⟨3, 1⟩, ⟨4, 0⟩] ∧
      Cloned d ⟨1, 0⟩ ⟨3, 1⟩ (d.deepClone ⟨1, 0⟩).2 ∧
      Undone d (d.deepClone ⟨1, 0⟩).2 ⟨3, 1⟩ ((d.deepClone ⟨1, 0⟩).2.remove ⟨3, 1⟩) := by
  have hlist := Reached.empty.createElement "ul"
  have hnamed := hlist.setAttribute ⟨1, 0⟩ "id" "one"
  have hfilled := hnamed.appendText (h := ⟨1, 0⟩) rfl "text"
  have hbeside := hfilled.createElement "p"
  have hremoved := hbeside.remove (h := ⟨3, 0⟩) rfl
  obtain ⟨hcloned, hundone⟩ := deepClone_remove (h := ⟨1, 0⟩) hremoved.forest.wellFormed rfl
  exact ⟨_, hremoved.forest.wellFormed, rfl, rfl, rfl, rfl, hcloned, hundone⟩

end TreeTemplate.Document
