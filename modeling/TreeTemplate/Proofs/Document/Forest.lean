import TreeTemplate.Proofs.Document.Regrowth

/-!
Documents as forests.  In a proper document every live node tops a tree of live nodes
(`Document.Proper`), so each of them is seated below its parent.  A change of one tree changes the
trees around it in the same place (`Regrown.lift`), and the markup of the document only if the markup
of the tree is another one (`Regrown.rooted`).
-/

namespace TreeTemplate

/-- The attributes have different names. -/
def Content.Orderly : Content → Prop
  | .element _ attributes => (Dict.keys attributes).Nodup
  | _ => True

namespace Document

open NodeTree (handlesOf)

variable {d d' : Document} {home : Option Handle} {A B ks us : List NodeTree} {t u R : NodeTree}
  {h p x : Handle} {n : Node}

namespace Holds

/-- A document holds one tree under a handle. -/
theorem unique (ht : d.Holds t) (hu : d.Holds u) (heq : u.handle = t.handle) : u = t := by
  induction t using NodeTree.induct generalizing u with
  | step h n ks ih =>
    obtain ⟨h', n', ks'⟩ := u
    obtain rfl : h' = h := heq
    obtain rfl : n' = n := Option.some.inj (hu.get?_handle.symm.trans ht.get?_handle)
    have hhandles : ks'.map NodeTree.handle = ks.map NodeTree.handle :=
      hu.children.symm.trans ht.children
    suffices ks' = ks by rw [this]
    refine List.ext_getElem (by simpa using congrArg List.length hhandles) fun i hi hi' => ?_
    refine ih _ (List.getElem_mem hi') (ht.kid (List.getElem_mem hi')) (hu.kid (List.getElem_mem hi)) ?_
    have hget := congrArg (fun hs => hs[i]?) hhandles
    simpa [hi, hi'] using hget

/-- Trees that are held under the same handles in a row are the same. -/
theorem unique_all (hA : ∀ t ∈ A, d.Holds t) (hB : ∀ t ∈ B, d.Holds t)
    (heq : B.map NodeTree.handle = A.map NodeTree.handle) : B = A := by
  refine List.ext_getElem (by simpa using congrArg List.length heq) fun i hi hi' => ?_
  refine (hA _ (List.getElem_mem hi')).unique (hB _ (List.getElem_mem hi)) ?_
  have hget := congrArg (fun hs => hs[i]?) heq
  simpa [hi, hi'] using hget

/-- Every node of a held tree tops a held tree of its own. -/
theorem exists_below (ht : d.Holds t) (hx : x ∈ t.handles) :
    ∃ u, u.handle = x ∧ d.Holds u ∧ u.entries ⊆ t.entries := by
  induction t using NodeTree.induct with
  | step h n ks ih =>
    rw [NodeTree.handles_node, List.mem_cons, List.mem_flatMap] at hx
    rcases hx with rfl | ⟨k, hk, hx⟩
    · exact ⟨_, rfl, ht, fun _ he => he⟩
    · obtain ⟨u, hu, hheld, hsub⟩ := ih k hk (ht.kid hk) hx
      exact ⟨u, hu, hheld, fun e he => NodeTree.mem_entries_of_kid hk (hsub he)⟩

/-- A node without a parent is in a tree only as its top. -/
theorem eq_handle_of_parent (ht : d.Holds t) (hx : x ∈ t.handles) (hn : d.get? x = some n)
    (hparent : n.parent? = none) : x = t.handle := by
  by_contra hne
  obtain ⟨m, y, hm, hy, -⟩ := ht.exists_parent hx hne
  rw [hn] at hm
  obtain rfl := Option.some.inj hm
  simp [hparent] at hy

/-- Below the top of a tree every node is listed by its parent. -/
theorem exists_listed (ht : d.Holds t) (hx : x ∈ t.handles) (hne : x ≠ t.handle) :
    ∃ n p m, d.get? x = some n ∧ n.parent? = some p ∧ d.get? p = some m ∧ x ∈ m.children := by
  induction t using NodeTree.induct with
  | step h n ks ih =>
    rw [NodeTree.handles_node, List.mem_cons, List.mem_flatMap] at hx
    rcases hx with rfl | ⟨k, hk, hx⟩
    · exact absurd rfl hne
    by_cases hxk : x = k.handle
    · subst hxk
      refine ⟨k.record, h, n, (ht.kid hk).get?_handle, ht.parent hk, ht.get?_handle, ?_⟩
      rw [ht.children]
      exact List.mem_map_of_mem hk
    · exact ih k hk (ht.kid hk) hx hxk

/-- Trees that share a node lie one inside the other. -/
theorem handle_mem_of_meet (hR : d.Holds R) (ht : d.Holds t) (htop : R.handle ∉ t.handles)
    (hxR : x ∈ R.handles) (hxt : x ∈ t.handles) : t.handle ∈ R.handles := by
  induction t using NodeTree.induct with
  | step h n ks ih =>
    rw [NodeTree.handles_node, List.mem_cons, List.mem_flatMap] at hxt
    rcases hxt with rfl | ⟨k, hk, hx⟩
    · exact hxR
    rw [NodeTree.handles_node, List.mem_cons, List.mem_flatMap, not_or] at htop
    have hkR : k.handle ∈ R.handles :=
      ih k hk (ht.kid hk) (fun hmem => htop.2 ⟨k, hk, hmem⟩) hx
    have hne : k.handle ≠ R.handle :=
      fun heq => htop.2 ⟨k, hk, heq ▸ k.handle_mem_handles⟩
    obtain ⟨m, y, hm, hy, hmem⟩ := hR.exists_parent hkR hne
    rw [(ht.kid hk).get?_handle] at hm
    obtain rfl := Option.some.inj hm
    rw [ht.parent hk] at hy
    obtain rfl := Option.some.inj hy
    exact hmem

end Holds

/-- Every live node tops a tree and is listed by its parent, and the root is live and has none. -/
structure Forest (d : Document) : Prop where
  tidy : d.Tidy
  rooted : ∃ r, d.get? root = some r ∧ r.parent? = none
  held : ∀ h n, d.get? h = some n → ∃ ks, d.Holds (.node h n ks)
  listed : ∀ h n p, d.get? h = some n → n.parent? = some p → ∃ m, d.get? p = some m ∧ h ∈ m.children

/-- A live node is seated below its parent. -/
theorem Forest.seated (hd : d.Forest) (hn : d.get? h = some n) :
    ∃ ks, d.Seated n.parent? [.node h n ks] := by
  obtain ⟨ks, ht⟩ := hd.held h n hn
  refine ⟨ks, ?_⟩
  cases hparent : n.parent? with
  | none => exact .single ht hparent
  | some p =>
    obtain ⟨m, hm, hmem⟩ := hd.listed h n p hn hparent
    obtain ⟨ks', hp⟩ := hd.held p m hm
    rw [hp.children] at hmem
    obtain ⟨k, hk, hkh⟩ := List.mem_map.mp hmem
    obtain rfl := ht.unique (hp.kid hk) hkh
    obtain ⟨pre, post, rfl⟩ := List.append_of_mem hk
    have hseated : d.Seated (some p) ([.node h n ks] ++ post) := (Seated.kids hp).right
    exact hseated.left

/-- The root is in no tree but its own. -/
theorem Forest.handle_eq_root (hd : d.Forest) (ht : d.Holds t) (hmem : root ∈ t.handles) :
    t.handle = root := by
  obtain ⟨r, hr, hparent⟩ := hd.rooted
  exact (ht.eq_handle_of_parent hmem hr hparent).symm

/-- Every live node tops a tree and is listed by its parent, the root is on top of the document, and
no element has an attribute twice.  Handles to removed nodes read as an empty node.  Every document that a
program comes by is like that (`Reached.proper`). -/
structure Proper (d : Document) : Prop where
  tidy : d.Tidy
  rooted : ∃ r, d.get? root = some r ∧ r.content = .root ∧ r.parent? = none
  held : ∀ h n, d.get? h = some n → ∃ ks, d.Holds (.node h n ks)
  listed : ∀ h n p, d.get? h = some n → n.parent? = some p → ∃ m, d.get? p = some m ∧ h ∈ m.children
  orderly : ∀ h n, d.get? h = some n → n.content.Orderly
  vacant : d.vacant.content = .root ∧ d.vacant.children = []

namespace Proper

/-- A document with all its live nodes in the tree of the root is proper. -/
theorem of_holds (htidy : d.Tidy) (ht : d.Holds (.node root n ks)) (hcontent : n.content = .root)
    (hparent : n.parent? = none)
    (hall : ∀ h m, d.get? h = some m → h ∈ (NodeTree.node root n ks).handles)
    (horderly : ∀ e ∈ (NodeTree.node root n ks).entries, e.2.content.Orderly)
    (hvacant : d.vacant.content = .root ∧ d.vacant.children = []) : d.Proper := by
  have hroot : d.get? root = some n := ht.get?_handle
  have hbelow : ∀ h m, d.get? h = some m → ∃ us, d.Holds (.node h m us) ∧
      (NodeTree.node h m us).entries ⊆ (NodeTree.node root n ks).entries := by
    intro h m hm
    obtain ⟨⟨x, m', us⟩, rfl, hu, hsub⟩ := ht.exists_below (hall h m hm)
    obtain rfl : m' = m := Option.some.inj (hu.get?_handle.symm.trans hm)
    exact ⟨us, hu, hsub⟩
  refine ⟨htidy, ⟨n, hroot, hcontent, hparent⟩, fun h m hm => ?_, fun h m p hm hp => ?_,
    fun h m hm => ?_, hvacant⟩
  · obtain ⟨us, hu, -⟩ := hbelow h m hm
    exact ⟨us, hu⟩
  · have hne : h ≠ root := by
      rintro rfl
      rw [hroot] at hm
      obtain rfl := Option.some.inj hm
      simp [hparent] at hp
    obtain ⟨m', q, r, hm', hq, hr, hmem⟩ := ht.exists_listed (hall h m hm) hne
    rw [hm] at hm'
    obtain rfl := Option.some.inj hm'
    rw [hp] at hq
    obtain rfl := Option.some.inj hq
    exact ⟨r, hr, hmem⟩
  · obtain ⟨us, -, hsub⟩ := hbelow h m hm
    exact horderly (h, m) (hsub (NodeTree.top_mem_entries _))

theorem forest (hd : d.Proper) : d.Forest := by
  obtain ⟨r, hr, -, hparent⟩ := hd.rooted
  exact ⟨hd.tidy, ⟨r, hr, hparent⟩, hd.held, hd.listed⟩

/-- A live node is seated below its parent. -/
theorem seated (hd : d.Proper) (hn : d.get? h = some n) :
    ∃ ks, d.Seated n.parent? [.node h n ks] :=
  hd.forest.seated hn

end Proper

namespace Seated

/-- Each of several seated trees is seated. -/
theorem of_mem (hs : d.Seated home A) (ht : t ∈ A) : d.Seated home [t] := by
  obtain ⟨pre, post, rfl⟩ := List.append_of_mem ht
  have hright : d.Seated home ([t] ++ post) := hs.right
  exact hright.left

end Seated

namespace Regrown

/-- A change below a node of a seated tree changes the tree in its place. -/
theorem lift {homeR : Option Handle} (hR : d.Seated homeR [R]) (hs : d.Seated (some p) A)
    (hr : Regrown d d' (some p) A B) (hp : p ∈ R.handles) :
    ∃ R', R'.handle = R.handle ∧ Regrown d d' homeR [R] [R'] ∧
      R'.record.content = R.record.content ∧ R'.record.visible = R.record.visible ∧
      (B.flatMap NodeTree.chars = A.flatMap NodeTree.chars →
        R'.kids.flatMap NodeTree.chars = R.kids.flatMap NodeTree.chars) := by
  induction R using NodeTree.induct generalizing homeR with
  | step h n ks ih =>
    have ht := hR.held _ (List.mem_singleton_self _)
    rw [NodeTree.handles_node, List.mem_cons, List.mem_flatMap] at hp
    rcases hp with rfl | ⟨k, hk, hp⟩
    · obtain ⟨pre, post, hchildren⟩ := hs.listed p rfl n ht.get?_handle
      rw [ht.children, List.append_assoc] at hchildren
      obtain ⟨pre, rest, rfl, rfl, hrest⟩ := List.map_eq_append_iff.mp hchildren
      obtain ⟨A', post, rfl, hA, rfl⟩ := List.map_eq_append_iff.mp hrest
      have hseated := Seated.kids ht
      obtain rfl := Holds.unique_all hseated.right.left.held hs.held hA.symm
      have hkids := (hr.append_right hseated.right).append_left hseated
      refine ⟨.node p _ (pre ++ (B ++ post)), rfl, hkids.inner hR, rfl, rfl, fun hchars => ?_⟩
      simp only [NodeTree.kids_node, List.flatMap_append, hchars]
    · obtain ⟨pre, post, rfl⟩ := List.append_of_mem hk
      have hseated : d.Seated (some h) (pre ++ ([k] ++ post)) := Seated.kids ht
      obtain ⟨k', -, hk', hcontent, hvisible, hchars⟩ := ih k hk hseated.right.left hp
      have hkids := (hk'.append_right hseated.right).append_left hseated
      refine ⟨.node h _ (pre ++ ([k'] ++ post)), rfl, hkids.inner hR, rfl, rfl, fun hsame => ?_⟩
      have hkid : k'.chars = k.chars := by
        obtain ⟨x, m, us⟩ := k
        obtain ⟨x', m', us'⟩ := k'
        rw [NodeTree.chars_node, NodeTree.chars_node]
        have hus := hchars hsame
        simp only [NodeTree.kids_node, NodeTree.record_node] at hus hcontent hvisible
        simp only [nodeChars, hus, hcontent, hvisible]
      simp [hkid]

/-- The tree of the root changes with the trees in it, and its markup only if theirs does. -/
theorem rooted (hR : d.Seated none [R]) (hs : d.Seated home [t]) (hr : Regrown d d' home [t] us)
    (htop : R.handle ∉ t.handles) :
    ∃ R', R'.handle = R.handle ∧ d'.Seated none [R'] ∧
      (us.flatMap NodeTree.chars = t.chars →
        R'.kids.flatMap NodeTree.chars = R.kids.flatMap NodeTree.chars) := by
  have hheld := hR.held R (List.mem_singleton_self R)
  have ht := hs.held t (List.mem_singleton_self t)
  have hbeside : (∀ p ∈ home, p ∉ R.handles) → ∃ R', R'.handle = R.handle ∧ d'.Seated none [R'] ∧
      (us.flatMap NodeTree.chars = t.chars →
        R'.kids.flatMap NodeTree.chars = R.kids.flatMap NodeTree.chars) := by
    intro hhome
    refine ⟨R, rfl, .single (hr.held_beside hheld (fun x hxR hxt => ?_) hhome)
      (hR.parents R (List.mem_singleton_self R)), fun _ => rfl⟩
    have hmem : t.handle ∈ R.handles :=
      hheld.handle_mem_of_meet ht htop hxR (by simpa [handlesOf] using hxt)
    have hne : t.handle ≠ R.handle := fun heq => htop (heq ▸ t.handle_mem_handles)
    obtain ⟨m, y, hm, hy, hyR⟩ := hheld.exists_parent hmem hne
    rw [ht.get?_handle] at hm
    obtain rfl := Option.some.inj hm
    rw [hs.parents t (List.mem_singleton_self t)] at hy
    exact hhome y hy hyR
  cases home with
  | none => exact hbeside (by simp)
  | some p =>
    by_cases hp : p ∈ R.handles
    · obtain ⟨R', hhandle, hlift, -, -, hchars⟩ := hr.lift hR hs hp
      exact ⟨R', hhandle, hlift.seated hR, fun hus => hchars (by simpa using hus)⟩
    · refine hbeside fun q hq => ?_
      obtain rfl := Option.some.inj hq
      exact hp

end Regrown

/-! ### The tree of the root -/

/-- The document shows what is in the tree of the root. -/
theorem toMarkup_eq (hR : d.Holds R) (hroot : R.handle = root) :
    d.toMarkup = String.ofList (R.kids.flatMap NodeTree.chars) := by
  obtain ⟨h, n, ks⟩ := R
  obtain rfl : h = root := hroot
  rw [toMarkup, innerMarkup, innerChars_eq hR, NodeTree.kids_node]

/-- The root has no parent, so it is in a tree only as its top. -/
theorem root_not_mem (hR : d.Seated none [R]) (hroot : R.handle = root) (ht : d.Holds t)
    (htop : t.handle ≠ root) : root ∉ t.handles := by
  intro hmem
  have hheld := (hR.held R (List.mem_singleton_self R)).get?_handle
  rw [hroot] at hheld
  exact htop (ht.eq_handle_of_parent hmem hheld (hR.parents R (List.mem_singleton_self R))).symm

theorem root_not_mem_kids (hR : d.Seated none [R]) (hroot : R.handle = root) (ht : d.Holds t) :
    root ∉ handlesOf t.kids := by
  obtain ⟨h, n, ks⟩ := t
  intro hmem
  by_cases htop : h = root
  · subst htop
    exact ht.handle_not_mem_kids hmem
  · refine root_not_mem hR hroot ht htop ?_
    rw [NodeTree.handles_node]
    exact List.mem_cons_of_mem h hmem

namespace Regrown

/-- The root stays on top of the document if it stays at all. -/
theorem crown (hR : d.Seated none [R]) (hroot : R.handle = root) (hs : d.Seated home [t])
    (hr : Regrown d d' home [t] us) (hstay : t.handle = root → root ∈ us.map NodeTree.handle) :
    ∃ R', R'.handle = root ∧ d'.Seated none [R'] := by
  have ht := hs.held t (List.mem_singleton_self t)
  by_cases htop : t.handle = root
  · obtain rfl := (hR.held R (List.mem_singleton_self R)).unique ht (htop.trans hroot.symm)
    obtain ⟨u, hu, hhandle⟩ := List.mem_map.mp (hstay htop)
    have hhome : home = none :=
      (hs.parents t (List.mem_singleton_self t)).symm.trans (hR.parents t (List.mem_singleton_self t))
    subst hhome
    exact ⟨u, hhandle, (hr.seated hs).of_mem hu⟩
  · obtain ⟨R', hhandle, hseated, -⟩ := hr.rooted hR hs (hroot ▸ root_not_mem hR hroot ht htop)
    exact ⟨R', hhandle.trans hroot, hseated⟩

/-- A tree that gives way to one with its markup leaves the markup of the document. -/
theorem toMarkup_eq (hR : d.Seated none [R]) (hroot : R.handle = root) (hs : d.Seated home [t])
    (hr : Regrown d d' home [t] [u]) (hhandle : u.handle = t.handle) (hchars : u.chars = t.chars)
    (hkids : u.kids.flatMap NodeTree.chars = t.kids.flatMap NodeTree.chars) :
    d'.toMarkup = d.toMarkup := by
  have ht := hs.held t (List.mem_singleton_self t)
  have hheld := hR.held R (List.mem_singleton_self R)
  by_cases htop : t.handle = root
  · rw [Document.toMarkup_eq ht htop, Document.toMarkup_eq
      (hr.held u (List.mem_singleton_self u)) (hhandle.trans htop), hkids]
  · obtain ⟨R', hhandle', hseated, hsame⟩ :=
      hr.rooted hR hs (hroot ▸ root_not_mem hR hroot ht htop)
    rw [Document.toMarkup_eq hheld hroot, Document.toMarkup_eq
      (hseated.held R' (List.mem_singleton_self R')) (hhandle'.trans hroot),
      hsame (by simpa using hchars)]

end Regrown

end Document

end TreeTemplate
