import TreeTemplate.Proofs.Document.Scatter
import TreeTemplate.Proofs.Document.Unscanned

/-!
What a change inside the subtree of one node leaves alone.  Looking at nodes and copying them changes
at most the binding sets on record (`Retains`).  A change inside the subtree of `x` leaves every other
node as it was, but may put a run of nodes in the place of `x` among the children of its parent
(`Spares`).  Such changes compose, also when the later one works on a node that an earlier one made
(`Spares.trans_below`).
-/

namespace TreeTemplate

namespace Document

variable {d d' d₁ d₂ : Document} {a h x : Handle} {n n' n₁ n₂ : Node}
  {run more cs pre post : List Handle} {us : List NodeTree}

/-! ### Children with a run in the place of one -/

/-- The nodes with a run of nodes in the place of `x`. -/
def relist (x : Handle) (run cs : List Handle) : List Handle :=
  cs.flatMap fun c => if c = x then run else [c]

theorem relist_of_not_mem (hx : x ∉ cs) : relist x run cs = cs := by
  have hsame : ∀ c ∈ cs, (if c = x then run else [c]) = [c] := by
    intro c hc
    rw [if_neg]
    rintro rfl
    exact hx hc
  rw [relist, List.flatMap_congr hsame, List.flatMap_singleton']

theorem relist_self : relist x [x] cs = cs := by
  have hsame : ∀ c ∈ cs, (if c = x then [x] else [c]) = [c] := by
    intro c _
    split
    · next hc => rw [hc]
    · rfl
  rw [relist, List.flatMap_congr hsame, List.flatMap_singleton']

theorem relist_append_cons (hpre : x ∉ pre) (hpost : x ∉ post) :
    relist x run (pre ++ x :: post) = pre ++ run ++ post := by
  have hcut : relist x run (pre ++ x :: post) = relist x run pre ++ (run ++ relist x run post) := by
    simp [relist]
  rw [hcut, relist_of_not_mem hpre, relist_of_not_mem hpost, List.append_assoc]

/-- A node that is in none but the first run can only be replaced there. -/
theorem relist_relist (hx : ∀ c ∈ cs, c ≠ a → c ≠ x) :
    relist x more (relist a run cs) = relist a (relist x more run) cs := by
  rw [relist, relist, List.flatMap_assoc]
  refine List.flatMap_congr fun c hc => ?_
  split
  · rfl
  · next hne => simp [hx c hc hne]

/-- The record `n'` is `n` with another set on record perhaps, and a run in the place of `x` among the
children. -/
def Relists (x : Handle) (n n' : Node) : Prop :=
  ∃ run, n'.unscanned = { n.unscanned with children := relist x run n.children }

namespace Relists

theorem of_unscanned (h : n'.unscanned = n.unscanned) : Relists x n n' := by
  refine ⟨[x], ?_⟩
  rw [relist_self, h]
  rfl

theorem parent_eq (h : Relists x n n') : n'.parent? = n.parent? := by
  obtain ⟨run, h⟩ := h
  simpa [Node.unscanned] using congrArg Node.parent? h

/-- The children stay where `x` is not among them. -/
theorem unscanned_eq (h : Relists x n n') (hx : x ∉ n.children) : n'.unscanned = n.unscanned := by
  obtain ⟨run, h⟩ := h
  rw [h, relist_of_not_mem hx]
  rfl

theorem trans (h : Relists a n n₁) (h' : Relists x n₁ n₂) (hx : ∀ c ∈ n.children, c ≠ a → c ≠ x) :
    Relists a n n₂ := by
  obtain ⟨run, h⟩ := h
  obtain ⟨more, h'⟩ := h'
  have hchildren : n₁.children = relist a run n.children := by
    simpa [Node.unscanned] using congrArg Node.children h
  refine ⟨relist x more run, ?_⟩
  rw [h', h, hchildren, relist_relist hx]

end Relists

/-! ### Every node stays as it was -/

/-- Every live node stays live, and only its binding set on record may change. -/
def Retains (d d' : Document) : Prop :=
  ∀ y n, d.get? y = some n → ∃ n', d'.get? y = some n' ∧ n'.unscanned = n.unscanned

namespace Retains

theorem refl : Retains d d :=
  fun _ n hn => ⟨n, hn, rfl⟩

theorem trans (h : Retains d d₁) (h' : Retains d₁ d₂) : Retains d d₂ := by
  intro y n hn
  obtain ⟨n₁, hn₁, heq₁⟩ := h y n hn
  obtain ⟨n₂, hn₂, heq₂⟩ := h' y n₁ hn₁
  exact ⟨n₂, hn₂, heq₂.trans heq₁⟩

theorem kept (h : Retains d d') : Kept d d' := by
  intro y n _ hn
  obtain ⟨n', hn', heq⟩ := h y n hn
  exact ⟨n', hn', Node.parent_of_unscanned heq⟩

end Retains

theorem setBindingRef_retains (d : Document) (h : Handle) (r : BindingRef) :
    Retains d (d.setBindingRef h r) := by
  intro y n hn
  cases hm : d.get? h with
  | none =>
    refine ⟨n, ?_, rfl⟩
    rw [← hn]
    simp only [setBindingRef, modify, put, hm]
    rfl
  | some m =>
    rw [setBindingRef, get?_modify hm]
    split
    · next hy =>
      obtain rfl := Option.some.inj (hm.symm.trans (hy ▸ hn))
      exact ⟨_, rfl, rfl⟩
    · exact ⟨n, hn, rfl⟩

/-- Trees without a parent are added next to everything else. -/
theorem Grown.retains (hg : Grown d d' none us) : Retains d d' := by
  intro y n hn
  exact ⟨n, by rw [hg.frame y (hg.not_mem_new hn) (by simp), hn], rfl⟩

/-! ### The markup of nodes that stay -/

end Document

/-- What the markup shows of a node, and the links of the node. -/
def Node.guise (n : Node) : Node :=
  { Node.new n.content with parent? := n.parent?, children := n.children, visible := n.visible }

namespace Node

variable {n n' : Node}

theorem content_of_guise (h : n'.guise = n.guise) : n'.content = n.content := by
  simpa [guise, Node.new] using congrArg Node.content h

theorem visible_of_guise (h : n'.guise = n.guise) : n'.visible = n.visible := by
  simpa [guise, Node.new] using congrArg Node.visible h

theorem guise_of_unscanned (h : n'.unscanned = n.unscanned) : n'.guise = n.guise := by
  rw [guise, guise, content_of_unscanned h, parent_of_unscanned h, children_of_unscanned h,
    visible_of_unscanned h]

end Node

theorem Document.exists_of_guise {d d' : Document} {h : Handle} {n : Node} (hn : d.get? h = some n)
    (hsame : (d'.get? h).map Node.guise = (d.get? h).map Node.guise) :
    ∃ n', d'.get? h = some n' ∧ n'.guise = n.guise := by
  rw [hn, Option.map_some] at hsame
  exact Option.map_eq_some_iff.mp hsame

/-- The tree with the records that a document has under its handles. -/
def NodeTree.reread (d : Document) : NodeTree → NodeTree
  | node h _ ks => node h (d.node h) (ks.map (reread d))

namespace NodeTree

variable {d d' : Document} {t : NodeTree}

theorem handle_reread (d : Document) (t : NodeTree) : (t.reread d).handle = t.handle := by
  obtain ⟨h, n, ks⟩ := t
  rw [reread, handle_node, handle_node]

theorem handles_reread (d : Document) (t : NodeTree) : (t.reread d).handles = t.handles := by
  induction t using NodeTree.induct with
  | step h n ks ih =>
    rw [reread, handles_node, handles_node, List.flatMap_map, List.flatMap_congr ih]

end NodeTree

namespace Document

variable {d d' : Document} {h : Handle} {n : Node} {t : NodeTree}

/-- A document in which the nodes of a tree have the same links holds the tree, with the records as they
are now. -/
theorem Holds.reread_of_links (ht : d.Holds t)
    (hsame : ∀ x ∈ t.handles, (d'.get? x).map Node.links = (d.get? x).map Node.links) :
    d'.Holds (t.reread d') ∧ (t.reread d').record.links = t.record.links := by
  induction t using NodeTree.induct with
  | step h n ks ih =>
    have hkids := fun k hk => ih k hk (ht.kid hk) fun x hx =>
      hsame x (NodeTree.mem_handles_of_kid hk hx)
    have hn : d.get? h = some n := ht.get?_handle
    have hlinks := hsame h (NodeTree.handle_mem_handles _)
    rw [hn, Option.map_some] at hlinks
    obtain ⟨n', hn', heq⟩ := Option.map_eq_some_iff.mp hlinks
    have hnode : d'.node h = n' := node_of_get? hn'
    rw [NodeTree.reread, hnode]
    refine ⟨.node hn' ?_ ?_ ?_ ?_, heq⟩
    · have hchildren : n'.children = n.children := congrArg Prod.snd heq
      rw [hchildren, ht.children, List.map_map]
      exact List.map_congr_left fun k _ => (k.handle_reread d').symm
    · intro k' hk'
      obtain ⟨k, hk, rfl⟩ := List.mem_map.mp hk'
      exact (congrArg Prod.fst (hkids k hk).2).trans (ht.parent hk)
    · intro k' hk'
      obtain ⟨k, hk, rfl⟩ := List.mem_map.mp hk'
      exact (hkids k hk).1
    · have hnodup := ht.nodup
      rw [NodeTree.handles_node] at hnodup
      rwa [List.flatMap_map, List.flatMap_congr fun k _ => k.handles_reread d']

/-- A document in which the nodes of a tree have the same guise holds the tree, with the records as they
are now. -/
theorem Holds.reread (ht : d.Holds t)
    (hsame : ∀ x ∈ t.handles, (d'.get? x).map Node.guise = (d.get? x).map Node.guise) :
    d'.Holds (t.reread d') := by
  refine (ht.reread_of_links fun x hx => ?_).1
  have hlinks := congrArg (Option.map Node.links) (hsame x hx)
  rwa [Option.map_map, Option.map_map] at hlinks

theorem Holds.outline_reread (ht : d.Holds t)
    (hsame : ∀ x ∈ t.handles, (d'.get? x).map Node.guise = (d.get? x).map Node.guise) :
    (t.reread d').outline = t.outline := by
  induction t using NodeTree.induct with
  | step h n ks ih =>
    have hn : d.get? h = some n := ht.get?_handle
    obtain ⟨n', hn', heq⟩ := exists_of_guise hn (hsame h (NodeTree.handle_mem_handles _))
    have hnode : d'.node h = n' := node_of_get? hn'
    rw [NodeTree.reread, NodeTree.outline, NodeTree.outline, hnode, List.map_map,
      Node.content_of_guise heq, Node.visible_of_guise heq]
    congr 1
    exact List.map_congr_left fun k hk => ih k hk (ht.kid hk) fun x hx =>
      hsame x (NodeTree.mem_handles_of_kid hk hx)

/-- The markup shows nothing but the guise of the nodes below the root. -/
theorem toMarkup_of_guise (ht : d.Holds t) (hroot : t.handle = root)
    (hsame : ∀ x ∈ t.handles, (d'.get? x).map Node.guise = (d.get? x).map Node.guise) :
    d'.toMarkup = d.toMarkup := by
  have ht' := ht.reread hsame
  rw [toMarkup_eq ht hroot, toMarkup_eq ht' ((t.handle_reread d').trans hroot)]
  obtain ⟨h, n, ks⟩ := t
  rw [NodeTree.reread, NodeTree.kids_node, NodeTree.kids_node, List.flatMap_map]
  congr 1
  refine List.flatMap_congr fun k hk => ?_
  rw [NodeTree.chars, (ht.kid hk).outline_reread fun x hx =>
    hsame x (NodeTree.mem_handles_of_kid hk hx), NodeTree.chars]

/-- While every node stays as it was, so does the markup. -/
theorem Retains.toMarkup_eq (hr : Retains d d') (hd : d.Forest) : d'.toMarkup = d.toMarkup := by
  obtain ⟨r, hroot, -⟩ := hd.rooted
  obtain ⟨ks, ht⟩ := hd.held root r hroot
  refine toMarkup_of_guise ht rfl fun x hx => ?_
  obtain ⟨n, hn⟩ := ht.get?_of_mem hx
  obtain ⟨n', hn', heq⟩ := hr x n hn
  rw [hn, hn', Option.map_some, Option.map_some, Node.guise_of_unscanned heq]

variable {d₁ d₂ : Document} {a p x : Handle} {m : Node} {home : Option Handle}
  {us : List NodeTree}

/-! ### Changes inside the subtree of one node -/

/-- Nodes that are not in the subtree of `x` stay as they were, sets on record aside; a run of nodes
may stand in the place of `x`. -/
def Spares (d d' : Document) (x : Handle) : Prop :=
  ∀ y n, d.get? y = some n → ¬ d.Above x y → ∃ n', d'.get? y = some n' ∧ Relists x n n'

theorem Retains.spares (hr : Retains d d') : Spares d d' x := by
  intro y n hn _
  obtain ⟨n', hn', heq⟩ := hr y n hn
  exact ⟨n', hn', .of_unscanned heq⟩

/-- The records after a node without a parent has taken the place of another one. -/
theorem Links.get?_replace (hd : d.Links) (hm : d.get? h = some m) (hfree : m.parent? = none)
    (hx : d.get? x = some n) (habove : ¬ d.Above h x) (hparent : n.parent? = some p) :
    ∃ k pre post, d.get? p = some k ∧ k.children = pre ++ x :: post ∧ x ∉ pre ∧ x ∉ post ∧
      ∀ y, (d.replace h x).get? y =
        if y = h then some { m with parent? := some p }
        else if y = x then some { n with parent? := none }
        else if y = p then some { k with children := pre ++ h :: post }
        else d.get? y := by
  have hpx : d.ParentOf p x := ⟨n, hx, hparent⟩
  have hxh : x ≠ h := fun heq => habove (heq ▸ .refl)
  have hph : p ≠ h := fun heq => habove (heq ▸ .single hpx)
  have hxp : x ≠ p := fun heq => hd.acyclic x (.single (heq ▸ hpx))
  obtain ⟨k, hk⟩ := hd.parent_live p x hpx
  obtain ⟨pre, post, hchildren⟩ := List.append_of_mem ((hd.mem_children hk).mpr hpx)
  have hnodup := hd.nodup p k hk
  rw [hchildren, List.nodup_middle, List.nodup_cons, List.mem_append, not_or] at hnodup
  refine ⟨k, pre, post, hk, hchildren, hnodup.1.1, hnodup.1.2, fun y => ?_⟩
  have hset : k.children.set pre.length h = pre ++ h :: post := by
    rw [hchildren, List.set_append_right _ _ le_rfl, Nat.sub_self, List.set_cons_zero]
  have hh₁ : (d.modify p fun q => { q with children := q.children.set pre.length h }).get? h =
      some m := by
    rw [get?_modify hk, if_neg (Ne.symm hph), hm]
  have hx₂ : ((d.modify p fun q => { q with children := q.children.set pre.length h }).modify h
      fun q => { q with parent? := some p }).get? x = some n := by
    rw [get?_modify hh₁, if_neg hxh, get?_modify hk, if_neg hxp, hx]
  unfold Document.replace
  dsimp only
  rw [detach_eq_self hm hfree, position?_eq hx hparent hk hchildren hnodup.1.1]
  dsimp only
  rw [get?_mutated, get?_modify hx₂, get?_modify hh₁, get?_modify hk, hset]
  by_cases hyh : y = h
  · simp [hyh, Ne.symm hxh]
  · simp [hyh]

namespace Spares

theorem keeps (hs : Spares d d' x) : Keeps d d' fun y => ¬ d.Above x y := by
  intro y n hy hn
  obtain ⟨n', hn', hrelists⟩ := hs y n hn hy
  exact ⟨n', hn', hrelists.parent_eq⟩

/-- After a change inside the subtree of `a` a node may change that is from there or fresh. -/
theorem trans_below (hd : d.Links) (hs : Spares d d₁ a) (hx : d.get? x = none ∨ d.Above a x)
    (hs' : Spares d₁ d₂ x) : Spares d d₂ a := by
  intro y n hn hy
  obtain ⟨n₁, hn₁, hrelists⟩ := hs y n hn hy
  have hout : ¬ d₁.Above x y := by
    rw [hd.above_iff_of_spared hs.keeps hy ⟨n, hn⟩]
    intro hxy
    rcases hx with hnone | hax
    · obtain ⟨m, hm⟩ := hd.live_of_above hxy ⟨n, hn⟩
      simp [hnone] at hm
    · exact hy (hax.trans hxy)
  obtain ⟨n₂, hn₂, hrelists'⟩ := hs' y n₁ hn₁ hout
  refine ⟨n₂, hn₂, hrelists.trans hrelists' ?_⟩
  rintro c hc hca rfl
  have hyc : d.ParentOf y c := (hd.mem_children hn).mp hc
  rcases hx with hnone | hac
  · obtain ⟨m, hm, -⟩ := hyc
    simp [hnone] at hm
  · rcases above_iff.mp hac with rfl | ⟨q, hqc, haq⟩
    · exact hca rfl
    · exact hy (hqc.unique hyc ▸ haq)

theorem trans (hd : d.Links) (hs : Spares d d₁ x) (hs' : Spares d₁ d₂ x) : Spares d d₂ x :=
  hs.trans_below hd (Or.inr .refl) hs'

/-- Trees that take the place of a seated tree. -/
theorem of_regrown (hd : d.Forest) (hs : d.Seated home [t]) (hr : Regrown d d' home [t] us) :
    Spares d d' t.handle := by
  have ht := hs.held t (List.mem_singleton_self t)
  intro y n hn hy
  have hold : y ∉ NodeTree.handlesOf [t] := by
    rw [← hd.mem_handles_iff ht] at hy
    simpa using hy
  by_cases hhome : home = some y
  · obtain ⟨n', pre, post, hn', hchildren, hafter⟩ := hr.home_live hs hhome
    obtain rfl := Option.some.inj (hn.symm.trans hn')
    rw [List.map_singleton, List.append_assoc, List.singleton_append] at hchildren
    have hnodup := hd.links.nodup y n hn
    rw [hchildren, List.nodup_middle, List.nodup_cons, List.mem_append, not_or] at hnodup
    refine ⟨_, hafter, us.map NodeTree.handle, ?_⟩
    rw [hchildren, relist_append_cons hnodup.1.1 hnodup.1.2]
    rfl
  · exact ⟨n, by rw [hr.frame y hold (hr.not_mem_new hn hold) hhome, hn], .of_unscanned rfl⟩

/-- A fresh node without a parent takes the place of another one. -/
theorem exchange (hd : d.Forest) (hx : d.get? x = some n) (hk : Retains d d₁) (hd₁ : d₁.Forest)
    (hfresh : d.get? h = none) (hm : d₁.get? h = some m) (hfree : m.parent? = none) :
    Spares d (d₁.replace h x) x := by
  obtain ⟨n₁, hx₁, hsame⟩ := hk x n hx
  have hne : ∀ y k, d.get? y = some k → y ≠ h := by
    rintro y k hy rfl
    simp [hfresh] at hy
  have hroot : h ≠ root := by
    obtain ⟨r, hr, -⟩ := hd.rooted
    exact (hne root r hr).symm
  have habove := hd.links.not_above_of_fresh hk.kept hfresh ⟨n, hx⟩
  cases hparent : n₁.parent? with
  | none =>
    rw [replace, detach_eq_self hm hfree, position?_eq_none hx₁ hparent]
    exact hk.spares
  | some p =>
    obtain ⟨k, pre, post, hk₁, hchildren, hpre, hpost, hget⟩ :=
      hd₁.links.get?_replace hm hfree hx₁ habove hparent
    intro y l hl hy
    obtain ⟨l₁, hl₁, heq⟩ := hk y l hl
    have hyx : y ≠ x := by
      rintro rfl
      exact hy .refl
    rw [hget, if_neg (hne y l hl), if_neg hyx]
    split
    · next hyp =>
      obtain rfl := Option.some.inj (hk₁.symm.trans (hyp ▸ hl₁))
      refine ⟨_, rfl, [h], ?_⟩
      rw [← Node.children_of_unscanned heq, hchildren, relist_append_cons hpre hpost, ← heq]
      simp [Node.unscanned]
    · exact ⟨l₁, hl₁, .of_unscanned heq⟩

end Spares

/-- The document `d'` is `d` outside the subtree of `x`, except that a run of nodes stands in the place
of `x` among the children of its parent.  Sets on record may differ. -/
structure Framed (d d' : Document) (x : Handle) : Prop where
  others : ∀ y n, d.get? y = some n → ¬ d.Above x y → ¬ d.ParentOf y x →
    ∃ n', d'.get? y = some n' ∧ n'.unscanned = n.unscanned
  parent : ∀ p n, d.get? p = some n → d.ParentOf p x →
    ∃ n' pre run post, d'.get? p = some n' ∧ n.children = pre ++ x :: post ∧
      n'.unscanned = { n.unscanned with children := pre ++ run ++ post }

theorem Spares.framed (hs : Spares d d' x) (hd : d.Links) : Framed d d' x := by
  constructor
  · intro y n hn hout hparent
    obtain ⟨n', hn', hrelists⟩ := hs y n hn hout
    exact ⟨n', hn', hrelists.unscanned_eq (mt (hd.mem_children hn).mp hparent)⟩
  · intro p n hn hpx
    obtain ⟨n', hn', run, heq⟩ := hs p n hn (hd.not_above hpx)
    obtain ⟨pre, post, hchildren⟩ := List.append_of_mem ((hd.mem_children hn).mpr hpx)
    have hnodup := hd.nodup p n hn
    rw [hchildren, List.nodup_middle, List.nodup_cons, List.mem_append, not_or] at hnodup
    rw [hchildren, relist_append_cons hnodup.1.1 hnodup.1.2] at heq
    exact ⟨n', pre, run, post, hn', hchildren, heq⟩

end Document

end TreeTemplate
