import Mathlib.Data.Set.Function
import TreeTemplate.Proofs.Document.Links
import TreeTemplate.Proofs.Document.Shape

/-!
Documents up to the numbering of their nodes.  A renumbering takes the live nodes of one document to those
of another, with all that is recorded on them and with their links, and keeps the root
(`Document.Renumbered`).  Documents that differ in trees of the same shapes, below the same tops, are
renumberings of each other (`Document.Regrown.renumbered`).
-/

namespace TreeTemplate

/-- The record with its links under other handles. -/
def Node.renumber (ρ : Handle → Handle) (n : Node) : Node :=
  { n with parent? := n.parent?.map ρ, children := n.children.map ρ }

theorem Node.renumber_eq_self {ρ : Handle → Handle} {n : Node} (hparent : ∀ p ∈ n.parent?, ρ p = p)
    (hchildren : ∀ c ∈ n.children, ρ c = c) : n.renumber ρ = n := by
  have hp : n.parent?.map ρ = n.parent? := by
    cases h : n.parent? with
    | none => rfl
    | some p => exact congrArg some (hparent p h)
  have hc : n.children.map ρ = n.children :=
    (List.map_congr_left (g := id) hchildren).trans (List.map_id _)
  rw [renumber, hp, hc]

/-- Distinct handles can be taken to any others, and all the rest left alone. -/
theorem Handle.exists_renumbering {as bs : List Handle} (hlength : as.length = bs.length)
    (hnodup : as.Nodup) : ∃ ρ : Handle → Handle, as.map ρ = bs ∧ ∀ x, x ∉ as → ρ x = x := by
  induction as generalizing bs with
  | nil => exact ⟨id, by simpa using hlength.symm, fun _ _ => rfl⟩
  | cons a as ih =>
    cases bs with
    | nil => simp at hlength
    | cons b bs =>
      rw [List.nodup_cons] at hnodup
      obtain ⟨ρ, hmap, hrest⟩ := ih (Nat.succ.inj hlength) hnodup.2
      refine ⟨Function.update ρ a b, ?_, fun x hx => ?_⟩
      · rw [List.map_cons, Function.update_self, ← hmap]
        congr 1
        refine List.map_congr_left fun x hx => Function.update_of_ne ?_ _ _
        rintro rfl
        exact hnodup.1 hx
      · rw [List.mem_cons, not_or] at hx
        rw [Function.update_of_ne hx.1, hrest x hx.2]

namespace NodeTree

variable {ρ : Handle → Handle} {t u : NodeTree} {ts us : List NodeTree}

/-- The tree under other handles. -/
def renumber (ρ : Handle → Handle) : NodeTree → NodeTree
  | node h n ks => node (ρ h) (n.renumber ρ) (ks.map (renumber ρ))

theorem renumber_node (ρ : Handle → Handle) (h : Handle) (n : Node) (ks : List NodeTree) :
    (node h n ks).renumber ρ = node (ρ h) (n.renumber ρ) (ks.map (renumber ρ)) := by
  rw [renumber]

@[simp] theorem handle_renumber (ρ : Handle → Handle) (t : NodeTree) :
    (t.renumber ρ).handle = ρ t.handle := by
  cases t
  rw [renumber_node]
  rfl

@[simp] theorem record_renumber (ρ : Handle → Handle) (t : NodeTree) :
    (t.renumber ρ).record = t.record.renumber ρ := by
  cases t
  rw [renumber_node]
  rfl

theorem entries_renumber (ρ : Handle → Handle) (t : NodeTree) :
    (t.renumber ρ).entries = t.entries.map fun e => (ρ e.1, e.2.renumber ρ) := by
  induction t using NodeTree.induct with
  | step h n ks ih =>
    rw [renumber_node, entries, entries, List.map_cons, List.map_flatMap, List.flatMap_map]
    congr 1
    exact List.flatMap_congr ih

theorem handles_renumber (ρ : Handle → Handle) (t : NodeTree) :
    (t.renumber ρ).handles = t.handles.map ρ := by
  rw [handles, entries_renumber, List.map_map, handles, List.map_map]
  rfl

/-- Other handles leave the shape. -/
theorem shape_renumber (ρ : Handle → Handle) (t : NodeTree) : (t.renumber ρ).shape = t.shape := by
  induction t using NodeTree.induct with
  | step h n ks ih =>
    rw [renumber_node, shape_node, shape_node, List.map_map,
      List.map_congr_left (f := shape ∘ NodeTree.renumber ρ) ih]
    rfl

theorem Linked.renumber (h : Linked t) (ρ : Handle → Handle) : Linked (t.renumber ρ) := by
  induction h with
  | @node h n ks children parents _ ih =>
    rw [renumber_node]
    refine .node ?_ (fun k hk => ?_) fun k hk => ?_
    · rw [List.map_map, Node.renumber, children, List.map_map]
      exact List.map_congr_left fun k _ => (handle_renumber ρ k).symm
    · obtain ⟨k, hk', rfl⟩ := List.mem_map.mp hk
      rw [record_renumber, Node.renumber, parents k hk']
      rfl
    · obtain ⟨k, hk', rfl⟩ := List.mem_map.mp hk
      exact ih k hk'

theorem length_handles_eq (h : t.shape = u.shape) : t.handles.length = u.handles.length := by
  rw [length_handles, length_handles, ← size_shape, h, size_shape]

theorem length_handlesOf_eq (h : ts.map shape = us.map shape) :
    (handlesOf ts).length = (handlesOf us).length := by
  have hsizes : ∀ ts : List NodeTree,
      (handlesOf ts).length = ((ts.map shape).map Shape.size).sum := by
    intro ts
    rw [handlesOf, List.length_flatMap, List.map_map]
    exact congrArg List.sum (List.map_congr_left fun t _ => by
      rw [length_handles, Function.comp_apply, size_shape])
  rw [hsizes, hsizes, h]

/-- Trees in a row that are the same under other handles one by one. -/
theorem map_renumber_eq (hone : ∀ t ∈ ts, ∀ u ∈ us, t.shape = u.shape → t.handles.map ρ = u.handles →
      t.renumber ρ = u) (hshapes : ts.map shape = us.map shape)
    (hhandles : (handlesOf ts).map ρ = handlesOf us) : ts.map (renumber ρ) = us := by
  induction ts generalizing us with
  | nil => exact (List.map_eq_nil_iff.mp hshapes.symm).symm
  | cons t ts ih =>
    cases us with
    | nil => simp at hshapes
    | cons u us =>
      rw [List.map_cons, List.map_cons, List.cons.injEq] at hshapes
      rw [handlesOf_cons, handlesOf_cons, List.map_append] at hhandles
      obtain ⟨htop, hrest⟩ := List.append_inj hhandles (by
        rw [List.length_map, length_handles_eq hshapes.1])
      rw [List.map_cons, hone t List.mem_cons_self u List.mem_cons_self hshapes.1 htop,
        ih (fun t ht u hu => hone t (List.mem_cons_of_mem _ ht) u (List.mem_cons_of_mem _ hu))
          hshapes.2 hrest]

/-- Trees of one shape whose handles correspond are the same under other handles. -/
theorem renumber_eq (ht : Linked t) (hu : Linked u) (hshape : t.shape = u.shape)
    (hhandles : t.handles.map ρ = u.handles) (hparent : u.record.parent? = t.record.parent?.map ρ) :
    t.renumber ρ = u := by
  induction ht generalizing u with
  | @node h n ks children parents _ ih =>
    obtain ⟨children', parents', linked'⟩ := hu
    rename_i h' n' ks'
    rw [shape_node, shape_node, Shape.node.injEq] at hshape
    rw [handles_node, handles_node, List.map_cons, List.cons.injEq] at hhandles
    obtain ⟨rfl, hbelow⟩ := hhandles
    have hkids : ks.map (renumber ρ) = ks' := by
      refine map_renumber_eq (fun k hk k' hk' hshape hhandles => ?_) hshape.2 hbelow
      refine ih k hk (linked' k' hk') hshape hhandles ?_
      rw [parents k hk, parents' k' hk']
      rfl
    have hrecord : n.renumber ρ = n' := by
      have hchildren : n'.children = n.children.map ρ := by
        rw [children', ← hkids, children, List.map_map, List.map_map]
        exact List.map_congr_left fun k _ => handle_renumber ρ k
      have hparent : n'.parent? = n.parent?.map ρ := hparent
      calc n.renumber ρ
          = { n.unlinked with parent? := n.parent?.map ρ, children := n.children.map ρ } := rfl
        _ = { n'.unlinked with parent? := n'.parent?, children := n'.children } := by
          rw [hshape.1, hparent, hchildren]
        _ = n' := rfl
    rw [renumber_node, hkids, hrecord]

end NodeTree

namespace Document

open NodeTree (handlesOf)

variable {d d₁ d₂ : Document} {ρ : Handle → Handle} {home : Option Handle} {us vs ws : List NodeTree}
  {t : NodeTree} {h x : Handle} {n : Node}

/-- The document `d'` is `d` with its live nodes under other handles, the root excepted. -/
structure Renumbered (ρ : Handle → Handle) (d d' : Document) : Prop where
  root_eq : ρ root = root
  bijOn : Set.BijOn ρ {h | d.contains h = true} {h | d'.contains h = true}
  get?_eq : ∀ h n, d.get? h = some n → d'.get? (ρ h) = some (n.renumber ρ)
  vacant : d'.vacant = d.vacant
  mutations : d'.mutations = d.mutations

namespace Renumbered

theorem refl (d : Document) : Renumbered id d d := by
  refine ⟨rfl, Set.bijOn_id _, fun h n hn => ?_, rfl, rfl⟩
  rw [Node.renumber_eq_self (ρ := id) (fun _ _ => rfl) fun _ _ => rfl]
  exact hn

/-- Under other handles there are as many nodes. -/
theorem nodeCount_eq (h : Renumbered ρ d₁ d₂) (h₁ : d₁.Tidy) (h₂ : d₂.Tidy) :
    d₂.nodeCount = d₁.nodeCount := by
  rw [← h₁.nodeCount_eq, ← h₂.nodeCount_eq]
  exact (Set.ncard_congr' (Set.BijOn.equiv ρ h.bijOn)).symm

/-- A tree is held under other handles. -/
theorem holds (h : Renumbered ρ d₁ d₂) (ht : d₁.Holds t) : d₂.Holds (t.renumber ρ) := by
  refine ⟨ht.linked.renumber ρ, ?_, fun e he => ?_⟩
  · rw [NodeTree.handles_renumber]
    refine ht.nodup.map_on fun x hx y hy heq => ?_
    obtain ⟨n, hn⟩ := ht.get?_of_mem hx
    obtain ⟨m, hm⟩ := ht.get?_of_mem hy
    exact h.bijOn.injOn (contains_of_get? hn) (contains_of_get? hm) heq
  · rw [NodeTree.entries_renumber] at he
    obtain ⟨entry, hentry, rfl⟩ := List.mem_map.mp he
    exact h.get?_eq entry.1 entry.2 (ht.live entry hentry)

/-- Other handles do not show. -/
theorem toMarkup_eq (h : Renumbered ρ d₁ d₂) (hd : d₁.Forest) : d₂.toMarkup = d₁.toMarkup := by
  obtain ⟨r, hr, -⟩ := hd.rooted
  obtain ⟨ks, ht⟩ := hd.held root r hr
  have hu := h.holds ht
  have hshape := NodeTree.shape_renumber ρ (.node root r ks)
  rw [Document.toMarkup_eq hu (by rw [NodeTree.handle_renumber]; exact h.root_eq),
    Document.toMarkup_eq ht rfl, ← NodeTree.flatMap_chars_shape, ← NodeTree.kids_shape, hshape,
    NodeTree.kids_shape, NodeTree.flatMap_chars_shape]

end Renumbered

/-- The trees `ws` are the trees `vs` under other handles, their tops and everything outside excepted. -/
structure Carries (ρ : Handle → Handle) (vs ws : List NodeTree) : Prop where
  trees : vs.map (NodeTree.renumber ρ) = ws
  rest : ∀ x, x ∉ handlesOf vs → ρ x = x
  tops : ∀ x ∈ vs.map NodeTree.handle, ρ x = x

theorem Carries.map_handles (hρ : Carries ρ vs ws) : (handlesOf vs).map ρ = handlesOf ws := by
  rw [← hρ.trees, handlesOf, handlesOf, List.map_flatMap, List.flatMap_map]
  exact List.flatMap_congr fun v _ => (NodeTree.handles_renumber ρ v).symm

namespace Regrown

/-- What is outside the trees that take the place of others is outside all that could do so below the
same tops, and the same. -/
theorem get?_outside (hs : d.Seated home us) (h₁ : Regrown d d₁ home us vs)
    (h₂ : Regrown d d₂ home us ws) (htops : ws.map NodeTree.handle = vs.map NodeTree.handle)
    (hx : d₁.get? x = some n) (hvs : x ∉ handlesOf vs) : x ∉ handlesOf ws ∧ d₂.get? x = some n := by
  have hus : x ∉ handlesOf us := by
    intro hmem
    have hgone := h₁.gone x hmem hvs
    simp [hx] at hgone
  by_cases hhome : home = some x
  · obtain ⟨m, hm⟩ := hs.home_live hhome
    obtain ⟨pre, post, hchildren⟩ := hs.listed x hhome m hm
    have hget₁ := h₁.siblings x hhome m pre post hm hchildren
    have hget₂ := h₂.siblings x hhome m pre post hm hchildren
    rw [hx, Option.some.injEq] at hget₁
    rw [htops, ← hget₁] at hget₂
    exact ⟨h₂.not_mem_new hm hus, hget₂⟩
  · have hold := h₁.frame x hus hvs hhome
    rw [hx] at hold
    have hws := h₂.not_mem_new hold.symm hus
    exact ⟨hws, (h₂.frame x hus hws hhome).trans hold.symm⟩

/-- Trees of the same shapes in the place of others differ in the numbering of what is below them. -/
theorem exists_carries (hs : d.Seated home us) (h₁ : Regrown d d₁ home us vs)
    (h₂ : Regrown d d₂ home us ws) (hshapes : vs.map NodeTree.shape = ws.map NodeTree.shape)
    (htops : ws.map NodeTree.handle = vs.map NodeTree.handle) : ∃ ρ, Carries ρ vs ws := by
  obtain ⟨ρ, hmap, hrest⟩ :=
    Handle.exists_renumbering (NodeTree.length_handlesOf_eq hshapes) h₁.nodup
  have hhome : home.map ρ = home := by
    cases hhome : home with
    | none => rfl
    | some p => exact congrArg some (hrest p ((h₁.seated hs).apart p hhome))
  have htrees : vs.map (NodeTree.renumber ρ) = ws := by
    refine NodeTree.map_renumber_eq (fun v hv w hw hshape hhandles => ?_) hshapes hmap
    refine NodeTree.renumber_eq (h₁.held v hv).linked (h₂.held w hw).linked hshape hhandles ?_
    rw [h₁.parents v hv, h₂.parents w hw, hhome]
  have hkeep : (vs.map NodeTree.handle).map ρ = (vs.map NodeTree.handle).map id :=
    calc (vs.map NodeTree.handle).map ρ
        = (vs.map (NodeTree.renumber ρ)).map NodeTree.handle := by
          rw [List.map_map, List.map_map]
          exact List.map_congr_left fun v _ => (NodeTree.handle_renumber ρ v).symm
      _ = (vs.map NodeTree.handle).map id := by rw [htrees, htops, List.map_id]
  exact ⟨ρ, htrees, hrest, List.map_inj_left.mp hkeep⟩

/-- A node outside the trees has no links into them but to their tops. -/
theorem renumber_outside (h₁ : Regrown d d₁ home us vs) (hρ : Carries ρ vs ws) (hd₁ : d₁.Forest)
    (hx : d₁.get? x = some n) (hvs : x ∉ handlesOf vs) : n.renumber ρ = n := by
  refine Node.renumber_eq_self (fun p hp => hρ.rest p fun hmem => ?_) fun c hc => ?_
  · obtain ⟨v, hv, hpv⟩ := NodeTree.mem_handlesOf.mp hmem
    obtain ⟨m, hm, hxm⟩ := hd₁.listed x n p hx hp
    exact hvs (NodeTree.mem_handlesOf_of_mem hv ((h₁.held v hv).mem_of_child hpv hm hxm))
  · by_cases hmem : c ∈ handlesOf vs
    · obtain ⟨v, hv, hcv⟩ := NodeTree.mem_handlesOf.mp hmem
      refine hρ.tops c ?_
      by_cases htop : c = v.handle
      · exact htop ▸ List.mem_map_of_mem hv
      obtain ⟨m, y, hm, hy, hyv⟩ := (h₁.held v hv).exists_parent hcv htop
      have hparent := (hd₁.links.mem_children_iff x n c m hx hm).mp hc
      obtain rfl := Option.some.inj (hy.symm.trans hparent)
      exact absurd (NodeTree.mem_handlesOf_of_mem hv hyv) hvs
    · exact hρ.rest c hmem

theorem get?_carried (hs : d.Seated home us) (h₁ : Regrown d d₁ home us vs)
    (h₂ : Regrown d d₂ home us ws) (htops : ws.map NodeTree.handle = vs.map NodeTree.handle)
    (hρ : Carries ρ vs ws) (hd₁ : d₁.Forest) (hx : d₁.get? x = some n) :
    d₂.get? (ρ x) = some (n.renumber ρ) := by
  by_cases hmem : x ∈ handlesOf vs
  · obtain ⟨v, hv, hxv⟩ := NodeTree.mem_handlesOf.mp hmem
    obtain ⟨m, hm⟩ := NodeTree.exists_entry_of_mem_handles hxv
    obtain rfl := Option.some.inj (((h₁.held v hv).live _ hm).symm.trans hx)
    have hw := h₂.held (v.renumber ρ) (hρ.trees ▸ List.mem_map_of_mem hv)
    refine hw.live (ρ x, m.renumber ρ) ?_
    rw [NodeTree.entries_renumber]
    exact List.mem_map_of_mem hm
  · rw [hρ.rest x hmem, h₁.renumber_outside hρ hd₁ hx hmem]
    exact (get?_outside hs h₁ h₂ htops hx hmem).2

theorem bijOn_of_carries (hs : d.Seated home us) (h₁ : Regrown d d₁ home us vs)
    (h₂ : Regrown d d₂ home us ws) (htops : ws.map NodeTree.handle = vs.map NodeTree.handle)
    (hρ : Carries ρ vs ws) (hd₁ : d₁.Forest) :
    Set.BijOn ρ {h | d₁.contains h = true} {h | d₂.contains h = true} := by
  refine ⟨fun x hx => ?_, fun x hx y hy heq => ?_, fun y hy => ?_⟩
  · obtain ⟨n, hn⟩ := Option.isSome_iff_exists.mp hx
    exact contains_of_get? (get?_carried hs h₁ h₂ htops hρ hd₁ hn)
  · obtain ⟨n, hn⟩ := Option.isSome_iff_exists.mp hx
    obtain ⟨m, hm⟩ := Option.isSome_iff_exists.mp hy
    have hnew : ∀ z, z ∈ handlesOf vs → ρ z ∈ handlesOf ws := fun z hz =>
      hρ.map_handles ▸ List.mem_map_of_mem hz
    by_cases hxv : x ∈ handlesOf vs <;> by_cases hyv : y ∈ handlesOf vs
    · exact List.inj_on_of_nodup_map (hρ.map_handles ▸ h₂.nodup) hxv hyv heq
    · have hyw := (get?_outside hs h₁ h₂ htops hm hyv).1
      rw [hρ.rest y hyv] at heq
      exact absurd (heq ▸ hnew x hxv) hyw
    · have hxw := (get?_outside hs h₁ h₂ htops hn hxv).1
      rw [hρ.rest x hxv] at heq
      exact absurd (heq ▸ hnew y hyv) hxw
    · rwa [hρ.rest x hxv, hρ.rest y hyv] at heq
  · obtain ⟨n, hn⟩ := Option.isSome_iff_exists.mp hy
    by_cases hyw : y ∈ handlesOf ws
    · obtain ⟨x, hx, rfl⟩ := List.mem_map.mp (hρ.map_handles ▸ hyw)
      obtain ⟨m, hm⟩ := (h₁.seated hs).live hx
      exact ⟨x, contains_of_get? hm, rfl⟩
    · obtain ⟨hyv, hy₁⟩ := get?_outside hs h₂ h₁ htops.symm hn hyw
      exact ⟨y, contains_of_get? hy₁, hρ.rest y hyv⟩

/-- Trees of the same shapes below the same tops, in the place of others, make the same document up to
the numbering of its nodes. -/
theorem renumbered (hs : d.Seated home us) (h₁ : Regrown d d₁ home us vs)
    (h₂ : Regrown d d₂ home us ws) (hshapes : vs.map NodeTree.shape = ws.map NodeTree.shape)
    (htops : ws.map NodeTree.handle = vs.map NodeTree.handle) (hd₁ : d₁.Forest)
    (hroot : root ∈ handlesOf vs → root ∈ vs.map NodeTree.handle)
    (hmutations : d₂.mutations = d₁.mutations) : ∃ ρ, Renumbered ρ d₁ d₂ := by
  obtain ⟨ρ, hρ⟩ := exists_carries hs h₁ h₂ hshapes htops
  refine ⟨ρ, ?_, bijOn_of_carries hs h₁ h₂ htops hρ hd₁,
    fun x n hx => get?_carried hs h₁ h₂ htops hρ hd₁ hx, h₂.vacant.trans h₁.vacant.symm, hmutations⟩
  by_cases hmem : root ∈ handlesOf vs
  · exact hρ.tops root (hroot hmem)
  · exact hρ.rest root hmem

end Regrown

end Document

end TreeTemplate
