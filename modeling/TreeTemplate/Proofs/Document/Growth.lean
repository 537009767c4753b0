import TreeTemplate.Proofs.Document.Regrowth

/-!
Adding fresh trees to a document.  `Grown d d' home new` says that `d'` is `d` with the trees `new`
as the last children of `home`, or without a parent.  Copies of nodes and planted markup are added in
this way (`Document.deepClone_grown`).
-/

namespace TreeTemplate

/-- The node without its links. -/
def Node.unlinked (n : Node) : Node :=
  { n with parent? := none, children := [] }

namespace Node

variable {n n' : Node}

theorem content_eq (h : n'.unlinked = n.unlinked) : n'.content = n.content := by
  simpa [unlinked] using congrArg Node.content h

theorem visible_eq (h : n'.unlinked = n.unlinked) : n'.visible = n.visible := by
  simpa [unlinked] using congrArg Node.visible h

theorem isElement_congr (h : n'.content = n.content) : n'.isElement = n.isElement := by
  rw [isElement, h, isElement]

theorem attribute?_of_content (h : n'.content = n.content) (name : String) :
    n'.attribute? name = n.attribute? name := by
  rw [attribute?, attribute?, h]

end Node

namespace NodeTree

/-- Trees of one shape whose nodes differ at most in their handles and links. -/
inductive Alike : NodeTree → NodeTree → Prop
  | node {h h' : Handle} {n n' : Node} {ks ks' : List NodeTree} (record : n'.unlinked = n.unlinked)
      (kids : List.Forall₂ Alike ks ks') : Alike (node h n ks) (node h' n' ks')

theorem map_eq_map_of_forall₂ {α β γ : Type} {R : α → β → Prop} {f : β → γ} {g : α → γ}
    {ts : List α} {us : List β} (h : List.Forall₂ R ts us)
    (hf : ∀ t ∈ ts, ∀ u, R t u → f u = g t) : us.map f = ts.map g := by
  induction h with
  | nil => rfl
  | cons htu _ ih =>
    rw [List.map_cons, List.map_cons, hf _ List.mem_cons_self _ htu,
      ih fun t ht => hf t (List.mem_cons_of_mem _ ht)]

/-- What agrees on related trees agrees along related lists of them. -/
theorem map_eq_of_forall₂ {β : Type} {R : NodeTree → NodeTree → Prop} {f : NodeTree → β}
    {ts us : List NodeTree} (h : List.Forall₂ R ts us) (hf : ∀ t ∈ ts, ∀ u, R t u → f u = f t) :
    us.map f = ts.map f :=
  map_eq_map_of_forall₂ h hf

theorem forall₂_imp_of_mem {α β : Type} {R S : α → β → Prop} {ts : List α} {us : List β}
    (h : List.Forall₂ R ts us) (hRS : ∀ t ∈ ts, ∀ u, R t u → S t u) : List.Forall₂ S ts us := by
  induction h with
  | nil => exact .nil
  | cons htu _ ih =>
    exact .cons (hRS _ List.mem_cons_self _ htu) (ih fun t ht => hRS t (List.mem_cons_of_mem _ ht))

theorem exists_of_forall₂ {α β : Type} {R : α → β → Prop} {ts : List α} {us : List β} {u : β}
    (h : List.Forall₂ R ts us) (hu : u ∈ us) : ∃ t ∈ ts, R t u := by
  induction h with
  | nil => simp at hu
  | cons htu _ ih =>
    rcases List.mem_cons.mp hu with rfl | hu
    · exact ⟨_, List.mem_cons_self, htu⟩
    · obtain ⟨t, ht, htu⟩ := ih hu
      exact ⟨t, List.mem_cons_of_mem _ ht, htu⟩

namespace Alike

variable {t u : NodeTree}

theorem refl (t : NodeTree) : Alike t t := by
  induction t using NodeTree.induct with
  | step h n ks ih => exact .node rfl (List.forall₂_same.mpr ih)

theorem content_eq (h : Alike t u) : u.record.content = t.record.content := by
  obtain ⟨hrecord, -⟩ := h
  exact Node.content_eq hrecord

end Alike

end NodeTree

namespace Document

open NodeTree (handlesOf Alike)

variable {d d' d₁ d₂ : Document} {home : Option Handle} {A B : List NodeTree} {t u : NodeTree}
  {h p x : Handle} {n m : Node} {ks us : List NodeTree}

/-- The document `d'` is `d` with the fresh trees `new` added: as the last children of `home`, or
without a parent if there is no `home`. -/
structure Grown (d d' : Document) (home : Option Handle) (new : List NodeTree) : Prop where
  held : ∀ t ∈ new, d'.Holds t
  parents : ∀ t ∈ new, t.record.parent? = home
  nodup : (handlesOf new).Nodup
  fresh : ∀ x ∈ handlesOf new, d.get? x = none
  frame : ∀ x, x ∉ handlesOf new → home ≠ some x → d'.get? x = d.get? x
  parent : ∀ p ∈ home, ∀ n, d.get? p = some n →
    d'.get? p = some { n with children := n.children ++ new.map NodeTree.handle }
  vacant : d'.vacant = d.vacant

namespace Grown

theorem refl : Grown d d home [] where
  held := by simp
  parents := by simp
  nodup := List.nodup_nil
  fresh := by simp
  frame _ _ _ := rfl
  parent p _ n hn := by simp [hn]
  vacant := rfl

theorem not_mem_new (hg : Grown d d' home A) (hlive : d.get? x = some n) : x ∉ handlesOf A := by
  intro hmem
  simp [hg.fresh x hmem] at hlive

/-- What was held before, away from the parent of the new trees, is held after. -/
theorem held_before (hg : Grown d d' home A) (ht : d.Holds t) (hhome : ∀ p ∈ home, p ∉ t.handles) :
    d'.Holds t := by
  refine ht.congr fun x hx => ?_
  obtain ⟨m, hm⟩ := ht.get?_of_mem hx
  exact hg.frame x (hg.not_mem_new hm) fun hp => hhome x hp hx

theorem trans (hhome : ∀ p ∈ home, ∃ n, d.get? p = some n) (hg : Grown d d₁ home A)
    (hg' : Grown d₁ d₂ home B) : Grown d d₂ home (A ++ B) := by
  have happart : ∀ p ∈ home, p ∉ handlesOf A := by
    intro p hp
    obtain ⟨n, hn⟩ := hhome p hp
    exact hg.not_mem_new hn
  have hdisjoint : ∀ x ∈ handlesOf A, x ∉ handlesOf B := by
    intro x hx
    obtain ⟨t, ht, hxt⟩ := NodeTree.mem_handlesOf.mp hx
    obtain ⟨m, hm⟩ := (hg.held t ht).get?_of_mem hxt
    exact hg'.not_mem_new hm
  refine ⟨?_, ?_, ?_, ?_, ?_, ?_, hg'.vacant.trans hg.vacant⟩
  · intro t ht
    rcases List.mem_append.mp ht with ht | ht
    · exact hg'.held_before (hg.held t ht) fun p hp hx =>
        happart p hp (NodeTree.mem_handlesOf_of_mem ht hx)
    · exact hg'.held t ht
  · intro t ht
    rcases List.mem_append.mp ht with ht | ht
    · exact hg.parents t ht
    · exact hg'.parents t ht
  · rw [NodeTree.handlesOf_append, List.nodup_append']
    exact ⟨hg.nodup, hg'.nodup, fun x hA hB => hdisjoint x hA hB⟩
  · intro x hx
    rw [NodeTree.handlesOf_append, List.mem_append] at hx
    rcases hx with hx | hx
    · exact hg.fresh x hx
    · have hA : x ∉ handlesOf A := fun hA => hdisjoint x hA hx
      have hp : home ≠ some x := by
        intro hp
        obtain ⟨n, hn⟩ := hhome x hp
        have hlive := hg.parent x hp n hn
        simp [hg'.fresh x hx] at hlive
      rw [← hg.frame x hA hp, hg'.fresh x hx]
  · intro x hx hp
    rw [NodeTree.handlesOf_append, List.mem_append, not_or] at hx
    rw [hg'.frame x hx.2 hp, hg.frame x hx.1 hp]
  · intro p hp n hn
    have h₁ := hg.parent p hp n hn
    have h₂ := hg'.parent p hp _ h₁
    simpa using h₂

/-- Growth below a fresh leaf makes the leaf a fresh tree. -/
theorem inner (hg : Grown d d₁ home [.node h n []]) (hg' : Grown d₁ d₂ (some h) ks)
    (hhome : ∀ p ∈ home, ∃ n, d.get? p = some n) :
    Grown d d₂ home [.node h { n with children := ks.map NodeTree.handle } ks] := by
  have htop : d₁.Holds (.node h n []) := hg.held _ (List.mem_singleton_self _)
  have hchildren : n.children = [] := by simpa using htop.children
  have hfresh : d.get? h = none := hg.fresh h (by simp [handlesOf])
  have hh : h ∉ handlesOf ks := hg'.not_mem_new htop.get?_handle
  have hput : d₂.get? h = some { n with children := ks.map NodeTree.handle } := by
    simpa [hchildren] using hg'.parent h rfl n htop.get?_handle
  have hmem : ∀ m us, (x : Handle) → x ∈ handlesOf [.node h m us] ↔ x = h ∨ x ∈ handlesOf us := by
    intro m us x
    simp [handlesOf]
  have hnodup : (handlesOf [.node h { n with children := ks.map NodeTree.handle } ks]).Nodup := by
    simp only [NodeTree.handlesOf_cons, NodeTree.handles_node, NodeTree.handlesOf_nil,
      List.append_nil, List.nodup_cons]
    exact ⟨hh, hg'.nodup⟩
  have hne : ∀ p ∈ home, p ≠ h := by
    rintro p hp rfl
    obtain ⟨n, hn⟩ := hhome p hp
    simp [hfresh] at hn
  refine ⟨?_, ?_, hnodup, ?_, ?_, ?_, hg'.vacant.trans hg.vacant⟩
  · intro u hu
    obtain rfl := List.mem_singleton.mp hu
    exact .node hput rfl hg'.parents hg'.held (by simpa using hnodup)
  · intro u hu
    obtain rfl := List.mem_singleton.mp hu
    exact hg.parents (.node h n []) (List.mem_singleton_self _)
  · intro x hx
    rw [hmem] at hx
    rcases hx with rfl | hx
    · exact hfresh
    · have hxh : x ≠ h := by rintro rfl; exact hh hx
      have hp : home ≠ some x := by
        intro hp
        obtain ⟨n, hn⟩ := hhome x hp
        have hlive := hg.parent x hp n hn
        simp [hg'.fresh x hx] at hlive
      rw [← hg.frame x (by simpa [handlesOf] using hxh) hp, hg'.fresh x hx]
  · intro x hx hp
    rw [hmem, not_or] at hx
    rw [hg'.frame x hx.2 fun hx' => hx.1 (Option.some.inj hx').symm,
      hg.frame x (by simpa [handlesOf] using hx.1) hp]
  · intro p hp m hm
    have h₁ := hg.parent p hp m hm
    rw [hg'.frame p (hg'.not_mem_new h₁) fun hx => hne p hp (Option.some.inj hx).symm, h₁]
    simp

/-- A fresh tree without a parent may be given any record of the same links at its top. -/
theorem mutated (hg : Grown d d' home A) : Grown d d'.mutated home A where
  held t ht := (hg.held t ht).congr fun _ _ => rfl
  parents := hg.parents
  nodup := hg.nodup
  fresh := hg.fresh
  frame x hx hp := hg.frame x hx hp
  parent p hp n hn := hg.parent p hp n hn
  vacant := hg.vacant

end Grown

/-! ### Leaves -/

/-- A node given a slot without a parent is a fresh leaf. -/
theorem alloc_grown (ht : d.Tidy) (hparent : n.parent? = none) (hchildren : n.children = []) :
    Grown d (d.alloc n).2 none [.node (d.alloc n).1 n []] where
  held u hu := by
    obtain rfl := List.mem_singleton.mp hu
    exact .node (by simp [get?_alloc ht]) (by simp [hchildren]) (by simp) (by simp) (by simp)
  parents u hu := by
    obtain rfl := List.mem_singleton.mp hu
    exact hparent
  nodup := by simp [handlesOf]
  fresh x hx := by
    obtain rfl : x = (d.alloc n).1 := by simpa [handlesOf] using hx
    exact get?_fst_alloc ht n
  frame x hx _ := by
    have hx : x ≠ (d.alloc n).1 := by simpa [handlesOf] using hx
    simp [get?_alloc ht, hx]
  parent p hp := by simp at hp
  vacant := by simp

/-- A node given a slot and put last among the children of a live node is a fresh leaf there. -/
theorem alloc_modify_grown (ht : d.Tidy) (hparent : n.parent? = some p) (hchildren : n.children = [])
    (hp : d.get? p = some m) :
    Grown d ((d.alloc n).2.modify p fun q => { q with children := q.children ++ [(d.alloc n).1] })
      (some p) [.node (d.alloc n).1 n []] := by
  have hnone := get?_fst_alloc ht n
  have hne : p ≠ (d.alloc n).1 := by
    intro hpe
    rw [← hpe, hp] at hnone
    simp at hnone
  have hp' : (d.alloc n).2.get? p = some m := by simp [get?_alloc ht, hne, hp]
  have hget : ∀ x, ((d.alloc n).2.modify p
      fun q => { q with children := q.children ++ [(d.alloc n).1] }).get? x =
        if x = p then some { m with children := m.children ++ [(d.alloc n).1] }
        else if x = (d.alloc n).1 then some n else d.get? x := by
    intro x
    rw [get?_modify hp', get?_alloc ht]
  refine ⟨?_, ?_, by simp [handlesOf], ?_, ?_, ?_, ?_⟩
  · intro u hu
    obtain rfl := List.mem_singleton.mp hu
    exact .node (by simp [hget, Ne.symm hne]) (by simp [hchildren]) (by simp) (by simp) (by simp)
  · intro u hu
    obtain rfl := List.mem_singleton.mp hu
    exact hparent
  · intro x hx
    obtain rfl : x = (d.alloc n).1 := by simpa [handlesOf] using hx
    exact hnone
  · intro x hx hxp
    have hx : x ≠ (d.alloc n).1 := by simpa [handlesOf] using hx
    have hxp : x ≠ p := fun hx => hxp (by rw [hx])
    simp [hget, hx, hxp]
  · intro q hq n' hn'
    obtain rfl := Option.some.inj hq
    rw [hp] at hn'
    obtain rfl := Option.some.inj hn'
    simp [hget]
  · rw [vacant_modify hp', vacant_alloc]

theorem Tidy.alloc_modify (ht : d.Tidy) (hp : d.get? p = some m) (f : Node → Node) :
    ((d.alloc n).2.modify p f).Tidy := by
  have hne : p ≠ (d.alloc n).1 := by
    intro hpe
    have hnone := get?_fst_alloc ht n
    rw [← hpe, hp] at hnone
    simp at hnone
  exact (ht.alloc n).modify (by rw [get?_alloc ht, if_neg hne, hp]) f

/-! ### Copies -/

/-- The copy of a node alone, put last among the children of `home`. -/
def copyTop (d : Document) (home : Option Handle) (n : Node) : Handle × Document :=
  ((d.alloc { n with parent? := home, children := [] }).1,
    match home with
    | some p => (d.alloc { n with parent? := home, children := [] }).2.modify p fun q =>
        { q with children :=
            q.children ++ [(d.alloc { n with parent? := home, children := [] }).1] }
    | none => (d.alloc { n with parent? := home, children := [] }).2)

theorem copyWithin_eq (depth : Nat) (home : Option Handle) (h : Handle) (d : Document) :
    copyWithin depth home h d =
      ((d.copyTop home (d.node h)).1,
        match depth with
        | 0 => (d.copyTop home (d.node h)).2
        | depth + 1 => (d.node h).children.foldl
            (fun d' c => (copyWithin depth (some (d.copyTop home (d.node h)).1) c d').2)
            (d.copyTop home (d.node h)).2) := by
  rw [copyWithin.eq_def]
  cases home <;> cases depth <;> rfl

theorem copyTop_grown (htidy : d.Tidy) (hhome : ∀ p ∈ home, ∃ m, d.get? p = some m) (n : Node) :
    (d.copyTop home n).2.Tidy ∧
      Grown d (d.copyTop home n).2 home
        [.node (d.copyTop home n).1 { n with parent? := home, children := [] } []] := by
  cases home with
  | none => exact ⟨htidy.alloc _, alloc_grown htidy rfl rfl⟩
  | some p =>
    obtain ⟨m, hm⟩ := hhome p rfl
    simp only [copyTop]
    exact ⟨htidy.alloc_modify hm _, alloc_modify_grown htidy rfl rfl hm⟩

/-- Copying trees one after another below a node that is in none of them. -/
theorem foldl_copyWithin_grown {depth : Nat} {id : Handle}
    (hcopy : ∀ k ∈ ks, ∀ d : Document, d.Tidy → d.Holds k → id ∉ k.handles →
      (∃ m, d.get? id = some m) →
        (copyWithin depth (some id) k.handle d).2.Tidy ∧
          ∃ u, Alike k u ∧ Grown d (copyWithin depth (some id) k.handle d).2 (some id) [u])
    (htidy : d.Tidy) (hheld : ∀ k ∈ ks, d.Holds k ∧ id ∉ k.handles)
    (hlive : ∃ m, d.get? id = some m) :
    ((ks.map NodeTree.handle).foldl (fun d c => (copyWithin depth (some id) c d).2) d).Tidy ∧
      ∃ us, List.Forall₂ Alike ks us ∧
        Grown d ((ks.map NodeTree.handle).foldl (fun d c => (copyWithin depth (some id) c d).2) d)
          (some id) us := by
  induction ks generalizing d with
  | nil => exact ⟨htidy, [], .nil, .refl⟩
  | cons k rest ih =>
    obtain ⟨hk, hidk⟩ := hheld k List.mem_cons_self
    obtain ⟨htidy₁, u, halike, hg⟩ := hcopy k List.mem_cons_self d htidy hk hidk hlive
    have hlive₁ : ∃ m, (copyWithin depth (some id) k.handle d).2.get? id = some m := by
      obtain ⟨m, hm⟩ := hlive
      exact ⟨_, hg.parent id rfl m hm⟩
    have hheld₁ : ∀ k' ∈ rest,
        (copyWithin depth (some id) k.handle d).2.Holds k' ∧ id ∉ k'.handles := by
      intro k' hk'
      obtain ⟨hheld', hid'⟩ := hheld k' (List.mem_cons_of_mem _ hk')
      refine ⟨hg.held_before hheld' fun p hp => ?_, hid'⟩
      obtain rfl := Option.some.inj hp
      exact hid'
    obtain ⟨htidy₂, us, halikes, hg'⟩ :=
      ih (fun k' hk' => hcopy k' (List.mem_cons_of_mem _ hk')) htidy₁ hheld₁ hlive₁
    refine ⟨htidy₂, u :: us, .cons halike halikes, hg.trans (fun p hp => ?_) hg'⟩
    obtain rfl := Option.some.inj hp
    exact hlive

/-- Copying a held tree adds a tree alike. -/
theorem copyWithin_grown {depth : Nat} (htidy : d.Tidy) (ht : d.Holds t) (hdepth : t.size ≤ depth + 1)
    (hhome : ∀ p ∈ home, (∃ n, d.get? p = some n) ∧ p ∉ t.handles) :
    (copyWithin depth home t.handle d).2.Tidy ∧
      ∃ u, u.handle = (copyWithin depth home t.handle d).1 ∧ Alike t u ∧
        Grown d (copyWithin depth home t.handle d).2 home [u] := by
  induction t using NodeTree.induct generalizing depth home d with
  | step h n ks ih =>
    have hnode : d.node h = n := node_of_get? ht.get?_handle
    have hlive : ∀ p ∈ home, ∃ n, d.get? p = some n := fun p hp => (hhome p hp).1
    obtain ⟨htidy₁, hg₁⟩ := copyTop_grown htidy hlive n
    rw [NodeTree.handle_node, copyWithin_eq, hnode]
    generalize d.copyTop home n = top at htidy₁ hg₁
    obtain ⟨id, d₁⟩ := top
    have hid₁ := (hg₁.held _ (List.mem_singleton_self _)).get?_handle
    have hfresh : d.get? id = none := hg₁.fresh id (by simp [handlesOf])
    cases depth with
    | zero =>
      have hks : ks = [] := by
        cases ks with
        | nil => rfl
        | cons k rest =>
          have hlt := NodeTree.size_lt_of_mem (h := h) (n := n)
            (List.mem_cons_self (a := k) (l := rest))
          have hpos := k.size_pos
          omega
      subst hks
      refine ⟨htidy₁, _, rfl, ?_, hg₁⟩
      exact .node rfl .nil
    | succ depth =>
      have hheld : ∀ k ∈ ks, d₁.Holds k ∧ id ∉ k.handles := by
        intro k hk
        refine ⟨hg₁.held_before (ht.kid hk) fun p hp hx => (hhome p hp).2 ?_, fun hx => ?_⟩
        · exact NodeTree.mem_handles_of_kid hk hx
        · obtain ⟨m, hm⟩ := (ht.kid hk).get?_of_mem hx
          simp [hfresh] at hm
      have hcopy : ∀ k ∈ ks, ∀ d' : Document, d'.Tidy → d'.Holds k → id ∉ k.handles →
          (∃ m, d'.get? id = some m) →
            (copyWithin depth (some id) k.handle d').2.Tidy ∧
              ∃ u, Alike k u ∧ Grown d' (copyWithin depth (some id) k.handle d').2 (some id) [u] := by
        intro k hk d' htidy' hk' hidk hid'
        have hlt := NodeTree.size_lt_of_mem (h := h) (n := n) hk
        have hdepth' : k.size ≤ depth + 1 := by omega
        obtain ⟨htidy₂, u, -, halike, hg⟩ := ih k hk htidy' hk' hdepth' fun p hp => by
          obtain rfl := Option.some.inj hp
          exact ⟨hid', hidk⟩
        exact ⟨htidy₂, u, halike, hg⟩
      obtain ⟨htidy₂, us, halikes, hg₂⟩ :=
        foldl_copyWithin_grown hcopy htidy₁ hheld ⟨_, hid₁⟩
      rw [ht.children]
      refine ⟨htidy₂, _, rfl, ?_, hg₁.inner hg₂ hlive⟩
      exact .node rfl halikes

/-- A deep copy adds a tree without a parent, alike to the one copied. -/
theorem deepClone_grown (htidy : d.Tidy) (ht : d.Holds t) :
    (d.deepClone t.handle).2.Tidy ∧
      ∃ u, u.handle = (d.deepClone t.handle).1 ∧ Alike t u ∧
        Grown d (d.deepClone t.handle).2 none [u] :=
  copyWithin_grown htidy ht (by have := ht.size_lt_reach; omega) (by simp)

end Document

end TreeTemplate
