import TreeTemplate.Proofs.Document.Forest
import TreeTemplate.Proofs.Render.Sketch

/-!
Placing twice.  A sketch that was placed in a context is placed there again without any change
(`Sketch.place_of_mem`): its edits are in force already, its content is what would be written, and
each instance keeps its position.
-/

namespace TreeTemplate

/-! ### Doing edits again -/

/-- The attribute that a value makes under a name; none if it makes none. -/
def Value.attribute? (name : String) (v : Value) : Option String :=
  match v with
  | .bool true => some name
  | .bool false => none
  | v => some v.display

namespace Content

/-- The content with attributes set or dropped in turn. -/
def assigned (c : Content) (ps : List (String × Option String)) : Content :=
  match c with
  | .element tag attributes => .element tag (ps.foldl Dict.assign attributes)
  | c => c

theorem put_eq_assigned (c : Content) (name value : String) :
    c.put name value = c.assigned [(name, some value)] := by
  cases c <;> rfl

theorem putValue_eq_assigned (c : Content) (name : String) (v : Value) :
    c.putValue name v = c.assigned [(name, v.attribute? name)] := by
  cases v with
  | bool value => cases value <;> cases c <;> rfl
  | null | number _ | string _ | array _ | object _ => cases c <;> rfl

theorem assigned_append (c : Content) (ps qs : List (String × Option String)) :
    c.assigned (ps ++ qs) = (c.assigned ps).assigned qs := by
  cases c <;> simp [assigned]

theorem assigned_nil (c : Content) : c.assigned [] = c := by
  cases c <;> rfl

end Content

namespace Edit

/-- The attribute that a change sets or drops. -/
def assignment? : Edit → Option (String × Option String)
  | identity name id => some (name, some id)
  | value name v => some (name, v.attribute? name)
  | _ => none

/-- Whether a change shows or hides. -/
def visibility? : Edit → Option Bool
  | visible v => some v
  | _ => none

end Edit

namespace Face

/-- Changes set and drop attributes, and the last one about it shows or hides. -/
theorem edited_eq (f : Face) (edits : List Edit) :
    f.edited edits = { f with
      content := f.content.assigned (edits.filterMap Edit.assignment?)
      visible := (edits.filterMap Edit.visibility?).getLast?.getD f.visible } := by
  induction edits generalizing f with
  | nil => simp [edited, Content.assigned_nil]
  | cons e rest ih =>
    rw [edited, List.foldl_cons, ← edited, ih]
    cases e with
    | identity name id =>
      simp [Edit.face, Edit.assignment?, Edit.visibility?, Content.put_eq_assigned,
        ← Content.assigned_append]
    | value name v =>
      simp [Edit.face, Edit.assignment?, Edit.visibility?, Content.putValue_eq_assigned,
        ← Content.assigned_append]
    | property path v => simp [Edit.face, Edit.assignment?, Edit.visibility?, List.filterMap_cons]
    | data name v => simp [Edit.face, Edit.assignment?, Edit.visibility?, List.filterMap_cons]
    | visible v =>
      simp [Edit.face, Edit.assignment?, Edit.visibility?, List.filterMap_cons, List.getLast?_cons]

end Face

namespace Survey

variable {set : BindingSet} {c : Context} {bind : Context → String → Value → Context}

/-- The attributes that `values` changes are among its labels. -/
theorem values_sublist (bind : Context → String → Value → Context) (es : Labelled) (c : Context) :
    ((((c.readings bind es).1.flatMap valueEdits).filterMap Edit.assignment?).map Prod.fst).Sublist
      (es.map Prod.fst) := by
  induction es generalizing c with
  | nil => exact .slnil
  | cons entry rest ih =>
    obtain ⟨label, e⟩ := entry
    rw [Context.readings, List.flatMap_cons, List.filterMap_append, List.map_append, List.map_cons]
    have hrest := ih (bind (c.execute e).2 label (c.execute e).1)
    have hfirst : (((valueEdits (label, (c.execute e).1)).filterMap Edit.assignment?).map
        Prod.fst).Sublist [label] := by
      unfold valueEdits
      dsimp only
      split <;> simp [Edit.assignment?]
    exact hfirst.append hrest

/-- An identity is set first, and then attributes of different names are set and dropped. -/
theorem assignments (idAttribute : String) (set : BindingSet) (callbacks : List Callback)
    (c : Context) (hlabels : ((set.values?.getD []).map Prod.fst).Nodup) :
    ∃ (first? : Option (String × String)) (ps : List (String × Option String)),
      (survey idAttribute set callbacks c).edits.filterMap Edit.assignment? =
        (first?.map fun e => (e.1, some e.2)).toList ++ ps ∧ (ps.map Prod.fst).Nodup := by
  obtain ⟨first?, hfirst⟩ : ∃ first? : Option (String × String),
      (identity idAttribute set c).1.filterMap Edit.assignment? =
        (first?.map fun e => (e.1, some e.2)).toList := by
    unfold identity
    split
    · exact ⟨some (_, _), rfl⟩
    · dsimp only
      split
      · exact ⟨some (_, _), rfl⟩
      · exact ⟨none, rfl⟩
    · exact ⟨none, rfl⟩
  have hgate : (gate set (identity idAttribute set c).2).2.1.filterMap Edit.assignment? = [] := by
    unfold gate
    split <;> rfl
  have hreveal : ∀ c, (reveal set c).1.filterMap Edit.assignment? = [] := by
    intro c
    unfold reveal
    dsimp only
    split <;> split <;> rfl
  have hassign : ∀ c, (((assign set callbacks c).1.filterMap Edit.assignment?).map Prod.fst).Sublist
      ((set.values?.getD []).map Prod.fst) := by
    intro c
    have hdata : ∀ ps : List (String × Value),
        (ps.map fun p => Edit.data p.1 p.2).filterMap Edit.assignment? = [] := by
      intro ps
      rw [List.filterMap_map]
      exact List.filterMap_eq_nil_iff.mpr fun _ _ => rfl
    rw [assign, List.filterMap_append, hdata, List.append_nil]
    exact values_sublist _ _ _
  unfold survey
  dsimp only
  split
  · refine ⟨first?, _, ?_, hlabels.sublist (hassign (gate set (identity idAttribute set c).2).2.2)⟩
    rw [List.filterMap_append, List.filterMap_append, List.filterMap_append, hfirst, hgate, hreveal,
      List.append_nil, List.append_nil]
  · exact ⟨first?, [], by rw [List.filterMap_append, hfirst, hgate], List.nodup_nil⟩

end Survey

/-- Edits that are in force are done again without any change, also when the node was shown or hidden
as before them. -/
theorem Face.edited_again {f g : Face} {edits : List Edit} {first? : Option (String × String)}
    {ps : List (String × Option String)} (hf : f.content.Orderly)
    (hedits : edits.filterMap Edit.assignment? = (first?.map fun e => (e.1, some e.2)).toList ++ ps)
    (hps : (ps.map Prod.fst).Nodup) (hcontent : g.content = (f.edited edits).content)
    (hmarker : g.marker? = f.marker?) (hcallbacks : g.callbacks = f.callbacks)
    (hvisible : g.visible = f.visible ∨ g.visible = (f.edited edits).visible) :
    g.edited edits = f.edited edits := by
  have htwice : ((f.content.assigned (edits.filterMap Edit.assignment?)).assigned
      (edits.filterMap Edit.assignment?)) =
      f.content.assigned (edits.filterMap Edit.assignment?) := by
    rw [hedits]
    cases hc : f.content with
    | element tag attributes =>
      rw [hc] at hf
      simp only [Content.assigned, Dict.foldl_assign_twice hf hps]
    | root | text _ | comment _ => rfl
  have hshown : (edits.filterMap Edit.visibility?).getLast?.getD g.visible =
      (edits.filterMap Edit.visibility?).getLast?.getD f.visible := by
    rcases hvisible with hv | hv
    · rw [hv]
    · rw [hv, edited_eq]
      cases (edits.filterMap Edit.visibility?).getLast? <;> rfl
  rw [edited_eq g, hcontent, edited_eq f, hmarker, hcallbacks, hshown, htwice]

namespace Document

/-- Content that was made from a value stays when the value is made the content again. -/
theorem contentAfter_again (inner : List Char) (v : Value) (clear : Bool) :
    contentAfter (contentAfter inner v clear) v clear = contentAfter inner v clear := by
  unfold contentAfter
  by_cases h : String.ofList inner = v.display ∨ clear = false
  · simp only [if_pos h]
  · simp only [if_neg h, ite_self]

end Document

/-! ### Placing again -/

theorem Item.mem_enumerate {count first : Nat} {vs : List Value} {i : Item}
    (hi : i ∈ enumerate count first vs) :
    ∃ j, vs[j]? = some i.value ∧ i.index = first + j ∧ i.count = count := by
  induction vs generalizing first with
  | nil => simp [enumerate] at hi
  | cons v vs ih =>
    rcases List.mem_cons.mp hi with rfl | hi
    · exact ⟨0, rfl, rfl, rfl⟩
    · obtain ⟨j, hj, hindex, hcount⟩ := ih hi
      exact ⟨j + 1, hj, by omega, hcount⟩

namespace Face

variable {f g : Face} {v : Value} {items : List Value} {i? : Option Item}

/-- What stands for an item stays at its position. -/
theorem select_instance {i : Item} (hcount : i.count = items.length)
    (hi : items[i.index]? = some i.value) (hmarker : f.marker? = some (.ofIndex i.index i.count)) :
    f.select (.array items) = [(f.instanceAt i, some i)] := by
  have hlt : i.index < items.length := (List.getElem?_eq_some_iff.mp hi).choose
  have hkeep : ListChange.of f.marker? items.length = .keep i.index := by
    rw [hmarker, hcount, ListChange.of_ofIndex, if_neg (by omega), if_neg (by omega), if_pos hlt]
  have hitem : (items.drop i.index).take 1 = [i.value] := by
    rw [List.drop_eq_getElem_cons hlt, List.take_succ_cons, List.take_zero,
      (List.getElem?_eq_some_iff.mp hi).choose_spec]
  simp only [select, hkeep, ListChange.extent, hitem, Item.enumerate, List.map_cons, List.map_nil]
  rw [← hcount]

/-- What stands for a node that selected a value stands for itself when it selects the value again. -/
theorem select_of_mem (hg : (g, i?) ∈ f.select v) {g' : Face} (hmarker : g'.marker? = g.marker?) :
    g'.select v = [({ g' with visible := g.visible }, i?)] := by
  cases v with
  | null =>
    obtain ⟨rfl, rfl⟩ := Prod.mk.inj (List.mem_singleton.mp hg)
    rfl
  | bool _ | number _ | string _ | object _ =>
    obtain ⟨rfl, rfl⟩ := Prod.mk.inj (List.mem_singleton.mp hg)
    rfl
  | array items =>
    have hinstance : ∀ i : Item, i.count = items.length → items[i.index]? = some i.value →
        g = f.instanceAt i → i? = some i →
        g'.select (.array items) = [({ g' with visible := g.visible }, i?)] := by
      rintro i hcount hi rfl rfl
      rw [select_instance hcount hi hmarker, instanceAt]
      simp only [instanceAt] at hmarker ⊢
      rw [← hmarker]
    unfold select at hg
    dsimp only at hg
    split at hg
    · next hchange =>
      obtain ⟨rfl, rfl⟩ := Prod.mk.inj (List.mem_singleton.mp hg)
      have hconceal : ListChange.of g'.marker? items.length = .conceal := by
        rw [hmarker, ListChange.eq_zero_of_conceal hchange]
        rfl
      rw [select, hconceal]
      simp only at hmarker ⊢
      rw [← hmarker]
    · simp at hg
    · obtain ⟨i, hi, heq⟩ := List.mem_map.mp hg
      obtain ⟨rfl, rfl⟩ := Prod.mk.inj heq
      obtain ⟨j, hj, hindex, hcount⟩ := Item.mem_enumerate hi
      refine hinstance i hcount ?_ rfl rfl
      rw [List.getElem?_take] at hj
      split at hj
      · rw [List.getElem?_drop] at hj
        rw [hindex, hj]
      · simp at hj

end Face

namespace Sketch

variable {idAttribute : String} {set : BindingSet} {f f' g : Face} {ks ks' : List Sketch}
  {c : Context} {k : Sketch}

/-- Selecting assigns nothing, the labels of `values` differ, and so do the names of the attributes of
every node. -/
inductive Orderly : Sketch → Prop
  | still (cs : List Char) : Orderly (still cs)
  | node {set : BindingSet} {f : Face} {ks : List Sketch}
      (select : ∀ e ∈ set.select?, e.assignFree = true)
      (labels : ((set.values?.getD []).map Prod.fst).Nodup) (attributes : f.content.Orderly)
      (kids : ∀ k ∈ ks, Orderly k) : Orderly (node set f ks)

/-- What a filled node looks like. -/
theorem filled_node (idAttribute : String) (set : BindingSet) (f : Face) (ks : List Sketch)
    (c : Context) :
    ∃ ks', ((node set f ks).filled idAttribute c).1 =
      node set (f.edited (survey idAttribute set f.callbacks c).edits) ks' := by
  unfold filled fill
  dsimp only
  split <;> exact ⟨_, rfl⟩

/-- Filling a filled node in the same context changes nothing. -/
theorem filled_again (hf : f.content.Orderly)
    (hlabels : ((set.values?.getD []).map Prod.fst).Nodup)
    (hkids : ∀ c, placeAll idAttribute (placeAll idAttribute ks c).1 c = placeAll idAttribute ks c)
    (hfilled : ((node set f ks).filled idAttribute c).1 = node set f' ks')
    (hcontent : g.content = f'.content) (hmarker : g.marker? = f.marker?)
    (hcallbacks : g.callbacks = f.callbacks)
    (hvisible : g.visible = f.visible ∨ g.visible = f'.visible) :
    (node set g ks').filled idAttribute c = (node set f ks).filled idAttribute c := by
  obtain ⟨first?, ps, hedits, hps⟩ :=
    Survey.assignments idAttribute set f.callbacks c hlabels
  obtain ⟨us, hus⟩ := filled_node idAttribute set f ks c
  obtain ⟨-, rfl, -⟩ := Sketch.node.inj (hfilled.symm.trans hus)
  have hagain := Face.edited_again hf hedits hps hcontent hmarker hcallbacks hvisible
  simp only [filled, fill] at hfilled ⊢
  rw [hcallbacks, hagain]
  cases hverdict : (survey idAttribute set f.callbacks c).verdict with
  | leave =>
    rw [hverdict] at hfilled
    obtain ⟨-, -, rfl⟩ := Sketch.node.inj hfilled
    rfl
  | write x clear =>
    rw [hverdict] at hfilled
    obtain ⟨-, -, rfl⟩ := Sketch.node.inj hfilled
    simp [chars, Document.contentAfter_again]
  | descend =>
    rw [hverdict] at hfilled
    obtain ⟨-, -, rfl⟩ := Sketch.node.inj hfilled
    simp only [hkids]

/-- What each of several sketches does not change, they do not change together. -/
theorem placeAll_of_fixed (h : ∀ k ∈ ks, place idAttribute k c = ([k], c)) :
    placeAll idAttribute ks c = (ks, c) := by
  induction ks with
  | nil => rfl
  | cons k ks ih =>
    rw [placeAll, h k List.mem_cons_self, ih fun k hk => h k (List.mem_cons_of_mem _ hk)]
    rfl

theorem placeAll_singleton (idAttribute : String) (k : Sketch) (c : Context) :
    placeAll idAttribute [k] c = place idAttribute k c := by
  simp [placeAll]

/-- Several sketches are settled together if each of them is. -/
theorem placeAll_again
    (h : ∀ k ∈ ks, ∀ c, placeAll idAttribute (place idAttribute k c).1 c = place idAttribute k c)
    (c : Context) :
    placeAll idAttribute (placeAll idAttribute ks c).1 c = placeAll idAttribute ks c := by
  induction ks generalizing c with
  | nil => rfl
  | cons k ks ih =>
    rw [placeAll, placeAll_append, h k List.mem_cons_self,
      ih fun k hk => h k (List.mem_cons_of_mem _ hk)]

/-- What does not select a value is still there when it was placed, and does not select one either. -/
theorem exists_place_of_not_selects (idAttribute : String) (hk : k.selects = false) (c : Context) :
    ∃ u, (place idAttribute k c).1 = [u] ∧ u.selects = false := by
  cases k with
  | still cs => exact ⟨_, rfl, rfl⟩
  | node set f ks =>
    have hselect : set.select? = none := by simpa [selects] using hk
    obtain ⟨ks', hfilled⟩ := filled_node idAttribute set f ks c
    rw [place_of_none _ hselect, hfilled]
    exact ⟨_, rfl, hk⟩

/-- What stands for an orderly sketch after it was placed stands for itself when it is placed again,
alone or with what stands beside it. -/
theorem place_again (h : Orderly k) (c : Context) :
    (∀ u ∈ (place idAttribute k c).1,
      place idAttribute u c = ([u], (place idAttribute k c).2)) ∧
    placeAll idAttribute (place idAttribute k c).1 c = place idAttribute k c := by
  induction h generalizing c with
  | still cs =>
    refine ⟨fun u hu => ?_, rfl⟩
    obtain rfl := List.mem_singleton.mp hu
    rfl
  | @node set f ks select labels attributes kids ih =>
    have hkids : ∀ c, placeAll idAttribute (placeAll idAttribute ks c).1 c =
        placeAll idAttribute ks c := placeAll_again fun k hk c => (ih k hk c).2
    cases hselect : set.select? with
    | none =>
      obtain ⟨ks', hfilled⟩ := filled_node idAttribute set f ks c
      have hmarker : (f.edited (survey idAttribute set f.callbacks c).edits).marker? = f.marker? := by
        rw [Face.edited_eq]
      have hcallbacks :
          (f.edited (survey idAttribute set f.callbacks c).edits).callbacks = f.callbacks := by
        rw [Face.edited_eq]
      have hagain := filled_again attributes labels hkids hfilled rfl hmarker hcallbacks (Or.inr rfl)
      have hplace : place idAttribute ((node set f ks).filled idAttribute c).1 c =
          place idAttribute (node set f ks) c := by
        rw [hfilled, place_of_none _ hselect, place_of_none _ hselect, hagain]
      rw [place_of_none _ hselect] at hplace ⊢
      refine ⟨fun u hu => ?_, (placeAll_singleton _ _ _).trans hplace⟩
      obtain rfl := List.mem_singleton.mp hu
      exact hplace
    | some e =>
      have hcontext : (c.execute e).2 = c := Context.execute_context (select e hselect)
      rw [place_of_some _ hselect, hcontext]
      have hfixed : ∀ u ∈ (f.select (c.execute e).1).map
          (stand idAttribute (placeAll idAttribute ks) set ks c),
          place idAttribute u c = ([u], c) := by
        intro u hu
        obtain ⟨⟨g, i?⟩, hg, rfl⟩ := List.mem_map.mp hu
        cases i? with
        | none =>
          have hagain := Face.select_of_mem hg (rfl : g.marker? = g.marker?)
          rw [stand, place_of_some _ hselect, hcontext, hagain]
          rfl
        | some i =>
          obtain ⟨ks', hfilled⟩ := filled_node idAttribute set g ks (c.within i)
          have hg' := Face.edited_eq g (survey idAttribute set g.callbacks (c.within i)).edits
          generalize g.edited (survey idAttribute set g.callbacks (c.within i)).edits = g'
            at hfilled hg'
          have hmarker : g'.marker? = g.marker? := by rw [hg']
          have hcallbacks : g'.callbacks = g.callbacks := by rw [hg']
          have hattributes : g.content.Orderly := by
            rw [Face.content_of_mem_select hg]
            exact attributes
          have hagain := filled_again (g := { g' with visible := g.visible }) hattributes labels hkids
            hfilled rfl hmarker hcallbacks (Or.inl rfl)
          have hstand : stand idAttribute (placeAll idAttribute ks) set ks c (g, some i) =
              node set g' ks' := hfilled
          rw [hstand, place_of_some _ hselect, hcontext, Face.select_of_mem hg hmarker,
            List.map_singleton, ← hfilled, ← hagain]
          rfl
      exact ⟨hfixed, placeAll_of_fixed hfixed⟩

end Sketch

/-- The sketch of a tree is orderly if its nodes are. -/
theorem NodeTree.Known.orderly {b : BindingCache} {t : NodeTree} (hk : Known b t)
    (h : ∀ e ∈ t.entries, e.2.content.Orderly ∧ ∀ set, b.setOf? e.2 = some set →
      (∀ ev ∈ set.select?, ev.assignFree = true) ∧ ((set.values?.getD []).map Prod.fst).Nodup) :
    (t.sketch b).Orderly := by
  induction hk with
  | @node x n ks set top kids ih =>
    obtain ⟨hattributes, hset⟩ := h (x, n) (top_mem_entries _)
    obtain ⟨hselect, hlabels⟩ := hset set top
    rw [sketch_node top]
    refine .node hselect hlabels hattributes fun k hk => ?_
    unfold inside at hk
    split at hk
    · obtain rfl := List.mem_singleton.mp hk
      exact .still _
    · obtain ⟨u, hu, rfl⟩ := List.mem_map.mp hk
      unfold piece
      split
      · next helement =>
        exact ih u hu helement fun e he => h e (mem_entries_of_kid hu he)
      · exact .still _

end TreeTemplate
