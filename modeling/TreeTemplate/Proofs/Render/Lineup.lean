import TreeTemplate.Proofs.Render.Placing

/-!
Rows of instances.  The instances of a list decide one by one, each by its own position, what becomes
of them when the list has another length.  For a row that is in order (`Lined`) the decisions fit
together: what stands there afterwards is a row in order again, with one instance for each item.
-/

namespace TreeTemplate

/-- The positions from `first` on of `length` instances of a list of `count` items. -/
def Marker.row (first length count : Nat) : List (Option Marker) :=
  (List.range' first length).map fun i => some (.ofIndex i count)

theorem Marker.row_succ (first length count : Nat) :
    row first (length + 1) count = some (.ofIndex first count) :: row (first + 1) length count := by
  rw [row, List.range'_succ, List.map_cons]
  rfl

/-- A row of instances in order: a node that is no instance yet, or every position of a list. -/
def Lined (ms : List (Option Marker)) : Prop :=
  ms = [none] ∨ ms ≠ [] ∧ ms = Marker.row 0 ms.length ms.length

theorem lined_row {length : Nat} (h : 0 < length) : Lined (Marker.row 0 length length) := by
  refine Or.inr ⟨?_, by simp [Marker.row]⟩
  intro hnil
  have hlength := congrArg List.length hnil
  simp [Marker.row] at hlength
  omega

namespace Item

theorem length_enumerate (count index : Nat) (vs : List Value) :
    (enumerate count index vs).length = vs.length := by
  induction vs generalizing index with
  | nil => rfl
  | cons v vs ih => rw [enumerate, List.length_cons, List.length_cons, ih]

theorem getElem?_enumerate (count index : Nat) (vs : List Value) (j : Nat) :
    (enumerate count index vs)[j]? = vs[j]?.map fun v => ⟨v, index + j, count⟩ := by
  induction vs generalizing index j with
  | nil => rfl
  | cons v vs ih =>
    cases j with
    | zero => rfl
    | succ j =>
      rw [enumerate, List.getElem?_cons_succ, List.getElem?_cons_succ, ih]
      congr 2
      funext v
      congr 1
      omega

theorem map_marker_enumerate (count index : Nat) (vs : List Value) :
    (enumerate count index vs).map (fun i => some (Marker.ofIndex i.index i.count)) =
      Marker.row index vs.length count := by
  induction vs generalizing index with
  | nil => rfl
  | cons v vs ih => rw [enumerate, List.map_cons, ih, List.length_cons, Marker.row_succ]

end Item

namespace Face

variable {f : Face} {fs : List Face} {items : List Value} {p : Face × Option Item} {i : Item}
  {change : ListChange}

/-- Unless the list is empty a node stands for the items in its extent. -/
theorem map_snd_select (hchange : ListChange.of f.marker? items.length = change)
    (hconceal : change ≠ .conceal) :
    (f.select (.array items)).map Prod.snd =
      (Item.enumerate items.length (change.extent items.length).1
        ((items.drop (change.extent items.length).1).take (change.extent items.length).2)).map
          some := by
  cases change with
  | conceal => exact absurd rfl hconceal
  | discard => simp [select, hchange, ListChange.extent, Item.enumerate]
  | spread | grow _ | keep _ => simp only [select, hchange, List.map_map, Function.comp_def]

/-- What stands for an item of a list is the instance for it. -/
theorem eq_instanceAt (hp : p ∈ f.select (.array items)) (hi : p.2 = some i) :
    p.1 = f.instanceAt i := by
  unfold select at hp
  dsimp only at hp
  split at hp
  · obtain rfl := List.mem_singleton.mp hp
    simp at hi
  · simp at hp
  · obtain ⟨k, -, rfl⟩ := List.mem_map.mp hp
    obtain rfl := Option.some.inj hi
    rfl

/-- Instances from position `j` on stand for the items from there on. -/
theorem flatMap_select_row {j : Nat} (hfs : fs ≠ []) (hitems : items ≠ [])
    (hrow : fs.map Face.marker? = Marker.row j fs.length (j + fs.length)) :
    (fs.flatMap fun f => f.select (.array items)).map Prod.snd =
      (Item.enumerate items.length j (items.drop j)).map some := by
  have hpos : items.length ≠ 0 := by simpa using hitems
  induction fs generalizing j with
  | nil => exact absurd rfl hfs
  | cons f rest ih =>
    rw [List.map_cons, List.length_cons, Marker.row_succ, List.cons.injEq] at hrow
    obtain ⟨hmarker, hrow⟩ := hrow
    have hchange := ListChange.of_ofIndex j (j + (rest.length + 1)) items.length
    rw [← hmarker, if_neg hpos] at hchange
    rw [List.flatMap_cons, List.map_append]
    cases rest with
    | nil =>
      rw [List.flatMap_nil, List.map_nil, List.append_nil]
      by_cases hgrow : j + 1 < items.length
      · rw [if_pos ⟨by simp, hgrow⟩] at hchange
        rw [map_snd_select hchange (by simp)]
        simp only [ListChange.extent]
        rw [List.take_of_length_le (by rw [List.length_drop]; omega)]
      · rw [if_neg fun h => hgrow h.2] at hchange
        by_cases hkeep : j < items.length
        · rw [if_pos hkeep] at hchange
          rw [map_snd_select hchange (by simp)]
          simp only [ListChange.extent]
          rw [List.take_of_length_le (by rw [List.length_drop]; omega)]
        · rw [if_neg hkeep] at hchange
          rw [map_snd_select hchange (by simp), List.drop_eq_nil_of_le (by omega : items.length ≤ j)]
          simp [ListChange.extent, Item.enumerate]
    | cons f' rest =>
      rw [if_neg (by simp)] at hchange
      have hrest := ih (j := j + 1) (by simp) (by
        rw [hrow, List.length_cons]
        congr 1
        omega)
      rw [hrest]
      by_cases hkeep : j < items.length
      · rw [if_pos hkeep] at hchange
        rw [map_snd_select hchange (by simp)]
        simp only [ListChange.extent]
        rw [List.drop_eq_getElem_cons hkeep, List.take_succ_cons, List.take_zero]
        rfl
      · rw [if_neg hkeep] at hchange
        rw [map_snd_select hchange (by simp), List.drop_eq_nil_of_le (by omega : items.length ≤ j),
          List.drop_eq_nil_of_le (by omega : items.length ≤ j + 1)]
        simp [ListChange.extent, Item.enumerate]

/-- A row in order stands for all items of a list. -/
theorem flatMap_select_lined (hitems : items ≠ []) (h : Lined (fs.map Face.marker?)) :
    (fs.flatMap fun f => f.select (.array items)).map Prod.snd =
      (Item.enumerate items.length 0 items).map some := by
  rcases h with h | ⟨hne, h⟩
  · obtain ⟨f, rfl, hmarker⟩ := List.map_eq_singleton_iff.mp h
    have hpos : items.length ≠ 0 := by simpa using hitems
    have hchange : ListChange.of f.marker? items.length = .spread := by
      rw [hmarker, ListChange.of, if_neg hpos]
    rw [List.flatMap_singleton, map_snd_select hchange (by simp)]
    simp only [ListChange.extent, List.drop_zero]
    rw [List.take_of_length_le (by omega)]
  · rw [List.length_map] at h
    exact flatMap_select_row (j := 0) (by simpa using hne) hitems (by rw [h, Nat.zero_add])

/-- Of a row in order an empty list leaves the first instance, hidden. -/
theorem flatMap_select_nil (h : Lined (fs.map Face.marker?)) :
    ∃ f : Face, fs.flatMap (fun f => f.select (.array [])) =
      [({ f with marker? := some (.ofIndex 0 1), visible := false }, none)] := by
  rcases h with h | ⟨hne, h⟩
  · obtain ⟨f, rfl, hmarker⟩ := List.map_eq_singleton_iff.mp h
    refine ⟨f, ?_⟩
    rw [List.flatMap_singleton, select, hmarker]
    rfl
  · rw [List.length_map] at h
    cases fs with
    | nil => simp at hne
    | cons f rest =>
      rw [List.map_cons, List.length_cons, Marker.row_succ, List.cons.injEq] at h
      obtain ⟨hmarker, h⟩ := h
      have hrest : rest.flatMap (fun f => f.select (.array [])) = [] := by
        refine List.flatMap_eq_nil_iff.mpr fun g hg => ?_
        have hmem : g.marker? ∈ Marker.row (0 + 1) rest.length (rest.length + 1) :=
          h ▸ List.mem_map_of_mem hg
        obtain ⟨k, hk, hkmarker⟩ := List.mem_map.mp hmem
        have hlt := (List.mem_range'_1.mp hk).1
        rw [select, ← hkmarker, ListChange.of_ofIndex]
        simp [show k ≠ 0 by omega]
      refine ⟨f, ?_⟩
      rw [List.flatMap_cons, hrest, List.append_nil, select, hmarker, ListChange.of_ofIndex]
      rfl

end Face

/-! ### What a value makes of a row -/

/-- The row after its nodes have selected a value: a list gives it another length, anything else leaves
it as it is. -/
def Value.regroup (ms : List (Option Marker)) : Value → List (Option Marker)
  | .array items => Marker.row 0 (max 1 items.length) (max 1 items.length)
  | _ => ms

/-- How many nodes of a row of `length` nodes are to be seen after they have selected a value. -/
def Value.shownIn (length : Nat) : Value → Nat
  | .array items => items.length
  | .null => 0
  | _ => length

theorem Marker.length_row (first length count : Nat) : (row first length count).length = length := by
  simp [row]

/-- A row in order stays in order. -/
theorem Lined.regroup {ms : List (Option Marker)} (h : Lined ms) (v : Value) :
    Lined (v.regroup ms) := by
  cases v with
  | array items => exact lined_row (by omega)
  | null | bool _ | number _ | string _ | object _ => exact h

namespace Face

variable {fs : List Face} {items : List Value}

/-- The instances of a row for a list that is not empty are shown, each in the position of its item. -/
theorem map_select_items {α : Type} {g : Face → α} {k : Item → α} (hitems : items ≠ [])
    (h : Lined (fs.map Face.marker?)) (hg : ∀ (f : Face) i, g (f.instanceAt i) = k i) :
    (fs.flatMap fun f => f.select (.array items)).map (fun p => g p.1) =
      (Item.enumerate items.length 0 items).map k := by
  have hsnd : List.Forall₂ (fun (p : Face × Option Item) i => p.2 = some i)
      (fs.flatMap fun f => f.select (.array items)) (Item.enumerate items.length 0 items) :=
    List.forall₂_map_left_iff.mp (List.forall₂_map_right_iff.mp
      (List.forall₂_eq_eq_eq ▸ flatMap_select_lined hitems h))
  refine (NodeTree.map_eq_map_of_forall₂ hsnd fun p hp i hi => ?_).symm
  obtain ⟨f, -, hp⟩ := List.mem_flatMap.mp hp
  rw [eq_instanceAt hp hi, hg]

/-- What is selected tells the positions of a row. -/
theorem map_marker_select (h : Lined (fs.map Face.marker?)) (v : Value) :
    (fs.flatMap fun f => f.select v).map (fun p => p.1.marker?) = v.regroup (fs.map Face.marker?) := by
  cases v with
  | null | bool _ | number _ | string _ | object _ =>
    simp [select, Value.regroup, ← List.map_eq_flatMap]
  | array items =>
    rw [Value.regroup]
    by_cases hitems : items = []
    · obtain ⟨f, hf⟩ := flatMap_select_nil h
      rw [hitems, hf]
      rfl
    · have hpos : items.length ≠ 0 := by simpa using hitems
      rw [map_select_items hitems h (fun _ _ => rfl), Item.map_marker_enumerate,
        Nat.max_eq_right (by omega)]

/-- What is selected tells how many nodes of a row are to be seen. -/
theorem countP_visible_select (h : Lined (fs.map Face.marker?)) (v : Value) :
    (fs.flatMap fun f => f.select v).countP (fun p => p.1.visible) = v.shownIn fs.length := by
  cases v with
  | null => simp [select, Value.shownIn, ← List.map_eq_flatMap, List.countP_map, Function.comp_def]
  | bool _ | number _ | string _ | object _ =>
    simp [select, Value.shownIn, ← List.map_eq_flatMap, List.countP_map, Function.comp_def]
  | array items =>
    rw [Value.shownIn]
    by_cases hitems : items = []
    · obtain ⟨f, hf⟩ := flatMap_select_nil h
      rw [hitems, hf]
      rfl
    · have hvisible := map_select_items (g := Face.visible) (k := fun _ => true) hitems h
        fun _ _ => rfl
      have hcount : (fs.flatMap fun f => f.select (.array items)).countP (fun p => p.1.visible) =
          ((fs.flatMap fun f => f.select (.array items)).map fun p => p.1.visible).countP id := by
        rw [List.countP_map]
        rfl
      rw [hcount, hvisible, List.countP_eq_length.mpr (by simp), List.length_map,
        Item.length_enumerate]

end Face

end TreeTemplate
