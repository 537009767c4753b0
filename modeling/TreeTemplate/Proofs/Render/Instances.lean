import TreeTemplate.Proofs.Document.Removal
import TreeTemplate.Render.Instances

/-!
What a list makes of a node.  A seated tree gives way to its instances: trees like it in a row, with
their positions on record (`ListChange.apply_regrown`).
-/

namespace TreeTemplate

/-- The position `index` in a list of `count` items. -/
def Marker.ofIndex (index count : Nat) : Marker :=
  ⟨index, index + 1 == count⟩

namespace NodeTree

variable {t u : NodeTree} {count index : Nat} {ts : List NodeTree}

/-- The tree with the record at its top changed. -/
def retop (f : Node → Node) : NodeTree → NodeTree
  | node h n ks => node h (f n) ks

@[simp] theorem handle_retop (f : Node → Node) (t : NodeTree) : (t.retop f).handle = t.handle := by
  cases t
  rfl

@[simp] theorem record_retop (f : Node → Node) (t : NodeTree) :
    (t.retop f).record = f t.record := by
  cases t
  rfl

def shown (v : Bool) (t : NodeTree) : NodeTree :=
  t.retop fun n => { n with visible := v }

/-- The tree with a list position on record at its top. -/
def marked (m : Marker) (t : NodeTree) : NodeTree :=
  t.retop fun n => { n with marker? := some m }

@[simp] theorem handle_shown (v : Bool) (t : NodeTree) : (t.shown v).handle = t.handle :=
  handle_retop _ t

@[simp] theorem handle_marked (m : Marker) (t : NodeTree) : (t.marked m).handle = t.handle :=
  handle_retop _ t

/-- Trees with the positions from `index` on in a list of `count` items on record. -/
def stamped (count : Nat) : Nat → List NodeTree → List NodeTree
  | _, [] => []
  | index, t :: ts => t.marked (.ofIndex index count) :: stamped count (index + 1) ts

@[simp] theorem map_handle_stamped (count index : Nat) (ts : List NodeTree) :
    (stamped count index ts).map handle = ts.map handle := by
  induction ts generalizing index with
  | nil => rfl
  | cons t ts ih => rw [stamped, List.map_cons, List.map_cons, handle_marked, ih]

theorem exists_of_mem_stamped (hu : u ∈ stamped count index ts) :
    ∃ t ∈ ts, ∃ m, u = t.marked m := by
  induction ts generalizing index with
  | nil => simp [stamped] at hu
  | cons t ts ih =>
    rcases List.mem_cons.mp hu with rfl | hu
    · exact ⟨t, List.mem_cons_self, _, rfl⟩
    · obtain ⟨t', ht', hm⟩ := ih hu
      exact ⟨t', List.mem_cons_of_mem _ ht', hm⟩

end NodeTree

namespace Document

open NodeTree (Alike stamped)

variable {d : Document} {home : Option Handle} {t : NodeTree} {ts : List NodeTree}

theorem setVisible_shown (hs : d.Seated home [t]) (ht : d.Tidy) (v : Bool) :
    (d.setVisible t.handle v).Tidy ∧
      Regrown d (d.setVisible t.handle v) home [t] [t.shown v] := by
  have htop := (hs.held t (List.mem_singleton_self t)).get?_handle
  obtain ⟨h, n, ks⟩ := t
  exact ⟨ht.setVisible htop v, setVisible_regrown hs v⟩

theorem setMarker_marked (hs : d.Seated home [t]) (ht : d.Tidy) (m : Marker) :
    (d.setMarker t.handle (some m)).Tidy ∧
      Regrown d (d.setMarker t.handle (some m)) home [t] [t.marked m] := by
  have htop := (hs.held t (List.mem_singleton_self t)).get?_handle
  obtain ⟨h, n, ks⟩ := t
  refine ⟨ht.modify htop fun n => { n with marker? := some m }, setMarker_regrown hs (some m)⟩

/-- Stamping seated trees in a row. -/
theorem stampFrom_regrown (count index : Nat) (hs : d.Seated home ts) (ht : d.Tidy) :
    (d.stampFrom count index (ts.map NodeTree.handle)).Tidy ∧
      Regrown d (d.stampFrom count index (ts.map NodeTree.handle)) home ts
        (stamped count index ts) := by
  induction ts generalizing d index with
  | nil => exact ⟨ht, .refl hs⟩
  | cons t ts ih =>
    have hcons : d.Seated home ([t] ++ ts) := hs
    obtain ⟨ht₁, hr₁⟩ := setMarker_marked hcons.left ht (.ofIndex index count)
    have hr₁ := hr₁.append_right hcons
    have hs₁ := hr₁.seated hcons
    obtain ⟨ht₂, hr₂⟩ := ih (index + 1) hs₁.right ht₁
    exact ⟨ht₂, hr₁.trans hcons (hr₂.append_left hs₁)⟩

end Document

namespace ListChange

open Document (Regrown)
open NodeTree (Alike stamped)

variable {d : Document} {home : Option Handle} {t : NodeTree} {count : Nat} {change : ListChange}

/-- The position of the first instance that a node stands for, and how many they are. -/
def extent (count : Nat) : ListChange → Nat × Nat
  | conceal => (0, 0)
  | spread => (0, count - 1 + 1)
  | grow index => (index, count - 1 - index + 1)
  | keep index => (index, 1)
  | discard => (0, 0)

/-- What becomes of the instance at a position when the list has another length. -/
theorem of_ofIndex (index length count : Nat) :
    ListChange.of (some (.ofIndex index length)) count =
      if count = 0 then if index = 0 then conceal else discard
      else if index + 1 = length ∧ index + 1 < count then grow index
      else if index < count then keep index
      else discard := by
  show (if count = 0 then if index = 0 then conceal else discard
    else if (index + 1 == length && decide (index + 1 < count)) = true then grow index
    else if index < count then keep index
    else discard) = _
  simp

/-- Only an empty list hides its node. -/
theorem eq_zero_of_conceal {marker? : Option Marker} {count : Nat}
    (h : ListChange.of marker? count = conceal) : count = 0 := by
  unfold ListChange.of at h
  repeat' split at h
  all_goals first | assumption | cases h

theorem extent_le (marker? : Option Marker) (count : Nat) :
    ((ListChange.of marker? count).extent count).1 +
      ((ListChange.of marker? count).extent count).2 ≤ count := by
  unfold ListChange.of
  split
  · split <;> simp only [ListChange.extent] <;> omega
  · split
    · split <;> simp [ListChange.extent]
    · split
      · next h => simp [ListChange.extent] at h ⊢; omega
      · split <;> simp only [ListChange.extent] <;> omega

theorem conceal_regrown (count : Nat) (hs : d.Seated home [t]) (ht : d.Tidy) :
    (conceal.apply t.handle count d).2.Tidy ∧
      Regrown d (conceal.apply t.handle count d).2 home [t]
        [(t.marked (.ofIndex 0 1)).shown false] := by
  obtain ⟨ht₁, hr₁⟩ := Document.setMarker_marked hs ht (.ofIndex 0 1)
  obtain ⟨ht₂, hr₂⟩ := Document.setVisible_shown (hr₁.seated hs) ht₁ false
  rw [NodeTree.handle_marked] at ht₂ hr₂
  exact ⟨ht₂, hr₁.trans hs hr₂⟩

/-- The instances of a node are trees like it, shown, with their positions on record. -/
theorem apply_regrown (count : Nat) (hs : d.Seated home [t]) (ht : d.Tidy) (hconceal : change ≠ conceal)
    (hdiscard : change ≠ discard) :
    (change.apply t.handle count d).2.Tidy ∧
      ∃ us : List NodeTree, us.length = (change.extent count).2 ∧
        (∀ u ∈ us, Alike (t.shown true) u) ∧
        (change.apply t.handle count d).1 = ⟨(change.extent count).1, us.map NodeTree.handle⟩ ∧
        Regrown d (change.apply t.handle count d).2 home [t]
          (stamped count (change.extent count).1 us) := by
  obtain ⟨ht₁, hr₁⟩ := Document.setVisible_shown hs ht true
  have hs₁ := hr₁.seated hs
  generalize hd₁ : d.setVisible t.handle true = d₁ at ht₁ hr₁ hs₁
  cases change with
  | conceal => exact absurd rfl hconceal
  | discard => exact absurd rfl hdiscard
  | spread =>
    obtain ⟨ht₂, us, hlength, hhandles, halike, hr₂⟩ :=
      Document.copiesBefore_regrown (count - 1) hs₁ ht₁
    rw [NodeTree.handle_shown] at ht₂ hr₂ hhandles
    obtain ⟨ht₃, hr₃⟩ := Document.stampFrom_regrown count 0 (hr₂.seated hs₁) ht₂
    have hmap : (us ++ [t.shown true]).map NodeTree.handle =
        (d₁.copiesBefore t.handle (count - 1)).1 ++ [t.handle] := by simp [hhandles]
    rw [hmap] at ht₃ hr₃
    simp only [apply, hd₁]
    refine ⟨ht₃, us ++ [t.shown true], by simp [hlength, extent], fun u hu => ?_, by rw [hmap]; rfl,
      hr₁.trans hs (hr₂.trans hs₁ hr₃)⟩
    rcases List.mem_append.mp hu with hu | hu
    · exact halike u hu
    · rw [List.mem_singleton.mp hu]
      exact .refl _
  | grow index =>
    obtain ⟨ht₂, us, hlength, hhandles, halike, hr₂⟩ :=
      Document.copiesAfter_regrown (A := []) (count - 1 - index) hs₁
        (List.mem_singleton_self (t.shown true)) ht₁
    rw [NodeTree.handle_shown] at ht₂ hr₂ hhandles
    obtain ⟨ht₃, hr₃⟩ := Document.stampFrom_regrown count index (hr₂.seated hs₁) ht₂
    have hmap : ([] ++ [t.shown true] ++ us).map NodeTree.handle =
        t.handle :: (d₁.copiesAfter t.handle (count - 1 - index) t.handle).1 := by simp [hhandles]
    rw [hmap] at ht₃ hr₃
    simp only [apply, hd₁]
    refine ⟨ht₃, [] ++ [t.shown true] ++ us, by simp [hlength, extent], fun u hu => ?_,
      by rw [hmap]; rfl, hr₁.trans hs (hr₂.trans hs₁ hr₃)⟩
    rcases List.mem_append.mp hu with hu | hu
    · rw [List.mem_singleton.mp hu]
      exact .refl _
    · exact halike u hu
  | keep index =>
    obtain ⟨ht₃, hr₃⟩ := Document.stampFrom_regrown count index hs₁ ht₁
    simp only [List.map_cons, NodeTree.handle_shown, List.map_nil] at ht₃ hr₃
    simp only [apply, hd₁]
    refine ⟨ht₃, [t.shown true], rfl, fun u hu => ?_, by simp [extent], hr₁.trans hs hr₃⟩
    rw [List.mem_singleton.mp hu]
    exact .refl _

end ListChange

end TreeTemplate
