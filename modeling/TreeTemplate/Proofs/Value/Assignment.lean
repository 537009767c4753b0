import TreeTemplate.Proofs.Dict
import TreeTemplate.Proofs.Markup.Style
import TreeTemplate.Value.Path

/-!
Assignment at dotted paths is a lawful nested update (`Value.assignPath_lawful`).  An assignment shows
at its path and nowhere beside it, the last one at a path counts, and assignments at paths that part
may be made in either order.
-/

namespace TreeTemplate

/-- The segments are what stands between the dots of the path. -/
structure Dotted (path : String) (segments : List String) : Prop where
  nonempty : segments ≠ []
  dotless : ∀ s ∈ segments, '.' ∉ s.toList
  joined : ['.'].intercalate (segments.map String.toList) = path.toList

theorem pathSegments_dotted (path : String) : Dotted path (pathSegments path) := by
  constructor
  · rw [pathSegments, Ne, List.map_eq_nil_iff]
    exact Text.splitChars_ne_nil '.' path.toList
  · intro s hs
    obtain ⟨piece, hpiece, rfl⟩ := List.mem_map.mp hs
    rw [String.toList_ofList]
    exact Text.not_mem_of_mem_splitChars hpiece
  · have hpieces : (pathSegments path).map String.toList = Text.splitChars '.' path.toList := by
      simp [pathSegments, Function.comp_def]
    rw [hpieces, Text.intercalate_splitChars]

namespace Value

variable {target inner : Dict Value} {key other : String} {p q rest : List String} {v w x y : Value}

/-- The values differ at most in the order of the keys of objects, at any depth. -/
inductive Reordered : Value → Value → Prop
  | refl (v : Value) : Reordered v v
  | array {xs ys : List Value} (length : xs.length = ys.length)
      (items : ∀ (i : Nat) x y, xs[i]? = some x → ys[i]? = some y → Reordered x y) :
      Reordered (.array xs) (.array ys)
  | object {es fs : Dict Value} (keys : (Dict.keys es).Perm (Dict.keys fs))
      (values : ∀ key x y, Dict.get? es key = some x → Dict.get? fs key = some y → Reordered x y) :
      Reordered (.object es) (.object fs)

/-- Setting one entry to values that differ in order. -/
theorem Reordered.put (d : Dict Value) (key : String) (hxy : Reordered x y) :
    Reordered (.object (Dict.put d key x)) (.object (Dict.put d key y)) := by
  refine .object ?_ fun other a b ha hb => ?_
  · rw [Dict.keys_put, Dict.keys_put]
  · rw [Dict.get?_put] at ha hb
    split at ha
    · next heq =>
      rw [if_pos heq] at hb
      obtain rfl := Option.some.inj ha
      obtain rfl := Option.some.inj hb
      exact hxy
    · next hne =>
      rw [if_neg hne, ha] at hb
      obtain rfl := Option.some.inj hb
      exact .refl a

/-- Setting two entries in either order. -/
theorem Reordered.put_comm (d : Dict Value) (hne : key ≠ other) (x y : Value) :
    Reordered (.object (Dict.put (Dict.put d key x) other y))
      (.object (Dict.put (Dict.put d other y) key x)) := by
  refine .object ?_ fun k a b ha hb => ?_
  · by_cases hkey : key ∈ Dict.keys d
    · by_cases hother : other ∈ Dict.keys d <;> simp [Dict.keys_put, hkey, hother]
    · by_cases hother : other ∈ Dict.keys d
      · simp [Dict.keys_put, hkey, hother]
      · simp only [Dict.keys_put, hkey, hother, hne, hne.symm, if_false, List.mem_append,
          List.mem_singleton, or_self, List.append_assoc]
        exact (List.Perm.swap other key []).append_left (Dict.keys d)
  · have hsame : Dict.get? (Dict.put (Dict.put d key x) other y) k =
        Dict.get? (Dict.put (Dict.put d other y) key x) k := by
      simp only [Dict.get?_put]
      by_cases hk : k = key
      · simp [hk, hne]
      · simp [hk]
    rw [← hsame, ha] at hb
    obtain rfl := Option.some.inj hb
    exact .refl a

/-! ### Chains of keys -/

/-- The chains part at some key: neither goes on where the other one ends. -/
def Apart (p q : List String) : Prop :=
  ¬ p <+: q ∧ ¬ q <+: p

instance (p q : List String) : Decidable (Apart p q) :=
  inferInstanceAs (Decidable (_ ∧ _))

theorem not_apart_nil : ¬ Apart [] q :=
  fun h => h.1 List.nil_prefix

theorem Apart.ne_nil (h : Apart p q) : q ≠ [] := by
  rintro rfl
  exact h.2 List.nil_prefix

theorem apart_cons_iff : Apart (key :: p) (other :: q) ↔ key ≠ other ∨ key = other ∧ Apart p q := by
  simp only [Apart, List.cons_prefix_cons]
  by_cases h : key = other
  · simp [h]
  · simp [h, Ne.symm h]

/-- The entries of what stands at a key. -/
def inside (target : Dict Value) (key : String) : Dict Value :=
  ((Dict.get? target key).map entries).getD []

theorem inside_put_self : inside (Dict.put target key x) key = entries x := by
  rw [inside, Dict.get?_put_self, Option.map_some, Option.getD_some]

theorem inside_put_of_ne (h : other ≠ key) : inside (Dict.put target key x) other = inside target other := by
  rw [inside, Dict.get?_put_of_ne target x h, inside]

/-- What takes the place of an object with the entries `inner` when a value is assigned at a chain of
keys inside it. -/
def placed (inner : Dict Value) : List String → Value → Value
  | [], v => v
  | key :: rest, v => .object (assignAt inner (key :: rest) v)

theorem placed_of_ne_nil (h : p ≠ []) : placed target p v = .object (assignAt target p v) := by
  cases p with
  | nil => exact absurd rfl h
  | cons key rest => rfl

/-- An assignment sets one entry, to something that depends only on what was below it. -/
theorem placed_cons :
    placed target (key :: rest) v =
      .object (Dict.put target key (placed (inside target key) rest v)) := by
  cases rest <;> rfl

theorem follow?_cons : follow? (.object target) (key :: rest) =
    (Dict.get? target key).bind fun v => follow? v rest :=
  rfl

/-- Whoever goes on below a key sees the entries there and nothing else. -/
theorem follow?_inside (h : rest ≠ []) :
    follow? (.object target) (key :: rest) = follow? (.object (inside target key)) rest := by
  cases rest with
  | nil => exact absurd rfl h
  | cons next rest =>
    rw [follow?_cons, inside]
    cases Dict.get? target key with
    | none => rfl
    | some v => cases v <;> rfl

/-! ### The laws along chains -/

theorem follow?_placed (inner : Dict Value) (p : List String) (v : Value) :
    follow? (placed inner p v) p = some v := by
  induction p generalizing inner with
  | nil => rfl
  | cons key rest ih => rw [placed_cons, follow?_cons, Dict.get?_put_self, Option.bind_some, ih]

/-- An assignment does not show beside its chain. -/
theorem follow?_placed_of_apart (h : Apart p q) :
    follow? (placed inner p v) q = follow? (.object inner) q := by
  induction p generalizing inner q with
  | nil => exact absurd h not_apart_nil
  | cons key rest ih =>
    cases q with
    | nil => exact absurd rfl h.ne_nil
    | cons other q =>
      rw [placed_cons, follow?_cons]
      rcases apart_cons_iff.mp h with hne | ⟨rfl, hrest⟩
      · rw [Dict.get?_put_of_ne inner _ hne.symm, follow?_cons]
      · rw [Dict.get?_put_self, Option.bind_some, ih hrest, follow?_inside hrest.ne_nil]

/-- The last assignment at a chain counts. -/
theorem placed_placed (inner : Dict Value) (p : List String) (v w : Value) :
    placed (entries (placed inner p v)) p w = placed inner p w := by
  induction p generalizing inner with
  | nil => rfl
  | cons key rest ih =>
    simp only [placed_cons, entries]
    rw [inside_put_self, ih, Dict.put_put]

/-- Assignments at chains that part commute up to the order of keys. -/
theorem placed_comm (inner : Dict Value) (h : Apart p q) (v w : Value) :
    Reordered (placed (entries (placed inner p v)) q w) (placed (entries (placed inner q w)) p v) := by
  induction p generalizing inner q with
  | nil => exact absurd h not_apart_nil
  | cons key rest ih =>
    cases q with
    | nil => exact absurd rfl h.ne_nil
    | cons other q =>
      simp only [placed_cons, entries]
      rcases apart_cons_iff.mp h with hne | ⟨rfl, hrest⟩
      · rw [inside_put_of_ne hne.symm, inside_put_of_ne hne]
        exact .put_comm inner hne _ _
      · rw [inside_put_self, inside_put_self, Dict.put_put, Dict.put_put]
        exact .put inner key (ih _ hrest)

/-! ### Dotted paths -/

theorem placed_pathSegments (target : Dict Value) (path : String) (v : Value) :
    placed target (pathSegments path) v = .object (assignPath target path v) :=
  placed_of_ne_nil (pathSegments_dotted path).nonempty

/-- After an assignment the value stands at the end of the path, and whatever is reached by a path that
parts from it is what was there before.  Of two assignments at one path the last one counts; two at
paths that part commute up to the order of keys. -/
theorem assignPath_lawful (target : Dict Value) (path : String) (v : Value) :
    Dotted path (pathSegments path) ∧
      follow? (.object (assignPath target path v)) (pathSegments path) = some v ∧
      (∀ w, assignPath (assignPath target path v) path w = assignPath target path w) ∧
      ∀ other, Apart (pathSegments path) (pathSegments other) →
        follow? (.object (assignPath target path v)) (pathSegments other) =
            follow? (.object target) (pathSegments other) ∧
          ∀ w, Reordered (.object (assignPath (assignPath target path v) other w))
            (.object (assignPath (assignPath target other w) path v)) := by
  refine ⟨pathSegments_dotted path, ?_, fun w => ?_, fun other hapart => ⟨?_, fun w => ?_⟩⟩
  · rw [← placed_pathSegments, follow?_placed]
  · have htwice := placed_placed target (pathSegments path) v w
    simpa only [placed_pathSegments, entries, object.injEq] using htwice
  · rw [← placed_pathSegments, follow?_placed_of_apart hapart]
  · have hcomm := placed_comm target hapart v w
    simpa only [placed_pathSegments, entries] using hcomm

/-- Two paths with an empty segment that part below an entry that is a number. -/
theorem assignPath_lawful_empty_segment :
    let target : Dict Value := [("s", .string ""), ("a", .ofNat 5)]
    Apart (pathSegments "a..b") (pathSegments "a..c.d") ∧
      follow? (.object (assignPath target "a..b" .null)) (pathSegments "a..c.d") = none ∧
      Reordered (.object (assignPath (assignPath target "a..b" .null) "a..c.d" (.bool true)))
        (.object (assignPath (assignPath target "a..c.d" (.bool true)) "a..b" .null)) := by
  have hapart : Apart (pathSegments "a..b") (pathSegments "a..c.d") := by decide +kernel
  obtain ⟨-, -, -, hlaws⟩ := assignPath_lawful [("s", .string ""), ("a", .ofNat 5)] "a..b" .null
  obtain ⟨hframe, hcomm⟩ := hlaws "a..c.d" hapart
  exact ⟨hapart, hframe, hcomm (.bool true)⟩

end Value

end TreeTemplate
