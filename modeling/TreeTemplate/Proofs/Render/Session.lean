import TreeTemplate.Proofs.Render.Idempotence
import TreeTemplate.Proofs.Render.Round

/-!
Sessions.  One engine renders a node in place again and again, each time with other data (`Session`).
A child that selects a value is multiplied by the lists that it selects: its instances stay a row in
order (`Session.poised`), so each render leaves what its list asks for.
-/

namespace TreeTemplate

/-- How many nodes stand in the row of a node after it selected a value, if there were `count` before: a
list makes one for each item, and keeps one if there is none. -/
def Value.groupSize (count : Nat) : Value → Nat
  | .array items => max 1 items.length
  | _ => count

namespace Context

end Context

namespace Engine

open Document (root)
open NodeTree (Primed Carries)

variable {e e' : Engine} {d d' : Document} {data : Value} {p n : Handle} {set : BindingSet}
  {family : List Handle} {ev : Evaluator} {log : List (Stage × Step)} {o : Outcome WalkStats}
  {v : Value} {values : List Value}

/-- An in-place render, with its record. -/
structure Rendered (e : Engine) (d : Document) (data : Value) (node : Handle)
    (log : List (Stage × Step)) (o : Outcome WalkStats) : Prop where
  outcome : ∃ budget, e.renderInPlace budget d data node = some o
  trace : ∃ s', e.Trace d data node log s'

/-- Some node selects the value. -/
def Selects (log : List (Stage × Step)) (family : List Handle) (v : Value) : Prop :=
  ∃ h ∈ family, selection? log h = some v

namespace Poised

/-- A render of the node makes of the row what its nodes select. -/
theorem rendered (hp : e.Poised d p set family) (hlined : Lined (d.markers family))
    (hselect : set.select? = some ev) (hfree : ev.assignFree = true) (hr : e.Rendered d data p log o)
    (hv : Selects log family v) :
    o.engine.Poised o.document p set (family.flatMap (heirs log)) ∧
      Round log d o.document set v family (family.flatMap (heirs log)) := by
  obtain ⟨log', s', v', family', htrace, hpoised, hround⟩ := hp.round hlined hselect hfree data
  obtain ⟨⟨budget, ho⟩, s'', htrace'⟩ := hr
  obtain ⟨rfl, rfl⟩ := Runs.unique htrace htrace'
  obtain ⟨h, hh, hselection⟩ := hv
  obtain rfl : v' = v := Option.some.inj ((hround.selection h hh).symm.trans hselection)
  obtain rfl := hround.heirs
  obtain ⟨hengine, hdocument⟩ := htrace.outcome_eq ho
  rw [hengine, hdocument]
  exact ⟨hpoised, hround⟩

end Poised

/-! ### Sessions -/

/-- The node `p` has no bindings and nothing below it includes; `n` is an element among its children
that selects a value without assigning, and it is no instance yet. -/
structure Repeats (e : Engine) (d : Document) (p n : Handle) : Prop where
  proper : d.Proper
  sound : e.Sound
  bare : e.bindingsAt d p p = .empty ""
  closed : ∀ h ∈ d.subtree p, (e.bindingsAt d p h).include? = none
  child : n ∈ d.elementChildren p
  selects : ∃ ev, (e.bindingsAt d p n).select? = some ev ∧ ev.assignFree = true
  unmarked : (d.node n).marker? = none

/-- The engine renders the node `p` in place again and again.  The node `n` selects `values` one after
another, itself or what it was multiplied into; now these are the nodes of `family`. -/
inductive Session (e : Engine) (d : Document) (p n : Handle) :
    List Value → List Handle → Engine → Document → Prop
  | start : Session e d p n [] [n] e d
  | render {values : List Value} {family : List Handle} {e' : Engine} {d' : Document} {data : Value}
      {log : List (Stage × Step)} {o : Outcome WalkStats} {v : Value}
      (before : Session e d p n values family e' d') (rendered : e'.Rendered d' data p log o)
      (selects : Selects log family v) :
      Session e d p n (values ++ [v]) (family.flatMap (heirs log)) o.engine o.document

/-- A node with children is live. -/
theorem Repeats.exists_record (h : e.Repeats d p n) : ∃ m, d.get? p = some m := by
  cases hp : d.get? p with
  | some m => exact ⟨m, rfl⟩
  | none =>
    have hnode : d.node p = d.vacant := by simp [Document.node, hp]
    have hchild := h.child
    simp [Document.elementChildren, hnode, h.proper.vacant.2] at hchild

/-- The first render finds the child as a row of its own. -/
theorem Repeats.poised (h : e.Repeats d p n) : e.Poised d p (e.bindingsAt d p n) [n] := by
  obtain ⟨m, hm⟩ := h.exists_record
  obtain ⟨ks, hs⟩ := h.proper.seated hm
  obtain ⟨r, hr, -, hparent⟩ := h.proper.rooted
  obtain ⟨kr, hR⟩ := h.proper.seated hr
  rw [hparent] at hR
  have ht := hs.held _ (List.mem_singleton_self _)
  have hchild := h.child
  rw [Document.elementChildren_eq ht] at hchild
  obtain ⟨k, hk, rfl⟩ := List.mem_map.mp hchild
  obtain ⟨hk, helement⟩ := List.mem_filter.mp hk
  obtain ⟨pre, post, rfl⟩ := List.append_of_mem hk
  refine ⟨h.sound, h.proper.tidy, ⟨_, rfl, hR⟩, m.parent?, _, rfl, hs,
    ⟨pre.map NodeTree.handle, post.map NodeTree.handle, by simpa using ht.children⟩,
    fun data t' functions ho => ?_⟩
  have hknown := ho.known
  have htop := ho.top
  have hsighted := ho.sighted (F := fun _ => True) hs h.closed fun _ _ _ _ _ _ => trivial
  obtain ⟨x, m', ks'⟩ := t'
  obtain rfl : x = p := ho.handle_eq
  have hprimed := ho.primed
  obtain ⟨-, hkids⟩ := hprimed
  obtain ⟨pre', rest, rfl, -, hrest⟩ := NodeTree.exists_append_of_forall₂ hkids
  obtain ⟨k', post', hkk', -, rfl⟩ := List.forall₂_cons_left_iff.mp hrest
  have hbare := h.bare.symm.trans (ho.bindingsAt_eq hs (NodeTree.top_mem_entries _) htop)
  rw [← hbare] at htop
  have hmem : k' ∈ pre' ++ k' :: post' := by simp
  have hkind : k'.record.isElement = true := hkk'.isElement_eq.trans helement
  refine ⟨pre', [k'], post', ⟨rfl, htop, ?_, fun u hu => ?_⟩, by simp [hkk'.handle_eq]⟩
  · cases hsighted with
    | node top placed steady kids =>
      obtain rfl := Option.some.inj (top.symm.trans htop)
      exact kids rfl
  · rw [List.mem_singleton.mp hu]
    cases hknown with
    | node top kids =>
      obtain ⟨knownTop, -⟩ := kids k' hmem hkind
      have hset := ho.bindingsAt_eq hs
        (NodeTree.mem_entries_of_kid hmem (NodeTree.top_mem_entries _)) knownTop
      rw [hkk'.handle_eq] at hset
      exact ⟨hkind, knownTop.trans (congrArg some hset.symm)⟩

/-! ### What a session leaves -/

/-- A session leaves the nodes of the row in order, as many as the last list asked for. -/
theorem Session.poised (h : e.Repeats d p n) (hs : Session e d p n values family e' d') :
    e'.Poised d' p (e.bindingsAt d p n) family ∧ Lined (d'.markers family) ∧
      family.length = values.foldl Value.groupSize 1 := by
  obtain ⟨ev, hselect, hfree⟩ := h.selects
  induction hs with
  | start => exact ⟨h.poised, Or.inl (by simp [Document.markers, h.unmarked]), rfl⟩
  | @render values family e' d' data log o v before rendered selects ih =>
    obtain ⟨hpoised, hlined, hlength⟩ := ih
    obtain ⟨hpoised', hround⟩ := hpoised.rendered hlined hselect hfree rendered selects
    refine ⟨hpoised', hround.marked ▸ hlined.regroup v, ?_⟩
    have hmarked := congrArg List.length hround.marked
    rw [Document.markers, List.length_map] at hmarked
    rw [hmarked, List.foldl_append, ← hlength]
    cases v <;> simp [Value.regroup, Value.groupSize, Marker.length_row, Document.markers]

/-- The node can be rendered once more, whatever the data are. -/
theorem Session.exists_outcome (h : e.Repeats d p n) (hs : Session e d p n values family e' d')
    (data : Value) :
    ∃ bound, ∀ budget ≥ bound, ∃ o, e'.renderInPlace budget d' data p = some o := by
  obtain ⟨ev, hselect, hfree⟩ := h.selects
  obtain ⟨hpoised, hlined, -⟩ := hs.poised h
  obtain ⟨log, s', v, family', htrace, -⟩ := hpoised.round hlined hselect hfree data
  exact htrace.exists_outcome

end Engine

end TreeTemplate
