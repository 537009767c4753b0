import TreeTemplate.Engine
import TreeTemplate.Proofs.Document.RoundTrip
import TreeTemplate.Proofs.Render.Confinement

/-!
The documents that a program comes by.  `Document.Reached` lists the operations on documents, the
renders of engines among them, each under the conditions that its handles have to meet; every document
reached is well-formed (`Document.wellFormed_of_reached`).
-/

namespace TreeTemplate

open Document (root)

variable {e : Engine} {d : Document} {s : Stage} {data : Value} {parent? : Option Value}
  {node : Handle} {n : Node} {inPlace : Bool} {budget : Nat}

namespace Engine

/-- The context in which a render places its node. -/
def contextOn (e : Engine) (s : Stage) (data : Value) (parent? : Option Value) : ContextId :=
  (e.openContexts s.pool data parent?).1

/-- The stage on which a render begins. -/
def begun (e : Engine) (s : Stage) (data : Value) (parent? : Option Value) (node : Handle) : Stage :=
  { s with
    toScan := s.toScan.prime node
    pool := (e.openContexts s.pool data parent?).2.2 }

/-- On its way a render comes to a stack of steps and a stage, having done the steps of the record,
each on the stage that it stands with. -/
def Reaches (e : Engine) (s : Stage) (data : Value) (parent? : Option Value) (node : Handle)
    (inPlace : Bool) (log : List (Stage × Step)) (w : WorkStack Step) (s' : Stage) : Prop :=
  WorkStack.Reaches (Stage.step (e.plan inPlace))
    (WorkStack.new.pushItems [.place (e.contextOn s data parent?) node])
    (e.begun s data parent? node) log w s'

/-- What holds where a render begins, with its node to be placed, and is kept by every step holds at every
point of it. -/
theorem Reaches.invariant {log : List (Stage × Step)} {w : WorkStack Step} {s' : Stage}
    (Inv : List (Stage × Step) → Stage → List Step → Prop)
    (h : e.Reaches s data parent? node inPlace log w s')
    (hstart : Inv [] (e.begun s data parent? node) [.place (e.contextOn s data parent?) node])
    (hstep : ∀ log s st waiting, Inv log s (st :: waiting) →
      Inv (log ++ [(s, st)]) (Stage.act (e.plan inPlace) s st).1
        ((Stage.act (e.plan inPlace) s st).2.reverse.flatten ++ waiting)) :
    Inv log s' w.pending := by
  have hclean : (WorkStack.new : WorkStack Step).Clean := by simp [WorkStack.Clean, WorkStack.new]
  obtain ⟨hpending, hclean'⟩ := WorkStack.pushItems_spec WorkStack.new
    [.place (e.contextOn s data parent?) node] hclean
  refine (WorkStack.Reaches.invariant (Stage.act (e.plan inPlace)) Inv hstep hclean' ?_ h).1
  rw [hpending]
  exact hstart

/-- A render that has an outcome comes to its end, where its own contexts are released. -/
theorem exists_reaches_of_renderOn {s' : Stage} {stats : WalkStats}
    (h : e.renderOn budget s data parent? node inPlace = some (s', stats)) :
    ∃ log w last, e.Reaches s data parent? node inPlace log w last ∧ w.next.1 = none ∧
      s' = { last with
        pool := closeContexts (e.contextOn s data parent?)
          (e.openContexts s.pool data parent?).2.1 last.pool } := by
  obtain ⟨⟨last, stats'⟩, hrender, hs'⟩ := Option.map_eq_some_iff.mp h
  obtain ⟨⟨last', stats'', w'⟩, hrun, hlast⟩ := Option.map_eq_some_iff.mp hrender
  obtain ⟨rfl, rfl⟩ := Prod.mk.inj hlast
  obtain ⟨log, w, hreaches, hend⟩ := WorkStack.Reaches.exists_of_run hrun
  exact ⟨log, w, last', hreaches, hend, (Prod.mk.inj hs').1.symm⟩

/-- At every point of a render the document is a forest, and the nodes of the steps that wait are
live. -/
theorem Reaches.ranged {log : List (Stage × Step)} {w : WorkStack Step} {s' : Stage}
    (h : e.Reaches s data parent? node inPlace log w s') (hd : s.document.Forest)
    (hn : s.document.get? node = some n) : Stage.Ranged s' w.pending ∧ w.Clean := by
  have hclean : (WorkStack.new : WorkStack Step).Clean := by simp [WorkStack.Clean, WorkStack.new]
  obtain ⟨hpending, hclean'⟩ := WorkStack.pushItems_spec WorkStack.new
    [.place (e.contextOn s data parent?) node] hclean
  have hunmoved : Document.Unmoved s.document (e.begun s data parent? node).document :=
    Scan.prime_unmoved s.toScan node
  obtain ⟨n', hn', -⟩ := hunmoved.get?_after hn
  refine WorkStack.Reaches.invariant (Stage.act (e.plan inPlace))
    (fun _ s steps => Stage.Ranged s steps) ?_ hclean' ?_ h
  · intro _ s st waiting hr
    exact hr.act _
  · rw [hpending]
    exact ⟨hd.unmoved hunmoved, .single hn'⟩

theorem renderOn_forest {s' : Stage} {stats : WalkStats} (hd : s.document.Forest)
    (hn : s.document.get? node = some n)
    (h : e.renderOn budget s data parent? node inPlace = some (s', stats)) : s'.document.Forest := by
  obtain ⟨log, w, last, hreaches, -, rfl⟩ := exists_reaches_of_renderOn h
  exact (hreaches.ranged hd hn).1.forest

theorem render_forest {o : Outcome WalkStats} (hd : d.Forest) (hn : d.get? node = some n)
    (h : e.render budget d data parent? node inPlace = some o) : o.document.Forest := by
  obtain ⟨⟨s', stats⟩, hrender, rfl⟩ := Option.map_eq_some_iff.mp h
  exact renderOn_forest (s := e.stage d) hd hn hrender

theorem renderClone_forest {o : Outcome Handle} (hd : d.Forest) (hn : d.get? node = some n)
    (h : e.renderClone budget d data node = some o) : o.document.Forest := by
  have hc := Templates.clone_copies (e.plan false).templates (s := (e.stage d).toScan) hd hn
  unfold renderClone Stage.cloneTemplate at h
  dsimp only at h
  generalize (e.plan false).templates.clone (e.stage d).toScan node = c at hc h
  obtain ⟨⟨s', stats⟩, hrender, rfl⟩ := Option.map_eq_some_iff.mp h
  obtain ⟨m, hm, -⟩ := hc.top
  exact renderOn_forest hc.forest hm hrender

theorem process_forest {o : Outcome Unit} {t : TemplateHandle} (hd : d.Forest)
    (hn : ∀ x ∈ t.node?, ∃ n, d.get? x = some n) (h : e.process budget d t data = some o) :
    o.document.Forest := by
  unfold process at h
  cases hnode : t.node? with
  | none =>
    rw [hnode] at h
    obtain rfl := Option.some.inj h
    exact hd
  | some x =>
    rw [hnode] at h
    obtain ⟨o', hrender, rfl⟩ := Option.map_eq_some_iff.mp h
    obtain ⟨n, hn⟩ := hn x hnode
    exact render_forest hd hn hrender

end Engine

namespace Document

theorem empty_forest : empty.Forest := by
  constructor
  · exact empty_tidy
  · exact ⟨_, empty_holds.get?_handle, rfl⟩
  · intro h n hn
    obtain rfl := eq_root_of_get?_empty hn
    obtain rfl := Option.some.inj (hn.symm.trans empty_holds.get?_handle)
    exact ⟨[], empty_holds⟩
  · intro h n p hn hp
    obtain rfl := eq_root_of_get?_empty hn
    obtain rfl := Option.some.inj (hn.symm.trans empty_holds.get?_handle)
    simp [NodeTree.record, Node.new] at hp

/-- The documents that a program comes by.  Handles are live where they are used, and a node that is
put somewhere is not the root, nor the node that it is put at, nor an ancestor of it.  Any other
operation leaves the document as it is, or as one of these leaves it. -/
inductive Reached : Document → Prop
  | empty : Reached empty
  | ofMarkup {source : String} {d : Document} (h : ofMarkup source = .ok d) : Reached d
  | createElement {d : Document} (hd : Reached d) (tag : String) : Reached (d.createElement tag).2
  | appendChild {d : Document} {p h : Handle} (hd : Reached d) (hp : d.contains p = true)
      (hh : d.contains h = true) (hroot : h ≠ root) (habove : ¬ d.Above h p) :
      Reached (d.appendChild p h)
  | appendText {d : Document} {h : Handle} (hd : Reached d) (hh : d.contains h = true)
      (text : String) : Reached (d.appendText h text)
  | appendMarkup {d d' : Document} {h : Handle} {source : String} (hd : Reached d)
      (hh : d.contains h = true) (happend : d.appendMarkup h source = .ok d') : Reached d'
  | insertBefore {d : Document} {h reference : Handle} (hd : Reached d)
      (hr : d.contains reference = true) (hh : d.contains h = true) (hroot : h ≠ root)
      (habove : ¬ d.Above h reference) : Reached (d.insertBefore h reference)
  | insertAfter {d : Document} {h reference : Handle} (hd : Reached d)
      (hr : d.contains reference = true) (hh : d.contains h = true) (hroot : h ≠ root)
      (habove : ¬ d.Above h reference) : Reached (d.insertAfter h reference)
  | replace {d : Document} {h old : Handle} (hd : Reached d) (ho : d.contains old = true)
      (hh : d.contains h = true) (hroot : h ≠ root) (habove : ¬ d.Above h old) :
      Reached (d.replace h old)
  | remove {d : Document} {h : Handle} (hd : Reached d) (hh : d.contains h = true) :
      Reached (d.remove h)
  | clearChildren {d : Document} {h : Handle} (hd : Reached d) (hh : d.contains h = true) :
      Reached (d.clearChildren h)
  | deepClone {d : Document} {h : Handle} (hd : Reached d) (hh : d.contains h = true) :
      Reached (d.deepClone h).2
  | createHiddenContainer {d : Document} (hd : Reached d) (name value : String) :
      Reached (d.createHiddenContainer name value).2
  | setAttribute {d : Document} (hd : Reached d) (h : Handle) (name value : String) :
      Reached (d.setAttribute h name value)
  | removeAttribute {d : Document} (hd : Reached d) (h : Handle) (name : String) :
      Reached (d.removeAttribute h name)
  | setVisible {d : Document} (hd : Reached d) (h : Handle) (visible : Bool) :
      Reached (d.setVisible h visible)
  | attachCallback {d : Document} (hd : Reached d) (h : Handle) (c : Callback) :
      Reached (d.attachCallback h c)
  | detachCallbacks {d : Document} (hd : Reached d) (h : Handle) : Reached (d.detachCallbacks h)
  | modifyProperties {d : Document} (hd : Reached d) (h : Handle) (f : Dict Value → Dict Value) :
      Reached (d.modifyProperties h f)
  | setData {d : Document} (hd : Reached d) (h : Handle) (name : String) (v : Value) :
      Reached (d.setData h name v)
  | resetMutations {d : Document} (hd : Reached d) : Reached d.resetMutations
  | render {d : Document} {e : Engine} {budget : Nat} {data : Value} {parent? : Option Value}
      {node : Handle} {inPlace : Bool} {o : Outcome WalkStats} (hd : Reached d)
      (hnode : d.contains node = true)
      (hrender : e.render budget d data parent? node inPlace = some o) : Reached o.document
  | renderClone {d : Document} {e : Engine} {budget : Nat} {data : Value} {node : Handle}
      {o : Outcome Handle} (hd : Reached d) (hnode : d.contains node = true)
      (hrender : e.renderClone budget d data node = some o) : Reached o.document
  | process {d : Document} {e : Engine} {budget : Nat} {data : Value} {t : TemplateHandle}
      {o : Outcome Unit} (hd : Reached d) (hnode : ∀ x ∈ t.node?, d.contains x = true)
      (hrender : e.process budget d t data = some o) : Reached o.document
  | findTemplate {d : Document} (hd : Reached d) (e : Engine) (id : String) :
      Reached (e.findTemplate d id).document
  | resolveTemplate {d : Document} (hd : Reached d) (e : Engine) (reference : String) :
      Reached (e.resolveTemplate d reference).document

namespace Reached

theorem forest (h : Reached d) : d.Forest := by
  induction h with
  | empty => exact empty_forest
  | ofMarkup h => exact (proper_of_ofMarkup h).forest
  | createElement _ tag hd => exact hd.createElement tag
  | appendChild _ hp hh hroot habove hd =>
    obtain ⟨n, hn⟩ := exists_of_contains hh
    obtain ⟨m, hm⟩ := exists_of_contains hp
    exact (hd.links.appendChild hn hroot hm habove).forest
  | appendText _ hh text hd =>
    obtain ⟨n, hn⟩ := exists_of_contains hh
    exact hd.appendText hn text
  | appendMarkup _ hh happend hd =>
    obtain ⟨n, hn⟩ := exists_of_contains hh
    exact hd.appendMarkup hn happend
  | insertBefore _ hr hh hroot habove hd =>
    obtain ⟨n, hn⟩ := exists_of_contains hh
    obtain ⟨m, hm⟩ := exists_of_contains hr
    exact (hd.links.insertBefore hn hroot hm habove).forest
  | insertAfter _ hr hh hroot habove hd =>
    obtain ⟨n, hn⟩ := exists_of_contains hh
    obtain ⟨m, hm⟩ := exists_of_contains hr
    exact (hd.links.insertAfter hn hroot hm habove).forest
  | replace _ ho hh hroot habove hd =>
    obtain ⟨n, hn⟩ := exists_of_contains hh
    obtain ⟨m, hm⟩ := exists_of_contains ho
    exact (hd.links.replace hn hroot hm habove).forest
  | remove _ hh hd =>
    obtain ⟨n, hn⟩ := exists_of_contains hh
    exact hd.remove hn
  | clearChildren _ hh hd =>
    obtain ⟨n, hn⟩ := exists_of_contains hh
    exact hd.clearChildren hn
  | deepClone _ hh hd =>
    obtain ⟨n, hn⟩ := exists_of_contains hh
    exact hd.deepClone hn
  | createHiddenContainer _ name value hd =>
    obtain ⟨r, hr, -⟩ := hd.rooted
    obtain ⟨ht, hg⟩ := createHiddenContainer_grown hd.tidy hr name value
    exact hd.grown (fun p hp => ⟨r, Option.some.inj hp ▸ hr⟩) hg ht
  | setAttribute _ h name value hd => exact hd.unmoved (setAttribute_unmoved _ h name value)
  | removeAttribute _ h name hd => exact hd.unmoved (removeAttribute_unmoved _ h name)
  | setVisible _ h visible hd => exact hd.unmoved (setVisible_unmoved _ h visible)
  | attachCallback _ h c hd =>
    apply hd.unmoved
    apply modify_unmoved
    intro n
    rfl
  | detachCallbacks _ h hd =>
    apply hd.unmoved
    apply modify_unmoved
    intro n
    rfl
  | modifyProperties _ h f hd =>
    apply hd.unmoved
    apply modify_unmoved
    intro n
    rfl
  | setData _ h name v hd =>
    apply hd.unmoved
    apply modify_unmoved
    intro n
    rfl
  | resetMutations _ hd => exact hd.unmoved ⟨fun _ => rfl, fun ht => ⟨ht.free_nodup, ht.mem_free⟩⟩
  | render _ hnode hrender hd =>
    obtain ⟨n, hn⟩ := exists_of_contains hnode
    exact Engine.render_forest hd hn hrender
  | renderClone _ hnode hrender hd =>
    obtain ⟨n, hn⟩ := exists_of_contains hnode
    exact Engine.renderClone_forest hd hn hrender
  | process _ hnode hrender hd =>
    exact Engine.process_forest hd (fun x hx => exists_of_contains (hnode x hx)) hrender
  | findTemplate _ e id hd =>
    exact (Templates.find_finds (e.plan true).templates hd (e.plan true).loader? id).forest
  | resolveTemplate _ e reference hd =>
    exact (Stage.resolveTemplate_copies (e.plan true) (s := e.stage _) hd reference).1

end Reached

/-- Whatever a program does with live handles, its documents stay well-formed. -/
theorem wellFormed_of_reached (h : Reached d) : d.WellFormed :=
  h.forest.wellFormed

/-- A list is filled and removed; the next element takes the slot of what was in it. -/
theorem wellFormed_of_reached_refilled :
    ∃ d, Reached d ∧ d.WellFormed ∧ d.contains ⟨2, 0⟩ = false ∧ d.contains ⟨2, 1⟩ = true := by
  have hlist := Reached.empty.createElement "ul"
  have hroot : ¬ (Document.empty.createElement "ul").2.Above ⟨1, 0⟩ root := by
    intro habove
    have heq := eq_of_above (y := root) rfl rfl habove
    simp [root] at heq
  have hplaced := hlist.appendChild (p := root) (h := ⟨1, 0⟩) rfl rfl (by decide) hroot
  have hfilled := hplaced.appendText (h := ⟨1, 0⟩) rfl "one"
  have hremoved := hfilled.remove (h := ⟨1, 0⟩) rfl
  have hrefilled := hremoved.createElement "ol"
  exact ⟨_, hrefilled, wellFormed_of_reached hrefilled, rfl, rfl⟩

end Document

end TreeTemplate
