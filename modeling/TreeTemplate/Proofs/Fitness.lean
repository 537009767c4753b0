import TreeTemplate.Proofs.Registration
import TreeTemplate.Proofs.Render.Idempotence
import TreeTemplate.Proofs.Render.Kempt
import TreeTemplate.Proofs.Termination

/-!
Programs meet the conditions under which renders are studied.  An engine that a program comes by is in order
on every document that a program comes by (`Engine.Registered.fit`), whichever engines have worked on the
document before, so after a render the next one finds everything in order again
(`Engine.Registered.render_fit`).
-/

namespace TreeTemplate.Engine

open Document (root)

variable {e : Engine} {d : Document} {data : Value} {parent? : Option Value} {node : Handle}
  {inPlace : Bool} {budget : Nat} {log : List (String × HostFunction)} {o : Outcome WalkStats}

theorem Registered.reached (he : e.Registered log) : e.Reached := by
  induction he with
  | new owner config => exact .new owner config
  | register _ name f ih => exact ih.register name f
  | setGlobal _ name v ih => exact ih.setGlobal name v
  | setLoader _ loader? ih => exact ih.setLoader loader?
  | clearCaches _ ih => exact ih.clearCaches
  | evaluate _ source data ih => exact ih.evaluate source data
  | render _ _ h ih => exact ih.render h
  | renderClone _ _ h ih => exact ih.renderClone h
  | process _ _ h ih => exact ih.process h
  | findTemplate _ d id ih => exact ih.findTemplate d id
  | resolveTemplate _ d reference ih => exact ih.resolveTemplate d reference

/-- The engine of a program works on the documents of a program. -/
theorem Registered.fit (he : e.Registered log) (hd : Document.Reached d) : e.Fit d := by
  have hreached := he.reached
  have hschooled := he.schooled
  have hkempt := hd.kempt
  refine ⟨⟨hreached.bindings_sound, hreached.pool_sound⟩, fun c hc => ?_, fun n hn r hr _ => ?_⟩
  · rw [hschooled.pool.knows.functions_eq]
    exact hschooled.pool.knows.uniform c hc
  · rcases hn with rfl | hn
    · exact hkempt.nodes.vacant.bare hkempt.ground.vacant.1 r hr
    · exact (hkempt.nodes.live root n hn).bare (hkempt.ground.root n hn) r hr

/-- After a render the engine works on the document that it leaves, which is proper. -/
theorem Registered.render_fit (he : e.Registered log) (hd : Document.Reached d) (hloyal : d.Loyal)
    (hnode : d.contains node = true) (h : e.render budget d data parent? node inPlace = some o) :
    o.engine.Fit o.document ∧ o.document.Proper := by
  have hafter := hd.render hnode h
  exact ⟨(he.render hloyal h).fit hafter, hafter.proper⟩

end TreeTemplate.Engine
