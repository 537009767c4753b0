import TreeTemplate.Proofs.Render.Filling

/-!
What a host does to a document between renders (`HostEdit`).  None of it depends on the sets on record,
and as long as recognised attributes stay as they are and new callbacks leave a context its functions,
what is on record stays right (`HostEdit.trusts`).
-/

namespace TreeTemplate

inductive HostEdit where
  | createElement (tag : String)
  | appendChild (parent h : Handle)
  | appendText (h : Handle) (text : String)
  /-- Markup that does not parse changes nothing. -/
  | appendMarkup (h : Handle) (source : String)
  | insertBefore (h reference : Handle)
  | insertAfter (h reference : Handle)
  | replace (h old : Handle)
  | remove (h : Handle)
  | clearChildren (h : Handle)
  | deepClone (h : Handle)
  | setAttribute (h : Handle) (name value : String)
  | removeAttribute (h : Handle) (name : String)
  | setVisible (h : Handle) (visible : Bool)
  | setMarker (h : Handle) (marker? : Option Marker)
  | modifyProperties (h : Handle) (change : Dict Value → Dict Value)
  | setData (h : Handle) (name : String) (v : Value)
  | attachCallback (h : Handle) (callback : Callback)
  | detachCallbacks (h : Handle)
  | resetMutations

namespace HostEdit

def apply (d : Document) : HostEdit → Document
  | createElement tag => (d.createElement tag).2
  | appendChild parent h => d.appendChild parent h
  | appendText h text => d.appendText h text
  | appendMarkup h source =>
    match d.appendMarkup h source with
    | .ok d => d
    | .error _ => d
  | insertBefore h reference => d.insertBefore h reference
  | insertAfter h reference => d.insertAfter h reference
  | replace h old => d.replace h old
  | remove h => d.remove h
  | clearChildren h => d.clearChildren h
  | deepClone h => (d.deepClone h).2
  | setAttribute h name value => d.setAttribute h name value
  | removeAttribute h name => d.removeAttribute h name
  | setVisible h visible => d.setVisible h visible
  | setMarker h marker? => d.setMarker h marker?
  | modifyProperties h change => d.modifyProperties h change
  | setData h name v => d.setData h name v
  | attachCallback h callback => d.attachCallback h callback
  | detachCallbacks h => d.detachCallbacks h
  | resetMutations => d.resetMutations

/-- A callback that is attached leaves a context its functions. -/
def Steady (F : Registry) : HostEdit → Prop
  | attachCallback _ callback => TreeTemplate.Steady (· = F) [callback]
  | _ => True

/-- The sets on record make no difference. -/
theorem apply_unscanned (edit : HostEdit) (d : Document) :
    edit.apply d.unscanned = (edit.apply d).unscanned := by
  cases edit with
  | appendMarkup h source =>
    simp only [apply, Document.appendMarkup_unscanned]
    cases d.appendMarkup h source <;> rfl
  | resetMutations => rfl
  | createElement | appendChild | appendText | insertBefore | insertAfter | replace | remove
  | clearChildren | deepClone | setAttribute | removeAttribute | setVisible | setMarker
  | modifyProperties | setData | attachCallback | detachCallbacks => simp [apply]

/-- The edit copies a node, or changes its attributes or callbacks. -/
def Deep : HostEdit → Prop
  | deepClone _ | setAttribute _ _ _ | removeAttribute _ _ | attachCallback _ _ | detachCallbacks _ =>
    True
  | _ => False

variable {σ : Scan.Setting} {b : BindingCache} {d : Document} {h : Handle} {F : Registry}
  {known : BindingCache → Prop} {P : Handle → Node → Prop} {Q : Node → Prop}

/-- All other edits keep what does not depend on links. -/
theorem all_of_not_deep (edit : HostEdit) (hedit : ¬ edit.Deep) (hL : Lasting P Q) (hd : d.All P Q) :
    (edit.apply d).All P Q := by
  cases edit with
  | createElement tag => exact hd.createElement hL tag
  | appendChild parent h => exact hd.appendChild hL parent h
  | appendText h text => exact hd.appendText hL h text
  | appendMarkup h source =>
    simp only [apply]
    split
    · next happend => exact hd.appendMarkup hL happend
    · exact hd
  | insertBefore h reference => exact hd.insertBefore hL h reference
  | insertAfter h reference => exact hd.insertAfter hL h reference
  | replace h old => exact hd.replace hL h old
  | remove h => exact hd.remove hL h
  | clearChildren h => exact hd.clearChildren hL h
  | setVisible h visible => exact hd.setVisible hL h visible
  | setMarker h marker? => exact hd.setMarker hL h marker?
  | modifyProperties h change => exact hd.modifyProperties hL h change
  | setData h name v => exact hd.setData hL h name v
  | resetMutations => exact ⟨hd.live, hd.vacant⟩
  | deepClone | setAttribute | removeAttribute | attachCallback | detachCallbacks =>
    exact absurd trivial hedit

/-- Other callbacks on a node, which may be dead. -/
theorem trusted_callbacks (hd : d.All (fun _ n => n.Trusted known F) (Node.Vacated known F))
    (h : Handle) (change : List Callback → List Callback)
    (hchange : ∀ callbacks, TreeTemplate.Steady (· = F) callbacks →
      TreeTemplate.Steady (· = F) (change callbacks)) :
    (d.modify h fun n => { n with callbacks := change n.callbacks }).All
      (fun _ n => n.Trusted known F) (Node.Vacated known F) := by
  apply hd.put
  · intro n hn
    rw [Document.writable_of_get? hn]
    have htrusted := hd.live h n hn
    exact ⟨fun b hb => (htrusted.vouched b hb).congr rfl rfl, hchange _ htrusted.steady⟩
  · intro hnone
    rw [Document.writable, hnone, Option.getD_none]
    refine ⟨⟨fun b _ => BindingCache.vouches_of_none rfl, hchange [] (by simp [TreeTemplate.Steady])⟩,
      rfl, fun href => absurd rfl href⟩

/-- What is on record stays right. -/
theorem trusts (edit : HostEdit) (hd : σ.Trusts b d)
    (hname : ∀ b', σ.Known b b' → b'.namePrefix = σ.namePrefix)
    (hsame : d.Undisturbed σ.namePrefix (edit.apply d)) (hsteady : edit.Steady σ.functions) :
    σ.Trusts b (edit.apply d) := by
  have hL := lasting_trusted (σ.Known b) σ.functions
  have hE := hd.enduring
  have hold := hd.holdover
  have hshallow := fun hedit => edit.all_of_not_deep hedit hL hd
  cases edit with
  | deepClone h => exact hd.deepClone hL (fun _ _ _ hn => hn) (fun _ _ hn => hn.trusted) h
  | setAttribute h name value =>
    exact hd.undisturbed hname (hold.setAttribute hE.toLasting fun n _ _ hn _ =>
      hE.content h n _ (hold.live h n hn)) hsame
  | removeAttribute h name =>
    exact hd.undisturbed hname (hold.removeAttribute hE.toLasting fun n _ _ hn _ =>
      hE.content h n _ (hold.live h n hn)) hsame
  | attachCallback h callback =>
    refine trusted_callbacks hd h (· ++ [callback]) fun callbacks hcallbacks k hk => ?_
    rcases List.mem_append.mp hk with hk | hk
    · exact hcallbacks k hk
    · exact hsteady k hk
  | detachCallbacks h =>
    exact trusted_callbacks hd h (fun _ => []) fun _ _ => by simp [TreeTemplate.Steady]
  | _ => exact hshallow id

end HostEdit

end TreeTemplate
