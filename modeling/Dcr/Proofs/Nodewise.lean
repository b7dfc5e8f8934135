import Dcr.Proofs.Steps

/-! Properties of nodes one by one. A property that all events have and one that all containers have
are kept by every edit that gives them to what it makes, unless they depend on something that edits
write into the nodes there are. -/

namespace Dcr.Choreography

variable {τ : Type} [FreeText τ] {c : Choreography τ} {E : Event τ → Prop} {X : Container τ → Prop}

/-- Every event has the one property, and every container the other. -/
structure Nodewise (E : Event τ → Prop) (X : Container τ → Prop) (c : Choreography τ) : Prop where
  events : ∀ e ∈ c.events.entries, E e
  containers : ∀ x ∈ c.containers.entries, X x

/-- A property of events and one of containers stay with a node whatever is written into it, its id
apart. -/
structure Robust (E : Event τ → Prop) (X : Container τ → Prop) : Prop where
  eventPlace : ∀ {e} (p : Option String), E e → E { e with parent := p }
  content : ∀ {e} (content : EventContent τ), E e → E (e.withContent content)
  inside : ∀ {e} (id : String) (m : Marking), E e → E { e with marking := e.markingInside id m }
  place : ∀ {x} (p : Option String), X x → X { x with parent := p }
  form : ∀ {x} (form : ContainerForm), X x → X { x with form }
  label : ∀ {x} (label : τ), X x → X { x with label }
  marking : ∀ {x} (m : Marking), X x → X { x with marking := m.persistent }

theorem Nodewise.mono (h : c.Nodewise E X) {E' : Event τ → Prop} {X' : Container τ → Prop}
    (hE : ∀ e, E e → E' e) (hX : ∀ x, X x → X' x) : c.Nodewise E' X' :=
  ⟨fun e he => hE e (h.events e he), fun x hx => hX x (h.containers x hx)⟩

/-! ## Nodes with new ids -/

theorem Nodewise.withEvent (h : c.Nodewise E X) {n : NewEvent τ}
    (hnew : E (n.event (c.ids.allocate .event).1)) : (c.withEvent n).Nodewise E X := by
  refine ⟨fun e he => ?_, h.containers⟩
  rcases Store.mem_insert he with rfl | he
  · exact hnew
  · exact h.events e he

theorem Nodewise.withContainer (h : c.Nodewise E X) {w : NewContainer τ}
    (hnew : X (w.container (c.ids.allocate w.kind.node).1)) : (c.withContainer w).Nodewise E X := by
  refine ⟨h.events, fun x hx => ?_⟩
  rcases Store.mem_insert hx with rfl | hx
  · exact hnew
  · exact h.containers x hx

namespace Robust

variable (hr : Robust E X)
include hr

/-- The steps of an edit write nothing but places. -/
theorem kept : Kept (Nodewise E X) where
  relate _ h := ⟨h.events, h.containers⟩
  place id p h := by
    unfold Choreography.setParent
    split
    · exact ⟨Store.forall_modified h.events fun _ _ he => hr.eventPlace p he, h.containers⟩
    · exact ⟨h.events, Store.forall_modified h.containers fun _ _ hx => hr.place p hx⟩
  drop x h := ⟨h.events, fun y hy => h.containers y (Store.mem_erase.mp hy).1⟩
  erase id h := by
    unfold eraseNode
    split
    · exact ⟨fun e he => h.events e (Store.mem_erase.mp he).1, h.containers⟩
    · exact ⟨h.events, fun x hx => h.containers x (Store.mem_erase.mp hx).1⟩
  release _ h := ⟨h.events, h.containers⟩

theorem reformed (h : c.Nodewise E X) (id : String) (form : ContainerForm) :
    (c.reformed id form).Nodewise E X :=
  ⟨h.events, Store.forall_modified h.containers fun _ _ hx => hr.form form hx⟩

theorem converted (h : c.Nodewise E X) (x : Container τ) {form : ContainerForm}
    (hid : ∀ y, X y → X { y with id := (c.ids.allocate form.kind.node).1 }) :
    (c.converted x form).Nodewise E X := by
  refine ⟨fun e he => ?_, fun y hy => ?_⟩
  · obtain ⟨f, hf, rfl⟩ := List.mem_map.mp he
    exact hr.eventPlace _ (h.events f hf)
  · obtain ⟨z, hz, rfl⟩ := List.mem_map.mp (Store.mem_ofList hy)
    have hz := (hr.reformed h x.id form).containers z hz
    unfold Container.rename
    split
    · exact hr.place _ (hr.label _ (hid z hz))
    · exact hr.place _ hz

theorem updateEvent (h : c.Nodewise E X) (id : String) (content : EventContent τ) :
    (c.updateEvent id content).value.1.Nodewise E X := by
  unfold Choreography.updateEvent
  split
  · exact h
  · exact ⟨Store.forall_modified h.events fun _ _ he => hr.content content he, h.containers⟩

theorem relabelled {y : Container τ} (hy : X y) (id : String) (label : Option τ)
    (marking : Option Marking) : X (relabelled id label marking y) := by
  unfold Choreography.relabelled
  split
  · cases label with
    | none =>
      cases marking with
      | none => exact hy
      | some m => exact hr.marking m hy
    | some l =>
      cases marking with
      | none => exact hr.label l hy
      | some m => exact hr.marking m (hr.label l hy)
  · exact hy

theorem updateContainer (h : c.Nodewise E X) (x : Container τ) (label : Option τ)
    (marking : Option Marking) : (c.updateContainer x label marking).value.1.Nodewise E X := by
  refine ⟨fun e he => ?_, fun y hy => ?_⟩
  · cases marking with
    | none => cases label <;> exact h.events e he
    | some m =>
      have he : e ∈ c.events.entries.map fun f => { f with marking := f.markingInside x.id m } := by
        cases label <;> exact he
      obtain ⟨f, hf, rfl⟩ := List.mem_map.mp he
      exact hr.inside x.id m (h.events f hf)
  · rw [entries_updateContainer] at hy
    obtain ⟨z, hz, rfl⟩ := List.mem_map.mp hy
    exact hr.relabelled (h.containers z hz) x.id label marking

/-- An edit keeps the properties if what it makes has them and a container that it converts keeps
them under its new id. -/
theorem perform (h : c.Nodewise E X) (edit : Edit τ)
    (hevent : ∀ n, edit = .createEvent n → E (n.event (c.ids.allocate .event).1))
    (hcontainer : ∀ w, edit = .createContainer w →
      X (w.container (c.ids.allocate w.kind.node).1))
    (hid : ∀ id kind type x, edit = .changeContainerType id kind type →
      c.containers.get? id = some x → x.kind ≠ kind →
        ∀ y, X y → X { y with id := (c.ids.allocate kind.node).1 }) :
    (edit.perform c).value.1.Nodewise E X := by
  refine hr.kept.perform h edit (fun n he => h.withEvent (hevent n he))
    (fun w he => h.withContainer (hcontainer w he)) (fun x _ _ _ => hr.reformed h x.id _)
    (fun id kind type x he hx hk => hr.converted h x ?_) (hr.updateEvent h) (hr.updateContainer h)
    fun haside => ?_
  · rw [ContainerForm.kind_ofKind]
    exact hid id kind type x he hx hk
  · obtain ⟨_, _, _, he⟩ := perform_aside (c := c) haside
    rw [he]
    exact ⟨h.events, h.containers⟩

end Robust

end Dcr.Choreography
