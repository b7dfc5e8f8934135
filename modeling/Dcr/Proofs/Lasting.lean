import Dcr.Proofs.Nodewise

/-! What a choreography keeps for good. No edit leaves the state of a run in a marking, and the
label of a role, unless it is given, is the role's name. -/

namespace Dcr

open FreeText (holds ofText orText)

variable {τ : Type} [FreeText τ]

/-- A marking without the state of a run. -/
def Marking.Lasting (m : Marking) : Prop := m.executable = false ∧ m.executed = false

namespace Choreography

variable {c : Choreography τ}

/-- Roles have a label. -/
def Labelled (roles : List (Role τ)) : Prop :=
  ∀ r ∈ roles, holds r.label = true ∨ r.label = r.name

/-- Markings hold no state of a run, and roles have a label. -/
structure Lasting (c : Choreography τ) : Prop
    extends Nodewise (fun e => e.marking.Lasting) (fun x => x.marking.Lasting) c where
  labels : Labelled c.roles

/-! ## Markings -/

/-- What is written into a marking is included and pending. -/
theorem robust_lasting : Robust (fun e : Event τ => e.marking.Lasting)
    fun x : Container τ => x.marking.Lasting where
  eventPlace _ h := h
  content _ h := h
  inside {e} id m h := by
    show (e.markingInside id m).Lasting
    unfold Event.markingInside
    split <;> exact h
  place _ h := h
  form _ h := h
  label _ h := h
  marking _ _ := ⟨rfl, rfl⟩

/-! ## Roles -/

/-- The steps of an edit leave the roles alone. -/
theorem kept_roles (P : List (Role τ) → Prop) : Kept fun c : Choreography τ => P c.roles where
  relate _ h := h
  place id p h := by
    unfold Choreography.setParent
    split <;> exact h
  drop _ h := h
  erase id h := by
    unfold eraseNode
    split <;> exact h
  release _ h := h

theorem Labelled.modifyRole {roles : List (Role τ)} (h : Labelled roles) (name : String)
    {f : Role τ → Role τ} (hf : ∀ r, (f r).label = r.label ∧ (f r).name = r.name) :
    Labelled (modifyRole name f roles) := by
  induction roles with
  | nil =>
    intro r hr
    cases hr
  | cons r rest ih =>
    obtain ⟨hr, hrest⟩ := List.forall_mem_cons.mp h
    unfold Choreography.modifyRole
    split
    · refine List.forall_mem_cons.mpr ⟨?_, hrest⟩
      rw [(hf r).1, (hf r).2]
      exact hr
    · exact List.forall_mem_cons.mpr ⟨hr, ih hrest⟩

theorem Labelled.addRole (h : Labelled c.roles) (name : String) (label : Option τ)
    (parameters : List (Parameter τ)) :
    Labelled (c.addRole name label parameters).value.1.roles := by
  simp only [Choreography.addRole]
  split
  · exact h
  · intro r hr
    rcases List.mem_append.mp hr with hr | hr
    · exact h r hr
    · rw [List.mem_singleton.mp hr]
      show holds (orText label _) = true ∨ orText label _ = ofText _
      unfold orText
      cases hl : label.filter holds with
      | none => exact .inr rfl
      | some l => exact .inl (Option.filter_eq_some_iff.mp hl).2

theorem Labelled.updateEvent (h : Labelled c.roles) (id : String) (content : EventContent τ) :
    Labelled (c.updateEvent id content).value.1.roles := by
  unfold Choreography.updateEvent
  split <;> exact h

theorem Labelled.perform (h : Labelled c.roles) (edit : Edit τ) :
    Labelled (edit.perform c).value.1.roles := by
  refine (kept_roles Labelled).perform h edit (fun _ _ => h) (fun _ _ => h) (fun _ _ _ _ => h)
    (fun _ _ _ _ _ _ _ => h) h.updateEvent (fun _ label marking => ?_) fun haside => ?_
  · cases label <;> cases marking <;> exact h
  · cases edit with
    | addRole name label parameters => exact h.addRole name label parameters
    | removeRole name => exact fun r hr => h r (List.mem_of_mem_eraseP hr)
    | addParticipant role bindings =>
      refine withFound_rule (P := fun d => Labelled d.roles) h fun r _ => ?_
      simp only [Edit.answer, Choreography.addParticipant]
      split
      · exact h
      · exact h.modifyRole role fun _ => ⟨rfl, rfl⟩
    | removeParticipant role participant => exact h.modifyRole role fun _ => ⟨rfl, rfl⟩
    | setSecurity text => exact h
    | setDocumentation text => exact h
    | _ => cases haside

theorem Lasting.perform (h : c.Lasting) (edit : Edit τ) : (edit.perform c).value.1.Lasting where
  toNodewise := robust_lasting.perform h.toNodewise edit (fun _ _ => ⟨rfl, rfl⟩)
    (fun _ _ => ⟨rfl, rfl⟩) fun _ _ _ _ _ _ _ _ hy => hy
  labels := h.labels.perform edit

end Choreography

namespace Editor

theorem lasting_opening {e : Editor τ} (h : e.Opening) : e.choreography.Lasting := by
  rcases h with rfl | rfl
  · exact ⟨⟨fun _ he => absurd he List.not_mem_nil, fun _ hx => absurd hx List.not_mem_nil⟩,
      fun _ hr => absurd hr List.not_mem_nil⟩
  · refine ⟨⟨fun e he => ?_, fun _ hx => absurd hx List.not_mem_nil⟩, fun r hr => ?_⟩
    · rw [entries_sample_events] at he
      simp only [List.mem_cons, List.not_mem_nil, or_false] at he
      rcases he with rfl | rfl | rfl <;> exact ⟨rfl, rfl⟩
    · have hr : r = Sample.prosumer ∨ r = Sample.everyone := by simpa [Sample.choreography] using hr
      rcases hr with rfl | rfl <;> exact .inl (by simp [Sample.prosumer, Sample.everyone])

/-- No session leaves the state of a run in its choreography. -/
theorem lasting_after [DecidableEq τ] {e : Editor τ} (h : e.Opening) (calls : List (Call τ)) :
    (e.after calls).choreography.Lasting :=
  after_rule (P := Choreography.Lasting) (lasting_opening h) calls fun _ call hc =>
    call_rule hc call (fun _ _ _ hc _ => hc.perform _) fun edit _ _ _ => hc.perform edit

end Editor

end Dcr
