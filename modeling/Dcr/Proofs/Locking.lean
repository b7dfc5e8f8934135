import Dcr.Proofs.Sessions

/-! Editors while a simulation runs. From the start of a simulation to its end the choreography is
locked: a call leaves it as it is, an edit of what is there is refused, and records update nothing.
What was fired in between is in the snapshot alone, so the next simulation begins as this one did. -/

namespace Dcr.Editor

variable {τ : Type} [FreeText τ] {c : Choreography τ} {e : Editor τ}

/-! ## Single calls -/

/-- While a simulation runs an edit is refused as soon as what it looks for first is there. -/
theorem edit_of_running (hrun : e.run.isSome) {edit : Edit τ}
    (hthere : edit.absent? e.choreography = none) : e.edit edit = e.freeze edit := by
  unfold Editor.edit
  rw [hthere]
  exact if_pos hrun

/-- While a simulation runs no edit changes or completes anything. -/
theorem edit_rejected (hrun : e.run.isSome) (edit : Edit τ) :
    (e.edit edit).value.1 = e ∧ ∀ answer, (e.edit edit).value.2 ≠ .done answer := by
  rcases e.edit_cases edit with hsame | ⟨hidle, -⟩
  · exact hsame
  · rw [hidle] at hrun
    cases hrun

theorem applyRecords_of_running [DecidableEq τ] (hrun : e.run.isSome)
    (records : Rehydration.Records τ) : (e.applyRecords records).value = (e, []) := by
  induction records with
  | nil => rfl
  | cons record rest ih =>
    obtain ⟨id, content⟩ := record
    obtain ⟨hsame, hnot⟩ := edit_rejected hrun (.updateEvent id content)
    unfold Editor.applyRecords
    split
    · exact ih
    · split
      · exact ih
      · simp only [Logged.value_bind, hsame]
        cases hv : (e.edit (.updateEvent id content)).value.2 with
        | done answer => exact absurd hv (hnot answer)
        | refused => exact ih
        | stopped o => exact ih

theorem start_of_running (hrun : e.run.isSome) : e.start.value = (e, .done ()) := by
  obtain ⟨run, hrun⟩ := Option.isSome_iff_exists.mp hrun
  simp only [Editor.start, hrun]
  rfl

theorem start_of_idle (hidle : e.run = none) (hfits : Run.fits e.choreography = true) :
    e.start.value = ({ e with run := some (Run.start e.choreography) }, .done ()) := by
  simp only [Editor.start, hidle, if_pos hfits]

theorem value_stop (e : Editor τ) : e.stop.value = { e with run := none } := by
  unfold Editor.stop
  split
  · rfl
  · next hidle =>
    rw [← hidle]
    rfl

/-! ## Locked editors -/

/-- A simulation of a choreography runs. -/
structure Locked (c : Choreography τ) (e : Editor τ) : Prop where
  choreography : e.choreography = c
  running : e.run.isSome

/-- Only the end of the simulation unlocks an editor. -/
theorem Locked.call [DecidableEq τ] (h : e.Locked c) {call : Call τ} (hstop : call ≠ .stop) :
    (e.call call).value.Locked c := by
  cases call with
  | edit edit =>
    rw [Editor.call, Logged.value_map, (edit_rejected h.running edit).1]
    exact h
  | start =>
    rw [Editor.call, Logged.value_map, start_of_running h.running]
    exact h
  | stop => exact absurd rfl hstop
  | fire id =>
    -- the snapshot may change, but not what it was taken of
    obtain ⟨run, hrun⟩ := Option.isSome_iff_exists.mp h.running
    simp only [Editor.call, Editor.fire, hrun]
    exact ⟨h.choreography, rfl⟩
  | generate =>
    simp only [Editor.call, Editor.generate, Logged.value_map, Logged.value_bind]
    split
    · exact ⟨h.choreography, h.running⟩
    · exact h
  | applyRecords records =>
    rw [Editor.call, Logged.value_map, applyRecords_of_running h.running records]
    exact h

theorem Locked.after [DecidableEq τ] (h : e.Locked c) {calls : List (Call τ)}
    (hstop : .stop ∉ calls) : (e.after calls).Locked c := by
  induction calls generalizing e with
  | nil => exact h
  | cons call rest ih =>
    rw [List.mem_cons, not_or] at hstop
    exact ih (h.call (Ne.symm hstop.1)) hstop.2

/-- The next simulation begins as one of the locked choreography. -/
theorem Locked.restart (h : e.Locked c) (hfits : Run.fits c = true) :
    e.stop.value.start.value = ({ e with run := some (Run.start c) }, .done ()) := by
  rw [value_stop, ← h.choreography]
  exact start_of_idle rfl (h.choreography ▸ hfits)

/-! ## Simulations from start to end -/

/-- A simulation starts where none runs, if a snapshot can hold the choreography. Whatever is called
until it is stopped, the choreography with its pools stays; every edit of what is there is refused
because of the simulation, no other edit is done either, and records update nothing. When it is
stopped the choreography is still the same, and a new simulation begins with the same run as this
one, in which nothing has been fired. -/
theorem locked_after [DecidableEq τ] (hidle : e.run = none) (hfits : Run.fits e.choreography = true)
    {calls : List (Call τ)} (hstop : .stop ∉ calls) :
    e.start.value = ({ e with run := some (Run.start e.choreography) }, .done ()) ∧
    (Run.start e.choreography).history = [] ∧
    (e.start.value.1.after calls).choreography = e.choreography ∧
    (∀ edit, edit.absent? e.choreography = none →
      (e.start.value.1.after calls).edit edit = (e.start.value.1.after calls).freeze edit) ∧
    (∀ edit, ((e.start.value.1.after calls).edit edit).value.1 = e.start.value.1.after calls ∧
      ∀ answer, ((e.start.value.1.after calls).edit edit).value.2 ≠ .done answer) ∧
    (∀ records, ((e.start.value.1.after calls).applyRecords records).value =
      (e.start.value.1.after calls, [])) ∧
    (e.start.value.1.after calls).stop.value = { e.start.value.1.after calls with run := none } ∧
    (e.start.value.1.after calls).stop.value.start.value =
      ({ e.start.value.1.after calls with run := some (Run.start e.choreography) }, .done ()) := by
  have hstart := start_of_idle hidle hfits
  have hopen : e.start.value.1.Locked e.choreography := by
    rw [hstart]
    exact ⟨rfl, rfl⟩
  have h := hopen.after hstop
  refine ⟨hstart, rfl, h.choreography, fun edit hthere => ?_, fun edit => ?_, fun records => ?_,
    value_stop _, h.restart hfits⟩
  · exact edit_of_running h.running (h.choreography ▸ hthere)
  · exact edit_rejected h.running edit
  · exact applyRecords_of_running h.running records

/-- What is tried while the sample is simulated: firings, edits, records of an event, a second
start. -/
def trials : List (Call String) :=
  [.fire "e0", .edit (.deleteEvent "e2"), .generate, .fire "e1", .start,
    .edit (.createContainer { form := .nest .choice, children := ["e0", "e1"] }),
    .applyRecords [("e0", { label := "x", initiators := ["P"] })], .edit (.setSecurity "open")]

theorem locked_after_trials :
    ({ choreography := Sample.choreography } : Editor String).run = none ∧
    Run.fits (Sample.choreography : Choreography String) = true ∧
    (.stop : Call String) ∉ trials ∧
    (({ choreography := Sample.choreography } : Editor String).start.value.1.after
      trials).history = ["e0", "e1"] ∧
    (({ choreography := Sample.choreography } : Editor String).start.value.1.after
      trials).choreography = Sample.choreography ∧
    (({ choreography := Sample.choreography } : Editor String).start.value.1.after
      trials).stop.value.start.value =
        ({ ({ choreography := Sample.choreography } : Editor String).start.value.1.after trials with
          run := some (Run.start Sample.choreography) }, .done ()) := by
  have hstop : (.stop : Call String) ∉ trials := by decide +kernel
  obtain ⟨-, -, hsame, -, -, -, -, hagain⟩ :=
    locked_after (e := { choreography := Sample.choreography }) rfl (Run.fits_texts _) hstop
  exact ⟨rfl, Run.fits_texts _, hstop, by decide +kernel, hsame, hagain⟩

end Dcr.Editor
