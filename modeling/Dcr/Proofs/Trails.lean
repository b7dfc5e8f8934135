import Dcr.Proofs.Runs

/-! Events that are excluded and may fire. At the start of a run no event is both, and effects of
exclusions and inclusions write both flags alike. An effect of a condition makes its target
executable and leaves it excluded, so what decides is which of these effects came last. The effects
that have come to an event are those along the trail of the run, also where a firing stops midway at
a target that is not there. -/

namespace Dcr

variable {τ : Type} [FreeText τ]

/-! ## Effects on both flags -/

namespace Effect

/-- The last of some effects that is about being executable. -/
def latest (effects : List Effect) : Option Effect :=
  (effects.filter fun x => x.executable?.isSome).getLast?

@[simp] theorem latest_nil : latest [] = none := rfl

@[simp] theorem latest_concat (effects : List Effect) (x : Effect) :
    latest (effects ++ [x]) = if x.executable?.isSome then some x else latest effects := by
  unfold latest
  rw [List.filter_append]
  cases h : x.executable?.isSome <;> simp [h]

theorem mem_of_latest {effects : List Effect} {x : Effect} (h : latest effects = some x) :
    x ∈ effects :=
  (List.mem_filter.mp (List.mem_of_getLast? h)).1

/-- Where effects leave a marking executable and not included, the last of them that is about being
executable has only made it so. -/
theorem latest_of_outcome {m : Marking} (hm : m.executable = true → m.included = true)
    {effects : List Effect} (hx : (outcome m effects).executable = true)
    (hi : (outcome m effects).included = false) : latest effects = some .enabled := by
  induction effects using List.reverseRecOn with
  | nil =>
    rw [outcome_nil] at hx hi
    rw [hm hx] at hi
    cases hi
  | append_singleton effects x ih =>
    rw [← apply_outcome] at hx hi
    rw [latest_concat]
    cases x with
    | excluded => cases hx
    | included => cases hi
    | enabled => rfl
    | pending => exact ih hx hi

theorem executable_of_latest {m : Marking} {effects : List Effect}
    (h : latest effects = some .enabled) : (outcome m effects).executable = true := by
  induction effects using List.reverseRecOn with
  | nil => cases h
  | append_singleton effects x ih =>
    rw [latest_concat] at h
    rw [← apply_outcome]
    cases x with
    | excluded => cases h
    | included => rfl
    | enabled => rfl
    | pending => exact ih h

end Effect

open Effect (latest outcome)

namespace Choreography

variable {c : Choreography τ} {E : List (Relation τ)} {id : String}

theorem mem_effectsOn {x : Effect} :
    x ∈ effectsOn id E ↔ ∃ r ∈ E, r.target = id ∧ r.type.effect? = some x := by
  simp [effectsOn, and_assoc]

/-- No event enters a run excluded and executable. -/
theorem entering_included {e : Event τ} (h : (c.entering e).executable = true) :
    (c.entering e).included = true :=
  (Bool.and_eq_true_iff.mp h).1

end Choreography

/-! ## What comes out of a firing -/

namespace Run

open Choreography

variable {c : Choreography τ} {E R : List (Relation τ)} {fired : List String} {r : Run τ}
  {id : String}

/-- The relations along which an attempt to fire an event has effects: those of an executable event,
up to the first whose target is not there. -/
def reached (r : Run τ) (id : String) : List (Relation τ) :=
  match r.model.events.get? id with
  | none => []
  | some e =>
    if e.marking.executable then
      (r.model.outgoing id).takeWhile fun s => r.model.hasNode s.target
    else []

/-- The relations along which some attempts to fire an event each have effects, in their order. -/
def trail (r : Run τ) : List String → List (Relation τ)
  | [] => []
  | id :: rest => r.reached id ++ (r.fire id).value.1.trail rest

theorem trail_concat (r : Run τ) (ids : List String) (id : String) :
    r.trail (ids ++ [id]) = r.trail ids ++ (r.after ids).reached id := by
  induction ids generalizing r with
  | nil => simp [trail, after]
  | cons j rest ih =>
    rw [List.cons_append, trail, trail, ih, List.append_assoc]
    rfl

theorem mem_reached {s : Relation τ} (h : s ∈ r.reached id) :
    s ∈ r.model.relations.entries ∧ s.source = id := by
  unfold reached at h
  split at h
  · cases h
  · split at h
    · have hout : s ∈ r.model.outgoing id := (List.takeWhile_prefix _).subset h
      simpa [outgoing] using hout
    · cases h

/-- Effects come to their targets up to the first that is not there. -/
theorem fst_deliver_marked :
    (deliver (c.marked E fired) R).1 =
      c.marked (E ++ R.takeWhile fun s => c.hasNode s.target) fired := by
  induction R generalizing E with
  | nil => simp [deliver]
  | cons s rest ih =>
    have hnext := ih (E := E ++ [s])
    rw [List.append_assoc, List.singleton_append] at hnext
    unfold deliver
    rw [hasNode_marked, List.takeWhile_cons]
    by_cases hs : c.hasNode s.target = true
    · rw [if_pos hs, if_pos hs, ← hnext]
      cases hx : s.type.effect? with
      | none => rw [marked_concat_of_none hx]
      | some x => simp only [updateMarking_marked hx]
    · rw [if_neg hs, if_neg hs, List.append_nil]

/-- An attempt to fire an event changes markings by what it reaches, whether it comes to an end or
stops midway. -/
theorem model_fire (hr : r.model = c.marked E r.history) (id : String) :
    (r.fire id).value.1.model = c.marked (E ++ r.reached id) (r.fire id).value.1.history := by
  unfold fire reached
  cases he : r.model.events.get? id with
  | none => simpa using hr
  | some e =>
    by_cases hx : e.marking.executable = true
    · have hreached : (r.model.outgoing id).takeWhile (fun s => r.model.hasNode s.target) =
          (c.outgoing id).takeWhile fun s => c.hasNode s.target := by
        simp only [hr, outgoing_marked, hasNode_marked]
      have hmodel : (deliver r.model (r.model.outgoing id)).1 =
          c.marked (E ++ (c.outgoing id).takeWhile fun s => c.hasNode s.target) r.history := by
        rw [hr]
        exact fst_deliver_marked
      simp only [if_pos hx, hreached]
      rcases hd : deliver r.model (r.model.outgoing id) with ⟨d, verdict⟩
      rw [hd] at hmodel
      subst hmodel
      cases verdict with
      | done told => simp only [marked, modify_eventMarked]
      | refused => rfl
      | stopped o => rfl
    · simpa [hx] using hr

/-! ## Runs of every choreography -/

/-- The trail and the history of a run tell its snapshot, whatever is tried and wherever relations
lead. -/
theorem model_after_trail (c : Choreography τ) (ids : List String) :
    ((start c).after ids).model =
      c.marked ((start c).trail ids) ((start c).after ids).history := by
  induction ids using List.reverseRecOn with
  | nil => exact model_start
  | append_singleton ids id ih =>
    rw [after_concat, trail_concat]
    exact model_fire ih id

/-- Along the trail of a run are relations of the choreography that go out of what is tried. -/
theorem mem_trail {ids : List String} {s : Relation τ} (h : s ∈ (start c).trail ids) :
    s ∈ c.relations.entries ∧ s.source ∈ ids := by
  induction ids using List.reverseRecOn with
  | nil => cases h
  | append_singleton ids id ih =>
    rw [trail_concat, List.mem_append] at h
    rcases h with h | h
    · exact ⟨(ih h).1, List.mem_append_left _ (ih h).2⟩
    · obtain ⟨hs, rfl⟩ := mem_reached h
      rw [model_after_trail] at hs
      exact ⟨hs, List.mem_append_right _ (List.mem_singleton_self _)⟩

theorem exists_eventMarked {ids : List String} {e : Event τ}
    (he : e ∈ ((start c).after ids).model.events.entries) :
    ∃ e₀ ∈ c.events.entries,
      c.eventMarked ((start c).trail ids) ((start c).after ids).history e₀ = e := by
  rw [model_after_trail] at he
  exact List.mem_map.mp he

/-- After every run of every choreography, an event that is not included is executable if and only
if, of the effects along the trail that exclude it, include it or make it executable, the last is
one that makes it executable; so it is led to by a condition whose source was tried. No other event
that is not included is fired: an attempt is refused and changes nothing. -/
theorem executable_excluded_after (c : Choreography τ) (ids : List String) {e : Event τ}
    (he : e ∈ ((start c).after ids).model.events.entries) (hi : e.marking.included = false) :
    (e.marking.executable = true ↔
      latest (effectsOn e.id ((start c).trail ids)) = some .enabled) ∧
    (e.marking.executable = true →
      ∃ r ∈ c.relations.entries, r.type = .condition ∧ r.target = e.id ∧ r.source ∈ ids) ∧
    (e.marking.executable = false →
      (((start c).after ids).fire e.id).value = ((start c).after ids, .refused)) := by
  obtain ⟨e₀, -, rfl⟩ := exists_eventMarked he
  have hlatest : (outcome (c.entering e₀) (effectsOn e₀.id ((start c).trail ids))).executable =
      true → latest (effectsOn e₀.id ((start c).trail ids)) = some .enabled :=
    fun hx => Effect.latest_of_outcome entering_included hx hi
  refine ⟨⟨hlatest, Effect.executable_of_latest⟩, fun hx => ?_, fun hx => ?_⟩
  · obtain ⟨r, hr, htarget, heffect⟩ := mem_effectsOn.mp (Effect.mem_of_latest (hlatest hx))
    obtain ⟨hmem, hsource⟩ := mem_trail hr
    exact ⟨r, hmem, by cases ht : r.type <;> simp_all [RelationType.effect?], htarget, hsource⟩
  · exact fire_of_not_executable (Store.get?_eq_some_iff.mpr ⟨he, rfl⟩) hx

/-- The sample with a second event that is excluded from the start. -/
def withheld : Choreography String :=
  { Sample.choreography with
    events := .ofList [Sample.readDocument,
      { (Sample.submit : Event String) with marking := { included := false } }, Sample.accept] }

/-- The second event of the sample once the first has fired. -/
def unlocked : Event String :=
  { (Sample.submit : Event String) with marking := { included := false, executable := true } }

theorem executable_excluded_withheld :
    unlocked ∈ ((start withheld).after ["e0"]).model.events.entries ∧
    unlocked.marking.included = false ∧
    latest (effectsOn "e1" ((start withheld).trail ["e0"])) = some .enabled := by
  have he : unlocked ∈ ((start withheld).after ["e0"]).model.events.entries := by decide +kernel
  exact ⟨he, rfl, (executable_excluded_after withheld ["e0"] he rfl).1.mp rfl⟩

/-- An excluded event may be executable, and then it fires. -/
theorem not_executable_included :
    (¬ ∀ (c : Choreography String) (ids : List String),
      ∀ e ∈ ((start c).after ids).model.events.entries,
        e.marking.executable = true → e.marking.included = true) ∧
    ¬ ∀ (c : Choreography String) (ids : List String),
      ∀ e ∈ ((start c).after ids).model.events.entries, e.marking.included = false →
        (((start c).after ids).fire e.id).value.2 ≠ .done () := by
  have he : unlocked ∈ ((start withheld).after ["e0"]).model.events.entries := by decide +kernel
  refine ⟨fun h => ?_, fun h => ?_⟩
  · exact absurd (h withheld ["e0"] unlocked he rfl) (by decide)
  · exact h withheld ["e0"] unlocked he rfl (by decide +kernel)

end Run

end Dcr
