import Dcr.Proofs.Nodes
import Dcr.Sample
import Dcr.Simulation
import Mathlib.Data.List.Induction

/-! Runs in closed form. What a run has come to is told by the events fired so far: the last effect
on a node that is about a flag decides the flag, whatever was fired before it. The snapshot is a
function of the history, and each delivered effect and each firing extends what it is a function
of. -/

namespace Dcr

variable {τ : Type} [FreeText τ]

/-! ## The last word on a flag -/

namespace Effect

/-- What an effect makes of being included. -/
def included? : Effect → Option Bool
  | excluded => some false
  | included => some true
  | enabled => none
  | pending => none

/-- What an effect makes of being executable. -/
def executable? : Effect → Option Bool
  | excluded => some false
  | included => some true
  | enabled => some true
  | pending => none

/-- What the last of some effects that is about a flag makes of it. -/
def lastWord (flag? : Effect → Option Bool) (effects : List Effect) : Option Bool :=
  (effects.filterMap flag?).getLast?

@[simp] theorem lastWord_nil (flag? : Effect → Option Bool) : lastWord flag? [] = none := rfl

@[simp] theorem lastWord_concat (flag? : Effect → Option Bool) (effects : List Effect)
    (x : Effect) :
    lastWord flag? (effects ++ [x]) = (flag? x).or (lastWord flag? effects) := by
  unfold lastWord
  rw [List.filterMap_append]
  cases h : flag? x <;> simp [h]

/-- The marking that some effects lead to. No effect takes back that a node is pending. -/
def outcome (m : Marking) (effects : List Effect) : Marking where
  included := (lastWord included? effects).getD m.included
  pending := m.pending || effects.contains .pending
  executable := (lastWord executable? effects).getD m.executable
  executed := m.executed

@[simp] theorem outcome_nil (m : Marking) : outcome m [] = m := by
  simp [outcome]

/-- One more effect changes the marking as it would change any. -/
theorem apply_outcome (x : Effect) (m : Marking) (effects : List Effect) :
    x.apply (outcome m effects) = outcome m (effects ++ [x]) := by
  cases x <;> simp [apply, outcome, included?, executable?]

end Effect

open Effect (outcome)
open Keyed (key)

namespace Choreography

variable {c : Choreography τ} {E R : List (Relation τ)} {fired : List String} {r : Relation τ}
  {id : String}

/-! ## Snapshots in closed form -/

/-- The effects that come to a node along some relations, in their order. -/
def effectsOn (id : String) (E : List (Relation τ)) : List Effect :=
  (E.filter fun r => r.target == id).filterMap fun r => r.type.effect?

/-- The marking with which an event enters a run: it is executable if it is included and no
condition or milestone leads to it. -/
def entering (c : Choreography τ) (e : Event τ) : Marking where
  included := e.marking.included
  pending := e.marking.pending
  executable := e.marking.included && !c.relations.entries.any fun r =>
    (r.type == .condition || r.type == .milestone) && r.target == e.id
  executed := false

/-- What becomes of an event under the effects along some relations, once some events have fired. -/
def eventMarked (c : Choreography τ) (E : List (Relation τ)) (fired : List String) (e : Event τ) :
    Event τ :=
  { e with
    marking := { outcome (c.entering e) (effectsOn e.id E) with executed := fired.contains e.id } }

/-- What becomes of a container. What comes to an id that an event has too comes to the event. -/
def containerMarked (c : Choreography τ) (E : List (Relation τ)) (x : Container τ) : Container τ :=
  if c.events.contains x.id then x
  else { x with marking := outcome x.marking (effectsOn x.id E) }

theorem key_eventMarked (e : Event τ) : key (c.eventMarked E fired e) = key e := rfl

theorem key_containerMarked (x : Container τ) : key (c.containerMarked E x) = key x := by
  unfold containerMarked
  split <;> rfl

/-- The choreography under the effects along some relations, once some events have fired. Nothing
but markings is changed. -/
def marked (c : Choreography τ) (E : List (Relation τ)) (fired : List String) : Choreography τ :=
  { c with
    events := c.events.update (c.eventMarked E fired) key_eventMarked
    containers := c.containers.update (c.containerMarked E) key_containerMarked }

/-- The snapshot that a history leads to: its events have sent out the effects along their
relations, one event after the other. -/
def snapshot (c : Choreography τ) (history : List String) : Choreography τ :=
  c.marked (history.flatMap c.outgoing) history

theorem contains_marked (id : String) :
    (c.marked E fired).events.contains id = c.events.contains id :=
  Store.contains_update _ key_eventMarked

theorem hasNode_marked (id : String) : (c.marked E fired).hasNode id = c.hasNode id := by
  have hcontainers : (c.marked E fired).containers.contains id = c.containers.contains id :=
    Store.contains_update _ key_containerMarked
  rw [hasNode_eq, hasNode_eq, contains_marked, hcontainers]

theorem outgoing_marked (id : String) : (c.marked E fired).outgoing id = c.outgoing id := rfl

@[simp] theorem effectsOn_concat :
    effectsOn id (E ++ [r]) =
      effectsOn id E ++ if r.target = id then r.type.effect?.toList else [] := by
  unfold effectsOn
  rw [List.filter_append, List.filterMap_append]
  by_cases h : r.target = id
  · cases ht : r.type.effect? <;> simp [h, ht]
  · simp [h]

/-! ## One effect -/

theorem eventMarked_concat {e : Event τ} {x : Effect} (h : r.type.effect? = some x) :
    c.eventMarked (E ++ [r]) fired e =
      if e.id = r.target then
        { c.eventMarked E fired e with marking := x.apply (c.eventMarked E fired e).marking }
      else c.eventMarked E fired e := by
  split
  · next he =>
    have hone : effectsOn e.id (E ++ [r]) = effectsOn e.id E ++ [x] := by simp [he, h]
    rw [eventMarked, hone, ← Effect.apply_outcome]
    cases x <;> rfl
  · next he =>
    have hsame : effectsOn e.id (E ++ [r]) = effectsOn e.id E := by simp [Ne.symm he]
    rw [eventMarked, hsame, eventMarked]

theorem containerMarked_concat {y : Container τ} {x : Effect} (h : r.type.effect? = some x) :
    c.containerMarked (E ++ [r]) y =
      if y.id = r.target ∧ c.events.contains r.target = false then
        { c.containerMarked E y with marking := x.apply (c.containerMarked E y).marking }
      else c.containerMarked E y := by
  unfold containerMarked
  by_cases hy : y.id = r.target
  · cases he : c.events.contains r.target
    · simp [hy, he, h, Effect.apply_outcome]
    · simp [hy, he]
  · simp [hy, Ne.symm hy]

/-- A relation without an effect leaves everything as it is. -/
theorem marked_concat_of_none (h : r.type.effect? = none) :
    c.marked (E ++ [r]) fired = c.marked E fired := by
  have hsame : ∀ id, effectsOn id (E ++ [r]) = effectsOn id E := fun id => by simp [h]
  unfold marked
  congr 1
  · exact Store.ext (List.map_congr_left fun e _ => by simp only [eventMarked, hsame])
  · exact Store.ext (List.map_congr_left fun y _ => by simp only [containerMarked, hsame])

/-- An effect that is brought to its target is one more effect. -/
theorem updateMarking_marked {x : Effect} (h : r.type.effect? = some x) :
    (c.marked E fired).updateMarking r.target x.apply = c.marked (E ++ [r]) fired := by
  unfold updateMarking
  rw [contains_marked]
  split
  · next hevent =>
    unfold marked
    congr 1
    · refine Store.ext ((Store.entries_modify_update _ _ key_eventMarked _).trans ?_)
      refine List.map_congr_left fun e _ => ?_
      simp [eventMarked_concat h]
    · refine Store.ext (List.map_congr_left fun y _ => ?_)
      simp [containerMarked_concat h, hevent]
  · next hevent =>
    unfold marked
    congr 1
    · refine Store.ext (List.map_congr_left fun e he => ?_)
      have hne : e.id ≠ r.target := fun hid => hevent (Store.contains_iff.mpr ⟨e, he, hid⟩)
      rw [eventMarked_concat h, if_neg hne]
    · refine Store.ext ((Store.entries_modify_update _ _ key_containerMarked _).trans ?_)
      refine List.map_congr_left fun y _ => ?_
      simp [containerMarked_concat h, hevent]

/-- A firing marks its event as executed, which no effect does. -/
theorem modify_eventMarked (id : String) :
    ((c.events.update (c.eventMarked E fired) key_eventMarked).modify id fun e =>
      { e with marking := { e.marking with executed := true } }) =
      c.events.update (c.eventMarked E (fired ++ [id])) key_eventMarked := by
  refine Store.ext ((Store.entries_modify_update _ _ key_eventMarked _).trans ?_)
  refine List.map_congr_left fun e _ => ?_
  by_cases he : e.id = id <;> simp [eventMarked, he]

end Choreography

/-! ## Steps of a run -/

namespace Run

open Choreography

variable {c : Choreography τ} {E : List (Relation τ)} {fired : List String} {r : Run τ} {id : String}

theorem model_start : (start c).model = c.snapshot [] := by
  have hevents : c.events.update (fun e => { e with marking := initialMarking c e }) =
      c.events.update (c.eventMarked [] []) key_eventMarked := by
    refine Store.ext (List.map_congr_left fun e _ => ?_)
    simp [eventMarked, initialMarking, entering, isGated, RelationType.gates, effectsOn]
  have hcontainers : c.containers = c.containers.update (c.containerMarked []) key_containerMarked :=
    Store.ext ((List.map_id _).symm.trans (List.map_congr_left fun y _ => by
      simp [containerMarked, effectsOn]))
  show { c with events := _, containers := c.containers } = c.marked [] []
  rw [hevents, marked, ← hcontainers]

/-- Effects along relations whose targets are there all come to them. -/
theorem deliver_marked {R : List (Relation τ)} (hR : ∀ r ∈ R, c.hasNode r.target = true) :
    ∃ told, deliver (c.marked E fired) R = (c.marked (E ++ R) fired, .done told) := by
  induction R generalizing E with
  | nil => exact ⟨[], by simp [deliver]⟩
  | cons r rest ih =>
    obtain ⟨hr, hrest⟩ := List.forall_mem_cons.mp hR
    obtain ⟨told, hdone⟩ := ih (E := E ++ [r]) hrest
    rw [List.append_assoc, List.singleton_append] at hdone
    unfold deliver
    rw [hasNode_marked, if_pos hr]
    cases hx : r.type.effect? with
    | none =>
      refine ⟨told, ?_⟩
      rw [← hdone, marked_concat_of_none hx]
    | some x =>
      refine ⟨(r.target, x) :: told, ?_⟩
      simp only [updateMarking_marked hx, hdone, Verdict.map]

/-- A firing adds to the history, and the snapshot follows. -/
theorem fire_of_executable (hc : ∀ r ∈ c.relations.entries, c.hasNode r.target = true)
    (hr : r.model = c.snapshot r.history) {e : Event τ} (he : r.model.events.get? id = some e)
    (hx : e.marking.executable = true) :
    (r.fire id).value =
      ({ model := c.snapshot (r.history ++ [id]), history := r.history ++ [id] }, .done ()) := by
  obtain ⟨told, hdone⟩ : ∃ told,
      deliver (c.marked (r.history.flatMap c.outgoing) r.history) (c.outgoing id) =
        (c.marked (r.history.flatMap c.outgoing ++ c.outgoing id) r.history, .done told) :=
    deliver_marked fun s hs => hc s (List.mem_filter.mp hs).1
  have hall : (r.history ++ [id]).flatMap c.outgoing =
      r.history.flatMap c.outgoing ++ c.outgoing id := by
    simp
  unfold fire
  simp only [he, hx, if_true]
  rw [hr, snapshot, outgoing_marked, hdone]
  simp only [snapshot, hall]
  simp only [marked, modify_eventMarked]

/-- An event that is not executable leaves the run as it was. -/
theorem fire_of_not_executable {e : Event τ} (he : r.model.events.get? id = some e)
    (hx : e.marking.executable = false) : (r.fire id).value = (r, .refused) := by
  unfold fire
  simp [he, hx]

/-! ## Runs -/

/-- The run after some attempts to fire an event each. -/
def after (r : Run τ) (ids : List String) : Run τ := ids.foldl (fun r id => (r.fire id).value.1) r

theorem after_concat (r : Run τ) (ids : List String) (id : String) :
    r.after (ids ++ [id]) = ((r.after ids).fire id).value.1 := by
  simp [after]

theorem get?_snapshot_of_contains {history : List String} (hid : c.events.contains id = true) :
    ∃ e, (c.snapshot history).events.get? id = some e := by
  rw [← Option.isSome_iff_exists, snapshot, ← Store.contains, contains_marked]
  exact hid

theorem model_after (hc : ∀ r ∈ c.relations.entries, c.hasNode r.target = true) {ids : List String}
    (hids : ∀ id ∈ ids, c.events.contains id = true) :
    ((start c).after ids).model = c.snapshot ((start c).after ids).history := by
  induction ids using List.reverseRecOn with
  | nil => exact model_start
  | append_singleton ids id ih =>
    obtain ⟨hbefore, hid⟩ := List.forall_mem_append.mp hids
    have hr := ih hbefore
    obtain ⟨e, he⟩ := get?_snapshot_of_contains (hid id (List.mem_singleton_self id))
    rw [← hr] at he
    rw [after_concat]
    cases hx : e.marking.executable with
    | true => rw [fire_of_executable hc hr he hx]
    | false =>
      rw [fire_of_not_executable he hx]
      exact hr

/-- A run of a choreography whose relations lead to nodes that are there. Its history is that of the
events that were executable when they were to be fired, no other attempt leaves a trace, and the
history tells the snapshot. -/
theorem closed_form_after (hc : ∀ r ∈ c.relations.entries,
      c.hasNode r.source = true ∧ c.hasNode r.target = true)
    {ids : List String} (hids : ∀ id ∈ ids, c.events.contains id = true) :
    (start c).history = [] ∧
    ((start c).after ids).model = c.snapshot ((start c).after ids).history ∧
    ∀ id, c.events.contains id = true →
      ∃ e, ((start c).after ids).model.events.get? id = some e ∧
      if e.marking.executable then
        (((start c).after ids).fire id).value.2 = .done () ∧
        ((start c).after (ids ++ [id])).history = ((start c).after ids).history ++ [id]
      else
        (((start c).after ids).fire id).value.2 = .refused ∧
        (start c).after (ids ++ [id]) = (start c).after ids := by
  have htargets : ∀ r ∈ c.relations.entries, c.hasNode r.target = true := fun r hr => (hc r hr).2
  have hmodel := model_after htargets hids
  refine ⟨rfl, hmodel, fun id hid => ?_⟩
  obtain ⟨e, he⟩ := get?_snapshot_of_contains hid
  rw [← hmodel] at he
  refine ⟨e, he, ?_⟩
  rw [after_concat]
  split
  · next hx =>
    rw [fire_of_executable htargets hmodel he hx]
    exact ⟨rfl, rfl⟩
  · next hx =>
    rw [fire_of_not_executable he (by simpa using hx)]
    exact ⟨rfl, rfl⟩

/-- The sample with a first event that excludes itself when it fires and makes a subprocess
pending. -/
def readOnce : Choreography String :=
  { Sample.choreography with
    containers := .ofList [{ id := "s0", label := "s0", form := .subprocess }]
    relations := .ofList [Sample.relation "e0" "e0" .exclusion, Sample.relation "e0" "s0" .response,
      Sample.relation "e0" "e1" .condition, Sample.relation "e1" "e2" .response] }

/-- A run in which an event is tried too early and the one that excludes itself is tried twice. -/
theorem closed_form_readOnce :
    (∀ r ∈ readOnce.relations.entries,
      readOnce.hasNode r.source = true ∧ readOnce.hasNode r.target = true) ∧
    (∀ id ∈ ["e1", "e0", "e0", "e1"], readOnce.events.contains id = true) ∧
    (start readOnce).history = [] ∧
    ((start readOnce).after ["e1", "e0", "e0", "e1"]).model =
      readOnce.snapshot ((start readOnce).after ["e1", "e0", "e0", "e1"]).history ∧
    ∀ id, readOnce.events.contains id = true →
      ∃ e, ((start readOnce).after ["e1", "e0", "e0", "e1"]).model.events.get? id = some e ∧
      if e.marking.executable then
        (((start readOnce).after ["e1", "e0", "e0", "e1"]).fire id).value.2 = .done () ∧
        ((start readOnce).after (["e1", "e0", "e0", "e1"] ++ [id])).history =
          ((start readOnce).after ["e1", "e0", "e0", "e1"]).history ++ [id]
      else
        (((start readOnce).after ["e1", "e0", "e0", "e1"]).fire id).value.2 = .refused ∧
        (start readOnce).after (["e1", "e0", "e0", "e1"] ++ [id]) =
          (start readOnce).after ["e1", "e0", "e0", "e1"] := by
  have hc : ∀ r ∈ readOnce.relations.entries,
      readOnce.hasNode r.source = true ∧ readOnce.hasNode r.target = true := by decide +kernel
  have hids : ∀ id ∈ ["e1", "e0", "e0", "e1"], readOnce.events.contains id = true := by
    decide +kernel
  exact ⟨hc, hids, closed_form_after hc hids⟩

/-- Each of the two events fires once. -/
example : ((start readOnce).after ["e1", "e0", "e0", "e1"]).history = ["e0", "e1"] := by
  decide +kernel

end Run

end Dcr
