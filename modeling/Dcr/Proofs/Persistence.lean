import Dcr.Proofs.Counters
import Dcr.Proofs.Reloading
import Dcr.Proofs.Replies

/-! Persistence. What a session leaves can be stored in a document and loaded again, and whatever
comes later answers on what was loaded as it would have answered. -/

namespace Dcr.Editor

open Choreography (Storable)

/-- What a session leaves can be stored if it labels its nodes. -/
theorem storable_after {e : Editor String} (h : e.Opening) {calls : List (Call String)}
    (hs : e.smooth calls = true)
    (hlength : calls.length + 3 ≤ 10 ^ Text.mostDigits)
    (hlabels : ∀ n ∈ (e.after calls).choreography.nodes, n.label ≠ "") :
    (e.after calls).choreography.Storable := by
  have horderly := orderly_after_smooth h hs
  have hnumbered := horderly.placed.numbered
  refine ⟨horderly, lasting_after h calls, hlabels, fun n hn => ?_⟩
  obtain ⟨m, hm⟩ := hnumbered.named n hn
  have hlt := (counted_after h calls).lt hnumbered hn hm
  rw [Node.number_eq hm]
  omega

/-- An editor of a choreography and the same editor of a twin are twins. -/
theorem twins_of_choreography {e : Editor String} {d : Choreography String}
    (h : e.choreography.Twins d) :
    Twins e { e with choreography := d } := by
  refine ⟨h, ?_, rfl⟩
  show Option.Rel Run.Twins e.run e.run
  cases e.run with
  | none => exact .none
  | some run => exact .some ⟨run.model.ids, rfl⟩

/-- What a session leaves, if no creation of a container stops midway in it and every node is
labelled, is loaded from its document with nothing dropped and nothing to warn of. Only the pools
are made anew; they can hand out the same numbers as before, so an editor replies to any later calls
as if nothing had been loaded. Only numbers of at most `Text.mostDigits` digits are read, and a
session with fewer calls than there are such numbers makes no others. -/
theorem reload_after {e : Editor String} (h : e.Opening) {calls : List (Call String)}
    (hs : e.smooth calls = true)
    (hlength : calls.length + 3 ≤ 10 ^ Text.mostDigits)
    (hlabels : ∀ n ∈ (e.after calls).choreography.nodes, n.label ≠ "") :
    ∃ d : Choreography String,
      (loadJson (e.after calls).choreography.document.toJson).value = .ok d ∧
      (∀ n ∈ (loadJson (e.after calls).choreography.document.toJson :
        Logged (Except DocumentError (Choreography String))).log, n.level = .debug) ∧
      d = { (e.after calls).choreography with ids := d.ids } ∧
      (∀ kind n, (d.ids.get kind).Available n ↔
        ((e.after calls).choreography.ids.get kind).Available n) ∧
      ∀ f : Editor String, f.choreography = (e.after calls).choreography → ∀ more,
        replies { f with choreography := d } more = f.replies more ∧
          Twins (f.after more) (after { f with choreography := d } more) := by
  obtain ⟨d, hvalue, htwins, hlog⟩ := (storable_after h hs hlength hlabels).load
  refine ⟨d, hvalue, hlog, htwins.rest, htwins.same.available, fun f hf more => ?_⟩
  exact replies_of_twins (twins_of_choreography (hf ▸ htwins)) more

/-- A session that puts a choice around two events of the sample and deletes the third one. -/
def pruning : List (Call String) :=
  [.edit (.createContainer { form := .nest .choice, children := ["e0", "e1"] }),
    .edit (.deleteEvent "e2")]

/-- The choreography that the session makes of the sample. -/
def pruned : Choreography String :=
  (after { choreography := Sample.choreography } pruning).choreography

/-- The counter of events, which the session leaves at three with two taken back, is two after
loading. -/
theorem reload_after_pruning : pruned.ids.event = { stem := "e", next := 3, free := [2] } ∧
    ∃ d : Choreography String, (loadJson pruned.document.toJson).value = .ok d ∧
      d.ids.event = { stem := "e", next := 2 } ∧ d.containers = pruned.containers ∧
      ∀ more, replies { choreography := d } more = replies { choreography := pruned } more := by
  obtain ⟨d, hvalue, _, hrest, _, hreplies⟩ :=
    @reload_after { choreography := Sample.choreography } (.inr rfl) pruning
      (by decide +kernel) (by decide +kernel) (by decide +kernel)
  have hcounter :
      ((loadJson pruned.document.toJson).value.map fun d : Choreography String => d.ids.event) =
        .ok { stem := "e", next := 2 } := by decide +kernel
  have hcontainers : d.containers = pruned.containers := by
    rw [hrest]
    rfl
  refine ⟨by decide +kernel, d, hvalue, ?_, hcontainers, fun more => ?_⟩
  · rw [show (loadJson pruned.document.toJson).value = .ok d from hvalue] at hcounter
    exact Except.ok.inj hcounter
  · exact (hreplies { choreography := pruned } rfl more).1

end Dcr.Editor
