import Dcr.Proofs.Sessions

/-! Containment after every session is a forest whose leaves are events. Calls that stop midway are
among the calls of a session. -/

namespace Dcr

variable {τ : Type} [FreeText τ]

namespace Choreography

variable {c : Choreography τ}

/-- Containment as a forest: parents are containers, every walk upwards ends at the top level, no
container is above itself, none is empty, and an event is below each. -/
structure Forest (c : Choreography τ) : Prop where
  parents : ∀ n ∈ c.nodes, ∀ k, n.parent = some k → c.containers.contains k = true
  grounded : ∀ n ∈ c.nodes, Grounded c.up n.parent
  acyclic : ∀ x ∈ c.containers.entries, ¬ Above c.up x.id x.parent
  inhabited : ∀ x ∈ c.containers.entries, c.children x.id ≠ []
  eventful : ∀ x ∈ c.containers.entries, ∃ e ∈ c.events.entries, Above c.up x.id e.parent

theorem Placed.forest (h : c.Placed ∅) : c.Forest where
  parents n hn k hp := h.contains_parent hn hp
  grounded := h.grounded
  acyclic x hx := (h.grounded _ (container_mem_nodes.mpr hx)).not_above_self (up_container hx)
  inhabited x hx := h.inhabited x.id (Store.contains_of_mem hx) (by simp)
  eventful x hx := exists_event h.numbered.apart h.grounded
    (fun y hy => h.inhabited y.id (Store.contains_of_mem hy) (by simp)) _ x hx (Nat.le_refl _)

end Choreography

namespace Editor

/-- Containment is a forest after every session, whatever is asked for and whatever the calls
answer. -/
theorem forest_after [DecidableEq τ] {e : Editor τ} (h : e.Opening) (calls : List (Call τ)) :
    (e.after calls).choreography.Forest :=
  (orderly_after h calls).placed.forest

/-- A session that puts a nest around an event of the sample and a subprocess around the nest. -/
theorem forest_after_nesting :
    Opening { choreography := (Sample.choreography : Choreography String) } ∧
    (after { choreography := (Sample.choreography : Choreography String) }
      [.edit (.createContainer { form := .nest .choice, children := ["e0"] }),
        .edit (.createContainer
          { form := .subprocess, children := ["n0"] })]).choreography.Forest :=
  ⟨.inr rfl, forest_after (.inr rfl) _⟩

end Editor

end Dcr
