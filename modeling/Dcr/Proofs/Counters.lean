import Dcr.Proofs.Steps

/-! Counters. A call makes at most one id, so the counters of the pools, and with them the numbers
of all nodes, are bounded by the number of calls. -/

namespace Dcr

variable {τ : Type} [FreeText τ]

/-! ## Pools -/

namespace IdPool

theorem next_allocate (p : IdPool) : p.allocate.2.next ≤ p.next + 1 := by
  unfold allocate
  split
  · show p.next ≤ p.next + 1
    omega
  · exact Int.le_refl _

theorem next_release (p : IdPool) (n : Int) : (p.release n).next = p.next := by
  unfold release
  split <;> rfl

end IdPool

namespace IdPools

/-- The counters of the pools. -/
def counters (p : IdPools) (kind : NodeKind) : Int := (p.get kind).next

theorem counters_release (p : IdPools) (kind : NodeKind) (id : String) :
    (p.release kind id).counters = p.counters := by
  funext j
  unfold counters IdPools.release
  split
  · rw [get_set]
    split
    · next he => rw [IdPool.next_release, he]
    · rfl
  · rfl

/-- No counter exceeds a number. -/
def Below (N : Nat) (p : IdPools) : Prop := ∀ kind, (p.get kind).next ≤ N

variable {p : IdPools} {N : Nat}

theorem Below.mono (h : p.Below N) {M : Nat} (hM : N ≤ M) : p.Below M := fun kind => by
  have := h kind
  omega

theorem Below.allocate (h : p.Below N) (kind : NodeKind) : (p.allocate kind).2.Below (N + 1) := by
  intro j
  have hj := h j
  have hnext := (p.get kind).next_allocate
  show ((p.set kind (p.get kind).allocate.2).get j).next ≤ _
  rw [get_set]
  split
  · next he =>
    subst he
    omega
  · omega

theorem Below.release (h : p.Below N) (kind : NodeKind) (id : String) :
    (p.release kind id).Below N := fun j =>
  (congrFun (counters_release p kind id) j).trans_le (h j)

end IdPools

/-! ## Edits -/

namespace Choreography

variable {c : Choreography τ} {N : Nat}

/-- No counter of a choreography exceeds a number. -/
def Counted (N : Nat) (c : Choreography τ) : Prop := c.ids.Below N

/-- The numbers of nodes are below every bound of the counters. -/
theorem Counted.lt (h : c.Counted N) (hn : c.Numbered) {n : Node τ} (hmem : n ∈ c.nodes) {m : Nat}
    (hm : n.id = n.kind.ident m) : m < N := by
  have hbelow := h n.kind
  by_contra hle
  have hout : ¬ c.hasNode (n.kind.ident m) = true :=
    (hn.free n.kind m).mp (IdPools.free_ident.mpr (.inr (by omega)))
  exact hout (hm ▸ hasNode_of_mem hmem)

/-- The steps of an edit that make no id move no counter. -/
theorem kept_counters (P : (NodeKind → Int) → Prop) :
    Kept fun c : Choreography τ => P c.ids.counters where
  relate R h := h
  place id p h := by
    unfold Choreography.setParent
    split <;> exact h
  drop x h := (IdPools.counters_release ..).symm ▸ h
  erase id h := by
    unfold eraseNode
    split <;> exact h
  release {c} nodes h := by
    induction nodes generalizing c with
    | nil => exact h
    | cons n rest ih =>
      exact ih (c := { c with ids := c.ids.release n.kind n.id })
        ((IdPools.counters_release ..).symm ▸ h)

theorem kept_counted (N : Nat) : Kept (Counted (τ := τ) N) :=
  kept_counters fun next => ∀ kind, next kind ≤ N

theorem Counted.updateEvent (h : c.Counted N) (id : String) (content : EventContent τ) :
    (c.updateEvent id content).value.1.Counted N := by
  unfold Choreography.updateEvent
  split <;> exact h

/-- An edit moves a counter by one at most. -/
theorem Counted.perform (h : c.Counted N) (edit : Edit τ) :
    (edit.perform c).value.1.Counted (N + 1) := by
  have hsame : c.Counted (N + 1) := h.mono (Nat.le_succ N)
  refine (kept_counted (N + 1)).perform hsame edit (fun _ _ => h.allocate .event)
    (fun w _ => h.allocate w.kind.node) (fun _ _ _ _ => hsame) (fun _ kind type x _ _ _ => ?_)
    hsame.updateEvent (fun _ label marking => ?_) fun haside => ?_
  · exact (h.allocate (ContainerForm.ofKind kind type).kind.node).release x.kind.node x.id
  · cases label <;> cases marking <;> exact hsame
  · obtain ⟨_, _, _, he⟩ := perform_aside (c := c) haside
    rw [he]
    exact hsame

end Choreography

/-! ## Sessions -/

namespace Editor

open Choreography (Counted)

variable {e : Editor τ} {N : Nat}

theorem counted_call [DecidableEq τ] (h : e.choreography.Counted N) (call : Call τ) :
    (e.call call).value.choreography.Counted (N + 1) :=
  call_rule (P := Counted (N + 1)) (h.mono (Nat.le_succ N)) call
    (fun _ id content hc _ => hc.updateEvent id content)
    fun edit _ _ _ => h.perform edit

theorem counted_from [DecidableEq τ] (h : e.choreography.Counted N) (calls : List (Call τ)) :
    (e.after calls).choreography.Counted (N + calls.length) := by
  induction calls generalizing e N with
  | nil => exact h
  | cons call rest ih =>
    have hrest := ih (counted_call h call)
    rwa [Nat.add_right_comm, Nat.add_assoc] at hrest

/-- The sample has handed out three numbers, and a session hands out at most one more a call. -/
theorem counted_after [DecidableEq τ] (h : e.Opening) (calls : List (Call τ)) :
    (e.after calls).choreography.Counted (calls.length + 3) := by
  have hopening : e.choreography.Counted 3 := by
    have hnew : ({} : IdPools).Below 3 := fun kind => by cases kind <;> decide
    have hsample : IdPools.Below 3 { event := { stem := "e", next := 3 } } := fun kind => by
      cases kind <;> decide
    rcases h with rfl | rfl
    · exact hnew
    · exact hsample
  exact Nat.add_comm 3 calls.length ▸ counted_from hopening calls

end Editor

end Dcr
