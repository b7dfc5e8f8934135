import Dcr.Proofs.Entries

/-! Hidden relations. Looking after a container hides what it adopts or makes and shows what it lets
go, so a relation is hidden just if it belongs to a container, or it is an edge of the document that
no container has touched: whether an edge is hidden is taken from the document, and what a choice
keeps is not hidden again. -/

namespace Dcr

variable {τ : Type} [FreeText τ]

/-- A relation is hidden just if it belongs to a container. -/
def Relation.Discreet (r : Relation τ) : Prop := r.hidden = r.scope.isSome

/-- An edge is hidden just if it belongs to a container. -/
def EdgeEntry.Discreet (e : EdgeEntry τ) : Prop := e.hidden = e.scope.isSome

theorem Roster.Accepts.discreet_iff {roster : Roster τ} {e : EdgeEntry τ} {r : Relation τ}
    (h : roster.Accepts e r) : r.Discreet ↔ e.Discreet := by
  have hhidden : r.hidden = e.hidden := by rw [h.made]; rfl
  rw [Relation.Discreet, EdgeEntry.Discreet, hhidden, h.scope.1, Option.isSome_map]

namespace Choreography

variable {c : Choreography τ}

/-- Upkeep leaves a relation as it is or makes it discreet, and the exclusions it makes are. -/
theorem discreet_or_upkeep {Q : Relation τ → Prop}
    (h : ∀ r ∈ c.relations.entries, r.Discreet ∨ Q r) (k : String) :
    ∀ r ∈ (c.tended k).relations.entries, r.Discreet ∨ Q r :=
  forall_upkeep (Q := fun r => r.Discreet ∨ Q r) h (fun _ _ => .inl rfl) (fun _ _ _ _ => .inl rfl)
    fun _ _ => .inl rfl

end Choreography

namespace Document

variable {d : Document τ} {c : Choreography τ}

/-- What is loaded is discreet, or is an edge as the document has it. -/
theorem discreet_or_accepts (hc : d.load.value = .ok c) :
    ∀ r ∈ c.relations.entries, r.Discreet ∨
      ∃ e ∈ d.edges, (Roster.ofNodes d.nodes).Accepts e r :=
  load_rule (P := fun c => ∀ r ∈ c.relations.entries, r.Discreet ∨
      ∃ e ∈ d.edges, (Roster.ofNodes d.nodes).Accepts e r) hc
    (fun _ hcheck _ hr => .inr ((tells_of_check hcheck).edge hr))
    (fun _ k h => Choreography.discreet_or_upkeep h k)
    fun _ _ _ h _ _ r hr => h r (List.mem_of_mem_filter hr)

/-- In what is loaded a relation that belongs to a container is hidden and any other one is not,
unless it is an edge with the scope and the flag that the document gives it. So if each edge of the
document is hidden just if it has a scope, the same holds of each relation. -/
theorem discreet_of_load (hc : d.load.value = .ok c) :
    (∀ r ∈ c.relations.entries, (∀ e ∈ d.edges, e.relation? ≠ some r) →
      (∀ k, r.scope = some k → r.hidden = true) ∧ (r.scope = none → r.hidden = false)) ∧
    ((∀ e ∈ d.edges, e.hidden = e.scope.isSome) → ∀ r ∈ c.relations.entries,
      (∀ k, r.scope = some k → r.hidden = true) ∧ (r.scope = none → r.hidden = false)) := by
  have hor := discreet_or_accepts hc
  have hflag : ∀ r : Relation τ, r.Discreet →
      (∀ k, r.scope = some k → r.hidden = true) ∧ (r.scope = none → r.hidden = false) :=
    fun r hr => ⟨fun k hk => hr.trans (hk ▸ rfl), fun hk => hr.trans (hk ▸ rfl)⟩
  refine ⟨fun r hr hnot => hflag r ?_, fun hedges r hr => hflag r ?_⟩
  · rcases hor r hr with hdiscreet | ⟨e, he, haccepts⟩
    · exact hdiscreet
    · exact absurd haccepts.relation?_eq (hnot e he)
  · rcases hor r hr with hdiscreet | ⟨e, he, haccepts⟩
    · exact hdiscreet
    · exact haccepts.discreet_iff.mpr (hedges e he)

/-- A choice of two events that finds one of its exclusions and has the other one made. -/
def discreet : Document String :=
  bare [plainNest "n0" .choice none, plainEvent "e0" (some "n0"), plainEvent "e1" (some "n0")]
    [plainEdge "x-e1-e0" "e1" "e0" .exclusion none]

theorem discreet_of_load_discreet : discreet.load.value = .ok discreet.opened ∧
    discreet.opened.relations.keys = ["x-e1-e0", "x-e0-e1"] ∧
    (∀ e ∈ discreet.edges, e.hidden = e.scope.isSome) ∧
    ∀ r ∈ discreet.opened.relations.entries,
      (∀ k, r.scope = some k → r.hidden = true) ∧ (r.scope = none → r.hidden = false) := by
  have hload : discreet.load.value = .ok discreet.opened := by decide +kernel
  have hedges : ∀ e ∈ discreet.edges, e.hidden = e.scope.isSome := by decide +kernel
  exact ⟨hload, by decide +kernel, hedges, (discreet_of_load hload).2 hedges⟩

/-- A choice of two events that is given one of its exclusions without its being hidden, and a hidden
condition that belongs to nothing. -/
def indiscreet : Document String :=
  bare [plainNest "n0" .choice none, plainEvent "e0" (some "n0"), plainEvent "e1" (some "n0"),
      plainEvent "e2" none]
    [plainEdge "x-e0-e1" "e0" "e1" .exclusion (some "n0"),
      { plainEdge "c-e0-e2" "e0" "e2" .condition none with hidden := true }]

/-- A choice may be left with an exclusion that is not hidden, and a relation that belongs to nothing
may be. -/
theorem not_discreet :
    (¬ ∀ (d : Document String) (c : Choreography String), d.load.value = .ok c →
      ∀ r ∈ c.relations.entries, ∀ x ∈ c.containers.entries, x.form = .nest .choice →
        r.scope = some x.id → r.hidden = true) ∧
    ¬ ∀ (d : Document String) (c : Choreography String), d.load.value = .ok c →
      ∀ r ∈ c.relations.entries, r.scope = none → r.hidden = false := by
  have hload : indiscreet.load.value = .ok indiscreet.opened := by decide +kernel
  refine ⟨fun h => ?_, fun h => ?_⟩
  · exact absurd (h indiscreet _ hload) (by decide +kernel)
  · exact absurd (h indiscreet _ hload) (by decide +kernel)

end Document

end Dcr
