import Dcr.Proofs.Sessions

/-! The exclusions of choices after every session in which no container was left half made. -/

namespace Dcr

variable {τ : Type} [FreeText τ]

namespace Choreography

variable {c : Choreography τ} {k : String}

/-- Choices and their exclusions: a choice owns hidden exclusions only, one for each ordered pair of
its children; another container owns nothing; and scope, being hidden and being generated go
together. -/
structure Exclusive (c : Choreography τ) : Prop where
  hidden : ∀ x ∈ c.containers.entries, x.form = .nest .choice →
    ∀ r ∈ c.scopedTo x.id, r.type = .exclusion ∧ r.hidden = true
  once : ∀ x ∈ c.containers.entries, x.form = .nest .choice →
    ((c.scopedTo x.id).map Relation.pair).Nodup
  pairs : ∀ x ∈ c.containers.entries, x.form = .nest .choice → ∀ a b,
    (a, b) ∈ (c.scopedTo x.id).map Relation.pair ↔ a ∈ c.children x.id ∧ b ∈ c.children x.id ∧ a ≠ b
  others : ∀ x ∈ c.containers.entries, x.form ≠ .nest .choice → c.scopedTo x.id = []
  scope : ∀ r ∈ c.relations.entries, ∀ k, r.scope = some k →
    ∃ x ∈ c.containers.entries, x.id = k ∧ x.form = .nest .choice
  shown : ∀ r ∈ c.relations.entries, r.scope = none → r.hidden = false
  generated : ∀ r ∈ c.relations.entries, r.generated = true → r.scope.isSome

theorem Owned.choice_of_scope (h : c.Owned {}) {r : Relation τ} (hr : r ∈ c.relations.entries)
    (hk : r.scope = some k) : c.form? k = some (.nest .choice) :=
  (h.fit k (by simp) r hr hk).choice

theorem Owned.exclusive (h : c.Owned {}) : c.Exclusive where
  hidden x _ _ r hr := by
    obtain ⟨hr, hk⟩ := mem_scopedTo.mp hr
    obtain ⟨hx, hh, _⟩ := h.bound r hr x.id hk
    exact ⟨hx, hh⟩
  once x _ _ := nodup_pairs_scopedTo h.linked.singleIn fun r hr hk => (h.bound r hr _ hk).1
  pairs x hx hform a b :=
    mem_pairs_scopedTo (h.fit x.id (by simp)) (h.full x.id (by simp))
      ((form?_container hx).trans (congrArg some hform))
  others x hx hform :=
    scopedTo_eq_nil (h.fit x.id (by simp)) fun hk => hform (by simpa [form?_container hx] using hk)
  scope r hr k hk := by
    obtain ⟨n, hn, rfl, hf⟩ := form?_eq_some_iff.mp (h.choice_of_scope hr hk)
    cases n with
    | event e => cases hf
    | container x => exact ⟨x, container_mem_nodes.mp hn, rfl, Option.some.inj hf⟩
  shown r hr hs := (h.loose r hr hs).1
  generated r hr hg := h.scope_isSome_of_generated hr hg

end Choreography

namespace Editor

/-- After a session in which no creation of a container stops midway, choices own the exclusions of
their pairs of children and nothing else is owned. -/
theorem exclusive_after [DecidableEq τ] {e : Editor τ} (h : e.Opening) {calls : List (Call τ)}
    (hs : e.smooth calls = true) : (e.after calls).choreography.Exclusive :=
  (orderly_after_smooth h hs).owned.exclusive

/-- A session that puts a choice around two events of the sample, moves the third one in, makes the
choice a subprocess and a choice again, and deletes one of the events; a deletion in between is asked
for in vain. -/
def converting : List (Call String) :=
  [.edit (.createContainer { form := .nest .choice, children := ["e0", "e1"] }),
    .edit (.moveNode "e2" (some "n0")), .edit (.changeContainerType "n0" .subprocess none),
    .edit (.deleteNodes ["e7"]), .edit (.changeContainerType "s0" .nest (some .choice)),
    .edit (.deleteEvent "e1")]

/-- The choice is there in the end, and its two children exclude each other. -/
theorem exclusive_after_conversion :
    Opening { choreography := (Sample.choreography : Choreography String) } ∧
    smooth { choreography := (Sample.choreography : Choreography String) } converting = true ∧
    (after { choreography := Sample.choreography } converting).choreography.form? "n0" =
      some (.nest .choice) ∧
    ((after { choreography := Sample.choreography } converting).choreography.scopedTo "n0").map
      Relation.pair = [("e0", "e2"), ("e2", "e0")] ∧
    (after { choreography := (Sample.choreography : Choreography String) }
      converting).choreography.Exclusive :=
  ⟨.inr rfl, by decide +kernel, by decide +kernel, by decide +kernel,
    exclusive_after (.inr rfl) (by decide +kernel)⟩

end Editor

end Dcr
