import Dcr.Proofs.Family
import Mathlib.Data.List.Perm.Subperm

/-! Walks upwards. `Above` is reachability along parent links and `Grounded` says that a walk ends
at the top level; neither has a bound. The bounded walk meets everything above its start, also where
the links form a cycle: what it repeats it has met before. Where walks end, an event is below every
container, if none is empty. -/

namespace Dcr

/-- An id is met on the walk upwards from a parent; `up` tells the parent of each container. -/
inductive Above (up : String → Option (Option String)) (a : String) : Option String → Prop
  | here : Above up a (some a)
  | up {id : String} {p : Option String} : up id = some p → Above up a p → Above up a (some id)

/-- The walk upwards from a parent goes from container to container and ends at the top level. -/
inductive Grounded (up : String → Option (Option String)) : Option String → Prop
  | top : Grounded up none
  | inside {id : String} {p : Option String} : up id = some p → Grounded up p →
    Grounded up (some id)

variable {up up' : String → Option (Option String)} {a b id : String} {p q : Option String}

/-! ## Above -/

theorem Above.trans (hab : Above up a (some b)) (hb : Above up b p) : Above up a p := by
  induction hb with
  | here => exact hab
  | up hu _ ih => exact .up hu ih

theorem Above.step (h : Above up a (some id)) (hne : a ≠ id) (hu : up id = some p) :
    Above up a p := by
  cases h with
  | here => exact absurd rfl hne
  | up hv h => rw [hu] at hv; cases hv; exact h

/-- A walk that passes an id reaches its goal from there without it; another walk never needs it. -/
theorem Above.avoid (id : String) (h : Above up a p) :
    Above (fun j => if j = id then none else up j) a p ∨
      ∃ q, up id = some q ∧ Above (fun j => if j = id then none else up j) a q := by
  induction h with
  | here => exact .inl .here
  | @up j q hu _ ih =>
    rcases ih with ih | ih
    · by_cases hj : j = id
      · exact .inr ⟨q, hj ▸ hu, ih⟩
      · exact .inl (.up (by rw [if_neg hj]; exact hu) ih)
    · exact .inr ih

/-- A walk that meets none of the changed links finds what it found. -/
theorem Above.transfer (h : Above up a p) (hu : ∀ b, Above up b p → up' b = up b) :
    Above up' a p := by
  induction h with
  | here => exact .here
  | @up j q hv _ ih => exact .up ((hu j .here).trans hv) (ih fun b hb => hu b (.up hv hb))

/-- More links lead to more. -/
theorem Above.mono (h : Above up a p) (hu : ∀ j q, up j = some q → up' j = some q) :
    Above up' a p := by
  induction h with
  | here => exact .here
  | up hv _ ih => exact .up (hu _ _ hv) ih

/-- A walk to an id does not use the link of the id. -/
theorem Above.of_eq_of_ne (h : Above up a p) (hu : ∀ j, j ≠ a → up' j = up j) : Above up' a p := by
  induction h with
  | here => exact .here
  | @up j q hv _ ih =>
    by_cases hj : j = a
    · exact hj ▸ .here
    · exact .up ((hu j hj).trans hv) ih

/-- A container is above itself. -/
def Circular (up : String → Option (Option String)) (id : String) : Prop :=
  ∃ p, up id = some p ∧ Above up id p

/-! ## Grounded -/

theorem Grounded.inside_iff : Grounded up (some id) ↔ ∃ p, up id = some p ∧ Grounded up p :=
  ⟨fun h => by cases h with | inside hu h => exact ⟨_, hu, h⟩, fun ⟨_, hu, h⟩ => .inside hu h⟩

theorem Grounded.of_above (h : Grounded up p) (ha : Above up a p) : Grounded up (some a) := by
  induction ha with
  | here => exact h
  | up hu _ ih =>
    obtain ⟨q, hq, hg⟩ := Grounded.inside_iff.mp h
    rw [hu] at hq
    cases hq
    exact ih hg

theorem Grounded.isSome_of_above (h : Grounded up p) (ha : Above up a p) : (up a).isSome := by
  obtain ⟨q, hq, _⟩ := Grounded.inside_iff.mp (h.of_above ha)
  simp [hq]

/-- Nothing is above itself where walks end. -/
theorem Grounded.not_above_self (h : Grounded up p) : ∀ {a}, up a = some p → ¬ Above up a p := by
  induction h with
  | top => intro a _ ha; cases ha
  | inside hu _ ih =>
    intro a hua ha
    cases ha with
    | here => rw [hu] at hua; cases hua; exact ih hu .here
    | up hv ha =>
      rw [hu] at hv
      cases hv
      exact ih hu ((Above.up hua Above.here).trans ha)

/-- A walk that meets none of the changed links stays. -/
theorem Grounded.transfer (h : Grounded up p) (hu : ∀ a, Above up a p → up' a = up a) :
    Grounded up' p := by
  induction h with
  | top => exact .top
  | @inside id q hv _ ih =>
    refine .inside ?_ (ih fun a ha => hu a (.up hv ha))
    rw [hu id .here, hv]

/-- What a walk meets stays the same with the links that it uses. -/
theorem Grounded.above_of_above (h : Grounded up p) (hu : ∀ a, Above up a p → up' a = up a)
    (ha : Above up' a p) : Above up a p := by
  induction h with
  | top => cases ha
  | @inside id q hv _ ih =>
    cases ha with
    | here => exact .here
    | up hv' ha =>
      rw [hu id .here, hv] at hv'
      cases hv'
      exact .up hv (ih (fun a ha => hu a (.up hv ha)) ha)

/-- After a container has moved, walks end as long as the one from its new place does. -/
theorem Grounded.redirect (h : Grounded up p) (hu : ∀ j, j ≠ id → up' j = up j)
    (hq : up' id = up id ∨ ∃ q, up' id = some q ∧ Grounded up' q) : Grounded up' p := by
  induction h with
  | top => exact .top
  | @inside j q hv _ ih =>
    by_cases hj : j = id
    · subst hj
      rcases hq with hq | ⟨r, hr, hg⟩
      · exact .inside (hq.trans hv) ih
      · exact .inside hr hg
    · exact .inside ((hu j hj).trans hv) ih

/-- After ids have been renamed, walks end as they did. -/
theorem Grounded.rename (f : String → String) (h : Grounded up p)
    (hu : ∀ id q, up id = some q → up' (f id) = some (q.map f)) : Grounded up' (p.map f) := by
  induction h with
  | top => exact .top
  | inside hv _ ih => exact .inside (hu _ _ hv) ih

/-- A walk that stays among finitely many containers, none of them above itself, ends. The induction
is on the containers that are left to be met. -/
theorem Grounded.of_not_circular (ids : List String) (hids : ∀ a, Above up a p → a ∈ ids)
    (hsome : ∀ a, Above up a p → (up a).isSome) (hnot : ∀ a, Above up a p → ¬ Circular up a) :
    Grounded up p := by
  induction hsize : ids.length generalizing ids p with
  | zero =>
    cases p with
    | none => exact .top
    | some id =>
      rw [List.length_eq_zero_iff.mp hsize] at hids
      cases hids id .here
  | succ size ih =>
    cases p with
    | none => exact .top
    | some id =>
      obtain ⟨q, hq⟩ := Option.isSome_iff_exists.mp (hsome id .here)
      have hlen : (ids.erase id).length = size := by
        rw [List.length_erase_of_mem (hids id .here), hsize, Nat.add_sub_cancel]
      refine .inside hq (ih (ids.erase id) (fun a ha => ?_) (fun a ha => hsome a (.up hq ha))
        (fun a ha => hnot a (.up hq ha)) hlen)
      have hne : a ≠ id := fun he => hnot id .here ⟨q, hq, he ▸ ha⟩
      exact (List.mem_erase_of_ne hne).mpr (hids a (.up hq ha))

/-! ## The bounded walk -/

namespace Choreography

variable {τ : Type} [FreeText τ] {c : Choreography τ}

/-- The ids that a walk upwards from a parent meets, going on from containers only, in at most so
many steps. -/
def lineage (c : Choreography τ) : Nat → Option String → List String
  | 0, _ => []
  | _, none => []
  | steps + 1, some id => id :: c.lineage steps ((c.containers.get? id).bind Container.parent)

/-- The ids above a node with a parent. A walk meets each container at most once before it repeats
itself, and at its end one more id that names no container. -/
def ancestors (c : Choreography τ) (parent : Option String) : List String :=
  c.lineage (c.containers.size + 1) parent

theorem lineage_succ (steps : Nat) :
    c.lineage (steps + 1) (some id) = id :: c.lineage steps (c.up id).join := by
  cases h : c.containers.get? id <;> simp [lineage, up, h]

theorem above_of_mem_lineage : ∀ {steps : Nat} {p : Option String},
    a ∈ c.lineage steps p → Above c.up a p
  | 0, _, h => by simp [lineage] at h
  | _ + 1, none, h => by simp [lineage] at h
  | steps + 1, some id, h => by
    rw [lineage_succ] at h
    rcases List.mem_cons.mp h with rfl | h
    · exact .here
    · cases hu : c.up id with
      | none =>
        rw [hu] at h
        cases steps <;> simp [lineage] at h
      | some q =>
        rw [hu] at h
        exact .up hu (above_of_mem_lineage h)

/-- The choreography with a container taken out of the store and nothing else changed. -/
def without (c : Choreography τ) (id : String) : Choreography τ :=
  { c with containers := c.containers.erase id }

theorem up_without : (c.without id).up = fun j => if j = id then none else c.up j := by
  funext j
  by_cases hj : j = id
  · simp [hj, without, up, Store.get?_erase_self]
  · simp [hj, without, up, Store.get?_erase_of_ne hj]

/-- The bounded walk follows the original one up to the container that was taken out. -/
theorem lineage_without_subset : ∀ (steps : Nat) (p : Option String),
    (c.without id).lineage steps p ⊆ c.lineage steps p
  | 0, _ => by simp [lineage]
  | _ + 1, none => by simp [lineage]
  | steps + 1, some j => by
    rw [lineage_succ, lineage_succ, up_without]
    refine List.cons_subset_cons j ?_
    dsimp only
    by_cases hj : j = id
    · rw [if_pos hj]
      cases steps <;> simp [lineage]
    · rw [if_neg hj]
      exact lineage_without_subset steps _

/-- One step more than there are containers meets all that is above. The induction takes the
container at hand out of the store, which no walk to another goal has to pass twice. -/
theorem mem_lineage_of_above : ∀ (size : Nat) {c : Choreography τ}, c.containers.size ≤ size →
    ∀ {p : Option String}, Above c.up a p → a ∈ c.lineage (size + 1) p
  | _, c, _, none, h => by cases h
  | size, c, hs, some id, h => by
    rw [lineage_succ]
    by_cases hne : a = id
    · exact hne ▸ List.mem_cons_self
    · refine List.mem_cons_of_mem _ ?_
      obtain ⟨q, hq, ha⟩ : ∃ q, c.up id = some q ∧ Above (c.without id).up a q := by
        rw [up_without]
        cases h with
        | here => exact absurd rfl hne
        | up hu h =>
          rcases h.avoid id with ha | ⟨q, hq, ha⟩
          · exact ⟨_, hu, ha⟩
          · exact ⟨q, hq, ha⟩
      obtain ⟨x, hx, rfl⟩ := Option.map_eq_some_iff.mp hq
      have hlt : (c.without id).containers.size < c.containers.size := Store.erase_size_lt hx
      obtain ⟨k, rfl⟩ : ∃ k, size = k + 1 := ⟨size - 1, by omega⟩
      rw [hq]
      exact lineage_without_subset _ _ (mem_lineage_of_above k (by omega) ha)

/-- The ids above a node are those that its walk meets. -/
theorem mem_ancestors : a ∈ c.ancestors p ↔ Above c.up a p :=
  ⟨above_of_mem_lineage, mem_lineage_of_above _ (Nat.le_refl _)⟩

/-- Below an id are the nodes from which the walk upwards meets it. -/
theorem below_of_above {n : Node τ} (hn : n ∈ c.nodes) (h : Above c.up id n.parent) :
    c.Below id n.id := by
  generalize hp : n.parent = p at h
  induction h generalizing n with
  | here => exact .child (mem_children_of hn hp)
  | up hu _ ih =>
    obtain ⟨m, hm, rfl, hf, hq⟩ := up_eq_some_iff.mp hu
    exact .within (ih hm hq) (contains_iff_node.mpr ⟨m, hm, rfl, hf⟩) (mem_children_of hn hp)

theorem Apart.above_of_below (ha : c.Apart) (h : c.Below id a) :
    ∃ n ∈ c.nodes, n.id = a ∧ Above c.up id n.parent := by
  induction h with
  | child hchild =>
    obtain ⟨n, hn, hid, hp⟩ := mem_children.mp hchild
    exact ⟨n, hn, hid, hp ▸ .here⟩
  | within _ hc hchild ih =>
    obtain ⟨m, hm, rfl, habove⟩ := ih
    obtain ⟨l, hl, hid, hf⟩ := contains_iff_node.mp hc
    obtain rfl := ha.eq_of_id hl hm hid
    obtain ⟨n, hn, hid, hp⟩ := mem_children.mp hchild
    exact ⟨n, hn, hid, hp ▸ .up (up_eq_some_iff.mpr ⟨l, hl, rfl, hf, rfl⟩) habove⟩

/-- The family of an id are the nodes from which the walk upwards meets it. -/
theorem Apart.mem_family (ha : c.Apart) :
    a ∈ c.family id ↔ ∃ n ∈ c.nodes, n.id = a ∧ Above c.up id n.parent :=
  Choreography.mem_family.trans
    ⟨ha.above_of_below, fun ⟨_, hn, hid, habove⟩ => hid ▸ below_of_above hn habove⟩

theorem Apart.mem_family_iff (ha : c.Apart) {n : Node τ} (hn : n ∈ c.nodes) :
    n.id ∈ c.family id ↔ Above c.up id n.parent := by
  refine ha.mem_family.trans ⟨fun ⟨m, hm, hid, habove⟩ => ?_, fun habove => ⟨n, hn, rfl, habove⟩⟩
  exact ha.eq_of_id hm hn hid ▸ habove

/-! ## Below a container -/

/-- A container inside another one has a smaller family, where the walk upwards from it ends. -/
theorem length_family_lt (ha : c.Apart) {x y : Container τ} (hy : y ∈ c.containers.entries)
    (hg : Grounded c.up y.parent) (hp : y.parent = some x.id) :
    (c.family y.id).length < (c.family x.id).length := by
  have hnot : y.id ∉ c.family y.id := by
    intro hmem
    obtain ⟨n, hn, hid, habove⟩ := ha.mem_family.mp hmem
    obtain rfl : n = .container y := ha.eq_of_id hn (container_mem_nodes.mpr hy) hid
    exact hg.not_above_self (up_container hy) habove
  have hnd : (y.id :: c.family y.id).Nodup :=
    List.nodup_cons.mpr ⟨hnot, nodup_family⟩
  have hxy : Above c.up x.id y.parent := hp ▸ .here
  have hsub : y.id :: c.family y.id ⊆ c.family x.id := by
    intro a hmem
    rcases List.mem_cons.mp hmem with rfl | hmem
    · exact ha.mem_family.mpr ⟨_, container_mem_nodes.mpr hy, rfl, hxy⟩
    · obtain ⟨m, hm, rfl, hab⟩ := ha.mem_family.mp hmem
      exact ha.mem_family.mpr ⟨m, hm, rfl, (Above.up (up_container hy) hxy).trans hab⟩
  exact (List.subperm_of_subset hnd hsub).length_le

/-- Below a container there is an event, where walks end and no container is empty. The induction is
on the number of nodes below it. -/
theorem exists_event (ha : c.Apart) (hg : ∀ n ∈ c.nodes, Grounded c.up n.parent)
    (hc : ∀ x ∈ c.containers.entries, c.children x.id ≠ []) (size : Nat) :
    ∀ x ∈ c.containers.entries, (c.family x.id).length ≤ size →
      ∃ e ∈ c.events.entries, Above c.up x.id e.parent := by
  induction size with
  | zero =>
    intro x hx hs
    obtain ⟨a, ha⟩ := List.exists_mem_of_ne_nil _ (hc x hx)
    have hmem : a ∈ c.family x.id := mem_family.mpr (.child ha)
    rw [List.length_eq_zero_iff.mp (Nat.le_zero.mp hs)] at hmem
    cases hmem
  | succ size ih =>
    intro x hx hs
    obtain ⟨a, hchild⟩ := List.exists_mem_of_ne_nil _ (hc x hx)
    obtain ⟨n, hn, _, hp⟩ := mem_children.mp hchild
    cases n with
    | event e => exact ⟨e, event_mem_nodes.mp hn, (show e.parent = some x.id from hp) ▸ .here⟩
    | container y =>
      have hy := container_mem_nodes.mp hn
      have hlt := length_family_lt ha hy (hg _ hn) hp
      obtain ⟨e, he, hab⟩ := ih y hy (by omega)
      have hxy : Above c.up x.id y.parent := (show y.parent = some x.id from hp) ▸ .here
      exact ⟨e, he, (Above.up (up_container hy) hxy).trans hab⟩

end Choreography

end Dcr
