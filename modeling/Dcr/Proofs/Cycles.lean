import Dcr.Proofs.Loading

/-! Containment as a document gives it. A container that is above itself is accepted like any
other, and since something is inside it, normalizing never drops it; what is dropped is above nothing.
So the containers above themselves after loading are those of the document, and containment is a
forest just if there are none. -/

namespace Dcr

variable {τ : Type} [FreeText τ]

/-! ## Places in a document -/

/-- The place of a container, if it is a text. -/
def ContainerEntry.place (x : ContainerEntry τ) : Option String := x.parent.bind Json.name?

/-- The place of a container of a document, if there is one under an id. -/
def Document.up (d : Document τ) (id : String) : Option (Option String) :=
  ((Roster.ofNodes d.nodes).containers.get? id).map ContainerEntry.place

/-- A document that passes the checks is read with every container in its place. -/
theorem Document.Tells.up_eq {d : Document τ} {c : Choreography τ} (h : d.Tells c) :
    c.up = d.up := by
  funext id
  cases hget : (Roster.ofNodes d.nodes).containers.get? id with
  | none =>
    have hcontains : c.containers.contains id = false := by
      rw [h.contains_eq, Store.contains, hget]
      rfl
    rw [Document.up, hget]
    simpa [Store.contains, Choreography.up] using hcontains
  | some x =>
    obtain ⟨hx, rfl⟩ := Store.get?_eq_some_iff.mp hget
    obtain ⟨y, hy, hxy⟩ := exists_of_forall₂ h.containers.flip hx
    obtain ⟨p, ⟨hparent, -⟩, rfl⟩ := Roster.container_eq_ok.mp hxy
    have hplace : x.place = p := by
      rw [ContainerEntry.place, hparent, bind_name?_map]
    have hup : c.up (x.container p).id = some p :=
      Choreography.up_eq_some_iff.mpr ⟨_, Choreography.container_mem_nodes.mpr hy, rfl, rfl, rfl⟩
    rw [Document.up, hget, Option.map_some, hplace]
    exact hup

/-! ## Containers dropped -/

namespace Choreography

variable {c : Choreography τ} {n : Node τ} {x : Container τ} {id k : String}

/-- What a walk upwards from a node meets has a child. -/
theorem children_ne_nil_of_above (hn : n ∈ c.nodes) (h : Above c.up k n.parent) :
    c.children k ≠ [] := by
  generalize hp : n.parent = p at h
  induction h generalizing n with
  | here => exact List.ne_nil_of_mem (mem_children_of hn hp)
  | up hu _ ih =>
    obtain ⟨m, hm, -, -, hparent⟩ := up_eq_some_iff.mp hu
    exact ih hm hparent

theorem up_dropContainer :
    (c.dropContainer x).up = fun j => if j = x.id then none else c.up j := up_without

/-- What is above itself has a child, so that it is not dropped, and neither is anything between. -/
theorem circular_dropContainer (hx : c.containers.get? id = some x) (hc : c.children id = []) (k) :
    Circular (c.dropContainer x).up k ↔ Circular c.up k := by
  obtain ⟨-, rfl⟩ := get?_container_iff.mp hx
  rw [up_dropContainer]
  constructor
  · rintro ⟨p, hp, habove⟩
    have hsub : ∀ j q, (if j = x.id then none else c.up j) = some q → c.up j = some q := by
      intro j q hq
      split at hq
      · cases hq
      · exact hq
    exact ⟨p, hsub k p hp, habove.mono hsub⟩
  · rintro ⟨p, hp, habove⟩
    obtain ⟨n, hn, hid, -, rfl⟩ := up_eq_some_iff.mp hp
    have hkept : ∀ j, Above c.up j n.parent → j ≠ x.id := by
      rintro j hj rfl
      exact children_ne_nil_of_above hn hj hc
    exact ⟨n.parent, (if_neg (hkept k habove)).trans hp,
      habove.transfer fun j hj => if_neg (hkept j hj)⟩

/-- Every place is a container. -/
def Housed (c : Choreography τ) : Prop :=
  ∀ n ∈ c.nodes, ∀ k, n.parent = some k → c.containers.contains k = true

theorem Housed.drop (h : c.Housed) (hx : c.containers.get? id = some x) (hc : c.children id = []) :
    (c.dropContainer x).Housed := by
  obtain ⟨-, rfl⟩ := get?_container_iff.mp hx
  intro n hn k hk
  have hmem : n ∈ c.nodes := by
    rcases mem_nodes.mp hn with ⟨y, hy, rfl⟩ | ⟨e, he, rfl⟩
    · exact container_mem_nodes.mpr (Store.mem_erase.mp hy).1
    · exact event_mem_nodes.mpr he
  have hne : k ≠ x.id := fun he => children_eq_nil_iff.mp hc n hmem (he ▸ hk)
  have hthere := h n hmem k hk
  rw [contains_iff_up] at hthere ⊢
  rw [up_dropContainer]
  exact (congrArg Option.isSome (if_neg hne)).trans hthere

/-- Where every place is a container and none is above itself, walks end. -/
theorem Housed.grounded (h : c.Housed) (hnot : ∀ k, ¬ Circular c.up k) (hn : n ∈ c.nodes) :
    Grounded c.up n.parent := by
  have hsome : ∀ k, Above c.up k n.parent → (c.up k).isSome := by
    intro k hk
    obtain ⟨a, ha⟩ := List.exists_mem_of_ne_nil _ (children_ne_nil_of_above hn hk)
    obtain ⟨m, hm, -, hparent⟩ := mem_children.mp ha
    exact contains_iff_up.mp (h m hm k hparent)
  exact .of_not_circular c.containers.keys
    (fun k hk => Store.mem_keys.mpr (contains_iff_up.mpr (hsome k hk))) hsome fun k _ => hnot k

end Choreography

/-! ## Documents loaded -/

namespace Document

open Choreography (Housed)

/-- Of every document that is loaded the places are containers, and the containers above themselves
are those that the document puts above themselves. So every walk upwards ends at the top level just
if the document puts no container above itself. -/
theorem forest_of_load {d : Document τ} {c : Choreography τ} (hc : d.load.value = .ok c) :
    (∀ n ∈ c.nodes, ∀ k, n.parent = some k → c.containers.contains k = true) ∧
      (∀ k, Circular c.up k ↔ Circular d.up k) ∧
      ((∀ n ∈ c.nodes, Grounded c.up n.parent) ↔ ∀ k, ¬ Circular d.up k) := by
  have hhoused : c.Housed := load_rule (P := Housed) hc
    (fun b hb => (tells_of_check hb).parents) (fun _ _ h => h) fun _ _ _ h hx hempty =>
      h.drop hx hempty
  have hcircular : ∀ k, Circular c.up k ↔ Circular d.up k :=
    load_rule (P := fun c => ∀ k, Circular c.up k ↔ Circular d.up k) hc
      (fun b hb k => by rw [(tells_of_check hb).up_eq]) (fun _ _ h => h)
      fun _ _ _ h hx hempty k => (Choreography.circular_dropContainer hx hempty k).trans (h k)
  refine ⟨hhoused, hcircular, fun hground k hk => ?_, fun hnot n hn => ?_⟩
  · obtain ⟨p, hp, habove⟩ := (hcircular k).mpr hk
    obtain ⟨n, hn, -, -, rfl⟩ := Choreography.up_eq_some_iff.mp hp
    exact (hground n hn).not_above_self hp habove
  · exact hhoused.grounded (fun k hk => hnot k ((hcircular k).mp hk)) hn

/-- A nest in a nest in a choice, with an event inside and an empty nest beside it. -/
def nestled : Document String :=
  bare [plainNest "n2" .group (some "n1"), plainNest "n1" .group (some "n0"),
    plainNest "n0" .choice none, plainNest "n3" .group (some "n1"), plainEvent "e0" (some "n2")] []

/-- Three nests stay, and from each of them and from the event the walk upwards ends. -/
theorem forest_of_load_nestled : nestled.load.value = .ok nestled.opened ∧
    nestled.opened.containers.keys = ["n2", "n1", "n0"] ∧
    ∀ n ∈ nestled.opened.nodes, Grounded nestled.opened.up n.parent := by
  have hload : nestled.load.value = .ok nestled.opened := by decide +kernel
  refine ⟨hload, by decide +kernel, (forest_of_load hload).2.2.mpr fun k ⟨p, hp, habove⟩ => ?_⟩
  have h0 : Grounded nestled.up (some "n0") := .inside (p := none) (by decide +kernel) .top
  have h1 : Grounded nestled.up (some "n1") := .inside (p := some "n0") (by decide +kernel) h0
  refine Grounded.not_above_self (p := p) ?_ hp habove
  obtain ⟨x, hx, rfl⟩ := Option.map_eq_some_iff.mp hp
  have hmem := Roster.container_mem_of_mem (Store.get?_eq_some_iff.mp hx).1
  simp only [nestled, bare, plainNest, plainEvent, List.mem_cons, List.not_mem_nil, or_false,
    NodeEntry.container.injEq, reduceCtorEq] at hmem
  rcases hmem with rfl | rfl | rfl | rfl
  · exact h1
  · exact h0
  · exact .top
  · exact h1

/-- Two nests inside one another. -/
def encircled : Document String :=
  bare [plainNest "n0" .group (some "n1"), plainNest "n1" .group (some "n0")] []

/-- Nests inside one another are loaded, each of them above itself, and no walk from them ends. -/
theorem not_forest_of_load :
    (¬ ∀ (j : Json) (c : Choreography String), (loadJson j).value = .ok c →
      ∀ x ∈ c.containers.entries, ¬ Above c.up x.id x.parent) ∧
    ¬ ∀ (j : Json) (c : Choreography String), (loadJson j).value = .ok c →
      ∀ n ∈ c.nodes, Grounded c.up n.parent := by
  have hload : (loadJson encircled.toJson).value = .ok encircled.opened := by decide +kernel
  have h0 : encircled.opened.up "n0" = some (some "n1") := by decide +kernel
  have h1 : encircled.opened.up "n1" = some (some "n0") := by decide +kernel
  have habove : Above encircled.opened.up "n0" (some "n1") := .up h1 .here
  obtain ⟨n, hn, hid, hform, hparent⟩ := Choreography.up_eq_some_iff.mp h0
  refine ⟨fun h => ?_, fun h => ?_⟩
  · cases n with
    | event e => cases hform
    | container x =>
      refine h _ _ hload x (Choreography.container_mem_nodes.mp hn) ?_
      rw [show x.id = "n0" from hid, show x.parent = some "n1" from hparent]
      exact habove
  · exact (hparent ▸ h _ _ hload n hn).not_above_self h0 habove

end Document

end Dcr
