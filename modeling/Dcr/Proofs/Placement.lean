import Dcr.Containment.Conversion
import Dcr.Proofs.Ancestry
import Mathlib.Data.Set.Insert
import Mathlib.Order.BooleanAlgebra.Set

/-! Where nodes stand. `Placed` says that ids are those their pools have handed out, that every walk
upwards ends at the top level and that containers have children, some excepted. Changes of nodes are
described by the nodes they leave: one is added, some are removed, one moves, one gets another id.
-/

namespace Dcr.Choreography

variable {τ : Type} [FreeText τ] {c d : Choreography τ} {n m : Node τ} {E F : Set String}
    {id k : String}

/-! ## Numbers -/

/-- The ids of nodes are exactly those that the pools can no more hand out. -/
structure Numbered (c : Choreography τ) : Prop where
  sane : c.ids.Sane
  named : ∀ n ∈ c.nodes, ∃ m, n.id = n.kind.ident m
  free : ∀ kind m, c.ids.Free (NodeKind.ident kind m) ↔ ¬ c.hasNode (kind.ident m) = true

theorem Numbered.apart (h : c.Numbered) : c.Apart := by
  intro e he x hx hid
  obtain ⟨m, hm⟩ := h.named _ (event_mem_nodes.mpr he)
  obtain ⟨l, hl⟩ := h.named _ (container_mem_nodes.mpr hx)
  have hk := (NodeKind.ident_injective (hm.symm.trans (hid.trans hl))).1
  exact absurd (Node.kind_eq_event_iff.mp hk.symm) (by simp [Node.form?])

theorem Numbered.ne_empty (h : c.Numbered) (hn : n ∈ c.nodes) : n.id ≠ "" := by
  obtain ⟨m, hm⟩ := h.named n hn
  exact hm ▸ NodeKind.ident_ne_empty _ _

/-- A new id names no node yet. -/
theorem Numbered.allocate (h : c.Numbered) (kind : NodeKind) :
    ∃ m, (c.ids.allocate kind).1 = kind.ident m ∧ ¬ c.hasNode (kind.ident m) = true ∧
      (c.ids.allocate kind).2.Sane ∧
      ∀ id, (c.ids.allocate kind).2.Free id ↔ c.ids.Free id ∧ id ≠ kind.ident m := by
  obtain ⟨m, hid, hfree, _, hs, hrest⟩ := h.sane.allocate kind
  exact ⟨m, hid, (h.free kind m).mp hfree, hs, hrest⟩

theorem Numbered.unused (h : c.Numbered) (kind : NodeKind) :
    ¬ c.hasNode (c.ids.allocate kind).1 = true := by
  obtain ⟨m, hid, hnew, -⟩ := h.allocate kind
  exact hid ▸ hnew

/-! ## Places -/

/-- Nodes under their numbers, walks upwards that end, and children in the containers that are not
excepted. -/
structure Placed (E : Set String) (c : Choreography τ) : Prop where
  numbered : c.Numbered
  grounded : ∀ n ∈ c.nodes, Grounded c.up n.parent
  inhabited : ∀ k, c.containers.contains k = true → k ∉ E → c.children k ≠ []

theorem Placed.narrow (h : c.Placed E)
    (hx : ∀ k ∈ E, k ∉ F → c.containers.contains k = true → c.children k ≠ []) : c.Placed F :=
  ⟨h.numbered, h.grounded, fun k hk hF => by
    by_cases hE : k ∈ E
    · exact hx k hE hF hk
    · exact h.inhabited k hk hE⟩

theorem Placed.mono (h : c.Placed E) (hx : E ⊆ F) : c.Placed F :=
  h.narrow fun _ hE hF => absurd (hx hE) hF

/-- The parent of a node is a container. -/
theorem Placed.contains_parent (h : c.Placed E) (hn : n ∈ c.nodes) (hp : n.parent = some k) :
    c.containers.contains k = true := by
  have hg := h.grounded n hn
  rw [hp] at hg
  exact contains_iff_up.mpr (hg.isSome_of_above .here)

theorem Placed.children_eq_nil (h : c.Placed E) (hk : ¬ c.containers.contains k = true) :
    c.children k = [] :=
  children_eq_nil_iff.mpr fun _ hn hp => hk (h.contains_parent hn hp)

/-- No node is below itself. -/
theorem Placed.ne_of_above (h : c.Placed E) (hn : n ∈ c.nodes) (ha : Above c.up k n.parent) :
    n.id ≠ k := by
  rintro rfl
  obtain ⟨q, hq⟩ := Option.isSome_iff_exists.mp ((h.grounded n hn).isSome_of_above ha)
  obtain ⟨m, hm, hid, _, rfl⟩ := up_eq_some_iff.mp hq
  rw [h.numbered.apart.eq_of_id hm hn hid] at hq
  exact (h.grounded n hn).not_above_self hq ha

theorem Placed.grounded_container (h : c.Placed E) (hk : c.containers.contains k = true) :
    Grounded c.up (some k) := by
  obtain ⟨p, hp⟩ := Option.isSome_iff_exists.mp (contains_iff_up.mp hk)
  obtain ⟨n, hn, rfl, hf, rfl⟩ := up_eq_some_iff.mp hp
  exact .inside hp (h.grounded n hn)

/-! ## A node added -/

/-- A choreography with one more node than another. -/
def Adds (n : Node τ) (c d : Choreography τ) : Prop := ∀ m, m ∈ d.nodes ↔ m ∈ c.nodes ∨ m = n

theorem adds_event {e : Event τ} (hf : ¬ c.hasNode e.id = true) (he : d.events = c.events.insert e)
    (hx : d.containers = c.containers) : Adds (.event e) c d := by
  have hent : d.events.entries = c.events.entries ++ [e] := by
    rw [he]
    exact Store.entries_insert_of_ne fun f hm hk =>
      hf (hasNode_iff.mpr ⟨_, event_mem_nodes.mpr hm, hk⟩)
  intro m
  simp only [mem_nodes, hent, hx, List.mem_append, List.mem_singleton]
  constructor
  · intro h
    rcases h with ⟨x, hx, rfl⟩ | ⟨f, hf | rfl, rfl⟩
    · exact .inl (.inl ⟨x, hx, rfl⟩)
    · exact .inl (.inr ⟨f, hf, rfl⟩)
    · exact .inr rfl
  · intro h
    rcases h with (⟨x, hx, rfl⟩ | ⟨f, hf, rfl⟩) | rfl
    · exact .inl ⟨x, hx, rfl⟩
    · exact .inr ⟨f, .inl hf, rfl⟩
    · exact .inr ⟨e, .inr rfl, rfl⟩

theorem adds_container {x : Container τ} (hf : ¬ c.hasNode x.id = true)
    (hx : d.containers = c.containers.insert x) (he : d.events = c.events) :
    Adds (.container x) c d := by
  have hent : d.containers.entries = c.containers.entries ++ [x] := by
    rw [hx]
    exact Store.entries_insert_of_ne fun y hm hk =>
      hf (hasNode_iff.mpr ⟨_, container_mem_nodes.mpr hm, hk⟩)
  intro m
  simp only [mem_nodes, hent, he, List.mem_append, List.mem_singleton]
  constructor
  · intro h
    rcases h with ⟨y, hy | rfl, rfl⟩ | ⟨f, hf, rfl⟩
    · exact .inl (.inl ⟨y, hy, rfl⟩)
    · exact .inr rfl
    · exact .inl (.inr ⟨f, hf, rfl⟩)
  · intro h
    rcases h with (⟨y, hy, rfl⟩ | ⟨f, hf, rfl⟩) | rfl
    · exact .inl ⟨y, .inl hy, rfl⟩
    · exact .inr ⟨f, hf, rfl⟩
    · exact .inl ⟨x, .inr rfl, rfl⟩

section Adds

variable (ha : Adds n c d)
include ha

theorem Adds.hasNode_iff : d.hasNode id = true ↔ c.hasNode id = true ∨ id = n.id := by
  simp only [Choreography.hasNode_iff, ha _]
  constructor
  · intro h
    rcases h with ⟨m, hm | rfl, rfl⟩
    · exact .inl ⟨m, hm, rfl⟩
    · exact .inr rfl
  · intro h
    rcases h with ⟨m, hm, rfl⟩ | rfl
    · exact ⟨m, .inl hm, rfl⟩
    · exact ⟨n, .inr rfl, rfl⟩

theorem Adds.mem_children {a : String} :
    a ∈ d.children k ↔ a ∈ c.children k ∨ (a = n.id ∧ n.parent = some k) := by
  simp only [Choreography.mem_children, ha _]
  constructor
  · intro h
    rcases h with ⟨m, hm | rfl, rfl, hp⟩
    · exact .inl ⟨m, hm, rfl, hp⟩
    · exact .inr ⟨rfl, hp⟩
  · intro h
    rcases h with ⟨m, hm, rfl, hp⟩ | ⟨rfl, hp⟩
    · exact ⟨m, .inl hm, rfl, hp⟩
    · exact ⟨n, .inr rfl, rfl, hp⟩

theorem Adds.up_of_up {p : Option String} (hp : c.up id = some p) : d.up id = some p := by
  obtain ⟨m, hm, hid, hf, hp⟩ := up_eq_some_iff.mp hp
  exact up_eq_some_iff.mpr ⟨m, (ha m).mpr (.inl hm), hid, hf, hp⟩

theorem Adds.form?_of_ne (hk : k ≠ n.id) : d.form? k = c.form? k := by
  refine Option.ext fun f => ?_
  simp only [form?_eq_some_iff, ha _]
  constructor
  · intro h
    rcases h with ⟨m, hm | rfl, hid, hf⟩
    · exact ⟨m, hm, hid, hf⟩
    · exact absurd hid.symm hk
  · intro ⟨m, hm, hid, hf⟩
    exact ⟨m, .inl hm, hid, hf⟩

end Adds

/-- A node added under a new id, at the top level or in a container, is placed; it has no children
yet. -/
theorem Placed.add (h : c.Placed E) (ha : Adds n c d) (hid : n.id = (c.ids.allocate n.kind).1)
    (hids : d.ids = (c.ids.allocate n.kind).2)
    (hp : ∀ p, n.parent = some p → c.containers.contains p = true) : d.Placed (insert n.id E) := by
  obtain ⟨m, hm, hnew, hs, hrest⟩ := h.numbered.allocate n.kind
  rw [hm] at hid
  have hgrounded : ∀ {p}, Grounded c.up p → Grounded d.up p := fun hg => by
    refine hg.transfer fun a ha' => ?_
    obtain ⟨q, hq⟩ := Option.isSome_iff_exists.mp (hg.isSome_of_above ha')
    rw [hq, ha.up_of_up hq]
  refine ⟨⟨hids ▸ hs, fun l hl => ?_, fun kind l => ?_⟩, fun l hl => ?_, fun k hk hE hnil => ?_⟩
  · rcases (ha l).mp hl with hl | rfl
    · exact h.numbered.named l hl
    · exact ⟨m, hid⟩
  · rw [hids, hrest, h.numbered.free, ha.hasNode_iff, hid, not_or]
  · rcases (ha l).mp hl with hl | rfl
    · exact hgrounded (h.grounded l hl)
    · cases hp' : l.parent with
      | none => exact .top
      | some p => exact hgrounded (h.grounded_container (hp p hp'))
  · simp only [Set.mem_insert_iff, not_or] at hE
    rw [contains_iff_form?, ha.form?_of_ne hE.1, ← contains_iff_form?] at hk
    obtain ⟨a, ha'⟩ := List.exists_mem_of_ne_nil _ (h.inhabited k hk hE.2)
    have := ha.mem_children.mpr (.inl ha')
    rw [hnil] at this
    cases this

/-! ## Nodes removed -/

/-- A choreography without some nodes of another, together with all that is in them. -/
structure Removes (D : Set String) (c d : Choreography τ) : Prop where
  mem : ∀ m, m ∈ d.nodes ↔ m ∈ c.nodes ∧ m.id ∉ D
  closed : ∀ m ∈ c.nodes, ∀ p ∈ D, m.parent = some p → m.id ∈ D

section Removes

variable {D : Set String} (hr : Removes D c d)
include hr

theorem Removes.hasNode_iff : d.hasNode id = true ↔ c.hasNode id = true ∧ id ∉ D := by
  simp only [Choreography.hasNode_iff, hr.mem]
  constructor
  · intro h
    obtain ⟨m, ⟨hm, hD⟩, rfl⟩ := h
    exact ⟨⟨m, hm, rfl⟩, hD⟩
  · intro h
    obtain ⟨⟨m, hm, rfl⟩, hD⟩ := h
    exact ⟨m, ⟨hm, hD⟩, rfl⟩

theorem Removes.mem_children {a : String} : a ∈ d.children k ↔ a ∈ c.children k ∧ a ∉ D := by
  simp only [Choreography.mem_children, hr.mem]
  constructor
  · intro h
    obtain ⟨m, ⟨hm, hD⟩, rfl, hp⟩ := h
    exact ⟨⟨m, hm, rfl, hp⟩, hD⟩
  · intro h
    obtain ⟨⟨m, hm, rfl, hp⟩, hD⟩ := h
    exact ⟨m, ⟨hm, hD⟩, rfl, hp⟩

theorem Removes.mem_of_children {a : String} (ha : a ∈ c.children k) (hk : k ∈ D) : a ∈ D := by
  obtain ⟨m, hm, rfl, hp⟩ := Choreography.mem_children.mp ha
  exact hr.closed m hm k hk hp

theorem Removes.form?_of_not_mem (hk : k ∉ D) : d.form? k = c.form? k := by
  refine Option.ext fun f => ?_
  simp only [form?_eq_some_iff, hr.mem]
  constructor
  · intro ⟨m, ⟨hm, _⟩, hid, hf⟩
    exact ⟨m, hm, hid, hf⟩
  · intro ⟨m, hm, hid, hf⟩
    exact ⟨m, ⟨hm, hid ▸ hk⟩, hid, hf⟩

theorem Removes.form?_of_mem (hk : k ∈ D) : d.form? k = none := by
  refine Option.eq_none_iff_forall_ne_some.mpr fun f hf => ?_
  obtain ⟨m, hm, rfl, _⟩ := form?_eq_some_iff.mp hf
  exact ((hr.mem m).mp hm).2 hk

theorem Removes.up_of_not_mem (hk : k ∉ D) : d.up k = c.up k := by
  refine Option.ext fun p => ?_
  simp only [up_eq_some_iff, hr.mem]
  constructor
  · intro ⟨m, ⟨hm, _⟩, hid, hf⟩
    exact ⟨m, hm, hid, hf⟩
  · intro ⟨m, hm, hid, hf⟩
    exact ⟨m, ⟨hm, hid ▸ hk⟩, hid, hf⟩

theorem Removes.up_mono {p : Option String} (hp : d.up k = some p) : c.up k = some p := by
  obtain ⟨m, hm, hid, hform, hparent⟩ := up_eq_some_iff.mp hp
  exact up_eq_some_iff.mpr ⟨m, ((hr.mem m).mp hm).1, hid, hform, hparent⟩

theorem Removes.apart (ha : c.Apart) : d.Apart := fun e he x hx =>
  ha e (event_mem_nodes.mp ((hr.mem _).mp (event_mem_nodes.mpr he)).1) x
    (container_mem_nodes.mp ((hr.mem _).mp (container_mem_nodes.mpr hx)).1)

/-- What is left after two removals is what is left after both at once. -/
theorem Removes.trans {D' : Set String} {e : Choreography τ} (hr' : Removes D' d e) :
    Removes (D ∪ D') c e where
  mem m := by rw [hr'.mem, hr.mem, Set.mem_union, not_or, and_assoc]
  closed m hm p hp hparent := by
    by_cases hD : m.id ∈ D
    · exact .inl hD
    · rcases hp with hp | hp
      · exact .inl (hr.closed m hm p hp hparent)
      · exact .inr (hr'.closed m ((hr.mem m).mpr ⟨hm, hD⟩) p hp hparent)

end Removes

/-- Nothing is missing where the nodes are the same. -/
theorem Removes.of_nodes_eq (h : d.nodes = c.nodes) : Removes ∅ c d :=
  ⟨fun m => by rw [h]; simp, fun _ _ _ hp => hp.elim⟩

/-- A walk that meets an id starts right below it or passes a container that is right below it. -/
theorem Removes.mem_of_above {D : Set String} (hr : Removes D c d) {a : String} {p : Option String}
    (ha : Above c.up a p) (hD : a ∈ D) : ∃ q ∈ D, p = some q := by
  induction ha with
  | here => exact ⟨a, hD, rfl⟩
  | @up id p hu _ ih =>
    obtain ⟨q, hq, rfl⟩ := ih
    obtain ⟨m, hm, rfl, _, hp⟩ := up_eq_some_iff.mp hu
    exact ⟨m.id, hr.closed m hm q hq hp, rfl⟩

/-- What is above a node that stays is there as it was. -/
theorem Removes.above_iff {D : Set String} (hr : Removes D c d) (hm : m ∈ d.nodes) {a : String} :
    Above d.up a m.parent ↔ Above c.up a m.parent := by
  obtain ⟨hm, hD⟩ := (hr.mem m).mp hm
  refine ⟨fun ha => ha.mono fun _ _ => hr.up_mono, fun ha => ha.transfer fun b hb => ?_⟩
  refine hr.up_of_not_mem fun hbD => ?_
  obtain ⟨q, hq, hp⟩ := hr.mem_of_above hb hbD
  exact hD (hr.closed m hm q hq hp)

/-- What is left after a removal is placed; only the parents that lost a child may have none. -/
theorem Placed.remove {D : Set String} (h : c.Placed E) (hr : Removes D c d) (hs : d.ids.Sane)
    (hids : ∀ id, d.ids.Free id ↔ c.ids.Free id ∨ id ∈ D) :
    d.Placed (E ∪ {k | ∃ m ∈ c.nodes, m.id ∈ D ∧ m.parent = some k}) := by
  refine ⟨⟨hs, fun m hm => h.numbered.named m ((hr.mem m).mp hm).1, fun kind l => ?_⟩,
    fun m hm => ?_, fun k hk hE hnil => ?_⟩
  · rw [hids, h.numbered.free, hr.hasNode_iff, not_and_or, Classical.not_not]
  · obtain ⟨hm, hD⟩ := (hr.mem m).mp hm
    refine (h.grounded m hm).transfer fun a ha => hr.up_of_not_mem fun haD => ?_
    obtain ⟨q, hq, hp⟩ := hr.mem_of_above ha haD
    exact hD (hr.closed m hm q hq hp)
  · rw [Set.mem_union, not_or] at hE
    have hkD : k ∉ D := fun hkD => by
      rw [contains_iff_form?, hr.form?_of_mem hkD] at hk
      cases hk
    rw [contains_iff_form?, hr.form?_of_not_mem hkD, ← contains_iff_form?] at hk
    obtain ⟨a, ha⟩ := List.exists_mem_of_ne_nil _ (h.inhabited k hk hE.1)
    obtain ⟨m, hm, rfl, hp⟩ := Choreography.mem_children.mp ha
    by_cases hD : m.id ∈ D
    · exact hE.2 ⟨m, hm, hD, hp⟩
    · have := hr.mem_children.mpr ⟨ha, hD⟩
      rw [hnil] at this
      cases this

/-! ## Nodes drawn anew -/

/-- What the places of nodes depend on. -/
def skeleton (c : Choreography τ) : List (String × Option String × NodeKind) :=
  c.nodes.map fun n => (n.id, n.parent, n.kind)

section Skeleton

theorem exists_mem_skeleton {P : String → Option String → NodeKind → Prop} :
    (∃ n ∈ c.nodes, P n.id n.parent n.kind) ↔ ∃ s ∈ c.skeleton, P s.1 s.2.1 s.2.2 := by
  simp [skeleton]

variable (hs : d.skeleton = c.skeleton)
include hs

theorem exists_iff_of_skeleton (P : String → Option String → NodeKind → Prop) :
    (∃ n ∈ d.nodes, P n.id n.parent n.kind) ↔ ∃ n ∈ c.nodes, P n.id n.parent n.kind := by
  rw [exists_mem_skeleton, exists_mem_skeleton, hs]

theorem hasNode_of_skeleton : d.hasNode id = c.hasNode id := by
  rw [Bool.eq_iff_iff, hasNode_iff, hasNode_iff]
  exact exists_iff_of_skeleton hs fun i _ _ => i = id

theorem mem_children_of_skeleton {a : String} : a ∈ d.children k ↔ a ∈ c.children k := by
  rw [mem_children, mem_children]
  exact exists_iff_of_skeleton hs fun i p _ => i = a ∧ p = some k

theorem children_nil_of_skeleton : d.children k = [] ↔ c.children k = [] := by
  simp only [List.eq_nil_iff_forall_not_mem, mem_children_of_skeleton hs]

theorem up_of_skeleton : d.up = c.up := by
  funext j
  refine Option.ext fun p => ?_
  have hx : ∀ n : Node τ, n.form?.isSome = true ↔ n.kind ≠ .event := fun n => by
    rw [Ne, Node.kind_eq_event_iff, ← Ne, Option.isSome_iff_ne_none]
  simp only [up_eq_some_iff, hx]
  exact exists_iff_of_skeleton hs fun i q kind => i = j ∧ kind ≠ .event ∧ q = p

end Skeleton

/-- Nodes that are changed one by one keep the skeleton if each keeps its id, its parent and its
kind. -/
theorem skeleton_of_maps {f : Container τ → Container τ} {g : Event τ → Event τ}
    (hx : d.containers.entries = c.containers.entries.map f)
    (he : d.events.entries = c.events.entries.map g)
    (hf : ∀ x ∈ c.containers.entries, (f x).id = x.id ∧ (f x).parent = x.parent ∧
      (f x).kind = x.kind)
    (hg : ∀ e ∈ c.events.entries, (g e).id = e.id ∧ (g e).parent = e.parent) :
    d.skeleton = c.skeleton := by
  simp only [skeleton, nodes, hx, he, List.map_append, List.map_map]
  refine congrArg₂ _ (List.map_congr_left fun x hx => ?_) (List.map_congr_left fun e he => ?_)
  · obtain ⟨h1, h2, h3⟩ := hf x hx
    simp [Node.id, Node.parent, Node.kind, h1, h2, h3]
  · obtain ⟨h1, h2⟩ := hg e he
    simp [Node.id, Node.parent, Node.kind, h1, h2]

theorem form?_of_map {f : Container τ → Container τ}
    (hx : d.containers.entries = c.containers.entries.map f)
    (hf : ∀ x ∈ c.containers.entries, (f x).id = x.id)
    (hk : ∀ x ∈ c.containers.entries, x.id = k → (f x).form = x.form) : d.form? k = c.form? k := by
  refine Option.ext fun g => ?_
  simp only [form?, Option.map_eq_some_iff, Store.get?_eq_some_iff, hx, List.mem_map, key_container]
  constructor
  · intro h
    obtain ⟨_, ⟨⟨x, hmem, rfl⟩, hid⟩, rfl⟩ := h
    rw [hf x hmem] at hid
    exact ⟨x, ⟨hmem, hid⟩, (hk x hmem hid).symm⟩
  · intro h
    obtain ⟨x, ⟨hmem, hid⟩, rfl⟩ := h
    exact ⟨f x, ⟨⟨x, hmem, rfl⟩, (hf x hmem).trans hid⟩, hk x hmem hid⟩

theorem Placed.redraw (h : c.Placed E) (hs : d.skeleton = c.skeleton) (hi : d.ids = c.ids) :
    d.Placed E := by
  refine ⟨⟨hi ▸ h.numbered.sane, fun n hn => ?_, fun kind l => ?_⟩, fun n hn => ?_,
    fun k hk hE => ?_⟩
  · obtain ⟨m, hm, hid, hkind⟩ :=
      (exists_iff_of_skeleton hs fun i _ kind => i = n.id ∧ kind = n.kind).mp
      ⟨n, hn, rfl, rfl⟩
    rw [← hid, ← hkind]
    exact h.numbered.named m hm
  · rw [hi, hasNode_of_skeleton hs]
    exact h.numbered.free kind l
  · obtain ⟨m, hm, hp⟩ := (exists_iff_of_skeleton hs fun _ p _ => p = n.parent).mp ⟨n, hn, rfl⟩
    rw [up_of_skeleton hs, ← hp]
    exact h.grounded m hm
  · rw [contains_iff_up, up_of_skeleton hs, ← contains_iff_up] at hk
    exact fun hnil => h.inhabited k hk hE ((children_nil_of_skeleton hs).mp hnil)

/-! ## A node moved -/

section Move

variable {p : Option String} (ha : c.Apart)
include ha

theorem mem_nodes_setParent : m ∈ (c.setParent id p).nodes ↔
    ∃ n ∈ c.nodes, m = if n.id = id then n.withParent p else n := by
  rw [nodes_setParent ha, List.mem_map]
  exact exists_congr fun n => and_congr_right fun _ => eq_comm

theorem exists_setParent (P : String → Option String → Option ContainerForm → Prop) :
    (∃ m ∈ (c.setParent id p).nodes, P m.id m.parent m.form?) ↔
      ∃ n ∈ c.nodes, P n.id (if n.id = id then p else n.parent) n.form? := by
  simp only [mem_nodes_setParent ha]
  have hx : ∀ n : Node τ, P (if n.id = id then n.withParent p else n).id
      (if n.id = id then n.withParent p else n).parent
        (if n.id = id then n.withParent p else n).form? ↔
      P n.id (if n.id = id then p else n.parent) n.form? := fun n => by split <;> simp
  constructor
  · intro h
    obtain ⟨_, ⟨n, hn, rfl⟩, hm⟩ := h
    exact ⟨n, hn, (hx n).mp hm⟩
  · intro ⟨n, hn, hm⟩
    exact ⟨_, ⟨n, hn, rfl⟩, (hx n).mpr hm⟩

theorem hasNode_setParent {j : String} : (c.setParent id p).hasNode j = c.hasNode j := by
  rw [Bool.eq_iff_iff, hasNode_iff, hasNode_iff]
  exact exists_setParent ha fun i _ _ => i = j

theorem form?_setParent {j : String} : (c.setParent id p).form? j = c.form? j := by
  refine Option.ext fun f => ?_
  rw [form?_eq_some_iff, form?_eq_some_iff]
  exact exists_setParent ha fun i _ g => i = j ∧ g = some f

theorem Apart.setParent : (c.setParent id p).Apart := by
  intro e he x hx hid
  obtain ⟨l, hl, hle, hlf⟩ := (exists_setParent ha fun i _ f => i = e.id ∧ f = none).mp
    ⟨_, event_mem_nodes.mpr he, rfl, rfl⟩
  obtain ⟨m, hm, hmx, hmf⟩ := (exists_setParent ha fun i _ f => i = x.id ∧ f = some x.form).mp
    ⟨_, container_mem_nodes.mpr hx, rfl, rfl⟩
  rw [ha.eq_of_id hl hm (hle.trans (hid.trans hmx.symm)), hmf] at hlf
  cases hlf

/-- A node that is put where it stands stays as it is, and so do all others. -/
theorem nodes_setParent_self (hn : n ∈ c.nodes) : (c.setParent n.id n.parent).nodes = c.nodes := by
  rw [nodes_setParent ha]
  refine (List.map_congr_left fun m hm => ?_).trans (List.map_id _)
  split
  · next hid => rw [ha.eq_of_id hm hn hid, Node.withParent_parent, id]
  · rfl

theorem mem_children_setParent {a : String} : a ∈ (c.setParent id p).children k ↔
    (a = id ∧ c.hasNode id = true ∧ p = some k) ∨ (a ≠ id ∧ a ∈ c.children k) := by
  rw [mem_children, exists_setParent ha fun i q _ => i = a ∧ q = some k, mem_children, hasNode_iff]
  constructor
  · intro h
    obtain ⟨n, hn, rfl, hp⟩ := h
    by_cases hid : n.id = id
    · exact .inl ⟨hid, ⟨n, hn, hid⟩, by rwa [if_pos hid] at hp⟩
    · exact .inr ⟨hid, n, hn, rfl, by rwa [if_neg hid] at hp⟩
  · intro h
    rcases h with ⟨rfl, ⟨n, hn, hid⟩, hp⟩ | ⟨hne, n, hn, rfl, hp⟩
    · exact ⟨n, hn, hid, by rw [if_pos hid, hp]⟩
    · exact ⟨n, hn, rfl, by rw [if_neg hne, hp]⟩

theorem up_setParent_of_ne {j : String} (hj : j ≠ id) : (c.setParent id p).up j = c.up j := by
  refine Option.ext fun q => ?_
  rw [up_eq_some_iff, up_eq_some_iff, exists_setParent ha fun i q' f => i = j ∧ f.isSome ∧ q' = q]
  refine exists_congr fun n => and_congr_right fun _ => and_congr_right fun hid => ?_
  rw [if_neg (hid ▸ hj)]

theorem up_setParent_self : (c.setParent id p).up id = (c.up id).map fun _ => p := by
  refine Option.ext fun q => ?_
  rw [up_eq_some_iff, exists_setParent ha fun i q' f => i = id ∧ f.isSome ∧ q' = q,
    Option.map_eq_some_iff]
  constructor
  · intro ⟨n, hn, hid, hf, hq⟩
    exact ⟨n.parent, up_eq_some_iff.mpr ⟨n, hn, hid, hf, rfl⟩, by rwa [if_pos hid] at hq⟩
  · intro h
    obtain ⟨r, hr, rfl⟩ := h
    obtain ⟨n, hn, hid, hf, _⟩ := up_eq_some_iff.mp hr
    exact ⟨n, hn, hid, hf, if_pos hid⟩

end Move

theorem kind_of_form? (h : m.form? = n.form?) : m.kind = n.kind := by
  cases m <;> cases n <;> simp_all [Node.form?, Node.kind, Container.kind]

/-- A node that moves into a container, not one below it, is placed. The container it enters has a
child now; the one it leaves may have none. -/
theorem Placed.move {p : Option String} (h : c.Placed E) (hn : n ∈ c.nodes)
    (hp : ∀ q, p = some q → c.containers.contains q = true ∧ ¬ Above c.up n.id (some q)) :
    (c.setParent n.id p).Placed ((E \ {k | p = some k}) ∪ {k | n.parent = some k}) := by
  have ha := h.numbered.apart
  have hids : (c.setParent n.id p).ids = c.ids := by unfold setParent; split <;> rfl
  have htarget : Grounded (c.setParent n.id p).up p := by
    cases p with
    | none => exact .top
    | some q =>
      obtain ⟨hq, hnot⟩ := hp q rfl
      refine (h.grounded_container hq).transfer fun a hab => up_setParent_of_ne ha ?_
      intro he
      subst he
      exact hnot hab
  have hup : (c.setParent n.id p).up n.id = c.up n.id ∨
      ∃ q, (c.setParent n.id p).up n.id = some q ∧ Grounded (c.setParent n.id p).up q := by
    rw [up_setParent_self ha]
    cases c.up n.id with
    | none => exact .inl rfl
    | some _ => exact .inr ⟨p, rfl, htarget⟩
  refine ⟨⟨hids ▸ h.numbered.sane, fun m hm => ?_, fun kind l => ?_⟩, fun m hm => ?_,
    fun k hk hE hnil => ?_⟩
  · obtain ⟨l, hl, rfl⟩ := (mem_nodes_setParent ha).mp hm
    obtain ⟨i, hi⟩ := h.numbered.named l hl
    exact ⟨i, by split <;> simpa using hi⟩
  · rw [hids, hasNode_setParent ha]
    exact h.numbered.free kind l
  · obtain ⟨l, hl, rfl⟩ := (mem_nodes_setParent ha).mp hm
    split
    · simpa using htarget
    · exact (h.grounded l hl).redirect (fun j hj => up_setParent_of_ne ha hj) hup
  · rw [contains_iff_form?, form?_setParent ha, ← contains_iff_form?] at hk
    simp only [Set.mem_union, Set.mem_sdiff, Set.mem_ofPred_eq, not_or, not_and,
      Classical.not_not] at hE
    have hout : ∀ a, a ∉ (c.setParent n.id p).children k := fun a ha' => by
      rw [hnil] at ha'; cases ha'
    by_cases hpk : p = some k
    · exact hout n.id ((mem_children_setParent ha).mpr (.inl ⟨rfl, hasNode_of_mem hn, hpk⟩))
    · obtain ⟨a, hab⟩ := List.exists_mem_of_ne_nil _ (h.inhabited k hk fun hkE => hpk (hE.1 hkE))
      refine hout a ((mem_children_setParent ha).mpr (.inr ⟨?_, hab⟩))
      intro he
      subst he
      obtain ⟨m, hm, hid, hmp⟩ := mem_children.mp hab
      exact hE.2 (ha.eq_of_id hm hn hid ▸ hmp)

/-! ## A container under another id -/

/-- A choreography in which a container of another one has a new id and a new form. -/
structure Renames (old new : String) (form : ContainerForm) (c d : Choreography τ) : Prop where
  there : c.containers.contains old = true
  fresh : ¬ c.hasNode new = true
  back : ∀ m ∈ d.nodes, ∃ n ∈ c.nodes, m.id = renameId old new n.id ∧
    m.parent = n.parent.map (renameId old new) ∧ m.form? = if n.id = old then some form else n.form?
  forth : ∀ n ∈ c.nodes, ∃ m ∈ d.nodes, m.id = renameId old new n.id ∧
    m.parent = n.parent.map (renameId old new) ∧ m.form? = if n.id = old then some form else n.form?

theorem renameId_old {old new : String} : renameId old new old = new := if_pos rfl

theorem renameId_of_ne {old new a : String} (h : a ≠ old) : renameId old new a = a := if_neg h

theorem renameId_eq_new {old new a : String} (h : a ≠ new) : renameId old new a = new ↔ a = old := by
  by_cases ha : a = old
  · rw [ha, renameId_old, eq_self, eq_self]
  · rw [renameId_of_ne ha]
    exact iff_of_false h ha

theorem map_renameId_eq_new {old new : String} {p : Option String}
    (h : ∀ a, p = some a → a ≠ new) : p.map (renameId old new) = some new ↔ p = some old := by
  cases p with
  | none => simp
  | some a =>
    rw [Option.map_some, Option.some_inj, Option.some_inj]
    exact renameId_eq_new (h a rfl)

theorem renameId_eq_iff {old new a b : String} (hnew : b ≠ new) (hold : b ≠ old) :
    renameId old new a = b ↔ a = b := by
  by_cases ha : a = old
  · rw [ha, renameId_old]
    exact iff_of_false hnew.symm hold.symm
  · rw [renameId_of_ne ha]

/-- Renamed ids of nodes are as different as the ids were. -/
theorem renameId_injective {old new : String} (hf : ¬ c.hasNode new = true) {a b : String}
    (ha : c.hasNode a = true) (hb : c.hasNode b = true)
    (h : renameId old new a = renameId old new b) : a = b := by
  unfold renameId at h
  split at h <;> split at h
  · next h1 h2 => rw [h1, h2]
  · exact absurd (h ▸ hb) hf
  · exact absurd (h ▸ ha) hf
  · exact h

section Renames

variable {old new : String} {form : ContainerForm} (hr : Renames old new form c d)
include hr

theorem Renames.ne_new (ha : c.hasNode id = true) : id ≠ new := fun he => hr.fresh (he ▸ ha)

theorem Renames.injective {a b : String} (ha : c.hasNode a = true) (hb : c.hasNode b = true)
    (h : renameId old new a = renameId old new b) : a = b :=
  renameId_injective hr.fresh ha hb h

theorem Renames.hasNode_iff {j : String} :
    d.hasNode j = true ↔ ∃ a, c.hasNode a = true ∧ renameId old new a = j := by
  constructor
  · intro hj
    obtain ⟨m, hm, rfl⟩ := Choreography.hasNode_iff.mp hj
    obtain ⟨n, hn, hid, _⟩ := hr.back m hm
    exact ⟨n.id, hasNode_of_mem hn, hid.symm⟩
  · intro h
    obtain ⟨a, ha, rfl⟩ := h
    obtain ⟨n, hn, rfl⟩ := Choreography.hasNode_iff.mp ha
    obtain ⟨m, hm, hid, _⟩ := hr.forth n hn
    exact Choreography.hasNode_iff.mpr ⟨m, hm, hid⟩

theorem Renames.mem_children {a j : String} : a ∈ d.children j ↔
    ∃ b k, b ∈ c.children k ∧ a = renameId old new b ∧ j = renameId old new k := by
  constructor
  · intro ha
    obtain ⟨m, hm, rfl, hp⟩ := Choreography.mem_children.mp ha
    obtain ⟨n, hn, hid, hparent, _⟩ := hr.back m hm
    rw [hparent, Option.map_eq_some_iff] at hp
    obtain ⟨k, hk, rfl⟩ := hp
    exact ⟨n.id, k, mem_children_of hn hk, hid, rfl⟩
  · intro h
    obtain ⟨b, k, hb, rfl, rfl⟩ := h
    obtain ⟨n, hn, rfl, hp⟩ := Choreography.mem_children.mp hb
    obtain ⟨m, hm, hid, hparent, _⟩ := hr.forth n hn
    exact Choreography.mem_children.mpr ⟨m, hm, hid, by rw [hparent, hp]; rfl⟩

theorem Renames.form?_of_ne {j : String} (hnew : j ≠ new) (hold : j ≠ old) :
    d.form? j = c.form? j := by
  refine Option.ext fun f => ?_
  rw [form?_eq_some_iff, form?_eq_some_iff]
  constructor
  · intro ⟨m, hm, hid, hf⟩
    obtain ⟨n, hn, hmid, _, hform⟩ := hr.back m hm
    have hne : n.id ≠ old := fun he => hnew (by rw [← hid, hmid, he, renameId_old])
    rw [renameId_of_ne hne] at hmid
    rw [if_neg hne] at hform
    exact ⟨n, hn, hmid ▸ hid, hform ▸ hf⟩
  · intro h
    obtain ⟨n, hn, rfl, hf⟩ := h
    obtain ⟨m, hm, hmid, _, hform⟩ := hr.forth n hn
    exact ⟨m, hm, by rw [hmid, renameId_of_ne hold], by rw [hform, if_neg hold, hf]⟩

theorem Renames.form?_old : d.form? old = none := by
  refine Option.eq_none_iff_forall_ne_some.mpr fun f hf => ?_
  obtain ⟨m, hm, hid, _⟩ := form?_eq_some_iff.mp hf
  obtain ⟨n, hn, hmid, _⟩ := hr.back m hm
  rw [hid] at hmid
  by_cases hne : n.id = old
  · rw [hne, renameId_old] at hmid
    exact hr.ne_new (hasNode_of_contains hr.there) hmid
  · exact hne (by rw [hmid, renameId_of_ne hne])

theorem Renames.up_of_up {p : Option String} (hp : c.up id = some p) :
    d.up (renameId old new id) = some (p.map (renameId old new)) := by
  obtain ⟨n, hn, rfl, hf, rfl⟩ := up_eq_some_iff.mp hp
  obtain ⟨m, hm, hid, hparent, hform⟩ := hr.forth n hn
  refine up_eq_some_iff.mpr ⟨m, hm, hid, ?_, hparent⟩
  rw [hform]
  split
  · rfl
  · exact hf

/-- The old id names no node any more. -/
theorem Renames.not_hasNode_old : ¬ d.hasNode old = true := by
  intro hold
  obtain ⟨a, ha, hren⟩ := hr.hasNode_iff.mp hold
  by_cases hao : a = old
  · rw [hao, renameId_old] at hren
    exact hr.fresh (hren ▸ hasNode_of_contains hr.there)
  · exact hao ((renameId_of_ne hao).symm.trans hren)

end Renames

/-- The numbers are those of the pools again if the new id was free and the old one is free now. -/
theorem Numbered.rename {old new : String} {form : ContainerForm} (h : c.Numbered)
    (hr : Renames old new form c d)
    (hnew : ∃ l, new = form.kind.node.ident l) (hs : d.ids.Sane)
    (hids : ∀ id, d.ids.Free id ↔ (c.ids.Free id ∧ id ≠ new) ∨ id = old) : d.Numbered := by
  have hold := hasNode_of_contains hr.there
  refine ⟨hs, fun m hm => ?_, fun kind l => ?_⟩
  · obtain ⟨n, hn, hid, _, hform⟩ := hr.back m hm
    by_cases hne : n.id = old
    · rw [hne, renameId_old] at hid
      rw [if_pos hne] at hform
      obtain ⟨l, rfl⟩ := hnew
      refine ⟨l, hid.trans (congrArg (NodeKind.ident · l) ?_)⟩
      cases m with
      | event e => cases hform
      | container x => cases hform; rfl
    · rw [renameId_of_ne hne] at hid
      rw [if_neg hne] at hform
      obtain ⟨l, hl⟩ := h.named n hn
      exact ⟨l, by rw [hid, hl, kind_of_form? hform]⟩
  · rw [hids, h.free, hr.hasNode_iff]
    constructor
    · intro hor ⟨a, ha, hj⟩
      rcases hor with ⟨hfree, hne⟩ | hi
      · by_cases hao : a = old
        · rw [hao, renameId_old] at hj
          exact hne hj.symm
        · rw [renameId_of_ne hao] at hj
          exact hfree (hj ▸ ha)
      · rw [hi] at hj
        by_cases hao : a = old
        · rw [hao, renameId_old] at hj
          exact hr.ne_new hold hj.symm
        · rw [renameId_of_ne hao] at hj
          exact hao hj
    · intro hnone
      by_cases hi : kind.ident l = old
      · exact .inr hi
      · refine .inl ⟨fun hl => hnone ⟨_, hl, renameId_of_ne hi⟩, fun hl => hnone ⟨old, hold, ?_⟩⟩
        rw [renameId_old, hl]

/-- A choreography is placed after a container has got a new id of its new kind. -/
theorem Placed.rename {old new : String} {form : ContainerForm} (h : c.Placed ∅)
    (hr : Renames old new form c d) (hnew : ∃ l, new = form.kind.node.ident l) (hs : d.ids.Sane)
    (hids : ∀ id, d.ids.Free id ↔ (c.ids.Free id ∧ id ≠ new) ∨ id = old) : d.Placed ∅ := by
  refine ⟨h.numbered.rename hr hnew hs hids, fun m hm => ?_, fun k hk _ hnil => ?_⟩
  · obtain ⟨n, hn, _, hp, _⟩ := hr.back m hm
    rw [hp]
    exact (h.grounded n hn).rename _ fun _ _ hu => hr.up_of_up hu
  · obtain ⟨m, hm, rfl, hf⟩ := contains_iff_node.mp hk
    obtain ⟨n, hn, hid, _, hform⟩ := hr.back m hm
    have hc : c.containers.contains n.id = true := by
      by_cases hne : n.id = old
      · rw [hne]; exact hr.there
      · rw [if_neg hne] at hform
        exact contains_iff_node.mpr ⟨n, hn, rfl, hform ▸ hf⟩
    obtain ⟨b, hb⟩ := List.exists_mem_of_ne_nil _ (h.inhabited n.id hc (by simp))
    have := hr.mem_children.mpr ⟨b, n.id, hb, rfl, hid⟩
    rw [hnil] at this
    cases this

end Dcr.Choreography
