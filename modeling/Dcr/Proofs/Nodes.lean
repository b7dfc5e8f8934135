import Dcr.Containment.Settling
import Dcr.Containment.Deletion
import Dcr.Proofs.Identifiers
import Dcr.Proofs.Stores

/-! Nodes as one collection. Everything that containment asks about a choreography is a question
about its list of nodes; each primitive change is described by the nodes it leaves. -/

namespace Dcr

open Keyed (key)

variable {τ : Type} [FreeText τ] {c d : Choreography τ} {id k : String} {n : Node τ}

@[simp] theorem key_event (e : Event τ) : key e = e.id := rfl

@[simp] theorem key_container {α : Type} (x : Container α) : key x = x.id := rfl

@[simp] theorem key_relation (r : Relation τ) : key r = r.id := rfl

@[simp] theorem ContainerForm.kind_ofKind (kind : ContainerKind) (type : Option NestType) :
    (ContainerForm.ofKind kind type).kind = kind := by
  cases kind <;> rfl

/-! ## What containment sees of a node -/

namespace Node

/-- The form of a container; an event has none. -/
def form? : Node τ → Option ContainerForm
  | event _ => none
  | container x => some x.form

/-- The node inside another container. -/
def withParent (parent : Option String) : Node τ → Node τ
  | event e => event { e with parent }
  | container x => container { x with parent }

@[simp] theorem id_withParent (p : Option String) : (n.withParent p).id = n.id := by cases n <;> rfl

@[simp] theorem parent_withParent (p : Option String) : (n.withParent p).parent = p := by
  cases n <;> rfl

@[simp] theorem kind_withParent (p : Option String) : (n.withParent p).kind = n.kind := by
  cases n <;> rfl

@[simp] theorem form?_withParent (p : Option String) : (n.withParent p).form? = n.form? := by
  cases n <;> rfl

@[simp] theorem withParent_withParent (p q : Option String) :
    (n.withParent p).withParent q = n.withParent q := by cases n <;> rfl

@[simp] theorem withParent_parent : n.withParent n.parent = n := by cases n <;> rfl

theorem kind_eq_event_iff : n.kind = .event ↔ n.form? = none := by
  cases n with
  | event e => simp [kind, form?]
  | container x =>
    have : x.kind.node ≠ .event := by cases x.kind <;> simp [ContainerKind.node]
    simpa [kind, form?] using this

end Node

namespace Choreography

/-- The place of a container, if there is one under an id. -/
def up (c : Choreography τ) (id : String) : Option (Option String) :=
  (c.containers.get? id).map Container.parent

/-- The form of a container, if there is one under an id. -/
def form? (c : Choreography τ) (id : String) : Option ContainerForm :=
  (c.containers.get? id).map Container.form

theorem mem_nodes : n ∈ c.nodes ↔
    (∃ x ∈ c.containers.entries, .container x = n) ∨ ∃ e ∈ c.events.entries, .event e = n := by
  simp [nodes]

theorem container_mem_nodes {x : Container τ} :
    .container x ∈ c.nodes ↔ x ∈ c.containers.entries := by
  simp [mem_nodes]

theorem event_mem_nodes {e : Event τ} : .event e ∈ c.nodes ↔ e ∈ c.events.entries := by
  simp [mem_nodes]

theorem get?_container_iff {x : Container τ} :
    c.containers.get? id = some x ↔ .container x ∈ c.nodes ∧ x.id = id := by
  rw [container_mem_nodes]; exact Store.get?_eq_some_iff

theorem up_eq_some_iff {p : Option String} :
    c.up id = some p ↔ ∃ n ∈ c.nodes, n.id = id ∧ n.form?.isSome ∧ n.parent = p := by
  simp only [up, Option.map_eq_some_iff, get?_container_iff]
  constructor
  · intro h
    obtain ⟨x, ⟨hx, rfl⟩, rfl⟩ := h
    exact ⟨_, hx, rfl, rfl, rfl⟩
  · intro h
    obtain ⟨n, hn, rfl, hf, rfl⟩ := h
    cases n with
    | event e => cases hf
    | container x => exact ⟨x, ⟨hn, rfl⟩, rfl⟩

theorem form?_eq_some_iff {f : ContainerForm} :
    c.form? id = some f ↔ ∃ n ∈ c.nodes, n.id = id ∧ n.form? = some f := by
  simp only [form?, Option.map_eq_some_iff, get?_container_iff]
  constructor
  · intro h
    obtain ⟨x, ⟨hx, rfl⟩, rfl⟩ := h
    exact ⟨_, hx, rfl, rfl⟩
  · intro h
    obtain ⟨n, hn, rfl, hf⟩ := h
    cases n with
    | event e => cases hf
    | container x => exact ⟨x, ⟨hn, rfl⟩, Option.some.inj hf⟩

theorem form?_container {x : Container τ} (hx : x ∈ c.containers.entries) :
    c.form? x.id = some x.form :=
  form?_eq_some_iff.mpr ⟨_, container_mem_nodes.mpr hx, rfl, rfl⟩

theorem up_container {x : Container τ} (hx : x ∈ c.containers.entries) :
    c.up x.id = some x.parent :=
  up_eq_some_iff.mpr ⟨_, container_mem_nodes.mpr hx, rfl, rfl, rfl⟩

theorem contains_iff_up : c.containers.contains id = true ↔ (c.up id).isSome := by
  simp [up, Store.contains]

theorem contains_iff_form? : c.containers.contains id = true ↔ (c.form? id).isSome := by
  simp [form?, Store.contains]

theorem contains_iff_node :
    c.containers.contains id = true ↔ ∃ n ∈ c.nodes, n.id = id ∧ n.form?.isSome := by
  rw [contains_iff_up, Option.isSome_iff_exists]
  constructor
  · intro ⟨p, hp⟩
    obtain ⟨n, hn, hid, hf, _⟩ := up_eq_some_iff.mp hp
    exact ⟨n, hn, hid, hf⟩
  · intro ⟨n, hn, hid, hf⟩
    exact ⟨n.parent, up_eq_some_iff.mpr ⟨n, hn, hid, hf, rfl⟩⟩

theorem node?_mem (h : c.node? id = some n) : n ∈ c.nodes ∧ n.id = id := by
  unfold node? at h
  split at h
  · next e he =>
    obtain ⟨hm, hk⟩ := Store.get?_eq_some_iff.mp he
    cases h
    exact ⟨event_mem_nodes.mpr hm, hk⟩
  · obtain ⟨x, hx, rfl⟩ := Option.map_eq_some_iff.mp h
    exact get?_container_iff.mp hx

theorem hasNode_iff : c.hasNode id = true ↔ ∃ n ∈ c.nodes, n.id = id := by
  rw [hasNode, Option.isSome_iff_exists]
  refine ⟨fun ⟨n, hn⟩ => ⟨n, node?_mem hn⟩, ?_⟩
  intro h
  obtain ⟨n, hn, rfl⟩ := h
  unfold node?
  split
  · exact ⟨_, rfl⟩
  · next he =>
    cases n with
    | event e => exact absurd rfl (Store.get?_eq_none_iff.mp he e (event_mem_nodes.mp hn))
    | container x =>
      have hx : c.containers.get? x.id = some x := get?_container_iff.mpr ⟨hn, rfl⟩
      exact ⟨.container x, by simp [Node.id, hx]⟩

theorem hasNode_eq (c : Choreography τ) (id : String) :
    c.hasNode id = (c.events.contains id || c.containers.contains id) := by
  unfold hasNode node? Store.contains
  cases c.events.get? id <;> simp

theorem hasNode_of_mem (hn : n ∈ c.nodes) : c.hasNode n.id = true := hasNode_iff.mpr ⟨n, hn, rfl⟩

theorem hasNode_of_contains (h : c.containers.contains id = true) : c.hasNode id = true := by
  obtain ⟨n, hn, hid, _⟩ := contains_iff_node.mp h
  exact hasNode_iff.mpr ⟨n, hn, hid⟩

theorem mem_children {a : String} :
    a ∈ c.children k ↔ ∃ n ∈ c.nodes, n.id = a ∧ n.parent = some k := by
  simp only [children, List.mem_map, List.mem_filter, beq_iff_eq]
  exact exists_congr fun n =>
    ⟨fun ⟨⟨hn, hp⟩, hid⟩ => ⟨hn, hid, hp⟩, fun ⟨hn, hid, hp⟩ => ⟨⟨hn, hp⟩, hid⟩⟩

theorem mem_children_of (hn : n ∈ c.nodes) (hp : n.parent = some k) : n.id ∈ c.children k :=
  mem_children.mpr ⟨n, hn, rfl, hp⟩

theorem hasNode_of_mem_children {a : String} (h : a ∈ c.children k) : c.hasNode a = true := by
  obtain ⟨m, hm, rfl, _⟩ := mem_children.mp h
  exact hasNode_of_mem hm

theorem children_eq_nil_iff : c.children k = [] ↔ ∀ n ∈ c.nodes, n.parent ≠ some k := by
  simp [children]

/-! ## Nodes apart -/

/-- No event and container share an id. -/
def Apart (c : Choreography τ) : Prop :=
  ∀ e ∈ c.events.entries, ∀ x ∈ c.containers.entries, e.id ≠ x.id

theorem Apart.eq_of_id (h : c.Apart) {m : Node τ} (hm : m ∈ c.nodes) (hn : n ∈ c.nodes)
    (he : m.id = n.id) : m = n := by
  cases m with
  | event e =>
    cases n with
    | event f =>
      rw [Store.eq_of_key (event_mem_nodes.mp hm) (event_mem_nodes.mp hn) he]
    | container x => exact absurd he (h e (event_mem_nodes.mp hm) x (container_mem_nodes.mp hn))
  | container x =>
    cases n with
    | event e => exact absurd he.symm (h e (event_mem_nodes.mp hn) x (container_mem_nodes.mp hm))
    | container y =>
      rw [Store.eq_of_key (container_mem_nodes.mp hm) (container_mem_nodes.mp hn) he]

theorem Apart.node?_of_mem (h : c.Apart) (hn : n ∈ c.nodes) : c.node? n.id = some n := by
  obtain ⟨m, hm⟩ := Option.isSome_iff_exists.mp (hasNode_of_mem hn)
  obtain ⟨hmem, hid⟩ := node?_mem hm
  rw [hm, h.eq_of_id hmem hn hid]

theorem Apart.nodup_ids (h : c.Apart) : (c.nodes.map Node.id).Nodup := by
  have hc : c.nodes.map Node.id = c.containers.entries.map Container.id ++
      c.events.entries.map Event.id := by
    simp [nodes, Function.comp_def, Node.id]
  rw [hc, List.nodup_append]
  refine ⟨c.containers.distinct, c.events.distinct, ?_⟩
  intro a ha b hb
  obtain ⟨x, hx, rfl⟩ := List.mem_map.mp ha
  obtain ⟨e, he, rfl⟩ := List.mem_map.mp hb
  exact (h e he x hx).symm

/-- A node has one place: it is a child of at most one container. -/
theorem Apart.parent_unique (h : c.Apart) {a j : String} (hj : a ∈ c.children j)
    (hk : a ∈ c.children k) :
    j = k := by
  obtain ⟨m, hm, hid, hp⟩ := mem_children.mp hj
  obtain ⟨n, hn, rfl, hq⟩ := mem_children.mp hk
  rw [h.eq_of_id hm hn hid, hq] at hp
  exact (Option.some.inj hp).symm

theorem Apart.nodup_children (h : c.Apart) : (c.children k).Nodup :=
  h.nodup_ids.sublist (List.filter_sublist.map _)

/-! ## Nodes after a change -/

theorem nodes_setParent (h : c.Apart) (p : Option String) :
    (c.setParent id p).nodes = c.nodes.map fun n => if n.id = id then n.withParent p else n := by
  unfold setParent
  split
  · next hc =>
    obtain ⟨e, he, rfl⟩ := Store.contains_iff.mp hc
    have hx : ∀ x ∈ c.containers.entries, Node.container x =
        if x.id = e.id then (Node.container x).withParent p else .container x :=
      fun x hx => (if_neg fun hid => h e he x hx hid.symm).symm
    simp only [nodes, Store.entries_modify, List.map_append, List.map_map, beq_iff_eq]
    refine congrArg₂ _ (List.map_congr_left hx) (List.map_congr_left fun f _ => ?_)
    by_cases hf : f.id = e.id <;> simp [Node.id, Node.withParent, hf]
  · next hc =>
    have hx : ∀ e ∈ c.events.entries, Node.event e =
        if e.id = id then (Node.event e).withParent p else .event e :=
      fun e he => (if_neg fun hid => hc (Store.contains_iff.mpr ⟨e, he, hid⟩)).symm
    simp only [nodes, Store.entries_modify, List.map_append, List.map_map, beq_iff_eq]
    refine congrArg₂ _ (List.map_congr_left fun x _ => ?_) (List.map_congr_left hx)
    by_cases hf : x.id = id <;> simp [Node.id, Node.withParent, hf]

theorem nodes_eraseNode (h : c.Apart) :
    (c.eraseNode id).nodes = c.nodes.filter fun n => n.id != id := by
  have hf : ∀ d : Choreography τ, d.nodes.filter (fun n => n.id != id) =
      (d.containers.entries.filter fun x => x.id != id).map .container ++
        (d.events.entries.filter fun e => e.id != id).map .event := by
    intro d
    simp only [nodes, List.filter_append, List.filter_map]
    rfl
  rw [hf]
  unfold eraseNode
  split
  · next hc =>
    obtain ⟨e, he, rfl⟩ := Store.contains_iff.mp hc
    rw [List.filter_eq_self.mpr fun x hx => by simpa using fun hid => h e he x hx hid.symm]
    rfl
  · next hc =>
    have he : c.events.entries.filter (fun e => e.id != id) = c.events.entries :=
      List.filter_eq_self.mpr fun e he => by
        simpa using fun hid => hc (Store.contains_iff.mpr ⟨e, he, hid⟩)
    rw [he]
    rfl

end Choreography

end Dcr
