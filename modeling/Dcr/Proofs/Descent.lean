import Dcr.Proofs.Family
import Mathlib.Logic.Relation

/-! Families by parent links. A path of links to a node goes through containers only, if no event has a
node inside; so the search downwards finds just the nodes from which such a path leads to its start,
also where links form a cycle or lead to no node. A container may not move into its own family, and
that is to say that the move would close a cycle. -/

namespace Dcr.Choreography

variable {τ : Type} [FreeText τ] {c : Choreography τ} {s : Search} {id a b k : String}

/-! ## Rounds -/

/-- What a search finds, unless it takes more rounds than allowed. -/
def searchWithin? (c : Choreography τ) : Nat → Search → Option (List String)
  | 0, _ => none
  | _ + 1, ⟨found, []⟩ => some found
  | rounds + 1, ⟨found, id :: frontier⟩ =>
    c.searchWithin? rounds ((c.children id).foldl c.meet ⟨found, frontier⟩)

/-- Each id to be looked into takes a round, and so does each container still to be found. -/
theorem searchWithin?_eq {rounds : Nat}
    (h : s.frontier.length + (c.unfound s).length < rounds) :
    c.searchWithin? rounds s = some (c.search s) := by
  induction rounds generalizing s with
  | zero => omega
  | succ rounds ih =>
    obtain ⟨found, frontier⟩ := s
    cases frontier with
    | nil => rw [searchWithin?, search]
    | cons id frontier =>
      have hle := remaining_meet_foldl c ⟨found, frontier⟩ (c.children id)
      have hone : (c.unfound ⟨found, id :: frontier⟩).length =
          (c.unfound ⟨found, frontier⟩).length := rfl
      simp only [List.length_cons, hone] at h hle
      rw [searchWithin?, search, ih (by omega)]

/-! ## Links -/

/-- A parent link leads from one id to another. -/
def Link (c : Choreography τ) (a b : String) : Prop := ∃ n ∈ c.nodes, n.id = a ∧ n.parent = some b

/-- No node is inside an event. -/
def Eventless (c : Choreography τ) : Prop :=
  ∀ n ∈ c.nodes, ∀ k, n.parent = some k → c.events.contains k = false

theorem link_iff : c.Link a b ↔ a ∈ c.children b := mem_children.symm

theorem Below.path (h : c.Below id a) : Relation.TransGen c.Link a id := by
  induction h with
  | child ha => exact .single (link_iff.mpr ha)
  | within _ _ ha ih => exact .head (link_iff.mpr ha) ih

/-- What a link leads from and to at once is a container. -/
theorem Eventless.contains (h : c.Eventless) (ha : c.Link a k) (hk : c.Link k b) :
    c.containers.contains k = true := by
  obtain ⟨n, hn, -, hp⟩ := ha
  obtain ⟨m, hm, rfl, -⟩ := hk
  have hnode := hasNode_of_mem hm
  rwa [hasNode_eq, h n hn _ hp, Bool.false_or] at hnode

theorem Eventless.below (h : c.Eventless) (hpath : Relation.TransGen c.Link a id) : c.Below id a := by
  induction hpath using Relation.TransGen.head_induction_on with
  | single ha => exact .child (link_iff.mp ha)
  | @head a k ha hrest ih =>
    obtain ⟨b, hk, -⟩ := Relation.TransGen.head'_iff.mp hrest
    exact .within ih (h.contains ha hk) (link_iff.mp ha)

/-! ## Moves -/

/-- A path to an id does not use the links from it. -/
theorem path_of_ne {r q : String → String → Prop} (hsame : ∀ a b, a ≠ id → r a b → q a b)
    (h : Relation.TransGen r a id) (hne : a ≠ id) : Relation.TransGen q a id := by
  induction h using Relation.TransGen.head_induction_on with
  | single ha => exact .single (hsame _ _ hne ha)
  | @head a b ha _ ih =>
    by_cases hb : b = id
    · exact .single (hb ▸ hsame _ _ hne ha)
    · exact .head (hsame _ _ hne ha) (ih hb)

/-- A move leaves the other nodes as they are. -/
theorem mem_nodes_setParent_of_ne {n : Node τ} {p : Option String} (hne : n.id ≠ id) :
    n ∈ (c.setParent id p).nodes ↔ n ∈ c.nodes := by
  unfold setParent
  split <;> cases n
  · rw [event_mem_nodes, event_mem_nodes, Store.mem_modify_of_ne hne]
  · rw [container_mem_nodes, container_mem_nodes]
  · rw [event_mem_nodes, event_mem_nodes]
  · rw [container_mem_nodes, container_mem_nodes, Store.mem_modify_of_ne hne]

theorem link_setParent_of_ne {p : Option String} (hne : a ≠ id) :
    (c.setParent id p).Link a b ↔ c.Link a b := by
  refine exists_congr fun n => ?_
  constructor
  · rintro ⟨hn, rfl, hp⟩
    exact ⟨(mem_nodes_setParent_of_ne hne).mp hn, rfl, hp⟩
  · rintro ⟨hn, rfl, hp⟩
    exact ⟨(mem_nodes_setParent_of_ne hne).mpr hn, rfl, hp⟩

theorem link_setParent (hid : c.containers.contains id = true) :
    (c.setParent id (some k)).Link id k := by
  unfold setParent
  split
  · next hevent =>
    obtain ⟨e, he, rfl⟩ := Store.contains_iff.mp hevent
    refine ⟨.event { e with parent := some k }, ?_, rfl, rfl⟩
    rw [event_mem_nodes, Store.mem_modify]
    exact ⟨e, he, (if_pos rfl).symm⟩
  · obtain ⟨x, hx, rfl⟩ := Store.contains_iff.mp hid
    refine ⟨.container { x with parent := some k }, ?_, rfl, rfl⟩
    rw [container_mem_nodes, Store.mem_modify]
    exact ⟨x, hx, (if_pos rfl).symm⟩

/-! ## Families -/

/-- The search for the family of a node comes to an end within one round for each container and one
more, and finds the nodes from which links lead to that node, each once. -/
structure Finds (c : Choreography τ) (id : String) : Prop where
  ends : ∀ rounds, c.containers.keys.length + 1 < rounds →
    c.searchWithin? rounds ⟨[], [id]⟩ = some (c.family id)
  nodup : (c.family id).Nodup
  mem_iff : ∀ a, a ∈ c.family id ↔ Relation.TransGen c.Link a id

theorem Eventless.mem_family_iff (h : c.Eventless) :
    a ∈ c.family id ↔ Relation.TransGen c.Link a id :=
  mem_family.trans ⟨Below.path, h.below⟩

theorem Eventless.finds (h : c.Eventless) : c.Finds id where
  ends rounds hrounds := by
    have hunfound : (c.unfound ⟨[], [id]⟩).length ≤ c.containers.keys.length :=
      List.length_filter_le _ _
    exact searchWithin?_eq (by simp only [List.length_singleton]; omega)
  nodup := nodup_family
  mem_iff _ := h.mem_family_iff

/-- A container may not move into another one because of a cycle just if that one is in its family. -/
theorem parentRejection?_eq_cyclic_iff (hid : c.containers.contains id = true)
    (hk : c.containers.contains k = true) (hne : k ≠ id) :
    c.parentRejection? id (some k) = some .cyclicParent ↔ k ∈ c.family id := by
  unfold parentRejection?
  simp [hid, hk, hne]

/-- A link from an id closes a cycle with a path back to it. -/
theorem cycle_iff_path (hid : c.containers.contains id = true) (hne : k ≠ id) :
    (Relation.TransGen (c.setParent id (some k)).Link id k ∧
      Relation.TransGen (c.setParent id (some k)).Link k id) ↔ Relation.TransGen c.Link k id := by
  constructor
  · rintro ⟨-, hback⟩
    exact path_of_ne (fun a b ha => (link_setParent_of_ne ha).mp) hback hne
  · intro hback
    exact ⟨.single (link_setParent hid),
      path_of_ne (fun a b ha => (link_setParent_of_ne ha).mpr) hback hne⟩

/-- Where no node is inside an event, a family is what parent links lead from, and moving a container
into another one is refused as a cycle just if the two would be on a cycle of links. -/
theorem family_exact (h : c.Eventless) :
    (∀ id, c.Finds id) ∧
      ∀ x p, c.containers.contains x = true → c.containers.contains p = true → p ≠ x →
        (c.parentRejection? x (some p) = some .cyclicParent ↔
          Relation.TransGen (c.setParent x (some p)).Link x p ∧
            Relation.TransGen (c.setParent x (some p)).Link p x) := by
  refine ⟨fun id => h.finds, fun x p hx hp hne => ?_⟩
  rw [parentRejection?_eq_cyclic_iff hx hp hne, h.mem_family_iff, cycle_iff_path hx hne]

/-- Two nests inside one another with an event, a nest inside another one, and an event inside of
nothing that there is. -/
def circling : Choreography String where
  containers := ⟨[{ id := "n0", label := "n0", parent := some "n1" },
    { id := "n1", label := "n1", parent := some "n0" }, { id := "n2", label := "n2" },
    { id := "n3", label := "n3", parent := some "n2" }], by decide⟩
  events := ⟨[{ id := "e0", label := "e0", parent := some "n0" },
    { id := "e1", label := "e1", parent := some "n9" }], by decide⟩

/-- Of the two nests each is in its own family, and the outer one of the others may not move into the
inner one. -/
theorem family_exact_circling : circling.Eventless ∧ circling.family "n0" = ["n1", "e0", "n0"] ∧
    Relation.TransGen circling.Link "n0" "n0" ∧ circling.family "n9" = ["e1"] ∧
    Relation.TransGen (circling.setParent "n2" (some "n3")).Link "n2" "n3" ∧
    Relation.TransGen (circling.setParent "n2" (some "n3")).Link "n3" "n2" := by
  have heventless : circling.Eventless := by
    unfold Eventless
    decide +kernel
  have hfamily : circling.family "n0" = ["n1", "e0", "n0"] := by decide +kernel
  obtain ⟨hfinds, hcyclic⟩ := family_exact heventless
  have hself := ((hfinds "n0").mem_iff "n0").mp (by rw [hfamily]; decide)
  have hrefused : circling.parentRejection? "n2" (some "n3") = some .cyclicParent := by
    decide +kernel
  obtain ⟨hthere, hback⟩ :=
    (hcyclic "n2" "n3" (by decide) (by decide) (by decide)).mp hrefused
  exact ⟨heventless, hfamily, hself, by decide +kernel, hthere, hback⟩

end Dcr.Choreography
