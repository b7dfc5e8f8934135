import Dcr.Proofs.Deletion
import Dcr.Proofs.Upkeep

/-! Containers that leave. Settling takes containers away one at a time, each of them empty by then,
and tells of each. However it goes about it, where in the end no container is empty and walks
upwards end, exactly those have gone that no event was below. -/

namespace Dcr

variable {τ : Type} [FreeText τ]

/-- What is told of a container that goes. -/
def Container.farewell (x : Container τ) : Notice :=
  .advice ("Removed empty " ++ x.kind.name ++ ": " ++ x.id ++ ".")

/-- The notices of a log that are not for debugging only. -/
def Notice.prominent (log : List Notice) : List Notice := log.filter fun n => n.level ≠ .debug

@[simp] theorem Notice.prominent_append (log more : List Notice) :
    prominent (log ++ more) = prominent log ++ prominent more :=
  List.filter_append ..

theorem Notice.prominent_eq_nil {log : List Notice} (h : ∀ n ∈ log, n.level = .debug) :
    prominent log = [] :=
  List.filter_eq_nil_iff.mpr fun n hn => by simp [h n hn]

namespace Choreography

variable {b c d e : Choreography τ} {gone more : List (Container τ)} {log later : List Notice}
  {n : Node τ} {x : Container τ} {id k : String} {p : Option String}

/-! ## Nodes taken away -/

/-- The nodes of a choreography without some of its containers. -/
def Drops (ids : List String) (c d : Choreography τ) : Prop :=
  Removes {k | k ∈ ids} c d ∧ ∀ k ∈ ids, c.containers.contains k = true

theorem drops_nil {d : Choreography τ} (h : d.nodes = c.nodes) : Drops [] c d := by
  refine ⟨?_, fun _ hk => absurd hk List.not_mem_nil⟩
  simpa using Removes.of_nodes_eq h

theorem Drops.trans {ids ids' : List String} {d e : Choreography τ} (h : Drops ids c d)
    (h' : Drops ids' d e) : Drops (ids ++ ids') c e := by
  refine ⟨?_, fun k hk => ?_⟩
  · have hremoves := h.1.trans h'.1
    rwa [show {k | k ∈ ids} ∪ {k | k ∈ ids'} = {k | k ∈ ids ++ ids'} by ext; simp] at hremoves
  · rcases List.mem_append.mp hk with hk | hk
    · exact h.2 k hk
    · obtain ⟨n, hn, hid, hform⟩ := contains_iff_node.mp (h'.2 k hk)
      exact contains_iff_node.mpr ⟨n, ((h.1.mem n).mp hn).1, hid, hform⟩

theorem drops_dropContainer (ha : c.Apart) (hx : c.containers.get? id = some x)
    (hc : c.children id = []) : Drops [x.id] c (c.dropContainer x) := by
  have hr := removes_dropContainer ha hx hc
  obtain ⟨hmem, rfl⟩ := get?_container_iff.mp hx
  refine ⟨by simpa using hr, fun k hk => ?_⟩
  rw [List.mem_singleton.mp hk]
  exact Store.contains_of_mem (container_mem_nodes.mp hmem)

/-- Settling takes away the containers that it lists, and no other node. -/
theorem drops_settle (ha : c.Apart) (id : String) :
    Drops (c.settle id).value.2 c (c.settle id).value.1 := by
  fun_induction settle c id with
  | case1 c id hnone => exact drops_nil rfl
  | case2 c id x hx hc ih =>
    have hd := drops_dropContainer ha hx (List.isEmpty_iff.mp hc)
    simp only [Logged.value_bind]
    cases hp : x.parent with
    | none => exact hd
    | some p => exact hd.trans (ih p (hd.1.apart ha))
  | case3 c id x hx hc => exact drops_nil rfl

theorem drops_settleAll (ha : c.Apart) (ids : List String) :
    Drops (c.settleAll ids).value.2 c (c.settleAll ids).value.1 := by
  induction ids generalizing c with
  | nil => exact drops_nil rfl
  | cons id rest ih =>
    have hd := drops_settle ha id
    exact hd.trans (ih (hd.1.apart ha))

/-! ## Containers that go -/

/-- Some containers go, each of them once, and each is told of when it goes. -/
structure Leaves (gone : List (Container τ)) (log : List Notice) (c d : Choreography τ) : Prop where
  drops : Drops (gone.map Container.id) c d
  there : ∀ x ∈ gone, x ∈ c.containers.entries
  once : (gone.map Container.id).Nodup
  told : Notice.prominent log = gone.map Container.farewell

theorem leaves_nil (hnodes : d.nodes = c.nodes) (hlog : ∀ n ∈ log, n.level = .debug) :
    Leaves [] log c d :=
  ⟨drops_nil hnodes, fun _ hx => absurd hx List.not_mem_nil, .nil, Notice.prominent_eq_nil hlog⟩

theorem leaves_refl (c : Choreography τ) : Leaves [] [] c c :=
  leaves_nil rfl fun _ hn => absurd hn List.not_mem_nil

theorem Leaves.trans (h : Leaves gone log c d) (h' : Leaves more later d e) :
    Leaves (gone ++ more) (log ++ later) c e where
  drops := by
    rw [List.map_append]
    exact h.drops.trans h'.drops
  there x hx := by
    rcases List.mem_append.mp hx with hx | hx
    · exact h.there x hx
    · have hnode := container_mem_nodes.mpr (h'.there x hx)
      exact container_mem_nodes.mp ((h.drops.1.mem _).mp hnode).1
  once := by
    rw [List.map_append, List.nodup_append]
    refine ⟨h.once, h'.once, fun k hk j hj hkj => ?_⟩
    have hleft := hasNode_of_contains (h'.drops.2 j hj)
    exact (h.drops.1.hasNode_iff.mp hleft).2 (hkj ▸ hk)
  told := by rw [Notice.prominent_append, List.map_append, h.told, h'.told]

theorem leaves_dropContainer (ha : c.Apart) (hx : c.containers.get? id = some x)
    (hc : c.children id = []) : Leaves [x] [x.farewell] c (c.dropContainer x) where
  drops := drops_dropContainer ha hx hc
  there _ hy := List.mem_singleton.mp hy ▸ (Store.get?_eq_some_iff.mp hx).1
  once := List.nodup_singleton _
  told := rfl

theorem leaves_syncExclusions (c : Choreography τ) (k : String) :
    Leaves [] (c.syncExclusions k).log c (c.syncExclusions k).value :=
  leaves_nil rfl fun n hn => debug_upkeep c k n hn

/-- Settling a container makes containers leave, and answers with their ids. -/
theorem leaves_settle (ha : c.Apart) (id : String) :
    ∃ gone, Leaves gone (c.settle id).log c (c.settle id).value.1 ∧
      (c.settle id).value.2 = gone.map Container.id := by
  fun_induction settle c id with
  | case1 c id hnone => exact ⟨[], leaves_refl c, rfl⟩
  | case2 c id x hx hc ih =>
    have hleaves := leaves_dropContainer ha hx (List.isEmpty_iff.mp hc)
    simp only [Logged.value_bind, Logged.log_bind]
    cases hp : x.parent with
    | none => exact ⟨[x], hleaves, rfl⟩
    | some p =>
      obtain ⟨gone, hgone, hanswer⟩ := ih p (hleaves.drops.1.apart ha)
      refine ⟨x :: gone, ?_, congrArg (x.id :: ·) hanswer⟩
      simpa [Logged.tell, Container.farewell] using hleaves.trans hgone
  | case3 c id x hx hc => exact ⟨[], by simpa using leaves_syncExclusions c id, rfl⟩

theorem leaves_settleAll (ha : c.Apart) (ids : List String) :
    ∃ gone, Leaves gone (c.settleAll ids).log c (c.settleAll ids).value.1 ∧
      (c.settleAll ids).value.2 = gone.map Container.id := by
  induction ids generalizing c with
  | nil => exact ⟨[], leaves_refl c, rfl⟩
  | cons id rest ih =>
    obtain ⟨gone, hgone, hanswer⟩ := leaves_settle ha id
    obtain ⟨more, hmore, hlater⟩ := ih (hgone.drops.1.apart ha)
    refine ⟨gone ++ more, ?_, ?_⟩
    · simpa [settleAll] using hgone.trans hmore
    · simp only [settleAll, Logged.value_bind, Logged.value_pure, hanswer, hlater, List.map_append]

/-! ## Containers without an event below them -/

/-- A move that is accepted makes containers leave once the node is in its new place. -/
theorem leaves_reparent (ha : c.Apart) (hn : n ∈ c.nodes) (hp : c.parentRejection? n.id p = none) :
    ∃ gone, Leaves gone (c.reparent n.id p).log (c.setParent n.id p)
      (c.reparent n.id p).value.1 := by
  have htold : ∀ text, Leaves [] [.debug text] (c.setParent n.id p) (c.setParent n.id p) :=
    fun text => leaves_nil rfl fun m hm => by rw [List.mem_singleton.mp hm]; rfl
  rw [reparent, ha.node?_of_mem hn]
  simp only [hp]
  split
  · next hsame =>
    exact ⟨[], leaves_nil (hsame ▸ (nodes_setParent_self ha hn).symm) fun _ hn => nomatch hn⟩
  · cases n.parent with
    | none =>
      refine ⟨[], (htold _).trans ?_⟩
      cases p with
      | none => exact leaves_refl _
      | some new => simpa using leaves_syncExclusions (c.setParent n.id (some new)) new
    | some old =>
      obtain ⟨gone, hgone, -⟩ := leaves_settle ha.setParent old (c := c.setParent n.id p)
      refine ⟨[] ++ (gone ++ []), (htold _).trans ?_⟩
      cases p with
      | none => simpa using hgone
      | some new =>
        simpa using hgone.trans
          (leaves_syncExclusions ((c.setParent n.id (some new)).settle old).value.1 new)

/-- A container that no event is below, apart from some that are gone. -/
def Deserted (c : Choreography τ) (gone : Set String) (k : String) : Prop :=
  c.containers.contains k = true ∧ ∀ e ∈ c.events.entries, e.id ∈ c.family k → e.id ∈ gone

/-- Where in the end walks upwards end and no container is empty, those have gone that no event was
below. -/
theorem Leaves.mem_iff (h : Leaves gone log b c) (ha : b.Apart)
    (hground : ∀ n ∈ c.nodes, Grounded c.up n.parent)
    (hc : ∀ x ∈ c.containers.entries, c.children x.id ≠ []) :
    x ∈ gone ↔ x ∈ b.containers.entries ∧ ¬ ∃ e ∈ b.events.entries, Above b.up x.id e.parent := by
  constructor
  · intro hx
    refine ⟨h.there x hx, fun ⟨e, he, habove⟩ => ?_⟩
    -- the event would be one of the containers that go
    obtain ⟨q, hq, hp⟩ := h.drops.1.mem_of_above habove (List.mem_map_of_mem hx)
    have hgone := h.drops.1.closed (.event e) (event_mem_nodes.mpr he) q hq hp
    obtain ⟨y, hy, hid⟩ := List.mem_map.mp hgone
    exact ha e he y (h.there y hy) hid.symm
  · rintro ⟨hx, hnone⟩
    by_contra hout
    have hstays : x.id ∉ gone.map Container.id := fun hid => by
      obtain ⟨y, hy, hid⟩ := List.mem_map.mp hid
      exact hout (Store.eq_of_key (h.there y hy) hx hid ▸ hy)
    have hx := container_mem_nodes.mp ((h.drops.1.mem _).mpr ⟨container_mem_nodes.mpr hx, hstays⟩)
    obtain ⟨e, he, habove⟩ := exists_event (h.drops.1.apart ha) hground hc _ x hx (Nat.le_refl _)
    have hevent := ((h.drops.1.mem _).mp (event_mem_nodes.mpr he)).1
    exact hnone ⟨e, event_mem_nodes.mp hevent, habove.mono fun _ _ => h.drops.1.up_mono⟩

/-- Where in the end all is in its place, those have gone that no event was below. -/
theorem Leaves.deserted_iff (h : Leaves gone log b c) (ha : b.Apart) (hc : c.Placed ∅) :
    k ∈ gone.map Container.id ↔ b.Deserted ∅ k := by
  have hiff : ∀ x, x ∈ gone ↔ x ∈ b.containers.entries ∧
      ¬ ∃ e ∈ b.events.entries, Above b.up x.id e.parent := fun x =>
    h.mem_iff ha hc.grounded fun y hy =>
      hc.inhabited y.id (Store.contains_of_mem hy) (Set.notMem_empty _)
  constructor
  · intro hk
    obtain ⟨x, hx, rfl⟩ := List.mem_map.mp hk
    obtain ⟨hx, hnone⟩ := (hiff x).mp hx
    refine ⟨Store.contains_of_mem hx, fun e he hbelow => (hnone ⟨e, he, ?_⟩).elim⟩
    exact (ha.mem_family_iff (event_mem_nodes.mpr he)).mp hbelow
  · intro ⟨hk, hnone⟩
    obtain ⟨x, hx, rfl⟩ := Store.contains_iff.mp hk
    refine List.mem_map_of_mem ((hiff x).mpr ⟨hx, fun ⟨e, he, habove⟩ => ?_⟩)
    exact hnone e he ((ha.mem_family_iff (event_mem_nodes.mpr he)).mpr habove)

/-- No container is deserted where all is in its place. -/
theorem Placed.not_deserted (h : c.Placed ∅) (k : String) : ¬ c.Deserted ∅ k := fun hk =>
  List.not_mem_nil (((leaves_refl c).deserted_iff h.numbered.apart h).mpr hk)

end Choreography

end Dcr
