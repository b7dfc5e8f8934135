import Dcr.Proofs.Nodes

/-! What a search downwards finds. At each point everything found is below the start, and the children
of everything that has been looked into are found; so once nothing is left to look into, all that is
below the start is found, whatever the parent links are. -/

namespace Dcr.Choreography

variable {τ : Type} [FreeText τ] {c d : Choreography τ} {s : Search} {id a k : String}
  {children : List String}

/-- An id is that of a child of a node, or of a child of a container below it. -/
inductive Below (c : Choreography τ) (id : String) : String → Prop
  | child {a : String} : a ∈ c.children id → Below c id a
  | within {k a : String} : Below c id k → c.containers.contains k = true → a ∈ c.children k →
    Below c id a

/-! ## Children met -/

theorem mem_found_meet : a ∈ (c.meet s k).found ↔ a ∈ s.found ∨ a = k := by
  unfold meet
  split
  · next hold =>
    have hold : k ∈ s.found := by simpa using hold
    exact ⟨.inl, fun h => h.elim (fun h => h) fun he => he ▸ hold⟩
  · simp

theorem mem_frontier_meet : a ∈ (c.meet s k).frontier ↔
    a ∈ s.frontier ∨ a = k ∧ k ∉ s.found ∧ c.containers.contains k = true := by
  unfold meet
  split
  · next hold => simp_all
  · next hnew =>
    have hnew : k ∉ s.found := by simpa using hnew
    by_cases hk : c.containers.contains k = true
    · simp [hk, hnew, or_comm]
    · simp [hk]

theorem nodup_found_meet (h : s.found.Nodup) : (c.meet s k).found.Nodup := by
  unfold meet
  split
  · exact h
  · next hnew =>
    have hnew : k ∉ s.found := by simpa using hnew
    exact List.nodup_append.mpr ⟨h, List.nodup_singleton _, fun b hb d hd he =>
      hnew (List.mem_singleton.mp hd ▸ he ▸ hb)⟩

theorem mem_found_foldl : a ∈ (children.foldl c.meet s).found ↔ a ∈ s.found ∨ a ∈ children := by
  induction children generalizing s with
  | nil => simp
  | cons child rest ih => rw [List.foldl_cons, ih, mem_found_meet, List.mem_cons, or_assoc]

theorem mem_frontier_foldl : a ∈ (children.foldl c.meet s).frontier ↔
    a ∈ s.frontier ∨ a ∈ children ∧ a ∉ s.found ∧ c.containers.contains a = true := by
  induction children generalizing s with
  | nil => simp
  | cons child rest ih =>
    rw [List.foldl_cons, ih, mem_frontier_meet, mem_found_meet, List.mem_cons]
    by_cases he : a = child
    · subst he
      tauto
    · tauto

theorem nodup_found_foldl (h : s.found.Nodup) : (children.foldl c.meet s).found.Nodup := by
  induction children generalizing s with
  | nil => exact h
  | cons child rest ih => exact ih (nodup_found_meet h)

/-! ## Searches -/

/-- A search downwards from a node on its way. -/
structure Searching (c : Choreography τ) (id : String) (s : Search) : Prop where
  nodup : s.found.Nodup
  below : ∀ a ∈ s.found, c.Below id a
  next : ∀ k ∈ s.frontier, k = id ∨ c.Below id k ∧ c.containers.contains k = true
  done : ∀ k, k = id ∨ k ∈ s.found ∧ c.containers.contains k = true →
    k ∈ s.frontier ∨ ∀ a ∈ c.children k, a ∈ s.found

theorem searching_start : c.Searching id ⟨[], [id]⟩ where
  nodup := List.nodup_nil
  below := List.forall_mem_nil _
  next k hk := .inl (List.mem_singleton.mp hk)
  done k hk := .inl (by simpa using hk)

/-- The children of a node that a search looks into are below its start. -/
theorem Searching.child (h : c.Searching id s) (hk : k ∈ s.frontier) (ha : a ∈ c.children k) :
    c.Below id a := by
  rcases h.next k hk with rfl | ⟨hbelow, hc⟩
  · exact .child ha
  · exact .within hbelow hc ha

/-- One round: a node is looked into. -/
theorem Searching.look {found frontier : List String} (h : c.Searching id ⟨found, k :: frontier⟩) :
    c.Searching id ((c.children k).foldl c.meet ⟨found, frontier⟩) where
  nodup := nodup_found_foldl h.nodup
  below a ha := by
    rcases mem_found_foldl.mp ha with ha | ha
    · exact h.below a ha
    · exact h.child List.mem_cons_self ha
  next j hj := by
    rcases mem_frontier_foldl.mp hj with hj | ⟨hj, -, hc⟩
    · exact h.next j (List.mem_cons_of_mem _ hj)
    · exact .inr ⟨h.child List.mem_cons_self hj, hc⟩
  done j hj := by
    have hgrows : ∀ a ∈ found, a ∈ ((c.children k).foldl c.meet ⟨found, frontier⟩).found :=
      fun a ha => mem_found_foldl.mpr (.inl ha)
    by_cases hjk : j = k
    · exact .inr fun a ha => mem_found_foldl.mpr (.inr (hjk ▸ ha))
    by_cases hold : j = id ∨ j ∈ found ∧ c.containers.contains j = true
    · -- what was left to look into before is left still
      rcases h.done j hold with hj | hj
      · exact .inl (mem_frontier_foldl.mpr (.inl ((List.mem_cons.mp hj).resolve_left hjk)))
      · exact .inr fun a ha => hgrows a (hj a ha)
    · obtain ⟨hj, hc⟩ := hj.resolve_left fun he => hold (.inl he)
      have hnew : j ∉ found := fun hmem => hold (.inr ⟨hmem, hc⟩)
      have hchild := (mem_found_foldl.mp hj).resolve_left hnew
      exact .inl (mem_frontier_foldl.mpr (.inr ⟨hchild, hnew, hc⟩))

theorem Searching.search (h : c.Searching id s) : c.Searching id ⟨c.search s, []⟩ := by
  fun_induction Choreography.search c s with
  | case1 found => exact h
  | case2 found k frontier ih => exact ih h.look

/-- A search that has nothing left to look into has found all that is below its start. -/
theorem Searching.mem_iff {found : List String} (h : c.Searching id ⟨found, []⟩) :
    a ∈ found ↔ c.Below id a := by
  refine ⟨h.below a, fun ha => ?_⟩
  have hdone : ∀ k, k = id ∨ k ∈ found ∧ c.containers.contains k = true →
      ∀ a ∈ c.children k, a ∈ found := fun k hk => (h.done k hk).resolve_left List.not_mem_nil
  induction ha with
  | child ha => exact hdone id (.inl rfl) _ ha
  | within _ hc ha ih => exact hdone _ (.inr ⟨ih, hc⟩) _ ha

/-- The family of a node is what is below it. -/
theorem mem_family : a ∈ c.family id ↔ c.Below id a := searching_start.search.mem_iff

theorem nodup_family : (c.family id).Nodup := searching_start.search.nodup

/-! ## Searches that find the same -/

/-- The same children are met in the same way where the same of them are containers. -/
theorem foldl_meet_congr
    (h : ∀ a ∈ children, d.containers.contains a = c.containers.contains a) :
    children.foldl d.meet s = children.foldl c.meet s := by
  induction children generalizing s with
  | nil => rfl
  | cons child rest ih =>
    obtain ⟨hchild, hrest⟩ := List.forall_mem_cons.mp h
    have hmeet : d.meet s child = c.meet s child := by rw [meet, meet, hchild]
    rw [List.foldl_cons, List.foldl_cons, hmeet, ih hrest]

/-- A search finds the same where the containers that it comes to have the same children, and the same
of them are containers. -/
theorem search_congr (P : String → Prop) (hP : ∀ k, P k → d.children k = c.children k ∧
    ∀ a ∈ c.children k, d.containers.contains a = c.containers.contains a ∧
      (c.containers.contains a = true → P a))
    (hs : ∀ k ∈ s.frontier, P k) : d.search s = c.search s := by
  fun_induction Choreography.search c s with
  | case1 found => rw [Choreography.search]
  | case2 found k frontier ih =>
    obtain ⟨hk, hfrontier⟩ := List.forall_mem_cons.mp hs
    obtain ⟨hchildren, hsame⟩ := hP k hk
    rw [Choreography.search, hchildren, foldl_meet_congr fun a ha => (hsame a ha).1]
    refine ih fun j hj => ?_
    rcases mem_frontier_foldl.mp hj with hj | ⟨hj, -, hc⟩
    · exact hfrontier j hj
    · exact (hsame j hj).2 hc

end Dcr.Choreography
