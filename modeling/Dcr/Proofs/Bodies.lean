import Dcr.Proofs.Forest
import Dcr.Proofs.Generation

/-! What belongs to a process. The process around an element is the nearest subprocess above it, or
the top level; the body of a process gathers what is right inside it and then the bodies of its
nests, and has each element of the process once. Each nest on the way down is a further container,
so the levels that the gathering may go down are enough. -/

namespace Dcr

theorem NodeKind.ident_ne_topLevel (kind : NodeKind) (n : Nat) :
    kind.ident n ≠ Choreography.topLevel := by
  intro h
  have hl := congrArg String.toList h
  cases kind <;> simp [ident, stem, Choreography.topLevel] at hl

/-- Of two ids above one node, one is above the other or they are the same. -/
theorem Above.linear {up : String → Option (Option String)} {a b : String} {p : Option String}
    (ha : Above up a p) (hb : Above up b p) : Above up a (some b) ∨ Above up b (some a) := by
  induction ha with
  | here => exact .inr hb
  | @up id q hu ha ih =>
    cases hb with
    | here => exact .inl (.up hu ha)
    | up hv hb =>
      rw [hu] at hv
      cases hv
      exact ih hb

/-- Two ids right below one place have nothing below them in common. -/
theorem Grounded.not_above_both {up : String → Option (Option String)} {a b : String}
    {p q : Option String} (h : Grounded up p) (ha : up a = some p) (hb : up b = some p) (hne : a ≠ b)
    (haq : Above up a q) : ¬ Above up b q := by
  intro hbq
  rcases haq.linear hbq with hab | hab
  · exact h.not_above_self ha (hab.step hne hb)
  · exact h.not_above_self hb (hab.step hne.symm ha)

namespace Choreography

variable {τ : Type} [FreeText τ] {c : Choreography τ} {E : Set String} {D : Debt} {k s : String}
  {p q : Option String} {r : Relation τ}

/-! ## The process around an element -/

/-- The process around something with a parent: the nearest subprocess above it, or the top level. -/
def processOf (c : Choreography τ) (parent : Option String) : String :=
  ((c.ancestors parent).find? fun id => c.form? id == some .subprocess).getD topLevel

/-- Where the source of a relation is. -/
def sourceParent (c : Choreography τ) (r : Relation τ) : Option String :=
  (c.node? r.source).bind Node.parent

/-- How many containers are above something with a parent. -/
def height (c : Choreography τ) (p : Option String) : Nat :=
  (c.containers.keys.filter fun k => (c.ancestors p).contains k).length

theorem height_le (c : Choreography τ) (p : Option String) : c.height p ≤ c.containers.size :=
  (List.length_filter_le _ _).trans_eq (List.length_map _)

theorem Placed.grounded_of_up (h : c.Placed E) (hk : c.up k = some p) : Grounded c.up p := by
  obtain ⟨n, hn, _, _, rfl⟩ := up_eq_some_iff.mp hk
  exact h.grounded n hn

theorem Placed.not_above_self (h : c.Placed E) (hk : c.up k = some p) : ¬ Above c.up k p :=
  (h.grounded_of_up hk).not_above_self hk

/-- A container is higher up than what is inside it. -/
theorem Placed.height_lt (h : c.Placed E) (hk : c.up k = some p) :
    c.height p < c.height (some k) := by
  have hmem : ∀ {a q}, a ∈ c.containers.keys.filter (fun k => (c.ancestors q).contains k) ↔
      a ∈ c.containers.keys ∧ Above c.up a q := fun {a q} => by
    rw [List.mem_filter, List.contains_iff_mem, mem_ancestors]
  have hnd : (k :: c.containers.keys.filter fun k => (c.ancestors p).contains k).Nodup :=
    List.nodup_cons.mpr ⟨fun hm => h.not_above_self hk (hmem.mp hm).2,
      c.containers.distinct.filter _⟩
  obtain ⟨x, hx, hid⟩ := Store.contains_iff.mp (contains_iff_up.mpr (by rw [hk]; rfl))
  have hsub : (k :: c.containers.keys.filter fun k => (c.ancestors p).contains k) ⊆
      c.containers.keys.filter fun a => (c.ancestors (some k)).contains a := by
    intro a ha
    rcases List.mem_cons.mp ha with rfl | ha
    · exact hmem.mpr ⟨List.mem_map.mpr ⟨x, hx, hid⟩, .here⟩
    · exact hmem.mpr ⟨(hmem.mp ha).1, .up hk (hmem.mp ha).2⟩
  exact (List.subperm_of_subset hnd hsub).length_le

/-- A walk upwards with as many steps as there are containers above goes all the way. -/
theorem Placed.lineage_stable (h : c.Placed E) (hp : Grounded c.up p) :
    ∀ {steps : Nat}, c.height p ≤ steps → c.lineage (steps + 1) p = c.lineage steps p := by
  induction hp with
  | top =>
    intro steps _
    cases steps <;> rfl
  | @inside k q hk _ ih =>
    intro steps hs
    obtain ⟨m, rfl⟩ : ∃ m, steps = m + 1 := ⟨steps - 1, by have := h.height_lt hk; omega⟩
    have hlt := h.height_lt hk
    rw [lineage_succ, lineage_succ, hk, Option.join_some, ih (by omega)]

theorem Placed.ancestors_some (h : c.Placed E) (hk : c.up k = some p) :
    c.ancestors (some k) = k :: c.ancestors p := by
  rw [ancestors, lineage_succ, hk, Option.join_some, ancestors,
    h.lineage_stable (h.grounded_of_up hk) (c.height_le p)]

theorem processOf_eq_topLevel (h : ∀ k ∈ c.ancestors p, c.form? k ≠ some .subprocess) :
    c.processOf p = topLevel := by
  rw [processOf, List.find?_eq_none.mpr fun k hk hf => h k hk (beq_iff_eq.mp hf)]
  rfl

theorem Placed.processOf_subprocess (h : c.Placed E) (hk : c.form? k = some .subprocess) :
    c.processOf (some k) = k := by
  obtain ⟨p, hp⟩ := Option.isSome_iff_exists.mp
    (contains_iff_up.mp (contains_iff_form?.mpr (by rw [hk]; rfl)))
  rw [processOf, h.ancestors_some hp, List.find?_cons_of_pos (by simp [hk]), Option.getD_some]

theorem Placed.processOf_nest (h : c.Placed E) {type : NestType}
    (hk : c.form? k = some (.nest type)) (hp : c.up k = some p) :
    c.processOf (some k) = c.processOf p := by
  rw [processOf, h.ancestors_some hp, List.find?_cons_of_neg (by simp [hk]), processOf]

/-! ## Places by name -/

/-- The name of a container is neither empty nor that of the top level. -/
theorem Placed.home_some (h : c.Placed E) (hk : Grounded c.up (some k)) :
    home (some k) = k ∧ k ≠ topLevel := by
  obtain ⟨n, hn, rfl, _⟩ := contains_iff_node.mp (contains_iff_up.mpr (hk.isSome_of_above .here))
  obtain ⟨m, hm⟩ := h.numbered.named n hn
  exact ⟨Choreography.home_some (h.numbered.ne_empty hn), hm ▸ NodeKind.ident_ne_topLevel _ _⟩

theorem Placed.home_injective (h : c.Placed E) (hp : Grounded c.up p) (hq : Grounded c.up q)
    (he : home p = home q) : p = q := by
  cases p with
  | none =>
    cases q with
    | none => rfl
    | some j => exact absurd ((h.home_some hq).1.symm.trans he.symm) (h.home_some hq).2
  | some k =>
    cases q with
    | none => exact absurd ((h.home_some hp).1.symm.trans he) (h.home_some hp).2
    | some j => rw [(h.home_some hp).1, (h.home_some hq).1] at he; rw [he]

theorem Placed.grounded_sourceParent (h : c.Placed E) (r : Relation τ) :
    Grounded c.up (c.sourceParent r) := by
  unfold sourceParent
  cases hn : c.node? r.source with
  | none => exact .top
  | some n => exact h.grounded n (node?_mem hn).1

/-- A relation is where its source is: one with a scope belongs to the choice around both its
ends. -/
theorem Orderly.relationHome (h : c.Orderly E D) (hD : D.unfit = ∅)
    (hr : r ∈ c.relations.entries) : c.relationHome r = .ok (home (c.sourceParent r)) := by
  obtain ⟨n, hn⟩ := Option.isSome_iff_exists.mp (h.owned.linked.ends r hr).1
  obtain ⟨hmem, hid⟩ := node?_mem hn
  unfold Choreography.relationHome sourceParent
  rw [hn, Option.bind_some]
  cases hs : r.scope.filter fun s => s != "" with
  | none => rfl
  | some k =>
    obtain ⟨hk, hne⟩ := Option.filter_eq_some_iff.mp hs
    obtain ⟨m, hm, hmid, hp⟩ :=
      mem_children.mp (h.owned.fit k (by rw [hD]; exact Set.notMem_empty k) r hr hk).left
    rw [h.placed.numbered.apart.eq_of_id hmem hm (hid.trans hmid.symm), hp,
      Choreography.home_some (bne_iff_ne.mp hne)]

/-! ## Inside -/

/-- A walk upwards through nests from one place to another. -/
inductive Inside (c : Choreography τ) (p : Option String) : Option String → Prop
  | here : Inside c p p
  | nest {k : String} {q : Option String} {type : NestType} :
    c.form? k = some (.nest type) → c.up k = some q → Inside c p q → Inside c p (some k)

/-- From the outside: the first nest on the way down. -/
theorem Inside.cases_outer (h : c.Inside p q) : q = p ∨ ∃ k type,
    c.form? k = some (.nest type) ∧ c.up k = some p ∧ c.Inside (some k) q := by
  induction h with
  | here => exact .inl rfl
  | @nest j q type hf hu _ ih =>
    rcases ih with rfl | ⟨k, type', hf', hu', hin⟩
    · exact .inr ⟨j, type, hf, hu, .here⟩
    · exact .inr ⟨k, type', hf', hu', .nest hf hu hin⟩

theorem Inside.outer {type : NestType} (hf : c.form? k = some (.nest type)) (hu : c.up k = some p)
    (h : c.Inside (some k) q) : c.Inside p q := by
  induction h with
  | here => exact .nest hf hu .here
  | nest hf' hu' _ ih => exact .nest hf' hu' ih

theorem Inside.above (h : c.Inside (some k) q) : Above c.up k q := by
  induction h with
  | here => exact .here
  | nest _ hu _ ih => exact .up hu ih

/-- What is inside a process through nests is what has that process around it. -/
theorem Placed.inside_iff (h : c.Placed E) (hp : Grounded c.up p)
    (hs : ∀ k, p = some k → c.form? k = some .subprocess) (hq : Grounded c.up q) :
    c.Inside p q ↔ c.processOf q = home p := by
  have hself : c.processOf p = home p := by
    cases p with
    | none => rfl
    | some k => rw [h.processOf_subprocess (hs k rfl), (h.home_some hp).1]
  constructor
  · intro hin
    induction hin with
    | here => exact hself
    | nest hf hu _ ih => rw [h.processOf_nest hf hu, ih (h.grounded_of_up hu)]
  · intro he
    induction hq with
    | top =>
      rw [h.home_injective hp .top he.symm]
      exact .here
    | @inside k q hu hq ih =>
      obtain ⟨f, hf⟩ := Option.isSome_iff_exists.mp
        (contains_iff_form?.mp (contains_iff_up.mpr (by rw [hu]; rfl)))
      cases f with
      | nest type =>
        rw [h.processOf_nest hf hu] at he
        exact .nest hf hu (ih he)
      | subprocess =>
        have hk : Grounded c.up (some k) := .inside hu hq
        rw [h.processOf_subprocess hf, ← (h.home_some hk).1] at he
        rw [h.home_injective hk hp he]
        exact .here

/-! ## Gathering -/

section Gather

variable {α : Type} {f : String → List α} {all : List α} {place : α → Option String} {a : α}

/-- What a family of lists has for a scope and for the nests inside it, so many levels deep. -/
def gather (c : Choreography τ) (f : String → List α) : Nat → String → List α
  | 0, _ => []
  | depth + 1, scope => f scope ++ (c.part scope).nests.flatMap fun x => c.gather f depth x.id

theorem bodyWithin_eq (depth : Nat) (scope : String) : c.bodyWithin depth scope =
    ⟨c.gather (fun s => (c.part s).events) depth scope,
      c.gather (fun s => (c.part s).relations) depth scope⟩ := by
  induction depth generalizing scope with
  | zero => rfl
  | succ depth ih =>
    rw [bodyWithin_succ]
    simp only [ih]
    rfl

/-- A family of lists has for each scope, once each, the things of a list that are there. -/
structure Sorts (c : Choreography τ) (f : String → List α) (all : List α)
    (place : α → Option String) : Prop where
  nodup : ∀ s, (f s).Nodup
  mem : ∀ p, Grounded c.up p → ∀ a, a ∈ f (home p) ↔ a ∈ all ∧ place a = p
  grounded : ∀ a, a ∈ all → Grounded c.up (place a)

theorem mem_nests {x : Container τ} : x ∈ (c.part s).nests ↔
    x ∈ c.containers.entries ∧ home x.parent = s ∧ ∃ type, x.form = .nest type := by
  have hform : (!x.isSubprocess) = true ↔ ∃ type, x.form = .nest type := by
    cases hf : x.form <;> simp [Container.isSubprocess, hf]
  simp only [part, List.mem_filter, beq_iff_eq, hform, and_assoc]

theorem Placed.mem_nests (h : c.Placed E) (hp : Grounded c.up p) {x : Container τ} :
    x ∈ (c.part (home p)).nests ↔
      x ∈ c.containers.entries ∧ x.parent = p ∧ ∃ type, x.form = .nest type := by
  rw [Choreography.mem_nests]
  refine and_congr_right fun hx => and_congr_left fun _ => ⟨fun he => ?_, fun he => he ▸ rfl⟩
  exact h.home_injective (h.grounded _ (container_mem_nodes.mpr hx)) hp he

/-- A nest in a place leads on to a place inside it. -/
theorem Placed.nest_place (h : c.Placed E) (hp : Grounded c.up p) {x : Container τ}
    (hx : x ∈ (c.part (home p)).nests) : ∃ type, c.form? x.id = some (.nest type) ∧
      c.up x.id = some p ∧ Grounded c.up (some x.id) ∧ home (some x.id) = x.id := by
  obtain ⟨hmem, rfl, type, hf⟩ := (h.mem_nests hp).mp hx
  have hg : Grounded c.up (some x.id) := .inside (up_container hmem) hp
  exact ⟨type, by rw [form?_container hmem, hf], up_container hmem, hg, (h.home_some hg).1⟩

theorem Placed.inside_of_mem_gather (h : c.Placed E) (hs : c.Sorts f all place) (depth : Nat)
    (hp : Grounded c.up p) (ha : a ∈ c.gather f depth (home p)) :
    a ∈ all ∧ c.Inside p (place a) := by
  induction depth generalizing p with
  | zero => exact absurd ha List.not_mem_nil
  | succ depth ih =>
    rcases List.mem_append.mp ha with ha | ha
    · obtain ⟨hall, rfl⟩ := (hs.mem p hp a).mp ha
      exact ⟨hall, .here⟩
    · obtain ⟨x, hx, ha⟩ := List.mem_flatMap.mp ha
      obtain ⟨type, hf, hu, hg, hid⟩ := h.nest_place hp hx
      rw [← hid] at ha
      obtain ⟨hall, hin⟩ := ih hg ha
      exact ⟨hall, hin.outer hf hu⟩

/-- With a level for each container that is not above, all that is inside is gathered. -/
theorem Placed.mem_gather_of_inside (h : c.Placed E) (hs : c.Sorts f all place) (ha : a ∈ all)
    {depth : Nat} (hd : c.containers.size < depth + c.height p) (hp : Grounded c.up p)
    (hin : c.Inside p (place a)) : a ∈ c.gather f depth (home p) := by
  induction depth generalizing p with
  | zero => exact absurd (c.height_le p) (by omega)
  | succ depth ih =>
    rcases hin.cases_outer with hpa | ⟨k, type, hf, hu, hin⟩
    · exact List.mem_append_left _ ((hs.mem p hp a).mpr ⟨ha, hpa⟩)
    · have hlt := h.height_lt hu
      have hg : Grounded c.up (some k) := .inside hu hp
      obtain ⟨x, hx, rfl⟩ := Option.map_eq_some_iff.mp hu
      obtain ⟨hmem, rfl⟩ := Store.get?_eq_some_iff.mp hx
      have hform := (form?_container hmem).symm.trans hf
      refine List.mem_append_right _ (List.mem_flatMap.mpr
        ⟨x, (h.mem_nests hp).mpr ⟨hmem, rfl, type, Option.some.inj hform⟩, ?_⟩)
      have hrest := ih (by omega) hg hin
      rwa [(h.home_some hg).1] at hrest

/-- Nothing is gathered twice: what is inside a nest is neither right outside it nor in another
nest beside it. -/
theorem Placed.nodup_gather (h : c.Placed E) (hs : c.Sorts f all place) (depth : Nat)
    (hp : Grounded c.up p) : (c.gather f depth (home p)).Nodup := by
  induction depth generalizing p with
  | zero => exact List.nodup_nil
  | succ depth ih =>
    have habove : ∀ x ∈ (c.part (home p)).nests, ∀ a ∈ c.gather f depth x.id,
        c.up x.id = some p ∧ Above c.up x.id (place a) := by
      intro x hx a ha
      obtain ⟨type, hf, hu, hg, hid⟩ := h.nest_place hp hx
      rw [← hid] at ha
      exact ⟨hu, (h.inside_of_mem_gather hs depth hg ha).2.above⟩
    have hnests : ((c.part (home p)).nests.flatMap fun x => c.gather f depth x.id).Nodup := by
      refine List.nodup_flatMap.mpr ⟨fun x hx => ?_, ?_⟩
      · obtain ⟨_, _, _, hg, hid⟩ := h.nest_place hp hx
        rw [← hid]
        exact ih hg
      · have hnd : (c.part (home p)).nests.Nodup := (c.containers.nodup_entries.filter _).filter _
        refine hnd.imp_of_mem fun {x y} hx hy hne => ?_
        intro a hax hay
        obtain ⟨hux, hx'⟩ := habove x hx a hax
        obtain ⟨huy, hy'⟩ := habove y hy a hay
        have hid : x.id ≠ y.id := fun he => hne (Store.eq_of_key
          ((h.mem_nests hp).mp hx).1 ((h.mem_nests hp).mp hy).1 he)
        exact hp.not_above_both hux huy hid hx' hy'
    refine List.nodup_append.mpr ⟨hs.nodup _, hnests, fun a ha b hb he => ?_⟩
    subst he
    obtain ⟨x, hx, hb⟩ := List.mem_flatMap.mp hb
    obtain ⟨hu, hab⟩ := habove x hx a hb
    rw [((hs.mem p hp a).mp ha).2] at hab
    exact h.not_above_self hu hab

/-- What is gathered for a process is, in some order, what has that process around it. -/
theorem Placed.gather_perm (h : c.Placed E) (hs : c.Sorts f all place) (hall : all.Nodup)
    (hsub : ∀ k, p = some k → c.form? k = some .subprocess) (hp : Grounded c.up p) :
    (c.gather f (c.containers.size + 1) (home p)).Perm
      (all.filter fun a => c.processOf (place a) = home p) := by
  refine (List.perm_ext_iff_of_nodup (h.nodup_gather hs _ hp) (hall.filter _)).mpr fun a => ?_
  rw [List.mem_filter, decide_eq_true_iff]
  constructor
  · intro ha
    obtain ⟨hmem, hin⟩ := h.inside_of_mem_gather hs _ hp ha
    exact ⟨hmem, (h.inside_iff hp hsub (hs.grounded a hmem)).mp hin⟩
  · intro hof
    obtain ⟨hmem, hof⟩ := hof
    exact h.mem_gather_of_inside hs hmem (by omega) hp
      ((h.inside_iff hp hsub (hs.grounded a hmem)).mpr hof)

end Gather

/-! ## Bodies of processes -/

/-- A scope that is a process. -/
def IsProcess (c : Choreography τ) (s : String) : Prop :=
  s = topLevel ∨ c.form? s = some .subprocess

/-- A process by its place. -/
theorem Placed.place_of_process (h : c.Placed E) (hs : c.IsProcess s) : ∃ p, home p = s ∧
    Grounded c.up p ∧ ∀ k, p = some k → c.form? k = some .subprocess := by
  rcases hs with rfl | hs
  · exact ⟨none, rfl, .top, fun _ hk => by cases hk⟩
  · obtain ⟨q, hq⟩ := Option.isSome_iff_exists.mp
      (contains_iff_up.mp (contains_iff_form?.mpr (by rw [hs]; rfl)))
    have hg : Grounded c.up (some s) := .inside hq (h.grounded_of_up hq)
    exact ⟨some s, (h.home_some hg).1, hg, fun k hk => by cases hk; exact hs⟩

theorem Placed.sorts_events (h : c.Placed E) :
    c.Sorts (fun s => (c.part s).events) c.events.entries Event.parent where
  nodup _ := c.events.nodup_entries.filter _
  mem p hp e := by
    simp only [part, List.mem_filter, beq_iff_eq]
    refine and_congr_right fun he => ⟨fun hh => ?_, fun hh => hh ▸ rfl⟩
    exact h.home_injective (h.grounded _ (event_mem_nodes.mpr he)) hp hh
  grounded e he := h.grounded _ (event_mem_nodes.mpr he)

theorem Orderly.sorts_relations (h : c.Orderly E D) (hD : D.unfit = ∅) :
    c.Sorts (fun s => (c.part s).relations) c.relations.entries c.sourceParent where
  nodup _ := c.relations.nodup_entries.filter _
  mem p hp r := by
    simp only [part, List.mem_filter]
    refine and_congr_right fun hr => ?_
    rw [liesIn, h.relationHome hD hr]
    simp only [beq_iff_eq]
    exact ⟨h.placed.home_injective (h.placed.grounded_sourceParent r) hp, fun hh => hh ▸ rfl⟩
  grounded r _ := h.placed.grounded_sourceParent r

/-- The events in the body of a process are those with that process around them. -/
theorem Placed.events_body (h : c.Placed E) (hs : c.IsProcess s) : (c.body s).events.Perm
    (c.events.entries.filter fun e => c.processOf e.parent = s) := by
  obtain ⟨p, rfl, hp, hsub⟩ := h.place_of_process hs
  rw [body, bodyWithin_eq]
  exact h.gather_perm h.sorts_events c.events.nodup_entries hsub hp

/-- The relations in the body of a process are those from a source with that process around it. -/
theorem Orderly.relations_body (h : c.Orderly E D) (hD : D.unfit = ∅) (hs : c.IsProcess s) :
    (c.body s).relations.Perm
      (c.relations.entries.filter fun r => c.processOf (c.sourceParent r) = s) := by
  obtain ⟨p, rfl, hp, hsub⟩ := h.placed.place_of_process hs
  rw [body, bodyWithin_eq]
  exact h.placed.gather_perm (h.sorts_relations hD) c.relations.nodup_entries hsub hp

end Choreography

end Dcr
