import Dcr.Edit.Containers
import Dcr.Proofs.Ownership

/-! Edits of containment. Every step leaves a debt that a later step of the same edit settles: a
node that moves leaves a container that may be empty and one that lacks exclusions, and looking
after a container settles both, upwards until a container keeps a child. -/

namespace Dcr.Choreography

variable {τ : Type} [FreeText τ] {c d : Choreography τ} {n : Node τ} {x : Container τ}
  {E F L A : Set String} {D : Debt} {k id : String} {p : Option String}

/-- Nodes in their places and relations where they belong, apart from what is excepted. -/
structure Orderly (E : Set String) (D : Debt) (c : Choreography τ) : Prop where
  placed : c.Placed E
  owned : c.Owned D

/-- A scope is a container, as one that owns a relation has children. -/
theorem Orderly.contains_scope (h : c.Orderly E D) {r : Relation τ}
    (hr : r ∈ c.relations.entries) {k : String} (hk : r.scope = some k) :
    c.containers.contains k = true := by
  by_contra hc
  exact h.owned.children_ne_nil hr hk (h.placed.children_eq_nil hc)

/-- The upkeep of a container with everything else as it was. -/
def tended (c : Choreography τ) (k : String) : Choreography τ :=
  { c with relations := (c.upkeep k).relations }

@[simp] theorem value_syncExclusions : (c.syncExclusions k).value = c.tended k := rfl

/-- The upkeep of a parent, if there is one. -/
def tendedIn (c : Choreography τ) : Option String → Choreography τ
  | none => c
  | some k => c.tended k

theorem Placed.tended (h : c.Placed E) (k : String) : (c.tended k).Placed E := h.redraw rfl rfl

theorem Placed.tendedIn (h : c.Placed E) (p : Option String) : (c.tendedIn p).Placed E := by
  cases p with
  | none => exact h
  | some k => exact h.tended k

theorem Orderly.tended {U : Set String} (h : c.Orderly E ⟨U, L, A⟩) (hU : ∀ j ∈ U, j = k) :
    (c.tended k).Orderly E ⟨∅, L \ {k}, A⟩ :=
  ⟨h.placed.tended k, h.owned.sync h.placed hU⟩

theorem Orderly.tendedIn (h : c.Orderly E ⟨∅, L ∪ {k | p = some k}, A⟩) :
    (c.tendedIn p).Orderly E ⟨∅, L, A⟩ := by
  cases p with
  | none => exact ⟨h.placed, h.owned.mono subset_rfl (by simp) subset_rfl⟩
  | some k =>
    have hk := h.tended (k := k) (by simp)
    refine ⟨hk.placed, hk.owned.mono subset_rfl ?_ subset_rfl⟩
    intro j hx
    rcases hx with ⟨hj | hj, hne⟩
    · exact hj
    · exact absurd (Option.some.inj hj).symm hne

theorem Orderly.mono {D' : Debt} (h : c.Orderly E D) (hE : E ⊆ F) (hu : D.unfit ⊆ D'.unfit)
    (hl : D.lacking ⊆ D'.lacking) (ha : D.astray ⊆ D'.astray) : c.Orderly F D' :=
  ⟨h.placed.mono hE, h.owned.mono hu hl ha⟩

/-! ## A container dropped -/

theorem removes_dropContainer (h : c.Apart) (hx : c.containers.get? id = some x)
    (hc : c.children id = []) :
    Removes {id} c (c.dropContainer x) := by
  obtain ⟨hmem, rfl⟩ := get?_container_iff.mp hx
  have he : ∀ e ∈ c.events.entries, e.id ≠ x.id := fun e he =>
    h e he x (container_mem_nodes.mp hmem)
  refine ⟨fun m => ?_, fun m hm p hp hmp => ?_⟩
  · simp only [mem_nodes, dropContainer, Store.mem_erase, Set.mem_singleton_iff]
    constructor
    · intro hor
      rcases hor with ⟨y, ⟨hy, hne⟩, rfl⟩ | ⟨e, hm, rfl⟩
      · exact ⟨.inl ⟨y, hy, rfl⟩, hne⟩
      · exact ⟨.inr ⟨e, hm, rfl⟩, he e hm⟩
    · intro hall
      rcases hall with ⟨⟨y, hy, rfl⟩ | ⟨e, hm, rfl⟩, hne⟩
      · exact .inl ⟨y, ⟨hy, hne⟩, rfl⟩
      · exact .inr ⟨e, hm, rfl⟩
  · rw [Set.mem_singleton_iff.mp hp] at hmp
    exact absurd hmp (children_eq_nil_iff.mp hc m hm)

/-- A container without children that is dropped may leave its parent empty, but no other debt. -/
theorem Orderly.drop {U : Set String} (h : c.Orderly E ⟨U, L, A⟩)
    (hx : c.containers.get? id = some x)
    (hc : c.children id = []) (hU : ∀ j ∈ U, j = id) :
    (c.dropContainer x).Orderly ((E \ {id}) ∪ {k | x.parent = some k}) ⟨∅, L, A⟩ := by
  have hr := removes_dropContainer h.placed.numbered.apart hx hc
  obtain ⟨hmem, rfl⟩ := get?_container_iff.mp hx
  obtain ⟨m, hm⟩ := h.placed.numbered.named _ hmem
  have hm : x.id = x.kind.node.ident m := hm
  obtain ⟨hs, hfree⟩ := h.placed.numbered.sane.release x.kind.node m
  have hids : (c.dropContainer x).ids = c.ids.release x.kind.node (x.kind.node.ident m) := by
    rw [← hm]; rfl
  refine ⟨?_, h.owned.remove hr (fun r => ?_) fun k hk => ⟨hU k hk, hU k hk ▸ hc⟩⟩
  · refine (h.placed.remove hr (hids ▸ hs)
      fun j => by rw [hids, hfree, Set.mem_singleton_iff, hm]).narrow ?_
    intro k hor hout hcont
    rcases hor with hk | ⟨n, hn, hid, hp⟩
    · simp only [Set.mem_union, Set.mem_sdiff, Set.mem_singleton_iff, not_or, not_and,
        Classical.not_not] at hout
      rw [hout.1 hk, contains_iff_form?, hr.form?_of_mem rfl] at hcont
      cases hcont
    · rw [h.placed.numbered.apart.eq_of_id hn hmem hid] at hp
      exact absurd (.inr hp) hout
  · simp only [dropContainer, Store.entries_filter, List.mem_filter, Bool.not_eq_true',
      Bool.eq_false_iff, Ne, Relation.touches_iff, not_or, Set.mem_singleton_iff]

/-! ## Settling -/

theorem settle_of_absent (h : c.containers.get? id = none) : c.settle id = pure (c, []) := by
  rw [settle]
  split
  · rfl
  · next x hx =>
    rw [h] at hx
    cases hx

theorem settle_of_empty (h : c.containers.get? id = some x) (hc : c.children id = []) :
    c.settle id = do
    Logged.tell [.advice ("Removed empty " ++ x.kind.name ++ ": " ++ x.id ++ ".")]
    match x.parent with
    | none => return (c.dropContainer x, [x.id])
    | some parent =>
      let (c, removed) ← (c.dropContainer x).settle parent
      return (c, x.id :: removed) := by
  rw [settle]
  split
  · next hx =>
    rw [h] at hx
    cases hx
  · next y hy =>
    cases h.symm.trans hy
    exact if_pos (List.isEmpty_iff.mpr hc)

theorem settle_of_kept (h : c.containers.get? id = some x) (hc : c.children id ≠ []) :
    c.settle id = (do return (← c.syncExclusions id, [])) := by
  rw [settle]
  split
  · next hx =>
    rw [h] at hx
    cases hx
  · rw [if_neg fun he => hc (List.isEmpty_iff.mp he)]

/-- What holds after a container has been settled: it was gone, or it keeps a child, or it goes and
its parent is settled in turn. -/
theorem settle_rule {P : String → Choreography τ → Prop} {Q : Choreography τ → Prop}
    (absent : ∀ id c, P id c → c.containers.get? id = none → Q c)
    (kept : ∀ id c, P id c → c.children id ≠ [] → Q (c.tended id))
    (last : ∀ id c x, P id c → c.containers.get? id = some x → c.children id = [] →
      x.parent = none →
      Q (c.dropContainer x))
    (next : ∀ id c x p, P id c → c.containers.get? id = some x → c.children id = [] →
      x.parent = some p →
      P p (c.dropContainer x)) (h : P id c) : Q (c.settle id).value.1 := by
  fun_induction settle c id with
  | case1 c id hnone => exact absent id c h hnone
  | case2 c id x hx hc ih =>
    have hc : c.children id = [] := List.isEmpty_iff.mp hc
    simp only [Logged.value_bind]
    cases hp : x.parent with
    | none => exact last id c x h hx hc hp
    | some p => exact ih p (next id c x p h hx hc hp)
  | case3 c id x _ hc => exact kept id c h fun hnil => hc (List.isEmpty_iff.mpr hnil)

/-- What looking after a container and dropping an empty one keep, settling keeps. -/
theorem settleAll_rule {P : Choreography τ → Prop} (tended : ∀ c k, P c → P (c.tended k))
    (drop : ∀ c x id, P c → c.containers.get? id = some x → c.children id = [] →
      P (c.dropContainer x)) (h : P c) (ids : List String) : P (c.settleAll ids).value.1 := by
  induction ids generalizing c with
  | nil => exact h
  | cons id rest ih =>
    exact ih (settle_rule (P := fun _ c => P c) (fun _ _ h _ => h) (fun k c h _ => tended c k h)
      (fun id c x h hx hc _ => drop c x id h hx hc) (fun id c x _ h hx hc _ => drop c x id h hx hc) h)

/-- A container that is dropped while it is settled leaves only its parent to be settled. -/
theorem Orderly.drop_settling (h : c.Orderly (insert id E) ⟨{id}, L, A⟩)
    (hx : c.containers.get? id = some x) (hc : c.children id = []) :
    (c.dropContainer x).Orderly (E ∪ {k | x.parent = some k}) ⟨∅, L, A⟩ := by
  refine (h.drop hx hc fun j hj => hj).mono ?_ subset_rfl subset_rfl subset_rfl
  intro k hor
  rcases hor with ⟨hk | hk, hne⟩ | hk
  · exact absurd hk hne
  · exact .inl hk
  · exact .inr hk

/-- The parent of a container that was dropped is settled in turn. -/
theorem Orderly.drop_next (h : c.Orderly (insert id E) ⟨{id}, L, A⟩)
    (hx : c.containers.get? id = some x) (hc : c.children id = []) {q : String}
    (hp : x.parent = some q) : (c.dropContainer x).Orderly (insert q E) ⟨{q}, L, A⟩ := by
  refine (h.drop_settling hx hc).mono ?_ (by simp) subset_rfl subset_rfl
  intro k hor
  rcases hor with hk | hk
  · exact .inr hk
  · rw [Set.mem_ofPred_eq, hp] at hk
    exact .inl (Option.some.inj hk).symm

/-- Settling a container that may be empty or unfit puts it in order. -/
theorem Orderly.settle (h : c.Orderly (insert id E) ⟨{id}, L, A⟩) :
    (c.settle id).value.1.Orderly E ⟨∅, L, A⟩ := by
  refine settle_rule (P := fun id c => c.Orderly (insert id E) ⟨{id}, L, A⟩) ?_ ?_ ?_ ?_ h
  · intro id c h hnone
    have hcont : ¬ c.containers.contains id = true := by simp [Store.contains, hnone]
    refine ⟨h.placed.narrow fun k hk hE hc => ?_, h.owned.narrow ?_ (fun _ hl hn => absurd hl hn)
      fun _ _ _ ha hn => absurd ha hn⟩
    · rcases Set.mem_insert_iff.mp hk with rfl | hk
      · exact absurd hc hcont
      · exact absurd hk hE
    · intro k hk _ r hr hs
      exact absurd (h.contains_scope hr hs) (hk ▸ hcont)
  · intro id c h hne
    refine (⟨(h.placed.tended id).narrow fun k hk hE _ => ?_, ?_⟩ : Orderly _ _ _)
    · rcases Set.mem_insert_iff.mp hk with rfl | hk
      · exact hne
      · exact absurd hk hE
    · exact (h.tended fun j hj => hj).owned.mono (by simp) Set.sdiff_subset (by simp)
  · exact fun id c x h hx hc hp =>
      (h.drop_settling hx hc).mono (by simp [hp]) subset_rfl subset_rfl subset_rfl
  · exact fun id c x p h hx hc hp => h.drop_next hx hc hp

/-- Settling several containers puts all of them in order. -/
theorem Orderly.settleAll {ids : List String} (h : c.Orderly ({k | k ∈ ids} ∪ E) ⟨∅, L, A⟩) :
    (c.settleAll ids).value.1.Orderly E ⟨∅, L, A⟩ := by
  induction ids generalizing c with
  | nil => exact h.mono (by simp) subset_rfl subset_rfl subset_rfl
  | cons id rest ih =>
    refine ih (Orderly.settle (h.mono ?_ (by simp) subset_rfl subset_rfl))
    intro k hor
    rcases hor with hk | hk
    · rcases List.mem_cons.mp hk with rfl | hk
      · exact .inl rfl
      · exact .inr (.inl hk)
    · exact .inr (.inr hk)

/-! ## Moving -/

/-- A move that is not rejected leads to a container that is not below the node. -/
theorem not_above_of_accepted (h : c.Placed E) (hp : c.parentRejection? id p = none) :
    ∀ q, p = some q → c.containers.contains q = true ∧ ¬ Above c.up id (some q) := by
  intro q he
  subst he
  simp only [parentRejection?] at hp
  split at hp
  · cases hp
  · next hne =>
    split at hp
    · cases hp
    · next hq =>
      split at hp
      · cases hp
      · next hcyc =>
        have hq : c.containers.contains q = true := by simpa using hq
        refine ⟨hq, fun ha => hcyc ?_⟩
        have hcont := contains_iff_up.mpr ((h.grounded_container hq).isSome_of_above ha)
        obtain ⟨m, hm, rfl, hf⟩ := contains_iff_node.mp hq
        rw [Bool.and_eq_true, List.contains_iff_mem]
        refine ⟨hcont, mem_family.mpr (below_of_above hm ?_)⟩
        exact ha.step (Ne.symm hne) (up_eq_some_iff.mpr ⟨m, hm, rfl, hf, rfl⟩)

/-- A container that is not below a node takes it in. -/
theorem accepted_of_not_above (ha : c.Apart) {q : String} (hq : c.containers.contains q = true)
    (hnot : ¬ Above c.up id (some q)) : c.parentRejection? id (some q) = none := by
  have hne : q ≠ id := fun he => hnot (he ▸ .here)
  have hfamily : q ∉ c.family id := by
    obtain ⟨m, hm, rfl, hf⟩ := contains_iff_node.mp hq
    refine fun hbelow => hnot (.up (up_eq_some_iff.mpr ⟨m, hm, rfl, hf, rfl⟩) ?_)
    exact (ha.mem_family_iff hm).mp hbelow
  simp [parentRejection?, hne, hq, hfamily]

/-- The choreography after a move that was accepted. -/
def moved (c : Choreography τ) (n : Node τ) (p : Option String) : Choreography τ :=
  tendedIn
    (match n.parent with
    | none => c.setParent n.id p
    | some old => ((c.setParent n.id p).settle old).value.1) p

theorem reparent_cases (ha : c.Apart) (hn : n ∈ c.nodes) :
    ((c.parentRejection? n.id p).isSome ∧ (c.reparent n.id p).value = (c, .refused)) ∨
      (c.parentRejection? n.id p = none ∧ (c.reparent n.id p).value =
        (if n.parent = p then c else c.moved n p, .done ())) := by
  rw [reparent, ha.node?_of_mem hn]
  cases hr : c.parentRejection? n.id p with
  | some reason => exact .inl ⟨rfl, rfl⟩
  | none =>
    refine .inr ⟨rfl, ?_⟩
    by_cases hp : n.parent = p
    · simp [hp]
    · simp only [hp, if_false, Logged.value_bind, moved]
      cases n.parent <;> cases p <;> rfl

theorem reparent_missing (hn : ¬ c.hasNode id = true) :
    (c.reparent id p).value = (c, .stopped (.missing id)) := by
  have : c.node? id = none := by simpa [hasNode] using hn
  rw [reparent, this]
  rfl

/-- A node in its new place, before the container that it left and the one that it entered have been
looked after. -/
theorem Orderly.setParent (h : c.Orderly E ⟨∅, L, A⟩) (hn : n ∈ c.nodes)
    (hp : c.parentRejection? n.id p = none) :
    (c.setParent n.id p).Orderly ((E \ {k | p = some k}) ∪ {k | n.parent = some k})
      ⟨{k | n.parent = some k}, L ∪ {k | p = some k}, A⟩ :=
  ⟨h.placed.move hn (not_above_of_accepted h.placed hp),
    (h.owned.move (p := p) h.placed hn fun k _ => by simp).mono (by simp) subset_rfl subset_rfl⟩

/-- A node in its new place leaves only the container that it was in to be settled. -/
theorem Orderly.displaced (h : c.Orderly E ⟨∅, L, A⟩) (hn : n ∈ c.nodes)
    (hp : c.parentRejection? n.id p = none) {old : String} (hold : n.parent = some old) :
    (c.setParent n.id p).Orderly (insert old (E \ {k | p = some k}))
      ⟨{old}, L ∪ {k | p = some k}, A⟩ := by
  have hold' : {k | n.parent = some k} = ({old} : Set String) := by
    ext k
    rw [Set.mem_ofPred_eq, hold, Option.some.injEq, eq_comm, Set.mem_singleton_iff]
  have hd := h.setParent hn hp
  rw [hold'] at hd
  exact hd.mono (by simp) subset_rfl subset_rfl subset_rfl

/-- A node that was at the top level leaves no container to be settled. -/
theorem Orderly.displaced_top (h : c.Orderly E ⟨∅, L, A⟩) (hn : n ∈ c.nodes)
    (hp : c.parentRejection? n.id p = none) (hold : n.parent = none) :
    (c.setParent n.id p).Orderly (E \ {k | p = some k}) ⟨∅, L ∪ {k | p = some k}, A⟩ :=
  (h.setParent hn hp).mono (by simp [hold]) (by simp [hold]) subset_rfl subset_rfl

/-- A move that is carried out leaves order behind, and a child in the container it leads to. -/
theorem Orderly.moved (h : c.Orderly E ⟨∅, L, A⟩) (hn : n ∈ c.nodes)
    (hp : c.parentRejection? n.id p = none) :
    (c.moved n p).Orderly (E \ {k | p = some k}) ⟨∅, L, A⟩ := by
  unfold Choreography.moved
  cases hold : n.parent with
  | none => exact (h.displaced_top hn hp hold).tendedIn
  | some old => exact (h.displaced hn hp hold).settle.tendedIn

theorem Orderly.reparent (h : c.Orderly E ⟨∅, L, A⟩) (id : String) (p : Option String) :
    (c.reparent id p).value.1.Orderly E ⟨∅, L, A⟩ := by
  by_cases hid : c.hasNode id = true
  · obtain ⟨n, hn, rfl⟩ := hasNode_iff.mp hid
    rcases reparent_cases (p := p) h.placed.numbered.apart hn with ⟨_, he⟩ | ⟨hp, he⟩
    · rw [he]; exact h
    · rw [he]
      show Orderly E _ (if n.parent = p then c else c.moved n p)
      split
      · exact h
      · exact (h.moved hn hp).mono Set.sdiff_subset subset_rfl subset_rfl subset_rfl
  · rw [reparent_missing hid]
    exact h

/-! ## New nodes -/

/-- The choreography with an event added, before its parent is looked after. -/
def withEvent (c : Choreography τ) (e : NewEvent τ) : Choreography τ :=
  { c with
    events := c.events.insert (e.event (c.ids.allocate .event).1)
    ids := (c.ids.allocate .event).2 }

theorem value_addEvent {e : NewEvent τ} :
    (c.addEvent e).value = ((c.withEvent e).tendedIn e.parent, (c.ids.allocate .event).1) := by
  obtain ⟨_, _, _, _, _, parent, _⟩ := e
  cases parent <;> rfl

theorem adds_withEvent {e : NewEvent τ} (hnew : ¬ c.hasNode (c.ids.allocate .event).1 = true) :
    Adds (.event (e.event (c.ids.allocate .event).1)) c (c.withEvent e) :=
  adds_event hnew rfl rfl

/-- An event that is added leaves only its parent lacking. -/
theorem Orderly.withEvent (h : c.Orderly E ⟨∅, L, A⟩) {e : NewEvent τ}
    (hp : ∀ p, e.parent = some p → c.containers.contains p = true) :
    (c.withEvent e).Orderly E ⟨∅, L ∪ {k | e.parent = some k}, A⟩ := by
  have hnew := h.placed.numbered.unused .event
  have ha := adds_withEvent (e := e) hnew
  refine ⟨(h.placed.add ha rfl rfl hp).narrow fun k hk hE hc => ?_,
    h.owned.add h.placed ha hnew rfl⟩
  rcases Set.mem_insert_iff.mp hk with rfl | hk
  · -- the new id is that of an event
    obtain ⟨y, hy, hyid, hform⟩ := contains_iff_node.mp hc
    rcases (ha y).mp hy with hy | rfl
    · exact absurd (hasNode_iff.mpr ⟨y, hy, hyid⟩) hnew
    · cases hform
  · exact absurd hk hE

theorem Orderly.addEvent (h : c.Orderly E ⟨∅, L, A⟩) {e : NewEvent τ}
    (hp : ∀ p, e.parent = some p → c.containers.contains p = true) :
    (c.addEvent e).value.1.Orderly E ⟨∅, L, A⟩ := by
  rw [value_addEvent]
  exact (h.withEvent hp).tendedIn

/-- What is no container is refused as a parent of a new event. -/
theorem contains_of_unfiltered {e : NewEvent τ}
    (h : (e.parent.filter fun p => !c.containers.contains p) = none) :
    ∀ p, e.parent = some p → c.containers.contains p = true := fun p hp => by
  simpa [hp, Option.filter] using h

theorem Orderly.createEvent (h : c.Orderly E ⟨∅, L, A⟩) (e : NewEvent τ) :
    (c.createEvent e).value.1.Orderly E ⟨∅, L, A⟩ := by
  unfold Choreography.createEvent
  split
  · exact h
  · split
    · exact h
    · next hparent => exact h.addEvent (contains_of_unfiltered hparent)

theorem Orderly.adopt {ids : List String} (h : c.Orderly E ⟨∅, L, A⟩) :
    (c.adopt k ids).value.1.Orderly E ⟨∅, L, A⟩ := by
  induction ids generalizing c with
  | nil => exact h
  | cons id rest ih =>
    have hd := h.reparent id (some k)
    simp only [Choreography.adopt, Logged.value_bind]
    split
    · exact hd
    · exact ih hd

/-- A new container is below none of the nodes that are not above its parent. -/
theorem not_above_new {x : Container τ} (h : c.Placed E) (ha : Adds (.container x) c d)
    (hne : id ≠ x.id)
    (hp : ∀ q, x.parent = some q → c.containers.contains q = true ∧ ¬ Above c.up id (some q)) :
    ¬ Above d.up id (some x.id) := by
  intro hab
  have hab := hab.step hne (up_eq_some_iff.mpr ⟨_, (ha _).mpr (.inr rfl), rfl, rfl, rfl⟩)
  cases hpar : x.parent with
  | none =>
    rw [show (Node.container x : Node τ).parent = none from hpar] at hab
    cases hab
  | some q =>
    rw [show (Node.container x : Node τ).parent = some q from hpar] at hab
    obtain ⟨hq, hnot⟩ := hp q hpar
    have hg := h.grounded_container hq
    refine hnot (hg.above_of_above (fun a haq => ?_) hab)
    obtain ⟨r, hr⟩ := Option.isSome_iff_exists.mp (hg.isSome_of_above haq)
    rw [hr, ha.up_of_up hr]

/-- A parent that suits a new container is there. -/
theorem contains_of_wrapRejection? {ids : List String} (hw : c.wrapRejection? ids p = none) :
    ∀ q, p = some q → c.containers.contains q = true := by
  intro q he
  subst he
  simp only [wrapRejection?] at hw
  split at hw
  · cases hw
  · split at hw
    · cases hw
    · next hq => simpa using hq

theorem accepted_of_wrapRejection? {ids : List String} (h : c.Placed E)
    (hw : c.wrapRejection? ids p = none) (hid : id ∈ ids) :
    ∀ q, p = some q → c.containers.contains q = true ∧ ¬ Above c.up id (some q) := by
  intro q he
  subst he
  simp only [wrapRejection?] at hw
  split at hw
  · cases hw
  · split at hw
    · cases hw
    · exact not_above_of_accepted h (List.findSome?_eq_none_iff.mp hw id hid) q rfl

/-- The choreography with a container added, before it takes nodes in. -/
def withContainer (c : Choreography τ) (w : NewContainer τ) : Choreography τ :=
  { c with
    containers := c.containers.insert (w.container (c.ids.allocate w.kind.node).1)
    ids := (c.ids.allocate w.kind.node).2 }

theorem adds_withContainer {w : NewContainer τ}
    (hnew : ¬ c.hasNode (c.ids.allocate w.kind.node).1 = true) :
    Adds (.container (w.container (c.ids.allocate w.kind.node).1)) c (c.withContainer w) :=
  adds_container hnew rfl rfl

theorem contains_withContainer {w : NewContainer τ}
    (hnew : ¬ c.hasNode (c.ids.allocate w.kind.node).1 = true) :
    (c.withContainer w).containers.contains (c.ids.allocate w.kind.node).1 = true :=
  contains_iff_node.mpr ⟨_, (adds_withContainer hnew _).mpr (.inr rfl), rfl, rfl⟩

/-- A new container takes nodes in, and unless that stops midway it and its parent are looked
after. -/
theorem wrap_cases (c : Choreography τ) (w : NewContainer τ) :
    (∃ o, ((c.withContainer w).adopt (c.ids.allocate w.kind.node).1 w.wrapped).value.2 =
        .stopped o ∧
      (c.wrap w).value =
        (((c.withContainer w).adopt (c.ids.allocate w.kind.node).1 w.wrapped).value.1,
          .stopped o)) ∨
    (∀ o, ((c.withContainer w).adopt (c.ids.allocate w.kind.node).1 w.wrapped).value.2 ≠
        .stopped o) ∧
      (c.wrap w).value =
        (((((c.withContainer w).adopt (c.ids.allocate w.kind.node).1 w.wrapped).value.1).tended
            (c.ids.allocate w.kind.node).1).tendedIn w.parent,
          .done (c.ids.allocate w.kind.node).1) := by
  rcases hv : ((c.withContainer w).adopt (c.ids.allocate w.kind.node).1 w.wrapped).value with ⟨e, v⟩
  unfold withContainer at hv
  simp only [Choreography.wrap, Logged.value_bind, hv]
  cases v with
  | stopped o => exact .inl ⟨o, rfl, rfl⟩
  | refused => exact .inr ⟨fun o ho => (by cases ho), by cases w.parent <;> rfl⟩
  | done u => exact .inr ⟨fun o ho => (by cases ho), by cases w.parent <;> rfl⟩

/-- A new container is itself without children, and leaves its parent lacking. -/
theorem Orderly.withContainer (h : c.Orderly ∅ ⟨∅, L, A⟩) {w : NewContainer τ}
    (hp : ∀ q, w.parent = some q → c.containers.contains q = true) :
    (c.withContainer w).Orderly {(c.ids.allocate w.kind.node).1}
      ⟨∅, L ∪ {k | w.parent = some k}, A⟩ := by
  have hnew := h.placed.numbered.unused w.kind.node
  have ha := adds_withContainer hnew
  refine ⟨(h.placed.add ha rfl rfl hp).mono ?_, h.owned.add h.placed ha hnew rfl⟩
  rintro k (rfl | hk)
  · exact rfl
  · exact absurd hk (Set.notMem_empty k)

/-- None of the nodes to wrap is above the new container. -/
theorem not_above_withContainer {w : NewContainer τ} (h : c.Placed E)
    (hw : c.wrapRejection? w.wrapped w.parent = none) (hmem : id ∈ w.wrapped)
    (hid : c.hasNode id = true) :
    ¬ Above (c.withContainer w).up id (some (c.ids.allocate w.kind.node).1) :=
  have hnew := h.numbered.unused w.kind.node
  not_above_new h (adds_withContainer hnew)
    (fun he : id = (c.ids.allocate w.kind.node).1 => hnew (he ▸ hid))
    (accepted_of_wrapRejection? h hw hmem)

/-- What a new container takes in gives it a child, and leaves only its parent lacking. -/
theorem Orderly.fill (h : c.Orderly ∅ ⟨∅, L, A⟩) {w : NewContainer τ}
    (hthere : ∀ id ∈ w.wrapped, c.hasNode id = true) (hne : w.wrapped ≠ [])
    (hw : c.wrapRejection? w.wrapped w.parent = none) :
    ((c.withContainer w).adopt (c.ids.allocate w.kind.node).1 w.wrapped).value.1.Orderly ∅
      ⟨∅, L ∪ {k | w.parent = some k}, A⟩ := by
  have hnew := h.placed.numbered.unused w.kind.node
  have hwith := h.withContainer (contains_of_wrapRejection? hw)
  obtain ⟨first, rest, hlist⟩ := List.exists_cons_of_ne_nil hne
  have hfirst : first ∈ w.wrapped := hlist ▸ List.mem_cons_self
  have hfar := not_above_withContainer h.placed hw hfirst (hthere first hfirst)
  obtain ⟨n, hn, rfl⟩ := hasNode_iff.mp (hthere first hfirst)
  have hnd : n ∈ (c.withContainer w).nodes := (adds_withContainer hnew n).mpr (.inl hn)
  have hmade := contains_withContainer hnew
  generalize (c.ids.allocate w.kind.node).1 = k at hnew hwith hfar hmade ⊢
  have ha := hwith.placed.numbered.apart
  have haccept := accepted_of_not_above ha hmade hfar
  have hout : n.parent ≠ some k :=
    fun hp => hnew (hasNode_of_contains (h.placed.contains_parent hn hp))
  have hmoved : ((c.withContainer w).reparent n.id (some k)).value =
      ((c.withContainer w).moved n (some k), .done ()) := by
    rcases reparent_cases (p := some k) ha hnd with ⟨hsome, _⟩ | ⟨_, he⟩
    · rw [haccept] at hsome
      cases hsome
    · rwa [if_neg hout] at he
  rw [hlist]
  simp only [Choreography.adopt, Logged.value_bind, hmoved]
  refine Orderly.adopt ((hwith.moved hnd haccept).mono ?_ subset_rfl subset_rfl subset_rfl)
  intro j ⟨hj, hout⟩
  exact absurd (congrArg some (Set.mem_singleton_iff.mp hj).symm) hout

/-- A new container is put in order unless taking nodes in stops midway; then its parent may lack
exclusions. -/
theorem Orderly.wrap (h : c.Orderly ∅ ⟨∅, L, A⟩) (w : NewContainer τ)
    (hthere : ∀ id ∈ w.wrapped, c.hasNode id = true) (hne : w.wrapped ≠ [])
    (hw : c.wrapRejection? w.wrapped w.parent = none) :
    (c.wrap w).value.1.Orderly ∅ ⟨∅, L ∪ {k | w.parent = some k}, A⟩ ∧
      ((∀ o, (c.wrap w).value.2 ≠ .stopped o) → (c.wrap w).value.1.Orderly ∅ ⟨∅, L, A⟩) := by
  have hfill := h.fill hthere hne hw
  have hloose : ∀ {e : Choreography τ}, e.Orderly ∅ ⟨∅, L, A⟩ →
      e.Orderly ∅ ⟨∅, L ∪ {k | w.parent = some k}, A⟩ :=
    fun he => he.mono subset_rfl subset_rfl Set.subset_union_left subset_rfl
  rcases wrap_cases c w with ⟨o, -, he⟩ | ⟨-, he⟩
  · rw [he]
    exact ⟨hfill, fun hno => absurd rfl (hno o)⟩
  · have hdone := Orderly.tendedIn
      ((hfill.tended (k := (c.ids.allocate w.kind.node).1) (by simp)).mono subset_rfl subset_rfl
        Set.sdiff_subset subset_rfl)
    rw [he]
    exact ⟨hloose hdone, fun _ => hdone⟩

theorem Orderly.createContainer (h : c.Orderly ∅ ⟨∅, L, A⟩) (w : NewContainer τ) :
    (c.createContainer w).value.1.Orderly ∅ ⟨∅, L ∪ {k | w.parent = some k}, A⟩ ∧
      ((∀ o, (c.createContainer w).value.2 ≠ .stopped o) →
        (c.createContainer w).value.1.Orderly ∅ ⟨∅, L, A⟩) := by
  have hsame : c.Orderly ∅ ⟨∅, L ∪ {k | w.parent = some k}, A⟩ :=
    h.mono subset_rfl subset_rfl Set.subset_union_left subset_rfl
  unfold Choreography.createContainer
  split
  · exact ⟨hsame, fun _ => h⟩
  · next hfind =>
    split
    · exact ⟨hsame, fun _ => h⟩
    · next hempty =>
      split
      · exact ⟨hsame, fun _ => h⟩
      · next hw =>
        refine h.wrap w (fun id hid => ?_) (fun hnil => hempty (List.isEmpty_iff.mpr hnil)) hw
        simpa using List.find?_eq_none.mp hfind id hid

end Dcr.Choreography
