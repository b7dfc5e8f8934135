import Dcr.Proofs.Leaving
import Dcr.Proofs.Numbers

/-! Wrapping. A new container takes nodes in one after the other, and each move may make containers
leave that were to be taken in, or that they were in. None of the moves is refused, because nothing
changes above the new container; and what is left in the end is what would be left had all nodes
moved at once and the containers without an event gone then. -/

namespace Dcr

variable {τ : Type} [FreeText τ]

@[simp] theorem Node.id_ite_withParent {n : Node τ} {p : Option String} {q : Prop} [Decidable q] :
    (if q then n.withParent p else n).id = n.id := by
  split <;> simp

namespace Choreography

variable {b c d s : Choreography τ} {m n : Node τ} {gone : List (Container τ)} {log : List Notice}
  {E L A : Set String} {ids : List String} {a id k : String} {p : Option String}
  {w : NewContainer τ}

/-! ## Nodes gathered -/

/-- The choreography with some nodes put into a container, before any container is looked after. -/
def gathered (c : Choreography τ) (k : String) (ids : List String) : Choreography τ :=
  ids.foldl (fun c id => c.setParent id (some k)) c

theorem gathered_cons : c.gathered k (id :: ids) = (c.setParent id (some k)).gathered k ids := rfl

theorem Apart.gathered (ha : c.Apart) : (c.gathered k ids).Apart := by
  induction ids generalizing c with
  | nil => exact ha
  | cons id rest ih => exact ih ha.setParent

theorem mem_nodes_gathered (ha : c.Apart) : m ∈ (c.gathered k ids).nodes ↔
    ∃ n ∈ c.nodes, m = if n.id ∈ ids then n.withParent (some k) else n := by
  induction ids generalizing c with
  | nil => simp [Choreography.gathered]
  | cons id rest ih =>
    rw [gathered_cons, ih ha.setParent]
    simp only [mem_nodes_setParent ha]
    have hboth : ∀ n : Node τ, n.withParent (some k) =
        if (n.withParent (some k)).id ∈ rest then (n.withParent (some k)).withParent (some k)
        else n.withParent (some k) := fun n => by split <;> simp
    constructor
    · rintro ⟨_, ⟨n, hn, rfl⟩, rfl⟩
      refine ⟨n, hn, ?_⟩
      by_cases hid : n.id = id
      · rw [if_pos hid, ← hboth, if_pos (List.mem_cons.mpr (.inl hid))]
      · simp [hid]
    · rintro ⟨n, hn, rfl⟩
      refine ⟨_, ⟨n, hn, rfl⟩, ?_⟩
      by_cases hid : n.id = id
      · rw [if_pos hid, ← hboth, if_pos (List.mem_cons.mpr (.inl hid))]
      · simp [hid]

/-! ## Taking nodes in -/

/-- What leaves is the same after a node that stays has moved to a container that stays. -/
theorem Leaves.setParent (h : Leaves gone log b s) (hb : b.Apart) (hid : s.hasNode id = true)
    (hk : k ∉ gone.map Container.id) :
    Leaves gone log (b.setParent id (some k)) (s.setParent id (some k)) := by
  have hs := h.drops.1.apart hb
  have hout := (h.drops.1.hasNode_iff.mp hid).2
  refine ⟨⟨⟨fun m => ?_, fun m hm q hq hp => ?_⟩, fun j hj => ?_⟩, fun x hx => ?_, h.once, h.told⟩
  · rw [mem_nodes_setParent hs, mem_nodes_setParent hb]
    constructor
    · rintro ⟨n, hn, rfl⟩
      obtain ⟨hn, hn'⟩ := (h.drops.1.mem n).mp hn
      exact ⟨⟨n, hn, rfl⟩, by rwa [Node.id_ite_withParent]⟩
    · rintro ⟨⟨n, hn, rfl⟩, hn'⟩
      rw [Node.id_ite_withParent] at hn'
      exact ⟨n, (h.drops.1.mem n).mpr ⟨hn, hn'⟩, rfl⟩
  · obtain ⟨n, hn, rfl⟩ := (mem_nodes_setParent hb).mp hm
    rw [Node.id_ite_withParent]
    split at hp
    · rw [Node.parent_withParent] at hp
      exact absurd (Option.some.inj hp ▸ hq) hk
    · exact h.drops.1.closed n hn q hq hp
  · rw [contains_iff_form?, form?_setParent hb, ← contains_iff_form?]
    exact h.drops.2 j hj
  · refine container_mem_nodes.mp ((mem_nodes_setParent hb).mpr
      ⟨_, container_mem_nodes.mpr (h.there x hx), (if_neg ?_).symm⟩)
    exact fun he => hout (he ▸ (List.mem_map_of_mem hx : x.id ∈ gone.map Container.id))

theorem Orderly.leaves_adopt (hs : s.Orderly E ⟨∅, L, A⟩) (hk : s.containers.contains k = true)
    (hb : b.Apart) (hg : Grounded b.up (some k)) (hfar : ∀ id ∈ ids, ¬ Above b.up id (some k))
    (h : Leaves gone log b s) (hdone : ∀ o, (s.adopt k ids).value.2 ≠ .stopped o) :
    ∃ more, Leaves (gone ++ more) (log ++ (s.adopt k ids).log) (b.gathered k ids)
      (s.adopt k ids).value.1 := by
  induction ids generalizing b s gone log with
  | nil => exact ⟨[], by simpa [Choreography.adopt, Choreography.gathered] using h⟩
  | cons id rest ih =>
    have hid : s.hasNode id = true := by
      by_contra hid
      refine hdone (.missing id) ?_
      simp only [Choreography.adopt, Logged.value_bind, reparent_missing hid]
      rfl
    obtain ⟨n, hn, rfl⟩ := hasNode_iff.mp hid
    have ha := hs.placed.numbered.apart
    have hnot : ¬ Above s.up n.id (some k) := fun habove =>
      hfar n.id List.mem_cons_self (habove.mono fun _ _ => h.drops.1.up_mono)
    have haccept := accepted_of_not_above ha hk hnot
    have hv : (s.reparent n.id (some k)).value.2 = .done () := by
      rcases reparent_cases ha hn with ⟨hrefused, -⟩ | ⟨-, he⟩
      · rw [haccept] at hrefused
        cases hrefused
      · exact congrArg Prod.snd he
    obtain ⟨more, hmore⟩ := leaves_reparent ha hn haccept
    have hout : k ∉ gone.map Container.id :=
      (h.drops.1.hasNode_iff.mp (hasNode_of_contains hk)).2
    -- the walk upwards from the container does not pass the node that moves
    have hup : ∀ j, Above b.up j (some k) → (b.setParent n.id (some k)).up j = b.up j :=
      fun j hj => up_setParent_of_ne hb fun he => hfar n.id List.mem_cons_self (he ▸ hj)
    simp only [Choreography.adopt, Logged.value_bind, Logged.log_bind, hv] at hdone ⊢
    obtain ⟨others, hothers⟩ := ih (hs.reparent n.id (some k)) (hs.contains_reparent hk n.id)
      hb.setParent (hg.transfer hup) (fun j hj habove =>
        hfar j (List.mem_cons_of_mem _ hj) (hg.above_of_above hup habove))
      ((h.setParent hb hid hout).trans hmore) hdone
    exact ⟨more ++ others, by simpa [gathered_cons] using hothers⟩

/-! ## What a new container leaves -/

theorem Leaves.not_refusal (h : Leaves gone log c d) (reason : Rejection) (attempt : String) :
    .refusal reason attempt ∉ log := by
  intro hmem
  have htold : Notice.refusal reason attempt ∈ Notice.prominent log :=
    List.mem_filter.mpr ⟨hmem, by simp [Notice.level]⟩
  rw [h.told] at htold
  obtain ⟨x, -, hx⟩ := List.mem_map.mp htold
  cases hx

/-- The creation of a container that is carried out has been accepted. -/
theorem createContainer_done (hv : (c.createContainer w).value = (d, .done k)) :
    c.createContainer w = c.wrap w ∧ (∀ id ∈ w.wrapped, c.hasNode id = true) ∧ w.wrapped ≠ [] ∧
      c.wrapRejection? w.wrapped w.parent = none := by
  unfold Choreography.createContainer at hv ⊢
  split at hv
  · cases hv
  · next hfind =>
    split at hv
    · cases hv
    · next hempty =>
      split at hv
      · cases hv
      · next haccepted =>
        refine ⟨if_neg hempty, fun id hid => ?_, fun hnil => ?_, haccepted⟩
        · simpa using List.find?_eq_none.mp hfind id hid
        · exact hempty (List.isEmpty_iff.mpr hnil)

/-- A container that is put around its nodes has taken all of them in, and has then been looked
after with its parent. -/
theorem wrap_done (hv : (c.wrap w).value = (d, .done k)) :
    k = (c.ids.allocate w.kind.node).1 ∧
      (∀ o, ((c.withContainer w).adopt k w.wrapped).value.2 ≠ .stopped o) ∧
      d = (((c.withContainer w).adopt k w.wrapped).value.1.tended k).tendedIn w.parent := by
  rcases wrap_cases c w with ⟨o, -, he⟩ | ⟨hdone, he⟩
  · rw [he] at hv
    cases hv
  · rw [he] at hv
    cases hv
    exact ⟨rfl, hdone, rfl⟩

/-- A new container is announced; after it has taken nodes in all is for debugging only. -/
theorem log_wrap (c : Choreography τ) (w : NewContainer τ) :
    ∃ later, (∀ n ∈ later, n.level = .debug) ∧ (c.wrap w).log =
      .advice (w.kind.title ++ " added: " ++ (c.ids.allocate w.kind.node).1 ++ ".") ::
        (((c.withContainer w).adopt (c.ids.allocate w.kind.node).1 w.wrapped).log ++ later) := by
  rcases hadopt : (c.withContainer w).adopt (c.ids.allocate w.kind.node).1 w.wrapped with
    ⟨⟨e, v⟩, log⟩
  unfold withContainer at hadopt
  simp only [Choreography.wrap, Logged.log_bind, hadopt, Logged.tell]
  refine ⟨_, fun n hn => ?_, rfl⟩
  cases v with
  | stopped o => cases hn
  | _ =>
    cases hp : w.parent with
    | none =>
      rw [hp] at hn
      exact debug_upkeep e _ n (by simpa [syncExclusions] using hn)
    | some parent =>
      rw [hp] at hn
      simp only [Logged.log_bind, Logged.log_pure, List.append_nil, List.mem_append] at hn
      exact hn.elim (debug_upkeep e _ n) (debug_upkeep _ parent n)

/-- What the creation of a container around some nodes leaves and tells: the new container, which
has the nodes that are still there as its children and is in the parent that was asked for, and all
others where they were, but for the containers that no event is below once all nodes are in it. -/
structure Wrapping (c : Choreography τ) (w : NewContainer τ) (k : String) (d : Choreography τ)
    (log : List Notice) : Prop where
  fresh : ¬ c.hasNode k = true
  children : ∀ a, a ∈ d.children k ↔ a ∈ w.children ∧ d.hasNode a = true
  gone : ∀ a, c.hasNode a = true →
    (¬ d.hasNode a = true ↔ ((c.withContainer w).gathered k w.wrapped).Deserted ∅ a)
  unrefused : ∀ reason attempt, .refusal reason attempt ∉ log
  kept : ∀ n ∈ c.nodes, d.hasNode n.id = true →
    (if n.id ∈ w.children then n.withParent (some k) else n) ∈ d.nodes
  there : .container (w.container k) ∈ d.nodes
  under : ∀ p, w.parent = some p → d.containers.contains p = true

/-- The nodes once all that are listed are in the new container. -/
theorem mem_nodes_around (h : c.Numbered) (ha : (c.withContainer w).Apart)
    (hthere : ∀ id ∈ w.wrapped, c.hasNode id = true) (n : Node τ) :
    n ∈ ((c.withContainer w).gathered (c.ids.allocate w.kind.node).1 w.wrapped).nodes ↔
      n = .container (w.container (c.ids.allocate w.kind.node).1) ∨
        ∃ l ∈ c.nodes, n =
          if l.id ∈ w.children then l.withParent (some (c.ids.allocate w.kind.node).1) else l := by
  have hnew := h.unused w.kind.node
  have hadds := adds_withContainer hnew
  have hwrapped : ∀ a, a ∈ w.wrapped ↔ a ∈ w.children := fun a => List.mem_eraseDups
  have hout : (Node.container (w.container (c.ids.allocate w.kind.node).1)).id ∉ w.children :=
    fun hmem => hnew (hthere _ ((hwrapped _).mpr hmem))
  rw [mem_nodes_gathered ha]
  simp only [hwrapped]
  constructor
  · rintro ⟨l, hl, rfl⟩
    rcases (hadds l).mp hl with hl | rfl
    · exact .inr ⟨l, hl, rfl⟩
    · exact .inl (if_neg hout)
  · rintro (rfl | ⟨l, hl, rfl⟩)
    · exact ⟨_, (hadds _).mpr (.inr rfl), (if_neg hout).symm⟩
    · exact ⟨l, (hadds _).mpr (.inl hl), rfl⟩

/-- What a new container leaves is what leaves once all nodes are in it. -/
theorem Orderly.leaves_wrap (h : c.Orderly ∅ ⟨∅, L, A⟩)
    (hthere : ∀ id ∈ w.wrapped, c.hasNode id = true) (hne : w.wrapped ≠ [])
    (haccepted : c.wrapRejection? w.wrapped w.parent = none)
    (hv : (c.wrap w).value = (d, .done k)) :
    d.Placed ∅ ∧ d.containers.contains k = true ∧ ∃ gone log,
      Leaves gone log ((c.withContainer w).gathered k w.wrapped) d ∧
        (c.wrap w).log = .advice (w.kind.title ++ " added: " ++ k ++ ".") :: log := by
  obtain ⟨rfl, hdone, rfl⟩ := wrap_done hv
  obtain ⟨later, hlater, hlog⟩ := log_wrap c w
  have hmade := contains_withContainer (h.placed.numbered.unused w.kind.node)
  have hwith := h.withContainer (contains_of_wrapRejection? haccepted)
  obtain ⟨gone, hgone⟩ := hwith.leaves_adopt hmade hwith.placed.numbered.apart
    (hwith.placed.grounded_container hmade)
    (fun id hmem => not_above_withContainer h.placed haccepted hmem (hthere id hmem))
    (leaves_refl _) hdone
  refine ⟨((h.fill hthere hne haccepted).placed.tended _).tendedIn _, ?_, _, _,
    hgone.trans (leaves_nil nodes_tendedIn hlater), hlog⟩
  rw [contains_iff_node, nodes_tendedIn]
  exact contains_iff_node.mp (hwith.contains_adopt hmade w.wrapped)

theorem Orderly.wrapping (h : c.Orderly ∅ ⟨∅, L, A⟩)
    (hv : (c.createContainer w).value = (d, .done k)) :
    c.Wrapping w k d (c.createContainer w).log := by
  obtain ⟨he, hthere, hne, haccepted⟩ := createContainer_done hv
  rw [he] at hv ⊢
  obtain ⟨hplaced, hstays, gone, log, hgone, hlog⟩ := h.leaves_wrap hthere hne haccepted hv
  obtain ⟨rfl, -⟩ := wrap_done hv
  have hnew := h.placed.numbered.unused w.kind.node
  have hparent := contains_of_wrapRejection? haccepted
  have hapart := (h.withContainer hparent).placed.numbered.apart
  have haround := mem_nodes_around h.placed.numbered hapart hthere
  generalize (c.ids.allocate w.kind.node).1 = k at hnew hstays hgone hlog haround ⊢
  have hout : k ∉ w.children := fun hmem => hnew (hthere k (List.mem_eraseDups.mpr hmem))
  have hleft : ∀ n, n ∈ d.nodes ↔ (n = .container (w.container k) ∨
      ∃ l ∈ c.nodes, n = if l.id ∈ w.children then l.withParent (some k) else l) ∧
        ¬ ((c.withContainer w).gathered k w.wrapped).Deserted ∅ n.id := fun n =>
    (hgone.drops.1.mem n).trans (and_congr (haround n)
      (not_congr (hgone.deserted_iff hapart.gathered hplaced)))
  have hdeserted : ∀ a, c.hasNode a = true →
      (¬ d.hasNode a = true ↔ ((c.withContainer w).gathered k w.wrapped).Deserted ∅ a) := by
    intro a ha
    obtain ⟨l, hl, rfl⟩ := hasNode_iff.mp ha
    have hthere := hasNode_of_mem ((haround _).mpr (.inr ⟨l, hl, rfl⟩))
    rw [Node.id_ite_withParent] at hthere
    rw [hgone.drops.1.hasNode_iff, ← hgone.deserted_iff hapart.gathered hplaced, hthere]
    simp
  have hmade : .container (w.container k) ∈ d.nodes := by
    obtain ⟨n, hn, hid, -⟩ := contains_iff_node.mp hstays
    rcases ((hleft n).mp hn).1 with rfl | ⟨l, hl, rfl⟩
    · exact hn
    · rw [Node.id_ite_withParent] at hid
      exact absurd (hid ▸ hasNode_of_mem hl) hnew
  refine ⟨hnew, fun a => ⟨fun ha => ?_, fun ⟨ha, hthere⟩ => ?_⟩, hdeserted,
    fun reason attempt hmem => ?_, fun l hl hthere => ?_, hmade,
    fun p hp => hplaced.contains_parent hmade hp⟩
  · refine ⟨?_, hasNode_of_mem_children ha⟩
    obtain ⟨n, hn, rfl, hp⟩ := mem_children.mp ha
    rcases ((hleft n).mp hn).1 with rfl | ⟨l, hl, rfl⟩
    · exact absurd (hasNode_of_contains (hparent k hp)) hnew
    · by_contra hunlisted
      rw [Node.id_ite_withParent] at hunlisted
      rw [if_neg hunlisted] at hp
      exact hnew (hasNode_of_contains (h.placed.contains_parent hl hp))
  · obtain ⟨n, hn, rfl⟩ := hasNode_iff.mp hthere
    refine mem_children_of hn ?_
    rcases ((hleft n).mp hn).1 with rfl | ⟨l, hl, rfl⟩
    · exact absurd ha hout
    · rw [Node.id_ite_withParent] at ha
      rw [if_pos ha, Node.parent_withParent]
  · rw [hlog] at hmem
    rcases List.mem_cons.mp hmem with hmem | hmem
    · cases hmem
    · exact hgone.not_refusal reason attempt hmem
  · refine (hleft _).mpr ⟨.inr ⟨l, hl, rfl⟩, fun hdeserted' => ?_⟩
    rw [Node.id_ite_withParent] at hdeserted'
    exact (hdeserted l.id (hasNode_of_mem hl)).mpr hdeserted' hthere

end Choreography

namespace Editor

variable {e g : Editor τ}

theorem edit_done {edit : Edit τ} {answer : Answer τ}
    (hv : (e.edit edit).value = (g, .done answer)) :
    (edit.perform e.choreography).value = (g.choreography, .done answer) ∧
      (e.edit edit).log = (edit.perform e.choreography).log := by
  unfold Editor.edit at hv ⊢
  split at hv
  · cases hv
  · split at hv
    · cases hv
    · next hidle =>
      rw [if_neg hidle]
      obtain ⟨rfl, hdone⟩ := Prod.mk.inj hv
      exact ⟨Prod.ext rfl hdone, List.append_nil _⟩

/-- In every session a new container has the nodes that it was put around and that are still there,
and nothing else has changed but that containers left without an event are gone. -/
theorem wrapping_after [DecidableEq τ] (h : e.Opening) (calls : List (Call τ))
    {w : NewContainer τ} {k : String}
    (hv : ((e.after calls).edit (.createContainer w)).value = (g, .done (.name k))) :
    (e.after calls).choreography.Wrapping w k g.choreography
      ((e.after calls).edit (.createContainer w)).log := by
  obtain ⟨hdone, hlog⟩ := edit_done hv
  obtain ⟨hfst, hsnd⟩ := Prod.mk.inj hdone
  obtain ⟨new, hnew, hname⟩ := Verdict.map_eq_done.mp hsnd
  cases hname
  rw [hlog]
  exact (orderly_after h calls).wrapping (Prod.ext hfst hnew)

/-- A nest around one event of the sample. -/
def nest : Call String := .edit (.createContainer { form := .nest .group, children := ["e0"] })

/-- A choice to put around the nest, the event in it, so that the nest is left empty, and another
event. -/
def emptying : NewContainer String := { form := .nest .choice, children := ["n0", "e0", "e1"] }

theorem wrapping_after_emptying :
    Opening { choreography := (Sample.choreography : Choreography String) } ∧
    ∃ g : Editor String,
      ((after { choreography := Sample.choreography } [nest]).edit
        (.createContainer emptying)).value = (g, .done (.name "n1")) ∧
      (after { choreography := Sample.choreography } [nest]).choreography.Wrapping emptying "n1"
        g.choreography ((after { choreography := Sample.choreography } [nest]).edit
          (.createContainer emptying)).log := by
  have hv : ((after { choreography := (Sample.choreography : Choreography String) } [nest]).edit
      (.createContainer emptying)).value.2 = .done (.name "n1") := by decide +kernel
  exact ⟨.inr rfl, _, Prod.ext rfl hv, wrapping_after (.inr rfl) _ (Prod.ext rfl hv)⟩

end Editor

end Dcr
