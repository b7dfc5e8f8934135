import Dcr.Proofs.Counters
import Dcr.Proofs.Leaving
import Mathlib.Data.List.Sort

/-! Cascades. A deletion takes away what is below the nodes that are listed and then, one branch
after the other, the containers left without an event; a move does the latter too. Between edits
that have gone well nothing else has to be done: what keeps a child owns the exclusions it should.
So what is left depends on which nodes are listed and on nothing else, in the pools neither. -/

namespace Dcr

variable {τ : Type} [FreeText τ]

/-! ## Pools with the same numbers -/

theorem IdPool.Sane.mem_free_iff {p : IdPool} (h : p.Sane) {n : Int} :
    n ∈ p.free ↔ p.Available n ∧ n < p.next :=
  ⟨fun hn => ⟨.inl hn, h.below n hn⟩, fun ⟨hn, hlt⟩ => hn.resolve_right (Int.not_le.mpr hlt)⟩

/-- A pool is told by its counter and what it can hand out. -/
theorem IdPool.Sane.eq_of_available {p q : IdPool} (hp : p.Sane) (hq : q.Sane)
    (hstem : p.stem = q.stem) (hnext : p.next = q.next) (h : ∀ n, p.Available n ↔ q.Available n) :
    p = q := by
  have hfree : p.free = q.free := hp.ascending.eq_of_mem_iff hq.ascending fun n => by
    rw [hp.mem_free_iff, hq.mem_free_iff, h, hnext]
  cases p
  cases q
  cases hstem
  cases hnext
  cases hfree
  rfl

theorem IdPools.ext_get {p q : IdPools} (h : ∀ kind, p.get kind = q.get kind) : p = q := by
  obtain ⟨_, _, _⟩ := p
  obtain ⟨_, _, _⟩ := q
  cases h .event
  cases h .nest
  cases h .subprocess
  rfl

namespace Choreography

variable {c d e : Choreography τ} {n : Node τ} {x : Container τ} {E L A : Set String}
  {gone ids more removed : List String} {a id k : String} {p : Option String}

theorem Numbered.available_of (hc : c.Numbered) (hd : d.Numbered)
    (hnodes : ∀ a, d.hasNode a = true → c.hasNode a = true) {kind : NodeKind} {n : Int}
    (hn : (c.ids.get kind).Available n) : (d.ids.get kind).Available n := by
  obtain ⟨m, rfl⟩ := Int.eq_ofNat_of_zero_le ((hc.sane kind).1.nonneg hn)
  have hfree := (hc.free kind m).mp (IdPools.free_ident.mpr hn)
  exact IdPools.free_ident.mp ((hd.free kind m).mpr fun hthere => hfree (hnodes _ hthere))

/-- Where ids are those that their pools have handed out, the nodes and the counters tell the
pools. -/
theorem Numbered.ids_eq (hc : c.Numbered) (hd : d.Numbered)
    (hnodes : ∀ a, c.hasNode a = true ↔ d.hasNode a = true)
    (hnext : c.ids.counters = d.ids.counters) : c.ids = d.ids :=
  IdPools.ext_get fun kind =>
    (hc.sane kind).1.eq_of_available (hd.sane kind).1 ((hc.sane kind).2.trans (hd.sane kind).2.symm)
      (congrFun hnext kind) fun _ =>
        ⟨hc.available_of hd fun a => (hnodes a).mpr, hd.available_of hc fun a => (hnodes a).mp⟩

/-! ## Settling -/

/-- Where nothing is in debt, settling cuts out the containers that it lists, and does nothing
else. -/
theorem Orderly.prunes_settle (h : c.Orderly (insert id E) ⟨∅, ∅, A⟩) :
    Prunes (c.settle id).value.2 c (c.settle id).value.1 := by
  fun_induction Choreography.settle c id with
  | case1 c id hnone => exact prunes_nil
  | case2 c id x hx hc ih =>
    have hdrop := prunes_dropContainer h.placed.numbered.apart hx
    have hloose : c.Orderly (insert id E) ⟨{id}, ∅, A⟩ :=
      h.mono subset_rfl (Set.empty_subset _) subset_rfl subset_rfl
    have hnext := hloose.drop_settling hx (List.isEmpty_iff.mp hc)
    simp only [Logged.value_bind]
    cases hp : x.parent with
    | none => exact hdrop
    | some q =>
      refine hdrop.trans (ih q (hnext.mono ?_ subset_rfl subset_rfl subset_rfl))
      rw [hp]
      rintro j (hj | hj)
      · exact .inr hj
      · exact .inl (Option.some.inj hj).symm
  | case3 c id x hx hc =>
    -- what keeps a child owns what it should
    have hkept := h.tended_eq fun hnil => hc (List.isEmpty_iff.mpr hnil)
    show Prunes [] c (c.tended id)
    rw [hkept]
    exact prunes_nil

theorem Orderly.prunes_settleAll (h : c.Orderly ({k | k ∈ ids} ∪ E) ⟨∅, ∅, A⟩) :
    Prunes (c.settleAll ids).value.2 c (c.settleAll ids).value.1 := by
  induction ids generalizing c with
  | nil => exact prunes_nil
  | cons id rest ih =>
    have hsettle : c.Orderly (insert id ({k | k ∈ rest} ∪ E)) ⟨∅, ∅, A⟩ := by
      refine h.mono ?_ subset_rfl subset_rfl subset_rfl
      rintro k (hk | hk)
      · exact (List.mem_cons.mp hk).imp_right .inl
      · exact .inr (.inr hk)
    exact hsettle.prunes_settle.trans
      (ih (Orderly.settle (hsettle.mono subset_rfl (Set.empty_subset _) subset_rfl subset_rfl)))

/-! ## Deletions -/

/-- The ids of some nodes and of all that is below them. -/
def within (c : Choreography τ) (ids : List String) : Set String :=
  {a | ∃ id ∈ ids, a = id ∨ a ∈ c.family id}

/-- What a deletion of some nodes leaves and what it lists: these nodes with all that is below them
and the containers that no other event is below. -/
structure Cascade (c : Choreography τ) (ids : List String) (d : Choreography τ)
    (removed : List String) : Prop where
  once : removed.Nodup
  mem : ∀ a, a ∈ removed ↔ a ∈ c.within ids ∨ c.Deserted (c.within ids) a
  left : d = { c.prune removed with ids := d.ids }

theorem exists_doomed (hthere : ∀ id ∈ ids, c.hasNode id = true) (found : List String) :
    ∃ gone, c.doomed found ids = .ok gone := by
  induction ids generalizing found with
  | nil => exact ⟨found, rfl⟩
  | cons id rest ih =>
    rw [Choreography.doomed, if_pos (hthere id List.mem_cons_self)]
    exact ih (fun a ha => hthere a (List.mem_cons_of_mem _ ha)) _

/-- A container that stays is deserted if every event below it goes. -/
theorem Removes.deserted_iff {D : Set String} (hr : Removes D c d) (ha : c.Apart) :
    d.Deserted ∅ k ↔ k ∉ D ∧ c.Deserted D k := by
  have hbelow : ∀ e ∈ d.events.entries, e.id ∈ d.family k ↔ e.id ∈ c.family k := by
    intro e he
    have hnode := event_mem_nodes.mpr he
    exact ((hr.apart ha).mem_family_iff hnode).trans ((hr.above_iff hnode).trans
      (ha.mem_family_iff ((hr.mem _).mp hnode).1).symm)
  constructor
  · intro ⟨hk, hnone⟩
    have hkD : k ∉ D := fun hkD => by
      rw [contains_iff_form?, hr.form?_of_mem hkD] at hk
      cases hk
    rw [contains_iff_form?, hr.form?_of_not_mem hkD, ← contains_iff_form?] at hk
    refine ⟨hkD, hk, fun e he hfamily => ?_⟩
    by_contra heD
    have he' := event_mem_nodes.mp ((hr.mem _).mpr ⟨event_mem_nodes.mpr he, heD⟩)
    exact hnone e he' ((hbelow e he').mpr hfamily)
  · intro ⟨hkD, hk, hall⟩
    refine ⟨?_, fun e he hfamily => ?_⟩
    · rwa [contains_iff_form?, hr.form?_of_not_mem hkD, ← contains_iff_form?]
    · obtain ⟨hnode, heD⟩ := (hr.mem _).mp (event_mem_nodes.mpr he)
      exact heD (hall e (event_mem_nodes.mp hnode) ((hbelow e he).mp hfamily))

theorem Orderly.cascade (h : c.Orderly ∅ ⟨∅, ∅, A⟩) (hthere : ∀ id ∈ ids, c.hasNode id = true) :
    ∃ d removed, (c.deleteNodes ids).value = (d, .done removed) ∧ c.Cascade ids d removed := by
  obtain ⟨gone, hdoomed⟩ := exists_doomed hthere []
  obtain ⟨hlower, hgone⟩ := lower_nil.doomed h.placed hdoomed
  obtain ⟨b, hb, hr, hprunes, hv⟩ := deleteNodes_ok h hdoomed
  obtain ⟨left, hleft, hanswer⟩ := leaves_settleAll hb.placed.numbered.apart (c.bereaved gone)
  have hunion : b.Orderly ({k | k ∈ c.bereaved gone} ∪ ∅) ⟨∅, ∅, A⟩ :=
    hb.mono Set.subset_union_left subset_rfl subset_rfl subset_rfl
  have hwithin : {a | a ∈ gone} = c.within ids := Set.ext fun a =>
    (hgone a).trans (or_iff_right List.not_mem_nil)
  rw [hwithin] at hr
  have hdeserted : ∀ a, a ∈ left.map Container.id ↔
      a ∉ c.within ids ∧ c.Deserted (c.within ids) a := fun a =>
    (hleft.deserted_iff hb.placed.numbered.apart hunion.settleAll.placed).trans
      (hr.deserted_iff h.placed.numbered.apart)
  refine ⟨_, _, hv, ?_, fun a => ?_, hprunes.trans hunion.prunes_settleAll⟩
  · rw [hanswer, List.nodup_append]
    refine ⟨hlower.nodup, hleft.once, fun a ha b hb he => ?_⟩
    exact ((hdeserted b).mp hb).1 (hwithin ▸ he ▸ ha)
  · rw [List.mem_append, hanswer, hdeserted, ← hwithin]
    exact ⟨Or.imp_right And.right, fun ha => or_iff_not_imp_left.mpr fun hout =>
      ⟨hout, ha.resolve_left hout⟩⟩

theorem counters_deleteNodes (c : Choreography τ) (ids : List String) :
    (c.deleteNodes ids).value.1.ids.counters = c.ids.counters := by
  have hkept := (kept_counters (τ := τ) (· = c.ids.counters)).deleteNodesAloud rfl ids
  rwa [value_deleteNodesAloud] at hkept

/-- What a deletion leaves depends on which nodes are listed, and on nothing else. -/
theorem Orderly.deleteNodes_congr (h : c.Orderly ∅ ⟨∅, ∅, A⟩)
    (hthere : ∀ id ∈ ids, c.hasNode id = true) (hsame : ∀ id, id ∈ more ↔ id ∈ ids) :
    (c.deleteNodes more).value.1 = (c.deleteNodes ids).value.1 := by
  have hmore : ∀ id ∈ more, c.hasNode id = true := fun id hid => hthere id ((hsame id).mp hid)
  obtain ⟨d, removed, hd, hcascade⟩ := h.cascade hthere
  obtain ⟨e, removed', he, hcascade'⟩ := h.cascade hmore
  have hwithin : c.within more = c.within ids :=
    Set.ext fun a => exists_congr fun id => and_congr_left fun _ => hsame id
  have hprune : c.prune removed' = c.prune removed := prune_congr fun a => by
    rw [hcascade.mem, hcascade'.mem, hwithin]
  have hleft : e = { d with ids := e.ids } := by
    rw [hcascade.left, ← hprune]
    exact hcascade'.left
  have hnumbered := (h.deleteNodes ids).placed.numbered
  have hnumbered' := (h.deleteNodes more).placed.numbered
  have hcounters := (counters_deleteNodes c more).trans (counters_deleteNodes c ids).symm
  rw [hd] at hnumbered hcounters ⊢
  rw [he] at hnumbered' hcounters ⊢
  have hids : e.ids = d.ids := hnumbered'.ids_eq hnumbered (fun a => by rw [hleft]; rfl) hcounters
  show e = d
  rw [hleft, hids]

/-! ## Moves -/

/-- What the move of a node leaves: the node in its new place and all others where they were, but
for the containers that no event is below any more. -/
structure Relocation (c : Choreography τ) (id : String) (p : Option String) (d : Choreography τ) :
    Prop where
  arrived : ∃ n ∈ d.nodes, n.id = id ∧ n.parent = p
  nodes : ∀ m, m ∈ d.nodes ↔ (∃ n ∈ c.nodes, m = if n.id = id then n.withParent p else n) ∧
    ¬ (c.setParent id p).Deserted ∅ m.id

/-- A node that moves takes along what is below it. -/
theorem Placed.not_deserted_setParent (h : c.Placed ∅) : ¬ (c.setParent id p).Deserted ∅ id := by
  have ha := h.numbered.apart
  intro ⟨hk, hnone⟩
  rw [contains_iff_form?, form?_setParent ha, ← contains_iff_form?] at hk
  obtain ⟨x, hx, rfl⟩ := Store.contains_iff.mp hk
  refine h.not_deserted _ ⟨hk, fun e he hbelow => ?_⟩
  have hnode := event_mem_nodes.mpr he
  have hnode' : .event e ∈ (c.setParent x.id p).nodes :=
    (mem_nodes_setParent ha).mpr ⟨_, hnode, (if_neg (ha e he x hx)).symm⟩
  refine hnone e (event_mem_nodes.mp hnode') ((ha.setParent.mem_family_iff hnode').mpr ?_)
  exact ((ha.mem_family_iff hnode).mp hbelow).of_eq_of_ne fun _ => up_setParent_of_ne ha

theorem Orderly.relocation (h : c.Orderly ∅ ⟨∅, L, A⟩)
    (hv : (c.reparent id p).value = (d, .done ())) : c.Relocation id p d := by
  have ha := h.placed.numbered.apart
  have hd := h.reparent id p
  rw [hv] at hd
  by_cases hid : c.hasNode id = true
  · obtain ⟨n, hn, rfl⟩ := hasNode_iff.mp hid
    rcases reparent_cases (p := p) ha hn with ⟨-, he⟩ | ⟨hp, -⟩
    · rw [hv] at he
      cases he
    · obtain ⟨gone, hgone⟩ := leaves_reparent ha hn hp
      rw [hv] at hgone
      have hnodes : ∀ m, m ∈ d.nodes ↔
          (∃ l ∈ c.nodes, m = if l.id = n.id then l.withParent p else l) ∧
            ¬ (c.setParent n.id p).Deserted ∅ m.id := fun m =>
        (hgone.drops.1.mem m).trans (and_congr (mem_nodes_setParent ha)
          (not_congr (hgone.deserted_iff ha.setParent hd.placed)))
      refine ⟨⟨n.withParent p, (hnodes _).mpr ⟨⟨n, hn, (if_pos rfl).symm⟩, ?_⟩, by simp⟩, hnodes⟩
      rw [Node.id_withParent]
      exact h.placed.not_deserted_setParent
  · rw [reparent_missing hid] at hv
    cases hv

/-! ## Both -/

/-- Deletions and moves take away what they name with what is below it, and the containers that no
event is below any more, and change nothing else but the place of a node that moves. -/
structure Cascading (c : Choreography τ) : Prop where
  deletion : ∀ ids, (∀ id ∈ ids, c.hasNode id = true) → ∃ d removed,
    ((Edit.deleteNodes ids).perform c).value = (d, .done (.ids removed)) ∧
      c.Cascade ids d removed ∧ ∀ more, (∀ id, id ∈ more ↔ id ∈ ids) →
        ((Edit.deleteNodes more).perform c).value.1 = d
  move : ∀ id p d, ((Edit.moveNode id p).perform c).value = (d, .done .done) → c.Relocation id p d

theorem Orderly.cascading (h : c.Orderly ∅ ⟨∅, ∅, A⟩) : c.Cascading := by
  refine ⟨fun ids hthere => ?_, fun id p d hd => ?_⟩
  · obtain ⟨d, removed, hd, hcascade⟩ := h.cascade hthere
    refine ⟨d, removed, ?_, hcascade, fun more hsame => ?_⟩
    · rw [Edit.perform, value_deleteNodesAloud, hd]
      rfl
    · rw [Edit.perform, value_deleteNodesAloud]
      exact (h.deleteNodes_congr hthere hsame).trans (congrArg Prod.fst hd)
  · obtain ⟨hfst, hsnd⟩ := Prod.mk.inj hd
    obtain ⟨u, hdone, -⟩ := Verdict.map_eq_done.mp hsnd
    exact h.relocation (Prod.ext hfst hdone)

end Choreography

namespace Editor

/-- After a session in which no creation of a container stops midway, deletions and moves take away
exactly what they should. -/
theorem cascades_after [DecidableEq τ] {e : Editor τ} (h : e.Opening) {calls : List (Call τ)}
    (hs : e.smooth calls = true) : (e.after calls).choreography.Cascading :=
  (orderly_after_smooth h hs).cascading

/-- A session that puts a nest around one event of the sample, a subprocess around the nest and
another event, and a choice around that and the third event. -/
def layers : List (Call String) :=
  [.edit (.createContainer { form := .nest .group, children := ["e0"] }),
    .edit (.createContainer { form := .subprocess, children := ["n0", "e1"] }),
    .edit (.createContainer { form := .nest .choice, children := ["s0", "e2"] })]

theorem cascades_after_nesting :
    Opening { choreography := (Sample.choreography : Choreography String) } ∧
    smooth { choreography := (Sample.choreography : Choreography String) } layers = true ∧
    (after { choreography := (Sample.choreography : Choreography String) }
      layers).choreography.Cascading := by
  have hsmooth : smooth { choreography := (Sample.choreography : Choreography String) } layers =
      true := by decide +kernel
  exact ⟨.inr rfl, hsmooth, cascades_after (.inr rfl) hsmooth⟩

end Editor

end Dcr
