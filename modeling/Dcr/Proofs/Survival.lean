import Dcr.Proofs.Sessions

/-! Relations over time. The store of relations is consistent after every session, and a relation
that was not made for a choice outlives every edit but the ones that are about it or take an end of
it away. A choice that adopts it changes nothing but what it belongs to, and gives it back as soon
as its ends are rivals no more. -/

namespace Dcr

open FreeText (ofText)

variable {τ : Type} [FreeText τ]

/-- The ids of the relations that an edit is about. -/
def Edit.revised : Edit τ → Set String
  | .updateRelation id _ _ => {id}
  | .deleteRelation id => {id}
  | _ => ∅

namespace Choreography

variable {c d : Choreography τ} {n : Node τ} {x : Container τ} {E L A R : Set String} {D : Debt}
  {k id : String} {p : Option String} {r s : Relation τ}

/-! ## The store -/

/-- What the store of relations keeps: every relation stands under its own id, which is made of its
ends, its type and whether it was generated; its ends are there; no two relations have ends and type
in common; a spawn leads to a subprocess and has no guard, and what was generated is an exclusion. -/
structure Consistent (c : Choreography τ) : Prop where
  stored : ∀ r ∈ c.relations.entries, c.relations.get? r.id = some r
  canonical : ∀ r ∈ c.relations.entries, r.id = Relation.idFor r.source r.target r.type r.generated
  source : ∀ r ∈ c.relations.entries, c.hasNode r.source = true
  target : ∀ r ∈ c.relations.entries, c.hasNode r.target = true
  single : ∀ r ∈ c.relations.entries, ∀ s ∈ c.relations.entries, r.source = s.source →
    r.target = s.target → r.type = s.type → r = s
  landing : ∀ r ∈ c.relations.entries, r.type = .spawn →
    ∃ x, c.containers.get? r.target = some x ∧ x.kind = .subprocess
  unguarded : ∀ r ∈ c.relations.entries, r.type = .spawn → r.guard = ofText ""
  generated : ∀ r ∈ c.relations.entries, r.generated = true → r.type = .exclusion

theorem Orderly.consistent (h : c.Orderly E D) (hA : D.astray = ∅) : c.Consistent where
  stored r hr := Store.get?_eq_some_iff.mpr ⟨hr, rfl⟩
  canonical := h.owned.linked.canonical
  source r hr := (h.owned.linked.ends r hr).1
  target r hr := (h.owned.linked.ends r hr).2
  single r hr s hs h1 h2 := h.owned.linked.single r hr s hs (Prod.ext h1 h2)
  landing r hr ht := by
    obtain ⟨x, hx, hform⟩ :=
      Option.map_eq_some_iff.mp (h.owned.landing r hr ht (hA ▸ Set.notMem_empty _))
    exact ⟨x, hx, congrArg ContainerForm.kind hform⟩
  unguarded := h.owned.unguarded
  generated := h.owned.linked.generated

/-! ## Steps that take nodes away at most -/

/-- A relation that was not generated stays as long as its ends do, unless it has one of some ids.
What it belongs to then is left open. -/
def Spares (X : Set String) (c d : Choreography τ) : Prop :=
  ∀ r ∈ c.relations.entries, r.generated = false → r.id ∉ X → d.hasNode r.source = true →
    d.hasNode r.target = true → ∃ s ∈ d.relations.entries, Alike s r

theorem spares_of_relations (X : Set String) (h : d.relations = c.relations) : Spares X c d :=
  fun r hr _ _ _ _ => ⟨r, by rwa [h], rfl⟩

/-- A step without new nodes that spares the relations. -/
structure Keeps (c d : Choreography τ) : Prop where
  nodes : ∀ id, d.hasNode id = true → c.hasNode id = true
  spares : Spares ∅ c d

theorem Keeps.refl (c : Choreography τ) : c.Keeps c := ⟨fun _ h => h, spares_of_relations ∅ rfl⟩

theorem Keeps.trans {e : Choreography τ} (hcd : c.Keeps d) (hde : d.Keeps e) : c.Keeps e := by
  refine ⟨fun id h => hcd.nodes id (hde.nodes id h), fun r hr hg hX hsrc htgt => ?_⟩
  obtain ⟨s, hs, hsr⟩ := hcd.spares r hr hg hX (hde.nodes _ hsrc) (hde.nodes _ htgt)
  obtain ⟨hsource, htarget⟩ := Prod.mk.inj hsr.pair
  obtain ⟨t, ht, hts⟩ := hde.spares s hs (hsr.generated.trans hg) (Set.notMem_empty _)
    (hsource ▸ hsrc) (htarget ▸ htgt)
  exact ⟨t, ht, hts.trans hsr⟩

/-- The upkeep of a container lets go of generated relations only. -/
theorem tend_of_not_generated (k : String) (wanted : List (String × String))
    (hg : r.generated = false) : ∃ s, tend k wanted r = some s := by
  unfold tend
  split
  · exact ⟨_, rfl⟩
  · rw [hg]
    split <;> exact ⟨_, rfl⟩

theorem Orderly.keeps_tended (h : c.Orderly E D) (k : String) : c.Keeps (c.tended k) := by
  refine ⟨fun id h => h, fun r hr hg _ _ _ => ?_⟩
  obtain ⟨s, hs⟩ := tend_of_not_generated k (orderedPairs (c.rivals k)) hg
  exact ⟨s, (h.owned.mem_upkeep h.placed).mpr (.inl ⟨r, hr, hs⟩), alike_of_tend hs⟩

theorem Orderly.keeps_tendedIn (h : c.Orderly E D) (p : Option String) :
    c.Keeps (c.tendedIn p) := by
  cases p with
  | none => exact .refl c
  | some k => exact h.keeps_tended k

theorem Apart.keeps_setParent (h : c.Apart) (id : String) (p : Option String) :
    c.Keeps (c.setParent id p) := by
  have hrel : (c.setParent id p).relations = c.relations := by unfold Choreography.setParent; split <;> rfl
  refine ⟨fun j hj => ?_, spares_of_relations ∅ hrel⟩
  rwa [hasNode_setParent h] at hj

/-- Where nodes go with the relations at them and nothing else, the rest stays. -/
theorem Removes.keeps (hr : Removes R c d)
    (hd : ∀ r ∈ c.relations.entries, r.source ∉ R → r.target ∉ R → r ∈ d.relations.entries) :
    c.Keeps d := by
  refine ⟨fun id hid => (hr.hasNode_iff.mp hid).1, fun r hmem _ _ hsrc htgt => ⟨r, ?_, rfl⟩⟩
  exact hd r hmem (hr.hasNode_iff.mp hsrc).2 (hr.hasNode_iff.mp htgt).2

theorem keeps_dropContainer (h : c.Placed E) (hx : c.containers.get? id = some x)
    (hc : c.children id = []) : c.Keeps (c.dropContainer x) := by
  refine (removes_dropContainer h.numbered.apart hx hc).keeps fun r hr hsrc htgt => ?_
  obtain ⟨_, rfl⟩ := get?_container_iff.mp hx
  have htouch : ¬ r.touches x.id = true := by
    rw [Relation.touches_iff, not_or]
    exact ⟨hsrc, htgt⟩
  simp only [dropContainer, Store.entries_filter, List.mem_filter]
  exact ⟨hr, by simpa using htouch⟩

theorem Orderly.keeps_settle (h : c.Orderly (insert id E) ⟨{id}, L, A⟩) :
    c.Keeps (c.settle id).value.1 := by
  refine settle_rule (P := fun id d => d.Orderly (insert id E) ⟨{id}, L, A⟩ ∧ c.Keeps d)
    (Q := fun d => c.Keeps d) ?_ ?_ ?_ ?_ ⟨h, .refl c⟩
  · exact fun _ _ h _ => h.2
  · exact fun id d h _ => h.2.trans (h.1.keeps_tended id)
  · exact fun _ d x h hx hc _ => h.2.trans (keeps_dropContainer h.1.placed hx hc)
  · exact fun _ d x q h hx hc hq =>
      ⟨h.1.drop_next hx hc hq, h.2.trans (keeps_dropContainer h.1.placed hx hc)⟩

theorem Orderly.keeps_settleAll {ids : List String}
    (h : c.Orderly ({k | k ∈ ids} ∪ E) ⟨∅, L, A⟩) : c.Keeps (c.settleAll ids).value.1 := by
  induction ids generalizing c with
  | nil => exact .refl c
  | cons id rest ih =>
    have hid : c.Orderly (insert id ({k | k ∈ rest} ∪ E)) ⟨{id}, L, A⟩ := by
      refine h.mono ?_ (by simp) subset_rfl subset_rfl
      intro k hor
      rcases hor with hk | hk
      · rcases List.mem_cons.mp hk with rfl | hk
        · exact .inl rfl
        · exact .inr (.inl hk)
      · exact .inr (.inr hk)
    exact hid.keeps_settle.trans (ih hid.settle)

theorem Orderly.keeps_moved (h : c.Orderly E ⟨∅, L, A⟩) (hn : n ∈ c.nodes)
    (hp : c.parentRejection? n.id p = none) : c.Keeps (c.moved n p) := by
  refine (h.placed.numbered.apart.keeps_setParent n.id p).trans ?_
  unfold Choreography.moved
  cases hold : n.parent with
  | none => exact (h.displaced_top hn hp hold).keeps_tendedIn p
  | some old =>
    have hd := h.displaced hn hp hold
    exact hd.keeps_settle.trans (hd.settle.keeps_tendedIn p)

theorem Orderly.keeps_reparent (h : c.Orderly E ⟨∅, L, A⟩) (id : String) (p : Option String) :
    c.Keeps (c.reparent id p).value.1 := by
  by_cases hid : c.hasNode id = true
  · obtain ⟨n, hn, rfl⟩ := hasNode_iff.mp hid
    rcases reparent_cases (p := p) h.placed.numbered.apart hn with ⟨_, he⟩ | ⟨hp, he⟩
    · rw [he]
      exact .refl c
    · rw [he]
      show c.Keeps (if n.parent = p then c else c.moved n p)
      split
      · exact .refl c
      · exact h.keeps_moved hn hp
  · rw [reparent_missing hid]
    exact .refl c

theorem Orderly.keeps_adopt (h : c.Orderly E ⟨∅, L, A⟩) (k : String) (ids : List String) :
    c.Keeps (c.adopt k ids).value.1 := by
  induction ids generalizing c with
  | nil => exact .refl c
  | cons id rest ih =>
    have hstep := h.keeps_reparent id (some k)
    have hd := h.reparent id (some k)
    simp only [Choreography.adopt, Logged.value_bind]
    split
    · exact hstep
    · exact hstep.trans (ih hd)

theorem Orderly.keeps_deleteNodes (h : c.Orderly ∅ ⟨∅, L, A⟩) (ids : List String) :
    c.Keeps (Edit.deleteNodesAloud c ids).value.1 := by
  rw [value_deleteNodesAloud]
  cases hd : c.doomed [] ids with
  | error id =>
    rw [Choreography.deleteNodes, hd]
    exact .refl c
  | ok gone =>
    obtain ⟨d, hord, hr, hprunes, hv⟩ := deleteNodes_ok h hd
    rw [hv]
    refine (hr.keeps fun r hmem hsrc htgt => ?_).trans (Orderly.keeps_settleAll (E := ∅)
      (hord.mono (by simp) subset_rfl subset_rfl subset_rfl))
    rw [hprunes.relations]
    exact List.mem_filter.mpr ⟨hmem, by simpa using ⟨hsrc, htgt⟩⟩

/-- A nest that becomes a group or a choice keeps what there is. -/
theorem Orderly.keeps_retype (h : c.Orderly ∅ ⟨∅, L, ∅⟩) (hx : x ∈ c.containers.entries)
    (hk : x.kind = .nest) (type : Option NestType) :
    c.Keeps (c.changeContainerType x .nest type).value.1 := by
  unfold Choreography.changeContainerType
  rw [if_pos hk]
  split
  · next _ type _ =>
    split
    · exact .refl c
    · have hkeeps : c.Keeps (c.reformed x.id (.nest type)) :=
        ⟨fun id hid => (hasNode_reformed x.id id).mp hid, spares_of_relations ∅ rfl⟩
      exact hkeeps.trans ((h.reformed hx hk type).keeps_tended x.id)
  · exact .refl c

/-! ## Edits -/

theorem Orderly.spares_createEvent (h : c.Orderly E ⟨∅, L, A⟩) (e : NewEvent τ) :
    Spares ∅ c (c.createEvent e).value.1 := by
  unfold Choreography.createEvent
  split
  · exact (Keeps.refl c).spares
  · split
    · exact (Keeps.refl c).spares
    · next hparent =>
      simp only [Logged.value_bind, value_addEvent]
      -- the event is added without a change of relations
      exact ((h.withEvent (contains_of_unfiltered hparent)).keeps_tendedIn e.parent).spares

theorem Orderly.spares_wrap (h : c.Orderly ∅ ⟨∅, L, A⟩) {w : NewContainer τ}
    (hp : ∀ q, w.parent = some q → c.containers.contains q = true) :
    Spares ∅ c (c.wrap w).value.1 := by
  have hwith := h.withContainer hp
  have hfull : Orderly _ _
      ((c.withContainer w).adopt (c.ids.allocate w.kind.node).1 w.wrapped).value.1 := hwith.adopt
  have hkeeps := hwith.keeps_adopt (c.ids.allocate w.kind.node).1 w.wrapped
  rcases wrap_cases c w with ⟨o, -, he⟩ | ⟨-, he⟩
  · rw [he]
    exact hkeeps.spares
  · have htended := hfull.tended (k := (c.ids.allocate w.kind.node).1) (by simp)
    rw [he]
    exact ((hkeeps.trans (hfull.keeps_tended _)).trans (htended.keeps_tendedIn w.parent)).spares

theorem Orderly.spares_createContainer (h : c.Orderly ∅ ⟨∅, L, A⟩) (w : NewContainer τ) :
    Spares ∅ c (c.createContainer w).value.1 := by
  unfold Choreography.createContainer
  split
  · exact (Keeps.refl c).spares
  · split
    · exact (Keeps.refl c).spares
    · split
      · exact (Keeps.refl c).spares
      · next hw => exact h.spares_wrap (contains_of_wrapRejection? hw)

/-- A store without one relation, and with another one that has an id to itself. -/
theorem spares_insert (hs : ∀ q ∈ (c.relations.erase id).entries, q.id ≠ s.id) :
    Spares {id} c { c with relations := (c.relations.erase id).insert s } := by
  intro r hr _ hX _ _
  refine ⟨r, ?_, rfl⟩
  show r ∈ ((c.relations.erase id).insert s).entries
  rw [Store.entries_insert_of_ne hs]
  exact List.mem_append_left _ (Store.mem_erase.mpr ⟨hr, hX⟩)

theorem Orderly.spares_createRelation (h : c.Orderly E D) {a b : String} (ha : c.hasNode a = true)
    (hb : c.hasNode b = true) (t : RelationType) (guard : τ) :
    Spares ∅ c (c.createRelation a b t guard).value.1 := by
  unfold Choreography.createRelation
  split
  · exact (Keeps.refl c).spares
  · next hr =>
    intro q hq _ _ _ _
    refine ⟨q, ?_, rfl⟩
    have hfresh := (admissible_newRelation ha hb hr guard).linkable.fresh h.owned.linked
      h.placed.numbered.dashless
    show q ∈ (c.relations.insert (newRelation a b t guard)).entries
    rw [Store.entries_insert_of_ne hfresh]
    exact List.mem_append_left _ hq

theorem Orderly.spares_updateRelation (h : c.Orderly E D) (hr : r ∈ c.relations.entries)
    (type : Option RelationType) (guard : Option τ) :
    Spares {r.id} c (c.updateRelation r type guard).value.1 := by
  unfold Choreography.updateRelation
  split
  · exact spares_of_relations _ rfl
  · next hs =>
    have hscope : r.scope = none := by simpa using hs
    generalize type.getD r.type = t
    by_cases ht : t = r.type
    · subst ht
      simp only [if_true, updated]
      intro q hq _ hX _ _
      have hmem : q ∈ (c.relations.modify r.id fun r => reguard r guard).entries :=
        Store.mem_modify.mpr ⟨q, hq, (if_neg hX).symm⟩
      exact ⟨q, hmem, rfl⟩
    · simp only [ht, if_false]
      split
      · exact spares_of_relations _ rfl
      · next hrej =>
        have hd := h.discard hr hscope
        simp only [updated, ht, if_false]
        exact spares_insert
          ((h.admissible_retype hr hscope hrej guard).linkable.fresh hd.owned.linked
            hd.placed.numbered.dashless)

theorem spares_deleteRelation (r : Relation τ) : Spares {r.id} c (c.deleteRelation r).value.1 := by
  unfold Choreography.deleteRelation
  split
  · exact spares_of_relations _ rfl
  · exact fun q hq _ hX _ _ => ⟨q, Store.mem_erase.mpr ⟨hq, hX⟩, rfl⟩

/-- Every edit but a conversion spares the relations that it is not about. -/
theorem Orderly.spares_perform (h : c.Orderly ∅ ⟨∅, L, ∅⟩) {edit : Edit τ}
    (hthere : edit.absent? c = none) (hmakes : ∀ id kind type x,
      edit = .changeContainerType id kind type → c.containers.get? id = some x → x.kind = kind) :
    Spares edit.revised c (edit.perform c).value.1 := by
  by_cases haside : edit.isAside = true
  · obtain ⟨_, _, _, he⟩ := perform_aside (c := c) haside
    exact spares_of_relations _ (by rw [he])
  cases edit with
  | createEvent e => exact h.spares_createEvent e
  | updateEvent id content =>
    refine spares_of_relations _ ?_
    simp only [Edit.perform, Edit.answer, Choreography.updateEvent]
    split <;> rfl
  | deleteEvent id => exact (h.keeps_deleteNodes [id]).spares
  | createContainer w => exact h.spares_createContainer w
  | updateContainer id label marking =>
    refine withFound_rule (P := Spares ∅ c) (spares_of_relations _ rfl) fun x _ =>
      spares_of_relations _ ?_
    cases label <;> cases marking <;> rfl
  | changeContainerType id kind type =>
    refine withFound_rule (P := Spares ∅ c) (spares_of_relations _ rfl) fun x hx => ?_
    have hk := hmakes id kind type x rfl hx
    cases kind with
    | nest => exact (h.keeps_retype (Store.get?_eq_some_iff.mp hx).1 hk type).spares
    | subprocess =>
      refine spares_of_relations _ ?_
      simp only [Logged.value_bind, Choreography.changeContainerType, if_pos hk, Logged.value_pure]
  | moveNode id parent => exact (h.keeps_reparent id parent).spares
  | deleteNodes ids => exact (h.keeps_deleteNodes ids).spares
  | createRelation source target type guard =>
    have hends := hasNode_of_absentNode? hthere
    exact h.spares_createRelation (hends source (by simp)) (hends target (by simp)) type guard
  | updateRelation id type guard =>
    refine withFound_rule (P := Spares {id} c) (spares_of_relations _ rfl) fun r hr => ?_
    obtain ⟨hmem, rfl⟩ := Store.get?_eq_some_iff.mp hr
    exact h.spares_updateRelation hmem type guard
  | deleteRelation id =>
    refine withFound_rule (P := Spares {id} c) (spares_of_relations _ rfl) fun r hr => ?_
    obtain ⟨hmem, rfl⟩ := Store.get?_eq_some_iff.mp hr
    exact spares_deleteRelation r
  | _ => exact absurd rfl haside

/-! ## Conversions -/

/-- A relation as it is found again: with the same type and guard between the same nodes, which may
have got other ids. Its id goes with its ends, and is the same if they are. -/
structure Follows (f : String → String) (r s : Relation τ) : Prop where
  source : s.source = f r.source
  target : s.target = f r.target
  type : s.type = r.type
  guard : s.guard = r.guard
  generated : s.generated = r.generated
  id : s.id = Relation.idFor (f r.source) (f r.target) r.type r.generated
  same : f r.source = r.source → f r.target = r.target → s.id = r.id

/-- What a container may have taken hold of or let go of is the same relation. -/
theorem follows_of_alike (hl : c.Linked) (hr : r ∈ c.relations.entries) (h : Alike s r) :
    Follows (fun id => id) r s := by
  obtain ⟨hsource, htarget⟩ := Prod.mk.inj h.pair
  exact ⟨hsource, htarget, h.type, h.guard, h.generated, h.id.trans (hl.canonical r hr),
    fun _ _ => h.id⟩

/-- What a container may have taken hold of or let go of after a renaming is the relation renamed. -/
theorem follows_rename {old new : String} (hl : c.Linked) (hr : r ∈ c.relations.entries)
    (h : Alike s (r.rename old new)) : Follows (renameId old new) r s := by
  obtain ⟨hsource, htarget⟩ := Prod.mk.inj h.pair
  have hid := h.id.trans (hl.id_rename hr)
  refine ⟨hsource, htarget, h.type, h.guard, h.generated, hid, fun h1 h2 => ?_⟩
  rw [hid, h1, h2, hl.canonical r hr]

/-- A conversion loses no relation that was not generated, but the spawns to what is a nest then. -/
theorem Orderly.follows_convert (h : c.Orderly ∅ ⟨∅, L, ∅⟩) (hx : x ∈ c.containers.entries)
    {form : ContainerForm} (hk : form.kind ≠ x.kind) (hr : r ∈ c.relations.entries)
    (hg : r.generated = false)
    (hspawn : form.kind = .nest → ¬ (r.target = x.id ∧ r.type = .spawn)) :
    ∃ s ∈ (c.convert x form).value.1.relations.entries,
      Follows (renameId x.id (c.ids.allocate form.kind.node).1) r s := by
  obtain ⟨m, hm, hf, _⟩ := h.placed.numbered.allocate form.kind.node
  generalize hnew : (c.ids.allocate form.kind.node).1 = new at hm ⊢
  have hf : ¬ c.hasNode new = true := hm ▸ hf
  have hren := renames_converted h.placed.numbered.apart hx hnew hf
  have hmem : r.rename x.id new ∈ (c.converted x form).relations.entries :=
    (mem_relations_converted h.placed.numbered.dashless h.owned.linked hnew hf
      (hm ▸ NodeKind.not_dash_mem_ident _ _)).mpr ⟨r, hr, rfl⟩
  have hends := h.owned.linked.ends r hr
  obtain ⟨s, hs, hsr⟩ := ((h.renamed hx hk hnew).keeps_tended new).spares _ hmem hg
    (Set.notMem_empty _) (hren.hasNode_iff.mpr ⟨_, hends.1, rfl⟩)
    (hren.hasNode_iff.mpr ⟨_, hends.2, rfl⟩)
  have hfollows := follows_rename h.owned.linked hr hsr
  refine ⟨s, ?_, hfollows⟩
  rw [value_convert, hnew]
  split
  · next hnest =>
    refine mem_dropSpawns.mpr ⟨hs, fun hgone => hspawn hnest ⟨?_, hfollows.type ▸ hgone.2⟩⟩
    by_contra hne
    have htarget := hfollows.target.symm.trans hgone.1
    rw [renameId_of_ne hne] at htarget
    exact hf (htarget ▸ hends.2)
  · exact hs

end Choreography

/-! ## Sessions -/

namespace Editor

open Choreography (Orderly Follows plain)

variable {e : Editor τ}

/-- The ids of the relations that a call is an edit of. -/
def Call.revised : Call τ → Set String
  | .edit asked => asked.revised
  | _ => ∅

/-- The id that a node has after a call: a conversion that is carried out renames its container. -/
def nameAfter (e : Editor τ) : Call τ → String → String
  | .edit (.changeContainerType id kind type) =>
    match (e.edit (.changeContainerType id kind type)).value.2 with
    | .done (.name new) => renameId id new
    | _ => fun a => a
  | _ => fun a => a

/-- Whether a call makes a container a nest. -/
def nests (e : Editor τ) (call : Call τ) (id : String) : Prop :=
  ∃ type answer, call = .edit (.changeContainerType id .nest type) ∧
    (e.edit (.changeContainerType id .nest type)).value.2 = .done answer

/-- Whether a call moves a node or makes a nest a group or a choice, with success or in vain. -/
def rearranges (e : Editor τ) : Call τ → Bool
  | .edit (.moveNode _ _) => true
  | .edit (.changeContainerType id .nest _) =>
    (e.choreography.containers.get? id).all fun x => x.kind == .nest
  | _ => false

/-- Whether the calls of a session do nothing but move nodes and make nests groups or choices. -/
def rearranging [DecidableEq τ] : Editor τ → List (Call τ) → Bool
  | _, [] => true
  | e, call :: rest => e.rearranges call && rearranging (e.call call).value rest

/-- Relations that were not generated last. A call leaves each of them between the same nodes and
with the same type and guard, unless it is an edit of the relation itself, an end is gone, or the
relation is a spawn whose target is made a nest. Any series of moves and changes between group and
choice leaves each of them as it was and visible, if its ends are there and not rivals in the end. -/
structure Durable [DecidableEq τ] (e : Editor τ) : Prop where
  call : ∀ call, ∀ r ∈ e.choreography.relations.entries, r.generated = false → r.id ∉ call.revised →
    (e.call call).value.choreography.hasNode (e.nameAfter call r.source) = true →
    (e.call call).value.choreography.hasNode (e.nameAfter call r.target) = true →
    ¬ (r.type = .spawn ∧ e.nests call r.target) →
    ∃ s ∈ (e.call call).value.choreography.relations.entries, Follows (e.nameAfter call) r s
  series : ∀ calls, e.rearranging calls = true → ∀ r ∈ e.choreography.relations.entries,
    r.generated = false → (e.after calls).choreography.hasNode r.source = true →
    (e.after calls).choreography.hasNode r.target = true →
    (∀ k, ¬ (e.after calls).choreography.Rivals k r.source r.target) →
    { r with scope := none, hidden := false } ∈ (e.after calls).choreography.relations.entries

/-! ### One call -/

/-- A call that is no edit leaves the relations as they are. -/
theorem relations_call [DecidableEq τ] (call : Call τ) (hcall : ∀ edit, call ≠ .edit edit) :
    (e.call call).value.choreography.relations = e.choreography.relations := by
  refine call_rule (P := fun c => c.relations = e.choreography.relations) rfl call ?_ ?_
  · intro c id content hc _
    rw [← hc]
    simp only [Edit.perform, Edit.answer, Choreography.updateEvent]
    split <;> rfl
  · exact fun edit he _ _ => absurd he (hcall edit)

/-- A container whose kind is given again keeps its id. -/
theorem value_perform_again {c : Choreography τ} {id : String} {x : Container τ}
    (type : Option NestType) (hx : c.containers.get? id = some x) :
    ((Edit.changeContainerType id x.kind type).perform c).value.2 = .done (.name id) := by
  have hid : x.id = id := (Store.get?_eq_some_iff.mp hx).2
  have hsame : (c.changeContainerType x x.kind type).value.2 = id := by
    unfold Choreography.changeContainerType
    rw [if_pos rfl]
    split
    · split <;> exact hid
    · exact hid
  simp only [Edit.perform, Edit.withFound, hx, Logged.value_bind, Logged.value_pure, hsame]

theorem nameAfter_retype (id : String) (kind : ContainerKind) (type : Option NestType) :
    e.nameAfter (.edit (.changeContainerType id kind type)) =
      match (e.edit (.changeContainerType id kind type)).value.2 with
      | .done (.name new) => renameId id new
      | _ => fun a => a := rfl

theorem nameAfter_of_not_done {edit : Edit τ}
    (h : ∀ answer, (e.edit edit).value.2 ≠ .done answer) :
    e.nameAfter (.edit edit) = fun a => a := by
  cases edit with
  | changeContainerType id kind type =>
    rw [nameAfter_retype]
    split
    · next new hv => exact absurd hv (h _)
    · rfl
  | _ => rfl

/-- An edit that is no conversion renames nothing. -/
theorem nameAfter_of_kept {edit : Edit τ} (hmakes : ∀ id kind type x,
    edit = .changeContainerType id kind type → e.choreography.containers.get? id = some x →
      x.kind = kind) : e.nameAfter (.edit edit) = fun a => a := by
  rcases e.edit_cases edit with ⟨_, hnot⟩ | ⟨_, hthere, hperform⟩
  · exact nameAfter_of_not_done hnot
  · cases edit with
    | changeContainerType id kind type =>
      obtain ⟨x, hx⟩ := Choreography.found_of_absentUnless hthere
      obtain rfl := hmakes id kind type x rfl hx
      rw [nameAfter_retype, hperform, value_perform_again type hx]
      funext a
      show renameId id id a = a
      unfold renameId
      split
      · next ha => exact ha.symm
      · rfl
    | _ => rfl

/-- What an edit leaves of a relation that was not generated. -/
theorem follows_edit {L : Set String} (h : Orderly ∅ ⟨∅, L, ∅⟩ e.choreography) (edit : Edit τ)
    {r : Relation τ} (hr : r ∈ e.choreography.relations.entries) (hg : r.generated = false)
    (hrev : r.id ∉ edit.revised)
    (hsrc : (e.edit edit).value.1.choreography.hasNode (e.nameAfter (.edit edit) r.source) = true)
    (htgt : (e.edit edit).value.1.choreography.hasNode (e.nameAfter (.edit edit) r.target) = true)
    (hspawn : ¬ (r.type = .spawn ∧ e.nests (.edit edit) r.target)) :
    ∃ s ∈ (e.edit edit).value.1.choreography.relations.entries,
      Follows (e.nameAfter (.edit edit)) r s := by
  have hl := h.owned.linked
  rcases e.edit_cases edit with ⟨hsame, hnot⟩ | ⟨_, hthere, hperform⟩
  · rw [nameAfter_of_not_done hnot, hsame]
    exact ⟨r, hr, Choreography.follows_of_alike hl hr rfl⟩
  · by_cases hmakes : ∀ id kind type x, edit = .changeContainerType id kind type →
        e.choreography.containers.get? id = some x → x.kind = kind
    · rw [nameAfter_of_kept hmakes, hperform] at hsrc htgt ⊢
      obtain ⟨s, hs, hsr⟩ := h.spares_perform hthere hmakes r hr hg hrev hsrc htgt
      exact ⟨s, hs, Choreography.follows_of_alike hl hr hsr⟩
    · simp only [not_forall] at hmakes
      obtain ⟨id, kind, type, x, rfl, hx, hk⟩ := hmakes
      obtain ⟨hmem, rfl⟩ := Choreography.get?_container_iff.mp hx
      have hmem := Choreography.container_mem_nodes.mp hmem
      have hvalue := Choreography.value_perform_conversion type hx hk
      have hname : e.nameAfter (.edit (.changeContainerType x.id kind type)) = renameId x.id
          (e.choreography.ids.allocate (ContainerForm.ofKind kind type).kind.node).1 := by
        rw [nameAfter_retype, hperform, hvalue, ContainerForm.kind_ofKind]
      rw [hname, hperform]
      show ∃ s ∈ ((Edit.changeContainerType x.id kind type).perform
        e.choreography).value.1.relations.entries, _
      rw [hvalue]
      refine h.follows_convert hmem (by simpa using Ne.symm hk) hr hg fun hnest hgone => ?_
      obtain rfl : kind = .nest := (ContainerForm.kind_ofKind kind type).symm.trans hnest
      have hnests : e.nests (.edit (.changeContainerType x.id .nest type)) x.id :=
        ⟨type, _, rfl, by rw [hperform, hvalue]⟩
      exact hspawn ⟨hgone.2, hgone.1 ▸ hnests⟩

/-- What a call leaves of a relation that was not generated. -/
theorem follows_call [DecidableEq τ] {L : Set String} (h : Orderly ∅ ⟨∅, L, ∅⟩ e.choreography)
    (call : Call τ) {r : Relation τ} (hr : r ∈ e.choreography.relations.entries)
    (hg : r.generated = false) (hrev : r.id ∉ call.revised)
    (hsrc : (e.call call).value.choreography.hasNode (e.nameAfter call r.source) = true)
    (htgt : (e.call call).value.choreography.hasNode (e.nameAfter call r.target) = true)
    (hspawn : ¬ (r.type = .spawn ∧ e.nests call r.target)) :
    ∃ s ∈ (e.call call).value.choreography.relations.entries, Follows (e.nameAfter call) r s := by
  have hquiet : (∀ edit, call ≠ .edit edit) → ∃ s ∈
      (e.call call).value.choreography.relations.entries, Follows (fun a => a) r s := fun hcall =>
    ⟨r, by rwa [relations_call call hcall], Choreography.follows_of_alike h.owned.linked hr rfl⟩
  cases call with
  | edit edit => exact follows_edit h edit hr hg hrev hsrc htgt hspawn
  | start => exact hquiet fun _ h => by cases h
  | stop => exact hquiet fun _ h => by cases h
  | fire id => exact hquiet fun _ h => by cases h
  | generate => exact hquiet fun _ h => by cases h
  | applyRecords records => exact hquiet fun _ h => by cases h

/-! ### Moves and changes between group and choice -/

/-- A call that rearranges adds no node and spares the relations. -/
theorem keeps_call [DecidableEq τ] {L : Set String} (h : Orderly ∅ ⟨∅, L, ∅⟩ e.choreography)
    {call : Call τ} (hcall : e.rearranges call = true) :
    e.choreography.Keeps (e.call call).value.choreography := by
  cases call with
  | edit edit =>
    refine edit_rule (P := e.choreography.Keeps) (.refl _) edit fun _ _ => ?_
    cases edit with
    | moveNode id parent => exact h.keeps_reparent id parent
    | changeContainerType id kind type =>
      refine Choreography.withFound_rule (P := e.choreography.Keeps) (.refl _) fun x hx => ?_
      cases kind with
      | subprocess => cases hcall
      | nest =>
        have hk : x.kind = .nest := by simpa [rearranges, hx] using hcall
        exact h.keeps_retype (Store.get?_eq_some_iff.mp hx).1 hk type
    | _ => cases hcall
  | _ => cases hcall

/-- So does a series of such calls. -/
theorem keeps_after [DecidableEq τ] (h : Orderly ∅ { lacking := Set.univ } e.choreography)
    {calls : List (Call τ)} (hcalls : e.rearranging calls = true) :
    Orderly ∅ { lacking := Set.univ } (e.after calls).choreography ∧
      e.choreography.Keeps (e.after calls).choreography := by
  induction calls generalizing e with
  | nil => exact ⟨h, .refl _⟩
  | cons call rest ih =>
    simp only [rearranging, Bool.and_eq_true] at hcalls
    obtain ⟨hord, hkeeps⟩ := ih (orderly_call h call) hcalls.2
    exact ⟨hord, (keeps_call h hcalls.1).trans hkeeps⟩

theorem durable_of_orderly [DecidableEq τ]
    (h : Orderly ∅ { lacking := Set.univ } e.choreography) : e.Durable where
  call call r hr hg hrev hsrc htgt hspawn := follows_call h call hr hg hrev hsrc htgt hspawn
  series calls hcalls r hr hg hsrc htgt hapart := by
    obtain ⟨hord, hkeeps⟩ := keeps_after h hcalls
    obtain ⟨s, hs, hsr⟩ := hkeeps.spares r hr hg (Set.notMem_empty _) hsrc htgt
    obtain ⟨hsource, htarget⟩ := Prod.mk.inj hsr.pair
    -- a relation that belongs to a container joins two rivals
    have hscope : s.scope = none := by
      by_contra hne
      obtain ⟨k, hk⟩ := Option.ne_none_iff_exists'.mp hne
      refine hapart k ?_
      rw [← hsource, ← htarget]
      exact hord.owned.fit k (Set.notMem_empty _) s hs hk
    have hplain : s = plain r := by
      rw [← hsr, plain, ← hscope, ← (hord.owned.loose s hs hscope).1]
    rw [hplain] at hs
    exact hs

/-- After every session the store of relations is consistent, whatever is asked for and whatever the
calls answer. -/
theorem relations_after [DecidableEq τ] (h : e.Opening) (calls : List (Call τ)) :
    (e.after calls).choreography.Consistent :=
  (orderly_after h calls).consistent rfl

/-- A session that puts a choice around two events of the sample and a subprocess around the third,
spawns the subprocess, makes the choice a subprocess and asks in vain for a spawn of an event. -/
theorem relations_after_spawning :
    Opening { choreography := (Sample.choreography : Choreography String) } ∧
    (after { choreography := (Sample.choreography : Choreography String) }
      [.edit (.createContainer { form := .nest .choice, children := ["e0", "e1"] }),
        .edit (.createContainer { form := .subprocess, children := ["e2"] }),
        .edit (.createRelation "e0" "s0" .spawn "true"),
        .edit (.changeContainerType "n0" .subprocess none),
        .edit (.createRelation "e0" "e1" .spawn "")]).choreography.Consistent :=
  ⟨.inr rfl, relations_after (.inr rfl) _⟩

/-- After every session what was not generated lasts. -/
theorem durable_after [DecidableEq τ] (h : e.Opening) (calls : List (Call τ)) :
    (e.after calls).Durable :=
  durable_of_orderly (orderly_after h calls)

/-- A session that joins two events of the sample by an exclusion and puts a choice around them,
which adopts it. -/
theorem durable_after_adoption :
    Opening { choreography := (Sample.choreography : Choreography String) } ∧
    (after { choreography := (Sample.choreography : Choreography String) }
      [.edit (.createRelation "e0" "e1" .exclusion "late"),
        .edit (.createContainer { form := .nest .choice, children := ["e0", "e1"] })]).Durable :=
  ⟨.inr rfl, durable_after (.inr rfl) _⟩

end Editor

end Dcr
