import Dcr.Proofs.Sessions

/-! Conversion as renaming. A container of the other kind keeps its place, and its new id stands
wherever the old one stood: in the parents of nodes, in the ends and scopes of relations and in the ids
that go with the ends. Beyond that only its exclusions differ, as the new form wants them, and the
spawns that led to it if it is a subprocess no more. So no id of two relations becomes one, what is
below the container stays below it, and the old id is nowhere any more but among those that are free. -/

namespace Dcr

open FreeText (isText)

variable {τ : Type} [FreeText τ]

/-- A container after one has got another id and another form. -/
def Container.turned (old new : String) (form : ContainerForm) (y : Container τ) : Container τ :=
  let parent := y.parent.map (renameId old new)
  if y.id = old then { y with id := new, label := relabel old new y.label, form, parent }
  else { y with parent }

/-- A label that followed the id is the old id no more. -/
theorem isText_relabel {old new : String} {label : τ} (h : new ≠ old) :
    isText (relabel old new label) old = false := by
  unfold relabel
  split
  · rw [FreeText.isText_ofText]
    exact beq_eq_false_iff_ne.mpr h
  · next hne => exact Bool.eq_false_iff.mpr hne

/-- An event after a container has got another id. -/
def Event.turned (old new : String) (e : Event τ) : Event τ :=
  { e with parent := e.parent.map (renameId old new) }

/-- A node after a container has got another id and another form. -/
def Node.turned (old new : String) (form : ContainerForm) : Node τ → Node τ
  | event e => event (e.turned old new)
  | container y => container (y.turned old new form)

namespace Node

variable {old new : String} {form : ContainerForm} {n : Node τ}

theorem parent_turned (old new : String) (form : ContainerForm) (n : Node τ) :
    (n.turned old new form).parent = n.parent.map (renameId old new) := by
  cases n with
  | event e => rfl
  | container y =>
    show (y.turned old new form).parent = _
    unfold Container.turned
    split <;> rfl

theorem id_turned_of_ne (h : n.id ≠ old) : (n.turned old new form).id = n.id := by
  cases n with
  | event e => rfl
  | container y =>
    have hy : y.id ≠ old := h
    show (y.turned old new form).id = _
    rw [Container.turned, if_neg hy]
    rfl

end Node

namespace Choreography

open Upkeep (made)

variable {c d : Choreography τ} {x : Container τ} {form : ContainerForm} {old new k : String}
  {r : Relation τ} {L : Set String}

/-! ## What becomes of relations -/

/-- The pairs between which a container of a form owns exclusions. -/
def contested (c : Choreography τ) (id : String) (form : ContainerForm) : List (String × String) :=
  if form = .nest .choice then orderedPairs (c.children id) else []

/-- What becomes of a relation when a container gets another id and another form. A spawn that leads to
what is a nest now goes; the exclusion of a contested pair belongs to the container; another relation
that belonged to it goes if it was generated and is let go otherwise; and the rest only follows. -/
def outcome (c : Choreography τ) (x : Container τ) (new : String) (form : ContainerForm)
    (r : Relation τ) : Option (Relation τ) :=
  if form.kind = .nest ∧ r.type = .spawn ∧ r.target = x.id then none
  else if r.type = .exclusion ∧ r.pair ∈ c.contested x.id form then
    some (held new (r.rename x.id new))
  else if r.scope = some x.id then
    if r.generated then none else some (plain (r.rename x.id new))
  else some (r.rename x.id new)

/-- What the conversion of a container leaves: what was there, with the new id, the first free one of
its kind, for the old one. The lists keep their order, no ids of relations become one, and the old id
is free and names nothing any more. -/
structure Conversion (c : Choreography τ) (x : Container τ) (form : ContainerForm) (new : String)
    (d : Choreography τ) : Prop where
  fresh : ¬ c.hasNode new = true
  first : ∃ n, new = form.kind.node.ident n ∧
    ∀ m, c.ids.Free (form.kind.node.ident m) → n ≤ m
  containers : d.containers.entries =
    c.containers.entries.map fun y => y.turned x.id new form
  events : d.events.entries = c.events.entries.map fun e => e.turned x.id new
  relations : d.relations.entries = c.relations.entries.filterMap (c.outcome x new form) ++
    ((c.contested x.id form).filter fun p =>
      !c.relations.entries.any fun r => r.joins p.1 p.2 .exclusion).map (made new)
  distinct : (c.relations.entries.map fun r => (r.rename x.id new).id).Nodup
  canonical : ∀ s ∈ d.relations.entries, s.id = Relation.idFor s.source s.target s.type s.generated
  others : d.roles = c.roles ∧ d.security = c.security ∧ d.documentation = c.documentation
  nodesGone : ∀ n ∈ d.nodes, n.id ≠ x.id ∧ n.parent ≠ some x.id
  relationsGone : ∀ s ∈ d.relations.entries,
    s.source ≠ x.id ∧ s.target ≠ x.id ∧ s.scope ≠ some x.id
  labelGone : ∀ y ∈ d.containers.entries, y.id = new → isText y.label x.id = false
  children : d.children new = c.children x.id
  family : d.family new = c.family x.id
  free : ∀ id, d.ids.Free id ↔ (c.ids.Free id ∧ id ≠ new) ∨ id = x.id
  eventIds : d.ids.event = c.ids.event

/-- The children between which a container owns exclusions depend on its form. -/
theorem rivals_of_form? (h : c.form? k = some form) :
    c.rivals k = if form = .nest .choice then c.children k else [] := by
  obtain ⟨y, hy, rfl⟩ := Option.map_eq_some_iff.mp h
  rw [rivals, hy]
  simp only [Container.isChoice, beq_iff_eq]

/-! ## Nodes -/

theorem rename_reform_eq (old new : String) (form : ContainerForm) (y : Container τ) :
    (reform old form y).rename old new = y.turned old new form := by
  by_cases hy : y.id = old <;> simp [reform, Container.rename, Container.turned, hy]

theorem containers_converted (hnew : (c.ids.allocate form.kind.node).1 = new)
    (hf : ¬ c.hasNode new = true) : (c.converted x form).containers.entries =
      c.containers.entries.map fun y => y.turned x.id new form := by
  subst hnew
  rw [entries_converted x hf, List.map_map]
  exact List.map_congr_left fun y _ => rename_reform_eq _ _ _ y

theorem nodes_converted (hnew : (c.ids.allocate form.kind.node).1 = new)
    (hf : ¬ c.hasNode new = true) :
    (c.converted x form).nodes = c.nodes.map fun n => n.turned x.id new form := by
  have hevents : (c.converted x form).events.entries =
      c.events.entries.map fun e => e.turned x.id new := by
    subst hnew
    rfl
  rw [nodes, nodes, containers_converted hnew hf, hevents, List.map_append, List.map_map,
    List.map_map, List.map_map, List.map_map]
  rfl

/-! ## Below the container -/

/-- What one test finds among the nodes as they were and another one among the nodes as they are,
apart from the container itself, has the same ids. -/
theorem ids_converted (hnew : (c.ids.allocate form.kind.node).1 = new)
    (hf : ¬ c.hasNode new = true) {P Q : Node τ → Bool}
    (htest : ∀ n ∈ c.nodes, Q (n.turned x.id new form) = P n)
    (hout : ∀ n ∈ c.nodes, P n = true → n.id ≠ x.id) :
    ((c.converted x form).nodes.filter Q).map Node.id = (c.nodes.filter P).map Node.id := by
  have hfilter : (c.nodes.filter fun n => Q (n.turned x.id new form)) = c.nodes.filter P :=
    List.filter_congr htest
  rw [nodes_converted hnew hf, List.filter_map, List.map_map]
  refine (congrArg _ hfilter).trans ?_
  refine List.map_congr_left fun n hn => ?_
  obtain ⟨hn, hP⟩ := List.mem_filter.mp hn
  exact Node.id_turned_of_ne (hout n hn hP)

theorem Placed.children_converted (h : c.Placed ∅)
    (hnew : (c.ids.allocate form.kind.node).1 = new) (hf : ¬ c.hasNode new = true) :
    (c.converted x form).children new = c.children x.id := by
  refine ids_converted hnew hf (fun n hn => ?_) fun n hn hp => ?_
  · rw [Bool.eq_iff_iff, beq_iff_eq, beq_iff_eq, Node.parent_turned]
    exact map_renameId_eq_new fun k hk he =>
      hf (he ▸ hasNode_of_contains (h.contains_parent hn hk))
  · exact h.ne_of_above hn (beq_iff_eq.mp hp ▸ .here)

theorem children_converted_of_ne (hnew : (c.ids.allocate form.kind.node).1 = new)
    (hf : ¬ c.hasNode new = true) (hk : k ≠ new) (hold : k ≠ x.id) (hout : x.id ∉ c.children k) :
    (c.converted x form).children k = c.children k := by
  refine ids_converted hnew hf (fun n _ => ?_) fun n hn hp hid => ?_
  · rw [Bool.eq_iff_iff, beq_iff_eq, beq_iff_eq, Node.parent_turned]
    cases n.parent with
    | none => simp
    | some j => rw [Option.map_some, Option.some_inj, Option.some_inj, renameId_eq_iff hk hold]
  · exact hout (hid ▸ mem_children_of hn (beq_iff_eq.mp hp))

/-- The search comes to the same ids under the new id, since none of them is the old one. -/
theorem Placed.family_converted (h : c.Placed ∅) (hx : x ∈ c.containers.entries)
    (hnew : (c.ids.allocate form.kind.node).1 = new) (hf : ¬ c.hasNode new = true) :
    (c.converted x form).family new = c.family x.id := by
  have hr := renames_converted h.numbered.apart hx hnew hf
  have hne : ∀ a, c.Below x.id a → a ≠ new ∧ a ≠ x.id := by
    intro a ha
    obtain ⟨n, hn, rfl, habove⟩ := h.numbered.apart.above_of_below ha
    exact ⟨fun he => hf (he ▸ hasNode_of_mem hn), h.ne_of_above hn habove⟩
  have hsame : ∀ a, c.Below x.id a →
      (c.converted x form).containers.contains a = c.containers.contains a := by
    intro a ha
    rw [Bool.eq_iff_iff, contains_iff_form?, contains_iff_form?,
      hr.form?_of_ne (hne a ha).1 (hne a ha).2]
  rw [family, family, search, search, h.children_converted hnew hf,
    foldl_meet_congr fun a ha => hsame a (.child ha)]
  refine search_congr (fun k => c.Below x.id k ∧ c.containers.contains k = true)
    (fun k hk => ⟨?_, fun a ha => ?_⟩) fun k hk => ?_
  · obtain ⟨hbelow, hc⟩ := hk
    exact children_converted_of_ne hnew hf (hne k hbelow).1 (hne k hbelow).2 fun hmem =>
      (hne x.id (.within hbelow hc hmem)).2 rfl
  · have hbelow : c.Below x.id a := .within hk.1 hk.2 ha
    exact ⟨hsame a hbelow, fun hc => ⟨hbelow, hc⟩⟩
  · obtain ⟨hchild, -, hc⟩ := (mem_frontier_foldl.mp hk).resolve_left List.not_mem_nil
    exact ⟨.child hchild, hc⟩

theorem family_withRelations (R : Store (Relation τ)) :
    family { c with relations := R } k = c.family k :=
  search_congr (fun _ => True) (fun _ _ => ⟨rfl, fun _ _ => ⟨rfl, fun _ => trivial⟩⟩) fun _ _ =>
    trivial

/-! ## Relations -/

/-- A relation has the ends of a contested pair under the new id if it had them under the old one. -/
theorem Placed.pair_rename_iff {E : Set String} (h : c.Placed E) (hf : ¬ c.hasNode new = true)
    {p : String × String} (hp : p ∈ c.contested x.id form) :
    (r.rename x.id new).pair = p ↔ r.pair = p := by
  have hchild : ∀ a ∈ c.children x.id, ∀ b, renameId x.id new b = a ↔ b = a := by
    intro a ha b
    obtain ⟨n, hn, rfl, hparent⟩ := mem_children.mp ha
    exact renameId_eq_iff (fun he => hf (he ▸ hasNode_of_mem hn))
      (h.ne_of_above hn (hparent ▸ .here))
  unfold contested at hp
  split at hp
  · obtain ⟨hleft, hright, -⟩ := mem_orderedPairs.mp hp
    rw [Prod.ext_iff, Prod.ext_iff]
    exact and_congr (hchild _ hleft _) (hchild _ hright _)
  · cases hp

theorem Placed.pair_rename_mem_iff {E : Set String} (h : c.Placed E)
    (hf : ¬ c.hasNode new = true) :
    (r.rename x.id new).pair ∈ c.contested x.id form ↔ r.pair ∈ c.contested x.id form :=
  ⟨fun hp => ((h.pair_rename_iff hf hp).mp rfl) ▸ hp,
    fun hp => ((h.pair_rename_iff hf hp).mpr rfl) ▸ hp⟩

/-- Under its new id the container owns exclusions between the contested pairs. -/
theorem Placed.rivals_converted (h : c.Placed ∅) (hx : x ∈ c.containers.entries)
    (hnew : (c.ids.allocate form.kind.node).1 = new) (hf : ¬ c.hasNode new = true) :
    orderedPairs ((c.converted x form).rivals new) = c.contested x.id form := by
  obtain ⟨m, hm, hid, -, hform⟩ :=
    (renames_converted h.numbered.apart hx hnew hf).forth _ (container_mem_nodes.mpr hx)
  have hform : (c.converted x form).form? new = some form :=
    form?_eq_some_iff.mpr ⟨m, hm, hid.trans renameId_old, hform.trans (if_pos rfl)⟩
  rw [rivals_of_form? hform, h.children_converted hnew hf, contested]
  split <;> rfl

/-- Whether a relation may stay beside a container of a form: no spawn leads to a nest. -/
def lands (new : String) (form : ContainerForm) (r : Relation τ) : Bool :=
  form.kind != .nest || !(r.target == new && r.type == .spawn)

/-- Upkeep under the new id, and then the removal of the spawns that led to the container, come to
the outcome of each relation. -/
theorem Orderly.outcome_eq (h : c.Orderly ∅ ⟨∅, L, ∅⟩) (hf : ¬ c.hasNode new = true)
    (hr : r ∈ c.relations.entries) :
    (tend new (c.contested x.id form) (r.rename x.id new)).filter (lands new form) =
      c.outcome x new form r := by
  have htarget : (r.rename x.id new).target = new ↔ r.target = x.id :=
    renameId_eq_new fun he => hf (he ▸ (h.owned.linked.ends r hr).2)
  have hscope : (r.rename x.id new).scope = some new ↔ r.scope = some x.id :=
    map_renameId_eq_new fun k hk he => hf (he ▸ hasNode_of_contains (h.contains_scope hr hk))
  have hlands : ∀ s, Alike s (r.rename x.id new) →
      (lands new form s = true ↔ ¬ (form.kind = .nest ∧ r.type = .spawn ∧ r.target = x.id)) := by
    intro s hs
    have htype : s.type = r.type := hs.type
    rw [lands, hs.target, htype, ← htarget]
    simp only [Bool.or_eq_true, bne_iff_ne, Bool.not_eq_true', Bool.and_eq_false_iff,
      beq_eq_false_iff_ne]
    tauto
  have hpair : (r.rename x.id new).pair ∈ c.contested x.id form ↔ r.pair ∈ c.contested x.id form :=
    h.placed.pair_rename_mem_iff hf
  unfold outcome
  split
  · next hgone =>
    exact Option.filter_eq_none_iff.mpr fun s hs hl => (hlands s (alike_of_tend hs)).mp hl hgone
  · next hstay =>
    have hkept : (tend new (c.contested x.id form) (r.rename x.id new)).filter (lands new form) =
        tend new (c.contested x.id form) (r.rename x.id new) :=
      Option.ext fun s => Option.filter_eq_some_iff.trans
        (and_iff_left_of_imp fun hs => (hlands s (alike_of_tend hs)).mpr hstay)
    rw [hkept]
    unfold tend
    simp only [hpair, hscope]
    rfl

theorem entries_convert (c : Choreography τ) (x : Container τ) (form : ContainerForm)
    (hnew : (c.ids.allocate form.kind.node).1 = new) :
    (c.convert x form).value.1.relations.entries =
      ((c.converted x form).upkeep new).relations.entries.filter (lands new form) := by
  subst hnew
  rw [value_convert]
  split
  · next hk =>
    refine (entries_dropSpawns _ _).trans (List.filter_congr fun r _ => ?_)
    rw [lands, hk]
    rfl
  · next hk => exact (List.filter_eq_self.mpr fun r _ => by simp [lands, hk]).symm

theorem Orderly.relations_convert (h : c.Orderly ∅ ⟨∅, L, ∅⟩) (hx : x ∈ c.containers.entries)
    (hk : form.kind ≠ x.kind) (hnew : (c.ids.allocate form.kind.node).1 = new) :
    (c.convert x form).value.1.relations.entries =
      c.relations.entries.filterMap (c.outcome x new form) ++
        ((c.contested x.id form).filter fun p =>
          !c.relations.entries.any fun r => r.joins p.1 p.2 .exclusion).map (made new) := by
  obtain ⟨m, hid, hf, -⟩ := h.placed.numbered.converted hx hnew
  have hrenamed := h.renamed hx hk hnew
  have hmade : ∀ p, lands new form (made new p : Relation τ) = true := fun p => by
    simp [lands, made]
  have hjoins : ∀ p ∈ c.contested x.id form, ((c.relations.entries.map fun r =>
      r.rename x.id new).any fun r => r.joins p.1 p.2 .exclusion) =
        c.relations.entries.any fun r => r.joins p.1 p.2 .exclusion := fun p hp => by
    rw [List.any_map]
    refine congrArg _ (funext fun r => ?_)
    rw [Bool.eq_iff_iff, Function.comp_apply, Relation.joins_iff, Relation.joins_iff]
    exact and_congr_left' (h.placed.pair_rename_iff hf hp)
  rw [entries_convert c x form hnew, hrenamed.owned.entries_upkeep hrenamed.placed,
    h.placed.rivals_converted hx hnew hf, relations_converted h.placed.numbered.dashless
      h.owned.linked hnew hf (hid ▸ NodeKind.not_dash_mem_ident _ _), List.filter_append,
    List.filter_filterMap, List.filterMap_map]
  refine congrArg₂ _ (List.filterMap_congr fun r hr => h.outcome_eq hf hr) ?_
  rw [List.filter_eq_self.mpr fun r hr => by
    obtain ⟨p, -, rfl⟩ := List.mem_map.mp hr
    exact hmade p]
  exact congrArg _ (List.filter_congr fun p hp => congrArg not (hjoins p hp))

/-! ## The conversion -/

/-- Apart from its relations, what is left is the choreography with the container renamed. -/
theorem exists_convert (c : Choreography τ) (x : Container τ) (form : ContainerForm) :
    ∃ relations, (c.convert x form).value.1 = { c.converted x form with relations } := by
  rw [value_convert]
  split <;> exact ⟨_, rfl⟩

theorem Orderly.conversion (h : c.Orderly ∅ ⟨∅, L, ∅⟩) (hx : x ∈ c.containers.entries)
    (hk : form.kind ≠ x.kind) (hnew : (c.ids.allocate form.kind.node).1 = new) :
    Conversion c x form new (c.convert x form).value.1 := by
  obtain ⟨m, hid, hf, -, hids⟩ := h.placed.numbered.converted hx hnew
  obtain ⟨l, hl, -, hleast, -⟩ := h.placed.numbered.sane.allocate form.kind.node
  have hr := renames_converted h.placed.numbered.apart hx hnew hf
  have hafter := h.convert hx hk
  have hrelations := h.relations_convert hx hk hnew
  obtain ⟨R, hR⟩ := exists_convert c x form
  rw [hR] at hafter hrelations ⊢
  have hold : ¬ ({ c.converted x form with relations := R } : Choreography τ).hasNode x.id = true :=
    hr.not_hasNode_old
  constructor
  case fresh => exact hf
  case first => exact ⟨l, hnew.symm.trans hl, hleast⟩
  case containers => exact containers_converted hnew hf
  case events => subst hnew; rfl
  case relations => exact hrelations
  case distinct =>
    exact nodup_rename_relations h.placed.numbered.dashless h.owned.linked
      (hid ▸ NodeKind.not_dash_mem_ident _ _) hf
  case canonical => exact hafter.owned.linked.canonical
  case others => exact ⟨rfl, rfl, rfl⟩
  case nodesGone =>
    exact fun n hn => ⟨fun hid => hold (hid ▸ hasNode_of_mem hn), fun hparent =>
      hold (hasNode_of_contains (hafter.placed.contains_parent hn hparent))⟩
  case relationsGone =>
    intro s hs
    obtain ⟨hsource, htarget⟩ := hafter.owned.linked.ends s hs
    exact ⟨fun he => hold (he ▸ hsource), fun he => hold (he ▸ htarget),
      fun he => hold (hasNode_of_contains (hafter.contains_scope hs he))⟩
  case labelGone =>
    intro y hy hyid
    have hy : y ∈ (c.converted x form).containers.entries := hy
    rw [containers_converted hnew hf] at hy
    obtain ⟨z, hz, rfl⟩ := List.mem_map.mp hy
    have hzx : z.id = x.id := by
      by_contra hne
      rw [Container.turned, if_neg hne] at hyid
      exact hf (hyid ▸ hasNode_of_mem (container_mem_nodes.mpr hz))
    rw [Container.turned, if_pos hzx]
    exact isText_relabel fun he => hf (he ▸ hasNode_of_mem (container_mem_nodes.mpr hx))
  case children => exact h.placed.children_converted hnew hf
  case family => exact (family_withRelations R).trans (h.placed.family_converted hx hnew hf)
  case free => exact hids
  case eventIds =>
    have hevent : ∀ kind : ContainerKind, NodeKind.event ≠ kind.node := fun kind => by
      cases kind <;> exact nofun
    exact (IdPools.get_release_of_ne (hevent _)).trans (IdPools.get_allocate_of_ne (hevent _))

end Choreography

namespace Editor

open Choreography (Conversion)

variable {e : Editor τ}

/-- After every session the change of a container's kind is a renaming, whatever was asked for before
and whatever the calls answered: a new id stands wherever the old one stood, and nothing else changes
but the container's form, its exclusions and the spawns that may not lead to it any more. -/
theorem conversion_after [DecidableEq τ] (h : e.Opening) (calls : List (Call τ)) {x : Container τ}
    (hx : x ∈ (e.after calls).choreography.containers.entries) {kind : ContainerKind}
    (hk : x.kind ≠ kind) (type : Option NestType) :
    ∃ c new, Conversion (e.after calls).choreography x (.ofKind kind type) new c ∧
      ((e.after calls).choreography.changeContainerType x kind type).value = (c, new) ∧
      ((e.after calls).run = none →
        ((e.after calls).edit (.changeContainerType x.id kind type)).value =
          ({ e.after calls with choreography := c }, .done (.name new))) := by
  have hkind : (ContainerForm.ofKind kind type).kind ≠ x.kind := by
    rw [ContainerForm.kind_ofKind]
    exact hk.symm
  have hget : (e.after calls).choreography.containers.get? x.id = some x :=
    Store.get?_eq_some_iff.mpr ⟨hx, rfl⟩
  refine ⟨_, _, (orderly_after h calls).conversion hx hkind rfl, ?_, fun hrun => ?_⟩
  · rw [Choreography.changeContainerType_of_ne hk]
    exact Prod.ext rfl Choreography.id_convert
  · have hthere : (Edit.changeContainerType x.id kind type).absent? (e.after calls).choreography =
        none := if_pos (Store.contains_of_mem hx)
    have hperform := Choreography.value_perform_conversion type hget hk
    rw [ContainerForm.kind_ofKind]
    simp [Editor.edit, hthere, hrun, hperform]

/-- A session on the sample in which two events that exclude each other one way get into a
subprocess, and the subprocess into a choice with an event that spawns it. -/
def intertwining : List (Call String) :=
  [.edit (.createRelation "e0" "e1" .exclusion ""),
    .edit (.createContainer { form := .subprocess, children := ["e0", "e1"] }),
    .edit (.createContainer { form := .nest .choice, children := ["s0", "e2"] }),
    .edit (.createRelation "e2" "s0" .spawn ""), .edit (.createRelation "s0" "s0" .response "")]

/-- The subprocess of that session. -/
def intertwined : Container String :=
  { id := "s0", label := "s0", form := .subprocess, parent := some "n0" }

/-- The subprocess is made a choice between the two events. -/
theorem conversion_after_intertwining :
    let e : Editor String := after { choreography := Sample.choreography } intertwining
    intertwined ∈ e.choreography.containers.entries ∧ intertwined.kind ≠ .nest ∧
      ∃ c new, Conversion e.choreography intertwined (.ofKind .nest (some .choice)) new c ∧
        (e.choreography.changeContainerType intertwined .nest (some .choice)).value = (c, new) ∧
        (e.edit (.changeContainerType "s0" .nest (some .choice))).value =
          ({ e with choreography := c }, .done (.name new)) := by
  have hx : intertwined ∈ (after { choreography := (Sample.choreography : Choreography String) }
      intertwining).choreography.containers.entries := by decide +kernel
  have hrun : (after { choreography := (Sample.choreography : Choreography String) }
      intertwining).run = none := Option.isNone_iff_eq_none.mp (by decide +kernel)
  have hk : intertwined.kind ≠ .nest := by decide
  obtain ⟨c, new, hc, hchange, hedit⟩ :=
    conversion_after (.inr rfl) intertwining hx hk (some .choice)
  exact ⟨hx, hk, c, new, hc, hchange, hedit hrun⟩

end Editor

end Dcr
