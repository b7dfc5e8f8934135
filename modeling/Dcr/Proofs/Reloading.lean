import Dcr.Proofs.Checking
import Dcr.Proofs.Twins
import Dcr.Proofs.Upkeep
import Mathlib.Algebra.Group.Nat.Defs

/-! Documents loaded again. The document of a choreography in order passes every check and is normal
already; what is loaded from it is the choreography with new pools, in which exactly the ids in use
are taken. -/

namespace Dcr

open FreeText (holds ofText)

/-! ## Pools made anew -/

theorem Node.number_eq {τ : Type} [FreeText τ] {n : Node τ} {m : Nat} (h : n.id = n.kind.ident m) :
    n.number = m := by
  rw [number, h, IdPool.value?_ident (IdPools.sane_new n.kind).2]
  rfl

/-- The pools in which some numbers are taken can hand out every other one. -/
theorem IdPools.sane_ofUsed (used : List (NodeKind × Nat)) :
    (IdPools.ofUsed used).Sane ∧
      ∀ kind n, ((IdPools.ofUsed used).get kind).Available n ↔
        0 ≤ n ∧ ∀ m : Nat, n = m → (kind, m) ∉ used := by
  have hget : ∀ kind, (IdPools.ofUsed used).get kind = .ofUsed kind.stem
      ((used.filter fun n => n.1 == kind).map fun n => (n.2 : Int)) := fun kind => by
        cases kind <;> rfl
  have hnatural : ∀ kind, ∀ n ∈ (used.filter fun n => n.1 == kind).map (fun n => (n.2 : Int)),
      0 ≤ n := by
    intro kind n hn
    obtain ⟨p, _, rfl⟩ := List.mem_map.mp hn
    exact Int.natCast_nonneg _
  refine ⟨fun kind => ?_, fun kind n => ?_⟩
  · rw [hget]
    exact ⟨(IdPool.sane_ofUsed _ (hnatural kind)).1, rfl⟩
  · rw [hget, (IdPool.sane_ofUsed _ (hnatural kind)).2]
    refine and_congr_right fun _ => ?_
    simp only [List.mem_map, List.mem_filter, beq_iff_eq, not_exists, not_and]
    constructor
    · intro h m heq hmem
      subst heq
      exact h (kind, m) ⟨hmem, rfl⟩ rfl
    · intro h p hp he
      exact h p.2 he.symm (hp.2 ▸ hp.1)

namespace Choreography

variable {c : Choreography String} {k : String}

/-! ## The roster -/

/-- A choreography in order with a label on every node and no number that takes too many digits. -/
structure Storable (c : Choreography String) : Prop where
  orderly : c.Orderly ∅ {}
  lasting : c.Lasting
  labelled : ∀ n ∈ c.nodes, n.label ≠ ""
  readable : ∀ n ∈ c.nodes, n.number < 10 ^ Text.mostDigits

/-- The entry of a node. -/
def entry : Node String → NodeEntry String
  | .event e => .event (.ofEvent e)
  | .container x => .container (.ofContainer x)

theorem nodes_document (c : Choreography String) : c.document.nodes = c.nodes.map entry := by
  rw [document, nodes, List.map_append, List.map_map, List.map_map]
  rfl

/-- The roster of the document of a choreography. -/
def roster (c : Choreography String) : Roster String := .ofNodes c.document.nodes

theorem entries_roster (c : Choreography String) :
    c.roster.containers.entries = c.containers.entries.map .ofContainer ∧
      c.roster.events.entries = c.events.entries.map .ofEvent := by
  have hcontainers : c.document.nodes.filterMap NodeEntry.container? =
      c.containers.entries.map .ofContainer := by
    have hnone : c.events.entries.filterMap (NodeEntry.container? ∘ fun e => .event (.ofEvent e)) =
        [] :=
      List.filterMap_eq_nil_iff.mpr fun _ _ => rfl
    rw [document, List.filterMap_append, List.filterMap_map, List.filterMap_map, hnone,
      List.append_nil]
    exact congrFun List.filterMap_eq_map c.containers.entries
  have hevents : c.document.nodes.filterMap NodeEntry.event? = c.events.entries.map .ofEvent := by
    have hnone : c.containers.entries.filterMap
        (NodeEntry.event? ∘ fun x => .container (.ofContainer x)) = [] :=
      List.filterMap_eq_nil_iff.mpr fun _ _ => rfl
    rw [document, List.filterMap_append, List.filterMap_map, List.filterMap_map, hnone,
      List.nil_append]
    exact congrFun List.filterMap_eq_map c.events.entries
  have hkeys : ((c.containers.entries.map ContainerEntry.ofContainer).map Keyed.key).Nodup := by
    rw [List.map_map]
    exact c.containers.distinct
  have hkeys' : ((c.events.entries.map EventEntry.ofEvent).map Keyed.key).Nodup := by
    rw [List.map_map]
    exact c.events.distinct
  constructor
  · rw [roster, Roster.ofNodes, hcontainers]
    exact Store.entries_ofList hkeys
  · rw [roster, Roster.ofNodes, hevents]
    exact Store.entries_ofList hkeys'

theorem entries_edges (c : Choreography String) :
    (Store.ofList c.document.edges).entries = c.relations.entries.map .ofRelation := by
  refine Store.entries_ofList ?_
  rw [document, List.map_map]
  exact c.relations.distinct

theorem get?_roster (c : Choreography String) (id : String) :
    c.roster.containers.get? id = (c.containers.get? id).map .ofContainer ∧
      c.roster.events.get? id = (c.events.get? id).map .ofEvent := by
  obtain ⟨hcontainers, hevents⟩ := entries_roster c
  constructor
  · rw [Store.get?, hcontainers, List.find?_map]
    rfl
  · rw [Store.get?, hevents, List.find?_map]
    rfl

theorem contains_roster (c : Choreography String) (id : String) :
    c.roster.containers.contains id = c.containers.contains id := by
  rw [Store.contains, (get?_roster c id).1, Option.isSome_map]
  rfl

theorem hasNode_roster (c : Choreography String) (id : String) :
    c.roster.hasNode id = c.hasNode id := by
  have hevents : c.roster.events.contains id = c.events.contains id := by
    rw [Store.contains, (get?_roster c id).2, Option.isSome_map]
    rfl
  rw [Roster.hasNode, contains_roster, hevents, hasNode, node?]
  unfold Store.contains
  cases c.events.get? id <;> cases c.containers.get? id <;> rfl

theorem hasSubprocess_roster (c : Choreography String) (id : String) :
    c.roster.hasSubprocess id = (c.form? id == some .subprocess) := by
  rw [Roster.hasSubprocess, (get?_roster c id).1, form?]
  cases c.containers.get? id <;> rfl

/-! ## Nodes from their entries -/

theorem orText_of_ne {s t : String} (hs : s ≠ "") : FreeText.orText (some s) t = s := by
  have hh : FreeText.holds s = true := bne_iff_ne.mpr hs
  rw [FreeText.orText, Option.filter_some, if_pos hh]
  rfl

/-- The entry of an event makes the event again. -/
theorem event_ofEvent {e : Event String} (hl : e.label ≠ "") (hm : e.marking.Lasting) :
    (EventEntry.ofEvent e).event e.parent = e := by
  obtain ⟨id, label, name, security, value, initiators, receivers,
    ⟨included, pending, executable, executed⟩, parent⟩ := e
  obtain ⟨rfl, rfl⟩ := hm
  simp only [EventEntry.ofEvent, EventEntry.event, Event.content, Event.ofContent,
    Event.withContent, orText_of_ne hl]

/-- The entry of a container makes the container again. -/
theorem container_ofContainer {x : Container String} (hl : x.label ≠ "") (hm : x.marking.Lasting) :
    (ContainerEntry.ofContainer x).container x.parent = x := by
  obtain ⟨id, label, form, ⟨included, pending, executable, executed⟩, parent⟩ := x
  obtain ⟨rfl, rfl⟩ := hm
  simp only [ContainerEntry.ofContainer, ContainerEntry.container, orText_of_ne hl]

/-! ## Checks -/

theorem reference_eq_map {p : Option String} (hp : ∀ k, p = some k → k ≠ "") :
    reference p = p.map .str := by
  cases p with
  | none => rfl
  | some k => simp [reference, Option.filter, hp k rfl]

section Checked

variable (h : c.Checked)
include h

theorem Checked.numberOf {n : Node String} (hn : n ∈ c.nodes) :
    c.roster.numberOf (entry n) = .ok (n.kind, n.number) := by
  have hnumbered := h.numbered n hn
  cases n with
  | event e => exact hnumbered
  | container x =>
    have hget : c.containers.get? x.id = some x := get?_container_iff.mpr ⟨hn, rfl⟩
    have hroster : c.roster.containers.get? (ContainerEntry.ofContainer x).id =
        some (.ofContainer x) := by
      rw [(get?_roster c _).1]
      exact congrArg (Option.map ContainerEntry.ofContainer) hget
    show ((c.roster.containers.get?
      (ContainerEntry.ofContainer x).id).getD _).form.kind.node.numbered _ = _
    rw [hroster]
    exact hnumbered

/-- The numbers in use are those of the nodes. -/
theorem Checked.numbersInUse :
    c.roster.numbersInUse c.document.nodes = .ok (c.nodes.map fun n => (n.kind, n.number)) := by
  have hsorted :
      (c.document.nodes.filter fun n => !n.isEvent) ++
        c.document.nodes.filter NodeEntry.isEvent = c.nodes.map entry := by
    have hcontainers :
        c.containers.entries.filter
          ((fun n => !NodeEntry.isEvent n) ∘ fun x => NodeEntry.container (.ofContainer x)) =
        c.containers.entries := List.filter_eq_self.mpr fun _ _ => rfl
    have hevents : c.events.entries.filter (NodeEntry.isEvent ∘ fun e => .event (.ofEvent e)) =
        c.events.entries :=
      List.filter_eq_self.mpr fun _ _ => rfl
    have hnone : c.events.entries.filter
        ((fun n => !NodeEntry.isEvent n) ∘ fun e => NodeEntry.event (.ofEvent e)) = [] :=
      List.filter_eq_nil_iff.mpr fun _ _ => Bool.false_ne_true
    have hnone' : c.containers.entries.filter
        (NodeEntry.isEvent ∘ fun x => .container (.ofContainer x)) = [] :=
      List.filter_eq_nil_iff.mpr fun _ _ => Bool.false_ne_true
    rw [← nodes_document, document, List.filter_append, List.filter_append, List.filter_map,
      List.filter_map, List.filter_map, List.filter_map, hcontainers, hevents, hnone, hnone',
      List.map_nil, List.append_nil, List.map_nil, List.nil_append]
  rw [Roster.numbersInUse, hsorted]
  exact mapM_of_forall fun n hn => h.numberOf hn

/-- What names a container is written as it is, and looked up in the roster. -/
theorem Checked.reference {p : Option String}
    (hp : ∀ k, p = some k → c.containers.contains k = true) :
    reference p = p.map .str ∧ ∀ k, p = some k → c.roster.containers.contains k = true :=
  ⟨reference_eq_map fun k hk => (h.ne_of_contains (hp k hk)).1,
    fun k hk => (contains_roster c k).trans (hp k hk)⟩

theorem Checked.event {e : Event String} (he : e ∈ c.events.entries) :
    c.roster.event (.ofEvent e) = .ok e := by
  have hn : Node.event e ∈ c.nodes := event_mem_nodes.mpr he
  exact Roster.event_eq_ok.mpr
    ⟨e.parent, h.reference (h.parents _ hn), event_ofEvent (h.labelled _ hn) (h.lasting.events e he)⟩

theorem Checked.container {x : Container String} (hx : x ∈ c.containers.entries) :
    c.roster.container (.ofContainer x) = .ok x := by
  have hn : Node.container x ∈ c.nodes := container_mem_nodes.mpr hx
  exact Roster.container_eq_ok.mpr ⟨x.parent, h.reference (h.parents _ hn),
    container_ofContainer (h.labelled _ hn) (h.lasting.containers x hx)⟩

variable (hs : c.Scoped)
include hs

/-- The edge of a relation passes the checks. -/
theorem Checked.accepts {r : Relation String} (hr : r ∈ c.relations.entries) :
    c.roster.Accepts (.ofRelation r) r where
  made := by
    have hguard : (if FreeText.holds r.guard then r.guard else FreeText.ofText "") = r.guard := by
      by_cases hg : r.guard = ""
      · rw [hg]
        rfl
      · exact if_pos (bne_iff_ne.mpr hg)
    simp only [EdgeEntry.ofRelation, EdgeEntry.relation, hguard, ← h.marked r hr]
  source := ⟨rfl, (hasNode_roster c _).trans (h.ends r hr).1⟩
  target := ⟨rfl, (hasNode_roster c _).trans (h.ends r hr).2⟩
  landing ht := by rw [hasSubprocess_roster, h.landing r hr ht, beq_self_eq_true]
  scope := h.reference (hs r hr)

theorem Checked.relations {before rest : List (Relation String)}
    (hall : before ++ rest = c.relations.entries) :
    c.roster.relations before (rest.map .ofRelation) = .ok c.relations.entries := by
  induction rest generalizing before with
  | nil => exact congrArg Except.ok (by rw [← hall, List.append_nil])
  | cons r rest ih =>
    have hnodup : (before ++ r :: rest).Nodup := hall ▸ c.relations.nodup_entries
    have hr : r ∈ c.relations.entries := hall ▸ List.mem_append_right _ List.mem_cons_self
    have hnew : ∀ b ∈ before, ¬ (b.pair = r.pair ∧ b.type = r.type) := by
      rintro b hb ⟨hpair, htype⟩
      obtain rfl := h.single b (hall ▸ List.mem_append_left _ hb) r hr hpair htype
      exact (List.nodup_append.mp hnodup).2.2 b hb b List.mem_cons_self rfl
    rw [List.map_cons, Roster.relations,
      Roster.relation_eq_ok.mpr ⟨h.accepts hs hr, hnew⟩]
    exact ih (by rw [List.append_assoc, List.singleton_append, hall])

/-- The document of a choreography passes every check, and the choreography comes back with new
pools. -/
theorem Checked.check :
    c.document.check = .ok (c.withIds (.ofUsed (c.nodes.map fun n => (n.kind, n.number)))) := by
  have hcontainers : c.roster.containers.entries.mapM c.roster.container =
      .ok c.containers.entries := by
    rw [(entries_roster c).1]
    exact mapM_of_inverse fun x hx => h.container hx
  have hevents : c.roster.events.entries.mapM c.roster.event = .ok c.events.entries := by
    rw [(entries_roster c).2]
    exact mapM_of_inverse fun e he => h.event he
  have hrelations : c.roster.relations [] (Store.ofList c.document.edges).entries =
      .ok c.relations.entries := by
    rw [entries_edges]
    exact h.relations hs (List.nil_append _)
  have hread : c.document.check = do
      let used ← c.roster.numbersInUse c.document.nodes
      let containers ← c.roster.containers.entries.mapM c.roster.container
      let events ← c.roster.events.entries.mapM c.roster.event
      let relations ← c.roster.relations [] (Store.ofList c.document.edges).entries
      return {
        events := .ofList events
        containers := .ofList containers
        relations := .ofList relations
        roles := c.roles
        security := c.security
        documentation := c.documentation
        ids := .ofUsed used } := rfl
  rw [hread, h.numbersInUse, hcontainers, hevents, hrelations]
  simp only [ok_bind, Store.ofList_entries]
  rfl

end Checked

section Storable

variable (h : c.Storable)
include h

theorem Storable.checked : c.Checked where
  numbered n hn := by
    obtain ⟨m, hm⟩ := h.orderly.placed.numbered.named n hn
    have hnumber := Node.number_eq hm
    have hdigits : (toString m).length ≤ Text.mostDigits :=
      (Nat.length_repr_le_iff (by decide)).mpr (hnumber ▸ h.readable n hn)
    rw [NodeKind.numbered, hm, IdPool.number_ident (IdPools.sane_new n.kind).2 hdigits, hnumber]
  labelled := h.labelled
  lasting := h.lasting
  parents _ hn _ hp := h.orderly.placed.contains_parent hn hp
  ends := h.orderly.owned.linked.ends
  single := h.orderly.owned.linked.single
  landing r hr ht := h.orderly.owned.landing r hr ht (Set.notMem_empty _)
  marked r hr := by rw [h.orderly.owned.linked.canonical r hr, Relation.isGeneratedId_idFor]

theorem Storable.scoped : c.Scoped := fun _ hr _ hk => h.orderly.contains_scope hr hk

end Storable

/-! ## Nothing to put in order -/

/-- Settling containers that have what they should changes nothing, whatever the pools. -/
theorem settleAll_of_upkept {τ : Type} [FreeText τ] {c : Choreography τ}
    (hone : SingleIn c.relations.entries) (q : IdPools) (ids : List String)
    (hids : ∀ k ∈ ids, c.containers.contains k = true ∧ c.Upkept k) :
    ((c.withIds q).settleAll ids).value = (c.withIds q, []) ∧
      ∀ n ∈ ((c.withIds q).settleAll ids).log, n.level = .debug := by
  induction ids with
  | nil => exact ⟨rfl, fun n hn => absurd hn List.not_mem_nil⟩
  | cons k rest ih =>
    obtain ⟨⟨hk, hupkept⟩, hrest⟩ := List.forall_mem_cons.mp hids
    obtain ⟨hvalue, hlog⟩ := ih hrest
    obtain ⟨x, hx⟩ := Option.isSome_iff_exists.mp hk
    have hsync : (c.withIds q).syncExclusions k = ⟨c.withIds q, (c.upkeep k).notices k⟩ := by
      rw [syncExclusions, upkeep_withIds, hupkept.relations_upkeep hone]
      rfl
    have hsettle : (c.withIds q).settle k = ⟨(c.withIds q, []), (c.upkeep k).notices k⟩ := by
      rw [settle_of_kept (c := c.withIds q) hx hupkept.inhabited, hsync]
      exact congrArg (Logged.mk _) (List.append_nil _)
    simp only [Choreography.settleAll, hsettle, Logged.value_bind, Logged.log_bind, hvalue]
    refine ⟨rfl, fun n hn => ?_⟩
    rw [Logged.log_pure, List.append_nil] at hn
    rcases List.mem_append.mp hn with hn | hn
    · exact debug_upkeep c k n hn
    · exact hlog n hn

/-! ## Documents loaded again -/

/-- The document of a choreography is told by its JSON if its roles are labelled. -/
theorem Lasting.storable_document (h : c.Lasting) : c.document.Storable := by
  refine ⟨fun n hn => ?_, fun e he => ?_, fun r hr => ?_⟩
  · rcases List.mem_append.mp hn with hn | hn
    · obtain ⟨x, _, rfl⟩ := List.mem_map.mp hn
      exact .inr ⟨_, rfl, isReference_reference _⟩
    · obtain ⟨e, _, rfl⟩ := List.mem_map.mp hn
      exact .inl ⟨_, rfl, isReference_reference _⟩
  · obtain ⟨r, _, rfl⟩ := List.mem_map.mp he
    exact isReference_reference _
  · exact (h.labels r hr).imp (fun hl => bne_iff_ne.mp hl) id

theorem Lasting.loadJson_document (h : c.Lasting) :
    (loadJson c.document.toJson : Logged (Except DocumentError (Choreography String))) =
      c.document.load := by
  rw [loadJson, Document.ofJson_toJson h.storable_document]

/-- A choreography that passes the checks, each container with what it should have, is loaded from the
JSON of its document with nothing dropped, and only notices for debugging are given. -/
theorem Checked.load (h : c.Checked) (hs : c.Scoped)
    (hu : ∀ k, c.containers.contains k = true → c.Upkept k) :
    (loadJson c.document.toJson).value =
        .ok (c.withIds (.ofUsed (c.nodes.map fun n => (n.kind, n.number)))) ∧
      ∀ n ∈ (loadJson c.document.toJson : Logged (Except DocumentError (Choreography String))).log,
        n.level = .debug := by
  obtain ⟨hvalue, hlog⟩ := settleAll_of_upkept h.singleIn
    (.ofUsed (c.nodes.map fun n => (n.kind, n.number))) c.containers.keys fun k hk => by
      have hk := Store.mem_keys.mp hk
      exact ⟨hk, hu k hk⟩
  have hload : loadJson c.document.toJson =
      (c.withIds (.ofUsed (c.nodes.map fun n => (n.kind, n.number)))).normalize >>= fun result => do
        if result.2 ≠ [] then
          Logged.tell [.warning ("Dropped empty containers on load: " ++ ", ".intercalate result.2)]
        Logged.tell [.debug ("Loaded " ++ toString result.1.events.size ++ " events, "
          ++ toString result.1.containers.size ++ " containers, " ++
            toString result.1.relations.size ++ " relations")]
        return (.ok result.1 : Except DocumentError (Choreography String)) := by
    rw [h.lasting.loadJson_document, Document.load, h.check hs]
  have hempty : ¬ (([] : List String) ≠ []) := fun hne => hne rfl
  constructor
  · rw [hload, Logged.value_bind, normalize, containers_withIds, hvalue]
    rfl
  · intro n hn
    rw [hload, Logged.log_bind, normalize, containers_withIds, hvalue] at hn
    rcases List.mem_append.mp hn with hn | hn
    · exact hlog n hn
    · simp only [if_neg hempty] at hn
      rw [List.mem_singleton.mp hn]
      rfl

section Storable

variable (h : c.Storable)
include h

/-- The pools made anew can hand out the same numbers as those of the choreography. -/
theorem Storable.same_ids : c.ids.Same (.ofUsed (c.nodes.map fun n => (n.kind, n.number))) := by
  have hnumbered := h.orderly.placed.numbered
  obtain ⟨hsane, havailable⟩ := IdPools.sane_ofUsed (c.nodes.map fun n => (n.kind, n.number))
  refine ⟨hnumbered.sane, hsane, fun kind n => ?_⟩
  rw [havailable]
  have hused : ∀ m : Nat, (kind, m) ∈ c.nodes.map (fun n => (n.kind, n.number)) ↔
      c.hasNode (kind.ident m) = true := by
    intro m
    rw [List.mem_map, hasNode_iff]
    refine exists_congr fun n => and_congr_right fun hn => ?_
    obtain ⟨l, hl⟩ := hnumbered.named n hn
    rw [Node.number_eq hl, hl, Prod.mk.injEq]
    constructor
    · intro ⟨hk, hm⟩
      rw [hk, hm]
    · exact fun hid => NodeKind.ident_injective hid
  have hfree : ∀ m : Nat, (c.ids.get kind).Available m ↔
      (kind, m) ∉ c.nodes.map fun n => (n.kind, n.number) := by
    intro m
    rw [← IdPools.free_ident, hnumbered.free, hused]
  constructor
  · intro ⟨hn, hout⟩
    obtain ⟨m, rfl⟩ := Int.eq_ofNat_of_zero_le hn
    exact (hfree m).mpr (hout m rfl)
  · intro hn
    have hpos := (hnumbered.sane kind).1.nonneg hn
    refine ⟨hpos, fun m hm => ?_⟩
    subst hm
    exact (hfree m).mp hn

/-- A choreography that can be stored is loaded from the JSON of its document with nothing dropped,
and only notices for debugging are given. -/
theorem Storable.load : ∃ d, (loadJson c.document.toJson).value = .ok d ∧ c.Twins d ∧
    ∀ n ∈ (loadJson c.document.toJson : Logged (Except DocumentError (Choreography String))).log,
    n.level = .debug := by
  obtain ⟨hvalue, hlog⟩ := h.checked.load h.scoped fun k hk =>
    h.orderly.upkept (h.orderly.placed.inhabited k hk (Set.notMem_empty k))
  exact ⟨_, hvalue, twins_iff.mpr ⟨_, h.same_ids, rfl⟩, hlog⟩

end Storable

end Choreography

end Dcr
