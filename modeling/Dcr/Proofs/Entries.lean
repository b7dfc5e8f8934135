import Dcr.Proofs.Leaving
import Dcr.Proofs.Loading

/-! What becomes of the entries of a document. Of the entries under one id the last one counts; each
of those is found in what is loaded, in the list of containers dropped, or among the few relations
that normalizing takes away. `LoadFate` lists what may become of a relation, one constructor for
each way, and is kept by every step of normalizing. -/

namespace Dcr

open Keyed (key)

open Store (Prevails)

variable {τ : Type} [FreeText τ]

/-! ## Entries that count -/

/-- The id of a node, if it has one. -/
def NodeEntry.id? : NodeEntry τ → Option String
  | event e => some e.id
  | container x => some x.id
  | nameless _ => none

/-- The node of an entry in its place. -/
def NodeEntry.node? : NodeEntry τ → Option (Node τ)
  | event e => some (.event (e.event (e.parent.bind Json.name?)))
  | container x => some (.container (x.container (x.parent.bind Json.name?)))
  | nameless _ => none

/-- The relation of an edge, if both its ends are texts. -/
def EdgeEntry.relation? (e : EdgeEntry τ) : Option (Relation τ) :=
  match e.source, e.target with
  | .str a, .str b => some (e.relation a b (e.scope.bind Json.name?))
  | _, _ => none

theorem Roster.Accepts.relation?_eq {roster : Roster τ} {e : EdgeEntry τ} {r : Relation τ}
    (h : roster.Accepts e r) : e.relation? = some r := by
  rw [EdgeEntry.relation?, h.source.1, h.target.1, h.scope.1, bind_name?_map]
  exact congrArg some h.made.symm

namespace Document.Tells

variable {d : Document τ} {c : Choreography τ} (h : d.Tells c)
include h

/-- An entry that counts is that of a node. -/
theorem node_of_prevails {n : NodeEntry τ} (hn : Prevails NodeEntry.id? d.nodes n) :
    ∃ m ∈ c.nodes, n.node? = some m := by
  cases n with
  | nameless isEvent =>
    obtain ⟨_, hr⟩ := h.numbers _ hn.mem
    cases hr
  | event e =>
    have hid : ∀ (n : NodeEntry τ) f, n.event? = some f → n.id? = some (key f) := by
      rintro (f | y | b) _ ⟨⟩
      rfl
    have he := Store.mem_ofList_iff.mpr (hn.filterMap hid rfl)
    obtain ⟨f, hf, hef⟩ := exists_of_forall₂ h.events.flip he
    obtain ⟨p, ⟨hparent, -⟩, rfl⟩ := Roster.event_eq_ok.mp hef
    exact ⟨_, Choreography.event_mem_nodes.mpr hf, by rw [NodeEntry.node?, hparent, bind_name?_map]⟩
  | container x =>
    have hid : ∀ (n : NodeEntry τ) y, n.container? = some y → n.id? = some (key y) := by
      rintro (f | y | b) _ ⟨⟩
      rfl
    have hx := Store.mem_ofList_iff.mpr (hn.filterMap hid rfl)
    obtain ⟨y, hy, hxy⟩ := exists_of_forall₂ h.containers.flip hx
    obtain ⟨p, ⟨hparent, -⟩, rfl⟩ := Roster.container_eq_ok.mp hxy
    exact ⟨_, Choreography.container_mem_nodes.mpr hy,
      by rw [NodeEntry.node?, hparent, bind_name?_map]⟩

/-- An event and a container never have one id. -/
theorem ids_apart {e : EventEntry τ} {x : ContainerEntry τ} (he : .event e ∈ d.nodes)
    (hx : .container x ∈ d.nodes) : e.id ≠ x.id := by
  intro hid
  obtain ⟨r, hr⟩ := h.numbers _ he
  obtain ⟨s, hs⟩ := h.numbers _ hx
  rw [Roster.numberOf] at hr
  rw [Roster.numberOf] at hs
  have hkind := NodeKind.eq_of_numbered hr (hid ▸ hs)
  generalize ContainerForm.kind _ = kind at hkind
  cases kind <;> cases hkind

/-- A node is that of an entry that counts. -/
theorem prevails_of_node {m : Node τ} (hm : m ∈ c.nodes) :
    ∃ n, Prevails NodeEntry.id? d.nodes n ∧ n.node? = some m := by
  rcases Choreography.mem_nodes.mp hm with ⟨y, hy, rfl⟩ | ⟨f, hf, rfl⟩
  · obtain ⟨x, hx, hxy⟩ := exists_of_forall₂ h.containers hy
    obtain ⟨p, ⟨hparent, -⟩, rfl⟩ := Roster.container_eq_ok.mp hxy
    obtain ⟨before, n, after, hnodes, hn, hafter⟩ := (Store.mem_ofList_iff.mp hx).of_filterMap
    cases n <;> cases hn
    have hread : (NodeEntry.container x).node? = some (.container (x.container p)) := by
      rw [NodeEntry.node?, hparent, bind_name?_map]
    refine ⟨.container x, ⟨before, after, hnodes, ?_⟩, hread⟩
    rintro (e | z | b) hmem hid
    · exact h.ids_apart (hnodes ▸ by simp [hmem]) (Roster.container_mem_of_mem hx)
        (Option.some.inj hid)
    · exact hafter _ hmem z rfl (Option.some.inj hid)
    · cases hid
  · obtain ⟨e, he, hef⟩ := exists_of_forall₂ h.events hf
    obtain ⟨p, ⟨hparent, -⟩, rfl⟩ := Roster.event_eq_ok.mp hef
    obtain ⟨before, n, after, hnodes, hn, hafter⟩ := (Store.mem_ofList_iff.mp he).of_filterMap
    cases n <;> cases hn
    refine ⟨.event e, ⟨before, after, hnodes, ?_⟩, by rw [NodeEntry.node?, hparent, bind_name?_map]⟩
    rintro (z | x | b) hmem hid
    · exact hafter _ hmem z rfl (Option.some.inj hid)
    · exact h.ids_apart (Roster.event_mem_of_mem he) (hnodes ▸ by simp [hmem])
        (Option.some.inj hid).symm
    · cases hid

/-- An edge that counts is that of a relation. -/
theorem relation_of_prevails {e : EdgeEntry τ} (he : Prevails EdgeEntry.id d.edges e) :
    ∃ r ∈ c.relations.entries, e.relation? = some r := by
  obtain ⟨r, hr, haccepts⟩ := exists_of_forall₂ h.relations.flip (Store.mem_ofList_iff.mpr he)
  exact ⟨r, hr, haccepts.relation?_eq⟩

/-- Relations are linked if each edge stands under the id of its type and ends, and those that were
generated are exclusions. -/
theorem linked (hid : ∀ e ∈ d.edges, ∀ r, e.relation? = some r →
      r.id = Relation.idFor r.source r.target r.type r.generated)
    (hgenerated : ∀ e ∈ d.edges, ∀ r, e.relation? = some r → r.generated = true →
      r.type = .exclusion) : c.Linked := by
  refine ⟨fun r hr => ?_, fun r hr => ?_, h.unique, fun r hr hg => ?_⟩ <;>
    obtain ⟨e, he, haccepts⟩ := h.edge hr
  · exact hid e he r haccepts.relation?_eq
  · exact ⟨(h.hasNode_eq _).trans haccepts.source.2, (h.hasNode_eq _).trans haccepts.target.2⟩
  · exact hgenerated e he r haccepts.relation?_eq hg

end Document.Tells

/-! ## What becomes of a relation -/

namespace Choreography

variable {b c : Choreography τ} {r s : Relation τ} {x : Container τ} {id k : String}

/-- What may have become of a relation of a choreography after normalizing: it is kept, apart from
what it belongs to; or one of its ends is gone; or it was generated for a container that does not
want it; or another generated exclusion has been stored under its id. -/
inductive LoadFate (b : Choreography τ) (gone : Set String) (c : Choreography τ) (r : Relation τ) :
    Prop
  | kept {s : Relation τ} (there : s ∈ c.relations.entries) (alike : Alike s r)
      (scope : r.generated = true → ∀ k, s.scope = some k →
        r.scope = some k ∨ (r.type = .exclusion ∧ c.Rivals k r.source r.target))
  | bereft (ends : r.source ∈ gone ∨ r.target ∈ gone)
  | unwanted {k : String} (generated : r.generated = true) (scope : r.scope = some k)
      (fits : ¬ (r.type = .exclusion ∧ c.Rivals k r.source r.target))
  | replaced {k p q : String} (rivals : b.Rivals k p q)
      (id : r.id = Relation.idFor p q .exclusion true) (other : ¬ r.joins p q .exclusion = true)

/-- The ids under which there is no node. -/
def absent (c : Choreography τ) : Set String := {a | ¬ c.hasNode a = true}

theorem LoadFate.tended {gone : Set String} (h : LoadFate b gone c r) (hsingle : Single c.relations)
    (hrivals : ∀ k p q, c.Rivals k p q → b.Rivals k p q) (k : String) :
    LoadFate b gone (c.tended k) r := by
  have hsame : ∀ {j p q}, (c.tended k).Rivals j p q ↔ c.Rivals j p q := rivals_withRelations
  cases h with
  | bereft hgone => exact .bereft hgone
  | unwanted hgenerated hscope hfits =>
    exact .unwanted hgenerated hscope fun ⟨ht, hab⟩ => hfits ⟨ht, hsame.mp hab⟩
  | replaced hab hid hother => exact .replaced hab hid hother
  | @kept s hs halike hscope =>
    cases upkeepFate hsingle.singleIn hs k with
    | @kept t ht hts htscope =>
      refine .kept ht (hts.trans halike) fun hgenerated j hj => ?_
      rcases htscope with he | ⟨he, -⟩ | ⟨he, htype, hab⟩
      · exact (hscope hgenerated j (he ▸ hj)).imp_right fun ⟨ht, hab⟩ => ⟨ht, hsame.mpr hab⟩
      · rw [he] at hj
        cases hj
      · cases he.symm.trans hj
        refine .inr ⟨halike.type ▸ htype, ?_⟩
        rw [← halike.source, ← halike.target]
        exact hsame.mpr hab
    | unwanted hsk hgenerated hfits =>
      rw [halike.generated] at hgenerated
      rw [halike.type, halike.source, halike.target] at hfits
      refine .unwanted hgenerated ((hscope hgenerated k hsk).resolve_right hfits) ?_
      exact fun ⟨ht, hab⟩ => hfits ⟨ht, hsame.mp hab⟩
    | replaced hab hid hother =>
      exact .replaced (hrivals _ _ _ hab) (halike.id ▸ hid) (halike.joins_eq .. ▸ hother)

/-- Rivals that are left were rivals. -/
theorem Removes.rivals_of {D : Set String} {d : Choreography τ} (hr : Removes D c d) {p q : String}
    (h : d.Rivals k p q) : c.Rivals k p q := by
  have hk : k ∉ D := fun hk => by
    have hchoice := h.choice
    rw [hr.form?_of_mem hk] at hchoice
    cases hchoice
  exact ⟨hr.form?_of_not_mem hk ▸ h.choice, (hr.mem_children.mp h.left).1,
    (hr.mem_children.mp h.right).1, h.ne⟩

/-- Rivals that both stay are rivals still. -/
theorem Removes.rivals {D : Set String} {d : Choreography τ} (hr : Removes D c d) {p q : String}
    (h : c.Rivals k p q) (hp : p ∉ D) (hq : q ∉ D) : d.Rivals k p q := by
  have hk : k ∉ D := fun hk => hp (hr.mem_of_children h.left hk)
  exact ⟨(hr.form?_of_not_mem hk).trans h.choice, hr.mem_children.mpr ⟨h.left, hp⟩,
    hr.mem_children.mpr ⟨h.right, hq⟩, h.ne⟩

theorem LoadFate.drop (h : LoadFate b c.absent c r) (ha : c.Apart)
    (hx : c.containers.get? id = some x) (hc : c.children id = []) :
    LoadFate b (c.dropContainer x).absent (c.dropContainer x) r := by
  have hr := removes_dropContainer ha hx hc
  obtain ⟨-, rfl⟩ := get?_container_iff.mp hx
  have hgone : ∀ {a}, a ∈ c.absent ∨ a = x.id → a ∈ (c.dropContainer x).absent := by
    intro a hor hthere
    obtain ⟨hthere, hne⟩ := hr.hasNode_iff.mp hthere
    exact hor.elim (fun habsent => habsent hthere) hne
  cases h with
  | bereft hends => exact .bereft (hends.imp (fun h => hgone (.inl h)) fun h => hgone (.inl h))
  | unwanted hgenerated hscope hfits =>
    exact .unwanted hgenerated hscope fun ⟨ht, hab⟩ => hfits ⟨ht, hr.rivals_of hab⟩
  | replaced hab hid hother => exact .replaced hab hid hother
  | @kept s hs halike hscope =>
    by_cases hsource : r.source = x.id
    · exact .bereft (.inl (hgone (.inr hsource)))
    by_cases htarget : r.target = x.id
    · exact .bereft (.inr (hgone (.inr htarget)))
    have htouch : ¬ s.touches x.id = true := by
      rw [Relation.touches_iff, halike.source, halike.target, not_or]
      exact ⟨hsource, htarget⟩
    refine .kept (List.mem_filter.mpr ⟨hs, by simpa using htouch⟩) halike fun hgenerated k hk => ?_
    exact (hscope hgenerated k hk).imp_right fun ⟨ht, hab⟩ => ⟨ht, hr.rivals hab hsource htarget⟩

/-- Normalizing a choreography in which no two relations of a type have the same ends does one of
these things to each relation. -/
theorem loadFate_settleAll (ha : b.Apart) (hsingle : Single b.relations)
    (hends : b.hasNode r.source = true ∧ b.hasNode r.target = true) (hr : r ∈ b.relations.entries)
    (ids : List String) :
    LoadFate b {k | k ∈ (b.settleAll ids).value.2} (b.settleAll ids).value.1 r := by
  obtain ⟨-, -, -, hfate⟩ := settleAll_rule
    (P := fun c => c.Apart ∧ Single c.relations ∧ (∀ k p q, c.Rivals k p q → b.Rivals k p q) ∧
      LoadFate b c.absent c r)
    (fun c k ⟨ha, hsingle, hrivals, hfate⟩ => ⟨ha, single_upkeep hsingle k,
      fun j p q h => hrivals j p q (rivals_withRelations.mp h), hfate.tended hsingle hrivals k⟩)
    (fun c x id ⟨ha, hsingle, hrivals, hfate⟩ hx hc =>
      have hremoves := removes_dropContainer ha hx hc
      ⟨hremoves.apart ha, fun r hr s hs => hsingle r (List.mem_of_mem_filter hr) s
        (List.mem_of_mem_filter hs), fun k p q h => hrivals k p q (hremoves.rivals_of h),
        hfate.drop ha hx hc⟩)
    ⟨ha, hsingle, fun _ _ _ h => h, .kept hr rfl fun _ k hk => .inl hk⟩ ids
  -- what is absent has been dropped
  have hdropped : ∀ a, b.hasNode a = true → a ∈ (b.settleAll ids).value.1.absent →
      a ∈ (b.settleAll ids).value.2 := by
    intro a hthere habsent
    by_contra hout
    exact habsent ((drops_settleAll ha ids).1.hasNode_iff.mpr ⟨hthere, hout⟩)
  cases hfate with
  | bereft hgone => exact .bereft (hgone.imp (hdropped _ hends.1) (hdropped _ hends.2))
  | kept hs halike hscope => exact .kept hs halike hscope
  | unwanted hgenerated hscope hfits => exact .unwanted hgenerated hscope hfits
  | replaced hab hid hother => exact .replaced hab hid hother

end Choreography

/-! ## Documents loaded -/

namespace Document

open Choreography (LoadFate)

variable {d : Document τ} {b c : Choreography τ} {removed : List String}

/-- What becomes of the entries of a document that count, where some containers are dropped while it
is loaded: a node is there or is one of the containers dropped, which have nothing but each other
inside, and a relation has one of the fates listed. No other nodes are there. -/
structure Account (d : Document τ) (b c : Choreography τ) (removed : List String) : Prop where
  nodes : ∀ n, Prevails NodeEntry.id? d.nodes n →
    ∃ m, n.node? = some m ∧ (m ∈ c.nodes ∨ m.id ∈ removed)
  sources : ∀ m ∈ c.nodes, ∃ n, Prevails NodeEntry.id? d.nodes n ∧ n.node? = some m
  empty : ∀ k ∈ removed, b.containers.contains k = true ∧ ∀ a ∈ b.children k, a ∈ removed
  edges : ∀ e, Prevails EdgeEntry.id d.edges e →
    ∃ r, e.relation? = some r ∧ LoadFate b {k | k ∈ removed} c r

/-- The containers dropped are reported. -/
theorem report_of_check (hcheck : d.check = .ok b) (hne : b.normalize.value.2 ≠ []) :
    .warning ("Dropped empty containers on load: " ++ ", ".intercalate b.normalize.value.2) ∈
      d.load.log := by
  simp only [load, hcheck, Logged.log_bind, if_pos hne, Logged.tell]
  simp

/-- Every entry of a document that counts is accounted for in what is loaded, and the containers
dropped are reported. -/
theorem account_of_load (hc : d.load.value = .ok c) :
    ∃ (b : Choreography τ) (removed : List String), d.check = .ok b ∧ d.Account b c removed ∧
      (removed ≠ [] → .warning ("Dropped empty containers on load: " ++ ", ".intercalate removed) ∈
        d.load.log) := by
  obtain ⟨b, hcheck, rfl⟩ := load_eq_ok.mp hc
  have htells := tells_of_check hcheck
  have hapart := Choreography.apart_of_numbered htells.numbered
  obtain ⟨hremoves, hcontainers⟩ := Choreography.drops_settleAll hapart b.containers.keys
  refine ⟨b, b.normalize.value.2, hcheck, ⟨fun n hn => ?_, fun m hm => ?_, fun k hk => ?_,
    fun e he => ?_⟩, report_of_check hcheck⟩
  · obtain ⟨m, hm, hnode⟩ := htells.node_of_prevails hn
    exact ⟨m, hnode, or_iff_not_imp_right.mpr fun hout => (hremoves.mem m).mpr ⟨hm, hout⟩⟩
  · exact htells.prevails_of_node ((hremoves.mem m).mp hm).1
  · exact ⟨hcontainers k hk, fun a ha => hremoves.mem_of_children ha hk⟩
  · obtain ⟨r, hr, hrelation⟩ := htells.relation_of_prevails he
    obtain ⟨f, -, haccepts⟩ := htells.edge hr
    have hends : b.hasNode r.source = true ∧ b.hasNode r.target = true :=
      ⟨(htells.hasNode_eq _).trans haccepts.source.2, (htells.hasNode_eq _).trans haccepts.target.2⟩
    exact ⟨r, hrelation,
      Choreography.loadFate_settleAll hapart htells.unique hends hr b.containers.keys⟩

/-- The untidy document loses two nests and an edge to one of them, and says so. -/
theorem account_of_load_untidy : untidy.load.value = .ok untidy.opened ∧
    untidy.opened.containers.keys = ["n0"] ∧
    ∃ (b : Choreography String) (removed : List String), untidy.check = .ok b ∧
      untidy.Account b untidy.opened removed ∧
      (removed ≠ [] → .warning ("Dropped empty containers on load: " ++ ", ".intercalate removed) ∈
        untidy.load.log) := by
  have hload : untidy.load.value = .ok untidy.opened := by decide +kernel
  exact ⟨hload, by decide +kernel, account_of_load hload⟩

/-- Two events under one id, and two conditions of one event for another under one id, told apart by
their guards. -/
def repeated : Document String :=
  bare [.event { id := "e0", parent := none, content := { label := "a", initiators := ["P"] } },
      plainEvent "e0" none, plainEvent "e1" none]
    [{ plainEdge "c-e0-e1" "e0" "e1" .condition none with guard := "a" },
      { plainEdge "c-e0-e1" "e0" "e1" .condition none with guard := "b" }]

/-- The first entry under an id is lost when there is a second one, and nothing is said. -/
theorem not_accounted :
    (¬ ∀ (j : Json) (d : Document String) (c : Choreography String), ofJson j = .ok d →
      d.load.value = .ok c → ∀ n ∈ d.nodes, (∃ m ∈ c.nodes, n.node? = some m) ∨
        ∃ x, n = .container x ∧ c.containers.contains x.id = false) ∧
    ¬ ∀ (j : Json) (d : Document String) (c : Choreography String), ofJson j = .ok d →
      d.load.value = .ok c → ∀ e ∈ d.edges, ∀ r, e.relation? = some r →
        (∃ s ∈ c.relations.entries, s.pair = r.pair ∧ s.type = r.type ∧ s.guard = r.guard) ∨
          c.hasNode r.source = false ∨ c.hasNode r.target = false ∨ r.generated = true := by
  have hread : ofJson repeated.toJson = .ok repeated := by decide +kernel
  have hload : repeated.load.value = .ok repeated.opened := by decide +kernel
  have hevents : repeated.opened.events.entries.map Event.label = ["e0", "e1"] := by decide +kernel
  have hguards : repeated.opened.relations.entries.map Relation.guard = ["b"] := by decide +kernel
  refine ⟨fun h => ?_, fun h => ?_⟩
  · rcases h _ _ _ hread hload _ List.mem_cons_self with ⟨m, hm, hnode⟩ | ⟨x, hx, -⟩
    · cases hnode
      have hlabel := List.mem_map_of_mem (f := Event.label) (Choreography.event_mem_nodes.mp hm)
      rw [hevents] at hlabel
      exact absurd hlabel (by decide +kernel)
    · cases hx
  · rcases h _ _ _ hread hload _ List.mem_cons_self _ rfl with
      ⟨s, hs, -, -, hguard⟩ | hsource | htarget | hgenerated
    · have hmem := List.mem_map_of_mem (f := Relation.guard) hs
      rw [hguards, hguard] at hmem
      exact absurd hmem (by decide +kernel)
    · exact absurd hsource (by decide +kernel)
    · exact absurd htarget (by decide +kernel)
    · exact absurd hgenerated (by decide +kernel)

end Document

end Dcr
