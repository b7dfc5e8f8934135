import Dcr.Proofs.Cycles
import Dcr.Proofs.Entries

/-! Documents normalized in one pass. Containers are settled one after the other in the order of the
document, so one may be looked after before what is below it goes; but what goes has its parent
settled in turn, up to the first container that stays. In the end no container is left empty, so
where containers form a forest exactly those go that no event is below. -/

namespace Dcr

variable {τ : Type} [FreeText τ]

/-! ## Containers that stay -/

namespace Choreography

variable {c : Choreography τ}

/-- No container is empty, a choice owns one exclusion for each ordered pair of its children and
nothing else, and another container owns nothing. -/
structure Settled (c : Choreography τ) : Prop where
  inhabited : ∀ x ∈ c.containers.entries, c.children x.id ≠ []
  exclusions : ∀ x ∈ c.containers.entries, x.form = .nest .choice →
    ∀ r ∈ c.scopedTo x.id, r.type = .exclusion
  once : ∀ x ∈ c.containers.entries, x.form = .nest .choice →
    ((c.scopedTo x.id).map Relation.pair).Nodup
  pairs : ∀ x ∈ c.containers.entries, x.form = .nest .choice → ∀ a b,
    (a, b) ∈ (c.scopedTo x.id).map Relation.pair ↔ a ∈ c.children x.id ∧ b ∈ c.children x.id ∧ a ≠ b
  others : ∀ x ∈ c.containers.entries, x.form ≠ .nest .choice → c.scopedTo x.id = []

theorem Steady.settled (h : c.Steady ∅) : c.Settled := by
  have hupkept : ∀ x ∈ c.containers.entries, c.Upkept x.id := fun x hx =>
    h.upkept x.id (Store.contains_of_mem hx) (Set.notMem_empty _)
  refine ⟨fun x hx => (hupkept x hx).inhabited, fun x hx _ r hr => ?_, fun x hx _ => ?_,
    fun x hx hform a b => ?_, fun x hx hform => ?_⟩
  · obtain ⟨hr, hk⟩ := mem_scopedTo.mp hr
    exact (hupkept x hx).exclusions r hr hk
  · exact nodup_pairs_scopedTo h.single.singleIn (hupkept x hx).exclusions
  · exact mem_pairs_scopedTo (hupkept x hx).fits (hupkept x hx).full
      ((form?_container hx).trans (congrArg some hform))
  · refine scopedTo_eq_nil (hupkept x hx).fits fun hk => hform ?_
    simpa [form?_container hx] using hk

end Choreography

/-! ## Documents loaded -/

namespace Document

variable {d : Document τ} {b c : Choreography τ} {gone : List (Container τ)}

/-- No two nodes and no two edges have one id, no container is above itself, and every edge stands
under the id of its type and ends, under that of a generated relation only if it is an exclusion. -/
structure Regular (d : Document τ) : Prop where
  nodes : (d.nodes.map NodeEntry.id?).Nodup
  edges : (d.edges.map EdgeEntry.id).Nodup
  acyclic : ∀ k, ¬ Circular d.up k
  canonical : ∀ e ∈ d.edges, ∀ a b, e.source = .str a → e.target = .str b →
    ∃ generated, e.id = Relation.idFor a b e.type generated ∧
      (generated = true → e.type = .exclusion)

/-- An event of a document is below an id. -/
def Eventful (d : Document τ) (k : String) : Prop :=
  ∃ n ∈ d.nodes, ∃ e, n.node? = some (.event e) ∧ Above d.up k e.parent

/-- What a document has become that is loaded, with the containers dropped. -/
structure Normalized (d : Document τ) (c : Choreography τ) (gone : List (Container τ)) : Prop where
  once : (gone.map Container.id).Nodup
  eventless : ∀ x, x ∈ gone ↔ (∃ n ∈ d.nodes, n.node? = some (.container x)) ∧ ¬ d.Eventful x.id
  reported : Notice.prominent d.load.log = gone.map Container.farewell ++
    if gone = [] then [] else [.warning
      ("Dropped empty containers on load: " ++ ", ".intercalate (gone.map Container.id))]
  nodes : ∀ m, m ∈ c.nodes ↔ (∃ n ∈ d.nodes, n.node? = some m) ∧ m.id ∉ gone.map Container.id
  settled : c.Settled
  kept : ∀ e ∈ d.edges, Relation.isGeneratedId e.id = false → ∀ a b, e.source = .str a →
    e.target = .str b → c.hasNode a = true → c.hasNode b = true →
      ∃ r ∈ c.relations.entries, r.id = e.id ∧ r.source = a ∧ r.target = b ∧ r.type = e.type ∧
        r.guard = e.guard ∧ r.generated = false

theorem Regular.linked (hd : d.Regular) (h : d.Tells b) : b.Linked := by
  have hcanonical : ∀ e ∈ d.edges, ∀ r, e.relation? = some r →
      r.id = Relation.idFor r.source r.target r.type r.generated ∧
        (r.generated = true → r.type = .exclusion) := by
    intro e he r hr
    unfold EdgeEntry.relation? at hr
    split at hr
    · next a b hsource htarget =>
      cases hr
      obtain ⟨generated, hid, htype⟩ := hd.canonical e he a b hsource htarget
      have hflag : Relation.isGeneratedId e.id = generated := by
        rw [hid, Relation.isGeneratedId_idFor]
      exact ⟨by rw [EdgeEntry.relation, hflag, hid], fun hg => htype (hflag.symm.trans hg)⟩
    · cases hr
  exact h.linked (fun e he r hr => (hcanonical e he r hr).1) fun e he r hr =>
    (hcanonical e he r hr).2

/-- In a document without repetition every node counts. -/
theorem Regular.mem_nodes (hd : d.Regular) (h : d.Tells b) (m : Node τ) :
    m ∈ b.nodes ↔ ∃ n ∈ d.nodes, n.node? = some m := by
  constructor
  · intro hm
    obtain ⟨n, hn, hnode⟩ := h.prevails_of_node hm
    exact ⟨n, hn.mem, hnode⟩
  · rintro ⟨n, hn, hnode⟩
    obtain ⟨m', hm', hnode'⟩ := h.node_of_prevails (Store.prevails_of_nodup hd.nodes hn)
    exact Option.some.inj (hnode.symm.trans hnode') ▸ hm'

theorem Regular.eventful_iff (hd : d.Regular) (h : d.Tells b) {k : String} :
    (∃ e ∈ b.events.entries, Above b.up k e.parent) ↔ d.Eventful k := by
  rw [h.up_eq]
  constructor
  · rintro ⟨e, he, habove⟩
    obtain ⟨n, hn, hnode⟩ := (hd.mem_nodes h _).mp (Choreography.event_mem_nodes.mpr he)
    exact ⟨n, hn, e, hnode, habove⟩
  · rintro ⟨n, hn, e, hnode, habove⟩
    exact ⟨e, Choreography.event_mem_nodes.mp ((hd.mem_nodes h _).mpr ⟨n, hn, hnode⟩), habove⟩

/-- All that is told when a document is loaded, apart from what is for debugging. -/
theorem prominent_load (hcheck : d.check = .ok b) :
    Notice.prominent d.load.log = Notice.prominent b.normalize.log ++
      if b.normalize.value.2 = [] then [] else [.warning
        ("Dropped empty containers on load: " ++ ", ".intercalate b.normalize.value.2)] := by
  simp only [load, hcheck, Logged.log_bind]
  by_cases hnil : b.normalize.value.2 = []
  · rw [if_neg (not_not.mpr hnil), if_pos hnil]
    simp only [Notice.prominent_append]
    rfl
  · rw [if_pos hnil, if_neg hnil]
    simp only [Notice.prominent_append]
    rfl

/-- An edge that was not generated is kept, where both its ends are. -/
theorem Regular.kept (hd : d.Regular) (hc : d.load.value = .ok c) :
    ∀ e ∈ d.edges, Relation.isGeneratedId e.id = false → ∀ a b, e.source = .str a →
      e.target = .str b → c.hasNode a = true → c.hasNode b = true →
        ∃ r ∈ c.relations.entries, r.id = e.id ∧ r.source = a ∧ r.target = b ∧ r.type = e.type ∧
          r.guard = e.guard ∧ r.generated = false := by
  intro e he hg a b hsource htarget ha hb
  obtain ⟨before, hcheck, rfl⟩ := load_eq_ok.mp hc
  have htells := tells_of_check hcheck
  have hapart := Choreography.apart_of_numbered htells.numbered
  obtain ⟨r, hr, hread⟩ := htells.relation_of_prevails (Store.prevails_of_nodup hd.edges he)
  have hrelation : e.relation a b (e.scope.bind Json.name?) = r := by
    rw [EdgeEntry.relation?, hsource, htarget] at hread
    exact Option.some.inj hread
  obtain ⟨f, -, haccepts⟩ := htells.edge hr
  have hends : before.hasNode r.source = true ∧ before.hasNode r.target = true :=
    ⟨(htells.hasNode_eq _).trans haccepts.source.2, (htells.hasNode_eq _).trans haccepts.target.2⟩
  have hplain : r.generated = false := hrelation ▸ hg
  have hstays := (Choreography.drops_settleAll hapart before.containers.keys).1
  cases Choreography.loadFate_settleAll hapart htells.unique hends hr before.containers.keys with
  | @kept s hs halike hscope =>
    refine ⟨s, hs, halike.id.trans ?_, halike.source.trans ?_, halike.target.trans ?_,
      halike.type.trans ?_, halike.guard.trans ?_, halike.generated.trans hplain⟩ <;>
    exact hrelation ▸ rfl
  | bereft hgone =>
    rw [← hrelation] at hgone
    exact (hgone.elim (hstays.hasNode_iff.mp ha).2 (hstays.hasNode_iff.mp hb).2).elim
  | unwanted hgenerated => cases hplain.symm.trans hgenerated
  | replaced hrivals hid =>
    -- nothing else is made under the id of a relation that was not generated
    have hflag : r.generated = Relation.isGeneratedId r.id := hrelation ▸ rfl
    rw [hplain, hid, Relation.isGeneratedId_idFor] at hflag
    cases hflag

/-- In the end every container that stays has what it should. -/
theorem Regular.steady (hd : d.Regular) (h : d.Tells b) :
    (b.settleAll b.containers.keys).value.1.Steady ∅ := by
  have hdashless : ∀ n ∈ b.nodes, Dashless n.id := fun n hn =>
    NodeKind.dashless_of_numbered (h.numbered n hn)
  have hlinked := hd.linked h
  exact (Choreography.steady_keys hdashless (Choreography.apart_of_numbered h.numbered)
    hlinked.single (hlinked.reserved hdashless)).settleAll

/-- Loading a document without repetitions and cycles, with every edge under its id, drops each
container that no event is below, and no other, tells of each once, and leaves the relations of all
others as they should be, in whatever order its containers stand. -/
theorem normalized_of_load (hc : d.load.value = .ok c) (hd : d.Regular) :
    ∃ gone, d.Normalized c gone := by
  have hground := (forest_of_load hc).2.2.mpr hd.acyclic
  have hkept := hd.kept hc
  obtain ⟨b, hcheck, rfl⟩ := load_eq_ok.mp hc
  have htells := tells_of_check hcheck
  have hapart := Choreography.apart_of_numbered htells.numbered
  have hsettled := (hd.steady htells).settled
  obtain ⟨gone, hleaves, hanswer⟩ := Choreography.leaves_settleAll hapart b.containers.keys
  refine ⟨gone, hleaves.once, fun x => ?_, ?_, fun m => ?_, hsettled, hkept⟩
  · rw [hleaves.mem_iff hapart hground hsettled.inhabited, hd.eventful_iff htells,
      ← Choreography.container_mem_nodes, hd.mem_nodes htells]
  · have hreport := prominent_load hcheck
    rw [Choreography.normalize, hanswer, hleaves.told] at hreport
    simpa only [List.map_eq_nil_iff] using hreport
  · rw [hleaves.drops.1.mem, hd.mem_nodes htells]
    rfl

theorem regular_untidy : untidy.Regular where
  nodes := by decide +kernel
  edges := by decide +kernel
  acyclic := by
    rintro k ⟨p, hp, habove⟩
    have hn1 : Grounded untidy.up (some "n1") := .inside (p := none) (by decide +kernel) .top
    refine Grounded.not_above_self (p := p) ?_ hp habove
    obtain ⟨x, hx, rfl⟩ := Option.map_eq_some_iff.mp hp
    have hmem := Roster.container_mem_of_mem (Store.get?_eq_some_iff.mp hx).1
    simp only [untidy, bare, plainNest, plainEvent, List.mem_cons, List.not_mem_nil, or_false,
      NodeEntry.container.injEq, reduceCtorEq] at hmem
    rcases hmem with rfl | rfl | rfl
    · exact .top
    · exact .top
    · exact hn1
  canonical := by
    intro e he a b hsource htarget
    simp only [untidy, bare, List.mem_cons, List.not_mem_nil, or_false] at he
    rcases he with rfl | rfl | rfl <;> cases hsource <;> cases htarget
    · exact ⟨true, by decide +kernel, fun _ => rfl⟩
    · exact ⟨false, by decide +kernel, fun hg => by cases hg⟩
    · exact ⟨false, by decide +kernel, fun hg => by cases hg⟩

/-- The outer one of two nests without an event comes first and goes last. -/
theorem normalized_of_load_untidy : untidy.load.value = .ok untidy.opened ∧ untidy.Regular ∧
    untidy.opened.containers.keys = ["n0"] ∧
    Notice.prominent untidy.load.log = [.advice "Removed empty nest: n2.",
      .advice "Removed empty nest: n1.", .warning "Dropped empty containers on load: n2, n1"] ∧
    ∃ gone, untidy.Normalized untidy.opened gone := by
  have hload : untidy.load.value = .ok untidy.opened := by decide +kernel
  exact ⟨hload, regular_untidy, by decide +kernel, by decide +kernel,
    normalized_of_load hload regular_untidy⟩

end Document

end Dcr
