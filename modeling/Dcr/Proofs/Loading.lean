import Dcr.Proofs.Generation
import Dcr.Proofs.Reloading

/-! Documents loaded. Normalizing keeps what the checks establish, scopes apart: a container that
goes leaves behind what belongs to it. So code can be generated and the dump can be loaded again just
when every scope is still there; and the dump is loaded as it is if no id of a generated exclusion
was taken otherwise. -/

namespace Dcr

namespace Choreography

variable {c : Choreography String} {x : Container String} {id : String} {S : Set String}

/-! ## What normalizing keeps -/

theorem Checked.tended (h : c.Checked) (k : String) : (c.tended k).Checked where
  numbered := h.numbered
  labelled := h.labelled
  lasting := ⟨robust_lasting.kept.relate _ h.lasting.toNodewise, h.lasting.labels⟩
  parents := h.parents
  ends := ends_upkeep h.ends k
  single := single_upkeep h.single k
  landing := forall_upkeep (Q := fun r => r.type = .spawn → c.form? r.target = some .subprocess)
    h.landing (fun _ hr => hr) (fun _ _ _ hr => hr) fun _ _ ht => nomatch ht
  marked := forall_upkeep (Q := fun r => r.generated = Relation.isGeneratedId r.id)
    h.marked (fun _ hr => hr) (fun _ _ _ hr => hr) fun p _ =>
      (Relation.isGeneratedId_idFor (a := p.1) (b := p.2) (t := .exclusion) (g := true)).symm

theorem Checked.drop (h : c.Checked) (hx : c.containers.get? id = some x)
    (hc : c.children id = []) : (c.dropContainer x).Checked := by
  have hr := removes_dropContainer h.apart hx hc
  have hsub : ∀ n ∈ (c.dropContainer x).nodes, n ∈ c.nodes := fun n hn => ((hr.mem n).mp hn).1
  obtain ⟨hmem, rfl⟩ := get?_container_iff.mp hx
  refine ⟨fun n hn => h.numbered n (hsub n hn), fun n hn => h.labelled n (hsub n hn),
    ⟨robust_lasting.kept.drop x h.lasting.toNodewise, h.lasting.labels⟩, fun n hn k hk => ?_,
    fun r hmem => ?_, fun r hr s hs => ?_, fun r hmem ht => ?_,
    fun r hmem => h.marked r (mem_relations_dropContainer hmem).1⟩
  · have hne : k ≠ x.id := fun he => children_eq_nil_iff.mp hc n (hsub n hn) (he ▸ hk)
    rw [contains_iff_form?, hr.form?_of_not_mem hne, ← contains_iff_form?]
    exact h.parents n (hsub n hn) k hk
  · obtain ⟨hmem, hsource, htarget⟩ := mem_relations_dropContainer hmem
    obtain ⟨hs, ht⟩ := h.ends r hmem
    exact ⟨hr.hasNode_iff.mpr ⟨hs, hsource⟩, hr.hasNode_iff.mpr ⟨ht, htarget⟩⟩
  · exact h.single r (mem_relations_dropContainer hr).1 s (mem_relations_dropContainer hs).1
  · obtain ⟨hmem, _, htarget⟩ := mem_relations_dropContainer hmem
    rw [hr.form?_of_not_mem htarget]
    exact h.landing r hmem ht

/-- Every scope is among some ids or the place of the relation's source. -/
def Traced (S : Set String) (c : Choreography String) : Prop :=
  ∀ r ∈ c.relations.entries, ∀ k, r.scope = some k → k ∈ S ∨ r.source ∈ c.children k

theorem Traced.tended (h : c.Traced S) (k : String) : (c.tended k).Traced S := by
  have hrival : ∀ p ∈ orderedPairs (c.rivals k), p.1 ∈ c.children k := fun p hp =>
    (mem_orderedPairs_rivals.mp hp).left
  refine forall_upkeep (Q := fun r => ∀ j, r.scope = some j → j ∈ S ∨ r.source ∈ c.children j)
    h (fun _ _ _ hj => nomatch hj) (fun r _ hr _ j hj => ?_) fun p hp j hj => ?_
  · cases hj
    exact .inr (hrival r.pair hr)
  · cases hj
    exact .inr (hrival p hp)

theorem Traced.drop (h : c.Traced S) (ha : c.Apart) (hx : c.containers.get? id = some x)
    (hc : c.children id = []) : (c.dropContainer x).Traced S := by
  have hremoves := removes_dropContainer ha hx hc
  obtain ⟨-, rfl⟩ := get?_container_iff.mp hx
  intro r hr k hk
  obtain ⟨hr, hsource, _⟩ := mem_relations_dropContainer hr
  exact (h r hr k hk).imp_right fun hchild => hremoves.mem_children.mpr ⟨hchild, hsource⟩

theorem Traced.scoped (h : c.Traced S) (hc : c.Checked)
    (hS : ∀ k ∈ S, c.containers.contains k = true) : c.Scoped := by
  intro r hr k hk
  rcases h r hr k hk with hS' | hchild
  · exact hS k hS'
  · obtain ⟨n, hn, _, hp⟩ := mem_children.mp hchild
    exact hc.parents n hn k hp

/-- What the checks establish, with scopes that can be traced back. -/
structure Sound (S : Set String) (c : Choreography String) : Prop where
  checked : c.Checked
  traced : c.Traced S

theorem Sound.settleAll (h : c.Sound S) (ids : List String) :
    (c.settleAll ids).value.1.Sound S :=
  settleAll_rule (P := Sound S) (fun _ k h => ⟨h.checked.tended k, h.traced.tended k⟩)
    (fun _ _ _ h hx hc => ⟨h.checked.drop hx hc, h.traced.drop h.checked.apart hx hc⟩) h ids

/-! ## Scopes that have to be there -/

theorem Checked.complete (h : c.Checked) (hs : c.Scoped) : c.Complete := ⟨h.parents, h.ends, hs⟩

theorem misplaced?_of_generate {code : GeneratedCode} (h : c.generate.value = .ok code) :
    c.misplaced? = none := by
  cases hm : c.misplaced? with
  | none => rfl
  | some id =>
    have hpieces : c.pieces = [.obstacle (.missing id)] := by rw [pieces, hm]
    have hvalue : c.generate.value = .error (.missing id) := by
      simp only [generate, hpieces, Logged.value_bind]
      rfl
    rw [hvalue] at h
    cases h

/-- Code is generated only if every scope that is an id is there. -/
theorem scoped_of_generate {code : GeneratedCode} (h : c.generate.value = .ok code)
    (hids : ∀ r ∈ c.relations.entries, ∀ k, r.scope = some k → k ≠ "" ∧ k ≠ topLevel) :
    c.Scoped := by
  intro r hr k hk
  obtain ⟨hne, htop⟩ := hids r hr k hk
  have hmisplaced := misplaced?_of_generate h
  simp only [misplaced?, Option.orElse_eq_orElse, Option.orElse_eq_or,
    Option.or_eq_none_iff] at hmisplaced
  have habsent := List.findSome?_eq_none_iff.mp hmisplaced.2.2 r hr
  have hhome : c.relationHome r = .ok k := by
    have hfilter : r.scope.filter (fun s => s != "") = some k :=
      Option.filter_eq_some_iff.mpr ⟨hk, bne_iff_ne.mpr hne⟩
    rw [relationHome, hfilter]
  rw [hhome] at habsent
  have hthere : k ∈ c.scopes := by
    by_contra hout
    have hsome : c.absent? k = some k := if_neg fun hc => hout (List.contains_iff_mem.mp hc)
    have habsent : c.absent? k = none := habsent
    rw [hsome] at habsent
    cases habsent
  exact Store.mem_keys.mp ((List.mem_cons.mp hthere).resolve_left htop)

end Choreography

namespace Document

/-- What stands under the id of a generated exclusion is that exclusion. -/
def Reserved (d : Document String) : Prop :=
  ∀ e ∈ d.edges, ∀ a b, Dashless a → Dashless b → e.id = Relation.idFor a b .exclusion true →
    e.source = .str a ∧ e.target = .str b ∧ e.type = .exclusion

theorem Reserved.of_tells {d : Document String} {c : Choreography String} (h : d.Reserved)
    (ht : d.Tells c) : c.Reserved := by
  intro r hr a b ha hb hid
  obtain ⟨e, he, haccepts⟩ := ht.edge hr
  have hmade := haccepts.made
  have hide : r.id = e.id := congrArg Relation.id hmade
  have htype : r.type = e.type := congrArg Relation.type hmade
  obtain ⟨hsource, htarget, hexclusion⟩ := h e he a b ha hb (hide ▸ hid)
  rw [haccepts.source.1] at hsource
  rw [haccepts.target.1] at htarget
  exact Relation.joins_iff.mpr
    ⟨Prod.ext (Json.str.inj hsource) (Json.str.inj htarget), htype.trans hexclusion⟩

/-- The scopes that the edges of a document name. -/
def scopes (d : Document String) : Set String := {k | ∃ e ∈ d.edges, e.scope = some (.str k)}

section Load

variable {j : Json} {d : Document String} {c : Choreography String} (hd : ofJson j = .ok d)
  (hc : d.load.value = .ok c)
include hd hc

/-- What is loaded passes the checks for good, and its scopes can be traced back to the edges. -/
theorem sound_of_load : c.Sound {k | k ∈ d.scopes ∧ k ≠ "" ∧ k ≠ Choreography.topLevel} := by
  obtain ⟨b, hcheck, rfl⟩ := load_eq_ok.mp hc
  have htells := tells_of_check hcheck
  have hchecked := htells.checked (labelled_of_json hd)
  refine Choreography.Sound.settleAll ⟨hchecked, fun r hr k hk => .inl ?_⟩ _
  obtain ⟨e, he, haccepts⟩ := htells.edge hr
  refine ⟨⟨e, he, ?_⟩, hchecked.ne_of_contains (htells.scopes r hr k hk)⟩
  rw [haccepts.scope.1, hk]
  rfl

theorem steady_of_load (h : d.Reserved) : c.Steady ∅ := by
  obtain ⟨b, hcheck, rfl⟩ := load_eq_ok.mp hc
  have htells := tells_of_check hcheck
  have hchecked := htells.checked (labelled_of_json hd)
  exact (Choreography.steady_keys hchecked.dashless hchecked.apart hchecked.single
    (h.of_tells htells)).settleAll

/-- The scopes of what is loaded are ids. -/
theorem scope_ids_of_load : ∀ r ∈ c.relations.entries, ∀ k, r.scope = some k →
    k ≠ "" ∧ k ≠ Choreography.topLevel := by
  have hsound := sound_of_load hd hc
  intro r hr k hk
  rcases hsound.traced r hr k hk with hedge | hchild
  · exact hedge.2
  · obtain ⟨n, hn, _, hp⟩ := Choreography.mem_children.mp hchild
    exact hsound.checked.ne_of_contains (hsound.checked.parents n hn k hp)

/-- The dump is accepted only if every scope is there. -/
theorem scoped_of_reload {b : Choreography String}
    (hb : (loadJson c.document.toJson).value = .ok b) : c.Scoped := by
  have hsound := sound_of_load hd hc
  have hload : c.document.load.value = .ok b := by
    rwa [hsound.checked.lasting.loadJson_document] at hb
  obtain ⟨a, hcheck, -⟩ := load_eq_ok.mp hload
  intro r hr k hk
  have hne := (scope_ids_of_load hd hc r hr k hk).1
  have he : EdgeEntry.ofRelation r ∈ (Store.ofList c.document.edges).entries := by
    rw [Choreography.entries_edges]
    exact List.mem_map_of_mem hr
  obtain ⟨s, -, haccepts⟩ := exists_of_forall₂ (tells_of_check hcheck).relations.flip he
  have hscope : reference r.scope = s.scope.map .str := haccepts.scope.1
  rw [hk, Choreography.reference_eq_map fun _ h => Option.some.inj h ▸ hne] at hscope
  have hs : s.scope = some k :=
    (Option.map_injective (fun _ _ h => Json.str.inj h) hscope).symm
  exact (Choreography.contains_roster c k).symm.trans (haccepts.scope.2 k hs)

end Load

/-- Of a choreography that was loaded code can be made, and its dump can be loaded again, just when
every scope is a container. So it is if every scope that an edge of the document names is still there
after loading, when empty containers have gone. Then the dump loads to a choreography with the same
dump, if nothing but the exclusion itself stands under the id of a generated exclusion in the
document. -/
theorem fixed_of_load {j : Json} {d : Document String} {c : Choreography String}
    (hd : ofJson j = .ok d) (hc : d.load.value = .ok c) :
    ((∃ code, c.generate.value = .ok code) ↔ c.Scoped) ∧
      ((∃ b : Choreography String, (loadJson c.document.toJson).value = .ok b) ↔ c.Scoped) ∧
      ((∀ k ∈ d.scopes, c.containers.contains k = true) → c.Scoped) ∧
      (c.Scoped → d.Reserved → ∃ b : Choreography String,
        (loadJson c.document.toJson).value = .ok b ∧ b.document = c.document) := by
  have hsound := sound_of_load hd hc
  refine ⟨⟨fun ⟨_, hcode⟩ => ?_, fun hs => ?_⟩, ⟨fun ⟨_, hb⟩ => ?_, fun hs => ?_⟩, fun hk => ?_,
    fun hs hreserved => ?_⟩
  · exact Choreography.scoped_of_generate hcode (scope_ids_of_load hd hc)
  · exact ⟨_, (hsound.checked.complete hs).generate⟩
  · exact scoped_of_reload hd hc hb
  · rw [hsound.checked.lasting.loadJson_document]
    exact ⟨_, load_eq_ok.mpr ⟨_, hsound.checked.check hs, rfl⟩⟩
  · exact hsound.traced.scoped hsound.checked fun k hedge => hk k hedge.1
  · have hupkept := (steady_of_load hd hc hreserved).upkept
    exact ⟨_, (hsound.checked.load hs fun k hk => hupkept k hk (Set.notMem_empty k)).1, rfl⟩

/-- An event under its id, in a container if one is given. -/
def plainEvent (id : String) (parent : Option String) : NodeEntry String :=
  .event { id, parent := parent.map .str, content := { label := id, initiators := ["P"] } }

/-- A nest under its id, in a container if one is given. -/
def plainNest (id : String) (type : NestType) (parent : Option String) : NodeEntry String :=
  .container
    { id, parent := parent.map .str, label := id, form := .nest type, included := true,
      pending := false }

/-- An edge without a guard. -/
def plainEdge (id source target : String) (type : RelationType) (scope : Option String) :
    EdgeEntry String :=
  { id, source := .str source, target := .str target, type, guard := "", scope := scope.map .str,
    hidden := false }

/-- Some nodes and edges, and nothing beside them. -/
def bare (nodes : List (NodeEntry String)) (edges : List (EdgeEntry String)) : Document String :=
  { nodes, edges, security := "", documentation := "", roles := [] }

/-- The choreography that a document loads to, or the empty one. -/
def opened (d : Document String) : Choreography String :=
  match d.load.value with
  | .ok c => c
  | .error _ => {}

/-- A choice of two events with one of its exclusions given, a condition that it has no use for, and
two nests inside one another without an event. -/
def untidy : Document String :=
  bare [plainNest "n0" .choice none, plainNest "n1" .group none, plainNest "n2" .group (some "n1"),
      plainEvent "e0" (some "n0"), plainEvent "e1" (some "n0"), plainEvent "e2" none]
    [plainEdge "x-e1-e0" "e1" "e0" .exclusion none,
      plainEdge "c-e0-e2" "e0" "e2" .condition (some "n0"),
      plainEdge "m-e2-n1" "e2" "n1" .milestone none]

theorem reserved_untidy : untidy.Reserved := by
  intro e he a b ha _ hid
  have hgenerated : Relation.isGeneratedId e.id = true := by
    rw [hid, Relation.isGeneratedId_idFor]
  simp only [untidy, bare, List.mem_cons, List.not_mem_nil, or_false] at he
  rcases he with rfl | rfl | rfl
  · have hid : Relation.idFor "e1" "e0" .exclusion true = Relation.idFor a b .exclusion true := hid
    obtain ⟨_, rfl, rfl, _⟩ := Relation.idFor_injective (by decide +kernel) ha hid
    exact ⟨rfl, rfl, rfl⟩
  · exact absurd hgenerated (by decide +kernel)
  · exact absurd hgenerated (by decide +kernel)

/-- What is left of the nests and edges can be made code of, and is dumped and loaded as it is. -/
theorem fixed_of_load_untidy : ofJson untidy.toJson = .ok untidy ∧
    untidy.load.value = .ok untidy.opened ∧ untidy.opened.containers.keys = ["n0"] ∧
    untidy.opened.relations.keys = ["x-e1-e0", "c-e0-e2", "x-e0-e1"] ∧
    (∃ code, untidy.opened.generate.value = .ok code) ∧
    ∃ b : Choreography String, (loadJson untidy.opened.document.toJson).value = .ok b ∧
      b.document = untidy.opened.document := by
  have hd : ofJson untidy.toJson = .ok untidy := by decide +kernel
  have hc : untidy.load.value = .ok untidy.opened := by decide +kernel
  have hscopes : ∀ k ∈ untidy.scopes, untidy.opened.containers.contains k = true := by
    rintro k ⟨e, he, hk⟩
    simp only [untidy, bare, List.mem_cons, List.not_mem_nil, or_false] at he
    rcases he with rfl | rfl | rfl
    · cases hk
    · cases hk
      decide +kernel
    · cases hk
  obtain ⟨hcode, _, hscoped, hdump⟩ := fixed_of_load hd hc
  exact ⟨hd, hc, by decide +kernel, by decide +kernel, hcode.mpr (hscoped hscopes),
    hdump (hscoped hscopes) reserved_untidy⟩

/-- Two events with a condition that belongs to a nest without children. -/
def stranded : Document String :=
  bare [plainNest "n0" .group none, plainEvent "e0" none, plainEvent "e1" none]
    [plainEdge "c-e0-e1" "e0" "e1" .condition (some "n0")]

/-- A choice of two events with an exclusion under the id of the other one. -/
def clashing : Document String :=
  bare [plainNest "n0" .choice none, plainEvent "e0" (some "n0"), plainEvent "e1" (some "n0")]
    [plainEdge "x-e1-e0" "e0" "e1" .exclusion none]

/-- What is loaded may name a nest that has gone, so that no code can be made of it and its dump is
not accepted; and where it is accepted, the dump may change. -/
theorem not_fixed :
    (¬ ∀ (j : Json) (c : Choreography String), (loadJson j).value = .ok c →
      ∃ code, c.generate.value = .ok code) ∧
    (¬ ∀ (j : Json) (c : Choreography String), (loadJson j).value = .ok c →
      ∃ b : Choreography String, (loadJson c.document.toJson).value = .ok b) ∧
    ¬ ∀ (j : Json) (c b : Choreography String), (loadJson j).value = .ok c →
      (loadJson c.document.toJson).value = .ok b → b.document = c.document := by
  have hload : (loadJson stranded.toJson).value = .ok stranded.opened := by decide +kernel
  refine ⟨fun h => ?_, fun h => ?_, fun h => ?_⟩
  · obtain ⟨code, hcode⟩ := h _ _ hload
    have herror : stranded.opened.generate.value = .error (.missing "n0") := by decide +kernel
    rw [herror] at hcode
    cases hcode
  · obtain ⟨b, hb⟩ := h _ _ hload
    have herror : (loadJson stranded.opened.document.toJson).value =
        (.error (.unknownScope "c-e0-e1" "n0") : Except DocumentError (Choreography String)) := by
      decide +kernel
    rw [herror] at hb
    cases hb
  · have hsame := h clashing.toJson clashing.opened clashing.opened.document.opened
      (by decide +kernel) (by decide +kernel)
    exact absurd hsame (by decide +kernel)

end Document

end Dcr
