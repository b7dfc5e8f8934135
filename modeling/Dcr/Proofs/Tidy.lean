import Dcr.Proofs.Pools

/-! Relations under ids of their own. Where every relation stands under the id of its type and
ends, no two nodes of a kind have one number, and what was generated belongs to something, a relation
that is stored meets no other one under its id, whichever way it comes in. The steps of edits keep
this. -/

namespace Dcr.Choreography

variable {τ : Type} [FreeText τ] {c d : Choreography τ} {r s : Relation τ} {n : Node τ}
  {x : Container τ} {form : ContainerForm} {id k : String} {p : Option String}

/-! ## Relations that are linked -/

theorem Linked.tended (h : c.Linked) (k : String) : (c.tended k).Linked where
  canonical := forall_upkeep h.canonical (fun _ hr => hr) (fun _ _ _ hr => hr) fun _ _ => rfl
  ends := ends_upkeep h.ends k
  single := single_upkeep h.single k
  generated := forall_upkeep h.generated (fun _ hr => hr) (fun _ _ _ hr => hr) fun _ _ _ => rfl

/-- Where no node goes, the relations stay linked. -/
theorem Linked.enlarge (h : c.Linked) (hnodes : ∀ a, c.hasNode a = true → d.hasNode a = true)
    (hd : d.relations = c.relations) : d.Linked :=
  h.restrict (hd ▸ fun _ hr => hr)
    (hd ▸ fun r hr => ⟨hnodes _ (h.ends r hr).1, hnodes _ (h.ends r hr).2⟩)

/-- Where nodes go and no relation at any of them is left, those left stay linked. -/
theorem Linked.reduce (h : c.Linked) {R : Set String}
    (hnodes : ∀ a, c.hasNode a = true → a ∉ R → d.hasNode a = true)
    (hd : ∀ r ∈ d.relations.entries, r ∈ c.relations.entries ∧ r.source ∉ R ∧ r.target ∉ R) :
    d.Linked :=
  h.restrict (fun r hr => (hd r hr).1) fun r hr => by
    obtain ⟨hin, hsource, htarget⟩ := hd r hr
    exact ⟨hnodes _ (h.ends r hin).1 hsource, hnodes _ (h.ends r hin).2 htarget⟩

/-! ## Generated relations belong to something -/

/-- What was generated belongs to something. -/
def Bound (R : Store (Relation τ)) : Prop :=
  ∀ r ∈ R.entries, r.generated = true → r.scope.isSome

theorem Bound.upkeep (h : Bound c.relations) (hone : SingleIn c.relations.entries) (k : String) :
    Bound (c.upkeep k).relations := by
  obtain ⟨hentries, -⟩ := foldl_review_scopedTo k (orderedPairs (c.rivals k)) hone
  unfold Choreography.upkeep
  generalize (c.scopedTo k).foldl Upkeep.review _ = u at hentries
  have hsupply : ∀ (v : Upkeep τ) q, Bound v.relations → Bound (v.supply k q).relations :=
    fun v q hv => forall_supply (Q := fun s => s.generated = true → s.scope.isSome) hv
      (fun _ _ _ _ _ => rfl) fun _ => rfl
  refine List.foldlRecOn u.lacking (Upkeep.supply k) (motive := fun v => Bound v.relations) ?_
    fun v hv q _ => hsupply v q hv
  -- what the first pass lets go of was not generated
  intro s hs hg
  rw [hentries] at hs
  obtain ⟨r, hr, hrs⟩ := List.mem_filterMap.mp hs
  have hrg : r.generated = true := (alike_of_revised hrs).generated.symm.trans hg
  unfold revised reviewed at hrs
  split at hrs
  · next hscope =>
    split at hrs
    · cases hrs
      exact h s hr hg
    · cases hrs
  · cases hrs
    exact h s hr hg

/-! ## Tidy choreographies -/

/-- Relations are linked, what was generated belongs to something, and the numbers of nodes are
dealt out. -/
structure Tidy (c : Choreography τ) : Prop where
  dealt : c.Dealt
  linked : c.Linked
  bound : Bound c.relations

theorem Tidy.apart (h : c.Tidy) : c.Apart := h.dealt.apart

/-- What stands under the id of a generated exclusion is that exclusion. -/
theorem Tidy.reserved (h : c.Tidy) : c.Reserved := h.linked.reserved h.dealt.dashless

theorem Tidy.tended (h : c.Tidy) (k : String) : (c.tended k).Tidy :=
  ⟨h.dealt.tended k, h.linked.tended k, h.bound.upkeep h.linked.singleIn k⟩

theorem Tidy.drop (h : c.Tidy) (hx : c.containers.get? id = some x) (hc : c.children id = []) :
    (c.dropContainer x).Tidy := by
  have hr := removes_dropContainer h.apart hx hc
  obtain ⟨-, rfl⟩ := get?_container_iff.mp hx
  exact ⟨h.dealt.drop hx hc, h.linked.reduce (fun a ha hout => hr.hasNode_iff.mpr ⟨ha, hout⟩)
    fun _ hr => mem_relations_dropContainer hr, fun r hr => h.bound r (List.mem_of_mem_filter hr)⟩

theorem relations_setParent (id : String) (p : Option String) :
    (c.setParent id p).relations = c.relations := by
  unfold Choreography.setParent
  split <;> rfl

theorem Tidy.setParent (h : c.Tidy) (id : String) (p : Option String) : (c.setParent id p).Tidy :=
  ⟨h.dealt.setParent id p,
    h.linked.enlarge (fun _ ha => (hasNode_setParent h.apart).trans ha) (relations_setParent id p),
    (relations_setParent (c := c) id p).symm ▸ h.bound⟩

/-- Contents of nodes may change. -/
theorem Tidy.redraw (h : c.Tidy) (hs : d.skeleton = c.skeleton) (hi : d.ids = c.ids)
    (hr : d.relations = c.relations) : d.Tidy :=
  ⟨h.dealt.redraw hs hi, h.linked.enlarge (fun _ ha => (hasNode_of_skeleton hs).trans ha) hr,
    hr ▸ h.bound⟩

theorem Tidy.withEvent (h : c.Tidy) (e : NewEvent τ) : (c.withEvent e).Tidy := by
  have ha := adds_withEvent (e := e) (h.dealt.unused .event)
  exact ⟨h.dealt.withEvent e,
    h.linked.enlarge (fun _ hthere => ha.hasNode_iff.mpr (.inl hthere)) rfl, h.bound⟩

theorem Tidy.withContainer (h : c.Tidy) (w : NewContainer τ) : (c.withContainer w).Tidy := by
  have ha := adds_withContainer (h.dealt.unused w.kind.node)
  exact ⟨h.dealt.withContainer w,
    h.linked.enlarge (fun _ hthere => ha.hasNode_iff.mpr (.inl hthere)) rfl, h.bound⟩

theorem Tidy.reformed (h : c.Tidy) (hx : c.containers.get? x.id = some x) (hk : x.kind = .nest)
    (type : NestType) : (c.reformed x.id (.nest type)).Tidy :=
  ⟨h.dealt.reformed hx hk type, h.linked.enlarge (fun a ha => (hasNode_reformed x.id a).mpr ha) rfl,
    h.bound⟩

theorem Tidy.renames (h : c.Tidy) (hx : x ∈ c.containers.entries) :
    Renames x.id (c.ids.allocate form.kind.node).1 form c (c.converted x form) :=
  renames_converted h.apart hx rfl (h.dealt.unused _)

/-- Every relation follows a container that is converted. -/
theorem Tidy.mem_converted (h : c.Tidy) :
    s ∈ (c.converted x form).relations.entries ↔
      ∃ r ∈ c.relations.entries, s = r.rename x.id (c.ids.allocate form.kind.node).1 := by
  obtain ⟨m, hm, -⟩ := h.dealt.sane.available_allocate form.kind.node
  exact mem_relations_converted h.dealt.dashless h.linked rfl (h.dealt.unused _)
    (hm ▸ NodeKind.not_dash_mem_ident _ _)

theorem Tidy.converted (h : c.Tidy) (hx : x ∈ c.containers.entries) (hk : form.kind ≠ x.kind) :
    (c.converted x form).Tidy := by
  refine ⟨h.dealt.converted hx hk, h.linked.rename (h.renames hx) fun s => h.mem_converted,
    fun s hs hg => ?_⟩
  obtain ⟨r, hr, rfl⟩ := h.mem_converted.mp hs
  show (r.scope.map _).isSome = true
  rw [Option.isSome_map]
  exact h.bound r hr hg

/-- Some relations may go. -/
theorem Tidy.discard (h : c.Tidy) {R : Store (Relation τ)}
    (hR : ∀ r ∈ R.entries, r ∈ c.relations.entries) : Tidy { c with relations := R } :=
  ⟨h.dealt.redraw rfl rfl, h.linked.restrict hR fun r hr => h.linked.ends r (hR r hr),
    fun r hr => h.bound r (hR r hr)⟩

theorem Tidy.insert (h : c.Tidy) (hr : c.Linkable r) :
    Tidy { c with relations := c.relations.insert r } := by
  refine ⟨h.dealt.redraw rfl rfl, h.linked.insert hr h.dealt.dashless, fun s hs hg => ?_⟩
  rcases (hr.mem_insert h.linked h.dealt.dashless).mp hs with hs | rfl
  · exact h.bound s hs hg
  · rw [hr.generated] at hg
    cases hg

/-! ## Nodes taken out -/

theorem mem_cut {gone : List String} :
    r ∈ (c.cut gone).relations.entries ↔
      r ∈ c.relations.entries ∧ r.source ∉ gone ∧ r.target ∉ gone := by
  simp [cut, List.mem_filter]

theorem Tidy.eraseNodes (h : c.Tidy) {gone : List String} {v : Verdict (List (Node τ))}
    (hd : (c.cut gone).eraseNodes gone = (d, v)) : d.Tidy := by
  have hcut : (c.cut gone).Dealt := h.dealt.redraw rfl rfl
  obtain ⟨-, hstay, -, hrel, -⟩ := eraseNodes_cases hcut.apart hd
  refine ⟨hcut.eraseNodes hd, h.linked.reduce (R := {a | a ∈ gone}) (fun a ha hout => ?_)
    fun r hr => mem_cut.mp (hrel ▸ hr), fun r hr => h.bound r (mem_cut.mp (hrel ▸ hr)).1⟩
  obtain ⟨n, hn, rfl⟩ := hasNode_iff.mp ha
  exact hasNode_of_mem (hstay n hn hout)

theorem Tidy.releaseNodes (h : c.Tidy) {gone : List String} {ns : List (Node τ)}
    (hd : (c.cut gone).eraseNodes gone = (d, .done ns)) : (d.releaseNodes ns).Tidy := by
  have hcut : (c.cut gone).Dealt := h.dealt.redraw rfl rfl
  have herased := h.eraseNodes hd
  exact ⟨hcut.releaseNodes hd, herased.linked.enlarge (fun _ ha => ha) rfl, herased.bound⟩

end Dcr.Choreography
