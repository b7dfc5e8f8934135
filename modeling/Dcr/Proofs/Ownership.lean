import Dcr.Proofs.Exclusions
import Dcr.Proofs.Placement

/-! What relations belong to. Between two edits a choice owns the exclusions of its ordered pairs of
children and nothing else is owned. In the midst of an edit some containers are in debt: they own
what they have no use for, or lack what they should own. The upkeep of a container settles its debt
and leaves the others alone, because no pair of nodes has two parents in common. -/

namespace Dcr.Choreography

open FreeText (ofText)
open Upkeep (made)

variable {τ : Type} [FreeText τ] {c d : Choreography τ} {n : Node τ} {E K : Set String} {k : String}
  {r s : Relation τ}

/-- Two children of a choice, in order. -/
structure Rivals (c : Choreography τ) (k a b : String) : Prop where
  choice : c.form? k = some (.nest .choice)
  left : a ∈ c.children k
  right : b ∈ c.children k
  ne : a ≠ b

theorem mem_orderedPairs_rivals {p : String × String} :
    p ∈ orderedPairs (c.rivals k) ↔ c.Rivals k p.1 p.2 := by
  rw [mem_orderedPairs, mem_rivals, mem_rivals]
  exact ⟨fun ⟨⟨hk, ha⟩, ⟨_, hb⟩, hne⟩ => ⟨hk, ha, hb, hne⟩,
    fun ⟨hk, ha, hb, hne⟩ => ⟨⟨hk, ha⟩, ⟨hk, hb⟩, hne⟩⟩

theorem rivals_withRelations {R : Store (Relation τ)} {a b : String} :
    Rivals { c with relations := R } k a b ↔ c.Rivals k a b :=
  ⟨fun ⟨hk, ha, hb, hne⟩ => ⟨hk, ha, hb, hne⟩, fun ⟨hk, ha, hb, hne⟩ => ⟨hk, ha, hb, hne⟩⟩

/-- A container owns relations between rivals only. -/
def Fits (c : Choreography τ) (k : String) : Prop :=
  ∀ r ∈ c.relations.entries, r.scope = some k → c.Rivals k r.source r.target

/-- A choice owns a relation between any two rivals. -/
def Full (c : Choreography τ) (k : String) : Prop :=
  ∀ a b, c.Rivals k a b → ∃ r ∈ c.relations.entries, r.scope = some k ∧ r.pair = (a, b)

/-- A choice that owns what it should owns a relation for each ordered pair of its children. -/
theorem mem_pairs_scopedTo (hfits : c.Fits k) (hfull : c.Full k)
    (hk : c.form? k = some (.nest .choice)) {a b : String} :
    (a, b) ∈ (c.scopedTo k).map Relation.pair ↔ a ∈ c.children k ∧ b ∈ c.children k ∧ a ≠ b := by
  rw [List.mem_map]
  constructor
  · intro ⟨r, hr, hpair⟩
    obtain ⟨hr, hs⟩ := mem_scopedTo.mp hr
    obtain ⟨_, hl, hrt, hne⟩ := hfits r hr hs
    obtain ⟨rfl, rfl⟩ := Prod.mk.inj hpair
    exact ⟨hl, hrt, hne⟩
  · intro ⟨hl, hrt, hne⟩
    obtain ⟨r, hr, hs, hpair⟩ := hfull a b ⟨hk, hl, hrt, hne⟩
    exact ⟨r, mem_scopedTo.mpr ⟨hr, hs⟩, hpair⟩

/-- Nothing but a choice owns relations. -/
theorem scopedTo_eq_nil (hfits : c.Fits k) (hk : c.form? k ≠ some (.nest .choice)) :
    c.scopedTo k = [] := by
  refine List.eq_nil_iff_forall_not_mem.mpr fun r hr => ?_
  obtain ⟨hr, hs⟩ := mem_scopedTo.mp hr
  exact hk (hfits r hr hs).choice

/-- No two relations that a container owns join one pair, if they are exclusions. -/
theorem nodup_pairs_scopedTo (hone : SingleIn c.relations.entries)
    (hex : ∀ r ∈ c.relations.entries, r.scope = some k → r.type = .exclusion) :
    ((c.scopedTo k).map Relation.pair).Nodup := by
  refine List.Nodup.map_on (fun r hr s hs hpair => ?_) (c.relations.nodup_entries.filter _)
  obtain ⟨hr, hk⟩ := mem_scopedTo.mp hr
  obtain ⟨hs, hk'⟩ := mem_scopedTo.mp hs
  exact hone r hr s hs (hex r hr hk) (hex s hs hk') hpair

/-- What an edit has not put in order yet: containers that may own relations they have no use for,
choices that may lack some, and nodes that are no subprocess although spawns may lead there. -/
structure Debt where
  unfit : Set String := ∅
  lacking : Set String := ∅
  astray : Set String := ∅

/-- Relations that belong where they should, apart from a debt. What belongs to a container is a
hidden exclusion and the container has children; what belongs to none is not hidden and was not
generated. -/
structure Owned (D : Debt) (c : Choreography τ) : Prop where
  linked : c.Linked
  loose : ∀ r ∈ c.relations.entries, r.scope = none → r.hidden = false ∧ r.generated = false
  bound : ∀ r ∈ c.relations.entries, ∀ k, r.scope = some k →
    r.type = .exclusion ∧ r.hidden = true ∧ c.children k ≠ []
  fit : ∀ k, k ∉ D.unfit → c.Fits k
  full : ∀ k, k ∉ D.lacking → c.Full k
  unguarded : ∀ r ∈ c.relations.entries, r.type = .spawn → r.guard = ofText ""
  landing : ∀ r ∈ c.relations.entries, r.type = .spawn → r.target ∉ D.astray →
    c.form? r.target = some .subprocess

variable {D D' : Debt}

/-- A debt may be dropped where there is none. -/
theorem Owned.narrow (h : c.Owned D) (hu : ∀ k ∈ D.unfit, k ∉ D'.unfit → c.Fits k)
    (hl : ∀ k ∈ D.lacking, k ∉ D'.lacking → c.Full k)
    (ha : ∀ r ∈ c.relations.entries, r.type = .spawn → r.target ∈ D.astray → r.target ∉ D'.astray →
      c.form? r.target = some .subprocess) : c.Owned D' where
  linked := h.linked
  loose := h.loose
  bound := h.bound
  fit k hk := by
    by_cases hD : k ∈ D.unfit
    · exact hu k hD hk
    · exact h.fit k hD
  full k hk := by
    by_cases hD : k ∈ D.lacking
    · exact hl k hD hk
    · exact h.full k hD
  unguarded := h.unguarded
  landing r hr ht hk := by
    by_cases hD : r.target ∈ D.astray
    · exact ha r hr ht hD hk
    · exact h.landing r hr ht hD

theorem Owned.mono (h : c.Owned D) (hu : D.unfit ⊆ D'.unfit) (hl : D.lacking ⊆ D'.lacking)
    (ha : D.astray ⊆ D'.astray) : c.Owned D' :=
  h.narrow (fun _ hD hk => absurd (hu hD) hk) (fun _ hD hk => absurd (hl hD) hk)
    fun _ _ _ hD hk => absurd (ha hD) hk

theorem Owned.children_ne_nil (h : c.Owned D) (hr : r ∈ c.relations.entries)
    (hk : r.scope = some k) :
    c.children k ≠ [] := (h.bound r hr k hk).2.2

theorem Owned.hidden_of_scope (h : c.Owned D) (hr : r ∈ c.relations.entries) (hs : r.scope.isSome) :
    r.hidden = true := by
  obtain ⟨k, hk⟩ := Option.isSome_iff_exists.mp hs
  exact (h.bound r hr k hk).2.1

theorem Owned.scope_isSome_of_generated (h : c.Owned D) (hr : r ∈ c.relations.entries)
    (hg : r.generated = true) : r.scope.isSome := by
  cases hs : r.scope with
  | none => rw [(h.loose r hr hs).2] at hg; cases hg
  | some _ => rfl

/-! ## Upkeep -/

theorem Numbered.dashless (h : c.Numbered) : ∀ n ∈ c.nodes, Dashless n.id := fun n hn => by
  obtain ⟨m, hm⟩ := h.named n hn
  exact hm ▸ NodeKind.not_dash_mem_ident _ _

/-- The relations after the upkeep of a container. -/
theorem Owned.entries_upkeep (h : c.Owned D) (hp : c.Placed E) : (c.upkeep k).relations.entries =
    c.relations.entries.filterMap (tend k (orderedPairs (c.rivals k))) ++
      ((orderedPairs (c.rivals k)).filter fun p =>
        !c.relations.entries.any fun r => r.joins p.1 p.2 .exclusion).map (made k) :=
  Choreography.entries_upkeep hp.numbered.dashless hp.numbered.apart h.linked
    (fun _ hr => h.hidden_of_scope hr) k

theorem Owned.mem_upkeep (h : c.Owned D) (hp : c.Placed E) :
    s ∈ (c.upkeep k).relations.entries ↔
      (∃ r ∈ c.relations.entries, tend k (orderedPairs (c.rivals k)) r = some s) ∨
      ∃ a b, c.Rivals k a b ∧ (∀ r ∈ c.relations.entries, r.type = .exclusion → r.pair ≠ (a, b)) ∧
        s = made k (a, b) := by
  rw [h.entries_upkeep hp]
  simp only [List.mem_append, List.mem_filterMap, List.mem_map, List.mem_filter,
    mem_orderedPairs_rivals, Bool.not_eq_true', List.any_eq_false, Relation.joins_iff]
  refine or_congr_right ⟨?_, ?_⟩
  · intro hall
    obtain ⟨p, ⟨hrival, hfree⟩, rfl⟩ := hall
    exact ⟨p.1, p.2, hrival, fun r hr hx he => hfree r hr ⟨he, hx⟩, rfl⟩
  · intro hall
    obtain ⟨a, b, hrival, hfree, rfl⟩ := hall
    exact ⟨(a, b), ⟨hrival, fun r hr he => hfree r hr he.2 he.1⟩, rfl⟩

/-- What the upkeep can have done to a relation. -/
theorem tend_cases {wanted : List (String × String)} (h : tend k wanted r = some s) :
    (r.type = .exclusion ∧ r.pair ∈ wanted ∧ s = held k r) ∨
      (r.scope = some k ∧ r.generated = false ∧ s = plain r) ∨
      (¬ (r.type = .exclusion ∧ r.pair ∈ wanted) ∧ r.scope ≠ some k ∧ s = r) := by
  unfold tend at h
  split at h
  · next hx =>
    cases h
    exact .inl ⟨hx.1, hx.2, rfl⟩
  · next hx =>
    split at h
    · next hk =>
      split at h
      · cases h
      · next hg =>
        cases h
        exact .inr (.inl ⟨hk, Bool.eq_false_iff.mpr hg, rfl⟩)
    · next hk =>
      cases h
      exact .inr (.inr ⟨hx, hk, rfl⟩)

/-- The store keeps its order during the upkeep of a container. -/
theorem Owned.linked_upkeep (h : c.Owned D) (hp : c.Placed E) :
    Linked { c with relations := (c.upkeep k).relations } := by
  refine ⟨fun s hs => ?_, fun s hs => ?_, fun s hs t ht hst htype => ?_, fun s hs hg => ?_⟩
  · rcases (h.mem_upkeep hp).mp hs with ⟨r, hr, ht⟩ | ⟨a, b, _, _, rfl⟩
    · have := h.linked.canonical r hr
      rcases tend_cases ht with ⟨_, _, rfl⟩ | ⟨_, _, rfl⟩ | ⟨_, _, rfl⟩ <;> exact this
    · rfl
  · rcases (h.mem_upkeep hp).mp hs with ⟨r, hr, ht⟩ | ⟨a, b, hrival, _, rfl⟩
    · have := h.linked.ends r hr
      rcases tend_cases ht with ⟨_, _, rfl⟩ | ⟨_, _, rfl⟩ | ⟨_, _, rfl⟩ <;> exact this
    · have hnode : ∀ a, a ∈ c.children k → c.hasNode a = true := fun a ha => by
        obtain ⟨m, hm, rfl, _⟩ := mem_children.mp ha
        exact hasNode_of_mem hm
      exact ⟨hnode a hrival.left, hnode b hrival.right⟩
  · rcases (h.mem_upkeep hp).mp hs with ⟨r, hr, hrs⟩ | ⟨a, b, _, hfree, rfl⟩ <;>
      rcases (h.mem_upkeep hp).mp ht with ⟨q, hq, hqt⟩ | ⟨a', b', _, hfree', rfl⟩
    · rw [(alike_of_tend hrs).pair, (alike_of_tend hqt).pair] at hst
      rw [(alike_of_tend hrs).type, (alike_of_tend hqt).type] at htype
      rw [h.linked.single r hr q hq hst htype, hqt] at hrs
      exact (Option.some.inj hrs).symm
    · rw [(alike_of_tend hrs).pair] at hst
      rw [(alike_of_tend hrs).type] at htype
      exact absurd hst (hfree' r hr htype)
    · rw [(alike_of_tend hqt).pair] at hst
      rw [(alike_of_tend hqt).type] at htype
      exact absurd hst.symm (hfree q hq htype.symm)
    · have he : (a, b) = (a', b') := hst
      rw [he]
  · rcases (h.mem_upkeep hp).mp hs with ⟨r, hr, ht⟩ | ⟨a, b, _, _, rfl⟩
    · have := h.linked.generated r hr
      rcases tend_cases ht with ⟨_, _, rfl⟩ | ⟨_, _, rfl⟩ | ⟨_, _, rfl⟩ <;> exact this hg
    · rfl

/-- After the upkeep the container lacks nothing, and no other one lacks what it did not lack
before. -/
theorem Owned.full_upkeep (h : c.Owned D) (hp : c.Placed E) {j : String} (hj : j ∉ D.lacking \ {k})
    (a b : String) (hrival : c.Rivals j a b) :
    ∃ r ∈ (c.upkeep k).relations.entries, r.scope = some j ∧ r.pair = (a, b) := by
  by_cases hjk : j = k
  · subst hjk
    by_cases hex : ∃ r ∈ c.relations.entries, r.type = .exclusion ∧ r.pair = (a, b)
    · obtain ⟨r, hr, hx, hpair⟩ := hex
      refine ⟨held j r, (h.mem_upkeep hp).mpr (.inl ⟨r, hr, if_pos ⟨hx, ?_⟩⟩), rfl, hpair⟩
      rw [hpair, mem_orderedPairs_rivals]
      exact hrival
    · refine ⟨made j (a, b), (h.mem_upkeep hp).mpr (.inr ⟨a, b, hrival, fun r hr hx he => ?_, rfl⟩),
        rfl, rfl⟩
      exact hex ⟨r, hr, hx, he⟩
  · obtain ⟨r, hr, hscope, hpair⟩ := h.full j (fun hl => hj ⟨hl, hjk⟩) a b hrival
    refine ⟨r, (h.mem_upkeep hp).mpr (.inl ⟨r, hr, ?_⟩), hscope, hpair⟩
    -- a node has one parent, so the pair is not one of the other container
    have hunwanted : ¬ (r.type = .exclusion ∧ r.pair ∈ orderedPairs (c.rivals k)) := fun hw => by
      have hrival' := mem_orderedPairs_rivals.mp hw.2
      rw [hpair] at hrival'
      exact hjk (hp.numbered.apart.parent_unique hrival.left hrival'.left)
    rw [tend, if_neg hunwanted, if_neg]
    rw [hscope]
    exact fun he => hjk (Option.some.inj he)

/-- The upkeep of a container settles its debt and makes no other. -/
theorem Owned.sync (h : c.Owned D) (hp : c.Placed E) (hk : ∀ j ∈ D.unfit, j = k) :
    Owned { D with unfit := ∅, lacking := D.lacking \ {k} }
      { c with relations := (c.upkeep k).relations } := by
  have hwanted : ∀ {r : Relation τ}, r.pair ∈ orderedPairs (c.rivals k) ↔
      c.Rivals k r.source r.target :=
    mem_orderedPairs_rivals
  refine ⟨h.linked_upkeep hp, fun s hs hnone => ?_, fun s hs j hj => ?_, fun j _ s hs hj => ?_,
    fun j hj a b hrival => ?_, fun s hs ht => ?_, fun s hs ht hA => ?_⟩
  · rcases (h.mem_upkeep hp).mp hs with ⟨r, hr, ht⟩ | ⟨a, b, _, _, rfl⟩
    · rcases tend_cases ht with ⟨_, _, rfl⟩ | ⟨_, hg, rfl⟩ | ⟨_, _, rfl⟩
      · cases hnone
      · exact ⟨rfl, hg⟩
      · exact h.loose s hr hnone
    · cases hnone
  · rcases (h.mem_upkeep hp).mp hs with ⟨r, hr, ht⟩ | ⟨a, b, hrival, _, rfl⟩
    · rcases tend_cases ht with ⟨hx, hw, rfl⟩ | ⟨_, _, rfl⟩ | ⟨_, _, rfl⟩
      · cases hj
        exact ⟨hx, rfl, List.ne_nil_of_mem (hwanted.mp hw).left⟩
      · cases hj
      · exact h.bound s hr j hj
    · cases hj
      exact ⟨rfl, rfl, List.ne_nil_of_mem hrival.left⟩
  · rw [rivals_withRelations]
    rcases (h.mem_upkeep hp).mp hs with ⟨r, hr, ht⟩ | ⟨a, b, hrival, _, rfl⟩
    · rcases tend_cases ht with ⟨_, hw, rfl⟩ | ⟨_, _, rfl⟩ | ⟨_, hne, rfl⟩
      · cases hj
        exact hwanted.mp hw
      · cases hj
      · exact h.fit j (fun hu => hne (hk j hu ▸ hj)) s hr hj
    · cases hj
      exact hrival
  · exact h.full_upkeep hp hj a b (rivals_withRelations.mp hrival)
  · rcases (h.mem_upkeep hp).mp hs with ⟨r, hr, hrs⟩ | ⟨a, b, _, _, rfl⟩
    · have := h.unguarded r hr
      rcases tend_cases hrs with ⟨_, _, rfl⟩ | ⟨_, _, rfl⟩ | ⟨_, _, rfl⟩ <;> exact this ht
    · cases ht
  · rcases (h.mem_upkeep hp).mp hs with ⟨r, hr, hrs⟩ | ⟨a, b, _, _, rfl⟩
    · have := h.landing r hr
      rcases tend_cases hrs with ⟨_, _, rfl⟩ | ⟨_, _, rfl⟩ | ⟨_, _, rfl⟩ <;> exact this ht hA
    · cases ht

/-! ## Changes of nodes -/

theorem Linked.singleIn (h : c.Linked) : SingleIn c.relations.entries :=
  Single.singleIn h.single

theorem Linked.restrict (h : c.Linked) (hsub : ∀ r ∈ d.relations.entries, r ∈ c.relations.entries)
    (hends : ∀ r ∈ d.relations.entries, d.hasNode r.source = true ∧ d.hasNode r.target = true) :
    d.Linked :=
  ⟨fun r hr => h.canonical r (hsub r hr), hends,
    fun r hr s hs => h.single r (hsub r hr) s (hsub s hs), fun r hr => h.generated r (hsub r hr)⟩

/-- What a relation is guarded by and belongs to may change. -/
theorem Linked.revise (h : c.Linked) {R : Store (Relation τ)}
    (hR : ∀ s ∈ R.entries, ∃ r ∈ c.relations.entries, s.id = r.id ∧ s.pair = r.pair ∧
      s.type = r.type ∧ s.generated = r.generated) : Linked { c with relations := R } := by
  refine ⟨fun s hs => ?_, fun s hs => ?_, fun s hs t ht hst htype => ?_, fun s hs hg => ?_⟩
  · obtain ⟨r, hr, hid, hpair, htype, hg⟩ := hR s hs
    obtain ⟨hsource, htarget⟩ := Prod.mk.inj hpair
    rw [hid, hsource, htarget, htype, hg, h.canonical r hr]
  · obtain ⟨r, hr, -, hpair, -⟩ := hR s hs
    obtain ⟨hsource, htarget⟩ := Prod.mk.inj hpair
    exact hsource ▸ htarget ▸ h.ends r hr
  · obtain ⟨r, hr, hid, hpair, hrtype, -⟩ := hR s hs
    obtain ⟨q, hq, hid', hpair', hqtype, -⟩ := hR t ht
    refine Store.eq_of_key hs ht (hid.trans (Eq.trans ?_ hid'.symm))
    rw [h.single r hr q hq (hpair ▸ hpair' ▸ hst) (hrtype ▸ hqtype ▸ htype)]
  · obtain ⟨r, hr, -, -, htype, hgenerated⟩ := hR s hs
    exact htype.trans (h.generated r hr (hgenerated ▸ hg))

/-- A node that is added leaves its parent in debt. -/
theorem Owned.add (h : c.Owned D) (hp : c.Placed E) (ha : Adds n c d) (hf : ¬ c.hasNode n.id = true)
    (hd : d.relations = c.relations) :
    d.Owned { D with lacking := D.lacking ∪ {k | n.parent = some k} } := by
  have hform : ∀ k, c.hasNode k = true → d.form? k = c.form? k := fun k hk =>
    ha.form?_of_ne fun he => hf (he ▸ hk)
  have hends : ∀ r ∈ c.relations.entries, d.hasNode r.source = true ∧ d.hasNode r.target = true :=
    fun r hr =>
      ⟨ha.hasNode_iff.mpr (.inl (h.linked.ends r hr).1),
        ha.hasNode_iff.mpr (.inl (h.linked.ends r hr).2)⟩
  refine ⟨h.linked.restrict (hd ▸ fun r hr => hr) (hd ▸ hends), hd ▸ h.loose, ?_, ?_, ?_,
    hd ▸ h.unguarded, ?_⟩
  · rw [hd]
    intro r hr k hk
    obtain ⟨hx, hh, hne⟩ := h.bound r hr k hk
    obtain ⟨a, hmem⟩ := List.exists_mem_of_ne_nil _ hne
    exact ⟨hx, hh, List.ne_nil_of_mem (ha.mem_children.mpr (.inl hmem))⟩
  · intro k hk r hr hs
    rw [hd] at hr
    obtain ⟨hc, hl, hrt, hne⟩ := h.fit k hk r hr hs
    have hnode : c.hasNode k = true :=
      hasNode_of_contains (contains_iff_form?.mpr (by rw [hc]; rfl))
    exact ⟨(hform k hnode).trans hc, ha.mem_children.mpr (.inl hl),
      ha.mem_children.mpr (.inl hrt), hne⟩
  · intro k hk a b hrival
    rw [Set.mem_union, not_or] at hk
    have hchild : ∀ x, x ∈ d.children k → x ∈ c.children k := fun x hx =>
      (ha.mem_children.mp hx).resolve_right fun hx => hk.2 hx.2
    have hnode : c.hasNode k = true := by
      by_contra hnone
      have hleft := hchild a hrival.left
      rw [hp.children_eq_nil fun hc => hnone (hasNode_of_contains hc)] at hleft
      cases hleft
    rw [hd]
    exact h.full k hk.1 a b ⟨(hform k hnode).symm.trans hrival.choice, hchild a hrival.left,
      hchild b hrival.right, hrival.ne⟩
  · intro r hr ht hA
    rw [hd] at hr
    rw [hform _ (h.linked.ends r hr).2]
    exact h.landing r hr ht hA

/-- Nodes that are removed together with what is in them and with the relations at them leave no
debt behind. A container that is unfit has to be among them and to have no children. -/
theorem Owned.remove {R : Set String} (h : c.Owned D) (hr : Removes R c d)
    (hd : ∀ r, r ∈ d.relations.entries ↔ r ∈ c.relations.entries ∧ r.source ∉ R ∧ r.target ∉ R)
    (hu : ∀ k ∈ D.unfit, k ∈ R ∧ c.children k = []) : d.Owned { D with unfit := ∅ } := by
  have hfit : ∀ r ∈ d.relations.entries, ∀ k, r.scope = some k → d.Rivals k r.source r.target := by
    intro r hmem k hk
    obtain ⟨hmem, hsrc, htgt⟩ := (hd r).mp hmem
    have hD : k ∉ D.unfit := fun hD => h.children_ne_nil hmem hk (hu k hD).2
    obtain ⟨hc, hl, hrt, hne⟩ := h.fit k hD r hmem hk
    have hkR : k ∉ R := fun hkR => hsrc (hr.mem_of_children hl hkR)
    exact ⟨(hr.form?_of_not_mem hkR).trans hc, hr.mem_children.mpr ⟨hl, hsrc⟩,
      hr.mem_children.mpr ⟨hrt, htgt⟩, hne⟩
  refine ⟨h.linked.restrict (fun r hm => ((hd r).mp hm).1) ?_,
    fun r hm => h.loose r ((hd r).mp hm).1, ?_,
    fun k _ r hm => hfit r hm k, ?_, fun r hm => h.unguarded r ((hd r).mp hm).1, ?_⟩
  · intro r hm
    obtain ⟨hm, hsrc, htgt⟩ := (hd r).mp hm
    exact ⟨hr.hasNode_iff.mpr ⟨(h.linked.ends r hm).1, hsrc⟩,
      hr.hasNode_iff.mpr ⟨(h.linked.ends r hm).2, htgt⟩⟩
  · intro r hm k hk
    obtain ⟨hx, hh, _⟩ := h.bound r ((hd r).mp hm).1 k hk
    exact ⟨hx, hh, List.ne_nil_of_mem (hfit r hm k hk).left⟩
  · intro k hk a b hrival
    have hkR : k ∉ R := fun hkR => by
      have := hrival.choice
      rw [hr.form?_of_mem hkR] at this
      cases this
    obtain ⟨hl, haR⟩ := hr.mem_children.mp hrival.left
    obtain ⟨hrt, hbR⟩ := hr.mem_children.mp hrival.right
    obtain ⟨r, hm, hs, hpair⟩ := h.full k hk a b
      ⟨(hr.form?_of_not_mem hkR).symm.trans hrival.choice, hl, hrt, hrival.ne⟩
    obtain ⟨rfl, rfl⟩ := Prod.mk.inj hpair
    exact ⟨r, (hd r).mpr ⟨hm, haR, hbR⟩, hs, rfl⟩
  · intro r hm ht hA
    obtain ⟨hm, _, htgt⟩ := (hd r).mp hm
    rw [hr.form?_of_not_mem htgt]
    exact h.landing r hm ht hA

/-- A node that moves leaves the container it was in unfit and the one it enters lacking. -/
theorem Owned.move {p : Option String} (h : c.Owned D) (hp : c.Placed E) (hn : n ∈ c.nodes)
    (hu : ∀ k, n.parent = some k → k ∉ D.unfit) :
    (c.setParent n.id p).Owned
      { D with
        unfit := D.unfit ∪ {k | n.parent = some k}, lacking := D.lacking ∪ {k | p = some k} } := by
  have ha := hp.numbered.apart
  have hd : (c.setParent n.id p).relations = c.relations := by unfold setParent; split <;> rfl
  have hstay : ∀ {a k}, a ∈ c.children k → a ≠ n.id → a ∈ (c.setParent n.id p).children k :=
    fun hmem hne => (mem_children_setParent ha).mpr (.inr ⟨hne, hmem⟩)
  have hhere : ∀ {k}, n.id ∈ c.children k → n.parent = some k := fun hmem => by
    obtain ⟨m, hm, hid, hmp⟩ := mem_children.mp hmem
    exact ha.eq_of_id hm hn hid ▸ hmp
  refine ⟨h.linked.restrict (hd ▸ fun r hr => hr) (hd ▸ fun r hr => ?_), hd ▸ h.loose,
    hd ▸ fun r hr k hk => ?_, fun k hk r hr hs => ?_, fun k hk a b hrival => ?_, hd ▸ h.unguarded,
    hd ▸ fun r hr ht hA => ?_⟩
  · rw [hasNode_setParent ha, hasNode_setParent ha]
    exact h.linked.ends r hr
  · obtain ⟨hx, hh, hne⟩ := h.bound r hr k hk
    refine ⟨hx, hh, ?_⟩
    by_cases hpk : n.parent = some k
    · -- two rivals were there, and only one of them goes
      obtain ⟨_, hl, hrt, hdiff⟩ := h.fit k (hu k hpk) r hr hk
      by_cases hsrc : r.source = n.id
      · exact List.ne_nil_of_mem (hstay hrt fun he => hdiff (hsrc.trans he.symm))
      · exact List.ne_nil_of_mem (hstay hl hsrc)
    · obtain ⟨a, hmem⟩ := List.exists_mem_of_ne_nil _ hne
      exact List.ne_nil_of_mem (hstay hmem fun he => hpk (hhere (he ▸ hmem)))
  · rw [Set.mem_union, not_or] at hk
    rw [hd] at hr
    obtain ⟨hc, hl, hrt, hne⟩ := h.fit k hk.1 r hr hs
    exact ⟨(form?_setParent ha).trans hc, hstay hl fun he => hk.2 (hhere (he ▸ hl)),
      hstay hrt fun he => hk.2 (hhere (he ▸ hrt)), hne⟩
  · rw [Set.mem_union, not_or] at hk
    have hback : ∀ x, x ∈ (c.setParent n.id p).children k → x ∈ c.children k := fun x hx => by
      rcases (mem_children_setParent ha).mp hx with ⟨_, _, hpk⟩ | ⟨_, hx⟩
      · exact absurd hpk hk.2
      · exact hx
    rw [hd]
    exact h.full k hk.1 a b ⟨(form?_setParent ha).symm.trans hrival.choice, hback a hrival.left,
      hback b hrival.right, hrival.ne⟩
  · rw [form?_setParent ha]
    exact h.landing r hr ht hA

/-- Where nodes are drawn anew in their places, containers of another form are in debt. -/
theorem Owned.redraw (h : c.Owned D) (hs : d.skeleton = c.skeleton) (hd : d.relations = c.relations)
    (hf : ∀ k, k ∉ K → d.form? k = c.form? k) :
    d.Owned { unfit := D.unfit ∪ K, lacking := D.lacking ∪ K, astray := D.astray ∪ K } := by
  have hrival : ∀ {k a b}, k ∉ K → (d.Rivals k a b ↔ c.Rivals k a b) := fun hk =>
    ⟨fun ⟨hc, hl, hr, hne⟩ => ⟨(hf _ hk).symm.trans hc, (mem_children_of_skeleton hs).mp hl,
      (mem_children_of_skeleton hs).mp hr, hne⟩, fun ⟨hc, hl, hr, hne⟩ => ⟨(hf _ hk).trans hc,
      (mem_children_of_skeleton hs).mpr hl, (mem_children_of_skeleton hs).mpr hr, hne⟩⟩
  refine ⟨h.linked.restrict (hd ▸ fun r hr => hr) (hd ▸ fun r hr => ?_), hd ▸ h.loose,
    hd ▸ fun r hr k hk => ?_, fun k hk r hr hsc => ?_, fun k hk a b hab => ?_, hd ▸ h.unguarded,
    hd ▸ fun r hr ht hA => ?_⟩
  · rw [hasNode_of_skeleton hs, hasNode_of_skeleton hs]
    exact h.linked.ends r hr
  · obtain ⟨hx, hh, hne⟩ := h.bound r hr k hk
    exact ⟨hx, hh, fun hnil => hne ((children_nil_of_skeleton hs).mp hnil)⟩
  · rw [Set.mem_union, not_or] at hk
    exact (hrival hk.2).mpr (h.fit k hk.1 r (hd ▸ hr) hsc)
  · rw [Set.mem_union, not_or] at hk
    rw [hd]
    exact h.full k hk.1 a b ((hrival hk.2).mp hab)
  · rw [Set.mem_union, not_or] at hA
    rw [hf _ hA.2]
    exact h.landing r hr ht hA.1

section Rename

variable {old new : String} {form : ContainerForm}

theorem Linked.id_rename (hl : c.Linked) (hr : r ∈ c.relations.entries) : (r.rename old new).id =
    Relation.idFor (renameId old new r.source) (renameId old new r.target) r.type r.generated := by
  show (if r.touches old then _ else r.id) = _
  split
  · rfl
  · next ht =>
    rw [Relation.touches_iff, not_or] at ht
    rw [hl.canonical r hr, renameId_of_ne ht.1, renameId_of_ne ht.2]

/-- The store keeps its order when a container gets another id. -/
theorem Linked.rename (h : c.Linked) (hr : Renames old new form c d)
    (hd : ∀ s, s ∈ d.relations.entries ↔ ∃ r ∈ c.relations.entries, s = r.rename old new) :
    d.Linked := by
  refine ⟨fun s hs => ?_, fun s hs => ?_, fun s hs t ht hpair htype => ?_, fun s hs => ?_⟩
  · obtain ⟨r, hmem, rfl⟩ := (hd s).mp hs
    exact h.id_rename hmem
  · obtain ⟨r, hmem, rfl⟩ := (hd s).mp hs
    exact ⟨hr.hasNode_iff.mpr ⟨_, (h.ends r hmem).1, rfl⟩,
      hr.hasNode_iff.mpr ⟨_, (h.ends r hmem).2, rfl⟩⟩
  · obtain ⟨r, hmem, rfl⟩ := (hd s).mp hs
    obtain ⟨q, hq, rfl⟩ := (hd t).mp ht
    obtain ⟨hsrc, htgt⟩ := Prod.mk.inj hpair
    have hsrc := hr.injective (h.ends r hmem).1 (h.ends q hq).1 hsrc
    have htgt := hr.injective (h.ends r hmem).2 (h.ends q hq).2 htgt
    rw [h.single r hmem q hq (Prod.ext hsrc htgt) htype]
  · obtain ⟨r, hmem, rfl⟩ := (hd s).mp hs
    exact h.generated r hmem

/-- A choice under its own id lacks nothing that it did not lack before another one was renamed. -/
theorem Owned.full_rename (h : c.Owned D) (hr : Renames old new form c d)
    (hd : ∀ s, s ∈ d.relations.entries ↔ ∃ r ∈ c.relations.entries, s = r.rename old new)
    (hk : k ∉ D.lacking)
    (hnew : k ≠ new) {a b : String} (hrival : d.Rivals k a b) :
    ∃ r ∈ d.relations.entries, r.scope = some k ∧ r.pair = (a, b) := by
  obtain ⟨hc, hl, hrt, hne⟩ := hrival
  have hkold : k ≠ old := fun he => by
    rw [he, hr.form?_old] at hc
    cases hc
  have hback : ∀ x, x ∈ d.children k → ∃ b ∈ c.children k, x = renameId old new b := fun x hx => by
    obtain ⟨b, j, hb, rfl, hj⟩ := hr.mem_children.mp hx
    have hjold : j ≠ old := fun he => hnew (by rw [hj, he, renameId_old])
    rw [renameId_of_ne hjold] at hj
    exact ⟨b, hj ▸ hb, rfl⟩
  obtain ⟨a', ha', rfl⟩ := hback a hl
  obtain ⟨b', hb', rfl⟩ := hback b hrt
  rw [hr.form?_of_ne hnew hkold] at hc
  obtain ⟨r, hmem, hs, hpair⟩ := h.full k hk a' b' ⟨hc, ha', hb', fun he => hne (by rw [he])⟩
  obtain ⟨rfl, rfl⟩ := Prod.mk.inj hpair
  refine ⟨r.rename old new, (hd _).mpr ⟨r, hmem, rfl⟩, ?_, rfl⟩
  show r.scope.map _ = _
  rw [hs, Option.map_some, renameId_of_ne hkold]

/-- A container under another id is in debt as long as nobody has looked after it. -/
theorem Owned.rename (h : c.Owned { D with unfit := ∅ }) (hr : Renames old new form c d)
    (hd : ∀ s, s ∈ d.relations.entries ↔ ∃ r ∈ c.relations.entries, s = r.rename old new) :
    d.Owned { unfit := {new}, lacking := D.lacking ∪ {new}, astray := D.astray ∪ {new} } := by
  have hchild : ∀ {a k}, a ∈ c.children k → renameId old new a ∈ d.children (renameId old new k) :=
    fun hmem => hr.mem_children.mpr ⟨_, _, hmem, rfl, rfl⟩
  refine ⟨h.linked.rename hr hd, fun s hs hnone => ?_, fun s hs k hk => ?_,
    fun k hk s hs hsc => ?_, fun k hk a b hrival => ?_, fun s hs => ?_, fun s hs ht hA => ?_⟩
  · obtain ⟨r, hmem, rfl⟩ := (hd s).mp hs
    exact h.loose r hmem (Option.map_eq_none_iff.mp hnone)
  · obtain ⟨r, hmem, rfl⟩ := (hd s).mp hs
    obtain ⟨j, hj, rfl⟩ := Option.map_eq_some_iff.mp hk
    obtain ⟨hx, hh, hne⟩ := h.bound r hmem j hj
    obtain ⟨a, ha⟩ := List.exists_mem_of_ne_nil _ hne
    exact ⟨hx, hh, List.ne_nil_of_mem (hchild ha)⟩
  · obtain ⟨r, hmem, rfl⟩ := (hd s).mp hs
    obtain ⟨j, hj, rfl⟩ := Option.map_eq_some_iff.mp hsc
    obtain ⟨hc, hl, hrt, hne⟩ := h.fit j (by simp) r hmem hj
    have hjold : j ≠ old := fun he => hk (by rw [he, renameId_old]; rfl)
    have hends := h.linked.ends r hmem
    refine ⟨?_, hchild hl, hchild hrt, fun he => hne (hr.injective hends.1 hends.2 he)⟩
    rw [renameId_of_ne hjold] at hk ⊢
    exact (hr.form?_of_ne hk hjold).trans hc
  · rw [Set.mem_union, not_or] at hk
    exact h.full_rename hr hd hk.1 hk.2 hrival
  · obtain ⟨r, hmem, rfl⟩ := (hd s).mp hs
    exact h.unguarded r hmem
  · rw [Set.mem_union, not_or] at hA
    obtain ⟨r, hmem, rfl⟩ := (hd s).mp hs
    have hne : r.target ≠ old :=
      fun he => hA.2 (by show renameId old new r.target = new; rw [he, renameId_old])
    have htgt : (r.rename old new).target = r.target := renameId_of_ne hne
    rw [htgt] at hA ⊢
    rw [hr.form?_of_ne hA.2 hne]
    exact h.landing r hmem ht hA.1

end Rename

/-! ## Changes of relations -/

/-- Relations that belong to no container may go. -/
theorem Owned.discard (h : c.Owned D) {R : Store (Relation τ)}
    (hsub : ∀ r ∈ R.entries, r ∈ c.relations.entries)
    (hkeep : ∀ r ∈ c.relations.entries, r.scope.isSome → r ∈ R.entries) :
    Owned D { c with relations := R } where
  linked := h.linked.restrict hsub fun r hr => h.linked.ends r (hsub r hr)
  loose r hr := h.loose r (hsub r hr)
  bound r hr := h.bound r (hsub r hr)
  fit k hk r hr hs := rivals_withRelations.mpr (h.fit k hk r (hsub r hr) hs)
  full k hk a b hrival := by
    obtain ⟨r, hr, hs, hpair⟩ := h.full k hk a b (rivals_withRelations.mp hrival)
    exact ⟨r, hkeep r hr (by simp [hs]), hs, hpair⟩
  unguarded r hr := h.unguarded r (hsub r hr)
  landing r hr := h.landing r (hsub r hr)

/-- A relation that may be stored beside the others: it stands under the id of its type and ends and
was not generated, its ends are there, and no relation of its type joins them. -/
structure Linkable (c : Choreography τ) (r : Relation τ) : Prop where
  canonical : r.id = Relation.idFor r.source r.target r.type false
  source : c.hasNode r.source = true
  target : c.hasNode r.target = true
  single : ∀ s ∈ c.relations.entries, s.pair = r.pair → s.type ≠ r.type
  generated : r.generated = false

/-- Such a relation has an id to itself. -/
theorem Linkable.fresh {r : Relation τ} (hr : c.Linkable r) (hl : c.Linked)
    (hd : ∀ n ∈ c.nodes, Dashless n.id) : ∀ s ∈ c.relations.entries, s.id ≠ r.id := by
  intro s hs hid
  rw [hl.canonical s hs, hr.canonical] at hid
  have hdash : ∀ {a}, c.hasNode a = true → Dashless a := fun ha => by
    obtain ⟨n, hn, rfl⟩ := hasNode_iff.mp ha
    exact hd n hn
  obtain ⟨hg, h1, h2, ht⟩ := Relation.idFor_injective (hdash (hl.ends s hs).1) (hdash hr.source) hid
  exact hr.single s hs (Prod.ext h1 h2) (ht hg)

theorem Linkable.mem_insert {r : Relation τ} (hr : c.Linkable r) (hl : c.Linked)
    (hd : ∀ n ∈ c.nodes, Dashless n.id) :
    s ∈ (c.relations.insert r).entries ↔ s ∈ c.relations.entries ∨ s = r := by
  rw [Store.entries_insert_of_ne (hr.fresh hl hd), List.mem_append, List.mem_singleton]

theorem Linked.insert {r : Relation τ} (h : c.Linked) (hr : c.Linkable r)
    (hd : ∀ n ∈ c.nodes, Dashless n.id) :
    Linked { c with relations := c.relations.insert r } := by
  have hmem := fun s => hr.mem_insert (s := s) h hd
  refine ⟨fun s hs => ?_, fun s hs => ?_, fun s hs t ht hpair htype => ?_, fun s hs hg => ?_⟩
  · rcases (hmem s).mp hs with hs | rfl
    · exact h.canonical s hs
    · rw [hr.generated]; exact hr.canonical
  · rcases (hmem s).mp hs with hs | rfl
    · exact h.ends s hs
    · exact ⟨hr.source, hr.target⟩
  · rcases (hmem s).mp hs with hs | hs <;> rcases (hmem t).mp ht with ht | ht
    · exact h.single s hs t ht hpair htype
    · exact absurd (ht ▸ htype) (hr.single s hs (ht ▸ hpair))
    · exact absurd (hs ▸ htype.symm) (hr.single t ht (hs ▸ hpair.symm))
    · exact hs.trans ht.symm
  · rcases (hmem s).mp hs with hs | rfl
    · exact h.generated s hs hg
    · rw [hr.generated] at hg; cases hg

/-- A relation that a user may add: it belongs to no container, its ends are there, no relation of
its type joins them, and as a spawn it leads to a subprocess and has no guard. -/
structure Admissible (c : Choreography τ) (r : Relation τ) : Prop where
  canonical : r.id = Relation.idFor r.source r.target r.type false
  source : c.hasNode r.source = true
  target : c.hasNode r.target = true
  single : ∀ s ∈ c.relations.entries, s.pair = r.pair → s.type ≠ r.type
  scope : r.scope = none
  hidden : r.hidden = false
  generated : r.generated = false
  unguarded : r.type = .spawn → r.guard = ofText ""
  landing : r.type = .spawn → c.form? r.target = some .subprocess

theorem Admissible.linkable {r : Relation τ} (hr : c.Admissible r) : c.Linkable r :=
  ⟨hr.canonical, hr.source, hr.target, hr.single, hr.generated⟩

theorem Owned.admit (h : c.Owned D) (hp : c.Placed E) (hr : c.Admissible r) :
    Owned D { c with relations := c.relations.insert r } := by
  have hmem := fun s => hr.linkable.mem_insert (s := s) h.linked hp.numbered.dashless
  refine ⟨h.linked.insert hr.linkable hp.numbered.dashless, fun s hs hnone => ?_,
    fun s hs k hk => ?_, fun k hk s hs hsc => ?_, fun k hk a b hrival => ?_, fun s hs ht => ?_,
    fun s hs ht hA => ?_⟩
  · rcases (hmem s).mp hs with hs | rfl
    · exact h.loose s hs hnone
    · exact ⟨hr.hidden, hr.generated⟩
  · rcases (hmem s).mp hs with hs | rfl
    · exact h.bound s hs k hk
    · rw [hr.scope] at hk; cases hk
  · rcases (hmem s).mp hs with hs | rfl
    · exact rivals_withRelations.mpr (h.fit k hk s hs hsc)
    · rw [hr.scope] at hsc; cases hsc
  · obtain ⟨s, hs, hsc, hpair⟩ := h.full k hk a b (rivals_withRelations.mp hrival)
    exact ⟨s, (hmem s).mpr (.inl hs), hsc, hpair⟩
  · rcases (hmem s).mp hs with hs | rfl
    · exact h.unguarded s hs ht
    · exact hr.unguarded ht
  · rcases (hmem s).mp hs with hs | rfl
    · exact h.landing s hs ht hA
    · exact hr.landing ht

/-- Guards may change, but a spawn has none. -/
theorem Owned.reguard (h : c.Owned D) {f : Relation τ → Relation τ}
    {same : ∀ r, Keyed.key (f r) = Keyed.key r}
    (hf : ∀ r, f r = { r with guard := (f r).guard })
    (hs : ∀ r, r.type = .spawn → (f r).guard = ofText "") :
    Owned D { c with relations := c.relations.modify k f same } := by
  have hpick : ∀ s ∈ (c.relations.modify k f same).entries, ∃ r ∈ c.relations.entries,
      ∃ guard, s = { r with guard } ∧ (r.type = .spawn → guard = ofText "") := by
    intro s hmem
    obtain ⟨r, hr, rfl⟩ := Store.mem_modify.mp hmem
    split
    · exact ⟨r, hr, _, hf r, hs r⟩
    · exact ⟨r, hr, r.guard, rfl, h.unguarded r hr⟩
  have hkept : ∀ r ∈ c.relations.entries, ∃ s ∈ (c.relations.modify k f same).entries,
      s.scope = r.scope ∧ s.pair = r.pair := by
    intro r hr
    refine ⟨_, Store.mem_modify.mpr ⟨r, hr, rfl⟩, ?_⟩
    split
    · rw [hf r]; exact ⟨rfl, rfl⟩
    · exact ⟨rfl, rfl⟩
  refine ⟨h.linked.revise fun s hs => ?_, fun s hs => ?_, fun s hs k hk => ?_,
    fun k hk s hs hsc => ?_, fun k hk a b hrival => ?_, fun s hs => ?_, fun s hs => ?_⟩
  · obtain ⟨r, hr, _, rfl, _⟩ := hpick s hs
    exact ⟨r, hr, rfl, rfl, rfl, rfl⟩
  · obtain ⟨r, hr, _, rfl, _⟩ := hpick s hs
    exact h.loose r hr
  · obtain ⟨r, hr, _, rfl, _⟩ := hpick s hs
    exact h.bound r hr k hk
  · obtain ⟨r, hr, _, rfl, _⟩ := hpick s hs
    exact rivals_withRelations.mpr (h.fit k hk r hr hsc)
  · obtain ⟨r, hr, hsc, hpair⟩ := h.full k hk a b (rivals_withRelations.mp hrival)
    obtain ⟨s, hs, hscope, hends⟩ := hkept r hr
    exact ⟨s, hs, hscope.trans hsc, hends.trans hpair⟩
  · obtain ⟨r, hr, _, rfl, hg⟩ := hpick s hs
    exact hg
  · obtain ⟨r, hr, _, rfl, _⟩ := hpick s hs
    exact h.landing r hr

end Dcr.Choreography
