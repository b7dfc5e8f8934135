import Dcr.Proofs.Settling

/-! The upkeep of one container while others may be out of order. Whatever the relations are, it
only makes some plain, holds some and makes new ones. Where ids of generated exclusions are not taken
otherwise, the container ends with the exclusions it should have, and the other containers keep
theirs; so once all containers have been settled, in any order, each has what it should. -/

namespace Dcr.Choreography

open Upkeep (made)

variable {τ : Type} [FreeText τ] {c : Choreography τ} {u : Upkeep τ} {j k : String}
  {p : String × String} {r s : Relation τ}

/-! ## What both passes keep -/

/-- What the first pass keeps, and the second one for each wanted pair, the upkeep keeps. -/
theorem upkeep_rule {P : Store (Relation τ) → Prop} (h : P c.relations)
    (hreview : ∀ (u : Upkeep τ) r, P u.relations → P (u.review r).relations)
    (hsupply : ∀ (u : Upkeep τ), ∀ p ∈ orderedPairs (c.rivals k), P u.relations →
      P (u.supply k p).relations) : P (c.upkeep k).relations := by
  have hreviewed : ∀ (todo : List (Relation τ)) (u : Upkeep τ), P u.relations →
      P (todo.foldl Upkeep.review u).relations ∧
        ∀ q ∈ (todo.foldl Upkeep.review u).lacking, q ∈ u.lacking := by
    intro todo
    induction todo with
    | nil => exact fun u hu => ⟨hu, fun _ hq => hq⟩
    | cons r rest ih =>
      intro u hu
      obtain ⟨hP, hsub⟩ := ih (u.review r) (hreview u r hu)
      refine ⟨hP, fun q hq => ?_⟩
      have hq := hsub q hq
      rw [lacking_review] at hq
      exact List.mem_of_mem_filter hq
  obtain ⟨hP, hsub⟩ := hreviewed (c.scopedTo k)
    { relations := c.relations, lacking := orderedPairs (c.rivals k) } h
  unfold upkeep
  generalize (c.scopedTo k).foldl Upkeep.review
    { relations := c.relations, lacking := orderedPairs (c.rivals k) } = v at hP hsub
  exact List.foldlRecOn v.lacking _ (motive := fun u => P u.relations) hP
    fun u hu q hq => hsupply u q (hsub q hq) hu

theorem forall_review {Q : Relation τ → Prop} (h : ∀ s ∈ u.relations.entries, Q s)
    (hplain : ∀ s, Q s → Q (plain s)) : ∀ s ∈ (u.review r).relations.entries, Q s := by
  unfold Upkeep.review
  split
  · exact h
  · split
    · exact fun s hs => h s (Store.mem_erase.mp hs).1
    · exact Store.forall_modified h fun s _ hs => hplain s hs

theorem forall_supply {Q : Relation τ → Prop} (h : ∀ s ∈ u.relations.entries, Q s)
    (hheld : ∀ s, s.type = .exclusion → s.pair = p → Q s → Q (held k s)) (hmade : Q (made k p)) :
    ∀ s ∈ (u.supply k p).relations.entries, Q s := by
  unfold Upkeep.supply
  split
  · next r hfind =>
    obtain ⟨hpair, htype⟩ := Relation.joins_iff.mp
      (List.find?_some (p := fun r : Relation τ => r.joins p.1 p.2 .exclusion) hfind)
    intro s hs
    obtain ⟨q, hq, rfl⟩ := List.mem_map.mp hs
    split
    · next hid =>
      obtain rfl := Store.eq_of_key hq (List.mem_of_find?_eq_some hfind) (beq_iff_eq.mp hid)
      exact hheld q htype hpair (h q hq)
    · exact h q hq
  · intro s hs
    rcases Store.mem_insert hs with rfl | hs
    · exact hmade
    · exact h s hs

/-- What holds of all relations, of those made plain or held, and of those made, holds of all of
them after the upkeep. -/
theorem forall_upkeep {Q : Relation τ → Prop} (h : ∀ r ∈ c.relations.entries, Q r)
    (hplain : ∀ r, Q r → Q (plain r))
    (hheld : ∀ r, r.type = .exclusion → r.pair ∈ orderedPairs (c.rivals k) → Q r → Q (held k r))
    (hmade : ∀ p ∈ orderedPairs (c.rivals k), Q (made k p)) :
    ∀ r ∈ (c.upkeep k).relations.entries, Q r :=
  upkeep_rule (P := fun R => ∀ r ∈ R.entries, Q r) h (fun _ _ hu => forall_review hu hplain)
    fun _ p hp hu => forall_supply hu (fun r ht hr => hheld r ht (hr ▸ hp)) (hmade p hp)

/-- The ends of relations are still there. -/
theorem ends_upkeep
    (h : ∀ r ∈ c.relations.entries, c.hasNode r.source = true ∧ c.hasNode r.target = true)
    (k : String) :
    ∀ r ∈ (c.upkeep k).relations.entries, c.hasNode r.source = true ∧ c.hasNode r.target = true :=
  forall_upkeep (Q := fun r => c.hasNode r.source = true ∧ c.hasNode r.target = true)
    h (fun _ hr => hr) (fun _ _ _ hr => hr) fun _ hp =>
      have hrivals := mem_orderedPairs_rivals.mp hp
      ⟨hasNode_of_mem_children hrivals.left, hasNode_of_mem_children hrivals.right⟩

theorem Single.modify {R : Store (Relation τ)} (h : Single R) {id : String}
    {f : Relation τ → Relation τ} (same : ∀ r, Keyed.key (f r) = Keyed.key r)
    (hf : ∀ r, Alike (f r) r) : Single (R.modify id f same) := by
  intro r hr s hs hpair htype
  obtain ⟨q, hq, rfl⟩ := Store.mem_modify.mp hr
  obtain ⟨t, ht, rfl⟩ := Store.mem_modify.mp hs
  have hsame : ∀ q : Relation τ, Alike (if Keyed.key q = id then f q else q) q := by
    intro q
    split
    · exact hf q
    · rfl
  rw [(hsame q).pair, (hsame t).pair] at hpair
  rw [(hsame q).type, (hsame t).type] at htype
  rw [h q hq t ht hpair htype]

theorem single_upkeep (h : Single c.relations) (k : String) : Single (c.upkeep k).relations := by
  refine upkeep_rule (P := Single) h (fun u r hu => ?_) fun u p _ hu => ?_
  · unfold Upkeep.review
    split
    · exact hu
    · split
      · exact fun q hq s hs => hu q (Store.mem_erase.mp hq).1 s (Store.mem_erase.mp hs).1
      · exact hu.modify (f := plain) (fun _ => rfl) fun _ => rfl
  · unfold Upkeep.supply
    split
    · exact hu.modify (f := held k) (fun _ => rfl) fun _ => rfl
    · next hfind =>
      -- nothing joins the pair for which a relation is made
      have hnone : ∀ r ∈ u.relations.entries, r.pair = p → r.type ≠ .exclusion :=
        fun r hr hp ht => List.find?_eq_none.mp hfind r hr (Relation.joins_iff.mpr ⟨hp, ht⟩)
      intro r hr s hs hpair htype
      rcases Store.mem_insert hr with rfl | hr <;> rcases Store.mem_insert hs with rfl | hs
      · rfl
      · exact absurd htype.symm (hnone s hs hpair.symm)
      · exact absurd htype (hnone r hr hpair)
      · exact hu r hr s hs hpair htype

/-! ## What becomes of a relation -/

/-- A relation stays when a pair is supplied, or is held for the pair, unless it stands under the id
of the exclusion that is made and is not that exclusion. -/
theorem exists_supply (hs : s ∈ u.relations.entries) (k : String) (p : String × String) :
    (∃ t ∈ (u.supply k p).relations.entries,
        t = s ∨ (t = held k s ∧ s.joins p.1 p.2 .exclusion = true)) ∨
      (s.id = Relation.idFor p.1 p.2 .exclusion true ∧ ¬ s.joins p.1 p.2 .exclusion = true) := by
  unfold Upkeep.supply
  split
  · next q hfind =>
    have hq := List.mem_of_find?_eq_some hfind
    have hmem : (if s.id = q.id then held k s else s) ∈
        (u.relations.modify q.id (held k) fun _ => rfl).entries := Store.mem_modify.mpr ⟨s, hs, rfl⟩
    refine .inl ⟨_, hmem, ?_⟩
    split
    · next hid =>
      obtain rfl := Store.eq_of_key hs hq hid
      have hjoins := List.find?_some (p := fun r : Relation τ => r.joins p.1 p.2 .exclusion) hfind
      exact .inr ⟨rfl, hjoins⟩
    · exact .inl rfl
  · next hfind =>
    by_cases hid : s.id = Relation.idFor p.1 p.2 .exclusion true
    · exact .inr ⟨hid, List.find?_eq_none.mp hfind s hs⟩
    · exact .inl ⟨s, Store.mem_insert_iff.mpr (.inr ⟨hs, hid⟩), .inl rfl⟩

/-- What may become of a relation when a container is looked after. It stays, apart from what it
belongs to; or it belonged to the container, was generated, and is not wanted; or another exclusion
is made under its id. -/
inductive UpkeepFate (c : Choreography τ) (k : String) (r : Relation τ)
    (R : Store (Relation τ)) : Prop
  | kept {s : Relation τ} (there : s ∈ R.entries) (alike : Alike s r)
      (scope : s.scope = r.scope ∨ (s.scope = none ∧ r.generated = false) ∨
        (s.scope = some k ∧ r.type = .exclusion ∧ c.Rivals k r.source r.target))
  | unwanted (scope : r.scope = some k) (generated : r.generated = true)
      (fits : ¬ (r.type = .exclusion ∧ c.Rivals k r.source r.target))
  | replaced {a b : String} (rivals : c.Rivals k a b)
      (id : r.id = Relation.idFor a b .exclusion true) (other : ¬ r.joins a b .exclusion = true)

/-- The first pass keeps a relation, or takes it away as one that is not wanted. -/
theorem upkeepFate_of_revised {R : Store (Relation τ)}
    (hR : R.entries = c.relations.entries.filterMap (revised k (orderedPairs (c.rivals k))))
    (hr : r ∈ c.relations.entries) : UpkeepFate c k r R := by
  cases hrevised : revised k (orderedPairs (c.rivals k)) r with
  | none =>
    unfold revised at hrevised
    split at hrevised
    · next hscope =>
      unfold reviewed at hrevised
      split at hrevised
      · cases hrevised
      · next hout =>
        split at hrevised
        · next hgenerated =>
          exact .unwanted hscope hgenerated fun ⟨ht, hab⟩ =>
            hout ⟨ht, mem_orderedPairs_rivals.mpr hab⟩
        · cases hrevised
    · cases hrevised
  | some s =>
    refine .kept (hR ▸ List.mem_filterMap.mpr ⟨r, hr, hrevised⟩) (alike_of_revised hrevised) ?_
    unfold revised reviewed at hrevised
    split at hrevised
    · split at hrevised
      · cases hrevised; exact .inl rfl
      · split at hrevised
        · cases hrevised
        · next hgenerated => cases hrevised; exact .inr (.inl ⟨rfl, by simpa using hgenerated⟩)
    · cases hrevised; exact .inl rfl

/-- The supply of a wanted pair keeps a relation, or makes another one under its id. -/
theorem UpkeepFate.supply (h : UpkeepFate c k r u.relations) (hp : c.Rivals k p.1 p.2) :
    UpkeepFate c k r (u.supply k p).relations := by
  cases h with
  | unwanted hscope hgenerated hfits => exact .unwanted hscope hgenerated hfits
  | replaced hab hid hother => exact .replaced hab hid hother
  | @kept s hs halike hscope =>
    rcases exists_supply hs k p with ⟨t, ht, rfl | ⟨rfl, hjoins⟩⟩ | ⟨hid, hjoins⟩
    · exact .kept ht halike hscope
    · rw [halike.joins_eq] at hjoins
      obtain ⟨hpair, htype⟩ := Relation.joins_iff.mp hjoins
      obtain rfl : r.pair = p := hpair
      exact .kept ht halike (.inr (.inr ⟨rfl, htype, hp⟩))
    · exact .replaced hp (halike.id ▸ hid) (halike.joins_eq .. ▸ hjoins)

theorem upkeepFate (hone : SingleIn c.relations.entries) (hr : r ∈ c.relations.entries)
    (k : String) : UpkeepFate c k r (c.upkeep k).relations := by
  obtain ⟨hentries, hlacking⟩ := foldl_review_scopedTo k (orderedPairs (c.rivals k)) hone
  unfold upkeep
  generalize (c.scopedTo k).foldl Upkeep.review _ = u at hentries hlacking
  refine List.foldlRecOn u.lacking (Upkeep.supply k)
    (motive := fun v => UpkeepFate c k r v.relations) (upkeepFate_of_revised hentries hr) ?_
  intro v hv p hp
  exact hv.supply (mem_orderedPairs_rivals.mp (mem_openPairs.mp (hlacking ▸ hp)).1)

/-! ## Containers with what they should have -/

/-- A container with children that owns the exclusions of its rivals and nothing else. -/
structure Upkept (c : Choreography τ) (k : String) : Prop where
  inhabited : c.children k ≠ []
  exclusions : ∀ r ∈ c.relations.entries, r.scope = some k → r.type = .exclusion
  fits : c.Fits k
  full : c.Full k

theorem Upkept.revised_eq (h : c.Upkept k) (hr : r ∈ c.relations.entries) :
    revised k (orderedPairs (c.rivals k)) r = some r := by
  unfold revised
  split
  · next hs =>
    exact if_pos ⟨h.exclusions r hr hs, mem_orderedPairs_rivals.mpr (h.fits r hr hs)⟩
  · rfl

theorem Upkept.openPairs_eq_nil (h : c.Upkept k) :
    openPairs c k (orderedPairs (c.rivals k)) = [] := by
  refine List.eq_nil_iff_forall_not_mem.mpr fun p hp => ?_
  obtain ⟨hwanted, hopen⟩ := mem_openPairs.mp hp
  obtain ⟨r, hr, hs, hpair⟩ := h.full p.1 p.2 (mem_orderedPairs_rivals.mp hwanted)
  exact hopen r hr hs (h.exclusions r hr hs) hpair

/-- Upkeep has nothing to do for such a container. -/
theorem Upkept.relations_upkeep (h : c.Upkept k) (hone : SingleIn c.relations.entries) :
    (c.upkeep k).relations = c.relations := by
  obtain ⟨hentries, hlacking⟩ := foldl_review_scopedTo k (orderedPairs (c.rivals k)) hone
  rw [h.openPairs_eq_nil] at hlacking
  rw [List.filterMap_congr fun r hr => h.revised_eq hr, List.filterMap_some] at hentries
  show (((c.scopedTo k).foldl Upkeep.review _).lacking.foldl (Upkeep.supply k) _).relations = _
  rw [hlacking]
  exact Store.ext hentries

/-- Where nothing is in debt, a container with children has what it should. -/
theorem Orderly.upkept {E A : Set String} (h : c.Orderly E ⟨∅, ∅, A⟩) (hc : c.children k ≠ []) :
    c.Upkept k where
  inhabited := hc
  exclusions r hr hs := (h.owned.bound r hr k hs).1
  fits := h.owned.fit k (Set.notMem_empty k)
  full := h.owned.full k (Set.notMem_empty k)

theorem Orderly.tended_eq {E A : Set String} (h : c.Orderly E ⟨∅, ∅, A⟩) (hc : c.children k ≠ []) :
    c.tended k = c := by
  rw [Choreography.tended, (h.upkept hc).relations_upkeep h.owned.linked.singleIn]

/-- The notices of an upkeep are for debugging only. -/
theorem debug_upkeep (c : Choreography τ) (k : String) :
    ∀ n ∈ (c.upkeep k).notices k, n.level = .debug := by
  intro n hn
  unfold Upkeep.notices at hn
  split at hn
  · cases hn
  · rw [List.mem_singleton.mp hn]
    rfl

/-- What a relation may be after the upkeep of a container. -/
theorem scope_cases_upkeep (hone : SingleIn c.relations.entries) (ha : c.Apart)
    (hmake : Makeable c.relations.entries (orderedPairs (c.rivals k)))
    (hs : s ∈ (c.upkeep k).relations.entries) :
    (s ∈ c.relations.entries ∧ s.scope ≠ some k) ∨ s.scope = none ∨
      (s.scope = some k ∧ s.type = .exclusion ∧ s.pair ∈ orderedPairs (c.rivals k)) := by
  rw [entries_passes hone (nodup_orderedPairs ha.nodup_rivals) hmake] at hs
  rcases List.mem_append.mp hs with hs | hs
  · obtain ⟨q, hq, rfl⟩ := List.mem_map.mp hs
    obtain ⟨r, hr, hrq⟩ := List.mem_filterMap.mp hq
    split
    · next hcond => exact .inr (.inr ⟨rfl, hcond.1, (mem_openPairs.mp hcond.2).1⟩)
    · unfold revised at hrq
      split at hrq
      · next hscope =>
        unfold reviewed at hrq
        split at hrq
        · next hkept => cases hrq; exact .inr (.inr ⟨hscope, hkept⟩)
        · split at hrq <;> cases hrq
          exact .inr (.inl rfl)
      · next hscope => cases hrq; exact .inl ⟨hr, hscope⟩
  · obtain ⟨p, hp, rfl⟩ := List.mem_map.mp hs
    exact .inr (.inr ⟨rfl, rfl, (mem_openPairs.mp (List.mem_of_mem_filter hp)).1⟩)

theorem upkept_withRelations {R : Store (Relation τ)} (hc : c.children k ≠ [])
    (hfits : ∀ r ∈ R.entries, r.scope = some k → r.type = .exclusion ∧
      r.pair ∈ orderedPairs (c.rivals k))
    (hfull : ∀ p ∈ orderedPairs (c.rivals k), ∃ r ∈ R.entries, r.scope = some k ∧ r.pair = p) :
    Upkept { c with relations := R } k where
  inhabited := hc
  exclusions r hr hs := (hfits r hr hs).1
  fits r hr hs := rivals_withRelations.mpr (mem_orderedPairs_rivals.mp (hfits r hr hs).2)
  full a b hab := hfull (a, b) (mem_orderedPairs_rivals.mpr (rivals_withRelations.mp hab))

/-- After its upkeep a container has what it should. -/
theorem upkept_tended (hone : SingleIn c.relations.entries) (ha : c.Apart)
    (hmake : Makeable c.relations.entries (orderedPairs (c.rivals k))) (hc : c.children k ≠ []) :
    (c.tended k).Upkept k := by
  refine upkept_withRelations hc (fun s hs hk => ?_) fun p hp => ?_
  · rcases scope_cases_upkeep hone ha hmake hs with ⟨_, hne⟩ | hnone | ⟨_, hwanted⟩
    · exact absurd hk hne
    · rw [hnone] at hk
      cases hk
    · exact hwanted
  · rw [entries_passes hone (nodup_orderedPairs ha.nodup_rivals) hmake]
    by_cases hopen : p ∈ openPairs c k (orderedPairs (c.rivals k))
    · by_cases hjoins : (c.relations.entries.filterMap (revised k (orderedPairs (c.rivals k)))).any
          fun r => r.joins p.1 p.2 .exclusion
      · -- an exclusion of the pair is there and gets held
        obtain ⟨r, hr, hjoins⟩ := List.any_eq_true.mp hjoins
        obtain ⟨hpair, htype⟩ := Relation.joins_iff.mp hjoins
        have hpair : r.pair = p := hpair
        refine ⟨held k r, List.mem_append_left _ (List.mem_map.mpr ⟨r, hr, ?_⟩), rfl, hpair⟩
        exact if_pos ⟨htype, hpair ▸ hopen⟩
      · refine ⟨made k p, List.mem_append_right _ (List.mem_map_of_mem ?_), rfl, rfl⟩
        exact List.mem_filter.mpr ⟨hopen, by simpa using hjoins⟩
    · -- the container owns the exclusion of the pair already
      have howned : ∃ r ∈ c.relations.entries, r.scope = some k ∧ r.type = .exclusion ∧
          r.pair = p := by
        by_contra hnone
        exact hopen (mem_openPairs.mpr
          ⟨hp, fun r hr hs ht hpair => hnone ⟨r, hr, hs, ht, hpair⟩⟩)
      obtain ⟨r, hr, hs, ht, rfl⟩ := howned
      refine ⟨r, List.mem_append_left _ (List.mem_map.mpr ⟨r, List.mem_filterMap.mpr ⟨r, hr, ?_⟩,
        if_neg fun hcond => hopen hcond.2⟩), hs, rfl⟩
      exact (if_pos hs).trans (if_pos ⟨ht, hp⟩)

/-- The upkeep of a container leaves another one with what it should have. -/
theorem Upkept.tended (h : c.Upkept j) (hone : SingleIn c.relations.entries) (ha : c.Apart)
    (hmake : Makeable c.relations.entries (orderedPairs (c.rivals k))) (hjk : j ≠ k) :
    (c.tended k).Upkept j := by
  refine upkept_withRelations h.inhabited (fun s hs hj => ?_) fun p hp => ?_
  · rcases scope_cases_upkeep hone ha hmake hs with ⟨hs, _⟩ | hnone | ⟨hk, _⟩
    · exact ⟨h.exclusions s hs hj, mem_orderedPairs_rivals.mpr (h.fits s hs hj)⟩
    · rw [hnone] at hj
      cases hj
    · exact absurd (Option.some.inj (hj.symm.trans hk)) hjk
  · obtain ⟨r, hr, hs, hpair⟩ := h.full p.1 p.2 (mem_orderedPairs_rivals.mp hp)
    have hrevised : revised k (orderedPairs (c.rivals k)) r = some r :=
      if_neg fun hk => hjk (Option.some.inj (hs.symm.trans hk))
    -- no pair has two parents in common
    have hout : ¬ (r.type = .exclusion ∧ r.pair ∈ openPairs c k (orderedPairs (c.rivals k))) := by
      rintro ⟨_, hopen⟩
      have hleft := mem_orderedPairs_rivals.mp (mem_openPairs.mp hopen).1
      rw [hpair] at hleft
      exact hjk (ha.parent_unique (mem_orderedPairs_rivals.mp hp).left hleft.left)
    rw [entries_passes hone (nodup_orderedPairs ha.nodup_rivals) hmake]
    exact ⟨r, List.mem_append_left _ (List.mem_map.mpr ⟨r, List.mem_filterMap.mpr ⟨r, hr, hrevised⟩,
      if_neg hout⟩), hs, hpair⟩

/-- A container that goes leaves those with what they should have that it was not in. -/
theorem Upkept.drop {x : Container τ} {id : String} (h : c.Upkept j) (ha : c.Apart)
    (hx : c.containers.get? id = some x) (hc : c.children id = []) (hj : x.parent ≠ some j) :
    (c.dropContainer x).Upkept j := by
  have hr := removes_dropContainer ha hx hc
  obtain ⟨hmem, rfl⟩ := get?_container_iff.mp hx
  -- the container that goes is no child of this one
  have hchild : ∀ a ∈ c.children j, a ≠ x.id := by
    rintro a ha' rfl
    obtain ⟨n, hn, hid, hp⟩ := mem_children.mp ha'
    rw [ha.eq_of_id hn hmem hid] at hp
    exact hj hp
  have hne : j ≠ x.id := fun he => h.inhabited (he ▸ hc)
  have hrivals : ∀ a b, (c.dropContainer x).Rivals j a b ↔ c.Rivals j a b := by
    intro a b
    have hiff : ∀ a, a ∈ (c.dropContainer x).children j ↔ a ∈ c.children j := fun a =>
      hr.mem_children.trans (and_iff_left_of_imp fun ha' => hchild a ha')
    refine ⟨fun ⟨hk, ha, hb, hab⟩ => ⟨?_, (hiff a).mp ha, (hiff b).mp hb, hab⟩,
      fun ⟨hk, ha, hb, hab⟩ => ⟨?_, (hiff a).mpr ha, (hiff b).mpr hb, hab⟩⟩
    · rwa [hr.form?_of_not_mem hne] at hk
    · rwa [hr.form?_of_not_mem hne]
  have hsub : ∀ r ∈ (c.dropContainer x).relations.entries, r ∈ c.relations.entries :=
    fun r hr => List.mem_of_mem_filter hr
  refine ⟨fun hnil => ?_, fun r hr => h.exclusions r (hsub r hr),
    fun r hr hs => (hrivals _ _).mpr (h.fits r (hsub r hr) hs), fun a b hab => ?_⟩
  · obtain ⟨a, ha'⟩ := List.exists_mem_of_ne_nil _ h.inhabited
    have hmem := hr.mem_children.mpr ⟨ha', hchild a ha'⟩
    rw [hnil] at hmem
    cases hmem
  · have hab := (hrivals a b).mp hab
    obtain ⟨r, hmem, hs, hpair⟩ := h.full a b hab
    have hsource : r.source = a := congrArg Prod.fst hpair
    have htarget : r.target = b := congrArg Prod.snd hpair
    have htouch : ¬ r.touches x.id = true := by
      rw [Relation.touches_iff, hsource, htarget, not_or]
      exact ⟨hchild a hab.left, hchild b hab.right⟩
    exact ⟨r, List.mem_filter.mpr ⟨hmem, by simpa using htouch⟩, hs, hpair⟩

/-! ## Containers settled -/

theorem mem_relations_dropContainer {x : Container τ}
    (hr : r ∈ (c.dropContainer x).relations.entries) :
    r ∈ c.relations.entries ∧ r.source ≠ x.id ∧ r.target ≠ x.id := by
  obtain ⟨hr, htouch⟩ := List.mem_filter.mp hr
  have htouch : ¬ r.touches x.id = true := by simpa using htouch
  rw [Relation.touches_iff, not_or] at htouch
  exact ⟨hr, htouch⟩

theorem Reserved.tended (h : c.Reserved) (hd : ∀ n ∈ c.nodes, Dashless n.id) (k : String) :
    (c.tended k).Reserved := by
  refine forall_upkeep (Q := fun r => ∀ a b, Dashless a → Dashless b →
    r.id = Relation.idFor a b .exclusion true → r.joins a b .exclusion = true) h
    (fun _ hr => hr) (fun _ _ _ hr => hr) fun p hp a b ha _ hid => ?_
  have hid : Relation.idFor p.1 p.2 .exclusion true = Relation.idFor a b .exclusion true := hid
  obtain ⟨_, rfl, rfl, _⟩ := Relation.idFor_injective (dashless_of_rivals hd hp).1 ha hid
  exact Relation.joins_iff.mpr ⟨rfl, rfl⟩

/-- Ids of generated exclusions are not taken otherwise, and every container has what it should,
some excepted. -/
structure Steady (T : Set String) (c : Choreography τ) : Prop where
  dashless : ∀ n ∈ c.nodes, Dashless n.id
  apart : c.Apart
  single : Single c.relations
  reserved : c.Reserved
  upkept : ∀ k, c.containers.contains k = true → k ∉ T → c.Upkept k

variable {S T : Set String} {id : String} {x : Container τ}

theorem Steady.tended (h : c.Steady (insert id T)) (hc : c.children id ≠ []) :
    (c.tended id).Steady T where
  dashless := h.dashless
  apart := h.apart
  single := single_upkeep h.single id
  reserved := h.reserved.tended h.dashless id
  upkept k hk hT := by
    have hmake := h.reserved.makeable h.dashless id
    by_cases hid : k = id
    · subst hid
      exact upkept_tended h.single.singleIn h.apart hmake hc
    · exact (h.upkept k hk fun hk => hk.elim hid hT).tended h.single.singleIn h.apart hmake hid

/-- A container that goes leaves its parent to be looked after. -/
theorem Steady.drop (h : c.Steady (insert id T)) (hx : c.containers.get? id = some x)
    (hc : c.children id = []) : (c.dropContainer x).Steady (T ∪ {k | x.parent = some k}) := by
  have hr := removes_dropContainer h.apart hx hc
  have hsub : ∀ r ∈ (c.dropContainer x).relations.entries, r ∈ c.relations.entries :=
    fun r hr => (mem_relations_dropContainer hr).1
  refine ⟨fun n hn => h.dashless n ((hr.mem n).mp hn).1, hr.apart h.apart,
    fun r hr s hs => h.single r (hsub r hr) s (hsub s hs), fun r hr => h.reserved r (hsub r hr),
    fun k hk hout => ?_⟩
  rw [Set.mem_union, not_or] at hout
  have hid : k ∉ ({id} : Set String) := fun hid => by
    rw [contains_iff_form?, hr.form?_of_mem hid] at hk
    cases hk
  have hk' : c.containers.contains k = true := by
    rwa [contains_iff_form?, hr.form?_of_not_mem hid, ← contains_iff_form?] at hk
  exact (h.upkept k hk' fun hk => hk.elim hid hout.1).drop h.apart hx hc hout.2

theorem Steady.mono (h : c.Steady S) (hsub : ∀ k ∈ S, c.containers.contains k = true → k ∈ T) :
    c.Steady T :=
  { h with upkept := fun k hk hT => h.upkept k hk fun hS => hT (hsub k hS hk) }

/-- Settling a container puts it in order, or the first one above it that stays. -/
theorem Steady.settle (h : c.Steady (insert id T)) : (c.settle id).value.1.Steady T := by
  refine settle_rule (P := fun id c => Steady (insert id T) c) ?_ (fun _ _ h hc => h.tended hc)
    (fun id c x h hx hc hp => ?_) (fun id c x p h hx hc hp => ?_) h
  · intro id c h hnone
    refine h.mono fun k hk hcontains => hk.elim (fun hid => ?_) fun hT => hT
    rw [hid, Store.contains, hnone] at hcontains
    cases hcontains
  · refine (h.drop hx hc).mono fun k hk _ => hk.elim (fun hT => hT) fun hk => ?_
    rw [Set.mem_ofPred_eq, hp] at hk
    cases hk
  · refine (h.drop hx hc).mono fun k hk _ => hk.elim .inr fun hk => .inl ?_
    rw [Set.mem_ofPred_eq, hp] at hk
    exact (Option.some.inj hk).symm

theorem Steady.settleAll {ids : List String} (h : c.Steady {k | k ∈ ids}) :
    (c.settleAll ids).value.1.Steady ∅ := by
  induction ids generalizing c with
  | nil => exact h.mono fun k hk _ => absurd hk List.not_mem_nil
  | cons id rest ih =>
    exact ih (Steady.settle (h.mono fun k hk _ => List.mem_cons.mp hk))

/-- At the start every container may be out of order. -/
theorem steady_keys (hd : ∀ n ∈ c.nodes, Dashless n.id) (ha : c.Apart)
    (hsingle : Single c.relations) (hreserved : c.Reserved) :
    c.Steady {k | k ∈ c.containers.keys} :=
  ⟨hd, ha, hsingle, hreserved, fun _ hk hout => absurd (Store.mem_keys.mpr hk) hout⟩

end Dcr.Choreography
