import Dcr.Proofs.Relations

/-! The upkeep of a choice in one equation. Reviewing what a container owns and supplying what it
lacks amounts to one pass over the store (`tend`) and one new relation for each pair that no
exclusion joins; later proofs use the equation and never the two folds. -/

namespace Dcr.Choreography

open Upkeep (made)

variable {τ : Type} [FreeText τ] {c : Choreography τ} {owner : String}
  {wanted : List (String × String)} {r s : Relation τ}

/-! ## Pairs of rivals -/

theorem mem_orderedPairs {members : List String} {p : String × String} :
    p ∈ orderedPairs members ↔ p.1 ∈ members ∧ p.2 ∈ members ∧ p.1 ≠ p.2 := by
  obtain ⟨a, b⟩ := p
  simp only [orderedPairs, List.mem_flatMap, List.mem_map, List.mem_filter, bne_iff_ne,
    Prod.mk.injEq]
  constructor
  · intro h
    obtain ⟨x, hx, y, ⟨hy, hne⟩, rfl, rfl⟩ := h
    exact ⟨hx, hy, Ne.symm hne⟩
  · intro ⟨ha, hb, hne⟩
    exact ⟨a, ha, b, ⟨hb, Ne.symm hne⟩, rfl, rfl⟩

theorem nodup_orderedPairs {members : List String} (h : members.Nodup) :
    (orderedPairs members).Nodup := by
  refine List.nodup_flatMap.mpr ⟨fun a _ => ?_, ?_⟩
  · exact (h.filter _).map fun x y he => (Prod.mk.inj he).2
  · refine h.imp fun {a b} hne => ?_
    intro p ha hb
    obtain ⟨_, _, rfl⟩ := List.mem_map.mp ha
    obtain ⟨_, _, he⟩ := List.mem_map.mp hb
    exact hne (Prod.mk.inj he).1.symm

theorem mem_rivals {a k : String} :
    a ∈ c.rivals k ↔ c.form? k = some (.nest .choice) ∧ a ∈ c.children k := by
  unfold rivals form?
  cases c.containers.get? k with
  | none => simp
  | some x =>
    by_cases hx : x.form = .nest .choice <;> simp [Container.isChoice, hx]

theorem Apart.nodup_rivals (h : c.Apart) {k : String} : (c.rivals k).Nodup := by
  unfold rivals
  split
  · split
    · exact h.nodup_children
    · exact List.nodup_nil
  · exact List.nodup_nil

/-! ## The two passes -/

/-- A relation that belongs to no container. -/
def plain (r : Relation τ) : Relation τ := { r with scope := none, hidden := false }

/-- Two relations that differ at most in what they belong to. -/
def Alike (r s : Relation τ) : Prop := plain r = plain s

theorem Alike.id (h : Alike r s) : r.id = s.id := by
  have hp : (plain r).id = (plain s).id := congrArg Relation.id h
  exact hp

theorem Alike.pair (h : Alike r s) : r.pair = s.pair := by
  have hp : (plain r).pair = (plain s).pair := congrArg Relation.pair h
  exact hp

theorem Alike.source (h : Alike r s) : r.source = s.source := congrArg Prod.fst h.pair

theorem Alike.target (h : Alike r s) : r.target = s.target := congrArg Prod.snd h.pair

theorem Alike.type (h : Alike r s) : r.type = s.type := by
  have hp : (plain r).type = (plain s).type := congrArg Relation.type h
  exact hp

theorem Alike.guard (h : Alike r s) : r.guard = s.guard := by
  have hp : (plain r).guard = (plain s).guard := congrArg Relation.guard h
  exact hp

theorem Alike.generated (h : Alike r s) : r.generated = s.generated := by
  have hp : (plain r).generated = (plain s).generated := congrArg Relation.generated h
  exact hp

theorem Alike.joins_eq (h : Alike r s) (a b : String) (t : RelationType) :
    r.joins a b t = s.joins a b t := by
  rw [Bool.eq_iff_iff, Relation.joins_iff, Relation.joins_iff, h.pair, h.type]

/-- The membership test of pairs in what follows. -/
instance lawfulBEq_pair : LawfulBEq (String × String) := inferInstance

/-- What the review makes of a relation that the container owns. -/
def reviewed (wanted : List (String × String)) (r : Relation τ) : Option (Relation τ) :=
  if r.type = .exclusion ∧ r.pair ∈ wanted then some r
  else if r.generated then none
  else some (plain r)

/-- A relation taken hold of by a container. -/
def held (owner : String) (r : Relation τ) : Relation τ :=
  { r with scope := some owner, hidden := true }

/-- What the upkeep makes of a relation: the exclusion of a wanted pair is held, another relation
that the container owned goes if it was generated and else becomes plain, and the rest stays. -/
def tend (owner : String) (wanted : List (String × String)) (r : Relation τ) :
    Option (Relation τ) :=
  if r.type = .exclusion ∧ r.pair ∈ wanted then some (held owner r)
  else if r.scope = some owner then
    if r.generated then none else some (plain r)
  else some r

/-- Two relations of a list that are exclusions of one pair are the same. -/
def SingleIn (rs : List (Relation τ)) : Prop :=
  ∀ r ∈ rs, ∀ s ∈ rs, r.type = .exclusion → s.type = .exclusion → r.pair = s.pair → r = s

/-- No two relations of one type have the same ends. -/
def Single (R : Store (Relation τ)) : Prop :=
  ∀ r ∈ R.entries, ∀ s ∈ R.entries, r.pair = s.pair → r.type = s.type → r = s

theorem Single.singleIn {R : Store (Relation τ)} (h : Single R) : SingleIn R.entries :=
  fun r hr s hs hrx hsx hpair => h r hr s hs hpair (hrx.trans hsx.symm)

theorem alike_of_reviewed (h : reviewed wanted r = some s) : Alike s r := by
  unfold reviewed at h
  split at h
  · cases h; rfl
  · split at h <;> cases h
    rfl

theorem alike_of_tend (h : tend owner wanted r = some s) : Alike s r := by
  unfold tend at h
  split at h
  · cases h; rfl
  · split at h
    · split at h <;> cases h
      rfl
    · cases h; rfl

theorem lacking_review (u : Upkeep τ) (r : Relation τ) :
    (u.review r).lacking = u.lacking.filter fun p => !r.joins p.1 p.2 .exclusion := by
  have hj : ∀ p : String × String,
      r.joins p.1 p.2 .exclusion = true ↔ r.pair = p ∧ r.type = .exclusion :=
    fun p => Relation.joins_iff
  by_cases hk : r.type = .exclusion ∧ r.pair ∈ u.lacking
  · simp only [Upkeep.review, if_pos hk]
    refine List.filter_congr fun p _ => ?_
    rw [Bool.eq_iff_iff, Bool.not_eq_true', Bool.eq_false_iff, Ne, hj, bne_iff_ne]
    exact ⟨fun hne h => hne h.1.symm, fun hne h => hne ⟨h.symm, hk.1⟩⟩
  · have hl : (u.review r).lacking = u.lacking := by
      simp only [Upkeep.review, if_neg hk]
      split <;> rfl
    rw [hl, eq_comm, List.filter_eq_self]
    intro p hp
    rw [Bool.not_eq_true', Bool.eq_false_iff, Ne, hj]
    intro hall
    obtain ⟨rfl, hx⟩ := hall
    exact hk ⟨hx, hp⟩

theorem entries_review {u : Upkeep τ} (hr : r ∈ u.relations.entries) :
    (u.review r).relations.entries = u.relations.entries.filterMap
      fun s => if s.id = r.id then reviewed u.lacking s else some s := by
  have honly : ∀ s ∈ u.relations.entries, s.id = r.id → s = r :=
    fun s hs he => Store.eq_of_key hs hr he
  by_cases hk : r.type = .exclusion ∧ r.pair ∈ u.lacking
  · simp only [Upkeep.review, if_pos hk]
    rw [← List.filterMap_some (l := u.relations.entries), List.filterMap_filterMap]
    refine List.filterMap_congr fun s hs => ?_
    by_cases hs' : s.id = r.id
    · rw [honly s hs hs']
      simp [reviewed, hk]
    · simp [hs']
  · by_cases hg : r.generated = true
    · simp only [Upkeep.review, if_neg hk, if_pos hg, Store.entries_erase]
      rw [← List.filterMap_eq_filter]
      refine List.filterMap_congr fun s hs => ?_
      by_cases hs' : s.id = r.id
      · rw [honly s hs hs']
        simp [reviewed, hk, hg]
      · simp [hs', Option.guard]
    · simp only [Upkeep.review, if_neg hk, if_neg hg, Store.entries_modify]
      rw [← List.filterMap_eq_map]
      refine List.filterMap_congr fun s hs => ?_
      by_cases hs' : s.id = r.id
      · rw [honly s hs hs']
        simp [reviewed, plain, hk, hg]
      · simp [hs']

/-- The review changes the relations under review and closes the pairs that one of them joins. -/
theorem foldl_review {todo : List (Relation τ)} {u : Upkeep τ}
    (hsub : ∀ r ∈ todo, r ∈ u.relations.entries)
    (hnd : (todo.map Relation.id).Nodup) (hone : SingleIn todo) :
    (todo.foldl Upkeep.review u).relations.entries = u.relations.entries.filterMap
        (fun r => if r.id ∈ todo.map Relation.id then reviewed u.lacking r else some r) ∧
      (todo.foldl Upkeep.review u).lacking =
        u.lacking.filter fun p => !todo.any fun r => r.joins p.1 p.2 .exclusion := by
  induction todo generalizing u with
  | nil => simp
  | cons r rest ih =>
    have hr := hsub r List.mem_cons_self
    obtain ⟨hfresh, hnd⟩ := List.nodup_cons.mp hnd
    have hrest : ∀ s ∈ rest, s.id ≠ r.id := fun s hs he => hfresh (he ▸ List.mem_map_of_mem hs)
    have hmem : ∀ s ∈ rest, s ∈ (u.review r).relations.entries := by
      intro s hs
      rw [entries_review hr]
      exact List.mem_filterMap.mpr ⟨s, hsub s (List.mem_cons_of_mem _ hs), if_neg (hrest s hs)⟩
    obtain ⟨he, hl⟩ := ih hmem hnd fun s hs t ht =>
      hone s (List.mem_cons_of_mem _ hs) t (List.mem_cons_of_mem _ ht)
    rw [List.foldl_cons, he, hl, entries_review hr, lacking_review, List.filterMap_filterMap]
    refine ⟨List.filterMap_congr fun s hs => ?_, ?_⟩
    · by_cases hs' : s.id = r.id
      · -- the relation just reviewed is not reviewed again
        simp only [hs', if_true, List.map_cons, List.mem_cons, true_or]
        cases hv : reviewed u.lacking s with
        | none => rfl
        | some t =>
          have ht : t.id ∉ rest.map Relation.id := by
            rw [(alike_of_reviewed hv).id, hs']; exact hfresh
          exact if_neg ht
      · by_cases hin : s.id ∈ rest.map Relation.id
        · obtain ⟨t, ht, hid⟩ := List.mem_map.mp hin
          have hst : t = s := Store.eq_of_key (hsub t (List.mem_cons_of_mem _ ht)) hs hid
          subst hst
          have hcond : (t.type = .exclusion ∧
              t.pair ∈ u.lacking.filter fun p => !r.joins p.1 p.2 .exclusion) ↔
              (t.type = .exclusion ∧ t.pair ∈ u.lacking) := by
            refine and_congr_right fun hx => ?_
            rw [List.mem_filter, and_iff_left]
            rw [Bool.not_eq_true', Bool.eq_false_iff, Ne, Relation.joins_iff]
            intro ⟨hp, hrx⟩
            exact hs' (congrArg Relation.id (hone t (List.mem_cons_of_mem _ ht) r List.mem_cons_self
              hx hrx hp.symm))
          simp only [hs', if_false, Option.bind_some, hin, if_true, List.map_cons, List.mem_cons,
            or_true, reviewed, hcond]
        · simp only [hs', if_false, Option.bind_some, hin, List.map_cons, List.mem_cons, or_self]
    · rw [List.filter_filter]
      exact List.filter_congr fun p _ => by simp [Bool.and_comm]

/-- Ids of generated exclusions tell the pairs of a list apart, and a relation under such an id is
the exclusion of its pair. -/
structure Makeable (rs : List (Relation τ)) (pairs : List (String × String)) : Prop where
  apart : ∀ p ∈ pairs, ∀ q ∈ pairs,
    Relation.idFor p.1 p.2 .exclusion true = Relation.idFor q.1 q.2 .exclusion true → p = q
  unused : ∀ r ∈ rs, ∀ p ∈ pairs, r.id = Relation.idFor p.1 p.2 .exclusion true →
    r.joins p.1 p.2 .exclusion = true

/-- A relation after one pair has been supplied. -/
def heldFor (owner : String) (p : String × String) (r : Relation τ) : Relation τ :=
  if r.joins p.1 p.2 .exclusion then held owner r else r

theorem alike_heldFor (owner : String) (p : String × String) (r : Relation τ) :
    Alike (heldFor owner p r) r := by
  unfold heldFor
  split <;> rfl

theorem SingleIn.eq_of_joins {rs : List (Relation τ)} (hone : SingleIn rs) (hr : r ∈ rs)
    (hs : s ∈ rs) {a b : String} (hj : r.joins a b .exclusion = true)
    (hk : s.joins a b .exclusion = true) : r = s := by
  obtain ⟨hp, hx⟩ := Relation.joins_iff.mp hj
  obtain ⟨hq, hy⟩ := Relation.joins_iff.mp hk
  exact hone r hr s hs hx hy (hp.trans hq.symm)

theorem entries_supply {p : String × String} {u : Upkeep τ} (hone : SingleIn u.relations.entries)
    (hunused : ∀ r ∈ u.relations.entries, r.id = Relation.idFor p.1 p.2 .exclusion true →
      r.joins p.1 p.2 .exclusion = true) :
    (u.supply owner p).relations.entries = u.relations.entries.map (heldFor owner p) ++
      if u.relations.entries.any fun r => r.joins p.1 p.2 .exclusion then []
      else [made owner p] := by
  cases hf : u.relations.entries.find? fun r => r.joins p.1 p.2 .exclusion with
  | some r =>
    have hr := List.mem_of_find?_eq_some hf
    have hj : r.joins p.1 p.2 .exclusion = true :=
      List.find?_some (p := fun r : Relation τ => r.joins p.1 p.2 .exclusion) hf
    rw [if_pos (List.any_eq_true.mpr ⟨r, hr, hj⟩), List.append_nil]
    simp only [Upkeep.supply, hf, Store.entries_modify]
    refine List.map_congr_left fun s hs => ?_
    by_cases hs' : s.joins p.1 p.2 .exclusion = true
    · rw [hone.eq_of_joins hs hr hs' hj]
      simp [heldFor, hj, held]
    · have hid : s.id ≠ r.id := fun he => hs' (Store.eq_of_key hs hr he ▸ hj)
      simp [heldFor, hs', hid]
  | none =>
    have hnone : ∀ s ∈ u.relations.entries, s.joins p.1 p.2 .exclusion = false := fun s hs => by
      simpa using List.find?_eq_none.mp hf s hs
    have hmap : u.relations.entries.map (heldFor owner p) = u.relations.entries := by
      conv_rhs => rw [← List.map_id u.relations.entries]
      exact List.map_congr_left fun s hs => by simp [heldFor, hnone s hs]
    have hany : (u.relations.entries.any fun r => r.joins p.1 p.2 .exclusion) = false :=
      List.any_eq_false.mpr fun s hs => by simp [hnone s hs]
    rw [hmap, hany]
    simp only [Upkeep.supply, hf]
    refine Store.entries_insert_of_ne fun s hs he => ?_
    exact absurd (hunused s hs he) (by simp [hnone s hs])

section Supply

variable {p : String × String} {rest : List (String × String)} {u : Upkeep τ}

/-- A relation after one pair has been supplied was there before, or it was made for the pair. -/
theorem supply_cases (hone : SingleIn u.relations.entries)
    (hmake : Makeable u.relations.entries (p :: rest))
    (hs : s ∈ (u.supply owner p).relations.entries) :
    (∃ r ∈ u.relations.entries, s = heldFor owner p r) ∨
      (s = made owner p ∧ ∀ r ∈ u.relations.entries, ¬ r.joins p.1 p.2 .exclusion = true) := by
  rw [entries_supply hone fun r hr => hmake.unused r hr p List.mem_cons_self] at hs
  rcases List.mem_append.mp hs with hs | hs
  · obtain ⟨r, hr, rfl⟩ := List.mem_map.mp hs
    exact .inl ⟨r, hr, rfl⟩
  · split at hs
    · cases hs
    · next hany =>
      exact .inr ⟨List.mem_singleton.mp hs, fun r hr hj => hany (List.any_eq_true.mpr ⟨r, hr, hj⟩)⟩

theorem SingleIn.supply (hone : SingleIn u.relations.entries)
    (hmake : Makeable u.relations.entries (p :: rest)) :
    SingleIn (u.supply owner p).relations.entries := by
  intro s hs t ht hsx htx he
  rcases supply_cases hone hmake hs with ⟨r, hr, rfl⟩ | ⟨rfl, hfree⟩ <;>
    rcases supply_cases hone hmake ht with ⟨q, hq, rfl⟩ | ⟨rfl, hfree'⟩
  · rw [(alike_heldFor _ _ _).type] at hsx htx
    rw [(alike_heldFor _ _ _).pair, (alike_heldFor _ _ _).pair] at he
    rw [hone r hr q hq hsx htx he]
  · rw [(alike_heldFor _ _ _).type] at hsx
    rw [(alike_heldFor _ _ _).pair] at he
    exact absurd (Relation.joins_iff.mpr ⟨he, hsx⟩) (hfree' r hr)
  · rw [(alike_heldFor _ _ _).type] at htx
    rw [(alike_heldFor _ _ _).pair] at he
    exact absurd (Relation.joins_iff.mpr ⟨he.symm, htx⟩) (hfree q hq)
  · rfl

theorem Makeable.supply (hone : SingleIn u.relations.entries)
    (hmake : Makeable u.relations.entries (p :: rest)) :
    Makeable (u.supply owner p).relations.entries rest := by
  refine ⟨fun q hq q' hq' =>
    hmake.apart q (List.mem_cons_of_mem _ hq) q' (List.mem_cons_of_mem _ hq'),
    fun s hs q hq hid => ?_⟩
  rcases supply_cases hone hmake hs with ⟨r, hr, rfl⟩ | ⟨rfl, _⟩
  · rw [(alike_heldFor _ _ _).joins_eq]
    exact hmake.unused r hr q (List.mem_cons_of_mem _ hq) ((alike_heldFor owner p r).id ▸ hid)
  · rw [hmake.apart p List.mem_cons_self q (List.mem_cons_of_mem _ hq) hid]
    exact Relation.joins_iff.mpr ⟨rfl, rfl⟩

/-- What is held for one pair and then for the rest is held for all of them. -/
theorem held_heldFor (hp : p ∉ rest) (r : Relation τ) :
    (if (heldFor owner p r).type = .exclusion ∧ (heldFor owner p r).pair ∈ rest
      then held owner (heldFor owner p r) else heldFor owner p r) =
    if r.type = .exclusion ∧ r.pair ∈ p :: rest then held owner r else r := by
  rw [(alike_heldFor owner p r).pair, (alike_heldFor owner p r).type]
  by_cases hj : r.joins p.1 p.2 .exclusion = true
  · obtain ⟨hpair, hx⟩ := Relation.joins_iff.mp hj
    have hpair : r.pair = p := hpair
    simp [heldFor, hj, hpair, hx, hp]
  · have hne : r.type = .exclusion → r.pair ≠ p := fun hx he => hj (Relation.joins_iff.mpr ⟨he, hx⟩)
    have hcond : (r.type = .exclusion ∧ r.pair ∈ p :: rest) ↔
        (r.type = .exclusion ∧ r.pair ∈ rest) := by
      simp only [List.mem_cons]
      exact and_congr_right fun hx => ⟨fun h => h.resolve_left (hne hx), .inr⟩
    simp only [heldFor, hj, if_false, hcond, Bool.false_eq_true]

/-- The supply of a pair does not make the exclusion of another one. -/
theorem any_supply (hone : SingleIn u.relations.entries)
    (hmake : Makeable u.relations.entries (p :: rest))
    {q : String × String} (hpq : p ≠ q) :
    ((u.supply owner p).relations.entries.any fun r => r.joins q.1 q.2 .exclusion) =
      u.relations.entries.any fun r => r.joins q.1 q.2 .exclusion := by
  have hne : (made owner p : Relation τ).joins q.1 q.2 .exclusion = false :=
    Bool.eq_false_iff.mpr fun hj => hpq (Relation.joins_iff.mp hj).1
  rw [entries_supply hone fun r hr => hmake.unused r hr p List.mem_cons_self, List.any_append,
    List.any_map]
  simp only [Function.comp_def, (alike_heldFor owner p _).joins_eq]
  split <;> simp [hne]

end Supply

/-- The supply takes hold of the exclusions of open pairs and makes those that are not there. -/
theorem entries_foldl_supply (todo : List (String × String)) {u : Upkeep τ} (hnd : todo.Nodup)
    (hone : SingleIn u.relations.entries) (hmake : Makeable u.relations.entries todo) :
    (todo.foldl (Upkeep.supply owner) u).relations.entries =
      u.relations.entries.map
        (fun r => if r.type = .exclusion ∧ r.pair ∈ todo then held owner r else r) ++
        (todo.filter fun p => !u.relations.entries.any fun r => r.joins p.1 p.2 .exclusion).map
          (made owner) := by
  induction todo generalizing u with
  | nil => simp
  | cons p rest ih =>
    obtain ⟨hp, hnd⟩ := List.nodup_cons.mp hnd
    have hany : ∀ q ∈ rest,
      ((u.supply owner p).relations.entries.any fun r => r.joins q.1 q.2 .exclusion) =
        u.relations.entries.any fun r => r.joins q.1 q.2 .exclusion := fun q hq =>
      any_supply hone hmake fun he => hp (he ▸ hq)
    rw [List.foldl_cons, ih hnd (hone.supply hmake) (hmake.supply hone),
      List.filter_congr (fun q hq => congrArg not (hany q hq)),
      entries_supply hone fun r hr => hmake.unused r hr p List.mem_cons_self, List.map_append,
        List.map_map,
      List.append_assoc]
    refine congrArg₂ _ (List.map_congr_left fun r _ => held_heldFor hp r) ?_
    rw [List.filter_cons]
    split
    · next ha => simp [ha]
    · next ha =>
      have hpx : ¬ ((made owner p : Relation τ).type = .exclusion ∧
          (made owner p : Relation τ).pair ∈ rest) :=
        fun h => hp h.2
      simp [ha, hpx]

/-! ## The equation -/

/-- What stands under the id of a generated exclusion is that exclusion. -/
def Reserved (c : Choreography τ) : Prop :=
  ∀ r ∈ c.relations.entries, ∀ a b, Dashless a → Dashless b →
    r.id = Relation.idFor a b .exclusion true → r.joins a b .exclusion = true

theorem Linked.reserved (hl : c.Linked) (hd : ∀ n ∈ c.nodes, Dashless n.id) : c.Reserved := by
  intro r hr a b ha _ hid
  obtain ⟨n, hn, hsource⟩ := hasNode_iff.mp (hl.ends r hr).1
  rw [hl.canonical r hr] at hid
  obtain ⟨hg, rfl, rfl, _⟩ := Relation.idFor_injective (hsource ▸ hd n hn) ha hid
  exact Relation.joins_iff.mpr ⟨rfl, hl.generated r hr hg⟩

theorem dashless_of_rivals {k : String} (hd : ∀ n ∈ c.nodes, Dashless n.id) {p : String × String}
    (hp : p ∈ orderedPairs (c.rivals k)) : Dashless p.1 ∧ Dashless p.2 := by
  have hdash : ∀ a ∈ c.rivals k, Dashless a := by
    intro a ha
    obtain ⟨n, hn, rfl, _⟩ := mem_children.mp (mem_rivals.mp ha).2
    exact hd n hn
  obtain ⟨hleft, hright, _⟩ := mem_orderedPairs.mp hp
  exact ⟨hdash _ hleft, hdash _ hright⟩

theorem Reserved.makeable (h : c.Reserved) (hd : ∀ n ∈ c.nodes, Dashless n.id) (k : String) :
    Makeable c.relations.entries (orderedPairs (c.rivals k)) := by
  refine ⟨fun p hp q hq hid => ?_, fun r hr p hp hid => ?_⟩
  · obtain ⟨_, h1, h2, _⟩ :=
      Relation.idFor_injective (dashless_of_rivals hd hp).1 (dashless_of_rivals hd hq).1 hid
    exact Prod.ext h1 h2
  · obtain ⟨hleft, hright⟩ := dashless_of_rivals hd hp
    exact h r hr p.1 p.2 hleft hright hid

theorem mem_scopedTo {k : String} :
    r ∈ c.scopedTo k ↔ r ∈ c.relations.entries ∧ r.scope = some k := by
  simp [scopedTo]

theorem id_mem_scopedTo {k : String} (hr : r ∈ c.relations.entries) :
    r.id ∈ (c.scopedTo k).map Relation.id ↔ r.scope = some k := by
  refine ⟨fun h => ?_, fun h => List.mem_map_of_mem (mem_scopedTo.mpr ⟨hr, h⟩)⟩
  obtain ⟨s, hs, hid⟩ := List.mem_map.mp h
  obtain ⟨hs, hk⟩ := mem_scopedTo.mp hs
  rw [← Store.eq_of_key hs hr hid, hk]

variable {k : String}

/-- The pairs of a list that no relation of a container excludes yet. -/
def openPairs (c : Choreography τ) (k : String) (wanted : List (String × String)) :
    List (String × String) :=
  wanted.filter fun p => !(c.scopedTo k).any fun r => r.joins p.1 p.2 .exclusion

theorem mem_openPairs {p : String × String} : p ∈ openPairs c k wanted ↔
    p ∈ wanted ∧
      ∀ r ∈ c.relations.entries, r.scope = some k → r.type = .exclusion → r.pair ≠ p := by
  simp only [openPairs, List.mem_filter, Bool.not_eq_true', List.any_eq_false, Relation.joins_iff,
    mem_scopedTo, and_imp]
  exact and_congr_right fun _ => forall₃_congr fun r _ _ => by rw [not_and', Ne]

/-- What the review leaves of a relation: those that the container owns are reviewed. -/
def revised (k : String) (wanted : List (String × String)) (r : Relation τ) : Option (Relation τ) :=
  if r.scope = some k then reviewed wanted r else some r

/-- What is left after the review is alike to what was there. -/
theorem alike_of_revised (h : revised k wanted r = some s) : Alike s r := by
  unfold revised at h
  split at h
  · exact alike_of_reviewed h
  · cases h; rfl

/-- The state between the two passes: what was owned has been reviewed, and the open pairs are those
that nothing owned excludes. -/
theorem foldl_review_scopedTo (k : String) (wanted : List (String × String))
    (hone : SingleIn c.relations.entries) :
    ((c.scopedTo k).foldl Upkeep.review
        { relations := c.relations, lacking := wanted }).relations.entries =
        c.relations.entries.filterMap (revised k wanted) ∧
      ((c.scopedTo k).foldl Upkeep.review { relations := c.relations, lacking := wanted }).lacking =
        openPairs c k wanted := by
  have hsub : ∀ r ∈ c.scopedTo k, r ∈ c.relations.entries := fun r hr => (mem_scopedTo.mp hr).1
  obtain ⟨he, hl⟩ := foldl_review (u := { relations := c.relations, lacking := wanted }) hsub
    (c.relations.distinct.sublist (List.filter_sublist.map _))
    fun r hr s hs => hone r (hsub r hr) s (hsub s hs)
  exact ⟨he.trans (List.filterMap_congr fun r hr => by simp only [id_mem_scopedTo hr, revised]), hl⟩

/-- The two passes one after the other: each relation revised and then, if its pair is open, held,
and after them those that are made for the open pairs that nothing joins. -/
theorem entries_passes (hone : SingleIn c.relations.entries)
    (hnd : (orderedPairs (c.rivals k)).Nodup)
    (hmake : Makeable c.relations.entries (orderedPairs (c.rivals k))) :
    (c.upkeep k).relations.entries =
      (c.relations.entries.filterMap (revised k (orderedPairs (c.rivals k)))).map (fun r =>
          if r.type = .exclusion ∧ r.pair ∈ openPairs c k (orderedPairs (c.rivals k))
          then held k r else r) ++
        ((openPairs c k (orderedPairs (c.rivals k))).filter fun p =>
          !(c.relations.entries.filterMap (revised k (orderedPairs (c.rivals k)))).any
            fun r => r.joins p.1 p.2 .exclusion).map (made k) := by
  unfold upkeep
  generalize orderedPairs (c.rivals k) = wanted at hmake hnd ⊢
  obtain ⟨he, hlack⟩ := foldl_review_scopedTo k wanted hone
  generalize (c.scopedTo k).foldl Upkeep.review { relations := c.relations, lacking := wanted } =
    u at he hlack
  have hleft : ∀ s ∈ u.relations.entries, ∃ r ∈ c.relations.entries, Alike s r := by
    intro s hs
    rw [he] at hs
    obtain ⟨r, hr, hs⟩ := List.mem_filterMap.mp hs
    exact ⟨r, hr, alike_of_revised hs⟩
  have hone' : SingleIn u.relations.entries := by
    intro s hs t ht hx hy hp
    obtain ⟨r, hr, hsr⟩ := hleft s hs
    obtain ⟨q, hq, htq⟩ := hleft t ht
    refine Store.eq_of_key hs ht ((hsr.id.trans ?_).trans htq.id.symm)
    exact congrArg Relation.id
      (hone r hr q hq (hsr.type ▸ hx) (htq.type ▸ hy) (by rw [← hsr.pair, ← htq.pair, hp]))
  have hmake' : Makeable u.relations.entries (openPairs c k wanted) := by
    refine ⟨fun p hp q hq => hmake.apart p (mem_openPairs.mp hp).1 q (mem_openPairs.mp hq).1,
      fun s hs p hp hid => ?_⟩
    obtain ⟨r, hr, hsr⟩ := hleft s hs
    rw [hsr.joins_eq]
    exact hmake.unused r hr p (mem_openPairs.mp hp).1 (hsr.id.symm.trans hid)
  show (u.lacking.foldl (Upkeep.supply k) u).relations.entries = _
  rw [hlack, entries_foldl_supply (openPairs c k wanted) (hnd.filter _) hone' hmake', he]

/-- The two passes on one relation amount to tending it. -/
theorem tend_eq (hone : SingleIn c.relations.entries) (hr : r ∈ c.relations.entries)
    (hh : r.scope.isSome → r.hidden = true) :
    ((revised k wanted r).map fun r =>
      if r.type = .exclusion ∧ r.pair ∈ openPairs c k wanted then held k r else r) =
          tend k wanted r := by
  unfold revised
  by_cases hs : r.scope = some k
  · have hheld : held k r = r := by
      have := hh (by simp [hs])
      cases r
      simp_all [held]
    by_cases hx : r.type = .exclusion ∧ r.pair ∈ wanted
    · simp [hs, reviewed, tend, hx, hheld]
    · by_cases hg : r.generated = true
      · simp [hs, reviewed, tend, hx, hg]
      · have hx' : ¬ ((plain r).type = .exclusion ∧ (plain r).pair ∈ openPairs c k wanted) :=
          fun h => hx ⟨h.1, (mem_openPairs.mp h.2).1⟩
        simp [hs, reviewed, tend, hx, hg, hx']
  · have hcond : (r.type = .exclusion ∧ r.pair ∈ openPairs c k wanted) ↔
        (r.type = .exclusion ∧ r.pair ∈ wanted) := by
      refine and_congr_right fun hx => mem_openPairs.trans (and_iff_left ?_)
      intro s hm hs' hy hp
      exact hs (hone s hm r hr hy hx hp ▸ hs')
    simp only [hs, if_false, Option.map_some, hcond, tend]
    split <;> rfl

/-- The relations after the upkeep of a container: each one tended, and then those that had to be
made. -/
theorem entries_upkeep (hd : ∀ n ∈ c.nodes, Dashless n.id) (ha : c.Apart) (hl : c.Linked)
    (hh : ∀ r ∈ c.relations.entries, r.scope.isSome → r.hidden = true) (k : String) :
    (c.upkeep k).relations.entries =
      c.relations.entries.filterMap (tend k (orderedPairs (c.rivals k))) ++
        ((orderedPairs (c.rivals k)).filter fun p =>
          !c.relations.entries.any fun r => r.joins p.1 p.2 .exclusion).map (made k) := by
  have hone : SingleIn c.relations.entries := fun r hr s hs hx hy hp =>
    hl.single r hr s hs hp (hx.trans hy.symm)
  rw [entries_passes hone (nodup_orderedPairs ha.nodup_rivals) ((hl.reserved hd).makeable hd k)]
  generalize orderedPairs (c.rivals k) = wanted
  refine congrArg₂ _ ?_ (congrArg _ ?_)
  · rw [List.map_filterMap]
    exact List.filterMap_congr fun r hr => tend_eq hone hr (hh r hr)
  · rw [openPairs, List.filter_filter]
    refine List.filter_congr fun p hp => ?_
    rw [Bool.eq_iff_iff]
    simp only [Bool.and_eq_true, Bool.not_eq_true', List.any_eq_false]
    constructor
    · intro ⟨hfree, hscoped⟩ r hr hj
      by_cases hs : r.scope = some k
      · exact hscoped r (mem_scopedTo.mpr ⟨hr, hs⟩) hj
      · exact hfree r (List.mem_filterMap.mpr ⟨r, hr, if_neg hs⟩) hj
    · intro hfree
      refine ⟨fun s hs => ?_, fun r hr => hfree r (mem_scopedTo.mp hr).1⟩
      obtain ⟨r, hr, hs⟩ := List.mem_filterMap.mp hs
      rw [(alike_of_revised hs).joins_eq]
      exact hfree r hr

end Dcr.Choreography
