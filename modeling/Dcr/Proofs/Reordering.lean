import Dcr.Proofs.Trails

/-! Runs of choreographies whose relations stand in different orders. A firing brings its effects
out in the order of the relations, so it can tell that order where effects clash: an exclusion and
an inclusion or condition of one target do not commute, and a target that is not there ends the
firing. No other order matters. Two choreographies with the same relations that agree on those pairs
are joined by exchanges of neighbours that no firing can tell apart, and their runs are the
same. -/

namespace Dcr

variable {τ : Type} [FreeText τ]

/-! ## Effects that clash -/

namespace Effect

/-- Whether two effects come out differently when they come to one node the other way round. -/
def clashes : Effect → Effect → Bool
  | excluded, included => true
  | excluded, enabled => true
  | included, excluded => true
  | enabled, excluded => true
  | _, _ => false

/-- Two effects that clash never commute, and all others always do. -/
theorem apply_comm_iff {x y : Effect} {m : Marking} :
    x.apply (y.apply m) = y.apply (x.apply m) ↔ x.clashes y = false := by
  cases x <;> cases y <;> simp [apply, clashes]

theorem outcome_append (m : Marking) (E F : List Effect) :
    outcome m (E ++ F) = outcome (outcome m E) F := by
  induction F using List.reverseRecOn with
  | nil => simp
  | append_singleton F x ih => rw [← List.append_assoc, ← apply_outcome, ih, apply_outcome]

theorem outcome_cons (m : Marking) (x : Effect) (E : List Effect) :
    outcome m (x :: E) = outcome (x.apply m) E := by
  have hone : x.apply m = outcome m [x] := by
    simpa using apply_outcome x m []
  rw [hone, ← outcome_append, List.singleton_append]

/-- The merge of some effects on one marking in a fixed priority: an exclusion, then an inclusion,
then a condition, then a response, whatever their number and order. -/
def merged (m : Marking) (effects : List Effect) : Marking :=
  ([.excluded, .included, .enabled, .pending].filter effects.contains).foldl
    (fun m x => x.apply m) m

theorem merged_eq (m : Marking) (effects : List Effect) :
    merged m effects =
      { included := effects.contains .included || (m.included && !effects.contains .excluded)
        pending := m.pending || effects.contains .pending
        executable := effects.contains .included || effects.contains .enabled ||
          (m.executable && !effects.contains .excluded)
        executed := m.executed } := by
  unfold merged
  generalize effects.contains = told
  cases he : told .excluded <;> cases hi : told .included <;> cases hx : told .enabled <;>
    cases hp : told .pending <;>
    simp [he, hi, hx, hp, apply]

/-- Effects among which no exclusion comes after an inclusion or a condition are merged. -/
theorem outcome_eq_merged {effects : List Effect} (m : Marking)
    (h : effects.Pairwise fun x y => y = .excluded → x ≠ .included ∧ x ≠ .enabled) :
    outcome m effects = merged m effects := by
  induction effects using List.reverseRecOn with
  | nil => simp [merged_eq]
  | append_singleton effects x ih =>
    obtain ⟨hbefore, -, hlast⟩ := List.pairwise_append.mp h
    have hfirst : x = .excluded → .included ∉ effects ∧ .enabled ∉ effects := fun hx =>
      ⟨fun hi => (hlast _ hi x (by simp) hx).1 rfl, fun hi => (hlast _ hi x (by simp) hx).2 rfl⟩
    rw [← apply_outcome, ih hbefore, merged_eq, merged_eq]
    cases x with
    | excluded => simp [apply, hfirst rfl]
    | included => simp [apply]
    | enabled => simp [apply]
    | pending => simp [apply]

end Effect

/-! ## Exchanges -/

/-- Lists that come from one another by exchanges of neighbours whose order does not tell. -/
inductive Exchanged {α : Type} (tells : α → α → Prop) : List α → List α → Prop
  | refl (xs : List α) : Exchanged tells xs xs
  | cons (x : α) {xs ys : List α} : Exchanged tells xs ys → Exchanged tells (x :: xs) (x :: ys)
  | swap {x y : α} (xs : List α) : ¬ tells x y → Exchanged tells (x :: y :: xs) (y :: x :: xs)
  | trans {xs ys zs : List α} : Exchanged tells xs ys → Exchanged tells ys zs →
      Exchanged tells xs zs

namespace Exchanged

variable {α : Type} {tells : α → α → Prop} {x y z : α} {xs ys : List α}

theorem sublist_of_sublist_cons (hne : x ≠ z) (h : [x, y].Sublist (z :: ys)) :
    [x, y].Sublist ys := by
  rcases List.sublist_cons_iff.mp h with h | ⟨rest, he, -⟩
  · exact h
  · exact absurd (List.cons.inj he).1 hne

/-- An entry that stands before all those that it tells goes to the front. -/
theorem front [DecidableEq α] (hnodup : ys.Nodup) (hx : x ∈ ys)
    (h : ∀ y ∈ ys, y ≠ x → tells x y → [x, y].Sublist ys) :
    Exchanged tells (x :: ys.erase x) ys := by
  induction ys with
  | nil => cases hx
  | cons z ys ih =>
    obtain ⟨hz, hnodup⟩ := List.nodup_cons.mp hnodup
    by_cases hzx : z = x
    · subst hzx
      rw [List.erase_cons_head]
      exact refl _
    · have hrest : Exchanged tells (x :: ys.erase x) ys :=
        ih hnodup (List.mem_of_ne_of_mem (Ne.symm hzx) hx) fun y hy hyx ht =>
          sublist_of_sublist_cons (Ne.symm hzx) (h y (List.mem_cons_of_mem z hy) hyx ht)
      have hcross : ¬ tells x z := fun ht =>
        hz ((sublist_of_sublist_cons (Ne.symm hzx) (h z List.mem_cons_self hzx ht)).subset
          (by simp))
      rw [List.erase_cons_tail (by simpa using hzx)]
      exact (swap _ hcross).trans (cons z hrest)

/-- Two orders of the same entries that agree on the pairs that tell. -/
theorem of_perm (hnodup : xs.Nodup) (hperm : xs.Perm ys)
    (h : xs.Pairwise fun x y => tells x y → [x, y].Sublist ys) : Exchanged tells xs ys := by
  classical
  induction xs generalizing ys with
  | nil => exact hperm.nil_eq ▸ refl _
  | cons x xs ih =>
    obtain ⟨hx, hnodup'⟩ := List.nodup_cons.mp hnodup
    obtain ⟨hfirst, hrest⟩ := List.pairwise_cons.mp h
    have hmem : x ∈ ys := hperm.subset List.mem_cons_self
    have htail : xs.Perm (ys.erase x) := by
      simpa using hperm.erase x
    have hkept : xs.Pairwise fun y z => tells y z → [y, z].Sublist (ys.erase x) :=
      hrest.imp_of_mem fun {y z} hy hz hyz ht => by
        have herase : [y, z].erase x = [y, z] :=
          List.erase_of_not_mem (by grind)
        exact herase ▸ (hyz ht).erase x
    refine (cons x (ih hnodup' htail hkept)).trans (front (hperm.nodup_iff.mp hnodup) hmem ?_)
    exact fun y hy hyx ht => hfirst y (List.mem_of_ne_of_mem hyx (hperm.symm.subset hy)) ht

end Exchanged

open Effect (outcome)

/-! ## Relations that a firing can tell apart -/

/-- Whether relations of two types out of one event have effects that clash. -/
def RelationType.clashes (r s : RelationType) : Bool :=
  match r.effect?, s.effect? with
  | some x, some y => x.clashes y
  | _, _ => false

namespace Choreography

variable {c d : Choreography τ} {s : Store (Relation τ)}

/-- Whether a firing can tell in which order two relations stand: it stops at a target that is not
there, and effects on one target may clash. -/
def Entangled (c : Choreography τ) (r t : Relation τ) : Prop :=
  c.hasNode r.target = false ∨ c.hasNode t.target = false ∨
    r.target = t.target ∧ r.type.clashes t.type = true

instance : DecidableRel c.Entangled := fun r t =>
  inferInstanceAs (Decidable (c.hasNode r.target = false ∨ c.hasNode t.target = false ∨
    r.target = t.target ∧ r.type.clashes t.type = true))

/-- The choreography with other relations. -/
def withRelations (c : Choreography τ) (s : Store (Relation τ)) : Choreography τ :=
  { c with relations := s }

theorem hasNode_withRelations (id : String) : (c.withRelations s).hasNode id = c.hasNode id := rfl

theorem updateMarking_withRelations (id : String) (f : Marking → Marking) :
    (c.withRelations s).updateMarking id f = (c.updateMarking id f).withRelations s := by
  unfold updateMarking
  by_cases h : c.events.contains id = true
  · rw [if_pos h, if_pos (show (c.withRelations s).events.contains id = true from h)]
    rfl
  · rw [if_neg h, if_neg (show ¬ (c.withRelations s).events.contains id = true from h)]
    rfl

theorem contains_updateMarking (id j : String) (f : Marking → Marking) :
    (c.updateMarking id f).events.contains j = c.events.contains j := by
  unfold updateMarking
  split
  · simp [Store.contains, Store.get?_modify]
  · rfl

/-- Changes of two markings commute, and so do changes of one that do. -/
theorem updateMarking_comm {i j : String} {f g : Marking → Marking}
    (h : i = j → ∀ m, f (g m) = g (f m)) :
    (c.updateMarking i f).updateMarking j g = (c.updateMarking j g).updateMarking i f := by
  have hi := contains_updateMarking (c := c) j i g
  have hj := contains_updateMarking (c := c) i j f
  conv_lhs => rw [updateMarking, hj]
  conv_rhs => rw [updateMarking, hi]
  unfold updateMarking
  cases c.events.contains i <;> cases c.events.contains j
  · simp only [Bool.false_eq_true, if_false]
    congr 1
    exact Store.modify_comm fun hij x => by rw [h hij]
  · rfl
  · rfl
  · simp only [if_true]
    congr 1
    exact Store.modify_comm fun hij x => by rw [h hij]

/-- The marking of a node. -/
def marking? (c : Choreography τ) (id : String) : Option Marking := (c.node? id).map Node.marking

theorem marking?_updateMarking (id j : String) (f : Marking → Marking) :
    (c.updateMarking id f).marking? j = (c.marking? j).map fun m => if j = id then f m else m := by
  unfold updateMarking
  by_cases hid : c.events.contains id = true
  · rw [if_pos hid]
    simp only [marking?, node?, Store.get?_modify]
    cases he : c.events.get? j with
    | some e => by_cases hj : j = id <;> simp [hj, Node.marking]
    | none =>
      have hj : j ≠ id := by
        rintro rfl
        simp [Store.contains, he] at hid
      simp [hj, Function.comp_def]
  · rw [if_neg hid]
    simp only [marking?, node?, Store.get?_modify]
    cases he : c.events.get? j with
    | some e =>
      have hj : j ≠ id := by
        rintro rfl
        simp [Store.contains, he] at hid
      simp [hj]
    | none => by_cases hj : j = id <;> simp [hj, Node.marking, Function.comp_def]

theorem hasNode_eq_isSome (id : String) : c.hasNode id = (c.marking? id).isSome := by
  simp [hasNode, marking?]

theorem hasNode_updateMarking (id j : String) (f : Marking → Marking) :
    (c.updateMarking id f).hasNode j = c.hasNode j := by
  simp [hasNode_eq_isSome, marking?_updateMarking]

/-- The choreography with the effect of a relation brought to its target. -/
def bring (c : Choreography τ) (r : Relation τ) : Choreography τ :=
  match r.type.effect? with
  | some x => c.updateMarking r.target x.apply
  | none => c

theorem hasNode_bring (r : Relation τ) (id : String) : (c.bring r).hasNode id = c.hasNode id := by
  unfold bring
  cases r.type.effect? with
  | none => rfl
  | some x => exact hasNode_updateMarking _ _ _

theorem contains_bring (r : Relation τ) (id : String) :
    (c.bring r).events.contains id = c.events.contains id := by
  unfold bring
  cases r.type.effect? with
  | none => rfl
  | some x => exact contains_updateMarking _ _ _

theorem bring_comm {r t : Relation τ}
    (h : ¬ (r.target = t.target ∧ r.type.clashes t.type = true)) :
    (c.bring r).bring t = (c.bring t).bring r := by
  unfold bring
  unfold RelationType.clashes at h
  cases hr : r.type.effect? with
  | none => rfl
  | some x =>
    cases ht : t.type.effect? with
    | none => rfl
    | some y =>
      refine updateMarking_comm fun hsame m => Effect.apply_comm_iff.mpr ?_
      simpa [hr, ht, hsame] using h

theorem effectsOn_append (id : String) (E F : List (Relation τ)) :
    effectsOn id (E ++ F) = effectsOn id E ++ effectsOn id F := by
  simp [effectsOn]

theorem effectsOn_singleton (id : String) (r : Relation τ) :
    effectsOn id [r] = if id = r.target then r.type.effect?.toList else [] := by
  have h : effectsOn id ([] ++ [r]) =
      effectsOn id [] ++ if r.target = id then r.type.effect?.toList else [] := effectsOn_concat
  rwa [List.nil_append, show effectsOn id ([] : List (Relation τ)) = [] from rfl, List.nil_append,
    if_congr eq_comm rfl rfl] at h

theorem marking?_bring (r : Relation τ) (id : String) :
    (c.bring r).marking? id = (c.marking? id).map fun m => outcome m (effectsOn id [r]) := by
  rw [effectsOn_singleton, bring]
  cases r.type.effect? with
  | none => simp
  | some x =>
    rw [marking?_updateMarking]
    by_cases hid : id = r.target <;> simp [hid, Effect.outcome_cons]

end Choreography

/-! ## Deliveries -/

namespace Run

open Choreography

variable {c d : Choreography τ} {s : Store (Relation τ)} {R S : List (Relation τ)} {r : Relation τ}

theorem deliver_cons (h : d.hasNode r.target = true) :
    (deliver d (r :: R)).1 = (deliver (d.bring r) R).1 ∧
    (deliver d (r :: R)).2.map (fun _ => ()) = (deliver (d.bring r) R).2.map fun _ => () := by
  rw [deliver, if_pos h, bring]
  cases r.type.effect? with
  | none => exact ⟨rfl, rfl⟩
  | some x =>
    refine ⟨rfl, ?_⟩
    simp only
    cases (deliver (d.updateMarking r.target x.apply) R).2 <;> rfl

theorem deliver_of_missing (h : d.hasNode r.target = false) :
    deliver d (r :: R) = (d, .stopped (.missing r.target)) := by
  rw [deliver, if_neg (by simp [h])]

theorem deliver_withRelations (c : Choreography τ) (s : Store (Relation τ))
    (R : List (Relation τ)) :
    deliver (c.withRelations s) R = ((deliver c R).1.withRelations s, (deliver c R).2) := by
  induction R generalizing c with
  | nil => rfl
  | cons r rest ih =>
    unfold deliver
    rw [hasNode_withRelations]
    split
    · cases r.type.effect? with
      | none => exact ih c
      | some x => simp only [updateMarking_withRelations, ih]
    · rfl

/-- A delivery along relations with exchanged neighbours changes the same and ends the same way;
only what is told of it is in another order. -/
theorem deliver_exchanged (h : Exchanged c.Entangled R S) (hd : ∀ id, d.hasNode id = c.hasNode id) :
    (deliver d R).1 = (deliver d S).1 ∧
    (deliver d R).2.map (fun _ => ()) = (deliver d S).2.map fun _ => () := by
  induction h generalizing d with
  | refl R => exact ⟨rfl, rfl⟩
  | @cons r R S h ih =>
    cases hr : d.hasNode r.target with
    | false => simp only [deliver_of_missing hr, and_self]
    | true =>
      obtain ⟨hmodel, hverdict⟩ := ih fun id => (hasNode_bring r id).trans (hd id)
      exact ⟨(deliver_cons hr).1.trans (hmodel.trans (deliver_cons hr).1.symm),
        (deliver_cons hr).2.trans (hverdict.trans (deliver_cons hr).2.symm)⟩
  | @swap r t R h =>
    simp only [Entangled, not_or, ← hd, Bool.not_eq_false] at h
    obtain ⟨hr, ht, hclash⟩ := h
    have hr' : (d.bring t).hasNode r.target = true := (hasNode_bring t _).trans hr
    have ht' : (d.bring r).hasNode t.target = true := (hasNode_bring r _).trans ht
    rw [(deliver_cons hr).1, (deliver_cons hr).2, (deliver_cons ht').1, (deliver_cons ht').2,
      (deliver_cons ht).1, (deliver_cons ht).2, (deliver_cons hr').1, (deliver_cons hr').2,
      bring_comm hclash]
    exact ⟨rfl, rfl⟩
  | trans h h' ih ih' => exact ⟨(ih hd).1.trans (ih' hd).1, (ih hd).2.trans (ih' hd).2⟩

theorem contains_deliver (R : List (Relation τ)) (id : String) :
    (deliver c R).1.events.contains id = c.events.contains id := by
  induction R generalizing c with
  | nil => rfl
  | cons r R ih =>
    cases hr : c.hasNode r.target with
    | false => rw [deliver_of_missing hr]
    | true => rw [(deliver_cons hr).1, ih, contains_bring]

/-- A delivery that comes to an end has brought every effect to its target. -/
theorem marking?_deliver {told : List (String × Effect)} (h : (deliver c R).2 = .done told)
    (id : String) :
    (deliver c R).1.marking? id = (c.marking? id).map fun m => outcome m (effectsOn id R) := by
  induction R generalizing c told with
  | nil => simp [deliver, effectsOn]
  | cons r R ih =>
    cases hr : c.hasNode r.target with
    | false => rw [deliver_of_missing hr] at h; cases h
    | true =>
      obtain ⟨hmodel, hverdict⟩ := deliver_cons (R := R) hr
      obtain ⟨rest, hrest⟩ : ∃ rest, (deliver (c.bring r) R).2 = .done rest := by
        rw [h] at hverdict
        cases hv : (deliver (c.bring r) R).2 with
        | done rest => exact ⟨rest, rfl⟩
        | refused => rw [hv] at hverdict; cases hverdict
        | stopped o => rw [hv] at hverdict; cases hverdict
      have hsplit : effectsOn id (r :: R) = effectsOn id [r] ++ effectsOn id R :=
        effectsOn_append id [r] R
      rw [hmodel, ih hrest, marking?_bring, Option.map_map, hsplit]
      simp only [Function.comp_def, ← Effect.outcome_append]

/-! ## Firings -/

/-- The run with other relations in its snapshot. -/
def withRelations (r : Run τ) (s : Store (Relation τ)) : Run τ :=
  { r with model := r.model.withRelations s }

/-- The same relations in an order in which those out of one event that are entangled stand as they
did. -/
structure Reordered (c : Choreography τ) (s : Store (Relation τ)) : Prop where
  perm : c.relations.entries.Perm s.entries
  kept : c.relations.entries.Pairwise fun r t =>
    r.source = t.source → c.Entangled r t → [r, t].Sublist s.entries

theorem Reordered.outgoing (h : Reordered c s) (id : String) :
    Exchanged c.Entangled (c.outgoing id) ((c.withRelations s).outgoing id) := by
  refine .of_perm (c.relations.nodup_entries.filter _) (h.perm.filter _) ?_
  refine (h.kept.filter _).imp_of_mem fun {r t} hr ht hrt htell => ?_
  have hsource : r.source = id := by simpa using (List.mem_filter.mp hr).2
  have hsource' : t.source = id := by simpa using (List.mem_filter.mp ht).2
  have hsub := (hrt (hsource.trans hsource'.symm) htell).filter fun r => r.source == id
  rwa [List.filter_cons_of_pos (by simp [hsource]), List.filter_cons_of_pos (by simp [hsource']),
    List.filter_nil] at hsub

theorem Reordered.after (h : Reordered c s) (ids : List String) :
    Reordered ((start c).after ids).model s := by
  rw [model_after_trail]
  refine ⟨h.perm, h.kept.imp fun {r t} hrt hsource htell => hrt hsource ?_⟩
  simpa only [Entangled, hasNode_marked] using htell

theorem start_withRelations (h : c.relations.entries.Perm s.entries) :
    start (c.withRelations s) = (start c).withRelations s := by
  have hgated : isGated (c.withRelations s) = isGated c := funext fun id => h.any_eq.symm
  simp only [start, initialMarking, hgated]
  rfl

variable {u : Run τ}

/-- An attempt to fire an event does the same and answers the same. -/
theorem fire_withRelations (h : Reordered u.model s) (id : String) :
    ((u.withRelations s).fire id).value =
      ((u.fire id).value.1.withRelations s, (u.fire id).value.2) := by
  obtain ⟨model, history⟩ := u
  obtain ⟨hmodel, hverdict⟩ := deliver_exchanged (h.outgoing id) fun _ => rfl
  have hevents : (model.withRelations s).events = model.events := rfl
  unfold fire
  simp only [withRelations, hevents, deliver_withRelations]
  cases model.events.get? id with
  | none => rfl
  | some e =>
    by_cases hx : e.marking.executable = true
    · rcases hout : deliver model (model.outgoing id) with ⟨m, v⟩
      rcases hout' : deliver model ((model.withRelations s).outgoing id) with ⟨m', v'⟩
      rw [hout, hout'] at hmodel hverdict
      subst hmodel
      simp only [hx, if_true]
      cases v <;> cases v' <;> cases hverdict <;> rfl
    · simp only [hx]
      rfl

/-- A firing that comes to an end brings to every node the effects of its relations to it, in their
order, and marks its event as executed. -/
theorem marking?_fire {id : String} (h : (u.fire id).value.2 = .done ()) (j : String) :
    (u.fire id).value.1.model.marking? j = (u.model.marking? j).map fun m =>
      { outcome m (effectsOn j (u.model.outgoing id)) with
        executed := m.executed || j == id } := by
  unfold fire at h ⊢
  cases he : u.model.events.get? id with
  | none => rw [he] at h; cases h
  | some e =>
    rw [he] at h
    by_cases hx : e.marking.executable = true
    · rcases hout : deliver u.model (u.model.outgoing id) with ⟨m, v⟩
      simp only [hx, if_true, hout] at h ⊢
      cases v with
      | refused => cases h
      | stopped o => cases h
      | done told =>
        have hmarking := marking?_deliver (congrArg Prod.snd hout) j
        have hevent : m.events.contains id = true := by
          have h := contains_deliver (c := u.model) (u.model.outgoing id) id
          rw [hout] at h
          rw [h, Store.contains, he, Option.isSome_some]
        have hexecuted := marking?_updateMarking (c := m) id j fun k => { k with executed := true }
        rw [updateMarking, if_pos hevent] at hexecuted
        rw [hout] at hmarking
        rw [hexecuted, hmarking, Option.map_map]
        refine Option.map_congr fun k _ => ?_
        by_cases hj : j = id <;> simp [hj, outcome]
    · simp only [hx] at h
      cases h

/-! ## Runs -/

/-- What the attempts of a run answer. -/
def results (r : Run τ) : List String → List (Verdict Unit)
  | [] => []
  | id :: rest => (r.fire id).value.2 :: (r.fire id).value.1.results rest

theorem results_concat (r : Run τ) (ids : List String) (id : String) :
    r.results (ids ++ [id]) = r.results ids ++ [((r.after ids).fire id).value.2] := by
  induction ids generalizing r with
  | nil => rfl
  | cons j rest ih =>
    rw [List.cons_append, results, ih]
    rfl

theorem run_withRelations (h : Reordered c s) (ids : List String) :
    (start (c.withRelations s)).results ids = (start c).results ids ∧
    (start (c.withRelations s)).after ids = ((start c).after ids).withRelations s := by
  induction ids using List.reverseRecOn with
  | nil => exact ⟨rfl, start_withRelations h.perm⟩
  | append_singleton ids id ih =>
    obtain ⟨hresults, hafter⟩ := ih
    rw [results_concat, results_concat, after_concat, after_concat, hresults, hafter,
      fire_withRelations (h.after ids) id]
    exact ⟨rfl, rfl⟩

/-- Between the same ends, no exclusion stands after an inclusion or a condition. -/
def ExclusionsFirst (c : Choreography τ) : Prop :=
  c.relations.entries.Pairwise fun r t => r.pair = t.pair → t.type = .exclusion →
    r.type ≠ .inclusion ∧ r.type ≠ .condition

theorem outcome_of_exclusionsFirst (h : ExclusionsFirst c) (id j : String) (m : Marking) :
    outcome m (effectsOn j (c.outgoing id)) = Effect.merged m (effectsOn j (c.outgoing id)) := by
  refine Effect.outcome_eq_merged m (List.pairwise_filterMap.mpr ?_)
  refine ((h.filter _).filter _).imp_of_mem fun {r t} hr ht hrt x hx y hy hxy => ?_
  have hends : ∀ r ∈ (c.outgoing id).filter (fun r => r.target == j), r.pair = (id, j) := by
    intro r hr
    simp only [outgoing, List.mem_filter, beq_iff_eq] at hr
    rw [Relation.pair, hr.1.2, hr.2]
  have htype : t.type = .exclusion := by
    subst hxy
    cases ht : t.type <;> simp [ht, RelationType.effect?] at hy ⊢
  obtain ⟨hi, hx'⟩ := hrt ((hends r hr).trans (hends t ht).symm) htype
  constructor <;> rintro rfl <;> cases hr : r.type <;> simp_all [RelationType.effect?]

/-- Two choreographies that differ in the order of their relations only, and in it not for entangled
ones: every sequence of attempts to fire an event each has the same answers in both, and comes to
the same events, the same containers and the same history. Where no exclusion stands after an
inclusion or a condition between the same ends, each firing merges its effects on a node in the
fixed priority. -/
theorem results_reordered (h : Reordered c s) (ids : List String) :
    (start (c.withRelations s)).results ids = (start c).results ids ∧
    ((start (c.withRelations s)).after ids).model.events = ((start c).after ids).model.events ∧
    ((start (c.withRelations s)).after ids).model.containers =
      ((start c).after ids).model.containers ∧
    ((start (c.withRelations s)).after ids).history = ((start c).after ids).history ∧
    (ExclusionsFirst c → ∀ id, (((start c).after ids).fire id).value.2 = .done () → ∀ j,
      ((start c).after (ids ++ [id])).model.marking? j =
        (((start c).after ids).model.marking? j).map fun m =>
          { Effect.merged m (effectsOn j (c.outgoing id)) with
            executed := m.executed || j == id }) := by
  obtain ⟨hresults, hafter⟩ := run_withRelations h ids
  rw [hresults, hafter]
  refine ⟨rfl, rfl, rfl, rfl, fun hfirst id hdone j => ?_⟩
  have houtgoing : ((start c).after ids).model.outgoing id = c.outgoing id := by
    rw [model_after_trail, outgoing_marked]
  rw [after_concat, marking?_fire hdone, houtgoing]
  simp only [outcome_of_exclusionsFirst hfirst]

/-- The sample with several relations from the first event to the second. -/
def contested (types : List RelationType) : Choreography String :=
  { Sample.choreography with
    relations := .ofList (types.map (Sample.relation "e0" "e1") ++
      [Sample.relation "e1" "e2" .response, Sample.relation "e0" "e2" .condition]) }

/-- The last relation and the response may come first, the exclusion stays where it is. -/
theorem results_contested :
    Reordered (contested [.exclusion, .inclusion, .response])
      (.ofList [Sample.relation "e0" "e2" .condition, Sample.relation "e0" "e1" .response,
        Sample.relation "e0" "e1" .exclusion, Sample.relation "e1" "e2" .response,
        Sample.relation "e0" "e1" .inclusion]) ∧
    ExclusionsFirst (contested [.exclusion, .inclusion, .response]) ∧
    ((start (contested [.exclusion, .inclusion, .response])).after ["e0"]).model.marking? "e1" =
      some { included := true, pending := true, executable := true } := by
  have h : Reordered (contested [.exclusion, .inclusion, .response])
      (.ofList [Sample.relation "e0" "e2" .condition, Sample.relation "e0" "e1" .response,
        Sample.relation "e0" "e1" .exclusion, Sample.relation "e1" "e2" .response,
        Sample.relation "e0" "e1" .inclusion]) := ⟨by decide +kernel, by decide +kernel⟩
  have hfirst : ExclusionsFirst (contested [.exclusion, .inclusion, .response]) := by
    unfold ExclusionsFirst
    decide +kernel
  refine ⟨h, hfirst, ?_⟩
  exact ((results_reordered h []).2.2.2.2 hfirst "e0" (by decide +kernel) "e1").trans
    (by decide +kernel)

/-- The order of an inclusion and an exclusion of one event by another decides whether the event can
fire afterwards, and with the inclusion first the fixed priority is not what comes out. -/
theorem not_results_reordered :
    (¬ ∀ (c : Choreography String) (s : Store (Relation String)),
      c.relations.entries.Perm s.entries → ∀ ids,
        (start (c.withRelations s)).results ids = (start c).results ids) ∧
    (¬ ∀ (c : Choreography String) (s : Store (Relation String)),
      c.relations.entries.Perm s.entries → ∀ ids j,
        ((start (c.withRelations s)).after ids).model.marking? j =
          ((start c).after ids).model.marking? j) ∧
    ¬ ∀ (c : Choreography String) (id : String), ((start c).fire id).value.2 = .done () → ∀ j,
      ((start c).fire id).value.1.model.marking? j = ((start c).model.marking? j).map fun m =>
        { Effect.merged m (effectsOn j (c.outgoing id)) with
          executed := m.executed || j == id } := by
  have hperm : (contested [.inclusion, .exclusion]).relations.entries.Perm
      (contested [.exclusion, .inclusion]).relations.entries := by decide +kernel
  refine ⟨fun h => ?_, fun h => ?_, fun h => ?_⟩
  · exact absurd (h _ _ hperm ["e0", "e1"]) (by decide +kernel)
  · exact absurd (h _ _ hperm ["e0"] "e1") (by decide +kernel)
  · exact absurd (h (contested [.inclusion, .exclusion]) "e0" (by decide +kernel) "e1")
      (by decide +kernel)

end Run

end Dcr
