import Dcr.Proofs.Survival
import Dcr.Proofs.Tidy

/-! What becomes of relations after loading. In a tidy choreography nothing is stored over a
relation: it is found again after every call, unless the call is about it, an end of it goes, it is a
generated exclusion that is not wanted, or it is a spawn whose target is made a nest. `Fate` says this
of the steps of an edit, `CallFate` of a call. -/

namespace Dcr

variable {τ : Type} [FreeText τ]

/-- The nodes that an edit is to take away, or the first id that it lists in vain. -/
def Edit.doomed (c : Choreography τ) : Edit τ → Except String (List String)
  | deleteEvent id => c.doomed [] [id]
  | deleteNodes ids => c.doomed [] ids
  | _ => .ok []

namespace Choreography

variable {b c d : Choreography τ} {H : Relation τ → Prop} {E : Prop} {q r s : Relation τ}
  {x : Container τ} {form : ContainerForm} {id k : String} {p : Option String}

/-! ## Steps -/

/-- The container that a relation belongs to has not held its ends as rivals all along. -/
def Unwanted (b c : Choreography τ) (r : Relation τ) : Prop :=
  ∀ k, r.scope = some k → ¬ (b.Rivals k r.source r.target ∧ c.Rivals k r.source r.target)

theorem Unwanted.mono (h : Unwanted b c r)
    (hrivals : ∀ k p q, b.Rivals k p q → d.Rivals k p q → c.Rivals k p q) : Unwanted b d r :=
  fun k hk ⟨hb, hd⟩ => h k hk ⟨hb, hrivals _ _ _ hb hd⟩

/-- What may have become of a relation of a choreography after some steps: it is kept, apart from
what it belongs to; or an end of it is gone; or it was generated and is not wanted; or there is
something else that accounts for it. -/
inductive Fate (b : Choreography τ) (E : Prop) (c : Choreography τ) (r : Relation τ) : Prop
  | kept {s : Relation τ} (there : s ∈ c.relations.entries) (alike : Alike s r)
      (scope : r.generated = true → s.scope = r.scope ∨ Unwanted b c r)
  | bereft (ends : ¬ c.hasNode r.source = true ∨ ¬ c.hasNode r.target = true)
  | unwanted (generated : r.generated = true) (unwanted : Unwanted b c r)
  | excused (excuse : E)

theorem fate_of_mem (h : r ∈ c.relations.entries) : Fate b E c r := .kept h rfl fun _ => .inl rfl

theorem Fate.tended (hc : c.Tidy) (h : Fate b E c r) (k : String) : Fate b E (c.tended k) r := by
  have hsame : ∀ {w : Relation τ}, Unwanted b c w → Unwanted b (c.tended k) w := fun hw =>
    hw.mono fun _ _ _ _ => rivals_withRelations.mp
  cases h with
  | bereft hends => exact .bereft hends
  | unwanted hg hunwanted => exact .unwanted hg (hsame hunwanted)
  | excused hE => exact .excused hE
  | @kept s hs halike hscope =>
    cases upkeepFate hc.linked.singleIn hs k with
    | @kept t ht hts htscope =>
      refine .kept ht (hts.trans halike) fun hg => ?_
      rcases htscope with he | ⟨-, hnot⟩ | ⟨he, -, hrivals⟩
      · exact (hscope hg).imp he.trans hsame
      · rw [halike.generated, hg] at hnot
        cases hnot
      · rw [halike.source, halike.target] at hrivals
        by_cases hk : r.scope = some k
        · exact .inl (he.trans hk.symm)
        · -- no pair of nodes has two parents in common
          refine .inr fun j hj ⟨_, hother⟩ => hk ?_
          have hother := rivals_withRelations.mp hother
          rw [hj, hc.apart.parent_unique hother.left hrivals.left]
    | unwanted hk hg hfits =>
      rw [halike.generated] at hg
      rw [halike.type, halike.source, halike.target] at hfits
      refine .unwanted hg ((hscope hg).elim (fun he j hj => ?_) hsame)
      rintro ⟨-, hrivals⟩
      obtain rfl : k = j := Option.some.inj (hk.symm.trans (he.trans hj))
      have htype := halike.type.symm.trans (hc.linked.generated s hs (halike.generated.trans hg))
      exact hfits ⟨htype, rivals_withRelations.mp hrivals⟩
    | @replaced a a' hrivals hid hother =>
      have hdash := dashless_of_rivals (k := k) (p := (a, a')) hc.dealt.dashless
        (mem_orderedPairs_rivals.mpr hrivals)
      exact absurd (hc.reserved s hs a a' hdash.1 hdash.2 hid) hother

theorem Fate.drop (hc : c.Apart) (h : Fate b E c r) (hx : c.containers.get? id = some x)
    (hempty : c.children id = []) : Fate b E (c.dropContainer x) r := by
  have hr := removes_dropContainer hc hx hempty
  obtain ⟨-, rfl⟩ := get?_container_iff.mp hx
  have hsame : ∀ {w : Relation τ}, Unwanted b c w → Unwanted b (c.dropContainer x) w := fun hw =>
    hw.mono fun _ _ _ _ => hr.rivals_of
  cases h with
  | bereft hends =>
    exact .bereft (hends.imp (fun hout hin => hout (hr.hasNode_iff.mp hin).1)
      fun hout hin => hout (hr.hasNode_iff.mp hin).1)
  | unwanted hg hunwanted => exact .unwanted hg (hsame hunwanted)
  | excused hE => exact .excused hE
  | @kept s hs halike hscope =>
    by_cases htouch : r.source = x.id ∨ r.target = x.id
    · exact .bereft (htouch.imp (fun he hin => (hr.hasNode_iff.mp hin).2 he)
        fun he hin => (hr.hasNode_iff.mp hin).2 he)
    · have htouch : ¬ s.touches x.id = true := by
        rwa [Relation.touches_iff, halike.source, halike.target]
      exact .kept (List.mem_filter.mpr ⟨hs, by simpa using htouch⟩) halike fun hg =>
        (hscope hg).imp_right hsame

/-- A move makes rivals only in the container that it leads to. -/
theorem rivals_of_setParent (hc : c.Apart) (hk : p ≠ some k) {a a' : String}
    (h : (c.setParent id p).Rivals k a a') : c.Rivals k a a' := by
  have hback : ∀ {a}, a ∈ (c.setParent id p).children k → a ∈ c.children k := fun ha => by
    rcases (mem_children_setParent hc).mp ha with ⟨-, -, hp⟩ | ⟨-, ha⟩
    · exact absurd hp hk
    · exact ha
  exact ⟨(form?_setParent hc).symm.trans h.choice, hback h.left, hback h.right, h.ne⟩

theorem Fate.place (hc : c.Apart) (h : Fate b E c r)
    (hp : ∀ k, p = some k → ∀ a a', ¬ b.Rivals k a a') : Fate b E (c.setParent id p) r := by
  have hsame : ∀ {w : Relation τ}, Unwanted b c w → Unwanted b (c.setParent id p) w := fun hw =>
    hw.mono fun k _ _ hb hd => rivals_of_setParent hc (fun he => hp k he _ _ hb) hd
  cases h with
  | bereft hends =>
    refine .bereft ?_
    rwa [hasNode_setParent hc, hasNode_setParent hc]
  | unwanted hg hunwanted => exact .unwanted hg (hsame hunwanted)
  | excused hE => exact .excused hE
  | kept hs halike hscope =>
    exact .kept ((relations_setParent (c := c) id p).symm ▸ hs) halike fun hg =>
      (hscope hg).imp_right hsame

/-- A tidy choreography in which all relations of another one are accounted for. -/
structure Fates (b : Choreography τ) (H : Relation τ → Prop) (c : Choreography τ) : Prop where
  tidy : c.Tidy
  fate : ∀ r ∈ b.relations.entries, Fate b (H r) c r

theorem Tidy.fates (h : c.Tidy) (hc : c.relations = b.relations) : Fates b H c :=
  ⟨h, fun _ hr => fate_of_mem (hc ▸ hr)⟩

/-- All relations stay accounted for while nodes are moved to where there were no rivals. -/
theorem fates_steps (b : Choreography τ) (H : Relation τ → Prop) :
    Steps (fun p => ∀ k, p = some k → ∀ a a', ¬ b.Rivals k a a') (Fates b H) where
  tended k h := ⟨h.tidy.tended k, fun r hr => (h.fate r hr).tended h.tidy k⟩
  drop h hx hc := ⟨h.tidy.drop hx hc, fun r hr => (h.fate r hr).drop h.tidy.apart hx hc⟩
  place id _ hp h := ⟨h.tidy.setParent id _, fun r hr => (h.fate r hr).place h.tidy.apart hp⟩

/-! ## Deletions -/

/-- A deletion that stops midway completes nothing. -/
theorem halts_of_eraseNodes {ids gone : List String} {v : Verdict (List (Node τ))}
    (hlisted : c.doomed [] ids = .ok gone) (hd : (c.cut gone).eraseNodes gone = (d, v))
    (hv : ∀ ns, v ≠ .done ns) (answer : Answer τ) :
    (Edit.deleteNodesAloud c ids).value.2 ≠ .done answer := by
  unfold cut at hd
  have hdeleted : ∀ ns, (c.deleteNodes ids).value.2 ≠ .done ns := by
    unfold Choreography.deleteNodes
    simp only [hlisted, hd]
    cases v with
    | done ns => exact absurd rfl (hv ns)
    | refused => exact fun _ h => nomatch h
    | stopped o => exact fun _ h => nomatch h
  rw [value_deleteNodesAloud]
  intro h
  obtain ⟨ns, hns, -⟩ := Verdict.map_eq_done.mp h
  exact hdeleted ns hns

theorem Tidy.fates_deleteNodes (h : c.Tidy) {ids : List String}
    (hhalted : ∀ r gone, c.doomed [] ids = .ok gone → r.source ∈ gone ∨ r.target ∈ gone →
      (∀ answer, (Edit.deleteNodesAloud c ids).value.2 ≠ .done answer) → H r) :
    Fates c H (Edit.deleteNodesAloud c ids).value.1 := by
  have hcut : ∀ gone, (c.cut gone).Apart := fun gone => (h.dealt.redraw rfl rfl).apart
  refine (fates_steps c H).deleteNodesAloud (h.fates rfl) (fun gone d ns hd => ?_)
    fun gone d v hlisted hd hv => ?_
  · obtain ⟨-, -, -, hrel, hdone⟩ := eraseNodes_cases (hcut gone) hd
    obtain ⟨-, -, hout⟩ := hdone ns rfl
    have habsent : ∀ {a}, a ∈ gone → ¬ (d.releaseNodes ns).hasNode a = true := fun ha hthere => by
      obtain ⟨n, hn, rfl⟩ := hasNode_iff.mp hthere
      exact hout n hn ha
    refine ⟨h.releaseNodes hd, fun r hr => ?_⟩
    by_cases hends : r.source ∈ gone ∨ r.target ∈ gone
    · exact .bereft (hends.imp habsent habsent)
    · exact fate_of_mem (show r ∈ d.relations.entries from hrel ▸ mem_cut.mpr ⟨hr, not_or.mp hends⟩)
  · obtain ⟨-, -, -, hrel, -⟩ := eraseNodes_cases (hcut gone) hd
    refine ⟨h.eraseNodes hd, fun r hr => ?_⟩
    by_cases hends : r.source ∈ gone ∨ r.target ∈ gone
    · exact .excused (hhalted r gone hlisted hends (halts_of_eraseNodes hlisted hd hv))
    · exact fate_of_mem (hrel ▸ mem_cut.mpr ⟨hr, not_or.mp hends⟩)

/-! ## Edits of relations -/

theorem Tidy.fates_createRelation (h : c.Tidy) {a a' : String} (ha : c.hasNode a = true)
    (ha' : c.hasNode a' = true) (t : RelationType) (guard : τ) :
    Fates c H (c.createRelation a a' t guard).value.1 := by
  unfold Choreography.createRelation
  split
  · exact h.fates rfl
  · next hrej =>
    have hlinkable := (admissible_newRelation ha ha' hrej guard).linkable
    exact ⟨h.insert hlinkable, fun r hr =>
      fate_of_mem ((hlinkable.mem_insert h.linked h.dealt.dashless).mpr (.inl hr))⟩

theorem Tidy.reguard (h : c.Tidy) (id : String) (guard : Option τ) : Tidy { c with
    relations := c.relations.modify id (fun r => Choreography.reguard r guard) fun _ => rfl } := by
  have hpick : ∀ s ∈ (c.relations.modify id (fun r => Choreography.reguard r guard)
      fun _ => rfl).entries, ∃ r ∈ c.relations.entries, s.id = r.id ∧ s.pair = r.pair ∧
        s.type = r.type ∧ s.generated = r.generated ∧ s.scope = r.scope := by
    intro s hs
    obtain ⟨r, hr, rfl⟩ := Store.mem_modify.mp hs
    exact ⟨r, hr, by split <;> exact ⟨rfl, rfl, rfl, rfl, rfl⟩⟩
  refine ⟨h.dealt.redraw rfl rfl, h.linked.revise fun s hs => ?_, fun s hs hg => ?_⟩
  · obtain ⟨r, hr, hid, hpair, htype, hgenerated, -⟩ := hpick s hs
    exact ⟨r, hr, hid, hpair, htype, hgenerated⟩
  · obtain ⟨r, hr, -, -, -, hgenerated, hscope⟩ := hpick s hs
    exact hscope ▸ h.bound r hr (hgenerated ▸ hg)

theorem Tidy.fates_updateRelation (h : c.Tidy) (hq : q ∈ c.relations.entries)
    (type : Option RelationType) (guard : Option τ)
    (hrevised : ∀ s ∈ (c.updateRelation q type guard).value.1.relations.entries, s.pair = q.pair →
      s.type = type.getD q.type → H q) : Fates c H (c.updateRelation q type guard).value.1 := by
  unfold Choreography.updateRelation at hrevised ⊢
  split
  · exact h.fates rfl
  · next hscope =>
    rw [if_neg hscope] at hrevised
    have hgenerated : q.generated = false := by
      by_contra hg
      exact hscope (h.bound q hq (by simpa using hg))
    generalize type.getD q.type = t at hrevised ⊢
    by_cases ht : t = q.type
    · -- only the guard may change
      subst ht
      simp only [if_true, updated] at hrevised ⊢
      refine ⟨h.reguard q.id guard, fun r hr => ?_⟩
      by_cases hid : r.id = q.id
      · obtain rfl := Store.eq_of_key hr hq hid
        exact .excused (hrevised _ (Store.mem_modify.mpr ⟨r, hr, (if_pos rfl).symm⟩) rfl rfl)
      · have hmem : r ∈ (c.relations.modify q.id (fun r => Choreography.reguard r guard)
            fun _ => rfl).entries := Store.mem_modify.mpr ⟨r, hr, (if_neg hid).symm⟩
        exact fate_of_mem hmem
    · simp only [ht, if_false] at hrevised ⊢
      split
      · exact h.fates rfl
      · next hrej =>
        have hd : Tidy { c with relations := c.relations.erase q.id } :=
          h.discard fun r hr => (Store.mem_erase.mp hr).1
        have hends := h.linked.ends q hq
        have hlinkable : Linkable { c with relations := c.relations.erase q.id }
            (Choreography.reguard (retype q t) guard) :=
          ⟨rfl, hends.1, hends.2, fun s hs hpair => (single_of_relationRejection? hrej).1 s
            (Store.mem_erase.mp hs).1 hpair, hgenerated⟩
        have hmem := fun s => hlinkable.mem_insert (s := s) hd.linked hd.dealt.dashless
        simp only [hrej, updated, ht, if_false] at hrevised ⊢
        refine ⟨hd.insert hlinkable, fun r hr => ?_⟩
        by_cases hid : r.id = q.id
        · obtain rfl := Store.eq_of_key hr hq hid
          exact .excused (hrevised _ ((hmem _).mpr (.inr rfl)) rfl rfl)
        · exact fate_of_mem ((hmem r).mpr (.inl (Store.mem_erase.mpr ⟨hr, hid⟩)))

theorem Tidy.fates_deleteRelation (h : c.Tidy) (hq : q ∈ c.relations.entries)
    (hdeleted : (c.deleteRelation q).value.2 = .done () → H q) :
    Fates c H (c.deleteRelation q).value.1 := by
  unfold Choreography.deleteRelation at hdeleted ⊢
  split
  · exact h.fates rfl
  · next hscope =>
    rw [if_neg hscope] at hdeleted
    refine ⟨h.discard fun r hr => (Store.mem_erase.mp hr).1, fun r hr => ?_⟩
    by_cases hid : r.id = q.id
    · obtain rfl := Store.eq_of_key hr hq hid
      exact .excused (hdeleted rfl)
    · exact fate_of_mem (Store.mem_erase.mpr ⟨hr, hid⟩)

/-! ## Edits -/

/-- What an edit that converts no container makes of the relations, where what it is asked to do to
them and what it stops at are accounted for. -/
theorem Tidy.fates_perform (h : c.Tidy) {edit : Edit τ} (hthere : edit.absent? c = none)
    (hmakes : ∀ id kind type x, edit = .changeContainerType id kind type →
      c.containers.get? id = some x → x.kind = kind)
    (hrevised : ∀ r type guard s, edit = .updateRelation r.id type guard →
      s ∈ (edit.perform c).value.1.relations.entries → s.pair = r.pair →
        s.type = type.getD r.type → H r)
    (hdeleted : ∀ r, edit = .deleteRelation r.id → (edit.perform c).value.2 = .done .done → H r)
    (hhalted : ∀ r gone, edit.doomed c = .ok gone → r.source ∈ gone ∨ r.target ∈ gone →
      (∀ answer, (edit.perform c).value.2 ≠ .done answer) → H r) :
    Fates c H (edit.perform c).value.1 := by
  have hstart : Fates c H c := h.fates rfl
  have hsteps := fates_steps c H
  by_cases haside : edit.isAside = true
  · obtain ⟨_, _, _, he⟩ := perform_aside (c := c) haside
    rw [he]
    exact Tidy.fates (h.redraw rfl rfl rfl) rfl
  cases edit with
  | createEvent e => exact hsteps.createEvent hstart ((h.withEvent e).fates rfl)
  | updateEvent id content =>
    obtain ⟨-, hids, hrelations⟩ := aside_updateEvent (c := c) id content
    exact (h.redraw (skeleton_updateEvent id content) hids hrelations).fates hrelations
  | deleteEvent id => exact h.fates_deleteNodes hhalted
  | createContainer w =>
    refine hsteps.createContainer hstart ((h.withContainer w).fates rfl) fun k hk a a' hrivals => ?_
    cases hk
    exact h.dealt.unused w.kind.node
      (hasNode_of_contains (contains_iff_form?.mpr (by rw [hrivals.choice]; rfl)))
  | updateContainer id label marking =>
    refine withFound_rule hstart fun x _ => ?_
    obtain ⟨-, hids, hrelations⟩ := aside_updateContainer (c := c) x label marking
    exact (h.redraw (skeleton_updateContainer x label marking) hids hrelations).fates hrelations
  | changeContainerType id kind type =>
    refine withFound_rule hstart fun x hx => ?_
    have hkind := hmakes id kind type x rfl hx
    obtain ⟨-, rfl⟩ := get?_container_iff.mp hx
    exact hsteps.changeContainerType hstart (fun t hk => (h.reformed hx hk t).fates rfl)
      fun hne => absurd hkind hne
  | moveNode id parent =>
    exact hsteps.reparent hstart ((h.setParent id parent).fates (relations_setParent id parent))
  | deleteNodes ids => exact h.fates_deleteNodes hhalted
  | createRelation source target type guard =>
    have hends := hasNode_of_absentNode? hthere
    exact h.fates_createRelation (hends source (by simp)) (hends target (by simp)) type guard
  | updateRelation id type guard =>
    obtain ⟨q, hq⟩ := found_of_absentUnless hthere
    obtain ⟨hmem, hid⟩ := Store.get?_eq_some_iff.mp hq
    obtain rfl : q.id = id := hid
    have hvalue : ((Edit.updateRelation q.id type guard).perform c).value.1 =
        (c.updateRelation q type guard).value.1 := by
      simp only [Edit.perform, Edit.withFound, Edit.answer, hq]
    have hrevised := hrevised q type guard
    rw [hvalue] at hrevised ⊢
    exact h.fates_updateRelation hmem type guard fun s hs => hrevised s rfl hs
  | deleteRelation id =>
    obtain ⟨q, hq⟩ := found_of_absentUnless hthere
    obtain ⟨hmem, hid⟩ := Store.get?_eq_some_iff.mp hq
    obtain rfl : q.id = id := hid
    have hvalue : ((Edit.deleteRelation q.id).perform c).value =
        ((c.deleteRelation q).value.1, (c.deleteRelation q).value.2.map fun _ => .done) := by
      simp only [Edit.perform, Edit.withFound, Edit.answer, hq]
    have hdeleted := hdeleted q rfl
    rw [hvalue] at hdeleted ⊢
    exact h.fates_deleteRelation hmem fun hdone => hdeleted (by rw [hdone]; rfl)
  | _ => exact absurd rfl haside

/-- The relations of a choreography after a container has got its new id are all accounted for when
the conversion ends, the spawns that led to it by its being a nest. -/
theorem Tidy.fates_convert (h : c.Tidy) (hx : x ∈ c.containers.entries) (hk : form.kind ≠ x.kind) :
    Fates (c.converted x form) (fun r => form.kind = .nest ∧ r.type = .spawn ∧
      r.target = (c.ids.allocate form.kind.node).1) (c.convert x form).value.1 := by
  refine (fates_steps _ _).convert ((h.converted hx hk).fates rfl) fun hnest d hd => ?_
  refine ⟨hd.tidy.discard fun r hr => (mem_dropSpawns.mp hr).1, fun r hr => ?_⟩
  have hsame : ∀ {w : Relation τ}, Unwanted (c.converted x form) d w → Unwanted (c.converted x form)
      (d.dropSpawns (c.ids.allocate form.kind.node).1).value w := fun hw =>
    hw.mono fun _ _ _ _ => rivals_withRelations.mp
  cases hd.fate r hr with
  | bereft hends => exact .bereft hends
  | unwanted hg hunwanted => exact .unwanted hg (hsame hunwanted)
  | excused hE => exact .excused hE
  | @kept s hs halike hscope =>
    by_cases hspawn : s.target = (c.ids.allocate form.kind.node).1 ∧ s.type = .spawn
    · rw [halike.target, halike.type] at hspawn
      exact .excused ⟨hnest, hspawn.2, hspawn.1⟩
    · exact .kept (mem_dropSpawns.mpr ⟨hs, hspawn⟩) halike fun hg => (hscope hg).imp_right hsame

/-- What there is between a conversion's renaming and its end is a matter of relations. -/
theorem rivals_convert {a a' : String} (hrivals : (c.convert x form).value.1.Rivals k a a') :
    (c.converted x form).Rivals k a a' := by
  rw [value_convert] at hrivals
  split at hrivals
  · exact rivals_withRelations.mp (rivals_withRelations.mp hrivals)
  · exact rivals_withRelations.mp hrivals

/-- Every edit keeps a choreography tidy. -/
theorem Tidy.perform (h : c.Tidy) {edit : Edit τ} (hthere : edit.absent? c = none) :
    (edit.perform c).value.1.Tidy := by
  by_cases hmakes : ∀ id kind type x, edit = .changeContainerType id kind type →
      c.containers.get? id = some x → x.kind = kind
  · exact (h.fates_perform (H := fun _ => True) hthere hmakes (fun _ _ _ _ _ _ _ _ => trivial)
      (fun _ _ _ => trivial) fun _ _ _ _ _ => trivial).tidy
  · simp only [not_forall] at hmakes
    obtain ⟨id, kind, type, x, rfl, hx, hk⟩ := hmakes
    rw [value_perform_conversion type hx hk]
    refine (h.fates_convert (container_mem_nodes.mp (get?_container_iff.mp hx).1) ?_).tidy
    rw [ContainerForm.kind_ofKind]
    exact Ne.symm hk

end Choreography

/-! ## Calls -/

namespace Editor

open Choreography (Fate Follows Tidy)

variable {e : Editor τ} {r : Relation τ}

/-- What becomes of a relation in a call. It is found again, between the same nodes and with the
same type and guard; or the call is an update of it, after which it joins the same nodes with the
type asked for, or deletes it; or an end of it is gone; or it was generated and the container that it
belongs to did not hold its ends as rivals before or does not after; or it is a spawn whose target
is made a nest; or it was to go with an end of it in a deletion that stops midway. -/
inductive CallFate [DecidableEq τ] (e : Editor τ) (call : Call τ) (r : Relation τ) : Prop
  | kept {s : Relation τ} (there : s ∈ (e.call call).value.choreography.relations.entries)
      (follows : Follows (e.nameAfter call) r s)
  | revised {t : Option RelationType} {guard : Option τ} {s : Relation τ}
      (asked : call = .edit (.updateRelation r.id t guard))
      (there : s ∈ (e.call call).value.choreography.relations.entries) (pair : s.pair = r.pair)
      (type : s.type = t.getD r.type)
  | deleted (asked : call = .edit (.deleteRelation r.id))
      (done : (e.edit (.deleteRelation r.id)).value.2 = .done .done)
  | bereft (ends : ¬ (e.call call).value.choreography.hasNode (e.nameAfter call r.source) = true ∨
      ¬ (e.call call).value.choreography.hasNode (e.nameAfter call r.target) = true)
  | unwanted {k : String} (generated : r.generated = true) (scope : r.scope = some k)
      (fits : ¬ (e.choreography.Rivals k r.source r.target ∧
        (e.call call).value.choreography.Rivals (e.nameAfter call k) (e.nameAfter call r.source)
          (e.nameAfter call r.target)))
  | stranded (spawn : r.type = .spawn) (nests : e.nests call r.target)
  | halted {edit : Edit τ} {gone : List String} (asked : call = .edit edit) (idle : e.run = none)
      (listed : edit.doomed e.choreography = .ok gone) (ends : r.source ∈ gone ∨ r.target ∈ gone)
      (halts : ∀ answer, (e.edit edit).value.2 ≠ .done answer)

theorem callFate_of_conversion [DecidableEq τ] (h : e.choreography.Tidy)
    (hr : r ∈ e.choreography.relations.entries) {kind : ContainerKind} {type : Option NestType}
    {x : Container τ} (hx : e.choreography.containers.get? x.id = some x) (hk : x.kind ≠ kind)
    (hperform : (e.edit (.changeContainerType x.id kind type)).value =
      ({ e with choreography :=
          ((Edit.changeContainerType x.id kind type).perform e.choreography).value.1 },
        ((Edit.changeContainerType x.id kind type).perform e.choreography).value.2)) :
    e.CallFate (.edit (.changeContainerType x.id kind type)) r := by
  have hmem := (Store.get?_eq_some_iff.mp hx).1
  have hvalue := Choreography.value_perform_conversion type hx hk
  obtain ⟨form, hform⟩ : ∃ form, form = ContainerForm.ofKind kind type := ⟨_, rfl⟩
  have hkind : form.kind = kind := hform ▸ ContainerForm.kind_ofKind kind type
  have hname : e.nameAfter (.edit (.changeContainerType x.id kind type)) =
      renameId x.id (e.choreography.ids.allocate form.kind.node).1 := by
    rw [nameAfter_retype, hperform, hvalue, hkind]
  have hafter : (e.call (.edit (.changeContainerType x.id kind type))).value.choreography =
      (e.choreography.convert x form).value.1 := by
    rw [hform]
    simp only [Editor.call, Logged.value_map, hperform, hvalue]
  have hne : form.kind ≠ x.kind := hkind ▸ Ne.symm hk
  have hfates := h.fates_convert hmem hne
  cases hfates.fate _ (h.mem_converted.mpr ⟨r, hr, rfl⟩) with
  | kept hs halike =>
    exact .kept (hafter ▸ hs) (hname ▸ Choreography.follows_rename h.linked hr halike)
  | bereft hends => exact .bereft (by rw [hafter, hname]; exact hends)
  | unwanted hg hunwanted =>
    obtain ⟨k, hscope⟩ := Option.isSome_iff_exists.mp (h.bound r hr hg)
    refine .unwanted hg hscope fun hboth => ?_
    have hrivals := hboth.2
    rw [hafter, hname] at hrivals
    exact hunwanted _ (by rw [Relation.rename, hscope]; rfl)
      ⟨Choreography.rivals_convert hrivals, hrivals⟩
  | excused hE =>
    obtain ⟨hnest, hspawn, htarget⟩ := hE
    obtain rfl : kind = .nest := hkind.symm.trans hnest
    have hold : r.target = x.id := by
      by_contra hne
      have htarget : renameId x.id _ r.target = _ := htarget
      rw [Choreography.renameId_of_ne hne] at htarget
      exact h.dealt.unused _ (htarget ▸ (h.linked.ends r hr).2)
    have hnests : e.nests (.edit (.changeContainerType x.id .nest type)) x.id :=
      ⟨type, _, rfl, by rw [hperform, hvalue]⟩
    exact .stranded hspawn (hold.symm ▸ hnests)

theorem callFate_of_edit [DecidableEq τ] (h : e.choreography.Tidy)
    (hr : r ∈ e.choreography.relations.entries) (edit : Edit τ) : e.CallFate (.edit edit) r := by
  have hcall : (e.call (.edit edit)).value = (e.edit edit).value.1 := rfl
  rcases e.edit_cases edit with ⟨hsame, hnot⟩ | ⟨hrun, hthere, hperform⟩
  · exact .kept (hcall ▸ hsame.symm ▸ hr)
      (nameAfter_of_not_done hnot ▸ Choreography.follows_of_alike h.linked hr rfl)
  by_cases hmakes : ∀ id kind type x, edit = .changeContainerType id kind type →
      e.choreography.containers.get? id = some x → x.kind = kind
  · have hname := nameAfter_of_kept hmakes
    have hafter : (e.call (.edit edit)).value.choreography =
        (edit.perform e.choreography).value.1 := by rw [hcall, hperform]
    have hfates := h.fates_perform (H := e.CallFate (.edit edit)) hthere hmakes
      (fun r t guard s hasked hs hpair htype =>
        .revised (congrArg _ hasked) (hafter ▸ hs) hpair htype)
      (fun r hasked hdone => .deleted (congrArg _ hasked) (by rw [← hasked, hperform]; exact hdone))
      fun r gone hlisted hends hhalts => .halted rfl hrun hlisted hends (by rwa [hperform])
    cases hfates.fate r hr with
    | kept hs halike =>
      exact .kept (hafter ▸ hs) (hname ▸ Choreography.follows_of_alike h.linked hr halike)
    | bereft hends => exact .bereft (by rw [hafter, hname]; exact hends)
    | unwanted hg hunwanted =>
      obtain ⟨k, hscope⟩ := Option.isSome_iff_exists.mp (h.bound r hr hg)
      exact .unwanted hg hscope (by rw [hafter, hname]; exact hunwanted k hscope)
    | excused hfate => exact hfate
  · simp only [not_forall] at hmakes
    obtain ⟨id, kind, type, x, rfl, hx, hk⟩ := hmakes
    obtain ⟨-, rfl⟩ := Choreography.get?_container_iff.mp hx
    exact callFate_of_conversion h hr hx hk hperform

theorem callFate_of_tidy [DecidableEq τ] (h : e.choreography.Tidy) (call : Call τ)
    (hr : r ∈ e.choreography.relations.entries) : e.CallFate call r := by
  by_cases hcall : ∃ edit, call = .edit edit
  · obtain ⟨edit, rfl⟩ := hcall
    exact callFate_of_edit h hr edit
  · have hnot : ∀ edit, call ≠ .edit edit := fun edit he => hcall ⟨edit, he⟩
    have hname : e.nameAfter call = fun a => a := by
      cases call with
      | edit edit => exact absurd rfl (hnot edit)
      | _ => rfl
    exact .kept (relations_call call hnot ▸ hr)
      (hname ▸ Choreography.follows_of_alike h.linked hr rfl)

theorem tidy_call [DecidableEq τ] (h : e.choreography.Tidy) (call : Call τ) :
    (e.call call).value.choreography.Tidy :=
  call_rule h call (fun _ _ _ hc hthere => hc.perform hthere) fun _ _ _ hthere => h.perform hthere

end Editor

/-! ## Documents loaded -/

/-- No number has two ids, and every edge stands under the id of its type and ends; one that was
generated is an exclusion and belongs to something. -/
structure Document.Tidy (d : Document τ) : Prop where
  unambiguous : d.Unambiguous
  canonical : ∀ e ∈ d.edges, ∀ r ∈ e.relation?,
    r.id = Relation.idFor r.source r.target r.type r.generated
  generated : ∀ e ∈ d.edges, ∀ r ∈ e.relation?, r.generated = true →
    r.type = .exclusion ∧ r.scope.isSome

namespace Document

variable {d : Document τ} {c : Choreography τ}

theorem Tells.tidy (h : d.Tells c) (hd : d.Tidy) : c.Tidy := by
  refine ⟨h.dealt hd.unambiguous, h.linked hd.canonical fun e he r hr hg =>
    (hd.generated e he r hr hg).1, fun r hr hg => ?_⟩
  obtain ⟨e, he, haccepts⟩ := h.edge hr
  exact (hd.generated e he r haccepts.relation?_eq hg).2

theorem tidy_of_load (hc : d.load.value = .ok c) (hd : d.Tidy) : c.Tidy :=
  load_rule hc (fun _ hcheck => (tells_of_check hcheck).tidy hd) (fun _ k h => h.tended k)
    fun _ _ _ h hx hempty => h.drop hx hempty

end Document

namespace Editor

open Document (bare plainEdge plainEvent plainNest)

variable {e : Editor τ}

/-- After every session on a tidy document nothing is stored over a relation: a call leaves each one
or does to it one of the things listed. -/
theorem fates_after [DecidableEq τ] {d : Document τ} (hload : d.load.value = .ok e.choreography)
    (hd : d.Tidy) (calls : List (Call τ)) (call : Call τ) :
    ∀ r ∈ (e.after calls).choreography.relations.entries, (e.after calls).CallFate call r :=
  fun _ hr => callFate_of_tidy
    (after_rule (Document.tidy_of_load hload hd) calls fun _ call h => tidy_call h call) call hr

/-- A choice of two events with one of its exclusions, and a subprocess that one of them spawns,
with another event inside. -/
def spawner : Document String :=
  bare [plainNest "n00" .choice none, plainEvent "e0" (some "n00"), plainEvent "e01" (some "n00"),
      .container
        { id := "s0", parent := none, label := "s0", form := .subprocess, included := true,
          pending := false },
      plainEvent "e2" (some "s0")]
    [plainEdge "x-e0-e01" "e0" "e01" .exclusion (some "n00"),
      plainEdge "s-e0-s0" "e0" "s0" .spawn none,
      plainEdge "c-e01-e2" "e01" "e2" .condition none]

/-- A session in which an event leaves the choice, is joined by an exclusion to the one left there,
and comes back. -/
def returning : List (Call String) :=
  [.edit (.moveNode "e01" none), .edit (.createRelation "e0" "e01" .exclusion "late"),
    .edit (.moveNode "e01" (some "n00"))]

/-- After the session the subprocess is made a nest. -/
theorem fates_after_spawner : spawner.load.value = .ok spawner.opened ∧ spawner.Tidy ∧
    ∀ r ∈ (after { choreography := spawner.opened } returning).choreography.relations.entries,
      CallFate (after { choreography := spawner.opened } returning)
        (.edit (.changeContainerType "s0" .nest none)) r := by
  have hload : spawner.load.value = .ok spawner.opened := by decide +kernel
  have hone : spawner.Unambiguous := by
    unfold Document.Unambiguous
    decide +kernel
  have htidy : spawner.Tidy := ⟨hone, by decide +kernel, by decide +kernel⟩
  exact ⟨hload, htidy, fates_after hload htidy _ _⟩

/-- A response under the id of the condition between its ends the other way round. -/
def misnamed : Document String :=
  bare [plainEvent "e0" none, plainEvent "e1" none] [plainEdge "c-e0-e1" "e1" "e0" .response none]

/-- A relation under the id of another one is lost when that one is stored. -/
theorem not_fates : ¬ ∀ (j : Json) (c : Choreography String), (loadJson j).value = .ok c →
    ∀ (calls : List (Call String)) (call : Call String),
      ∀ r ∈ (after { choreography := c } calls).choreography.relations.entries,
        (after { choreography := c } calls).CallFate call r := by
  intro h
  have hload : (loadJson misnamed.toJson).value = .ok misnamed.opened := by decide +kernel
  have htypes : ((after { choreography := misnamed.opened } []).call
      (.edit (.createRelation "e0" "e1" .condition ""))).value.choreography.relations.entries.map
        Relation.type = [.condition] := by decide +kernel
  have hthere : (plainEdge "c-e0-e1" "e1" "e0" .response none).relation "e1" "e0" none ∈
      misnamed.opened.relations.entries := by decide +kernel
  cases h _ _ hload [] (.edit (.createRelation "e0" "e1" .condition "")) _ hthere with
  | kept hs hfollows =>
    have htype := List.mem_map_of_mem (f := Relation.type) hs
    rw [htypes, hfollows.type] at htype
    exact absurd htype (by decide)
  | revised hasked => cases hasked
  | deleted hasked => cases hasked
  | bereft hends => exact absurd hends (by decide +kernel)
  | unwanted hg => exact absurd hg (by decide +kernel)
  | stranded hspawn => cases hspawn
  | halted hasked _ hlisted hends =>
    cases hasked
    cases hlisted
    simp at hends

end Editor

end Dcr
