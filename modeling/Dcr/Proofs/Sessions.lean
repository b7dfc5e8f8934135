import Dcr.Editor
import Dcr.Proofs.Conversion
import Dcr.Proofs.Deletion
import Dcr.Sample

/-! Sessions. A choreography changes by edits only; `call_rule` carries an invariant of edits
through every call, and `after_rule` through every session. What edits keep is that everything is in
order. -/

namespace Dcr

open FreeText (ofText)

variable {τ : Type} [FreeText τ]

/-- Whether an edit is one of roles or texts. -/
def Edit.isAside : Edit τ → Bool
  | addRole _ _ _ => true
  | removeRole _ => true
  | addParticipant _ _ => true
  | removeParticipant _ _ => true
  | setSecurity _ => true
  | setDocumentation _ => true
  | _ => false

namespace Choreography

variable {c d : Choreography τ} {E L A : Set String} {D : Debt} {r : Relation τ}

/-! ## Edits of contents -/

theorem Orderly.redraw (h : c.Orderly E D) (hs : d.skeleton = c.skeleton)
    (hf : ∀ k, d.form? k = c.form? k)
    (hi : d.ids = c.ids) (hr : d.relations = c.relations) : d.Orderly E D := by
  refine ⟨h.placed.redraw hs hi, (h.owned.redraw (K := ∅) hs hr fun k _ => hf k).mono ?_ ?_ ?_⟩ <;>
    simp

theorem skeleton_updateEvent (id : String) (content : EventContent τ) :
    (c.updateEvent id content).value.1.skeleton = c.skeleton := by
  unfold Choreography.updateEvent
  split
  · rfl
  · refine skeleton_of_maps (f := fun x => x) (List.map_id _).symm rfl (fun _ _ => ⟨rfl, rfl, rfl⟩)
      fun e _ => ?_
    split <;> exact ⟨rfl, rfl⟩

/-- New contents of an event change nothing but the event. -/
theorem aside_updateEvent (id : String) (content : EventContent τ) :
    (c.updateEvent id content).value.1.containers = c.containers ∧
      (c.updateEvent id content).value.1.ids = c.ids ∧
      (c.updateEvent id content).value.1.relations = c.relations := by
  unfold Choreography.updateEvent
  split <;> exact ⟨rfl, rfl, rfl⟩

theorem Orderly.updateEvent (h : c.Orderly E D) (id : String) (content : EventContent τ) :
    (c.updateEvent id content).value.1.Orderly E D := by
  obtain ⟨hx, hi, hr⟩ := aside_updateEvent (c := c) id content
  exact h.redraw (skeleton_updateEvent id content) (fun k => by rw [form?, hx]; rfl) hi hr

/-- What an update makes of a container. -/
def relabelled (id : String) (label : Option τ) (marking : Option Marking) (x : Container τ) :
    Container τ :=
  if x.id = id then
    { x with
      label := label.getD x.label, marking := (marking.map Marking.persistent).getD x.marking }
  else x

theorem entries_updateContainer (x : Container τ) (label : Option τ) (marking : Option Marking) :
    (c.updateContainer x label marking).value.1.containers.entries =
      c.containers.entries.map (relabelled x.id label marking) := by
  cases label <;> cases marking <;>
    simp only [updateContainer, Store.entries_modify, List.map_map] <;>
    first
    | refine (List.map_id _).symm.trans (List.map_congr_left fun y _ => ?_)
    | refine List.map_congr_left fun y _ => ?_
  all_goals unfold relabelled
  all_goals by_cases hy : y.id = x.id
  all_goals simp [hy]
  rw [← hy]

omit [FreeText τ] in
theorem relabelled_same (id : String) (label : Option τ) (marking : Option Marking)
    (y : Container τ) :
    (relabelled id label marking y).id = y.id ∧ (relabelled id label marking y).parent = y.parent ∧
      (relabelled id label marking y).form = y.form := by
  unfold relabelled
  split <;> exact ⟨rfl, rfl, rfl⟩

theorem skeleton_updateContainer (x : Container τ) (label : Option τ) (marking : Option Marking) :
    (c.updateContainer x label marking).value.1.skeleton = c.skeleton := by
  obtain ⟨g, he, hg⟩ : ∃ g : Event τ → Event τ,
      (c.updateContainer x label marking).value.1.events.entries = c.events.entries.map g ∧
        ∀ e, (g e).id = e.id ∧ (g e).parent = e.parent := by
    cases marking with
    | none => exact ⟨id, by cases label <;> exact (List.map_id _).symm, fun _ => ⟨rfl, rfl⟩⟩
    | some m =>
      exact ⟨fun e => { e with marking := e.markingInside x.id m },
        by cases label <;> rfl, fun _ => ⟨rfl, rfl⟩⟩
  refine skeleton_of_maps (entries_updateContainer x label marking) he (fun y _ => ?_) fun e _ => hg e
  obtain ⟨hid, hparent, hform⟩ := relabelled_same x.id label marking y
  exact ⟨hid, hparent, congrArg ContainerForm.kind hform⟩

/-- A new label or marking of a container changes neither forms nor relations. -/
theorem aside_updateContainer (x : Container τ) (label : Option τ) (marking : Option Marking) :
    (∀ k, (c.updateContainer x label marking).value.1.form? k = c.form? k) ∧
      (c.updateContainer x label marking).value.1.ids = c.ids ∧
      (c.updateContainer x label marking).value.1.relations = c.relations := by
  refine ⟨fun k => ?_, ?_, ?_⟩
  · exact form?_of_map (entries_updateContainer x label marking)
      (fun y _ => (relabelled_same x.id label marking y).1)
      fun y _ _ => (relabelled_same x.id label marking y).2.2
  · cases label <;> cases marking <;> rfl
  · cases label <;> cases marking <;> rfl

theorem Orderly.updateContainer (h : c.Orderly E D) (x : Container τ) (label : Option τ)
    (marking : Option Marking) : (c.updateContainer x label marking).value.1.Orderly E D := by
  obtain ⟨hf, hi, hr⟩ := aside_updateContainer (c := c) x label marking
  exact h.redraw (skeleton_updateContainer x label marking) hf hi hr

/-! ## Edits of relations -/

theorem single_of_relationRejection? {a b : String} {t : RelationType}
    (h : c.relationRejection? a b t = none) :
    (∀ s ∈ c.relations.entries, s.pair = (a, b) → s.type ≠ t) ∧
      (t = .spawn → c.form? b = some .subprocess) := by
  unfold relationRejection? at h
  split at h
  · cases h
  · next hbetween =>
    split at h
    · cases h
    · next hspawn =>
      refine ⟨fun s hs hpair ht => hbetween ?_, fun ht => ?_⟩
      · exact List.find?_isSome.mpr ⟨s, hs, Relation.joins_iff.mpr ⟨hpair, ht⟩⟩
      · have hany : (c.containers.get? b).any Container.isSubprocess = true := by
          simpa [ht] using hspawn
        cases hx : c.containers.get? b with
        | none => rw [hx] at hany; cases hany
        | some x =>
          rw [hx] at hany
          have hform : x.form = .subprocess := by simpa [Container.isSubprocess] using hany
          rw [form?, hx, Option.map_some, hform]

/-- A relation that is not rejected is one that a user may add. -/
theorem admissible_newRelation {a b : String} {t : RelationType} (ha : c.hasNode a = true)
    (hb : c.hasNode b = true) (hr : c.relationRejection? a b t = none) (guard : τ) :
    c.Admissible (newRelation a b t guard) := by
  obtain ⟨hsingle, hland⟩ := single_of_relationRejection? hr
  exact ⟨rfl, ha, hb, hsingle, rfl, rfl, rfl, fun ht => if_pos ht, hland⟩

theorem Orderly.createRelation (h : c.Orderly E D) {a b : String} (ha : c.hasNode a = true)
    (hb : c.hasNode b = true) (t : RelationType) (guard : τ) :
    (c.createRelation a b t guard).value.1.Orderly E D := by
  unfold Choreography.createRelation
  split
  · exact h
  · next hr =>
    exact ⟨h.placed.redraw rfl rfl, h.owned.admit h.placed (admissible_newRelation ha hb hr guard)⟩

theorem Orderly.discard (h : c.Orderly E D) (hr : r ∈ c.relations.entries) (hs : r.scope = none) :
    Orderly E D { c with relations := c.relations.erase r.id } := by
  refine ⟨h.placed.redraw rfl rfl,
    h.owned.discard (fun s hs => (Store.mem_erase.mp hs).1) fun s hs' hsc => ?_⟩
  refine Store.mem_erase.mpr ⟨hs', fun hid => ?_⟩
  rw [Store.eq_of_key hs' hr hid, hs] at hsc
  cases hsc

theorem Orderly.deleteRelation (h : c.Orderly E D) (hr : r ∈ c.relations.entries) :
    (c.deleteRelation r).value.1.Orderly E D := by
  unfold Choreography.deleteRelation
  split
  · exact h
  · next hs => exact h.discard hr (by simpa using hs)

/-- A relation whose new type is not rejected is one that a user may add in its place. -/
theorem Orderly.admissible_retype (h : c.Orderly E D) (hr : r ∈ c.relations.entries)
    (hs : r.scope = none) {t : RelationType}
    (hrej : c.relationRejection? r.source r.target t = none) (guard : Option τ) :
    Admissible { c with relations := c.relations.erase r.id } (reguard (Choreography.retype r t) guard) := by
  obtain ⟨hsingle, hland⟩ := single_of_relationRejection? hrej
  have hends := h.owned.linked.ends r hr
  obtain ⟨hhidden, hgenerated⟩ := h.owned.loose r hr hs
  exact ⟨rfl, hends.1, hends.2, fun s hs hpair => hsingle s (Store.mem_erase.mp hs).1 hpair, hs,
    hhidden, hgenerated, fun ht => if_pos ht, hland⟩

theorem Orderly.updateRelation (h : c.Orderly E D) (hr : r ∈ c.relations.entries)
    (type : Option RelationType)
    (guard : Option τ) : (c.updateRelation r type guard).value.1.Orderly E D := by
  unfold Choreography.updateRelation
  split
  · exact h
  · next hs =>
    have hscope : r.scope = none := by simpa using hs
    generalize type.getD r.type = t
    by_cases ht : t = r.type
    · -- only the guard may change
      subst ht
      simp only [if_true, updated]
      refine ⟨h.placed.redraw rfl rfl, h.owned.reguard (fun _ => rfl) fun s hs => ?_⟩
      exact if_pos hs
    · simp only [ht, if_false]
      split
      · exact h
      · next hrej =>
        have hd := h.discard hr hscope
        simp only [updated, ht, if_false]
        exact ⟨h.placed.redraw rfl rfl,
          hd.owned.admit hd.placed (h.admissible_retype hr hscope hrej guard)⟩

/-! ## Every edit -/

theorem hasNode_of_absentNode? {ids : List String} (h : Edit.absentNode? c ids = none) :
    ∀ id ∈ ids, c.hasNode id = true := fun id hid => by
  simpa using List.find?_eq_none.mp h id hid

theorem value_deleteNodesAloud (ids : List String) : (Edit.deleteNodesAloud c ids).value =
    ((c.deleteNodes ids).value.1, (c.deleteNodes ids).value.2.map .ids) := by
  simp only [Edit.deleteNodesAloud, Logged.value_bind]
  cases (c.deleteNodes ids).value.2 <;> rfl

theorem Orderly.deleteNodesAloud (h : c.Orderly ∅ ⟨∅, L, A⟩) (ids : List String) :
    (Edit.deleteNodesAloud c ids).value.1.Orderly ∅ ⟨∅, L, A⟩ := by
  rw [value_deleteNodesAloud]
  exact h.deleteNodes ids

/-- An edit of something that was found keeps what its change keeps. -/
theorem withFound_rule {P : Choreography τ → Prop} {α : Type} {found : Option α} {id : String}
    {change : α → Logged (Choreography τ × Verdict (Answer τ))} (h : P c)
    (hc : ∀ x, found = some x → P (change x).value.1) :
    P (Edit.withFound c found id change).value.1 := by
  cases found with
  | none => exact h
  | some x => exact hc x rfl

/-- An edit of roles or texts leaves the rest alone. -/
theorem perform_aside {edit : Edit τ} (h : edit.isAside = true) :
    ∃ roles security documentation,
      (edit.perform c).value.1 = { c with roles, security, documentation } := by
  cases edit with
  | addRole name label parameters =>
    simp only [Edit.perform, Edit.answer, Choreography.addRole]
    split <;> exact ⟨_, _, _, rfl⟩
  | removeRole name => exact ⟨_, _, _, rfl⟩
  | addParticipant role bindings =>
    refine withFound_rule (P := fun d => ∃ roles security documentation,
      d = { c with roles, security, documentation }) ⟨_, _, _, rfl⟩ fun r _ => ?_
    simp only [Edit.answer, Choreography.addParticipant]
    split <;> exact ⟨_, _, _, rfl⟩
  | removeParticipant role participant => exact ⟨_, _, _, rfl⟩
  | setSecurity text => exact ⟨_, _, _, rfl⟩
  | setDocumentation text => exact ⟨_, _, _, rfl⟩
  | _ => cases h

/-- What an edit names by an id is there, where the edit does not miss it. -/
theorem found_of_absentUnless {α : Type} [Keyed α] {s : Store α} {id : String}
    (h : Edit.absentUnless (s.contains id) id = none) : ∃ x, s.get? id = some x := by
  unfold Edit.absentUnless Store.contains at h
  split at h
  · next hfound => exact Option.isSome_iff_exists.mp hfound
  · cases h

/-- Every edit keeps the order if the creation of a container does. -/
theorem Orderly.perform (h : c.Orderly ∅ ⟨∅, L, ∅⟩) {edit : Edit τ} (hthere : edit.absent? c = none)
    (hcreate : ∀ w, edit = .createContainer w → (c.createContainer w).value.1.Orderly ∅ ⟨∅, L, ∅⟩) :
    (edit.perform c).value.1.Orderly ∅ ⟨∅, L, ∅⟩ := by
  by_cases haside : edit.isAside = true
  · obtain ⟨_, _, _, he⟩ := perform_aside (c := c) haside
    rw [he]
    exact h.redraw rfl (fun _ => rfl) rfl rfl
  cases edit with
  | createEvent e => exact h.createEvent e
  | updateEvent id content => exact h.updateEvent id content
  | deleteEvent id => exact h.deleteNodesAloud [id]
  | createContainer w => exact hcreate w rfl
  | updateContainer id label marking =>
    exact withFound_rule h fun x _ => h.updateContainer x label marking
  | changeContainerType id kind type =>
    exact withFound_rule h fun x hx =>
      h.changeContainerType (Store.get?_eq_some_iff.mp hx).1 kind type
  | moveNode id parent => exact h.reparent id parent
  | deleteNodes ids => exact h.deleteNodesAloud ids
  | createRelation source target type guard =>
    have hends := hasNode_of_absentNode? hthere
    exact h.createRelation (hends source (by simp)) (hends target (by simp)) type guard
  | updateRelation id type guard =>
    exact withFound_rule h fun r hr => h.updateRelation (Store.get?_eq_some_iff.mp hr).1 type guard
  | deleteRelation id =>
    exact withFound_rule h fun r hr => h.deleteRelation (Store.get?_eq_some_iff.mp hr).1
  | _ => exact absurd rfl haside

/-- The conversion of a container completes and answers its new id. -/
theorem value_perform_conversion {id : String} {x : Container τ} {kind : ContainerKind}
    (type : Option NestType) (hx : c.containers.get? id = some x) (hk : x.kind ≠ kind) :
    ((Edit.changeContainerType id kind type).perform c).value =
      ((c.convert x (.ofKind kind type)).value.1, .done (.name (c.ids.allocate kind.node).1)) := by
  simp only [Edit.perform, Edit.withFound, hx, Logged.value_bind, Logged.value_pure,
    changeContainerType_of_ne hk, id_convert, ContainerForm.kind_ofKind]

end Choreography

/-! ## Calls -/

theorem Verdict.map_eq_done {α β : Type} {f : α → β} {v : Verdict α} {b : β} :
    v.map f = .done b ↔ ∃ a, v = .done a ∧ f a = b := by
  cases v <;> simp [Verdict.map]

namespace Editor

variable {e : Editor τ}

/-- The editor after some calls, whatever they answer. -/
def after [DecidableEq τ] (e : Editor τ) (calls : List (Call τ)) : Editor τ :=
  calls.foldl (fun e call => (e.call call).value) e

/-- A session opens with nothing or with the sample. -/
def Opening (e : Editor τ) : Prop := e = {} ∨ e = { choreography := Sample.choreography }

/-- Whether a call asks for a container and stops at an obstacle. -/
def stumbles (e : Editor τ) : Call τ → Bool
  | .edit (.createContainer w) =>
    match (e.edit (.createContainer w)).value.2 with
    | .stopped _ => true
    | _ => false
  | _ => false

/-- Whether no call of a session stumbles. -/
def smooth [DecidableEq τ] : Editor τ → List (Call τ) → Bool
  | _, [] => true
  | e, call :: rest => !e.stumbles call && smooth (e.call call).value rest

theorem edit_rule {P : Choreography τ → Prop} (h : P e.choreography) (edit : Edit τ)
    (hstep : e.run = none → edit.absent? e.choreography = none →
      P (edit.perform e.choreography).value.1) :
    P (e.edit edit).value.1.choreography := by
  unfold Editor.edit
  split
  · exact h
  · next hthere =>
    split
    · exact h
    · next hrun => exact hstep (by simpa using hrun) hthere

/-- An edit that is carried out changes the choreography alone. One that is not carried out changes
nothing and completes nothing. -/
theorem edit_cases (e : Editor τ) (edit : Edit τ) :
    ((e.edit edit).value.1 = e ∧ ∀ answer, (e.edit edit).value.2 ≠ .done answer) ∨
      (e.run = none ∧ edit.absent? e.choreography = none ∧ (e.edit edit).value =
        ({ e with choreography := (edit.perform e.choreography).value.1 },
          (edit.perform e.choreography).value.2)) := by
  unfold Editor.edit
  split
  · exact .inl ⟨rfl, fun _ h => by cases h⟩
  · next hthere =>
    split
    · exact .inl ⟨rfl, fun _ h => by cases h⟩
    · next hrun => exact .inr ⟨by simpa using hrun, hthere, rfl⟩

theorem applyRecords_rule [DecidableEq τ] {P : Choreography τ → Prop} (h : P e.choreography)
    (records : Rehydration.Records τ)
    (hstep : ∀ c id content, P c → (Edit.updateEvent id content).absent? c = none →
      P ((Edit.updateEvent id content).perform c).value.1) :
    P (e.applyRecords records).value.1.choreography := by
  induction records generalizing e with
  | nil => exact h
  | cons record rest ih =>
    obtain ⟨id, content⟩ := record
    unfold Editor.applyRecords
    split
    · exact ih h
    · split
      · exact ih h
      · have hnext :=
          ih (edit_rule h (.updateEvent id content) fun _ hthere => hstep _ _ _ h hthere)
        simp only [Logged.value_bind]
        split <;> exact hnext

/-- What updates of events keep, and the edit that the call carries out if it is one, the call
keeps. -/
theorem call_rule [DecidableEq τ] {P : Choreography τ → Prop} (h : P e.choreography) (call : Call τ)
    (hupdate : ∀ c id content, P c → (Edit.updateEvent id content).absent? c = none →
      P ((Edit.updateEvent id content).perform c).value.1)
    (hedit : ∀ edit, call = .edit edit → e.run = none → edit.absent? e.choreography = none →
      P (edit.perform e.choreography).value.1) :
    P (e.call call).value.choreography := by
  cases call with
  | edit edit => exact edit_rule h edit (hedit edit rfl)
  | start =>
    simp only [Editor.call, Editor.start]
    split
    · exact h
    · split <;> exact h
  | stop =>
    simp only [Editor.call, Editor.stop]
    split <;> exact h
  | fire id =>
    simp only [Editor.call, Editor.fire]
    split <;> exact h
  | generate =>
    simp only [Editor.call, Editor.generate, Logged.value_map, Logged.value_bind]
    split <;> exact h
  | applyRecords records => exact applyRecords_rule h records hupdate

theorem after_rule [DecidableEq τ] {P : Choreography τ → Prop} (h : P e.choreography)
    (calls : List (Call τ))
    (hcall : ∀ (e : Editor τ) (call : Call τ), P e.choreography →
      P (e.call call).value.choreography) :
    P (e.after calls).choreography := by
  induction calls generalizing e with
  | nil => exact h
  | cons call rest ih => exact ih (hcall e call h)

theorem smooth_rule [DecidableEq τ] {P : Choreography τ → Prop} (h : P e.choreography)
    {calls : List (Call τ)}
    (hs : e.smooth calls = true)
    (hcall : ∀ (e : Editor τ) (call : Call τ), P e.choreography → e.stumbles call = false →
      P (e.call call).value.choreography) : P (e.after calls).choreography := by
  induction calls generalizing e with
  | nil => exact h
  | cons call rest ih =>
    simp only [smooth, Bool.and_eq_true, Bool.not_eq_true'] at hs
    exact ih (hcall e call h hs.1) hs.2

/-- The creation of a container that does not stumble does not stop. -/
theorem not_stopped_of_stumbles {w : NewContainer τ}
    (hs : e.stumbles (.edit (.createContainer w)) = false)
    (hrun : e.run = none) (o : Obstacle) :
    (e.choreography.createContainer w).value.2 ≠ .stopped o := by
  intro ho
  have hv : (e.edit (.createContainer w)).value.2 = .stopped o := by
    simp only [Editor.edit, Edit.absent?, hrun]
    simp [Edit.perform, Edit.answer, ho, Verdict.map]
  simp [stumbles, hv] at hs

/-! ## Order in sessions -/

open Choreography (Orderly)

/-- A choreography without containers and spawns is in order as soon as its numbers and its store
are. -/
theorem orderly_flat {c : Choreography τ} (hx : c.containers.entries = [])
    (he : ∀ e ∈ c.events.entries, e.parent = none) (hn : c.Numbered) (hl : c.Linked)
    (hr : ∀ r ∈ c.relations.entries, r.scope = none ∧ r.hidden = false ∧ r.generated = false ∧
      r.type ≠ .spawn) :
    Orderly ∅ {} c := by
  have hnone : ∀ k, c.form? k = none := fun k => by
    simp [Choreography.form?, Store.get?, hx]
  have hplaced : c.Placed ∅ := by
    refine ⟨hn, fun n hmem => ?_, fun k hk => ?_⟩
    · rcases Choreography.mem_nodes.mp hmem with ⟨x, hx', rfl⟩ | ⟨e, he', rfl⟩
      · rw [hx] at hx'
        cases hx'
      · rw [show (Node.event e : Node τ).parent = none from he e he']
        exact .top
    · rw [Choreography.contains_iff_form?, hnone] at hk
      cases hk
  refine ⟨hplaced, hl, fun r hmem _ => ⟨(hr r hmem).2.1, (hr r hmem).2.2.1⟩, fun r hmem k hk => ?_,
    fun k _ r hmem hk => ?_, fun k _ a b hab => ?_, fun r hmem ht => absurd ht (hr r hmem).2.2.2,
    fun r hmem ht => absurd ht (hr r hmem).2.2.2⟩
  · rw [(hr r hmem).1] at hk
    cases hk
  · rw [(hr r hmem).1] at hk
    cases hk
  · have hchoice := hab.choice
    rw [hnone] at hchoice
    cases hchoice

theorem orderly_empty : Orderly ∅ {} ({} : Choreography τ) := by
  have hnone : ∀ id, ¬ Choreography.hasNode ({} : Choreography τ) id = true := fun id h => by
    obtain ⟨n, hn, _⟩ := Choreography.hasNode_iff.mp h
    cases hn
  have hnumbered : Choreography.Numbered ({} : Choreography τ) := by
    refine ⟨IdPools.sane_new, (fun n hn => by cases hn), fun kind m => ?_⟩
    refine ⟨fun _ => hnone _, fun _ => IdPools.free_ident.mpr ?_⟩
    cases kind <;> exact .inr (Int.natCast_nonneg m)
  have hlinked : Choreography.Linked ({} : Choreography τ) := by
    constructor <;> intro r hr <;> cases hr
  exact orderly_flat rfl (fun e he => by cases he) hnumbered hlinked fun r hr => by cases hr

theorem entries_sample_events : (Sample.choreography : Choreography τ).events.entries =
    [Sample.readDocument, Sample.submit, Sample.accept] :=
  Store.entries_ofList (by simp [Sample.readDocument, Sample.submit, Sample.accept])

theorem entries_sample_relations : (Sample.choreography : Choreography τ).relations.entries =
    [Sample.relation "e0" "e1" .condition, Sample.relation "e1" "e2" .response] :=
  Store.entries_ofList (by simp [Sample.relation, Relation.idFor, RelationType.initial])

theorem mem_nodes_sample {n : Node τ} : n ∈ (Sample.choreography : Choreography τ).nodes ↔
    n = .event Sample.readDocument ∨ n = .event Sample.submit ∨ n = .event Sample.accept := by
  have hx : (Sample.choreography : Choreography τ).containers.entries = [] := rfl
  simp [Choreography.nodes, hx, entries_sample_events]

theorem hasNode_sample {id : String} : (Sample.choreography : Choreography τ).hasNode id = true ↔
    ∃ m < 3, id = NodeKind.ident .event m := by
  simp only [Choreography.hasNode_iff, mem_nodes_sample]
  constructor
  · intro h
    rcases h with ⟨_, rfl | rfl | rfl, rfl⟩
    · exact ⟨0, by omega, rfl⟩
    · exact ⟨1, by omega, rfl⟩
    · exact ⟨2, by omega, rfl⟩
  · intro h
    obtain ⟨m, hm, rfl⟩ := h
    match m with
    | 0 => exact ⟨_, .inl rfl, rfl⟩
    | 1 => exact ⟨_, .inr (.inl rfl), rfl⟩
    | 2 => exact ⟨_, .inr (.inr rfl), rfl⟩

theorem numbered_sample : Choreography.Numbered (Sample.choreography : Choreography τ) := by
  refine ⟨fun kind => ?_, fun n hn => ?_, fun kind m => ?_⟩
  · cases kind
    · exact ⟨⟨Int.natCast_nonneg 3, by simp [IdPools.get, Sample.choreography],
        by simp [IdPools.get, Sample.choreography], by simp [IdPools.get, Sample.choreography]⟩,
        rfl⟩
    · exact IdPools.sane_new .nest
    · exact IdPools.sane_new .subprocess
  · rcases mem_nodes_sample.mp hn with rfl | rfl | rfl
    · exact ⟨0, rfl⟩
    · exact ⟨1, rfl⟩
    · exact ⟨2, rfl⟩
  · rw [IdPools.free_ident, hasNode_sample]
    have hident : (∃ l < 3, kind.ident m = NodeKind.ident .event l) ↔ kind = .event ∧ m < 3 := by
      constructor
      · intro ⟨l, hl, he⟩
        obtain ⟨rfl, rfl⟩ := NodeKind.ident_injective he
        exact ⟨rfl, hl⟩
      · intro hx
        obtain ⟨rfl, hm⟩ := hx
        exact ⟨m, hm, rfl⟩
    rw [hident]
    cases kind with
    | event =>
      show (m : Int) ∈ ([] : List Int) ∨ (3 : Int) ≤ m ↔ ¬ (NodeKind.event = .event ∧ m < 3)
      simp only [List.not_mem_nil, false_or, true_and]
      omega
    | nest => exact ⟨fun _ h => NodeKind.noConfusion h.1, fun _ => .inr (Int.natCast_nonneg m)⟩
    | subprocess =>
      exact ⟨fun _ h => NodeKind.noConfusion h.1, fun _ => .inr (Int.natCast_nonneg m)⟩

theorem mem_relations_sample {r : Relation τ}
    (hr : r ∈ (Sample.choreography : Choreography τ).relations.entries) :
    r = Sample.relation "e0" "e1" .condition ∨ r = Sample.relation "e1" "e2" .response := by
  simpa [entries_sample_relations] using hr

theorem linked_sample : Choreography.Linked (Sample.choreography : Choreography τ) := by
  have hend : ∀ m < 3, (Sample.choreography : Choreography τ).hasNode (NodeKind.ident .event m) =
      true :=
    fun m hm => hasNode_sample.mpr ⟨m, hm, rfl⟩
  refine ⟨fun r hr => ?_, fun r hr => ?_, fun r hr s hs hpair _ => ?_, fun r hr => ?_⟩
  · rcases mem_relations_sample hr with rfl | rfl <;> rfl
  · rcases mem_relations_sample hr with rfl | rfl
    · exact ⟨hend 0 (by omega), hend 1 (by omega)⟩
    · exact ⟨hend 1 (by omega), hend 2 (by omega)⟩
  · rcases mem_relations_sample hr with rfl | rfl <;> rcases mem_relations_sample hs with rfl | rfl
    · rfl
    · simp [Relation.pair, Sample.relation] at hpair
    · simp [Relation.pair, Sample.relation] at hpair
    · rfl
  · rcases mem_relations_sample hr with rfl | rfl <;> simp [Sample.relation]

theorem orderly_sample : Orderly ∅ {} (Sample.choreography : Choreography τ) := by
  refine orderly_flat rfl (fun e he => ?_) numbered_sample linked_sample fun r hr => ?_
  · rw [entries_sample_events] at he
    simp only [List.mem_cons, List.not_mem_nil, or_false] at he
    rcases he with rfl | rfl | rfl <;> rfl
  · rcases mem_relations_sample hr with rfl | rfl <;> simp [Sample.relation]

theorem orderly_opening (h : e.Opening) : Orderly ∅ {} e.choreography := by
  rcases h with rfl | rfl
  · exact orderly_empty
  · exact orderly_sample

/-- Every call keeps the order, but choices may lack exclusions. -/
theorem orderly_call [DecidableEq τ] (h : Orderly ∅ { lacking := Set.univ } e.choreography)
    (call : Call τ) :
    Orderly ∅ { lacking := Set.univ } (e.call call).value.choreography := by
  refine call_rule h call ?_ ?_
  · exact fun c id content hc hthere => hc.perform hthere fun w he => by cases he
  · exact fun edit _ _ hthere => h.perform hthere fun w _ =>
      (h.createContainer w).1.mono subset_rfl subset_rfl (Set.subset_univ _) subset_rfl

/-- After every session all is in order, but choices may lack exclusions. -/
theorem orderly_after [DecidableEq τ] (h : e.Opening) (calls : List (Call τ)) :
    Orderly ∅ { lacking := Set.univ } (e.after calls).choreography :=
  after_rule (P := Orderly ∅ { lacking := Set.univ })
    ((orderly_opening h).mono subset_rfl subset_rfl (Set.subset_univ _) subset_rfl) calls
    fun _ call hc => orderly_call hc call

/-- After a session in which no call stumbles all is in order. -/
theorem orderly_after_smooth [DecidableEq τ] (h : e.Opening) {calls : List (Call τ)}
    (hs : e.smooth calls = true) :
    Orderly ∅ {} (e.after calls).choreography := by
  refine smooth_rule (P := Orderly ∅ {}) (orderly_opening h) hs fun e call hc hcall =>
    call_rule hc call ?_ ?_
  · exact fun c id content hc hthere => hc.perform hthere fun w he => by cases he
  · intro edit hcall' hrun hthere
    subst hcall'
    refine hc.perform hthere fun w hw => ?_
    subst hw
    exact (hc.createContainer w).2 (not_stopped_of_stumbles hcall hrun)

end Editor

end Dcr
