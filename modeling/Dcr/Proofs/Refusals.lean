import Dcr.Proofs.Numbers

/-! Calls that fail. An edit checks what it is about before it changes anything, so one that is
refused or meets an obstacle leaves the choreography as it was. The creation of a container is the
exception: its nodes are looked for before the first of them moves, and a listed container goes when
its last child is taken out of it. -/

namespace Dcr

variable {τ : Type} [FreeText τ]

def Verdict.isDone {α : Type} : Verdict α → Bool
  | done _ => true
  | refused => false
  | stopped _ => false

namespace Choreography

variable {c d : Choreography τ} {L A : Set String} {α β : Type}

/-- What a change leaves and how it ends: it is done, or everything is as before. -/
def Whole (c : Choreography τ) (x : Choreography τ × Verdict α) : Prop :=
  x.2.isDone = false → x.1 = c

theorem Whole.same {v : Verdict α} : c.Whole (c, v) := fun _ => rfl

theorem Whole.done {a : α} : c.Whole (d, .done a) := fun h => by cases h

theorem Whole.map {x : Choreography τ × Verdict α} (h : c.Whole x) (f : α → β) :
    c.Whole (x.1, x.2.map f) :=
  fun hv => h (by cases hx : x.2 <;> simp_all [Verdict.map, Verdict.isDone])

theorem whole_withFound {found : Option α} {id : String}
    {change : α → Logged (Choreography τ × Verdict (Answer τ))}
    (h : ∀ x, found = some x → c.Whole (change x).value) :
    c.Whole (Edit.withFound c found id change).value := by
  cases found with
  | none => exact .same
  | some x => exact h x rfl

/-! ## Edits -/

theorem whole_createEvent (n : NewEvent τ) : c.Whole (c.createEvent n).value := by
  unfold Choreography.createEvent
  split
  · exact .same
  · split
    · exact .same
    · exact .done

theorem whole_updateEvent (id : String) (content : EventContent τ) :
    c.Whole (c.updateEvent id content).value := by
  unfold Choreography.updateEvent
  split
  · exact .same
  · exact .done

/-- A node that is there is moved, or its place is refused and nothing changes. -/
theorem reparent_of_hasNode {id : String} (h : c.hasNode id = true) (parent : Option String) :
    (c.reparent id parent).value = (c, .refused) ∨ (c.reparent id parent).value.2 = .done () := by
  obtain ⟨node, hnode⟩ := Option.isSome_iff_exists.mp h
  unfold Choreography.reparent
  rw [hnode]
  dsimp only
  split
  · exact .inl rfl
  · split
    · exact .inr rfl
    · cases node.parent <;> cases parent <;> exact .inr rfl

theorem whole_reparent (id : String) (parent : Option String) :
    c.Whole (c.reparent id parent).value := by
  by_cases h : c.hasNode id = true
  · rcases reparent_of_hasNode h parent with hsame | hdone
    · rw [hsame]
      exact .same
    · exact fun hv => by rw [hdone] at hv; cases hv
  · rw [reparent_missing h]
    exact .same

/-- A deletion stops at an id that names no node before it takes any node away. -/
theorem Orderly.whole_deleteNodesAloud (h : c.Orderly ∅ ⟨∅, L, A⟩) (ids : List String) :
    c.Whole (Edit.deleteNodesAloud c ids).value := by
  rw [value_deleteNodesAloud]
  cases hd : c.doomed [] ids with
  | error id =>
    rw [Choreography.deleteNodes, hd]
    exact .same
  | ok gone =>
    obtain ⟨d, _, _, _, hv⟩ := deleteNodes_ok h hd
    rw [hv]
    exact .done

theorem whole_createRelation (a b : String) (t : RelationType) (guard : τ) :
    c.Whole (c.createRelation a b t guard).value := by
  unfold Choreography.createRelation
  split
  · exact .same
  · exact .done

theorem whole_updateRelation (r : Relation τ) (type : Option RelationType) (guard : Option τ) :
    c.Whole (c.updateRelation r type guard).value := by
  unfold Choreography.updateRelation
  split
  · exact .same
  · dsimp only
    split
    · exact .same
    · exact .done

theorem whole_deleteRelation (r : Relation τ) : c.Whole (c.deleteRelation r).value := by
  unfold Choreography.deleteRelation
  split
  · exact .same
  · exact .done

theorem whole_addRole (name : String) (label : Option τ) (parameters : List (Parameter τ)) :
    c.Whole (c.addRole name label parameters).value := by
  simp only [Choreography.addRole]
  split
  · exact .same
  · exact .done

theorem whole_addParticipant (name : String) (role : Role τ) (bindings : List (String × String)) :
    c.Whole (c.addParticipant name role bindings).value := by
  unfold Choreography.addParticipant
  split
  · exact .same
  · exact .done

/-! ## Containers that stop midway -/

theorem events_settle (id : String) : (c.settle id).value.1.events = c.events :=
  settle_rule (P := fun _ d => d.events = c.events) (fun _ _ h _ => h) (fun _ _ h _ => h)
    (fun _ _ _ h _ _ _ => h) (fun _ _ _ _ h _ _ _ => h) rfl

theorem keys_setParent (id : String) (p : Option String) :
    (c.setParent id p).events.keys = c.events.keys := by
  unfold Choreography.setParent
  split
  · exact Store.keys_modify (s := c.events) (fun e => { e with parent := p }) fun _ => rfl
  · rfl

/-- The events stay when a node moves. -/
theorem keys_reparent (id : String) (p : Option String) :
    (c.reparent id p).value.1.events.keys = c.events.keys := by
  have hmoved := keys_setParent (c := c) id p
  unfold Choreography.reparent
  split
  · rfl
  · next node _ =>
    split
    · rfl
    · split
      · rfl
      · simp only [Logged.value_bind]
        cases node.parent <;> cases p <;>
          simpa [events_settle, Choreography.syncExclusions] using hmoved

/-- A container stops taking nodes in only at a listed one that is not there any more. -/
theorem adopt_stopped {k : String} {ids : List String} {o : Obstacle}
    (hv : (c.adopt k ids).value.2 = .stopped o) :
    ∃ id ∈ ids, o = .missing id ∧ (c.adopt k ids).value.1.hasNode id = false ∧
      (c.adopt k ids).value.1.events.keys = c.events.keys := by
  induction ids generalizing c with
  | nil => cases hv
  | cons id rest ih =>
    simp only [Choreography.adopt, Logged.value_bind] at hv ⊢
    by_cases hid : c.hasNode id = true
    · have hgo : ∀ o, (c.reparent id (some k)).value.2 ≠ .stopped o := fun o ho => by
        rcases reparent_of_hasNode hid (some k) with hv | hv <;> rw [hv] at ho <;> cases ho
      split at hv
      · next o' ho' => exact absurd ho' (hgo o')
      · obtain ⟨j, hj, ho, hgone, hkeys⟩ := ih hv
        exact ⟨j, List.mem_cons_of_mem _ hj, ho, hgone, hkeys.trans (keys_reparent id (some k))⟩
    · rw [reparent_missing hid] at hv ⊢
      cases hv
      exact ⟨id, List.mem_cons_self, rfl, by simpa using hid, rfl⟩

/-- The creation of a container that stops midway, with `d` as what it leaves and `k` as what it
stops at: all nodes to wrap were there and it was accepted, but `k` was a container and is gone, and
the new container stays with what it has taken in. -/
structure Halted (c : Choreography τ) (w : NewContainer τ) (d : Choreography τ) (k : String) :
    Prop where
  there : ∀ id ∈ w.wrapped, c.hasNode id = true
  accepted : c.wrapRejection? w.wrapped w.parent = none
  listed : k ∈ w.wrapped
  container : c.containers.contains k = true
  gone : d.hasNode k = false
  made : c.hasNode (c.ids.allocate w.kind.node).1 = false
  stays : d.containers.contains (c.ids.allocate w.kind.node).1 = true

/-- A container that is not put around its nodes has stopped taking them in. -/
theorem wrap_fails {w : NewContainer τ} (hv : (c.wrap w).value.2.isDone = false) :
    ∃ o, ((c.withContainer w).adopt (c.ids.allocate w.kind.node).1 w.wrapped).value.2 = .stopped o ∧
      (c.wrap w).value =
        (((c.withContainer w).adopt (c.ids.allocate w.kind.node).1 w.wrapped).value.1,
          .stopped o) := by
  rcases wrap_cases c w with hstopped | ⟨-, he⟩
  · exact hstopped
  · rw [he] at hv
    cases hv

/-- The creation of a container is done, leaves everything as it was or comes to a halt. -/
theorem Orderly.createContainer_fails (h : c.Orderly ∅ ⟨∅, L, A⟩) {w : NewContainer τ}
    (hv : (c.createContainer w).value.2.isDone = false) :
    (c.createContainer w).value.1 = c ∨
      ∃ k, (c.createContainer w).value.2 = .stopped (.missing k) ∧
        Halted c w (c.createContainer w).value.1 k := by
  unfold Choreography.createContainer at hv ⊢
  split
  · exact .inl rfl
  · next hfind =>
    split
    · exact .inl rfl
    · next hempty =>
      split
      · exact .inl rfl
      · next haccepted =>
        have hthere : ∀ id ∈ w.wrapped, c.hasNode id = true := fun id hid => by
          simpa using List.find?_eq_none.mp hfind id hid
        simp only [hfind, haccepted, if_neg hempty] at hv
        obtain ⟨o, hstop, he⟩ := wrap_fails hv
        obtain ⟨k, hk, rfl, hgone, hkeys⟩ := adopt_stopped hstop
        -- what is gone was no event, because all events are still there
        have hcontainer : c.containers.contains k = true := by
          have hnode := hthere k hk
          have hevent := hgone
          rw [hasNode_eq, Bool.or_eq_false_iff] at hevent
          rw [hasNode_eq, show c.events.contains k = false from
            (Store.contains_of_keys hkeys k).symm.trans hevent.1, Bool.false_or] at hnode
          exact hnode
        have hnew := h.placed.numbered.unused w.kind.node
        have hmade := contains_withContainer hnew
        rw [he]
        exact .inr ⟨k, rfl, hthere, haccepted, hk, hcontainer, hgone, Bool.eq_false_iff.mpr hnew,
          (h.withContainer (contains_of_wrapRejection? haccepted)).contains_adopt hmade w.wrapped⟩

/-- Every edit but the creation of a container is done or leaves everything as it was. -/
theorem Orderly.whole_perform (h : c.Orderly ∅ ⟨∅, L, A⟩) (edit : Edit τ)
    (hw : ∀ w, edit ≠ .createContainer w) : c.Whole (edit.perform c).value := by
  cases edit with
  | createEvent n => exact (whole_createEvent n).map _
  | updateEvent id content => exact (whole_updateEvent id content).map _
  | deleteEvent id => exact h.whole_deleteNodesAloud [id]
  | createContainer w => exact absurd rfl (hw w)
  | updateContainer id label marking => exact whole_withFound fun x _ => .done
  | changeContainerType id kind type => exact whole_withFound fun x _ => .done
  | moveNode id parent => exact (whole_reparent id parent).map _
  | deleteNodes ids => exact h.whole_deleteNodesAloud ids
  | createRelation source target type guard =>
    exact (whole_createRelation source target type guard).map _
  | updateRelation id type guard =>
    exact whole_withFound fun r _ => (whole_updateRelation r type guard).map _
  | deleteRelation id => exact whole_withFound fun r _ => (whole_deleteRelation r).map _
  | addRole name label parameters => exact (whole_addRole name label parameters).map _
  | removeRole name => exact .done
  | addParticipant role bindings =>
    exact whole_withFound fun r _ => (whole_addParticipant role r bindings).map _
  | removeParticipant role participant => exact .done
  | setSecurity text => exact .done
  | setDocumentation text => exact .done

end Choreography

/-! ## Calls -/

namespace Editor

open Choreography (Halted Orderly)

variable {e : Editor τ}

/-- Whether a call is refused or meets an obstacle. -/
def fails [DecidableEq τ] (e : Editor τ) : Call τ → Bool
  | .edit edit => !(e.edit edit).value.2.isDone
  | .start => !e.start.value.2.isDone
  | .stop => false
  | .fire id => !(e.fire id).value.2.isDone
  | .generate => !e.generate.value.2.isOk
  | .applyRecords records => (e.applyRecords records).value.2.isEmpty

/-- An edit that is not done leaves the editor as it was, or comes to a halt. -/
theorem edit_fails {L : Set String} (h : Orderly ∅ ⟨∅, L, ∅⟩ e.choreography) {edit : Edit τ}
    (hf : (e.edit edit).value.2.isDone = false) :
    (e.edit edit).value.1 = e ∨ ∃ w k, edit = .createContainer w ∧ e.run = none ∧
      (e.edit edit).value.2 = .stopped (.missing k) ∧
        e.choreography.Halted w (e.edit edit).value.1.choreography k := by
  rcases edit_cases e edit with ⟨hsame, _⟩ | ⟨hrun, _, hv⟩
  · exact .inl hsame
  · rw [hv] at hf ⊢
    by_cases hw : ∀ w, edit ≠ .createContainer w
    · rw [h.whole_perform edit hw hf]
      exact .inl rfl
    · obtain ⟨w, rfl⟩ := not_forall_not.mp hw
      have hf' : (e.choreography.createContainer w).value.2.isDone = false := by
        cases hx : (e.choreography.createContainer w).value.2 <;>
          simp_all [Edit.perform, Edit.answer, Verdict.map, Verdict.isDone]
      rcases h.createContainer_fails hf' with hsame | ⟨k, hstop, hhalt⟩
      · rw [show (Edit.createContainer w).perform e.choreography =
          Edit.answer .name (e.choreography.createContainer w) from rfl, Edit.answer, hsame]
        exact .inl rfl
      · refine .inr ⟨w, k, rfl, hrun, ?_, hhalt⟩
        simp only [Edit.perform, Edit.answer, hstop, Verdict.map]

/-- An update of an event that is not done leaves the editor as it was. -/
theorem updateEvent_fails {L : Set String} (h : Orderly ∅ ⟨∅, L, ∅⟩ e.choreography) (id : String)
    (content : EventContent τ) (hf : (e.edit (.updateEvent id content)).value.2.isDone = false) :
    (e.edit (.updateEvent id content)).value.1 = e := by
  rcases edit_fails h hf with hsame | ⟨w, k, hw, _⟩
  · exact hsame
  · cases hw

/-- Records that update no event leave the editor as it was. -/
theorem applyRecords_nil [DecidableEq τ] {L : Set String}
    (h : Orderly ∅ ⟨∅, L, ∅⟩ e.choreography) (records : Rehydration.Records τ) :
    (e.applyRecords records).value.2 = [] → (e.applyRecords records).value.1 = e := by
  induction records with
  | nil => exact fun _ => rfl
  | cons record rest ih =>
    obtain ⟨id, content⟩ := record
    have hfails := updateEvent_fails h id content
    unfold Editor.applyRecords
    split
    · exact ih
    · split
      · exact ih
      · simp only [Logged.value_bind]
        cases hv : (e.edit (.updateEvent id content)).value.2 with
        | done _ => exact fun hnil => by cases hnil
        | refused =>
          rw [hfails (by rw [hv]; rfl)]
          exact ih
        | stopped o =>
          rw [hfails (by rw [hv]; rfl)]
          exact ih

/-- A call that fails leaves the choreography as it was, but for the creation of a container that
comes to a halt. -/
theorem call_fails [DecidableEq τ] {L : Set String} (h : Orderly ∅ ⟨∅, L, ∅⟩ e.choreography)
    {call : Call τ} (hf : e.fails call = true) :
    (e.call call).value.choreography = e.choreography ∨
      ∃ w k, call = .edit (.createContainer w) ∧ e.run = none ∧
        (e.edit (.createContainer w)).value.2 = .stopped (.missing k) ∧
        e.choreography.Halted w (e.call call).value.choreography k := by
  cases call with
  | edit edit =>
    rcases edit_fails h (by simpa [fails] using hf) with hsame | ⟨w, k, rfl, hrun, hstop, hhalt⟩
    · exact .inl (congrArg Editor.choreography hsame)
    · exact .inr ⟨w, k, rfl, hrun, hstop, hhalt⟩
  | applyRecords records =>
    exact .inl (congrArg Editor.choreography (applyRecords_nil h records (by simpa [fails] using hf)))
  | start =>
    refine .inl ?_
    simp only [Editor.call, Editor.start]
    split
    · rfl
    · split <;> rfl
  | stop => cases hf
  | fire id =>
    refine .inl ?_
    simp only [Editor.call, Editor.fire]
    split <;> rfl
  | generate =>
    refine .inl ?_
    simp only [Editor.call, Editor.generate, Logged.value_map, Logged.value_bind]
    split <;> rfl

/-- After every session a call that is refused or meets an obstacle leaves the whole choreography as
it was, unless it is the creation of a container whose nodes are all there, that is accepted, and
that comes to a listed container which has gone on the way. -/
theorem intact_after [DecidableEq τ] (h : e.Opening) (calls : List (Call τ)) {call : Call τ}
    (hf : (e.after calls).fails call = true) :
    ((e.after calls).call call).value.choreography = (e.after calls).choreography ∨
      ∃ w k, call = .edit (.createContainer w) ∧ (e.after calls).run = none ∧
        ((e.after calls).edit (.createContainer w)).value.2 = .stopped (.missing k) ∧
        (e.after calls).choreography.Halted w ((e.after calls).call call).value.choreography k :=
  call_fails (orderly_after h calls) hf

/-- A nest around the first event of the sample. -/
def nesting : List (Call String) :=
  [.edit (.createContainer { form := .nest .group, children := ["e0"] })]

/-- A nest around the event and then the nest that it is in, which goes when the event leaves it. -/
def renesting : Call String :=
  .edit (.createContainer { form := .nest .group, children := ["e0", "n0"] })

theorem intact_after_renesting :
    Opening { choreography := (Sample.choreography : Choreography String) } ∧
    (after { choreography := Sample.choreography } nesting).fails renesting = true ∧
    (((after { choreography := Sample.choreography } nesting).call renesting).value.choreography =
        (after { choreography := Sample.choreography } nesting).choreography ∨
      ∃ w k, renesting = .edit (.createContainer w) ∧
        (after { choreography := Sample.choreography } nesting).run = none ∧
        ((after { choreography := Sample.choreography } nesting).edit
          (.createContainer w)).value.2 = .stopped (.missing k) ∧
        (after { choreography := Sample.choreography } nesting).choreography.Halted w
          ((after { choreography := Sample.choreography } nesting).call
            renesting).value.choreography k) := by
  have hf : (after { choreography := Sample.choreography } nesting).fails renesting = true := by
    decide +kernel
  exact ⟨.inr rfl, hf, intact_after (.inr rfl) nesting hf⟩

/-- A call may fail and leave something behind. -/
theorem not_intact : ¬ ∀ (e : Editor String), e.Opening → ∀ calls call,
    (e.after calls).fails call = true →
      ((e.after calls).call call).value.choreography = (e.after calls).choreography := by
  intro h
  have hsame := h { choreography := Sample.choreography } (.inr rfl) nesting renesting
    (by decide +kernel)
  exact absurd hsame (by decide +kernel)

end Editor

end Dcr
