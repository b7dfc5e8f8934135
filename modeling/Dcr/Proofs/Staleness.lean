import Dcr.Proofs.Numbers
import Dcr.Proofs.Rehydration

/-! Text of an earlier generation. An editor remembers the ids of the event lines that it generated
last, whatever happens to the events afterwards, and records read from text go to those ids. An
event that has been there all along is the one whose line was generated; an event that was made
since can be reached only if it was given the id of one of those, which had to be deleted before. -/

namespace Dcr

variable {τ : Type} [FreeText τ]

/-! ## Records -/

namespace Rehydration

/-- Records are read for the ids of the generation. -/
theorem mem_readFrom {records read : Records τ} {lines : List (String × List Char)}
    (h : (readFrom records lines).value = .ok read) {r : String × EventContent τ} (hr : r ∈ read) :
    r ∈ records ∨ r.1 ∈ lines.map Prod.fst := by
  induction lines generalizing records with
  | nil =>
    cases h
    exact .inl hr
  | cons pair rest ih =>
    obtain ⟨id, line⟩ := pair
    simp only [readFrom, Logged.value_bind] at h
    split at h
    · cases h
    · next content _ =>
      split at h
      · exact (ih h).imp_right (List.mem_cons_of_mem id)
      · rcases ih h with hr | hr
        · rcases List.mem_append.mp hr with hr | hr
          · exact .inl hr
          · obtain rfl := List.mem_singleton.mp hr
            exact .inr List.mem_cons_self
        · exact .inr (List.mem_cons_of_mem id hr)

theorem mem_read {text : String} {rendered : List (String × String)} {records : Records τ}
    (h : (read text rendered).value = .ok records) {r : String × EventContent τ}
    (hr : r ∈ records) : r.1 ∈ rendered.map Prod.fst := by
  rcases mem_readFrom h hr with hr | hr
  · cases hr
  · obtain ⟨pair, hpair, he⟩ := List.mem_map.mp hr
    exact he ▸ (List.of_mem_zip hpair).1

end Rehydration

namespace Editor

open Choreography (Orderly)

variable {e : Editor τ} {id : String}

/-- What an event may become when records are applied: it stays as it is, or takes the content of
one of its records. -/
def Told (records : Rehydration.Records τ) (id : String) (v w : Option (Event τ)) : Prop :=
  w = v ∨ ∃ content, (id, content) ∈ records ∧ w = v.map fun v => v.withContent content

/-- The later of two records for an event is the one that counts. -/
theorem Told.trans {R S : Rehydration.Records τ} {u v w : Option (Event τ)} (h : Told R id u v)
    (h' : Told S id v w) : Told (R ++ S) id u w := by
  rcases h' with rfl | ⟨content, hmem, rfl⟩
  · exact h.imp_right fun ⟨content, hmem, hv⟩ => ⟨content, List.mem_append_left S hmem, hv⟩
  · refine .inr ⟨content, List.mem_append_right R hmem, ?_⟩
    rcases h with rfl | ⟨_, _, rfl⟩
    · rfl
    · exact Option.map_map ..

theorem told_edit (e : Editor τ) (id j : String) (content : EventContent τ) :
    Told [(j, content)] id (e.choreography.events.get? id)
      ((e.edit (.updateEvent j content)).value.1.choreography.events.get? id) := by
  rcases e.edit_cases (.updateEvent j content) with ⟨hsame, -⟩ | ⟨-, -, hperform⟩
  · exact .inl (by rw [hsame])
  · rw [hperform]
    show Told _ id _ ((e.choreography.updateEvent j content).value.1.events.get? id)
    unfold Choreography.updateEvent
    split
    · exact .inl rfl
    · have hget := Store.get?_modify (s := e.choreography.events) (k := j) (j := id)
        (fun v => v.withContent content) fun _ => rfl
      by_cases hid : id = j
      · simp only [hid, if_true] at hget ⊢
        exact .inr ⟨content, List.mem_singleton_self _, hget⟩
      · simp only [hid, if_false, Option.map_id'] at hget
        exact .inl hget

theorem told_applyRecords [DecidableEq τ] (e : Editor τ) (records : Rehydration.Records τ)
    (id : String) :
    Told records id (e.choreography.events.get? id)
      ((e.applyRecords records).value.1.choreography.events.get? id) := by
  induction records generalizing e with
  | nil => exact .inl rfl
  | cons record rest ih =>
    obtain ⟨j, content⟩ := record
    have hskip : Told [(j, content)] id (e.choreography.events.get? id)
        (e.choreography.events.get? id) := .inl rfl
    unfold Editor.applyRecords
    split
    · exact hskip.trans (ih e)
    · split
      · exact hskip.trans (ih e)
      · have hnext :=
          (told_edit e id j content).trans (ih (e.edit (.updateEvent j content)).value.1)
        simp only [Logged.value_bind]
        split <;> exact hnext

/-! ## The remembered generation -/

theorem code_edit (e : Editor τ) (edit : Edit τ) : (e.edit edit).value.1.code = e.code := by
  rcases e.edit_cases edit with ⟨hsame, -⟩ | ⟨-, -, hperform⟩
  · rw [hsame]
  · rw [hperform]

theorem code_applyRecords [DecidableEq τ] (e : Editor τ) (records : Rehydration.Records τ) :
    (e.applyRecords records).value.1.code = e.code := by
  induction records generalizing e with
  | nil => rfl
  | cons record rest ih =>
    obtain ⟨j, content⟩ := record
    unfold Editor.applyRecords
    split
    · exact ih e
    · split
      · exact ih e
      · have hnext := (ih (e.edit (.updateEvent j content)).value.1).trans (code_edit e _)
        simp only [Logged.value_bind]
        split <;> exact hnext

theorem code_call [DecidableEq τ] (e : Editor τ) {call : Call τ} (h : call ≠ .generate) :
    (e.call call).value.code = e.code := by
  cases call with
  | edit edit => exact code_edit e edit
  | start =>
    simp only [Editor.call, Editor.start]
    split
    · rfl
    · split <;> rfl
  | stop =>
    simp only [Editor.call, Editor.stop]
    split <;> rfl
  | fire id =>
    simp only [Editor.call, Editor.fire]
    split <;> rfl
  | generate => exact absurd rfl h
  | applyRecords records => exact code_applyRecords e records

/-- The last generation is remembered until the next. -/
theorem code_after [DecidableEq τ] (e : Editor τ) {calls : List (Call τ)}
    (h : Call.generate ∉ calls) : (e.after calls).code = e.code := by
  induction calls generalizing e with
  | nil => rfl
  | cons call rest ih =>
    obtain ⟨hcall, hrest⟩ := not_or.mp (mt List.mem_cons.mpr h)
    exact (ih _ hrest).trans (code_call e (Ne.symm hcall))

/-! ## Events that stay and events that are made -/

/-- An event has been there all along. -/
def Stays [DecidableEq τ] (e : Editor τ) (calls : List (Call τ)) (id : String) : Prop :=
  ∀ before, before <+: calls → (e.after before).choreography.events.contains id = true

/-- Some call has made an event and answered its id. -/
def Makes [DecidableEq τ] (e : Editor τ) (calls : List (Call τ)) (id : String) : Prop :=
  ∃ before n rest, calls = before ++ .edit (.createEvent n) :: rest ∧
    ((e.after before).edit (.createEvent n)).value.2 = .done (.name id)

/-- An edit that makes an event is the creation of one. -/
theorem createEvent_of_makes? {c : Choreography τ} {edit : Edit τ}
    (h : edit.makes? c = some .event) : ∃ n, edit = .createEvent n := by
  cases edit with
  | createEvent n => exact ⟨n, rfl⟩
  | createContainer w => cases hk : w.kind <;> simp [Edit.makes?, ContainerKind.node, hk] at h
  | changeContainerType id kind type =>
    obtain ⟨_, _, _, hk⟩ := Choreography.conversion_of_makes? h
    cases kind <;> cases hk
  | _ => cases h

/-- The creation of an event answers the id handed out for it, or leaves all as it was. -/
theorem createEvent_cases (c : Choreography τ) (n : NewEvent τ) :
    (c.createEvent n).value.1 = c ∨
      (c.createEvent n).value.2 = .done (c.ids.allocate .event).1 := by
  unfold Choreography.createEvent
  split
  · exact .inl rfl
  · split
    · exact .inl rfl
    · simp only [Logged.value_bind, Choreography.value_addEvent]
      exact .inr rfl

/-- An event that is there only after a call was made by it, under the id that it answers. -/
theorem makes_of_contains [DecidableEq τ]
    (h : Orderly ∅ { lacking := Set.univ } e.choreography) {call : Call τ}
    (hbefore : e.choreography.events.contains id = false)
    (hafter : (e.call call).value.choreography.events.contains id = true) :
    ∃ n, call = .edit (.createEvent n) ∧
      (e.edit (.createEvent n)).value.2 = .done (.name id) := by
  obtain ⟨v, hv, rfl⟩ := Store.contains_iff.mp hafter
  have hmem : Node.event v ∈ (e.call call).value.choreography.nodes :=
    Choreography.event_mem_nodes.mpr hv
  obtain ⟨m, hm⟩ := (orderly_call h call).placed.numbered.named _ hmem
  rcases (among_call e call).mem hmem with hold | ⟨edit, kind, rfl, hmakes, hid⟩
  · -- ids tell the kinds of their nodes
    obtain ⟨n, hn, hid⟩ := Choreography.hasNode_iff.mp hold
    obtain ⟨l, hl⟩ := h.placed.numbered.named n hn
    have hkind : n.kind = .event := (NodeKind.ident_injective (hl.symm.trans (hid.trans hm))).1
    cases n with
    | event w =>
      have hw : e.choreography.events.contains w.id = true :=
        Store.contains_of_mem (Choreography.event_mem_nodes.mp hn)
      rw [show w.id = Keyed.key v from hid, hbefore] at hw
      cases hw
    | container x => cases hx : x.kind <;> simp [Node.kind, ContainerKind.node, hx] at hkind
  · obtain ⟨l, hl, -⟩ := h.placed.numbered.least kind
    obtain rfl : kind = .event :=
      (NodeKind.ident_injective (hl.symm.trans (hid.symm.trans hm))).1
    obtain ⟨n, rfl⟩ := createEvent_of_makes? hmakes
    refine ⟨n, rfl, ?_⟩
    have hchanged : (e.edit (.createEvent n)).value.1.choreography ≠ e.choreography := by
      intro hsame
      rw [← hsame] at hbefore
      exact absurd hafter (by simpa [Editor.call] using hbefore)
    rcases e.edit_cases (.createEvent n) with ⟨hsame, -⟩ | ⟨-, -, hperform⟩
    · rw [hsame] at hchanged
      exact absurd rfl hchanged
    · rw [hperform] at hchanged ⊢
      have hdone := (createEvent_cases e.choreography n).resolve_left hchanged
      refine (congrArg (Verdict.map Answer.name) hdone).trans ?_
      rw [← hid]
      rfl

theorem stays_or_makes [DecidableEq τ]
    (h : ∀ before, Orderly ∅ { lacking := Set.univ } (e.after before).choreography)
    (hid : e.choreography.events.contains id = true) (calls : List (Call τ))
    (hafter : (e.after calls).choreography.events.contains id = true) :
    e.Stays calls id ∨ e.Makes calls id := by
  induction calls using List.reverseRecOn with
  | nil =>
    refine .inl fun before hbefore => ?_
    rw [List.prefix_nil.mp hbefore]
    exact hid
  | append_singleton calls call ih =>
    have hstep : (e.after (calls ++ [call])) = ((e.after calls).call call).value := by
      simp [Editor.after]
    cases hbefore : (e.after calls).choreography.events.contains id with
    | true =>
      rcases ih hbefore with hstays | ⟨before, n, rest, rfl, hn⟩
      · refine .inl fun before hprefix => ?_
        rcases List.prefix_concat_iff.mp hprefix with rfl | hprefix
        · exact hafter
        · exact hstays before hprefix
      · exact .inr ⟨before, n, rest ++ [call], by simp, hn⟩
    | false =>
      rw [hstep] at hafter
      obtain ⟨n, rfl, hn⟩ := makes_of_contains (h calls) hbefore hafter
      exact .inr ⟨calls, n, [], rfl, hn⟩

/-- Every line of generated code that is remembered is one of an event that was there. -/
theorem contains_of_rendered {c : Choreography String} (h : c.Complete) {id : String}
    (hid : id ∈ (Choreography.codeOf c.preamble c.pieces).rendered.map Prod.fst) :
    c.events.contains id = true := by
  obtain ⟨pair, hpair, rfl⟩ := List.mem_map.mp hid
  obtain ⟨piece, hpiece, hline⟩ := List.mem_filterMap.mp hpair
  cases piece with
  | event id line =>
    cases hline
    obtain ⟨v, hv, _, _, rfl, _⟩ := (h.piece _ hpiece).2 id line rfl
    exact Store.contains_of_mem hv
  | text line => cases hline
  | recursion target source => cases hline
  | obstacle o => cases hline

/-- What there is to an event that some records have changed, in a session that goes on after code
was generated: it takes the content of one of its records, its line is one of those generated, and
it was there then. It has been there ever since, unless it was deleted and an event made since was
given its id again. -/
structure Reached [DecidableEq τ] (g : Editor τ) (later : List (Call τ)) (code : GeneratedCode)
    (records : Rehydration.Records τ) (id : String) : Prop where
  told : ∃ v content, (g.after later).choreography.events.get? id = some v ∧
    (id, content) ∈ records ∧
    ((g.after later).applyRecords records).value.1.choreography.events.get? id =
      some (v.withContent content)
  rendered : id ∈ code.rendered.map Prod.fst
  there : g.choreography.events.contains id = true
  since : g.Stays later id ∨ g.Makes later id

theorem generate_after {e : Editor String} (h : e.Opening) (calls : List (Call String)) :
    (e.after calls).generate.value =
      ({ e.after calls with
        code := some (Choreography.codeOf (e.after calls).choreography.preamble
          (e.after calls).choreography.pieces) },
        .ok (Choreography.codeOf (e.after calls).choreography.preamble
          (e.after calls).choreography.pieces)) := by
  simp only [Editor.generate, Logged.value_bind, (orderly_after h calls).complete.generate,
    Logged.value_pure]

/-- After every session code is generated. However the session goes on, as long as nothing else is
generated, a text that is read and applied reaches no event but those whose lines were generated,
and one that was made since only under the id of one of them that had gone. -/
theorem stale_after {e : Editor String} (h : e.Opening) (calls : List (Call String))
    {later : List (Call String)} (hlater : Call.generate ∉ later) :
    ∃ g code, (e.after calls).generate.value = (g, .ok code) ∧
      ∀ text records, ((g.after later).rehydrate text).value = .ok records → ∀ id,
        ((g.after later).applyRecords records).value.1.choreography.events.get? id ≠
          (g.after later).choreography.events.get? id → g.Reached later code records id := by
  have hc := orderly_after h calls
  refine ⟨_, _, generate_after h calls, ?_⟩
  generalize hcode : Choreography.codeOf (e.after calls).choreography.preamble
    (e.after calls).choreography.pieces = code
  generalize hg : ({ e.after calls with code := some code } : Editor String) = g
  have hsame : g.choreography = (e.after calls).choreography := by rw [← hg]
  have horderly : ∀ before, Orderly ∅ { lacking := Set.univ } (g.after before).choreography :=
    fun before => after_rule (P := Orderly ∅ { lacking := Set.univ }) (hsame ▸ hc) before
      fun _ call hc => orderly_call hc call
  intro text records hread id hchanged
  have hremembered : (g.after later).code = some code :=
    (code_after g hlater).trans (by rw [← hg])
  rcases told_applyRecords (g.after later) records id with hstays | ⟨content, hmem, hnew⟩
  · exact absurd hstays hchanged
  · obtain ⟨v, hv⟩ : ∃ v, (g.after later).choreography.events.get? id = some v := by
      cases hv : (g.after later).choreography.events.get? id with
      | none =>
        rw [hv] at hnew hchanged
        exact absurd hnew hchanged
      | some v => exact ⟨v, rfl⟩
    have hid : id ∈ code.rendered.map Prod.fst := by
      rw [rehydrate, hremembered] at hread
      exact Rehydration.mem_read hread hmem
    have hthere : g.choreography.events.contains id = true :=
      hsame ▸ contains_of_rendered hc.complete (hcode ▸ hid)
    have hstill : (g.after later).choreography.events.contains id = true := by
      rw [Store.contains, hv, Option.isSome_some]
    exact
      { told := ⟨v, content, hv, hmem, by rw [hnew, hv, Option.map_some]⟩
        rendered := hid
        there := hthere
        since := stays_or_makes horderly hthere later hstill }

/-- A session that gives an event of the sample another content, deletes the last one and adds
another. -/
def recycling : List (Call String) :=
  [.edit (.updateEvent "e1" retold), .edit (.deleteEvent "e2"),
    .edit (.createEvent { value := .input .unit, initiators := ["Q"] })]

theorem stale_after_recycling :
    Opening { choreography := (Sample.choreography : Choreography String) } ∧
    Call.generate ∉ recycling ∧
    ∃ g code, (after { choreography := Sample.choreography } []).generate.value = (g, .ok code) ∧
      ∀ text records, ((g.after recycling).rehydrate text).value = .ok records → ∀ id,
        ((g.after recycling).applyRecords records).value.1.choreography.events.get? id ≠
          (g.after recycling).choreography.events.get? id →
            g.Reached recycling code records id := by
  have hlater : Call.generate ∉ recycling := by decide
  exact ⟨.inr rfl, hlater, stale_after (.inr rfl) [] hlater⟩

/-- The event that is added is given the id of the one deleted, and the line of that one is read for
it. -/
theorem not_stale : ¬ ∀ e : Editor String, e.Opening → ∀ calls later, Call.generate ∉ later →
    ∀ g code, (e.after calls).generate.value = (g, .ok code) →
      ∀ records, ((g.after later).rehydrate code.text).value = .ok records →
        ∀ id, g.Makes later id →
          ((g.after later).applyRecords records).value.1.choreography.events.get? id =
            (g.after later).choreography.events.get? id := by
  intro h
  have hopening : Opening { choreography := (Sample.choreography : Choreography String) } :=
    .inr rfl
  have hchanged : (match (after { choreography := Sample.choreography } []).generate.value with
      | (g, .ok code) => match ((g.after recycling).rehydrate code.text).value with
        | .ok records => decide
          (((g.after recycling).applyRecords records).value.1.choreography.events.get? "e2" =
            (g.after recycling).choreography.events.get? "e2")
        | .error _ => true
      | (_, .error _) => true) = false := by decide +kernel
  have hmakes : (after { choreography := Sample.choreography } []).generate.value.1.Makes
      recycling "e2" := ⟨recycling.take 2, _, [], rfl, by decide +kernel⟩
  have hgenerate := generate_after hopening []
  have h := h _ hopening [] recycling (by decide) _ _ hgenerate
  rw [hgenerate] at hchanged hmakes
  dsimp only at hchanged hmakes
  split at hchanged
  · next records hread => exact of_decide_eq_false hchanged (h records hread "e2" hmakes)
  · cases hchanged

end Editor

end Dcr
