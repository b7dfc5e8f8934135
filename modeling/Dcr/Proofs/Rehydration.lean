import Dcr.Proofs.Generation
import Dcr.Proofs.Sessions

/-! Edited code read back. The candidates among the lines of generated code are its event lines, if
no other line is taken for one; matched by position with the lines of an earlier generation they
give the events their contents. -/

namespace Dcr

open EventLine (isCandidate)

/-! ## Candidates -/

theorem EventLine.isCandidate_parenthesis {line : List Char} (h : isCandidate line = true) :
    '(' ∈ line := by
  have hmark : ∀ (mark : Char) (cs : List Char), ∀ x ∈ (takeMark mark cs).2, x ∈ cs := by
    intro mark cs x hx
    unfold takeMark at hx
    split at hx
    · cases hx
    · split at hx
      · exact List.mem_cons_of_mem _ hx
      · exact hx
  have hhead : (takeMark '!' (takeMark '%' (Text.trim line)).2).2.head? = some '(' := by
    simpa [isCandidate] using h
  exact Text.mem_of_mem_trim (hmark _ _ _ (hmark _ _ _ (List.mem_of_head? hhead)))

namespace Choreography

variable {c d : Choreography String}

/-- No line of a text is taken for an event line. -/
def Unread (s : String) : Prop := ∀ line ∈ Text.lines s.toList, isCandidate line = false

instance (s : String) : Decidable (Unread s) :=
  decidable_of_iff (((Text.lines s.toList).all fun line => !isCandidate line) = true)
    (by simp [Unread])

/-- A line that ends the events or the relations of a process. -/
def Closes (line : String) : Prop :=
  ∃ tabs, (∀ x ∈ tabs, x = '\t') ∧ (line.toList = tabs ++ [';'] ∨ line.toList = tabs ++ ['\x7d'])

/-- No role, no line of the security lattice and no relation shows a line that is taken for an event
line. -/
structure Unmistakable (c : Choreography String) : Prop where
  roles : ∀ r ∈ c.roles, Unread r.signature
  security : Unread c.security
  relations : ∀ line, Piece.text line ∈ c.pieces → ¬ Closes line → Unread line

theorem unread_of_not_mem {s : String} (h : '(' ∉ s.toList) : Unread s := by
  intro line hl
  refine Bool.eq_false_iff.mpr fun hc => h ?_
  exact Text.mem_of_mem_lines hl _ (EventLine.isCandidate_parenthesis hc)

theorem unread_of_closes {line : String} (h : Closes line) : Unread line := by
  obtain ⟨tabs, htabs, hline⟩ := h
  refine unread_of_not_mem fun hx => ?_
  have htab : '(' ∉ tabs := fun hx => absurd (htabs _ hx) (by decide)
  rcases hline with hline | hline
  · rw [hline] at hx
    simp [htab] at hx
  · rw [hline] at hx
    simp [htab] at hx

theorem Unmistakable.text (h : c.Unmistakable) {line : String} (hp : Piece.text line ∈ c.pieces) :
    Unread line := by
  by_cases hc : Closes line
  · exact unread_of_closes hc
  · exact h.relations line hp hc

theorem Unmistakable.preamble (h : c.Unmistakable) : ∀ s ∈ c.preamble, Unread s := by
  intro s hs
  rcases List.mem_append.mp hs with hs | hs
  · obtain ⟨r, hr, rfl⟩ := List.mem_map.mp hs
    exact h.roles r hr
  · have hterminator : Unread (FreeText.ofText terminator) := unread_of_not_mem (by decide)
    simp only [List.mem_cons, List.not_mem_nil, or_false] at hs
    rcases hs with rfl | rfl | rfl
    · exact hterminator
    · exact h.security
    · exact hterminator

theorem filter_of_unread {s : String} (h : Unread s) :
    (Text.lines s.toList).filter isCandidate = [] :=
  List.filter_eq_nil_iff.mpr fun line hl => by simp [h line hl]

/-- An event line is one line, and a candidate. -/
theorem Complete.filter_event (h : c.Complete) (hs : ∀ e ∈ c.events.entries, e.content.LineSafe)
    {id line : String}
    (hp : Piece.event id line ∈ c.pieces) :
    (Text.lines line.toList).filter isCandidate = [line.toList] := by
  obtain ⟨e, he, tabs, htabs, _, hline⟩ := (h.piece _ hp).2 id line rfl
  have hblank : ∀ x ∈ tabs, Text.isBlank x = true := fun x hx => by
    rw [htabs x hx]
    rfl
  have hcandidate := EventLine.isCandidate_written e.content hblank
  have hends : ∀ x ∈ tabs ++ EventLine.written e.content, Text.isLineEnd x = false := by
    intro x hx
    rcases List.mem_append.mp hx with hx | hx
    · rw [htabs x hx]
      rfl
    · exact EventLine.written_oneLine (hs e he).oneLine x hx
  have hne : tabs ++ EventLine.written e.content ≠ [] := by
    intro hnil
    rw [hnil] at hcandidate
    cases hcandidate
  rw [hline, Text.lines_of_no_end hne hends, List.filter_cons_of_pos hcandidate]
  rfl

/-- The candidates in generated code are its event lines. -/
theorem Complete.candidates (h : c.Complete) (hs : ∀ e ∈ c.events.entries, e.content.LineSafe)
    (hu : c.Unmistakable) :
    Rehydration.candidates (codeOf c.preamble c.pieces).text =
      (c.pieces.filterMap Piece.eventLine?).map fun p => p.2.toList := by
  have hpieces : ∀ ps : List Piece, ps ⊆ c.pieces →
      ((ps.filterMap Piece.line?).flatMap fun s => (Text.lines s.toList).filter isCandidate) =
        (ps.filterMap Piece.eventLine?).map fun p => p.2.toList := by
    intro ps
    induction ps with
    | nil => exact fun _ => rfl
    | cons p rest ih =>
      intro hsub
      obtain ⟨hp, hrest⟩ := List.cons_subset.mp hsub
      have ih := ih hrest
      cases p with
      | event id line =>
        have hline : (Piece.event id line :: rest).filterMap Piece.line? =
          line :: rest.filterMap Piece.line? := rfl
        rw [hline, List.flatMap_cons, ih, h.filter_event hs hp]
        rfl
      | text line =>
        have hline : (Piece.text line :: rest).filterMap Piece.line? =
          line :: rest.filterMap Piece.line? := rfl
        rw [hline, List.flatMap_cons, ih, filter_of_unread (hu.text hp)]
        rfl
      | recursion target source => exact ih
      | obstacle o => exact ih
  have hpreamble : (c.preamble.flatMap fun s : String => (Text.lines s.toList).filter isCandidate) =
      [] :=
    List.flatMap_eq_nil_iff.mpr fun s hs => filter_of_unread (hu.preamble s hs)
  rw [Rehydration.candidates, codeOf, Text.filter_lines_intercalate rfl, List.flatMap_append,
    hpreamble, hpieces _ (fun _ hp => hp), List.nil_append]

end Choreography

/-! ## Records -/

namespace Rehydration

variable {c : Choreography String}

/-- A record gives an event of a choreography its content. -/
def Tells (c : Choreography String) (record : String × EventContent String) : Prop :=
  ∃ e ∈ c.events.entries, e.id = record.1 ∧ e.content = record.2

/-- A reading of event lines, with the id beside each, that gives every event among them its content
in a choreography, in the order of their first lines, and neither warns nor fails. -/
structure Restores (c : Choreography String) (ids : List String)
    (reading : Logged (Except EventLine.ParseError (Records String))) : Prop where
  quiet : ∀ n ∈ reading.log, n.level = .debug
  contents : ∃ records, reading.value = .ok records ∧ records.map Prod.fst = ids.eraseDups ∧
    ∀ r ∈ records, Tells c r

/-- Lines of events are read without a warning; each event gets its content, once. -/
theorem readFrom_of_tells {records : Records String} {rest : List (String × List Char)}
    (hrecords : ∀ r ∈ records, Tells c r)
    (hrest : ∀ p ∈ rest, ∃ e ∈ c.events.entries, e.id = p.1 ∧ EventLine.parse p.2 = .ok e.content) :
    ∃ all, (readFrom records rest).value = .ok all ∧
    (∀ n ∈ (readFrom records rest).log, n.level = .debug) ∧
      all.map Prod.fst = records.map Prod.fst ++
        ((rest.map Prod.fst).filter fun id => !records.any fun r => r.1 == id).eraseDups ∧
      ∀ r ∈ all, Tells c r := by
  induction rest generalizing records with
  | nil => exact ⟨records, rfl, fun n hn => absurd hn List.not_mem_nil, by simp, hrecords⟩
  | cons p rest ih =>
    obtain ⟨id, line⟩ := p
    obtain ⟨e, he, hid, hparse⟩ := hrest _ List.mem_cons_self
    have hrest := fun q hq => hrest q (List.mem_cons_of_mem _ hq)
    by_cases hknown : records.any (fun r => r.1 == id) = true
    · obtain ⟨all, hall, hlog, hkeys, htells⟩ := ih hrecords hrest
      refine ⟨all, ?_, ?_, ?_, htells⟩
      · simp only [readFrom, hparse, hknown, if_true, Logged.value_bind, hall]
      · intro n hn
        simp only [readFrom, hparse, hknown, if_true, Logged.log_bind, Logged.tell, List.mem_append,
          List.mem_singleton] at hn
        rcases hn with hn | rfl | hn
        · exact EventLine.level_of_mem_parseNotices hn
        · rfl
        · exact hlog n hn
      · rw [hkeys, List.map_cons, List.filter_cons_of_neg (by simp [hknown])]
    · have hrecords' : ∀ r ∈ records ++ [(id, e.content)], Tells c r := by
        intro r hr
        rcases List.mem_append.mp hr with hr | hr
        · exact hrecords r hr
        · rw [List.mem_singleton.mp hr]
          exact ⟨e, he, hid, rfl⟩
      obtain ⟨all, hall, hlog, hkeys, htells⟩ := ih hrecords' hrest
      refine ⟨all, ?_, ?_, ?_, htells⟩
      · simp only [readFrom, hparse, hknown, Logged.value_bind]
        exact hall
      · intro n hn
        simp only [readFrom, hparse, hknown, Logged.log_bind, Logged.tell, List.mem_append] at hn
        rcases hn with hn | hn
        · exact EventLine.level_of_mem_parseNotices hn
        · rcases List.mem_append.mp hn with hn | hn
          · rw [List.mem_singleton.mp hn]
            rfl
          · exact hlog n hn
      · rw [hkeys, List.map_cons, List.filter_cons_of_pos (by simp [hknown]), List.eraseDups_cons,
          List.filter_filter, List.map_append, List.append_assoc]
        refine congrArg _ (congrArg _ (congrArg List.eraseDups (List.filter_congr fun x _ => ?_)))
        rw [List.any_append, Bool.not_or, Bool.and_comm]
        simp [BEq.comm]

/-- The code of a choreography, read against the generation of one that says other things at the
same places, gives the events their contents. -/
theorem restores_of_rewords {c d : Choreography String} (hc : c.Complete) (hd : d.Complete)
    (hw : Choreography.Rewords c d) (hs : ∀ e ∈ d.events.entries, e.content.LineSafe)
    (hu : d.Unmistakable) :
    Restores d ((Choreography.codeOf c.preamble c.pieces).rendered.map Prod.fst)
      (read (Choreography.codeOf d.preamble d.pieces).text
          (Choreography.codeOf c.preamble c.pieces).rendered) := by
  have hids : (c.pieces.filterMap Piece.eventLine?).map Prod.fst =
      (d.pieces.filterMap Piece.eventLine?).map Prod.fst := by
    rw [hc.pieces, hd.pieces, Choreography.ids_process hc, Choreography.ids_process hd, hw.shownIds,
      hw.containers]
  have hlength : (c.pieces.filterMap Piece.eventLine?).length =
      (d.pieces.filterMap Piece.eventLine?).length := by
    rw [← List.length_map Prod.fst, hids, List.length_map]
  have hzip : ((c.pieces.filterMap Piece.eventLine?).map Prod.fst).zip
      ((d.pieces.filterMap Piece.eventLine?).map fun p => p.2.toList) =
      (d.pieces.filterMap Piece.eventLine?).map fun p => (p.1, p.2.toList) := by
    rw [hids, List.zip_map']
  have hlines : ∀ p ∈ (d.pieces.filterMap Piece.eventLine?).map (fun p => (p.1, p.2.toList)),
      ∃ e ∈ d.events.entries, e.id = p.1 ∧ EventLine.parse p.2 = .ok e.content := by
    intro p hp
    obtain ⟨q, hq, rfl⟩ := List.mem_map.mp hp
    obtain ⟨piece, hpiece, hline⟩ := List.mem_filterMap.mp hq
    cases piece with
    | event id line =>
      cases hline
      obtain ⟨e, he, tabs, htabs, hid, hline⟩ := (hd.piece _ hpiece).2 id line rfl
      refine ⟨e, he, hid, ?_⟩
      rw [hline]
      refine EventLine.parse_written (hs e he) fun x hx => ?_
      rw [htabs x hx]
      rfl
    | text line => cases hline
    | recursion target source => cases hline
    | obstacle o => cases hline
  obtain ⟨records, hvalue, hlog, hkeys, htells⟩ :=
    readFrom_of_tells (fun _ hr => absurd hr List.not_mem_nil) hlines
  have hread : read (τ := String) (Choreography.codeOf d.preamble d.pieces).text
      (Choreography.codeOf c.preamble c.pieces).rendered =
      readFrom [] ((d.pieces.filterMap Piece.eventLine?).map fun p => (p.1, p.2.toList)) := by
    have hrendered : (Choreography.codeOf c.preamble c.pieces).rendered =
      c.pieces.filterMap Piece.eventLine? := rfl
    simp only [read, hd.candidates hs hu]
    simp only [hrendered, hzip, List.length_map, countNotices, hlength, if_true]
    rfl
  rw [hread]
  refine ⟨hlog, records, hvalue, ?_, htells⟩
  have hall : ∀ ids : List String,
      (ids.filter fun id => !([] : Records String).any fun r => r.1 == id) = ids :=
    fun ids => List.filter_eq_self.mpr fun _ _ => rfl
  rw [hkeys, List.map_nil, List.nil_append, hall, List.map_map]
  exact congrArg List.eraseDups hids.symm

end Rehydration

/-! ## Sessions -/

namespace Editor

/-- The code of a choreography that a session reaches, read against the generation of another one
with other contents in the same places, gives back exactly the contents of the events shown. -/
theorem read_edited_code {e e' : Editor String} (h : e.Opening) (h' : e'.Opening)
    (calls calls' : List (Call String))
    (hw : Choreography.Rewords (e.after calls).choreography (e'.after calls').choreography)
    (hs : ∀ v ∈ (e'.after calls').choreography.events.entries, v.content.LineSafe)
    (hu : (e'.after calls').choreography.Unmistakable) :
    ∃ code code', (e.after calls).choreography.generate.value = .ok code ∧
      (e'.after calls').choreography.generate.value = .ok code' ∧
      Rehydration.Restores (e'.after calls').choreography (code.rendered.map Prod.fst)
        (Rehydration.read code'.text code.rendered) := by
  have hc := (orderly_after h calls).complete
  have hd := (orderly_after h' calls').complete
  exact ⟨_, _, hc.generate, hd.generate, Rehydration.restores_of_rewords hc hd hw hs hu⟩

/-- A session that puts an event of the sample into a subprocess and spawns it. -/
def spawning : List (Call String) :=
  [.edit (.createContainer { form := .subprocess, children := ["e2"] }),
    .edit (.createRelation "e1" "s0" .spawn "")]

/-- What a session tells the event instead. -/
def retold : EventContent String where
  label := "e2"
  value := .computation "a ] [b"
  initiators := ["P(id=1, x=2)", "Q"]
  pending := true

/-- The session, and the session with the event told something else. -/
theorem read_edited_code_spawned :
    ∃ code code',
      (after { choreography := Sample.choreography } spawning).choreography.generate.value =
        .ok code ∧
      (after { choreography := Sample.choreography }
        (spawning ++ [.edit (.updateEvent "e2" retold)])).choreography.generate.value = .ok code' ∧
      Rehydration.Restores
        (after { choreography := Sample.choreography }
          (spawning ++ [.edit (.updateEvent "e2" retold)])).choreography
        (code.rendered.map Prod.fst) (Rehydration.read code'.text code.rendered) := by
  have hunread : ∀ p ∈ (after { choreography := Sample.choreography }
      (spawning ++ [.edit (.updateEvent "e2" retold)])).choreography.pieces,
      p.eventLine? = none → ∀ line ∈ p.line?, Choreography.Unread line := by decide +kernel
  refine read_edited_code (.inr rfl) (.inr rfl) spawning
    (spawning ++ [.edit (.updateEvent "e2" retold)])
    ⟨by decide +kernel, by decide +kernel, by decide +kernel⟩
    (by decide +kernel) ⟨by decide +kernel, by decide +kernel, fun line hp _ => ?_⟩
  exact hunread _ hp rfl line rfl

end Editor

end Dcr
