import Dcr.Rehydration
import Mathlib.Data.List.Basic

/-! Reading by position. As many lines are read as there are both lines that are meant as event lines
and event lines of the generation. An event gets what the line at its first position says; the lines at
its other positions are read as well, and only have to be event lines. So nothing else in a text makes a
difference to what is read. -/

namespace Dcr.Rehydration

open EventLine (ParseError parse)

variable {τ : Type} [FreeText τ] {records all : Records τ} {id : String} {d : EventContent τ}
  {line : List Char} {pairs : List (String × List Char)} {ids : List String} {e : ParseError}

/-! ## First positions -/

/-- The first position of an id. -/
def FirstAt (ids : List String) (id : String) (i : Nat) : Prop :=
  ids[i]? = some id ∧ ∀ j < i, ids[j]? ≠ some id

instance (ids : List String) (id : String) (i : Nat) : Decidable (FirstAt ids id i) :=
  inferInstanceAs (Decidable (_ ∧ _))

theorem firstAt_cons_zero {a : String} : FirstAt (a :: ids) id 0 ↔ a = id := by
  simp [FirstAt]

theorem firstAt_cons_succ {a : String} {i : Nat} :
    FirstAt (a :: ids) id (i + 1) ↔ a ≠ id ∧ FirstAt ids id i := by
  constructor
  · rintro ⟨hi, hbefore⟩
    refine ⟨fun he => hbefore 0 (Nat.succ_pos i) (by simp [he]), by simpa using hi, fun j hj => ?_⟩
    simpa using hbefore (j + 1) (Nat.succ_lt_succ hj)
  · rintro ⟨hne, hi, hbefore⟩
    refine ⟨by simpa using hi, fun j hj => ?_⟩
    cases j with
    | zero => simpa using hne
    | succ j => simpa using hbefore j (Nat.lt_of_succ_lt_succ hj)

theorem firstAt_take {n i : Nat} : FirstAt (ids.take n) id i ↔ i < n ∧ FirstAt ids id i := by
  unfold FirstAt
  constructor
  · rintro ⟨hi, hbefore⟩
    rw [List.getElem?_take] at hi
    split at hi
    · next hlt =>
      refine ⟨hlt, hi, fun j hj => ?_⟩
      have hj' := hbefore j hj
      rwa [List.getElem?_take, if_pos (Nat.lt_trans hj hlt)] at hj'
    · cases hi
  · rintro ⟨hlt, hi, hbefore⟩
    refine ⟨by rwa [List.getElem?_take, if_pos hlt], fun j hj => ?_⟩
    rw [List.getElem?_take, if_pos (Nat.lt_trans hj hlt)]
    exact hbefore j hj

/-- What is found at the first position of an id is found there at once or in the rest. -/
theorem exists_firstAt_cons {a : String} {l : List Char} {lines : List (List Char)}
    {P : List Char → Prop} :
    (∃ i line, FirstAt (a :: ids) id i ∧ (l :: lines)[i]? = some line ∧ P line) ↔
      a = id ∧ P l ∨ a ≠ id ∧ ∃ i line, FirstAt ids id i ∧ lines[i]? = some line ∧ P line := by
  constructor
  · rintro ⟨i, line, hfirst, hline, hP⟩
    cases i with
    | zero =>
      cases Option.some.inj hline
      exact .inl ⟨firstAt_cons_zero.mp hfirst, hP⟩
    | succ i =>
      obtain ⟨hne, hfirst⟩ := firstAt_cons_succ.mp hfirst
      exact .inr ⟨hne, i, line, hfirst, by simpa using hline, hP⟩
  · rintro (⟨he, hP⟩ | ⟨hne, i, line, hfirst, hline, hP⟩)
    · exact ⟨0, l, firstAt_cons_zero.mpr he, rfl, hP⟩
    · exact ⟨i + 1, line, firstAt_cons_succ.mpr ⟨hne, hfirst⟩, by simpa using hline, hP⟩

/-! ## Reading line by line -/

/-- Records with one more, unless there is one for its event. -/
def keepFirst (records : Records τ) (id : String) (d : EventContent τ) : Records τ :=
  if id ∈ records.map Prod.fst then records else records ++ [(id, d)]

theorem value_readFrom_of_error (records : Records τ) (id : String) (rest : List (String × List Char))
    (h : (parse line : Except ParseError (EventContent τ)) = .error e) :
    (readFrom records ((id, line) :: rest)).value = .error e := by
  simp only [readFrom, h, Logged.value_bind, Logged.value_pure]

theorem value_readFrom_of_ok (records : Records τ) (id : String) (rest : List (String × List Char))
    (h : (parse line : Except ParseError (EventContent τ)) = .ok d) :
    (readFrom records ((id, line) :: rest)).value =
      (readFrom (keepFirst records id d) rest).value := by
  have hknown : (records.any fun record => record.1 == id) = true ↔ id ∈ records.map Prod.fst := by
    simp
  unfold keepFirst
  split
  · next hid => simp only [readFrom, h, Logged.value_bind, hknown.mpr hid, if_true]
  · next hid =>
    have hnew := Bool.eq_false_iff.mpr (mt hknown.mp hid)
    simp only [readFrom, h, Logged.value_bind, hnew, Bool.false_eq_true, if_false]

variable (τ) in
/-- A line is read as an event line. -/
def Parses (line : List Char) : Prop := ∃ d : EventContent τ, parse line = .ok d

/-- Reading ends in the error of the first line that is no event line. -/
theorem readFrom_eq_error_iff : (readFrom records pairs).value = .error e ↔
    ∃ (i : Nat) (line : List Char), (pairs.map Prod.snd)[i]? = some line ∧
      (parse line : Except ParseError (EventContent τ)) = .error e ∧
      ∀ j < i, ∀ line, (pairs.map Prod.snd)[j]? = some line → Parses τ line := by
  induction pairs generalizing records with
  | nil =>
    constructor
    · intro h
      cases h
    · rintro ⟨i, line, hline, _⟩
      cases hline
  | cons pair rest ih =>
    obtain ⟨id, line⟩ := pair
    rw [List.map_cons]
    cases hparse : (parse line : Except ParseError (EventContent τ)) with
    | error e' =>
      rw [value_readFrom_of_error records id rest hparse]
      constructor
      · intro he
        exact ⟨0, line, rfl, hparse.trans (by rw [Except.error.inj he]), by simp⟩
      · rintro ⟨i, l, hl, he, hbefore⟩
        cases i with
        | zero =>
          cases Option.some.inj hl
          exact congrArg _ (Except.error.inj (hparse.symm.trans he))
        | succ i =>
          obtain ⟨d, hd⟩ := hbefore 0 (Nat.succ_pos i) line rfl
          rw [hparse] at hd
          cases hd
    | ok d =>
      rw [value_readFrom_of_ok records id rest hparse, ih]
      constructor
      · rintro ⟨i, l, hl, he, hbefore⟩
        refine ⟨i + 1, l, hl, he, fun j hj m hm => ?_⟩
        cases j with
        | zero => exact Option.some.inj hm ▸ ⟨d, hparse⟩
        | succ j => exact hbefore j (Nat.lt_of_succ_lt_succ hj) m hm
      · rintro ⟨i, l, hl, he, hbefore⟩
        cases i with
        | zero =>
          cases Option.some.inj hl
          rw [hparse] at he
          cases he
        | succ i => exact ⟨i, l, hl, he, fun j hj m hm => hbefore (j + 1) (Nat.succ_lt_succ hj) m hm⟩

/-- Lines are read if all of them are event lines. -/
theorem readFrom_eq_ok_iff : (∃ all, (readFrom records pairs).value = .ok all) ↔
    ∀ line ∈ pairs.map Prod.snd, Parses τ line := by
  induction pairs generalizing records with
  | nil => simp [readFrom]
  | cons pair rest ih =>
    obtain ⟨id, line⟩ := pair
    rw [List.map_cons, List.forall_mem_cons]
    cases hparse : (parse line : Except ParseError (EventContent τ)) with
    | error e => simp [value_readFrom_of_error records id rest hparse, Parses, hparse]
    | ok d => rw [value_readFrom_of_ok records id rest hparse, ih, and_iff_right ⟨d, hparse⟩]

/-- Records are read for the ids that have none, in the order of their first positions. -/
theorem ids_readFrom (h : (readFrom records pairs).value = .ok all) :
    all.map Prod.fst = records.map Prod.fst ++
      ((pairs.map Prod.fst).removeAll (records.map Prod.fst)).eraseDups := by
  induction pairs generalizing records with
  | nil =>
    cases h
    simp
  | cons pair rest ih =>
    obtain ⟨id, line⟩ := pair
    cases hparse : (parse line : Except ParseError (EventContent τ)) with
    | error e =>
      rw [value_readFrom_of_error records id rest hparse] at h
      cases h
    | ok d =>
      rw [value_readFrom_of_ok records id rest hparse] at h
      rw [ih h, List.map_cons, List.cons_removeAll, keepFirst]
      by_cases hid : id ∈ records.map Prod.fst
      · rw [if_pos hid, if_neg (by simpa using hid)]
      · have hfewer : (rest.map Prod.fst).removeAll (records.map Prod.fst ++ [id]) =
            ((rest.map Prod.fst).removeAll (records.map Prod.fst)).filter fun k => !k == id := by
          simp only [List.removeAll, List.filter_filter]
          refine List.filter_congr fun k _ => ?_
          rw [Bool.eq_iff_iff]
          simp [and_comm]
        rw [if_neg hid, if_pos (by simpa using hid), List.map_append, List.eraseDups_cons,
          List.map_singleton, hfewer, List.append_assoc, List.singleton_append]

/-- An event without a record gets what the line at its first position says. -/
theorem mem_readFrom_iff (h : (readFrom records pairs).value = .ok all) :
    (id, d) ∈ all ↔ (id, d) ∈ records ∨ id ∉ records.map Prod.fst ∧
      ∃ (i : Nat) (line : List Char), FirstAt (pairs.map Prod.fst) id i ∧ (pairs.map Prod.snd)[i]? = some line ∧
        parse line = .ok d := by
  induction pairs generalizing records with
  | nil =>
    cases h
    simp
  | cons pair rest ih =>
    obtain ⟨a, l⟩ := pair
    cases hparse : (parse l : Except ParseError (EventContent τ)) with
    | error e =>
      rw [value_readFrom_of_error records a rest hparse] at h
      cases h
    | ok b =>
      rw [value_readFrom_of_ok records a rest hparse] at h
      rw [ih h, List.map_cons, List.map_cons, exists_firstAt_cons, keepFirst]
      by_cases ha : a ∈ records.map Prod.fst
      · rw [if_pos ha]
        refine or_congr_right (and_congr_right fun hid => ?_)
        have hne : a ≠ id := fun he => hid (he ▸ ha)
        simp [hne]
      · rw [if_neg ha, List.map_append, List.mem_append, List.mem_append, or_assoc]
        refine or_congr_right ?_
        by_cases he : a = id
        · subst he
          simp [ha, hparse, eq_comm]
        · simp [he, Ne.symm he]

/-- The same is read from lines that are the same at first positions and event lines at the others. -/
theorem readFrom_congr {lines lines' : List (List Char)} (hlines : lines.length = ids.length)
    (hlines' : lines'.length = ids.length)
    (hfirst : ∀ i id, id ∉ records.map Prod.fst → FirstAt ids id i → lines[i]? = lines'[i]?)
    (hrepeat : ∀ i : Nat, (∀ id, FirstAt ids id i → id ∈ records.map Prod.fst) →
      ∀ line, lines[i]? = some line ∨ lines'[i]? = some line → Parses τ line) :
    (readFrom records (ids.zip lines)).value = (readFrom records (ids.zip lines')).value := by
  induction ids generalizing records lines lines' with
  | nil => rfl
  | cons id ids ih =>
    obtain ⟨l, lines, rfl⟩ := List.exists_cons_of_length_eq_add_one hlines
    obtain ⟨l', lines', rfl⟩ := List.exists_cons_of_length_eq_add_one hlines'
    simp only [List.length_cons, Nat.add_right_cancel_iff] at hlines hlines'
    rw [List.zip_cons_cons, List.zip_cons_cons]
    by_cases hid : id ∈ records.map Prod.fst
    · -- the event has a record, so both lines are passed over
      have hpassed := hrepeat 0 fun a ha => firstAt_cons_zero.mp ha ▸ hid
      obtain ⟨d, hd⟩ := hpassed l (.inl rfl)
      obtain ⟨d', hd'⟩ := hpassed l' (.inr rfl)
      rw [value_readFrom_of_ok records id _ hd, value_readFrom_of_ok records id _ hd', keepFirst,
        keepFirst, if_pos hid, if_pos hid]
      refine ih hlines hlines' (fun i a ha hi => ?_) fun i hi line hline => ?_
      · have hne : id ≠ a := fun he => ha (he ▸ hid)
        simpa using hfirst (i + 1) a ha (firstAt_cons_succ.mpr ⟨hne, hi⟩)
      · exact hrepeat (i + 1) (fun a ha => hi a (firstAt_cons_succ.mp ha).2) line (by simpa using hline)
    · obtain rfl : l = l' := by simpa using hfirst 0 id hid (firstAt_cons_zero.mpr rfl)
      cases hparse : (parse l : Except ParseError (EventContent τ)) with
      | error e =>
        rw [value_readFrom_of_error records id _ hparse, value_readFrom_of_error records id _ hparse]
      | ok d =>
        rw [value_readFrom_of_ok records id _ hparse, value_readFrom_of_ok records id _ hparse,
          keepFirst, if_neg hid]
        refine ih hlines hlines' (fun i a ha hi => ?_) fun i hi line hline => ?_
        · rw [List.map_append, List.map_singleton, List.mem_append, List.mem_singleton] at ha
          have hne : id ≠ a := fun he => ha (.inr he.symm)
          simpa using
            hfirst (i + 1) a (fun hmem => ha (.inl hmem)) (firstAt_cons_succ.mpr ⟨hne, hi⟩)
        · refine hrepeat (i + 1) (fun a ha => ?_) line (by simpa using hline)
          obtain ⟨hne, ha⟩ := firstAt_cons_succ.mp ha
          have hknown := hi a ha
          rw [List.map_append, List.map_singleton, List.mem_append, List.mem_singleton] at hknown
          exact hknown.resolve_right fun he => hne he.symm

/-! ## Reading texts -/

/-- As many lines are read as there are both candidates and lines of the generation. -/
def matched (text : String) (rendered : List (String × String)) : Nat :=
  min (candidates text).length rendered.length

section Outcome

variable (τ)

/-- What is read from a text, the notices aside. -/
def outcome (text : String) (rendered : List (String × String)) : Except ParseError (Records τ) :=
  (read text rendered).value

/-- What is read from a text by position: an error if one of the lines read is no event line, and then
that of the first such line; otherwise one record for each id beside the lines read, in the order of
first positions, with what the candidate at the first position says. -/
structure Positional (text : String) (rendered : List (String × String)) : Prop where
  refused : (∃ e, outcome τ text rendered = .error e) ↔
    ∃ line ∈ (candidates text).take (matched text rendered), ¬ Parses τ line
  reported : ∀ e, outcome τ text rendered = .error e →
    ∃ (i : Nat) (line : List Char), i < matched text rendered ∧ (candidates text)[i]? = some line ∧
      (parse line : Except ParseError (EventContent τ)) = .error e ∧
      ∀ j < i, ∀ line, (candidates text)[j]? = some line → Parses τ line
  ids : ∀ records, outcome τ text rendered = .ok records →
    records.map Prod.fst = ((rendered.map Prod.fst).take (matched text rendered)).eraseDups
  content : ∀ records, outcome τ text rendered = .ok records → ∀ id d, (id, d) ∈ records ↔
    ∃ (i : Nat) (line : List Char), i < matched text rendered ∧
      FirstAt (rendered.map Prod.fst) id i ∧ (candidates text)[i]? = some line ∧ parse line = .ok d

/-- Two texts, each with the event lines of a generation, that differ only in what does not matter: as
many lines are read of both, for the same ids, with the same candidates at first positions, and with
event lines at all others. -/
structure Alike (text text' : String) (rendered rendered' : List (String × String)) : Prop where
  count : matched text rendered = matched text' rendered'
  ids : (rendered.map Prod.fst).take (matched text rendered) =
    (rendered'.map Prod.fst).take (matched text rendered)
  firsts : ∀ i < matched text rendered, ∀ id, FirstAt (rendered.map Prod.fst) id i →
    (candidates text)[i]? = (candidates text')[i]?
  repeats : ∀ i < matched text rendered, (∀ id, ¬ FirstAt (rendered.map Prod.fst) id i) → ∀ line,
    (candidates text)[i]? = some line ∨ (candidates text')[i]? = some line → Parses τ line

end Outcome

variable {text text' : String} {rendered rendered' : List (String × String)}

theorem outcome_eq (text : String) (rendered : List (String × String)) :
    outcome τ text rendered =
      (readFrom [] (((rendered.map Prod.fst).take (matched text rendered)).zip
        ((candidates text).take (matched text rendered)))).value := by
  rw [outcome, read, Logged.value_bind, List.zip_eq_zip_take_min, List.length_map, Nat.min_comm]
  rfl

theorem length_taken (text : String) (rendered : List (String × String)) :
    ((rendered.map Prod.fst).take (matched text rendered)).length = matched text rendered ∧
      ((candidates text).take (matched text rendered)).length = matched text rendered := by
  simp [matched]

theorem getElem?_take_eq_some {α : Type} {l : List α} {n i : Nat} {a : α} :
    (l.take n)[i]? = some a ↔ i < n ∧ l[i]? = some a := by
  rw [List.getElem?_take]
  by_cases hi : i < n <;> simp [hi]

/-- Every text is read by position. -/
theorem positional (text : String) (rendered : List (String × String)) :
    Positional τ text rendered := by
  obtain ⟨hids, hlines⟩ := length_taken text rendered
  have hfst := List.map_fst_zip (Nat.le_of_eq (hids.trans hlines.symm))
  have hsnd := List.map_snd_zip (Nat.le_of_eq (hlines.trans hids.symm))
  constructor
  case refused =>
    have hok : (∃ records, outcome τ text rendered = .ok records) ↔
        ∀ line ∈ (candidates text).take (matched text rendered), Parses τ line := by
      rw [outcome_eq, readFrom_eq_ok_iff, hsnd]
    cases hout : outcome τ text rendered with
    | error e =>
      rw [hout] at hok
      simp only [Except.error.injEq, exists_eq', true_iff]
      by_contra hall
      simp only [not_exists, not_and, not_not] at hall
      obtain ⟨records, hrecords⟩ := hok.mpr hall
      cases hrecords
    | ok records =>
      have hall := hok.mp ⟨records, hout⟩
      simp only [reduceCtorEq, exists_false, false_iff, not_exists, not_and, not_not]
      exact hall
  case reported =>
    intro e he
    rw [outcome_eq, readFrom_eq_error_iff, hsnd] at he
    obtain ⟨i, line, hline, herror, hbefore⟩ := he
    obtain ⟨hi, hline⟩ := getElem?_take_eq_some.mp hline
    exact ⟨i, line, hi, hline, herror, fun j hj l hl =>
      hbefore j hj l (getElem?_take_eq_some.mpr ⟨Nat.lt_trans hj hi, hl⟩)⟩
  case ids =>
    intro records hrecords
    rw [outcome_eq] at hrecords
    have hall := ids_readFrom hrecords
    rwa [hfst, List.map_nil, List.nil_append, List.removeAll_nil] at hall
  case content =>
    intro records hrecords id d
    rw [outcome_eq] at hrecords
    rw [mem_readFrom_iff hrecords, hfst, hsnd]
    simp only [firstAt_take, getElem?_take_eq_some, List.map_nil, List.not_mem_nil, not_false_eq_true,
      true_and, false_or]
    refine exists_congr fun i => exists_congr fun line => ?_
    tauto

/-- Texts that are alike are read alike. -/
theorem Alike.outcome (h : Alike τ text text' rendered rendered') :
    outcome τ text rendered = outcome τ text' rendered' := by
  obtain ⟨hids, hlines⟩ := length_taken text rendered
  obtain ⟨-, hlines'⟩ := length_taken text' rendered'
  rw [outcome_eq, outcome_eq, ← h.count, ← h.ids]
  rw [← h.count] at hlines'
  refine readFrom_congr (hlines.trans hids.symm) (hlines'.trans hids.symm) (fun i id _ hi => ?_)
    fun i hi line hline => ?_
  · obtain ⟨hlt, hi⟩ := firstAt_take.mp hi
    rw [List.getElem?_take, List.getElem?_take, if_pos hlt, if_pos hlt, h.firsts i hlt id hi]
  · rw [getElem?_take_eq_some, getElem?_take_eq_some, ← and_or_left] at hline
    refine h.repeats i hline.1 (fun id hid => ?_) line hline.2
    cases hi id (firstAt_take.mpr ⟨hline.1, hid⟩)

/-- Reading is by position, and of texts that are alike the same is read. -/
theorem read_by_position :
    (∀ text rendered, Positional τ text rendered) ∧
      ∀ text text' rendered rendered', Alike τ text text' rendered rendered' →
        (read text rendered : Logged (Except ParseError (Records τ))).value =
          (read text' rendered').value :=
  ⟨positional, fun _ _ _ _ h => h.outcome⟩

/-- A text with three candidates, of which the last is for an event that has one already. -/
def told : String := "(a:) () [x] [P]\n;\n(b:) () [] [Q]\n(c:) () [] [R]"

/-- The event lines of a generation that shows an event twice. -/
def twice : List (String × String) := [("e0", "a"), ("e1", "b"), ("e0", "c"), ("e2", "d")]

/-- Another text, with another line for that event and with a candidate after it that is no event
line. -/
def retold : String := "P\n(a:) () [x] [P]\n(b:) () [] [Q]\n\t(d:) () [?] [S]\n(broken off"

/-- The event lines of a generation that shows the same events in the same places, in other words. -/
def again : List (String × String) := [("e0", "d"), ("e1", "e"), ("e0", "f")]

/-- Both texts are read alike, for two events. -/
theorem read_by_position_retold :
    Alike String told retold twice again ∧
      (read told twice : Logged (Except ParseError (Records String))).value =
        (read retold again).value ∧
      ∃ records : Records String, (read told twice).value = .ok records ∧
        records.map Prod.fst = ["e0", "e1"] := by
  have htold : candidates told =
      ["(a:) () [x] [P]".toList, "(b:) () [] [Q]".toList, "(c:) () [] [R]".toList] := by decide +kernel
  have hretold : candidates retold = ["(a:) () [x] [P]".toList, "(b:) () [] [Q]".toList,
      "\t(d:) () [?] [S]".toList, "(broken off".toList] := by decide +kernel
  have hcount : matched told twice = 3 := by
    rw [matched, htold]
    rfl
  have halike : Alike String told retold twice again := by
    constructor
    case count =>
      rw [hcount, matched, hretold]
      rfl
    case ids =>
      rw [hcount]
      rfl
    case firsts =>
      rw [hcount, htold, hretold]
      intro i hi id hid
      obtain rfl | rfl | rfl : i = 0 ∨ i = 1 ∨ i = 2 := by omega
      · rfl
      · rfl
      · exact absurd hid.1 (hid.2 0 (by decide))
    case repeats =>
      rw [hcount, htold, hretold]
      intro i hi hno line hline
      obtain rfl | rfl | rfl : i = 0 ∨ i = 1 ∨ i = 2 := by omega
      · exact absurd (by decide) (hno "e0")
      · exact absurd (by decide) (hno "e1")
      · rcases hline with hline | hline
        · cases Option.some.inj hline
          exact ⟨{ label := "c", value := .computation "", initiators := ["R"] }, by decide +kernel⟩
        · cases Option.some.inj hline
          exact ⟨{ label := "d", initiators := ["S"] }, by decide +kernel⟩
  have hpositional : Positional String told twice := read_by_position.1 _ _
  have hrecords : outcome String told twice = .ok
      [("e0", { label := "a", value := .computation "x", initiators := ["P"] }),
        ("e1", { label := "b", value := .computation "", initiators := ["Q"] })] := by
    decide +kernel
  refine ⟨halike, read_by_position.2 _ _ _ _ halike, _, hrecords, ?_⟩
  rw [hpositional.ids _ hrecords, hcount]
  rfl

end Dcr.Rehydration
