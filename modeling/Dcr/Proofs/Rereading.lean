import Dcr.Proofs.Clauses
import Dcr.Proofs.Misreadings

/-! Lines that were read, read again. Whatever line is read, the content it gives has a line that is
read as well, and with the same label, name, security label, value and marks. The parties may change: a
last participant that is empty is left out, and where participants come to stand beside one another they
may make an arrow that the line did not have. Where neither happens the content is read again. -/

namespace Dcr

open Text (trim isBlank isLineEnd)

namespace EventLine

variable {depth : Int} {current cs p : List Char} {x : Char} {c d : EventContent String}

/-! ## Participants of a list -/

/-- Text without parentheses opens and closes none. -/
theorem netDepth_of_blank {ws : List Char} (hw : ∀ y ∈ ws, isBlank y = true) : netDepth ws = 0 := by
  have hnone : ∀ y : Char, isBlank y = false → ws.count y = 0 := by
    intro y hy
    refine List.count_eq_zero.mpr fun hmem => ?_
    rw [hw y hmem] at hy
    cases hy
  rw [netDepth, hnone '(' (by decide), hnone ')' (by decide)]
  rfl

theorem netDepth_trim (cs : List Char) : netDepth (trim cs) = netDepth cs := by
  obtain ⟨l, r, he, hl, hr⟩ := Text.exists_trim cs
  have hsum : netDepth cs = netDepth l + netDepth (trim cs) + netDepth r := by
    rw [← netDepth_append, ← netDepth_append, ← he]
  rw [hsum, netDepth_of_blank hl, netDepth_of_blank hr]
  omega

/-- What is trimmed off a text does not bear on its commas. -/
theorem participant_trim (h : ∀ a b, cs = a ++ ',' :: b → netDepth a ≠ 0) :
    Participant (trim cs) where
  trimmed := Text.trim_trim cs
  sheltered a b hab := by
    obtain ⟨l, r, he, hl, _⟩ := Text.exists_trim cs
    have hcomma := h (l ++ a) (b ++ r) (by rw [he, hab]; simp)
    rwa [netDepth_append, netDepth_of_blank hl, Int.zero_add] at hcomma

/-- The participants read from a list are taken for one each, and all but the last one have balanced
parentheses. -/
theorem participants_of_list (depth : Int) (current cs : List Char)
    (hdepth : depth = netDepth current.reverse)
    (hcurrent : ∀ a b, current.reverse = a ++ ',' :: b → netDepth a ≠ 0) :
    (∀ p ∈ participantsFrom depth current cs, Participant p) ∧
      ∀ p ∈ (participantsFrom depth current cs).dropLast, netDepth p = 0 := by
  induction cs generalizing depth current with
  | nil =>
    rw [participantsFrom]
    split
    · simp
    · exact ⟨List.forall_mem_singleton.mpr (participant_trim hcurrent), by simp⟩
  | cons x rest ih =>
    rw [participantsFrom_cons]
    split
    · next hx =>
      obtain ⟨rfl, hzero⟩ := hx
      have hbalanced : netDepth (trim current.reverse) = 0 := by
        rw [netDepth_trim, ← hdepth]
        simpa [netDepth] using hzero
      rw [hzero]
      obtain ⟨hrest, hlast⟩ := ih 0 [] rfl (by simp)
      refine ⟨List.forall_mem_cons.mpr ⟨participant_trim hcurrent, hrest⟩, ?_⟩
      cases hparts : participantsFrom 0 [] rest with
      | nil => simp
      | cons q parts =>
        rw [List.dropLast_cons_of_ne_nil (List.cons_ne_nil q parts)]
        rw [hparts] at hlast
        exact List.forall_mem_cons.mpr ⟨hbalanced, hlast⟩
    · next hx =>
      refine ih _ _ ?_ fun a b hab => ?_
      · rw [List.reverse_cons, netDepth_append, ← hdepth]
      · rw [List.reverse_cons] at hab
        rcases List.eq_nil_or_concat b with rfl | ⟨b, y, rfl⟩
        · -- the comma is the one just read
          obtain ⟨rfl, rfl⟩ : current.reverse = a ∧ x = ',' := by simpa using hab
          intro hzero
          exact hx ⟨rfl, by rw [hdepth, hzero]; rfl⟩
        · have hab : current.reverse = a ++ ',' :: b := by
            have hab : current.reverse ++ [x] = (a ++ ',' :: b) ++ [y] := by simpa using hab
            exact (List.append_inj' hab rfl).1
          exact hcurrent a b hab

/-- What was read as a list of participants is read from their join, an empty last one aside. -/
theorem splitParticipants_join_splitParticipants (cs : List Char) :
    splitParticipants (", ".intercalate (splitParticipants cs)).toList =
      kept (splitParticipants cs) := by
  obtain ⟨hparts, hlast⟩ := participants_of_list 0 [] cs rfl (by simp)
  refine splitParticipants_join_kept (fun p hp => ?_) fun p hp => ?_
  · obtain ⟨q, hq, rfl⟩ := List.mem_map.mp hp
    rw [String.toList_ofList]
    exact hparts q hq
  · rw [splitParticipants, ← List.map_dropLast] at hp
    obtain ⟨q, hq, rfl⟩ := List.mem_map.mp hp
    rw [String.toList_ofList]
    exact hlast q hq

/-- The characters of the participants are characters of the list. -/
theorem mem_of_mem_participantsFrom (hp : p ∈ participantsFrom depth current cs) (hx : x ∈ p) :
    x ∈ current ∨ x ∈ cs := by
  have htrim : ∀ current : List Char, x ∈ trim current.reverse → x ∈ current :=
    fun current h => List.mem_reverse.mp (Text.mem_of_mem_trim h)
  induction cs generalizing depth current with
  | nil =>
    rw [participantsFrom] at hp
    split at hp
    · cases hp
    · exact .inl (htrim _ (List.mem_singleton.mp hp ▸ hx))
  | cons y rest ih =>
    rw [participantsFrom_cons] at hp
    split at hp
    · rcases List.mem_cons.mp hp with rfl | hp
      · exact .inl (htrim _ hx)
      · exact .inr (List.mem_cons_of_mem _ ((ih hp).resolve_left List.not_mem_nil))
    · rcases ih hp with h | h
      · rcases List.mem_cons.mp h with rfl | h
        · exact .inr List.mem_cons_self
        · exact .inl h
      · exact .inr (List.mem_cons_of_mem _ h)

/-! ## Arrows in a list -/

/-- A character that is not blank stands in a trimmed text as often as before. -/
theorem count_trim (hx : isBlank x = false) (cs : List Char) : (trim cs).count x = cs.count x := by
  obtain ⟨l, r, he, hl, hr⟩ := Text.exists_trim cs
  have hnone : ∀ ws : List Char, (∀ y ∈ ws, isBlank y = true) → ws.count x = 0 := by
    intro ws hws
    refine List.count_eq_zero.mpr fun hmem => ?_
    rw [hws x hmem] at hx
    cases hx
  have hsum := congrArg (List.count x) he
  rw [List.count_append, List.count_append, hnone l hl, hnone r hr] at hsum
  omega

/-- Participants have the arrow heads of their list. -/
theorem count_participantsFrom (depth : Int) (current cs : List Char) :
    (participantsFrom depth current cs).flatten.count '>' = current.count '>' + cs.count '>' := by
  have htrim : ∀ current : List Char, (trim current.reverse).count '>' = current.count '>' :=
    fun current => by rw [count_trim (by decide), List.count_reverse]
  induction cs generalizing depth current with
  | nil =>
    have hcount := htrim current
    rw [participantsFrom]
    split
    · next hempty =>
      rw [List.isEmpty_iff.mp hempty, List.count_nil] at hcount
      simp [← hcount]
    · simpa using hcount
  | cons x rest ih =>
    rw [participantsFrom_cons]
    split
    · next hx =>
      rw [List.flatten_cons, List.count_append, htrim, ih, hx.1]
      simp
    · rw [ih, List.count_cons, List.count_cons]
      omega

theorem count_join (ps : List String) :
    (", ".intercalate ps).toList.count '>' = (ps.flatMap String.toList).count '>' := by
  induction ps with
  | nil =>
    rw [String.intercalate_nil]
    rfl
  | cons p rest ih =>
    cases rest with
    | nil => simp
    | cons q rest =>
      rw [toList_intercalate_cons_cons, List.count_append, List.count_cons_of_ne (by decide),
        List.count_cons_of_ne (by decide), ih, ← List.count_append]
      rfl

/-- Joined participants have the arrow heads of the list they were read from. -/
theorem count_join_splitParticipants (cs : List Char) :
    (", ".intercalate (splitParticipants cs)).toList.count '>' = cs.count '>' := by
  have hcount := count_participantsFrom 0 [] cs
  rw [List.count_nil, Nat.zero_add] at hcount
  have htexts : (splitParticipants cs).flatMap String.toList = (participantsFrom 0 [] cs).flatten := by
    simp [splitParticipants, List.flatMap_map, List.flatMap_id']
  rw [count_join, htexts, hcount]

/-! ## Parties read again -/

/-- The line of a content shows an arrow that is not the one between its parties. -/
def Arrowed (c : EventContent String) : Prop :=
  [' ', '-', '>', ' '] <:+: (", ".intercalate c.initiators).toList ++
    if c.receivers.isEmpty then [] else [' ']

instance (c : EventContent String) : Decidable (Arrowed c) :=
  inferInstanceAs (Decidable (_ <:+: _))

/-- The initiators and the receivers of a content were read from lists. -/
def Listed (c : EventContent String) : Prop :=
  (∃ cs, c.initiators = splitParticipants cs) ∧ ∃ cs, c.receivers = splitParticipants cs

/-- Without another arrow both lists are read again, empty last participants aside. -/
theorem Listed.splitParties (h : Listed c) (harrow : ¬ Arrowed c) :
    splitParties (partiesOf c) = (kept c.initiators, kept c.receivers) := by
  obtain ⟨⟨is, hi⟩, ⟨rs, hr⟩⟩ := h
  unfold EventLine.splitParties partiesOf
  unfold Arrowed at harrow
  by_cases hnone : c.receivers.isEmpty = true
  · rw [if_pos hnone, List.append_nil] at harrow
    have hcut : Text.cutAt " -> ".toList (", ".intercalate c.initiators).toList = none :=
      Text.cutAt_eq_none (by decide) harrow
    rw [if_pos hnone, List.append_nil, hcut, List.isEmpty_iff.mp hnone, hi]
    simp only [splitParticipants_join_splitParticipants]
    rfl
  · rw [if_neg hnone] at harrow
    rw [if_neg hnone, ← List.append_assoc, cutAt_arrow _ harrow, hi, hr]
    simp only [splitParticipants_join_splitParticipants]

/-- With another arrow the initiators end before it, and so lose an arrow head. -/
theorem splitParties_ne_of_arrowed (harrow : Arrowed c) :
    (splitParties (partiesOf c)).1 ≠ c.initiators := by
  intro he
  obtain ⟨rest, hrest⟩ : ∃ rest, partiesOf c = ((", ".intercalate c.initiators).toList ++
      if c.receivers.isEmpty then [] else [' ']) ++ rest := by
    unfold partiesOf
    split
    · exact ⟨[], by simp⟩
    · exact ⟨['-', '>', ' '] ++ (", ".intercalate c.receivers).toList, by simp⟩
  obtain ⟨before, after, hsplit, hcut⟩ := Text.cutAt_append_of_infix (by decide) rest harrow
  have hcut : Text.cutAt " -> ".toList (partiesOf c) = some (before, after ++ rest) := hrest ▸ hcut
  have hinitiators : splitParticipants before = c.initiators := by
    rw [← he, splitParties, hcut]
  have hheads := count_join_splitParticipants before
  rw [hinitiators] at hheads
  have hcount := congrArg (List.count '>') hsplit
  have hblank : (if c.receivers.isEmpty then [] else [' ']).count '>' = 0 := by
    split <;> rfl
  rw [List.count_append, List.count_append, List.count_append, hblank, hheads] at hcount
  have hone : [' ', '-', '>', ' '].count '>' = 1 := rfl
  omega

/-- A content whose parties its line tells apart. -/
structure Steady (c : EventContent String) : Prop where
  initiators : c.initiators.getLast? ≠ some ""
  receivers : c.receivers.getLast? ≠ some ""
  arrowless : ¬ Arrowed c

theorem Listed.splitParties_iff (h : Listed c) :
    EventLine.splitParties (partiesOf c) = (c.initiators, c.receivers) ↔ Steady c := by
  constructor
  · intro he
    have harrow : ¬ Arrowed c := fun ha => splitParties_ne_of_arrowed ha (congrArg Prod.fst he)
    rw [h.splitParties harrow] at he
    exact ⟨kept_eq_self_iff.mp (congrArg Prod.fst he), kept_eq_self_iff.mp (congrArg Prod.snd he),
      harrow⟩
  · intro hs
    rw [h.splitParties hs.arrowless, kept_eq_self_iff.mpr hs.initiators,
      kept_eq_self_iff.mpr hs.receivers]

/-! ## Lines that were read -/

theorem mem_of_mem_splitParticipants {p : String} (hp : p ∈ splitParticipants cs)
    (hx : x ∈ p.toList) : x ∈ cs := by
  obtain ⟨q, hq, rfl⟩ := List.mem_map.mp hp
  rw [String.toList_ofList] at hx
  exact (mem_of_mem_participantsFrom hq hx).resolve_left List.not_mem_nil

/-- Parties are lists of participants, of characters of the text they were read from. -/
theorem splitParties_lists (cs : List Char) :
    ∃ is rs, EventLine.splitParties cs = (splitParticipants is, splitParticipants rs) ∧
      is ⊆ cs ∧ rs ⊆ cs := by
  unfold EventLine.splitParties
  split
  · next is rs hcut =>
    obtain ⟨rfl, _⟩ := Text.cutAt_eq_some (by decide) hcut
    exact ⟨is, rs, rfl, fun y hy => by simp [hy], fun y hy => by simp [hy]⟩
  · exact ⟨cs, [], rfl, List.Subset.refl cs, List.nil_subset cs⟩

end EventLine

namespace Shape

/-- An ASCII name does not break a line. -/
theorem oneLine_of_isIdentifier {name : String} (h : isIdentifier name = true) :
    ∀ x ∈ name.toList, isLineEnd x = false := by
  have hcontinues : ∀ x ∈ name.toList, Token.continuesName x = true := by
    unfold isIdentifier at h
    split at h
    · cases h
    · next c rest hlist =>
      rw [hlist]
      obtain ⟨hbegins, hrest⟩ := Bool.and_eq_true_iff.mp h
      refine List.forall_mem_cons.mpr ⟨?_, List.all_eq_true.mp hrest⟩
      simp only [Token.beginsName, Token.continuesName, Char.isAlphanum, Bool.or_eq_true] at hbegins ⊢
      exact hbegins.imp_left .inl
  intro x hx
  refine Bool.eq_false_iff.mpr fun hend => ?_
  have hname := hcontinues x hx
  have hx : x = Char.ofNat x.toNat := (Char.ofNat_toNat x).symm
  have hnumber : x.toNat ∈ Text.lineEnds := List.contains_iff_mem.mp hend
  generalize x.toNat = n at hx hnumber
  rw [hx] at hname
  have hnone : ∀ n ∈ Text.lineEnds, Token.continuesName (Char.ofNat n) = false := by decide
  rw [hnone n hnumber] at hname
  cases hname

/-- The texts in a shape of ASCII names do not break a line. -/
theorem Spelled.oneLine {s : Shape String} (h : s.Spelled) :
    ∀ t ∈ s.freeTexts, ∀ x ∈ t.toList, isLineEnd x = false := by
  have hname : ∀ t : String, IsName t → ∀ x ∈ t.toList, isLineEnd x = false := by
    rintro t ⟨name, rfl, hname⟩
    exact oneLine_of_isIdentifier hname
  intro t ht
  cases s with
  | unit => cases ht
  | named type plain => exact hname t (List.mem_singleton.mp ht ▸ h)
  | record fields =>
    obtain ⟨f, hf, ht⟩ := List.mem_flatMap.mp ht
    rcases List.mem_pair.mp ht with rfl | rfl
    · exact hname _ (h f hf).1
    · exact hname _ (h f hf).2

end Shape

namespace EventLine

variable {cs : List Char} {x : Char} {c d : EventContent String}

theorem toList_ofText (cs : List Char) :
    (FreeText.ofText (String.ofList cs) : String).toList = cs := String.toList_ofList

/-- A value that was read is read from its own clause, and shows nothing but what was there and
names. -/
theorem value_of_parseValue {v : EventValue String} (h : parseValue cs = .ok v) :
    parseValue v.render.toList = .ok v ∧
      ∀ s ∈ v.freeTexts, ∀ x ∈ s.toList, x ∈ cs ∨ isLineEnd x = false := by
  unfold parseValue at h
  split at h
  · split at h
    · next s hs =>
      cases h
      obtain ⟨ts, hts, hclause⟩ := Shape.parse_eq_ok_iff.mp hs
      have hspelled := hclause.spelled hts.isIdentifier
      exact ⟨parseValue_input (Shape.parse_render_of_spelled hspelled),
        fun t ht x hx => .inr (hspelled.oneLine t ht x hx)⟩
    · cases h
  · next hquestion =>
    cases h
    refine ⟨parseValue_computation (by rwa [toList_ofText]), fun t ht x hx => .inl ?_⟩
    rwa [List.mem_singleton.mp ht, toList_ofText] at hx

section Content

variable {p : Parts} {v : EventValue String}

/-- The parties of a content are read from the text that the line has for them. -/
theorem parties_content (p : Parts) (v : EventValue String) :
    ∃ is rs, (p.content v).initiators = splitParticipants is ∧
      (p.content v).receivers = splitParticipants rs ∧ is ⊆ p.parties ∧ rs ⊆ p.parties := by
  obtain ⟨is, rs, hparties, his, hrs⟩ := splitParties_lists p.parties
  have hof : ∀ ps : List String, ps.map FreeText.ofText = ps := fun ps => List.map_id ps
  exact ⟨is, rs, by simp only [Parts.content, hof, hparties],
    by simp only [Parts.content, hof, hparties], his, hrs⟩

theorem listed_content (p : Parts) (v : EventValue String) : Listed (p.content v) := by
  obtain ⟨is, rs, hi, hr, _⟩ := parties_content p v
  exact ⟨⟨is, hi⟩, ⟨rs, hr⟩⟩

theorem mem_of_mem_party {q : String}
    (hq : q ∈ (p.content v).initiators ++ (p.content v).receivers) (hx : x ∈ q.toList) :
    x ∈ p.parties := by
  obtain ⟨is, rs, hi, hr, his, hrs⟩ := parties_content p v
  rw [hi, hr] at hq
  rcases List.mem_append.mp hq with hq | hq
  · exact his (mem_of_mem_splitParticipants hq hx)
  · exact hrs (mem_of_mem_splitParticipants hq hx)

/-- A content that was read is legible. -/
theorem legible_content (h : p.Separate) (hv : parseValue p.value = .ok v) :
    Legible (p.content v) where
  label := by
    rw [Parts.content, toList_ofText]
    exact h.label
  name := by
    rw [Parts.content, toList_ofText]
    exact h.name
  security := by
    rw [Parts.content, toList_ofText]
    exact h.security
  value := (value_of_parseValue hv).1
  parties q hq := ⟨fun hx => h.parties.1 (mem_of_mem_party hq hx),
    fun hx => h.parties.2 (mem_of_mem_party hq hx)⟩
  oneLine := by
    rw [Parts.content, toList_ofText]
    refine ⟨h.oneLine.1, fun hx => ?_⟩
    rcases mem_render hx with hx | ⟨s, hs, hx⟩
    · cases hx
    · rcases (value_of_parseValue hv).2 s hs _ hx with hx | hx
      · exact h.oneLine.2 hx
      · cases hx

/-- The texts of a content that was read stand in its parts, ASCII names aside. -/
theorem mem_of_mem_texts (hv : parseValue p.value = .ok v) {s : String}
    (hs : s ∈ (p.content v).texts) (hx : x ∈ s.toList) :
    x ∈ p.label ++ p.name ++ p.security ++ p.value ++ p.parties ∨ isLineEnd x = false := by
  rw [EventContent.texts, List.append_assoc, List.mem_append, List.mem_append] at hs
  rcases hs with (hs | hs) | hs
  · rcases List.mem_cons.mp hs with rfl | hs
    · rw [Parts.content, toList_ofText] at hx
      simp [hx]
    rcases List.mem_pair.mp hs with rfl | rfl
    · rw [Parts.content, toList_ofText] at hx
      simp [hx]
    · rw [Parts.content, toList_ofText] at hx
      simp [hx]
  · exact ((value_of_parseValue hv).2 s hs x hx).imp_left fun hx => by simp [hx]
  · exact .inl (by simp [mem_of_mem_party hs hx])

end Content

/-! ## Lines read again -/

variable {line : List Char}

/-- What is read from a line is legible, has parties from lists, and is made of characters of the line
and ASCII names. -/
theorem legible_of_parse (h : parse line = .ok d) : Legible d ∧ Listed d ∧
    ∀ s ∈ d.texts, ∀ x ∈ s.toList, x ∈ line ∨ isLineEnd x = false := by
  unfold parse at h
  split at h
  · cases h
  · next p hp =>
    split at h
    · next v hv =>
      cases h
      obtain ⟨hline, hseparate⟩ := eq_lineOf_of_parts? hp
      refine ⟨legible_content hseparate hv, listed_content p v, fun s hs x hx => ?_⟩
      refine (mem_of_mem_texts hv hs hx).imp_left fun hx => Text.mem_of_mem_trim ?_
      simp only [List.mem_append, or_assoc] at hx
      rw [hline, lineOf]
      rcases hx with hx | hx | hx | hx | hx <;> simp [hx]
    · cases h

/-- What comes of a content that was read from a line: every event that carries it is shown as one
text, which is read as a content with the same label, name, security label, value and marks. Its
participants are the same but for last ones that are empty, if no arrow has been made, and it is the
content itself just if its parties are told apart. If the line was one line, the text is one line of
the code and taken for an event line, and a content whose parties are told apart is guarded: in code
with other guarded contents it is read as it was. -/
structure Rereads (line : List Char) (d : EventContent String) (shown : String)
    (again : EventContent String) : Prop where
  shows : ∀ e : Event String, render (e.withContent d).content = .ok shown
  read : ∀ ws, (∀ x ∈ ws, isBlank x = true) → parse (ws ++ shown.toList) = .ok again
  rest : again = { d with initiators := again.initiators, receivers := again.receivers }
  parties : ¬ Arrowed d → again.initiators = kept d.initiators ∧ again.receivers = kept d.receivers
  same_iff : again = d ↔ Steady d
  candidate : (∀ x ∈ line, isLineEnd x = false) → ∀ tabs : String, (∀ x ∈ tabs.toList, x = '\t') →
    Rehydration.candidates (tabs ++ shown) = [tabs.toList ++ shown.toList]
  guarded : (∀ x ∈ line, isLineEnd x = false) → Steady d → d.Guarded

/-- Every content that is read from a line is shown as a line that is read. -/
theorem rereads (h : parse line = .ok d) : ∃ shown again, Rereads line d shown again := by
  obtain ⟨hlegible, hlisted, hmem⟩ := legible_of_parse h
  have htexts : (∀ x ∈ line, isLineEnd x = false) →
      ∀ s ∈ d.texts, ∀ x ∈ s.toList, isLineEnd x = false :=
    fun hline s hs x hx => (hmem s hs x hx).elim (hline x) id
  refine ⟨String.ofList (written d), { d with
    initiators := (splitParties (partiesOf d)).1
    receivers := (splitParties (partiesOf d)).2 }, ?_⟩
  constructor
  case shows => exact fun e => render_text d
  case read =>
    intro ws hws
    rw [String.toList_ofList]
    exact hlegible.parse_written hws
  case rest => rfl
  case parties =>
    intro harrow
    rw [hlisted.splitParties harrow]
    exact ⟨rfl, rfl⟩
  case same_iff =>
    rw [← hlisted.splitParties_iff, Prod.ext_iff]
    constructor
    · intro he
      exact ⟨congrArg EventContent.initiators he, congrArg EventContent.receivers he⟩
    · rintro ⟨hi, hr⟩
      rw [hi, hr]
  case candidate =>
    intro hline tabs htabs
    have hblank : ∀ x ∈ tabs.toList, isBlank x = true := fun x hx => by
      rw [htabs x hx]
      rfl
    obtain ⟨more, hlines, hwhole⟩ := lines_written d htabs
    have hfirst : firstLine d = written d := List.takeWhile_eq_self_iff.mpr fun x hx => by
      rw [written_oneLine (htexts hline) x hx]
      rfl
    rw [Rehydration.candidates, String.toList_append, String.toList_ofList, hlines, hwhole hfirst,
      hfirst, List.filter_cons_of_pos (isCandidate_written d hblank)]
    rfl
  case guarded =>
    exact fun hline hs => hlegible.guarded (hlisted.splitParties_iff.mpr hs) (htexts hline)

/-- What is read from a line with an empty participant between two others, an arrow head within one and
blanks in odd places. -/
def spaced : EventContent String where
  label := "e0"
  name := "a:b"
  security := "x"
  value := .input (.record [⟨"v", "T"⟩])
  initiators := ["P(x, y)", "", "Q ->R"]
  receivers := ["S", "T"]
  included := false

/-- The line is not what is shown, but what is shown is read as the line was. -/
theorem rereads_spaced :
    parse "\t%(e0:a:b) (x) [?:\x7b v :T\x7d] [P(x, y),,Q ->R -> S,T,]".toList = .ok spaced ∧
      ∃ shown, Rereads "\t%(e0:a:b) (x) [?:\x7b v :T\x7d] [P(x, y),,Q ->R -> S,T,]".toList spaced
        shown spaced := by
  have hread : parse "\t%(e0:a:b) (x) [?:\x7b v :T\x7d] [P(x, y),,Q ->R -> S,T,]".toList =
      .ok spaced := by decide +kernel
  obtain ⟨shown, again, hrereads⟩ := rereads hread
  have hsame : again = spaced :=
    hrereads.same_iff.mpr ⟨by decide, by decide, by decide +kernel⟩
  exact ⟨hread, shown, hsame ▸ hrereads⟩

/-- A comma before an arrow head makes an arrow when the participants are joined again, and the event
gets a receiver. -/
theorem not_reread : ¬ ∀ (line : List Char) (d : EventContent String), parse line = .ok d →
    ∀ e : Event String, ∃ shown, render (e.withContent d).content = .ok shown ∧
      parse shown.toList = .ok d := by
  intro h
  have hread : parse "(e0:) () [?] [P,-> Q]".toList =
      .ok ({ label := "e0", initiators := ["P", "-> Q"] } : EventContent String) := by
    decide +kernel
  obtain ⟨shown, hshown, hagain⟩ := h _ _ hread { id := "e0", label := "e0" }
  have htext : shown = "(e0:) () [?] [P, -> Q]" := by
    have hrender : render ({ label := "e0", initiators := ["P", "-> Q"] } : EventContent String) =
        .ok "(e0:) () [?] [P, -> Q]" := by decide +kernel
    exact Except.ok.inj (hshown.symm.trans hrender)
  have hother : parse "(e0:) () [?] [P, -> Q]".toList =
      .ok ({ label := "e0", initiators := ["P"], receivers := ["Q"] } : EventContent String) := by
    decide +kernel
  rw [htext, hother] at hagain
  cases hagain

end EventLine

end Dcr
