import Dcr.EventLine
import Dcr.EventLine.Reading
import Dcr.Proofs.Lines
import Dcr.Proofs.Shapes
import Mathlib.Data.List.Infix

/-! Event lines read back. A content is line-safe if none of its texts holds what ends it in a line;
reading the line of such a content, with any blanks before it, gives the content. -/

namespace Dcr

open Text (trim isBlank isLineEnd)

/-! ## Line-safe contents -/

namespace EventLine

/-- How many more parentheses a text opens than it closes. -/
def netDepth (cs : List Char) : Int := (cs.count '(' : Int) - cs.count ')'

/-- A participant that a list of parties keeps apart: trimmed and not empty, without brackets and
arrows, with balanced parentheses and commas only where some are open. -/
structure Distinct (p : List Char) : Prop where
  nonempty : p ≠ []
  trimmed : trim p = p
  unbracketed : '[' ∉ p ∧ ']' ∉ p
  arrowless : ¬ ['-', '>'] <:+: p
  balanced : netDepth p = 0
  sheltered : ∀ a b, p = a ++ ',' :: b → netDepth a ≠ 0

theorem sheltered_iff {p : List Char} : (∀ a b, p = a ++ ',' :: b → netDepth a ≠ 0) ↔
    ((List.range p.length).all fun i => p[i]? != some ',' || netDepth (p.take i) != 0) = true := by
  simp only [List.all_eq_true, List.mem_range, Bool.or_eq_true, bne_iff_ne]
  constructor
  · intro h i hi
    by_cases hc : p[i]? = some ','
    · obtain ⟨_, hc⟩ := List.getElem?_eq_some_iff.mp hc
      refine .inr (h (p.take i) (p.drop (i + 1)) ?_)
      rw [← hc, List.getElem_cons_drop, List.take_append_drop]
    · exact .inl hc
  · intro h a b he
    have hi : a.length < p.length := by simp [he]
    rcases h a.length hi with hx | hx
    · exact absurd (by simp [he]) hx
    · rwa [he, List.take_left] at hx

instance (p : List Char) : Decidable (Distinct p) :=
  decidable_of_iff ((p ≠ [] ∧ trim p = p) ∧ ('[' ∉ p ∧ ']' ∉ p) ∧ ¬ ['-', '>'] <:+: p ∧
    netDepth p = 0 ∧
      ((List.range p.length).all fun i => p[i]? != some ',' || netDepth (p.take i) != 0) = true)
    ⟨fun ⟨⟨hne, ht⟩, hb, ha, hd, hs⟩ => ⟨hne, ht, hb, ha, hd, sheltered_iff.mpr hs⟩,
      fun h =>
        ⟨⟨h.nonempty, h.trimmed⟩, h.unbracketed, h.arrowless, h.balanced,
          sheltered_iff.mp h.sheltered⟩⟩

end EventLine

/-- All texts of an event's content. -/
def EventContent.texts (c : EventContent String) : List String :=
  [c.label, c.name, c.security] ++ c.value.freeTexts ++ c.initiators ++ c.receivers

/-- A content that an event line keeps. -/
structure EventContent.LineSafe (c : EventContent String) : Prop where
  label : ∀ x ∈ c.label.toList, x ≠ ':' ∧ x ≠ '(' ∧ x ≠ ')'
  name : ∀ x ∈ c.name.toList, x ≠ ':' ∧ x ≠ '(' ∧ x ≠ ')'
  security : ¬ [')', ' ', '['] <:+: c.security.toList
  computation : ∀ e ∈ c.value.expression?, e.toList.head? ≠ some '?'
  input : ∀ s ∈ c.value.shape?, s.Readable
  initiated : c.initiators ≠ []
  parties : ∀ p ∈ c.initiators ++ c.receivers, EventLine.Distinct p.toList
  oneLine : ∀ s ∈ c.texts, ∀ x ∈ s.toList, isLineEnd x = false

theorem all_iff {cs : List Char} {p : Char → Prop} [DecidablePred p] :
    (cs.all fun x => decide (p x)) = true ↔ ∀ x ∈ cs, p x := by simp

instance (c : EventContent String) : Decidable c.LineSafe :=
  decidable_of_iff (((c.label.toList.all fun x => decide (x ≠ ':' ∧ x ≠ '(' ∧ x ≠ ')')) = true ∧
      (c.name.toList.all fun x => decide (x ≠ ':' ∧ x ≠ '(' ∧ x ≠ ')')) = true ∧
      ¬ [')', ' ', '['] <:+: c.security.toList) ∧
      ((∀ e ∈ c.value.expression?, e.toList.head? ≠ some '?') ∧ ∀ s ∈ c.value.shape?, s.Readable) ∧
      (c.initiators ≠ [] ∧ ∀ p ∈ c.initiators ++ c.receivers, EventLine.Distinct p.toList) ∧
      ∀ s ∈ c.texts, (s.toList.all fun x => decide (isLineEnd x = false)) = true)
    ⟨fun ⟨⟨hl, hn, hs⟩, ⟨he, hi⟩, ⟨ha, hp⟩, ho⟩ =>
        ⟨all_iff.mp hl, all_iff.mp hn, hs, he, hi, ha, hp, fun s hs => all_iff.mp (ho s hs)⟩,
      fun h => ⟨⟨all_iff.mpr h.label, all_iff.mpr h.name, h.security⟩, ⟨h.computation, h.input⟩,
        ⟨h.initiated, h.parties⟩, fun s hs => all_iff.mpr (h.oneLine s hs)⟩⟩

namespace EventLine

/-! ## Parties -/

theorem netDepth_append (a b : List Char) : netDepth (a ++ b) = netDepth a + netDepth b := by
  simp only [netDepth, List.count_append]
  omega

theorem participantsFrom_cons (depth : Int) (current : List Char) (x : Char) (rest : List Char) :
    participantsFrom depth current (x :: rest) =
      if x = ',' ∧ depth + netDepth [x] = 0 then
        trim current.reverse :: participantsFrom (depth + netDepth [x]) [] rest
      else participantsFrom (depth + netDepth [x]) (x :: current) rest := by
  have hdepth : (if x = '(' then depth + 1 else if x = ')' then depth - 1 else depth) =
      depth + netDepth [x] := by
    by_cases ho : x = '('
    · subst ho
      rfl
    · by_cases hc : x = ')'
      · subst hc
        rfl
      · simp [netDepth, ho, hc]
  rw [participantsFrom, hdepth]

/-- A text whose commas are sheltered becomes part of the participant at hand. -/
theorem participantsFrom_append {p : List Char} (depth : Int) (current rest : List Char)
    (h : ∀ a b, p = a ++ ',' :: b → depth + netDepth a ≠ 0) :
    participantsFrom depth current (p ++ rest) =
      participantsFrom (depth + netDepth p) (p.reverse ++ current) rest := by
  induction p generalizing depth current with
  | nil => simp [netDepth]
  | cons x p ih =>
    have hsplit : ∀ a, netDepth (x :: a) = netDepth [x] + netDepth a :=
      fun a => netDepth_append [x] a
    have hcomma : ¬ (x = ',' ∧ depth + netDepth [x] = 0) := by
      intro hx
      obtain ⟨rfl, hd⟩ := hx
      exact h [] p rfl hd
    have hrest : ∀ a b, p = a ++ ',' :: b → depth + netDepth [x] + netDepth a ≠ 0 := by
      intro a b he
      have hx := h (x :: a) b (by rw [he, List.cons_append])
      rw [hsplit] at hx
      omega
    rw [List.cons_append, participantsFrom_cons, if_neg hcomma, ih _ _ hrest, hsplit p,
      List.reverse_cons, List.append_assoc, Int.add_assoc]
    rfl

/-- A text that a list of participants takes for one: trimmed, with commas only where parentheses are
open. -/
structure Participant (p : List Char) : Prop where
  trimmed : trim p = p
  sheltered : ∀ a b, p = a ++ ',' :: b → netDepth a ≠ 0

theorem Distinct.participant {p : List Char} (h : Distinct p) : Participant p :=
  ⟨h.trimmed, h.sheltered⟩

/-- The participants that a list keeps: all but a last one that is empty. -/
def kept (ps : List String) : List String := if ps.getLast? = some "" then ps.dropLast else ps

theorem kept_cons_cons (p q : String) (ps : List String) :
    kept (p :: q :: ps) = p :: kept (q :: ps) := by
  rw [kept, kept, List.getLast?_cons_cons]
  split
  · rw [List.dropLast_cons_of_ne_nil (List.cons_ne_nil q ps)]
  · rfl

theorem kept_eq_self_iff {ps : List String} : kept ps = ps ↔ ps.getLast? ≠ some "" := by
  unfold kept
  split
  · next hlast =>
    refine ⟨fun he => ?_, fun hne => absurd hlast hne⟩
    have hlength := congrArg List.length he
    rw [List.length_dropLast] at hlength
    have hnil : ps = [] := List.length_eq_zero_iff.mp (by omega)
    rw [hnil] at hlast
    cases hlast
  · next hlast => exact ⟨fun _ => hlast, fun _ => rfl⟩

theorem trim_reverse_append {p ws : List Char} (hp : Participant p)
    (hw : ∀ x ∈ ws, isBlank x = true) : trim (p.reverse ++ ws).reverse = p := by
  rw [List.reverse_append, List.reverse_reverse,
    Text.trim_append_of_blank fun x hx => hw x (List.mem_reverse.mp hx), hp.trimmed]

theorem toList_intercalate_cons_cons (p q : String) (ps : List String) :
    (", ".intercalate (p :: q :: ps)).toList =
      p.toList ++ ',' :: ' ' :: (", ".intercalate (q :: ps)).toList := by
  rw [String.intercalate_cons_cons]
  simp

/-- Participants joined by commas are split as they were, blanks before them aside, if all but the last
one have balanced parentheses; but a last one that is empty is left out. -/
theorem participantsFrom_join (ps : List String) (hp : ∀ p ∈ ps, Participant p.toList)
    (hb : ∀ p ∈ ps.dropLast, netDepth p.toList = 0) (ws : List Char)
    (hw : ∀ x ∈ ws, isBlank x = true) :
    participantsFrom 0 ws (", ".intercalate ps).toList = (kept ps).map String.toList := by
  induction ps generalizing ws with
  | nil =>
    have hblank : trim ws.reverse = [] := by
      have h : trim (ws.reverse ++ []) = trim [] :=
        Text.trim_append_of_blank fun x hx => hw x (List.mem_reverse.mp hx)
      rwa [List.append_nil] at h
    rw [String.intercalate_nil]
    simp [participantsFrom, hblank, kept]
  | cons p rest ih =>
    have hd := hp p List.mem_cons_self
    have hshelter : ∀ a b, p.toList = a ++ ',' :: b → (0 : Int) + netDepth a ≠ 0 := fun a b he => by
      simpa using hd.sheltered a b he
    cases rest with
    | nil =>
      have hstep := participantsFrom_append 0 ws [] hshelter
      rw [List.append_nil] at hstep
      rw [String.intercalate_singleton, hstep]
      simp only [participantsFrom, trim_reverse_append hd hw, List.isEmpty_iff,
        String.toList_eq_nil_iff, kept, List.getLast?_singleton, Option.some.injEq]
      split <;> rfl
    | cons q rest =>
      rw [List.dropLast_cons_of_ne_nil (List.cons_ne_nil q rest), List.forall_mem_cons] at hb
      rw [toList_intercalate_cons_cons, participantsFrom_append 0 ws _ hshelter, hb.1,
        participantsFrom_cons, if_pos ⟨rfl, rfl⟩, trim_reverse_append hd hw, participantsFrom_cons,
        if_neg (by decide), kept_cons_cons, List.map_cons]
      refine congrArg _ (ih (fun r hr => hp r (List.mem_cons_of_mem _ hr)) hb.2 [' '] ?_)
      intro x hx
      rw [List.mem_singleton.mp hx]
      rfl

theorem splitParticipants_join_kept {ps : List String} (hp : ∀ p ∈ ps, Participant p.toList)
    (hb : ∀ p ∈ ps.dropLast, netDepth p.toList = 0) :
    splitParticipants (", ".intercalate ps).toList = kept ps := by
  rw [splitParticipants, participantsFrom_join ps hp hb [] (List.forall_mem_nil _), List.map_map]
  exact (List.map_congr_left fun p _ => String.ofList_toList).trans (List.map_id _)

theorem splitParticipants_join {ps : List String} (hp : ∀ p ∈ ps, Distinct p.toList) :
    splitParticipants (", ".intercalate ps).toList = ps := by
  rw [splitParticipants_join_kept (fun p h => (hp p h).participant)
    fun p h => (hp p (List.mem_of_mem_dropLast h)).balanced]
  refine kept_eq_self_iff.mpr fun hlast => ?_
  exact (hp "" (List.mem_of_getLast? hlast)).nonempty rfl

/-- An arrow does not reach over a comma. -/
theorem arrow_infix_append {a b : List Char} (h : ['-', '>'] <:+: a ++ ',' :: b) :
    ['-', '>'] <:+: a ∨ ['-', '>'] <:+: b := by
  induction a with
  | nil =>
    rcases List.infix_cons_iff.mp h with h | h
    · simp at h
    · exact .inr h
  | cons x a ih =>
    rw [List.cons_append] at h
    rcases List.infix_cons_iff.mp h with h | h
    · left
      cases a with
      | nil => simp at h
      | cons y a =>
        rw [List.cons_append, List.cons_prefix_cons, List.cons_prefix_cons] at h
        rw [← h.1, ← h.2.1]
        exact (List.prefix_append ['-', '>'] a).isInfix
    · rcases ih h with h | h
      · exact .inl (h.trans (List.suffix_cons x a).isInfix)
      · exact .inr h

theorem arrowless_join {ps : List String} (hp : ∀ p ∈ ps, Distinct p.toList) :
    ¬ ['-', '>'] <:+: (", ".intercalate ps).toList := by
  induction ps with
  | nil =>
    rw [String.intercalate_nil]
    simp
  | cons p rest ih =>
    have hd := (hp p List.mem_cons_self).arrowless
    cases rest with
    | nil =>
      rw [String.intercalate_singleton]
      exact hd
    | cons q rest =>
      rw [toList_intercalate_cons_cons]
      intro h
      rcases arrow_infix_append h with h | h
      · exact hd h
      · rcases List.infix_cons_iff.mp h with h | h
        · simp at h
        · exact ih (fun r hr => hp r (List.mem_cons_of_mem _ hr)) h

/-- Parties are cut at an arrow between them that none before it overlaps. -/
theorem cutAt_arrow {a : List Char} (b : List Char)
    (h : ¬ [' ', '-', '>', ' '] <:+: a ++ [' ']) :
    Text.cutAt " -> ".toList (a ++ [' ', '-', '>', ' '] ++ b) = some (a, b) := by
  refine Text.cutAt_append (by decide) fun s t he hne hpre => h ?_
  have hpre : [' ', '-', '>', ' '] <+: t ++ [' ', '-', '>', ' '] ++ b := hpre
  rw [he, List.append_assoc]
  refine List.IsInfix.trans ?_ (List.suffix_append s (t ++ [' '])).isInfix
  -- an arrow that begins before the one that was put in ends at its first blank or before it
  match t with
  | [] => exact absurd rfl hne
  | [x] => simp at hpre
  | [x, y] => simp at hpre
  | x :: y :: z :: w =>
    have hpre : [' ', '-', '>', ' '] <+: x :: y :: z :: ((w ++ [' ']) ++ (['-', '>', ' '] ++ b)) := by
      simpa using hpre
    refine (List.prefix_of_prefix_length_le hpre
      (List.prefix_append (x :: y :: z :: (w ++ [' '])) (['-', '>', ' '] ++ b)) ?_).isInfix
    simp

/-- The parties of a line are read back as they were. -/
theorem splitParties_render {is rs : List String} (hi : ∀ p ∈ is, Distinct p.toList)
    (hr : ∀ p ∈ rs, Distinct p.toList) :
    splitParties ((", ".intercalate is).toList ++
      if rs.isEmpty then [] else [' ', '-', '>', ' '] ++ (", ".intercalate rs).toList) =
          (is, rs) := by
  have harrow : ¬ [' ', '-', '>', ' '] <:+: (", ".intercalate is).toList ++ [' '] := by
    intro h
    rcases List.infix_concat_iff.mp h with h | h
    · have hinner : [' ', '-', '>'] <:+ (", ".intercalate is).toList := by
        obtain ⟨t, ht⟩ := h
        have ht : t ++ [' ', '-', '>'] ++ [' '] = (", ".intercalate is).toList ++ [' '] := by
          simpa using ht
        exact ⟨t, List.append_cancel_right ht⟩
      exact arrowless_join hi (List.IsInfix.trans ⟨[' '], [], rfl⟩ hinner.isInfix)
    · exact arrowless_join hi (List.IsInfix.trans ⟨[' '], [' '], rfl⟩ h)
  unfold splitParties
  cases rs with
  | nil =>
    have hnone : Text.cutAt " -> ".toList (", ".intercalate is).toList = none :=
      Text.cutAt_eq_none (by decide) fun h => harrow (h.trans (List.prefix_append _ _).isInfix)
    rw [List.isEmpty_nil, if_pos rfl, List.append_nil, hnone, splitParticipants_join hi]
  | cons r rs =>
    rw [List.isEmpty_cons, if_neg (by decide), ← List.append_assoc, cutAt_arrow _ harrow]
    simp only [splitParticipants_join hi, splitParticipants_join hr]

/-! ## Lines -/

/-- The characters of the line of a content, part by part. -/
def lineOf (marks label name security value parties : List Char) : List Char :=
  marks ++ '(' :: (label ++ ':' :: (name ++ ')' :: ' ' :: '(' :: (security ++ ')' :: ' ' :: '[' ::
    (value ++ ']' :: ' ' :: '[' :: (parties ++ [']'])))))

theorem getLast?_lineOf (marks label name security value parties : List Char) :
    (lineOf marks label name security value parties).getLast? = some ']' := by
  have hlast : lineOf marks label name security value parties =
      marks ++ '(' :: (label ++ ':' :: (name ++ ')' :: ' ' :: '(' :: (security ++ ')' :: ' ' :: '[' ::
        (value ++ ']' :: ' ' :: '[' :: parties)))) ++ [']'] := by
    simp [lineOf]
  rw [hlast, List.getLast?_concat]

/-- The marks before a line. -/
def marks (included pending : Bool) : List Char :=
  (if included then [] else ['%']) ++ if pending then ['!'] else []

theorem takeMark_marks (included pending : Bool) (rest : List Char) :
    takeMark '%' (marks included pending ++ '(' :: rest) =
      (!included, (if pending then ['!'] else []) ++ '(' :: rest) ∧
    takeMark '!' ((if pending then ['!'] else []) ++ '(' :: rest) = (pending, '(' :: rest) := by
  cases included <;> cases pending <;> exact ⟨rfl, rfl⟩

theorem takeWhile_append_stop {keep : Char → Bool} {a : List Char} {x : Char} (b : List Char)
    (ha : ∀ c ∈ a, keep c = true) (hx : keep x = false) :
    (a ++ x :: b).takeWhile keep = a ∧ (a ++ x :: b).dropWhile keep = x :: b := by
  rw [List.takeWhile_append_of_pos ha, List.dropWhile_append_of_pos ha,
    List.takeWhile_cons_of_neg (by simp [hx]), List.dropWhile_cons_of_neg (by simp [hx]),
      List.append_nil]
  exact ⟨rfl, rfl⟩

/-- The last bracketed part of a line is found if it is free of brackets. -/
theorem cutLast_append (before : List Char) {last : List Char} (h : '[' ∉ last ∧ ']' ∉ last) :
    cutLast (before ++ ']' :: ' ' :: '[' :: (last ++ [']'])) = some (before, last) := by
  have hrev : (before ++ ']' :: ' ' :: '[' :: (last ++ [']'])).reverse =
      ']' :: (last.reverse ++ '[' :: ' ' :: ']' :: before.reverse) := by simp
  have hkeep : ∀ c ∈ last.reverse, (c != '[' && c != ']') = true := by
    intro c hc
    have hc := List.mem_reverse.mp hc
    rw [Bool.and_eq_true, bne_iff_ne, bne_iff_ne]
    exact ⟨fun he => h.1 (he ▸ hc), fun he => h.2 (he ▸ hc)⟩
  obtain ⟨htake, hdrop⟩ :=
    takeWhile_append_stop (x := '[') (' ' :: ']' :: before.reverse) hkeep (by decide)
  rw [cutLast, hrev]
  simp only [hdrop, htake, List.reverse_reverse]

/-- The security label is cut off at the first closing parenthesis before a bracket. -/
theorem cutAt_security {security : List Char} (value : List Char)
    (h : ¬ [')', ' ', '['] <:+: security) :
    Text.cutAt ") [".toList (security ++ ')' :: ' ' :: '[' :: value) = some (security, value) := by
  have hcut : Text.cutAt [')', ' ', '['] (security ++ [')', ' ', '['] ++ value) =
      some (security, value) := by
    refine Text.cutAt_append (by decide) fun s t he hne hpre => ?_
    have ht : ¬ [')', ' ', '['] <:+: t :=
      fun hi => h (he ▸ hi.trans (List.suffix_append s t).isInfix)
    -- an earlier occurrence would lie in the label or overlap the one that was put in
    match t with
    | [] => exact hne rfl
    | [x] => simp at hpre
    | [x, y] => simp at hpre
    | x :: y :: z :: w =>
      have hp : [')', ' ', '['] <+: x :: y :: z :: (w ++ [')', ' ', '['] ++ value) := hpre
      rw [List.cons_prefix_cons, List.cons_prefix_cons, List.cons_prefix_cons] at hp
      obtain ⟨rfl, rfl, rfl, _⟩ := hp
      exact ht ⟨[], w, rfl⟩
  rwa [List.append_assoc] at hcut

/-- The parts of a line are found again. -/
theorem parts?_lineOf {label name security value parties : List Char} (included pending : Bool)
    (hlabel : ∀ x ∈ label, x ≠ ':' ∧ x ≠ '(' ∧ x ≠ ')')
    (hname : ∀ x ∈ name, x ≠ '(' ∧ x ≠ ')')
    (hsecurity : ¬ [')', ' ', '['] <:+: security) (hparties : '[' ∉ parties ∧ ']' ∉ parties)
    (hline : '\n' ∉ security ∧ '\n' ∉ value) :
    parts? (lineOf (marks included pending) label name security value parties) =
      some ⟨!included, pending, label, name, security, value, parties⟩ := by
  obtain ⟨hexcluded, hpending⟩ := takeMark_marks included pending
    (label ++ ':' :: (name ++ ')' :: ' ' :: '(' :: (security ++ ')' :: ' ' :: '[' ::
      (value ++ ']' :: ' ' :: '[' :: (parties ++ [']'])))))
  obtain ⟨hl, _⟩ := takeWhile_append_stop (a := label) (x := ':')
    (name ++ ')' :: ' ' :: '(' :: (security ++ ')' :: ' ' :: '[' ::
      (value ++ ']' :: ' ' :: '[' :: (parties ++ [']']))))
    (fun c hc => show (c != ':' && c != '(' && c != ')') = true by simp [hlabel c hc]) rfl
  obtain ⟨hn, _⟩ := takeWhile_append_stop (a := name) (x := ')')
    (' ' :: '(' :: (security ++ ')' :: ' ' :: '[' ::
      (value ++ ']' :: ' ' :: '[' :: (parties ++ [']']))))
    (fun c hc => show (c != '(' && c != ')') = true by simp [hname c hc]) rfl
  have hlast : cutLast (security ++ ')' :: ' ' :: '[' ::
      (value ++ ']' :: ' ' :: '[' :: (parties ++ [']']))) =
      some (security ++ ')' :: ' ' :: '[' :: value, parties) := by
    have h := cutLast_append (security ++ ')' :: ' ' :: '[' :: value) hparties
    rwa [List.append_assoc] at h
  have hfeed : (security ++ ')' :: ' ' :: '[' :: value).contains '\n' = false := by
    simp [hline]
  unfold parts? lineOf
  rw [hexcluded]
  simp only [hpending, hl, List.drop_left, hn, hlast, hfeed, Option.bind_eq_bind, Option.bind_some,
    cutAt_security value hsecurity]
  rfl

/-! ## Contents -/

variable {c : EventContent String}

/-- The initiators and, after an arrow, the receivers if there are any. -/
def partiesOf (c : EventContent String) : List Char :=
  (", ".intercalate c.initiators).toList ++
    if c.receivers.isEmpty then []
    else [' ', '-', '>', ' '] ++ (", ".intercalate c.receivers).toList

/-- The line of a content. -/
def written (c : EventContent String) : List Char :=
  lineOf (marks c.included c.pending) c.label.toList c.name.toList c.security.toList
    c.value.render.toList (partiesOf c)

theorem textsFrom_text (position : Nat) (xs : List String) :
    FreeText.textsFrom position xs = .ok xs := by
  induction xs generalizing position with
  | nil => rfl
  | cons x rest ih =>
    show (x :: ·) <$> FreeText.textsFrom (position + 1) rest = _
    rw [ih]
    rfl

/-- Every content of texts has a line. -/
theorem render_text (c : EventContent String) : render c = .ok (String.ofList (written c)) := by
  have hjoined : ∀ xs : List String,
      FreeText.joined ", " xs = .ok (", ".intercalate xs) := fun xs => by
    rw [FreeText.joined, textsFrom_text]
    rfl
  have hparties : renderParties c.initiators c.receivers = .ok (String.ofList (partiesOf c)) := by
    rw [renderParties, hjoined, hjoined, partiesOf]
    cases c.receivers.isEmpty
    · refine congrArg Except.ok (String.toList_injective ?_)
      simp
    · refine congrArg Except.ok (String.toList_injective ?_)
      simp
  rw [render, hparties]
  refine congrArg Except.ok (String.toList_injective ?_)
  cases hi : c.included <;> cases hp : c.pending <;>
    simp [written, lineOf, marks, hi, hp, FreeText.shown, FreeText.toJson, Json.shown]

/-! ## Lines of line-safe contents -/

theorem mem_render {v : EventValue String} {x : Char} (hx : x ∈ v.render.toList) :
    isLineEnd x = false ∨ ∃ s ∈ v.freeTexts, x ∈ s.toList := by
  have hpunctuation : ∀ cs : List Char,
      (cs.all fun y => !isLineEnd y) = true → x ∈ cs → isLineEnd x = false :=
    fun cs h hx => by simpa using List.all_eq_true.mp h x hx
  cases v with
  | computation e => exact .inr ⟨e, List.mem_cons_self, hx⟩
  | input shape =>
    cases shape with
    | unit => exact .inl (hpunctuation ['?'] rfl hx)
    | named type plain =>
      rw [EventValue.render, Shape.render, String.toList_append, List.mem_append] at hx
      rcases hx with hx | hx
      · exact .inl (hpunctuation ['?', ':'] rfl hx)
      · exact .inr ⟨type, List.mem_cons_self, hx⟩
    | record fields =>
      rw [EventValue.render, Shape.render, String.toList_append, String.toList_append,
        List.mem_append, List.mem_append] at hx
      rcases hx with (hx | hx) | hx
      · exact .inl (hpunctuation ['?', ':', '\x7b'] rfl hx)
      · rcases Text.mem_intercalate hx with hx | hx
        · exact .inl (hpunctuation [';', ' '] rfl hx)
        · obtain ⟨p, hp, hx⟩ := hx
          obtain ⟨f, hf, rfl⟩ := List.mem_map.mp hp
          rw [Field.render, String.toList_append, String.toList_append, List.mem_append,
            List.mem_append] at hx
          rcases hx with (hx | hx) | hx
          · exact .inr ⟨f.var, List.mem_flatMap.mpr ⟨f, hf, by simp⟩, hx⟩
          · exact .inl (hpunctuation [':'] rfl hx)
          · exact .inr ⟨f.type, List.mem_flatMap.mpr ⟨f, hf, by simp⟩, hx⟩
      · exact .inl (hpunctuation ['\x7d'] rfl hx)

theorem mem_partiesOf {x : Char} (hx : x ∈ partiesOf c) :
    x ∈ [',', ' ', '-', '>'] ∨ ∃ p ∈ c.initiators ++ c.receivers, x ∈ p.toList := by
  have hjoin : ∀ ps ⊆ c.initiators ++ c.receivers, x ∈ (", ".intercalate ps).toList →
      x ∈ [',', ' ', '-', '>'] ∨ ∃ p ∈ c.initiators ++ c.receivers, x ∈ p.toList := by
    intro ps hps hx
    rcases Text.mem_intercalate hx with hx | hx
    · exact .inl ((show [',', ' '] ⊆ [',', ' ', '-', '>'] by decide) hx)
    · obtain ⟨p, hp, hx⟩ := hx
      exact .inr ⟨p, hps hp, hx⟩
  unfold partiesOf at hx
  rcases List.mem_append.mp hx with hx | hx
  · exact hjoin _ (List.subset_append_left _ _) hx
  · split at hx
    · cases hx
    · rcases List.mem_append.mp hx with hx | hx
      · exact .inl ((show [' ', '-', '>', ' '] ⊆ [',', ' ', '-', '>'] by decide) hx)
      · exact hjoin _ (List.subset_append_right _ _) hx

/-- The line of texts without line ends is one line. -/
theorem written_oneLine (htext : ∀ s ∈ c.texts, ∀ x ∈ s.toList, isLineEnd x = false) :
    ∀ x ∈ written c, isLineEnd x = false := by
  have hparties : ∀ x ∈ partiesOf c, isLineEnd x = false := by
    intro x hx
    rcases mem_partiesOf hx with hx | hx
    · simp only [List.mem_cons, List.not_mem_nil, or_false] at hx
      rcases hx with rfl | rfl | rfl | rfl <;> rfl
    · obtain ⟨p, hp, hx⟩ := hx
      refine htext p ?_ x hx
      rw [EventContent.texts, List.append_assoc]
      exact List.mem_append_right _ hp
  have hvalue : ∀ x ∈ c.value.render.toList, isLineEnd x = false := by
    intro x hx
    rcases mem_render hx with hx | hx
    · exact hx
    · obtain ⟨s, hs, hx⟩ := hx
      exact htext s (by simp [EventContent.texts, hs]) x hx
  have hmarks : ∀ x ∈ marks c.included c.pending, isLineEnd x = false := by
    intro x hx
    have hmark : x = '%' ∨ x = '!' := by
      unfold marks at hx
      cases hi : c.included <;> cases hp : c.pending <;> simp [hi, hp] at hx <;> simp [hx]
    rcases hmark with rfl | rfl <;> rfl
  have hlabel := htext c.label (by simp [EventContent.texts])
  have hname := htext c.name (by simp [EventContent.texts])
  have hsecurity := htext c.security (by simp [EventContent.texts])
  intro x hx
  simp only [written, lineOf, List.mem_append, List.mem_cons, List.not_mem_nil, or_false] at hx
  rcases hx with hx | rfl | hx | rfl | hx | rfl | rfl | rfl | hx | rfl | rfl | rfl | hx | rfl | rfl
    | rfl | hx | rfl
  all_goals first | rfl | skip
  · exact hmarks x hx
  · exact hlabel x hx
  · exact hname x hx
  · exact hsecurity x hx
  · exact hvalue x hx
  · exact hparties x hx

/-- Nothing is to be trimmed off a line but what comes before it. -/
theorem trim_written {ws : List Char} (c : EventContent String) (hw : ∀ x ∈ ws, isBlank x = true) :
    trim (ws ++ written c) = written c := by
  rw [Text.trim_append_of_blank hw]
  refine Text.trim_of_ends (fun x hx => ?_) fun x hx => ?_
  · unfold written lineOf marks at hx
    cases hi : c.included <;> cases hp : c.pending <;> rw [hi, hp] at hx <;> cases hx <;> rfl
  · rw [written, getLast?_lineOf] at hx
    cases hx
    rfl

theorem isCandidate_written {ws : List Char} (c : EventContent String)
    (hw : ∀ x ∈ ws, isBlank x = true) :
    isCandidate (ws ++ written c) = true := by
  obtain ⟨hexcluded, hpending⟩ := takeMark_marks c.included c.pending _
  rw [isCandidate, trim_written c hw, written, lineOf, hexcluded]
  simp only [hpending]
  rfl

theorem head?_render_input (s : Shape String) :
    (EventValue.render (.input s)).toList.head? = some '?' := by
  cases s <;> simp [EventValue.render, Shape.render]

theorem parseValue_input {s : Shape String} (h : Shape.parse s.render = .ok s) :
    parseValue (EventValue.render (.input s)).toList = .ok (.input s) := by
  rw [parseValue, if_pos (head?_render_input s), String.ofList_toList, EventValue.render, h]

theorem parseValue_computation {e : String} (h : e.toList.head? ≠ some '?') :
    parseValue (EventValue.render (.computation e)).toList = .ok (.computation e) := by
  have hhead : (EventValue.render (.computation e)).toList.head? ≠ some '?' := h
  rw [parseValue, if_neg hhead, String.ofList_toList]
  rfl

theorem parseValue_render (h : c.LineSafe) : parseValue c.value.render.toList = .ok c.value := by
  cases hv : c.value with
  | computation e => exact parseValue_computation (h.computation e (by rw [hv]; rfl))
  | input s => exact parseValue_input (Shape.parse_render (h.input s (by rw [hv]; rfl)))

theorem unbracketed_partiesOf
    (h : ∀ p ∈ c.initiators ++ c.receivers, '[' ∉ p.toList ∧ ']' ∉ p.toList) :
    '[' ∉ partiesOf c ∧ ']' ∉ partiesOf c := by
  constructor
  · intro hx
    rcases mem_partiesOf hx with hx | ⟨p, hp, hx⟩
    · revert hx
      decide
    · exact (h p hp).1 hx
  · intro hx
    rcases mem_partiesOf hx with hx | ⟨p, hp, hx⟩
    · revert hx
      decide
    · exact (h p hp).2 hx

/-- The parties of a line-safe content are told apart. -/
theorem splitParties_partiesOf (h : c.LineSafe) :
    splitParties (partiesOf c) = (c.initiators, c.receivers) :=
  splitParties_render (fun p hp => h.parties p (List.mem_append_left _ hp))
    fun p hp => h.parties p (List.mem_append_right _ hp)

/-- A content whose line is read, with other parties perhaps. -/
structure Legible (c : EventContent String) : Prop where
  label : ∀ x ∈ c.label.toList, x ≠ ':' ∧ x ≠ '(' ∧ x ≠ ')'
  name : ∀ x ∈ c.name.toList, x ≠ '(' ∧ x ≠ ')'
  security : ¬ [')', ' ', '['] <:+: c.security.toList
  value : parseValue c.value.render.toList = .ok c.value
  parties : ∀ p ∈ c.initiators ++ c.receivers, '[' ∉ p.toList ∧ ']' ∉ p.toList
  oneLine : '\n' ∉ c.security.toList ∧ '\n' ∉ c.value.render.toList

/-- The line of a legible content is read back as that content with the parties that it shows. -/
theorem Legible.parse_written {ws : List Char} (h : Legible c) (hw : ∀ x ∈ ws, isBlank x = true) :
    parse (ws ++ written c) =
      .ok { c with
        initiators := (splitParties (partiesOf c)).1
        receivers := (splitParties (partiesOf c)).2 } := by
  have hparts := parts?_lineOf c.included c.pending h.label h.name h.security
    (unbracketed_partiesOf h.parties) h.oneLine
  have hof : ∀ ps : List String, ps.map FreeText.ofText = ps := fun ps => List.map_id ps
  rw [parse, trim_written c hw, written, hparts]
  simp only [h.value, Parts.content, hof, String.ofList_toList, Bool.not_not]
  rfl

theorem legible_of_lineSafe (h : c.LineSafe) : Legible c where
  label := h.label
  name x hx := (h.name x hx).2
  security := h.security
  value := parseValue_render h
  parties p hp := (h.parties p hp).unbracketed
  oneLine := by
    have hfeed : ∀ cs : List Char, (∀ x ∈ cs, x ∈ written c) → '\n' ∉ cs := by
      intro cs hcs hn
      cases written_oneLine h.oneLine _ (hcs _ hn)
    exact ⟨hfeed c.security.toList fun x hx => by simp [written, lineOf, hx],
      hfeed c.value.render.toList fun x hx => by simp [written, lineOf, hx]⟩

/-- The line of a line-safe content is read back as that content. -/
theorem parse_written {ws : List Char} (h : c.LineSafe) (hw : ∀ x ∈ ws, isBlank x = true) :
    parse (ws ++ written c) = .ok c := by
  rw [(legible_of_lineSafe h).parse_written hw, splitParties_partiesOf h]

theorem level_of_mem_parseNotices {line : List Char} {n : Notice} (hn : n ∈ parseNotices line) :
    n.level = .debug := by
  unfold parseNotices at hn
  split at hn
  · split at hn
    · unfold Shape.parseNotices at hn
      rcases List.mem_cons.mp hn with rfl | hn
      · rfl
      · split at hn
        · cases hn
        · rcases List.mem_cons.mp hn with rfl | hn
          · rfl
          · rw [List.mem_singleton.mp hn]
            rfl
        · rw [List.mem_singleton.mp hn]
          rfl
    · cases hn
  · cases hn

end EventLine

end Dcr
