import Dcr.Proofs.Rehydration
import Mathlib.Data.List.TakeWhile

/-! Unmodified code read back. Texts stand in code as they are, so one that holds what ends it may be
read as another. A guarded content is one in which no text does: its line is read as that content or
not at all. Code of guarded contents, with no other line that reads as an event line, changes no
event when it is applied as it was generated. -/

namespace Dcr

namespace EventLine

/-! ## Parts taken for others -/

theorem drop_length_takeWhile (keep : Char → Bool) (cs : List Char) :
    cs.drop (cs.takeWhile keep).length = cs.dropWhile keep := by
  have h := congrArg (List.drop (cs.takeWhile keep).length)
    (List.takeWhile_append_dropWhile (p := keep) (l := cs))
  rw [← h, List.drop_left]

theorem dropWhile_append_stop {keep : Char → Bool} {x : Char} (a b : List Char)
    (hx : keep x = false) : (a ++ x :: b).dropWhile keep = a.dropWhile keep ++ x :: b := by
  rw [List.dropWhile_append, List.dropWhile_cons_of_neg (by simp [hx])]
  split
  · next ha => rw [List.isEmpty_iff.mp ha, List.nil_append]
  · rfl

theorem takeWhile_append_of_dropWhile {keep : Char → Bool} {a : List Char} {x : Char} (b : List Char)
    (hx : keep x = false) (ha : a.dropWhile keep = []) : (a ++ x :: b).takeWhile keep = a :=
  (takeWhile_append_stop b (List.dropWhile_eq_nil_iff.mp ha) hx).1

/-- A label that stops at a colon is the whole label, if it holds none before a parenthesis. -/
theorem label_of_stop {label l : List Char} (b : List Char)
    (h : (label.dropWhile fun x => x != ':' && x != '(' && x != ')').head? ≠ some ':')
    (hl : (label ++ ':' :: b).dropWhile (fun x => x != ':' && x != '(' && x != ')') = ':' :: l) :
    (label ++ ':' :: b).takeWhile (fun x => x != ':' && x != '(' && x != ')') = label ∧ l = b := by
  rw [dropWhile_append_stop label b rfl] at hl
  match hd : label.dropWhile fun x => x != ':' && x != '(' && x != ')' with
  | [] =>
    rw [hd] at hl
    exact ⟨takeWhile_append_of_dropWhile b rfl hd, by simpa using hl.symm⟩
  | x :: u =>
    rw [hd] at hl h
    exact absurd (congrArg some (List.cons.inj hl).1) h

/-- A name that stops at what ends it is the whole name, if it holds none of that before another
parenthesis. -/
theorem name_of_stop {name l : List Char} (b : List Char)
    (h : ¬ [')', ' ', '('] <+: name.dropWhile fun x => x != '(' && x != ')')
    (hl : (name ++ ')' :: ' ' :: '(' :: b).dropWhile (fun x => x != '(' && x != ')') =
      ')' :: ' ' :: '(' :: l) :
    (name ++ ')' :: ' ' :: '(' :: b).takeWhile (fun x => x != '(' && x != ')') = name ∧ l = b := by
  rw [dropWhile_append_stop name _ rfl] at hl
  -- what ends the name would lie in it or overlap the one that was put in
  match hd : name.dropWhile fun x => x != '(' && x != ')' with
  | [] =>
    rw [hd] at hl
    exact ⟨takeWhile_append_of_dropWhile _ rfl hd, by simpa using hl.symm⟩
  | [x] => simp [hd] at hl
  | [x, y] => simp [hd] at hl
  | x :: y :: z :: w =>
    rw [hd] at hl h
    obtain ⟨rfl, rfl, rfl, _⟩ : x = ')' ∧ y = ' ' ∧ z = '(' ∧ _ := by simpa using hl
    exact absurd (List.prefix_append [')', ' ', '('] w) h

/-- The last bracketed part of a line is the one that was put in, if that holds no bracket or none
that opens as it does. -/
theorem cutLast_of_some {before last b l : List Char}
    (h : ¬ ['[', ' ', ']'] <+: last.reverse.dropWhile fun x => x != '[' && x != ']')
    (hcut : cutLast (before ++ ']' :: ' ' :: '[' :: (last ++ [']'])) = some (b, l)) :
    b = before ∧ l = last := by
  have hrev : (before ++ ']' :: ' ' :: '[' :: (last ++ [']'])).reverse =
      ']' :: (last.reverse ++ '[' :: ' ' :: ']' :: before.reverse) := by simp
  rw [cutLast, hrev] at hcut
  have hdrop : (last.reverse ++ '[' :: ' ' :: ']' :: before.reverse).dropWhile
      (fun x => x != '[' && x != ']') =
        last.reverse.dropWhile (fun x => x != '[' && x != ']') ++
          '[' :: ' ' :: ']' :: before.reverse := dropWhile_append_stop _ _ rfl
  simp only [hdrop] at hcut
  -- what opens the part would lie in it or overlap the one that was put in
  rcases hd : last.reverse.dropWhile fun x => x != '[' && x != ']' with _ | ⟨x, _ | ⟨y, _ | ⟨z, w⟩⟩⟩
  · have htake : (last.reverse ++ '[' :: ' ' :: ']' :: before.reverse).takeWhile
        (fun x => x != '[' && x != ']') = last.reverse := takeWhile_append_of_dropWhile _ rfl hd
    simp only [hd, List.nil_append, htake, List.reverse_reverse, Option.some.injEq,
      Prod.mk.injEq] at hcut
    exact ⟨hcut.1.symm, hcut.2.symm⟩
  · simp [hd] at hcut
  · simp [hd] at hcut
  · rw [hd] at hcut h
    split at hcut
    · next hopen =>
      obtain ⟨rfl, rfl, rfl, _⟩ : x = '[' ∧ y = ' ' ∧ z = ']' ∧ _ := by simpa using hopen
      exact absurd (List.prefix_append ['[', ' ', ']'] w) h
    · cases hcut

/-- What a line has been cut into. -/
theorem parts?_eq_some {line : List Char} {p : Parts} (h : parts? line = some p) :
    ∃ l m middle, (takeMark '!' (takeMark '%' line).2).2 = '(' :: l ∧
      p.excluded = (takeMark '%' line).1 ∧ p.pending = (takeMark '!' (takeMark '%' line).2).1 ∧
      p.label = l.takeWhile (fun c => c != ':' && c != '(' && c != ')') ∧
      l.dropWhile (fun c => c != ':' && c != '(' && c != ')') = ':' :: m ∧
      p.name = m.takeWhile (fun c => c != '(' && c != ')') ∧
      ∃ n, m.dropWhile (fun c => c != '(' && c != ')') = ')' :: ' ' :: '(' :: n ∧
        cutLast n = some (middle, p.parties) ∧
        Text.cutAt ") [".toList middle = some (p.security, p.value) ∧ '\n' ∉ middle := by
  unfold parts? at h
  rcases hone : takeMark '%' line with ⟨excluded, one⟩
  rcases htwo : takeMark '!' one with ⟨pending, two⟩
  simp only [hone, htwo] at h
  split at h
  · next l =>
    simp only [drop_length_takeWhile] at h
    split at h
    · next m hm =>
      split at h
      · next n hn =>
        obtain ⟨⟨middle, parties⟩, hcut, h⟩ := Option.bind_eq_some_iff.mp h
        dsimp only at h
        split at h
        · cases h
        · next hfeed =>
          obtain ⟨⟨security, value⟩, hsecurity, h⟩ := Option.bind_eq_some_iff.mp h
          cases h
          exact ⟨l, m, middle, rfl, rfl, rfl, rfl, hm, rfl, n, hn, hcut, hsecurity, by
            simpa using hfeed⟩
      · cases h
    · cases h
  · cases h

theorem takeMark_append (mark : Char) (cs : List Char) :
    (if (takeMark mark cs).1 then [mark] else []) ++ (takeMark mark cs).2 = cs := by
  unfold takeMark
  split
  · rfl
  · split
    · next he => rw [he]; rfl
    · rfl

theorem cutLast_eq_some {cs before last : List Char} (h : cutLast cs = some (before, last)) :
    cs = before ++ ']' :: ' ' :: '[' :: (last ++ [']']) ∧ '[' ∉ last ∧ ']' ∉ last := by
  unfold cutLast at h
  split at h
  · next back hback =>
    split at h
    · next front hfront =>
      cases h
      have hsplit := List.takeWhile_append_dropWhile (p := fun c => c != '[' && c != ']') (l := back)
      rw [hfront] at hsplit
      have hkeep : ∀ y ∈ (back.takeWhile fun c => c != '[' && c != ']').reverse,
          y ≠ '[' ∧ y ≠ ']' := fun y hy => by
        simpa using List.mem_takeWhile_imp (List.mem_reverse.mp hy)
      refine ⟨?_, fun hmem => (hkeep _ hmem).1 rfl, fun hmem => (hkeep _ hmem).2 rfl⟩
      rw [← List.reverse_inj, hback]
      nth_rewrite 1 [← hsplit]
      simp
    · cases h
  · cases h

/-- Parts that a line keeps apart. -/
structure Parts.Separate (p : Parts) : Prop where
  label : ∀ x ∈ p.label, x ≠ ':' ∧ x ≠ '(' ∧ x ≠ ')'
  name : ∀ x ∈ p.name, x ≠ '(' ∧ x ≠ ')'
  security : ¬ [')', ' ', '['] <:+: p.security
  parties : '[' ∉ p.parties ∧ ']' ∉ p.parties
  oneLine : '\n' ∉ p.security ∧ '\n' ∉ p.value

/-- A line that is cut into parts is the line of these parts. -/
theorem eq_lineOf_of_parts? {line : List Char} {p : Parts} (h : parts? line = some p) :
    line = lineOf (marks (!p.excluded) p.pending) p.label p.name p.security p.value p.parties ∧
      p.Separate := by
  obtain ⟨l, m, middle, hl, hexcluded, hpending, hlabel, hm, hname, n, hn, hcut, hsecurity, hfeed⟩ :=
    parts?_eq_some h
  obtain ⟨hlast, hparties⟩ := cutLast_eq_some hcut
  obtain ⟨hmiddle, hfirst⟩ := Text.cutAt_eq_some (by decide) hsecurity
  have hmiddle : middle = p.security ++ ')' :: ' ' :: '[' :: p.value := by simpa using hmiddle
  have hmarks : line = marks (!p.excluded) p.pending ++ '(' :: l := by
    have hone := takeMark_append '%' line
    have htwo := takeMark_append '!' (takeMark '%' line).2
    rw [hl, ← hpending] at htwo
    rw [← htwo, ← hexcluded] at hone
    rw [← hone, marks]
    cases p.excluded <;> simp
  have hl : l = p.label ++ ':' :: m := by
    rw [hlabel, ← hm, List.takeWhile_append_dropWhile]
  have hm : m = p.name ++ ')' :: ' ' :: '(' :: n := by
    rw [hname, ← hn, List.takeWhile_append_dropWhile]
  rw [hmiddle] at hlast hfeed
  refine ⟨?_, ?_⟩
  · rw [hmarks, hl, hm, hlast, lineOf]
    simp
  · refine ⟨fun x hx => ?_, fun x hx => ?_, hfirst, hparties, ?_⟩
    · rw [hlabel] at hx
      simpa [and_assoc] using List.mem_takeWhile_imp hx
    · rw [hname] at hx
      simpa using List.mem_takeWhile_imp hx
    · exact ⟨fun hx => hfeed (by simp [hx]), fun hx => hfeed (by simp [hx])⟩

/-- What is cut into parts ends in a bracket. -/
theorem getLast?_of_parts? {line : List Char} {p : Parts} (h : parts? line = some p) :
    line.getLast? = some ']' := by
  rw [(eq_lineOf_of_parts? h).1, getLast?_lineOf]

/-! ## Guarded contents -/

/-- The line of a content as far as no text breaks it. -/
def firstLine (c : EventContent String) : List Char :=
  (written c).takeWhile fun x => !Text.isLineEnd x

end EventLine

open EventLine (isCandidate written partiesOf firstLine splitParties)

/-- A content whose texts are taken for nothing else: the label, the name and the security label hold
nothing that ends them, the parties hold no brackets between which they seem to begin and are told
apart, no expression is a value clause and no value clause that of another shape, and a line break
does not stand where the line seems to be complete. -/
structure EventContent.Guarded (c : EventContent String) : Prop where
  label : (c.label.toList.dropWhile fun x => x != ':' && x != '(' && x != ')').head? ≠ some ':'
  name : ¬ [')', ' ', '('] <+: c.name.toList.dropWhile fun x => x != '(' && x != ')'
  security : ¬ [')', ' ', '['] <:+: c.security.toList
  bracketed : ¬ ['[', ' ', ']'] <+:
    (partiesOf c).reverse.dropWhile fun x => x != '[' && x != ']'
  parties : splitParties (partiesOf c) = (c.initiators, c.receivers)
  expression : ∀ e ∈ c.value.expression?, e.toList.head? = some '?' →
    ∀ s : Shape String, Shape.parse e ≠ .ok s
  shape : ∀ s ∈ c.value.shape?, ∀ t, Shape.parse s.render = .ok t → t = s
  complete : firstLine c = written c ∨ (Text.trim (firstLine c)).getLast? ≠ some ']'

namespace EventLine

variable {c d : EventContent String} {ws : List Char}

/-- The parts that the line of a guarded content is cut into are those it was made of. -/
theorem parts?_written (h : c.Guarded) {p : Parts} (hp : parts? (written c) = some p) :
    p = ⟨!c.included, c.pending, c.label.toList, c.name.toList, c.security.toList,
      c.value.render.toList, partiesOf c⟩ := by
  obtain ⟨l, m, middle, hl, hexcluded, hpending, hlabel, hm, hname, n, hn, hcut, hsecurity, _⟩ :=
    parts?_eq_some hp
  obtain ⟨hone, htwo⟩ := takeMark_marks c.included c.pending
    (c.label.toList ++ ':' :: (c.name.toList ++ ')' :: ' ' :: '(' :: (c.security.toList ++
      ')' :: ' ' :: '[' :: (c.value.render.toList ++ ']' :: ' ' :: '[' :: (partiesOf c ++ [']'])))))
  simp only [written, lineOf, hone, htwo] at hl hexcluded hpending
  obtain rfl := (List.cons.inj hl).2
  obtain ⟨hl, rfl⟩ := label_of_stop _ h.label hm
  obtain ⟨hn, rfl⟩ := name_of_stop _ h.name hn
  have hafter : c.security.toList ++ ')' :: ' ' :: '[' :: (c.value.render.toList ++
      ']' :: ' ' :: '[' :: (partiesOf c ++ [']'])) =
      (c.security.toList ++ ')' :: ' ' :: '[' :: c.value.render.toList) ++
        ']' :: ' ' :: '[' :: (partiesOf c ++ [']']) := by simp
  rw [hafter] at hcut
  obtain ⟨rfl, hparties⟩ := cutLast_of_some h.bracketed hcut
  rw [cutAt_security _ h.security] at hsecurity
  obtain ⟨hsec, hval⟩ : c.security.toList = p.security ∧ c.value.render.toList = p.value := by
    simpa using hsecurity
  cases p
  simp_all

theorem parseValue_written (h : c.Guarded) {v : EventValue String}
    (hv : parseValue c.value.render.toList = .ok v) : v = c.value := by
  unfold parseValue at hv
  rw [String.ofList_toList] at hv
  cases hc : c.value with
  | computation e =>
    rw [hc] at hv
    split at hv
    · next hquestion =>
      split at hv
      · next s hs => exact absurd hs (h.expression e (by rw [hc]; rfl) hquestion s)
      · cases hv
    · exact (Except.ok.inj hv).symm
  | input s =>
    rw [hc, if_pos (head?_render_input s)] at hv
    split at hv
    · next t ht => rw [← Except.ok.inj hv, h.shape s (by rw [hc]; rfl) t ht]
    · cases hv

/-- The line of a guarded content is read as that content or not at all. -/
theorem eq_of_parse_written (h : c.Guarded) (hw : ∀ x ∈ ws, Text.isBlank x = true)
    (hd : parse (ws ++ written c) = .ok d) : d = c := by
  rw [parse, trim_written c hw] at hd
  split at hd
  · cases hd
  · next p hp =>
    obtain rfl := parts?_written h hp
    dsimp only at hd
    split at hd
    · next v hv =>
      obtain rfl := parseValue_written h hv
      rw [← Except.ok.inj hd, Parts.content, h.parties]
      have hof : ∀ ps : List String, ps.map FreeText.ofText = ps := fun ps => List.map_id ps
      simp only [hof, String.ofList_toList, Bool.not_not]
      rfl
    · cases hd

/-- A line that is broken off is not read. -/
theorem parse_firstLine (h : c.Guarded) (hw : ∀ x ∈ ws, Text.isBlank x = true)
    (hb : firstLine c ≠ written c) :
    ∃ e, (parse (ws ++ firstLine c) : Except ParseError (EventContent String)) = .error e := by
  have hlast := h.complete.resolve_left hb
  rw [parse, Text.trim_append_of_blank hw]
  cases hp : parts? (Text.trim (firstLine c)) with
  | none => exact ⟨_, rfl⟩
  | some p => exact absurd (getLast?_of_parts? hp) hlast

end EventLine

/-- A legible content without line ends whose parties are told apart is guarded. -/
theorem EventLine.Legible.guarded {c : EventContent String} (h : EventLine.Legible c)
    (hparties : splitParties (partiesOf c) = (c.initiators, c.receivers))
    (htexts : ∀ s ∈ c.texts, ∀ x ∈ s.toList, Text.isLineEnd x = false) : c.Guarded where
  label := by
    have hnil : (c.label.toList.dropWhile fun x => x != ':' && x != '(' && x != ')') = [] :=
      List.dropWhile_eq_nil_iff.mpr fun x hx => by simp [h.label x hx]
    rw [hnil]
    simp
  name := by
    have hnil : (c.name.toList.dropWhile fun x => x != '(' && x != ')') = [] :=
      List.dropWhile_eq_nil_iff.mpr fun x hx => by simp [h.name x hx]
    rw [hnil]
    simp
  security := h.security
  bracketed := by
    obtain ⟨hopen, hclose⟩ := EventLine.unbracketed_partiesOf h.parties
    have hnil : ((partiesOf c).reverse.dropWhile fun x => x != '[' && x != ']') = [] := by
      refine List.dropWhile_eq_nil_iff.mpr fun x hx => ?_
      have hx := List.mem_reverse.mp hx
      simp only [Bool.and_eq_true, bne_iff_ne]
      exact ⟨fun he => hopen (he ▸ hx), fun he => hclose (he ▸ hx)⟩
    rw [hnil]
    simp
  parties := hparties
  expression e he hquestion s hs := by
    have hvalue := h.value
    cases hv : c.value with
    | input t =>
      rw [hv] at he
      cases he
    | computation f =>
      rw [hv] at he hvalue
      obtain rfl : f = e := Option.some.inj he
      have hrender : EventValue.render (.computation f) = f := rfl
      rw [hrender, EventLine.parseValue, if_pos hquestion, String.ofList_toList, hs] at hvalue
      cases hvalue
  shape s hs t ht := by
    have hvalue := h.value
    cases hv : c.value with
    | computation f =>
      rw [hv] at hs
      cases hs
    | input r =>
      rw [hv] at hs hvalue
      obtain rfl : r = s := Option.some.inj hs
      rw [EventLine.parseValue, if_pos (EventLine.head?_render_input r), String.ofList_toList,
        EventValue.render, ht] at hvalue
      exact EventValue.input.inj (Except.ok.inj hvalue)
  complete := .inl (List.takeWhile_eq_self_iff.mpr fun x hx => by
    rw [EventLine.written_oneLine htexts x hx]
    rfl)

/-- A line-safe content is guarded. -/
theorem EventContent.LineSafe.guarded {c : EventContent String} (h : c.LineSafe) : c.Guarded :=
  (EventLine.legible_of_lineSafe h).guarded (EventLine.splitParties_partiesOf h) h.oneLine

instance (c : EventContent String) : Decidable c.Guarded :=
  decidable_of_iff
    ((((c.label.toList.dropWhile fun x => x != ':' && x != '(' && x != ')').head? ≠ some ':' ∧
      ¬ [')', ' ', '('] <+: c.name.toList.dropWhile fun x => x != '(' && x != ')') ∧
      ¬ [')', ' ', '['] <:+: c.security.toList) ∧
    ((¬ ['[', ' ', ']'] <+: (partiesOf c).reverse.dropWhile fun x => x != '[' && x != ']') ∧
      splitParties (partiesOf c) = (c.initiators, c.receivers)) ∧
    ((∀ e ∈ c.value.expression?, e.toList.head? = some '?' →
        (Shape.parse e : Except Shape.ParseError (Shape String)).toOption = none) ∧
      ∀ s ∈ c.value.shape?,
        (Shape.parse s.render : Except Shape.ParseError (Shape String)).toOption.all (· = s) = true) ∧
    (firstLine c = written c ∨ (Text.trim (firstLine c)).getLast? ≠ some ']'))
    (by
      constructor
      · intro ⟨⟨⟨hl, hn⟩, hs⟩, ⟨hb, hp⟩, ⟨he, hsh⟩, hc⟩
        refine ⟨hl, hn, hs, hb, hp, fun e hm hq s hparse => ?_, fun s hm t hparse => ?_, hc⟩
        · have hnone := he e hm hq
          rw [hparse] at hnone
          cases hnone
        · have hsame := hsh s hm
          rw [hparse] at hsame
          simpa [Except.toOption] using hsame
      · intro h
        refine ⟨⟨⟨h.label, h.name⟩, h.security⟩, ⟨h.bracketed, h.parties⟩,
          ⟨fun e hm hq => ?_, fun s hm => ?_⟩, h.complete⟩
        · cases hparse : (Shape.parse e : Except Shape.ParseError (Shape String)) with
          | ok s => exact absurd hparse (h.expression e hm hq s)
          | error _ => rfl
        · cases hparse : (Shape.parse s.render : Except Shape.ParseError (Shape String)) with
          | ok t => simpa [Except.toOption] using h.shape s hm t hparse
          | error _ => rfl)

/-! ## Broken lines -/

namespace EventLine

variable {c : EventContent String} {ws : List Char}

/-- A line up to its first break begins as the line does. -/
theorem firstLine_eq (c : EventContent String) :
    ∃ t, firstLine c = marks c.included c.pending ++ '(' :: t := by
  have hmarks : ∀ x ∈ marks c.included c.pending, (!Text.isLineEnd x) = true := by
    cases c.included <;> cases c.pending <;> simp [marks, Text.isLineEnd, Text.lineEnds]
  rw [firstLine, written, lineOf, List.takeWhile_append_of_pos hmarks,
    List.takeWhile_cons_of_pos (by decide)]
  exact ⟨_, rfl⟩

/-- A line is a candidate as soon as its beginning is that of an event line. -/
theorem isCandidate_firstLine (c : EventContent String) (hw : ∀ x ∈ ws, Text.isBlank x = true) :
    isCandidate (ws ++ firstLine c) = true := by
  obtain ⟨t, ht⟩ := firstLine_eq c
  have hhead : Text.trimLeft (marks c.included c.pending ++ '(' :: t) =
      marks c.included c.pending ++ '(' :: t := by
    refine Text.trimLeft_of_head fun x hx => ?_
    unfold marks at hx
    cases hi : c.included <;> cases hp : c.pending <;> rw [hi, hp] at hx <;> cases hx <;> rfl
  have htrim : Text.trim (marks c.included c.pending ++ '(' :: t) =
      marks c.included c.pending ++ '(' :: (t.reverse.dropWhile Text.isBlank).reverse := by
    rw [Text.trim, hhead, Text.trimRight, List.reverse_append, List.reverse_cons, List.append_assoc,
      List.singleton_append, dropWhile_append_stop _ _ rfl]
    simp
  obtain ⟨hone, htwo⟩ :=
    takeMark_marks c.included c.pending (t.reverse.dropWhile Text.isBlank).reverse
  rw [isCandidate, Text.trim_append_of_blank hw, ht, htrim, hone]
  simp only [htwo]
  rfl

/-- The lines of what is written of a content, after tabs, begin with its first line. -/
theorem lines_written (c : EventContent String) (hw : ∀ x ∈ ws, x = '\t') :
    ∃ more, Text.lines (ws ++ written c) = (ws ++ firstLine c) :: more ∧
      (firstLine c = written c → more = []) := by
  have hends : ∀ x ∈ ws ++ firstLine c, Text.isLineEnd x = false := by
    intro x hx
    rcases List.mem_append.mp hx with hx | hx
    · rw [hw x hx]
      rfl
    · simpa using List.mem_takeWhile_imp hx
  have hsplit := List.takeWhile_append_dropWhile (p := fun x => !Text.isLineEnd x) (l := written c)
  cases hrest : (written c).dropWhile fun x => !Text.isLineEnd x with
  | nil =>
    have hwhole : firstLine c = written c := by rwa [hrest, List.append_nil] at hsplit
    have hne : ws ++ firstLine c ≠ [] := by
      obtain ⟨t, ht⟩ := firstLine_eq c
      simp [ht]
    rw [← hwhole]
    exact ⟨[], Text.lines_of_no_end hne hends, fun _ => rfl⟩
  | cons x rest =>
    have hx : Text.isLineEnd x = true := by
      have hhead := List.head?_dropWhile_not (fun x => !Text.isLineEnd x) (written c)
      rw [hrest] at hhead
      simpa using hhead
    rw [hrest] at hsplit
    obtain ⟨more, hmore⟩ := Text.lines_of_end (b := rest) hends hx
    refine ⟨more, ?_, fun hwhole => ?_⟩
    · rw [← hmore, ← hsplit, List.append_assoc]
      rfl
    · have hlength := congrArg List.length hsplit
      rw [show (written c).takeWhile _ = firstLine c from rfl, hwhole] at hlength
      simp at hlength

end EventLine

/-! ## Harmless lines -/

namespace Rehydration

variable {c : Choreography String}

/-- A line that does not read as an event line. -/
def Illegible (line : List Char) : Prop :=
  ∃ e, (EventLine.parse line : Except EventLine.ParseError (EventContent String)) = .error e

instance (line : List Char) : Decidable (Illegible line) :=
  decidable_of_iff
    ((EventLine.parse line : Except EventLine.ParseError (EventContent String)).toOption = none) (by
      unfold Illegible
      cases (EventLine.parse line : Except EventLine.ParseError (EventContent String)) <;>
        simp [Except.toOption])

/-- The candidates of a text in generated code, with the id of the event if it is an event line, that
cannot change an event: other texts have no candidate that is read; an event line is broken off and
not read, or is one candidate, read as its content or not at all. -/
inductive Harmless (c : Choreography String) : Option String × List (List Char) → Prop where
  | other {lines : List (List Char)} (h : ∀ line ∈ lines, Illegible line) : Harmless c (none, lines)
  | broken {id : String} {line : List Char} {more : List (List Char)} (h : Illegible line) :
    Harmless c (some id, line :: more)
  | whole {e : Event String} {line : List Char} (he : e ∈ c.events.entries)
    (h : ∀ d, EventLine.parse line = .ok d → d = e.content) : Harmless c (some e.id, [line])

/-- Reading ends in an error, or with records that all tell what is there. -/
def Faithful (c : Choreography String)
    (reading : Except EventLine.ParseError (Records String)) : Prop :=
  (∃ e, reading = .error e) ∨ ∃ records, reading = .ok records ∧ ∀ r ∈ records, Tells c r

theorem faithful_of_illegible {records : Records String} {id : String} {line : List Char}
    {rest : List (String × List Char)} (h : Illegible line) :
    Faithful c (readFrom records ((id, line) :: rest)).value := by
  obtain ⟨e, he⟩ := h
  exact .inl ⟨e, by simp only [readFrom, Logged.value_bind, he, Logged.value_pure]⟩

/-- Harmless texts are read faithfully, each event line at its place. -/
theorem faithful_readFrom {texts : List (Option String × List (List Char))}
    (h : ∀ t ∈ texts, Harmless c t) (records : Records String) (hrecords : ∀ r ∈ records, Tells c r) :
    Faithful c
      (readFrom records ((texts.filterMap Prod.fst).zip (texts.flatMap Prod.snd))).value := by
  induction texts generalizing records with
  | nil => exact .inr ⟨records, rfl, hrecords⟩
  | cons t rest ih =>
    obtain ⟨ht, hrest⟩ := List.forall_mem_cons.mp h
    have ih := ih hrest
    cases ht with
    | @other lines hlines =>
      cases lines with
      | nil => exact ih _ hrecords
      | cons line lines =>
        -- the line is read unless no event line follows
        rw [List.filterMap_cons_none rfl]
        cases hids : rest.filterMap Prod.fst with
        | nil => exact .inr ⟨records, rfl, hrecords⟩
        | cons id ids => exact faithful_of_illegible (hlines line List.mem_cons_self)
    | broken hline => exact faithful_of_illegible hline
    | @whole e line he hline =>
      cases hparse : (EventLine.parse line : Except EventLine.ParseError (EventContent String)) with
      | error err => exact faithful_of_illegible ⟨err, hparse⟩
      | ok d =>
        obtain rfl := hline d hparse
        have hread : ∀ r ∈ records ++ [(e.id, e.content)], Tells c r := by
          intro r hr
          rcases List.mem_append.mp hr with hr | hr
          · exact hrecords r hr
          · rw [List.mem_singleton.mp hr]
            exact ⟨e, he, rfl, rfl⟩
        show Faithful c (readFrom records
          ((e.id, line) :: (rest.filterMap Prod.fst).zip (rest.flatMap Prod.snd))).value
        -- an event that was read before keeps its record
        by_cases hknown : records.any (fun r => r.1 == e.id) = true
        · simp only [readFrom, hparse, hknown, if_true, Logged.value_bind]
          exact ih _ hrecords
        · simp only [readFrom, hparse, hknown, Logged.value_bind]
          exact ih _ hread

end Rehydration

/-! ## Generated code -/

namespace Choreography

open Rehydration (Harmless Illegible Faithful)

variable {c : Choreography String}

/-- No line of a text is taken for an event line and reads as one. -/
def Sealed (s : String) : Prop := ∀ line ∈ Rehydration.candidates s, Illegible line

instance (s : String) : Decidable (Sealed s) :=
  inferInstanceAs (Decidable (∀ line ∈ Rehydration.candidates s, Illegible line))

/-- No role, no line of the security lattice and no relation shows a line that reads as an event
line. -/
structure Unimitated (c : Choreography String) : Prop where
  preamble : ∀ s ∈ c.preamble, Sealed s
  relations : ∀ line, Piece.text line ∈ c.pieces → Sealed line

/-- The candidates of a piece of code, with the id of its event. -/
def candidatesOf? : Piece → Option (Option String × List (List Char))
  | .event id line => some (some id, Rehydration.candidates line)
  | .text line => some (none, Rehydration.candidates line)
  | _ => none

/-- The event line of a guarded content is harmless. -/
theorem Complete.harmless_event (h : c.Complete) (hs : ∀ e ∈ c.events.entries, e.content.Guarded)
    {id line : String} (hp : Piece.event id line ∈ c.pieces) :
    Harmless c (some id, Rehydration.candidates line) := by
  obtain ⟨e, he, tabs, htabs, rfl, hline⟩ := (h.piece _ hp).2 id line rfl
  have hblank : ∀ x ∈ tabs, Text.isBlank x = true := fun x hx => by
    rw [htabs x hx]
    rfl
  obtain ⟨more, hmore, hwhole⟩ := EventLine.lines_written e.content htabs
  rw [Rehydration.candidates, hline, hmore,
    List.filter_cons_of_pos (EventLine.isCandidate_firstLine e.content hblank)]
  by_cases hb : firstLine e.content = written e.content
  · rw [hwhole hb, hb]
    exact .whole he fun d hd => EventLine.eq_of_parse_written (hs e he) hblank hd
  · exact .broken (EventLine.parse_firstLine (hs e he) hblank hb)

theorem Complete.harmless (h : c.Complete) (hs : ∀ e ∈ c.events.entries, e.content.Guarded)
    (hu : c.Unimitated) :
    ∀ t ∈ (c.preamble.map fun s => (none, Rehydration.candidates s)) ++ c.pieces.filterMap candidatesOf?,
      Harmless c t := by
  intro t ht
  rcases List.mem_append.mp ht with ht | ht
  · obtain ⟨s, hs, rfl⟩ := List.mem_map.mp ht
    exact .other (hu.preamble s hs)
  · obtain ⟨p, hp, ht⟩ := List.mem_filterMap.mp ht
    cases p with
    | event id line =>
      cases ht
      exact h.harmless_event hs hp
    | text line =>
      cases ht
      exact .other (hu.relations line hp)
    | recursion target source => cases ht
    | obstacle o => cases ht

theorem filterMap_candidatesOf? (ps : List Piece) :
    ((ps.filterMap candidatesOf?).filterMap Prod.fst =
      (ps.filterMap Piece.eventLine?).map Prod.fst) ∧
    (ps.filterMap candidatesOf?).flatMap Prod.snd =
      (ps.filterMap Piece.line?).flatMap Rehydration.candidates := by
  induction ps with
  | nil => exact ⟨rfl, rfl⟩
  | cons p rest ih =>
    cases p with
    | event id line =>
      exact ⟨congrArg (id :: ·) ih.1, congrArg (Rehydration.candidates line ++ ·) ih.2⟩
    | text line => exact ⟨ih.1, congrArg (Rehydration.candidates line ++ ·) ih.2⟩
    | recursion target source => exact ih
    | obstacle o => exact ih

/-- Code of guarded contents, with no other line that reads as an event line, is read faithfully. -/
theorem Complete.faithful (h : c.Complete) (hs : ∀ e ∈ c.events.entries, e.content.Guarded)
    (hu : c.Unimitated) :
    Faithful c (Rehydration.read (codeOf c.preamble c.pieces).text
      (codeOf c.preamble c.pieces).rendered).value := by
  obtain ⟨hids, hlines⟩ := filterMap_candidatesOf? c.pieces
  have hpreamble : (c.preamble.map fun s => ((none : Option String), Rehydration.candidates s)).filterMap
      Prod.fst = [] := List.filterMap_eq_nil_iff.mpr fun t ht => by
    obtain ⟨s, _, rfl⟩ := List.mem_map.mp ht
    rfl
  have hread := Rehydration.faithful_readFrom (h.harmless hs hu) []
    fun _ hr => absurd hr List.not_mem_nil
  rw [List.filterMap_append, hpreamble, List.nil_append, hids, List.flatMap_append, hlines,
    List.flatMap_map, ← List.flatMap_append] at hread
  have htext : Rehydration.candidates (codeOf c.preamble c.pieces).text =
      (c.preamble ++ c.pieces.filterMap Piece.line?).flatMap Rehydration.candidates :=
    Text.filter_lines_intercalate rfl _
  rw [← htext] at hread
  exact hread

end Choreography

/-! ## Sessions -/

namespace Editor

open Rehydration (Tells Records)

/-- Records that tell what is there update no event. -/
theorem applyRecords_of_tells {e : Editor String} {records : Records String}
    (h : ∀ r ∈ records, Tells e.choreography r) : (e.applyRecords records).value = (e, []) := by
  induction records with
  | nil => rfl
  | cons record rest ih =>
    obtain ⟨⟨v, hv, hid, hcontent⟩, hrest⟩ := List.forall_mem_cons.mp h
    obtain ⟨id, content⟩ := record
    dsimp only at hid hcontent
    have hget : e.choreography.events.get? id = some v := Store.get?_eq_some_iff.mpr ⟨hv, hid⟩
    unfold Editor.applyRecords
    simp only [hget, hcontent, if_true]
    exact ih hrest

/-- After every session that leaves guarded contents and no other line that reads as an event line,
code is generated, and reading it back as it is ends in an error or gives every event its own
content, so that nothing changes when that is applied. -/
theorem faithful_after {e : Editor String} (h : e.Opening) (calls : List (Call String))
    (hs : ∀ v ∈ (e.after calls).choreography.events.entries, v.content.Guarded)
    (hu : (e.after calls).choreography.Unimitated) :
    ∃ g code, (e.after calls).generate.value = (g, .ok code) ∧
      ((∃ err, (g.rehydrate code.text).value = .error err) ∨
        ∃ records, (g.rehydrate code.text).value = .ok records ∧
          (∀ r ∈ records, Tells (e.after calls).choreography r) ∧
          (g.applyRecords records).value = (g, [])) := by
  have hc := (orderly_after h calls).complete
  have hgenerate : (e.after calls).generate.value =
      ({ e.after calls with code := some (Choreography.codeOf (e.after calls).choreography.preamble
        (e.after calls).choreography.pieces) },
        .ok (Choreography.codeOf (e.after calls).choreography.preamble
          (e.after calls).choreography.pieces)) := by
    simp only [Editor.generate, Logged.value_bind, hc.generate, Logged.value_pure]
  refine ⟨_, _, hgenerate, ?_⟩
  rcases hc.faithful hs hu with ⟨err, herr⟩ | ⟨records, hrecords, htells⟩
  · exact .inl ⟨err, herr⟩
  · exact .inr ⟨records, hrecords, htells, applyRecords_of_tells htells⟩

/-- A session that adds an event whose expression breaks its line, and sets a lattice that begins as an
event line does. -/
def breaking : List (Call String) :=
  [.edit (.createEvent { value := .computation "f(\nx)", initiators := ["P(id=1)"], name := "(sum)" }),
    .edit (.setSecurity "(Public) flows P")]

theorem faithful_after_breaking :
    Opening { choreography := (Sample.choreography : Choreography String) } ∧
    (∀ v ∈ (after { choreography := Sample.choreography } breaking).choreography.events.entries,
      v.content.Guarded) ∧
    (after { choreography := Sample.choreography } breaking).choreography.Unimitated ∧
    ∃ g code, (after { choreography := Sample.choreography } breaking).generate.value =
        (g, .ok code) ∧
      ((∃ err, (g.rehydrate code.text).value = .error err) ∨
        ∃ records, (g.rehydrate code.text).value = .ok records ∧
          (∀ r ∈ records,
            Tells (after { choreography := Sample.choreography } breaking).choreography r) ∧
          (g.applyRecords records).value = (g, [])) := by
  have hs : ∀ v ∈ (after { choreography := Sample.choreography }
      breaking).choreography.events.entries, v.content.Guarded := by decide +kernel
  have htexts : ∀ p ∈ (after { choreography := Sample.choreography } breaking).choreography.pieces,
      p.eventLine? = none → ∀ line ∈ p.line?, Choreography.Sealed line := by decide +kernel
  have hu : (after { choreography := Sample.choreography } breaking).choreography.Unimitated :=
    ⟨by decide +kernel, fun line hp => htexts _ hp rfl line rfl⟩
  exact ⟨.inr rfl, hs, hu, faithful_after (.inr rfl) breaking hs hu⟩

/-- A session that adds an event whose expression breaks its line where it seems to be complete. -/
def misleading : List (Call String) :=
  [.edit (.createEvent { value := .computation "a] [Q]\nb", initiators := ["P"] })]

/-- Some code is read back, as it is, with another content. -/
theorem not_faithful : ¬ ∀ (e : Editor String), e.Opening → ∀ calls,
    ∃ g code, (e.after calls).generate.value = (g, .ok code) ∧
      ((∃ err, (g.rehydrate code.text).value = .error err) ∨
        ∃ records, (g.rehydrate code.text).value = .ok records ∧
          (∀ r ∈ records, Tells (e.after calls).choreography r) ∧
          (g.applyRecords records).value = (g, [])) := by
  intro h
  obtain ⟨g, code, hg, hread⟩ := h {} (.inl rfl) misleading
  have hupdated : (match (after {} misleading).generate.value with
      | (g, .ok code) => match (g.rehydrate code.text).value with
        | .ok records => (g.applyRecords records).value.2
        | .error _ => []
      | (_, .error _) => []) = ["e0"] := by decide +kernel
  rw [hg] at hupdated
  dsimp only at hupdated
  rcases hread with ⟨err, herr⟩ | ⟨records, hrecords, _, hsame⟩
  · rw [herr] at hupdated
    cases hupdated
  · rw [hrecords] at hupdated
    dsimp only at hupdated
    rw [hsame] at hupdated
    cases hupdated

end Editor

end Dcr
