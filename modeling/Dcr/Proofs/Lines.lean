import Dcr.EventLine.Parties
import Dcr.Text.Lines
import Mathlib.Data.List.TakeWhile

/-! Lines and blanks of a text that was put together. A join of texts by line feeds has the lines of
the texts, apart from empty ones; a blank-free end stays when blanks are trimmed; and a cut at a
separator finds the one that was put in, if no earlier one overlaps it. -/

namespace Dcr.Text

variable {cs ws a b : List Char} {c : Char} {keep : List Char → Bool}

/-! ## Blanks -/

theorem trimLeft_of_head (h : ∀ c, cs.head? = some c → isBlank c = false) : trimLeft cs = cs := by
  cases cs with
  | nil => rfl
  | cons c rest => exact List.dropWhile_cons_of_neg (by simp [h c rfl])

theorem trimRight_of_last (h : ∀ c, cs.getLast? = some c → isBlank c = false) :
    trimRight cs = cs := by
  have hr : cs.reverse.dropWhile isBlank = cs.reverse := by
    refine trimLeft_of_head fun c hc => h c ?_
    rwa [List.head?_reverse] at hc
  rw [trimRight, hr, List.reverse_reverse]

theorem trim_of_ends (hh : ∀ c, cs.head? = some c → isBlank c = false)
    (hl : ∀ c, cs.getLast? = some c → isBlank c = false) : trim cs = cs := by
  rw [trim, trimLeft_of_head hh, trimRight_of_last hl]

theorem trim_append_of_blank (h : ∀ c ∈ ws, isBlank c = true) : trim (ws ++ cs) = trim cs := by
  rw [trim, trim, trimLeft, List.dropWhile_append_of_pos h]
  rfl

theorem mem_of_mem_trim {x : Char} (h : x ∈ trim cs) : x ∈ cs := by
  have hr : x ∈ (trimLeft cs).reverse :=
    (List.dropWhile_suffix (l := (trimLeft cs).reverse) isBlank).subset (List.mem_reverse.mp h)
  exact (List.dropWhile_suffix isBlank).subset (List.mem_reverse.mp hr)

/-- What is trimmed off a text is blank. -/
theorem exists_trim (cs : List Char) :
    ∃ l r, cs = l ++ trim cs ++ r ∧ (∀ c ∈ l, isBlank c = true) ∧ ∀ c ∈ r, isBlank c = true := by
  have hleft := List.takeWhile_append_dropWhile (p := isBlank) (l := cs)
  have hright := congrArg List.reverse
    (List.takeWhile_append_dropWhile (p := isBlank) (l := (trimLeft cs).reverse))
  rw [List.reverse_append, List.reverse_reverse] at hright
  refine ⟨cs.takeWhile isBlank, ((trimLeft cs).reverse.takeWhile isBlank).reverse, ?_,
    fun c hc => List.mem_takeWhile_imp hc,
    fun c hc => List.mem_takeWhile_imp (List.mem_reverse.mp hc)⟩
  rw [List.append_assoc, trim, trimRight, hright]
  exact hleft.symm

/-- A text that was trimmed has nothing left to be trimmed off. -/
theorem trim_trim (cs : List Char) : trim (trim cs) = trim cs := by
  have hlast : ∀ c, (trim cs).getLast? = some c → isBlank c = false := by
    intro c hc
    rw [trim, trimRight, List.getLast?_reverse] at hc
    have hnot := List.head?_dropWhile_not isBlank (trimLeft cs).reverse
    rwa [hc] at hnot
  refine trim_of_ends (fun c hc => ?_) hlast
  have hprefix : trim cs <+: trimLeft cs := List.reverse_suffix.mp (by
    rw [trim, trimRight, List.reverse_reverse]
    exact List.dropWhile_suffix _)
  have hhead : (trimLeft cs).head? = some c := by
    obtain ⟨t, ht⟩ := hprefix
    rw [← ht, List.head?_append, hc]
    rfl
  have hnot := List.head?_dropWhile_not isBlank cs
  rw [trimLeft] at hhead
  rwa [hhead] at hnot

/-! ## Lines -/

theorem linesFrom_pair (line rest : List Char) :
    linesFrom line ('\r' :: '\n' :: rest) = line.reverse :: linesFrom [] rest := rfl

theorem linesFrom_of_end {rest : List Char} (line : List Char) (hc : isLineEnd c = true)
    (hp : ∀ tail, c = '\r' → rest ≠ '\n' :: tail) :
    linesFrom line (c :: rest) = line.reverse :: linesFrom [] rest := by
  rw [linesFrom.eq_3 _ _ _ hp, if_pos hc]

theorem linesFrom_of_not_end {rest : List Char} (line : List Char) (hc : isLineEnd c = false) :
    linesFrom line (c :: rest) = linesFrom (c :: line) rest := by
  have hr : c ≠ '\r' := by
    intro he
    rw [he] at hc
    cases hc
  rw [linesFrom.eq_3 _ _ _ fun tail he _ => hr he, hc]
  rfl

theorem linesFrom_of_no_end (line : List Char) (h : ∀ c ∈ cs, isLineEnd c = false) :
    linesFrom line cs = if (line.reverse ++ cs).isEmpty then [] else [line.reverse ++ cs] := by
  induction cs generalizing line with
  | nil => cases line <;> simp [linesFrom]
  | cons c rest ih =>
    rw [linesFrom_of_not_end line (h c List.mem_cons_self), ih (c :: line) fun d hd =>
      h d (List.mem_cons_of_mem _ hd)]
    simp

/-- A text without boundaries is one line. -/
theorem lines_of_no_end (hne : cs ≠ []) (h : ∀ c ∈ cs, isLineEnd c = false) : lines cs = [cs] := by
  rw [lines, linesFrom_of_no_end [] h]
  simp [hne]

/-- The first line of a text ends at its first boundary. -/
theorem linesFrom_of_first_end (line : List Char) (ha : ∀ x ∈ a, isLineEnd x = false)
    (hc : isLineEnd c = true) :
    ∃ more, linesFrom line (a ++ c :: b) = (line.reverse ++ a) :: more := by
  induction a generalizing line with
  | nil =>
    rw [List.append_nil, List.nil_append]
    by_cases hpair : ∃ tail, c = '\r' ∧ b = '\n' :: tail
    · obtain ⟨tail, rfl, rfl⟩ := hpair
      exact ⟨_, linesFrom_pair line tail⟩
    · exact ⟨_, linesFrom_of_end line hc fun tail hr hb => hpair ⟨tail, hr, hb⟩⟩
  | cons x rest ih =>
    obtain ⟨more, hmore⟩ := ih (x :: line) fun y hy => ha y (List.mem_cons_of_mem _ hy)
    refine ⟨more, ?_⟩
    rw [List.cons_append, linesFrom_of_not_end line (ha x List.mem_cons_self), hmore]
    simp

theorem lines_of_end (ha : ∀ x ∈ a, isLineEnd x = false) (hc : isLineEnd c = true) :
    ∃ more, lines (a ++ c :: b) = a :: more := linesFrom_of_first_end [] ha hc

theorem mem_of_mem_linesFrom {line l : List Char} (h : l ∈ linesFrom line cs) :
    ∀ x ∈ l, x ∈ line ∨ x ∈ cs := by
  fun_induction linesFrom line cs with
  | case1 line hline => cases h
  | case2 line hline =>
    intro x hx
    rw [List.mem_singleton.mp h] at hx
    exact .inl (List.mem_reverse.mp hx)
  | case3 line rest ih =>
    intro x hx
    rcases List.mem_cons.mp h with rfl | h
    · exact .inl (List.mem_reverse.mp hx)
    · rcases ih h x hx with hx | hx
      · cases hx
      · exact .inr (List.mem_cons_of_mem _ (List.mem_cons_of_mem _ hx))
  | case4 line c rest hpair hend ih =>
    intro x hx
    rcases List.mem_cons.mp h with rfl | h
    · exact .inl (List.mem_reverse.mp hx)
    · rcases ih h x hx with hx | hx
      · cases hx
      · exact .inr (List.mem_cons_of_mem _ hx)
  | case5 line c rest _ hend ih =>
    intro x hx
    rcases ih h x hx with hx | hx
    · rcases List.mem_cons.mp hx with rfl | hx
      · exact .inr List.mem_cons_self
      · exact .inl hx
    · exact .inr (List.mem_cons_of_mem _ hx)

/-- The characters of a line are characters of the text. -/
theorem mem_of_mem_lines {l : List Char} (h : l ∈ lines cs) : ∀ x ∈ l, x ∈ cs := by
  intro x hx
  rcases mem_of_mem_linesFrom h x hx with hx | hx
  · cases hx
  · exact hx

/-- A line feed between two texts ends a line, and makes no other line but an empty one. -/
theorem filter_linesFrom_append (hk : keep [] = false) (line : List Char) :
    (linesFrom line (a ++ '\n' :: b)).filter keep =
      (linesFrom line a).filter keep ++ (lines b).filter keep := by
  have hfeed : ∀ line, linesFrom line ('\n' :: b) = line.reverse :: lines b := fun line =>
    linesFrom_of_end line rfl fun tail he => by cases he
  fun_induction linesFrom line a with
  | case1 line hline =>
    rw [List.nil_append, hfeed, List.isEmpty_iff.mp hline, List.reverse_nil,
      List.filter_cons_of_neg (by simp [hk])]
    rfl
  | case2 line hline => rw [List.nil_append, hfeed, ← List.filter_append, List.singleton_append]
  | case3 line rest ih =>
    rw [List.cons_append, List.cons_append, linesFrom_pair, List.filter_cons, List.filter_cons, ih]
    split <;> rfl
  | case4 line c rest hpair hend ih =>
    by_cases hlast : c = '\r' ∧ rest = []
    · -- the line feed belongs to the carriage return before it
      obtain ⟨rfl, rfl⟩ := hlast
      rw [List.singleton_append, linesFrom_pair, ← List.filter_append]
      rfl
    · have hp : ∀ tail, c = '\r' → rest ++ '\n' :: b ≠ '\n' :: tail := by
        intro tail hc he
        cases rest with
        | nil => exact hlast ⟨hc, rfl⟩
        | cons d rest =>
          obtain ⟨hd, _⟩ := List.cons.inj he
          exact hpair rest hc (hd ▸ rfl)
      rw [List.cons_append, linesFrom_of_end line hend hp, List.filter_cons, List.filter_cons, ih]
      split <;> rfl
  | case5 line c rest _ hend ih =>
    rw [List.cons_append, linesFrom_of_not_end line (Bool.eq_false_iff.mpr hend), ih]

/-- The lines of a join by line feeds are those of its parts, apart from empty ones. -/
theorem filter_lines_intercalate (hk : keep [] = false) (parts : List String) :
    (lines ("\n".intercalate parts).toList).filter keep =
      parts.flatMap fun s => (lines s.toList).filter keep := by
  induction parts with
  | nil => rfl
  | cons s rest ih =>
    cases rest with
    | nil => rw [String.intercalate_singleton, List.flatMap_singleton]
    | cons t rest =>
      have hl : ("\n".intercalate (s :: t :: rest)).toList =
          s.toList ++ '\n' :: ("\n".intercalate (t :: rest)).toList := by
        rw [String.intercalate_cons_cons, String.toList_append, String.toList_append,
          List.append_assoc]
        rfl
      rw [hl, lines, filter_linesFrom_append hk [], ← lines, ih]
      rfl

/-- A character of a join comes from a separator or from a part. -/
theorem mem_intercalate {separator : String} {parts : List String}
    (h : c ∈ (separator.intercalate parts).toList) :
    c ∈ separator.toList ∨ ∃ s ∈ parts, c ∈ s.toList := by
  induction parts with
  | nil =>
    rw [String.intercalate_nil] at h
    cases h
  | cons s rest ih =>
    cases rest with
    | nil =>
      rw [String.intercalate_singleton] at h
      exact .inr ⟨s, List.mem_cons_self, h⟩
    | cons t rest =>
      rw [String.intercalate_cons_cons, String.toList_append, String.toList_append, List.mem_append,
        List.mem_append] at h
      rcases h with (h | h) | h
      · exact .inr ⟨s, List.mem_cons_self, h⟩
      · exact .inl h
      · rcases ih h with h | ⟨u, hu, hc⟩
        · exact .inl h
        · exact .inr ⟨u, List.mem_cons_of_mem _ hu, hc⟩

/-! ## Cuts -/

/-- A cut finds the separator after a text that no earlier occurrence overlaps. -/
theorem cutAt_append {separator : List Char} (hne : separator ≠ [])
    (h : ∀ s t, a = s ++ t → t ≠ [] → ¬ separator <+: t ++ separator ++ b) :
    cutAt separator (a ++ separator ++ b) = some (a, b) := by
  induction a with
  | nil =>
    obtain ⟨c, rest, rfl⟩ := List.exists_cons_of_ne_nil hne
    have hp : (c :: rest).isPrefixOf (c :: (rest ++ b)) = true :=
      List.isPrefixOf_iff_prefix.mpr (List.prefix_append (c :: rest) b)
    rw [List.nil_append, List.cons_append, cutAt, if_pos hp]
    simp
  | cons c rest ih =>
    have hp : ¬ separator.isPrefixOf (c :: (rest ++ separator ++ b)) = true := fun hp =>
      h [] (c :: rest) rfl (by simp) (List.isPrefixOf_iff_prefix.mp hp)
    rw [List.cons_append, List.cons_append, cutAt, if_neg hp, ih fun s t he hne =>
      h (c :: s) t (by rw [he, List.cons_append]) hne]
    rfl

/-- A cut at what does not occur finds nothing. -/
theorem cutAt_eq_none {separator : List Char} (hne : separator ≠ []) (h : ¬ separator <:+: cs) :
    cutAt separator cs = none := by
  induction cs with
  | nil => simp [cutAt, hne]
  | cons c rest ih =>
    have hp : ¬ separator.isPrefixOf (c :: rest) = true := fun hp =>
      h (List.isPrefixOf_iff_prefix.mp hp).isInfix
    rw [cutAt, if_neg hp, ih fun hi => h (hi.trans (List.suffix_cons c rest).isInfix)]
    rfl

/-- What is found by a cut stands before and after the separator, and the separator does not stand
before that. -/
theorem cutAt_eq_some {separator : List Char} (hne : separator ≠ [])
    (h : cutAt separator cs = some (a, b)) : cs = a ++ separator ++ b ∧ ¬ separator <:+: a := by
  induction cs generalizing a with
  | nil => simp [cutAt, hne] at h
  | cons c rest ih =>
    rw [cutAt] at h
    split at h
    · next hp =>
      obtain ⟨t, ht⟩ := List.isPrefixOf_iff_prefix.mp hp
      rw [← ht, List.drop_left] at h
      cases h
      exact ⟨by rw [← ht, List.nil_append], fun hi => hne (List.infix_nil.mp hi)⟩
    · next hp =>
      obtain ⟨⟨before, after⟩, hcut, he⟩ := Option.map_eq_some_iff.mp h
      cases he
      obtain ⟨hrest, hbefore⟩ := ih hcut
      refine ⟨by rw [hrest, List.cons_append, List.cons_append], fun hi => ?_⟩
      rcases List.infix_cons_iff.mp hi with hi | hi
      · refine hp (List.isPrefixOf_iff_prefix.mpr (hi.trans ?_))
        rw [hrest, List.append_assoc]
        exact List.prefix_append (c :: before) (separator ++ b)
      · exact hbefore hi

/-- A separator that stands in the first part of a text is found there. -/
theorem cutAt_append_of_infix {separator : List Char} (hne : separator ≠ []) (b : List Char)
    (h : separator <:+: a) :
    ∃ before after, a = before ++ separator ++ after ∧
      cutAt separator (a ++ b) = some (before, after ++ b) := by
  induction a with
  | nil => exact absurd (List.infix_nil.mp h) hne
  | cons c rest ih =>
    by_cases hp : separator <+: c :: rest
    · obtain ⟨t, ht⟩ := hp
      have hpre : separator.isPrefixOf (c :: (rest ++ b)) = true :=
        List.isPrefixOf_iff_prefix.mpr ⟨t ++ b, by rw [← List.append_assoc, ht, List.cons_append]⟩
      refine ⟨[], t, ht.symm, ?_⟩
      rw [List.cons_append, cutAt, if_pos hpre, ← List.cons_append, ← ht, List.append_assoc,
        List.drop_left]
    · have hrest := (List.infix_cons_iff.mp h).resolve_left hp
      obtain ⟨before, after, hsplit, hcut⟩ := ih hrest
      -- the rest of the text holds the separator, so that it cannot reach over its end
      have hpre : ¬ separator.isPrefixOf (c :: (rest ++ b)) = true := fun hpre =>
        hp (List.prefix_of_prefix_length_le (List.isPrefixOf_iff_prefix.mp hpre)
          (List.prefix_append (c :: rest) b) (Nat.le_succ_of_le hrest.length_le))
      refine ⟨c :: before, after, by rw [hsplit, List.cons_append, List.cons_append], ?_⟩
      rw [List.cons_append, cutAt, if_neg hpre, hcut]
      rfl

end Dcr.Text
