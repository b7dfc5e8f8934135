import Dcr.Proofs.Shapes
import Mathlib.Control.Monad.Basic

/-! Value clauses, exactly. A text is read as a clause if it is made of tokens, with spaces and tabs
around them, that the grammar derives, and then as the shape they stand for; every other text is
refused. The scan finds the only tokens a text is made of, and what the transitions of `Progress` have
read is at each point the beginning of a derivation. -/

namespace Dcr.Shape

open FreeText (ofText)

variable {τ : Type} [FreeText τ] {cs : List Char} {tokens : List Token}

/-! ## Texts made of tokens -/

/-- A text is made of tokens: marks, and names as long as they can be. Spaces and tabs are passed
over. -/
inductive Tokenized : List Char → List Token → Prop
  | nil : Tokenized [] []
  | blank {c cs ts} (hc : c = ' ' ∨ c = '\t') : Tokenized cs ts → Tokenized (c :: cs) ts
  | mark {t : Token} {cs ts} (ht : ∀ name, t ≠ .name name) :
    Tokenized cs ts → Tokenized (t.text.toList ++ cs) (t :: ts)
  | name {s cs ts} (hs : isIdentifier s = true)
    (hc : ∀ c, cs.head? = some c → Token.continuesName c = false) :
    Tokenized cs ts → Tokenized (s.toList ++ cs) (.name s :: ts)

theorem Tokenized.scans (h : Tokenized cs tokens) : Scans cs tokens := by
  induction h with
  | nil => exact .nil
  | blank hc _ ih => exact .space hc ih
  | @mark t _ _ ht _ ih =>
    cases t with
    | name s => exact absurd rfl (ht s)
    | _ => exact .punctuation (by decide) rfl ih
  | name hs hc _ ih => exact .name hs hc ih

theorem Tokenized.isIdentifier (h : Tokenized cs tokens) :
    ∀ name, .name name ∈ tokens → isIdentifier name = true := by
  induction h with
  | nil => simp
  | blank _ _ ih => exact ih
  | mark ht _ ih =>
    intro name hn
    rcases List.mem_cons.mp hn with he | hn
    · exact absurd he.symm (ht name)
    · exact ih name hn
  | name hs _ _ ih =>
    intro name hn
    rcases List.mem_cons.mp hn with he | hn
    · cases he
      exact hs
    · exact ih name hn

theorem text_of_punctuation {c : Char} {t : Token} (h : Token.punctuation? c = some t) :
    t.text.toList = [c] ∧ ∀ name, t ≠ .name name := by
  unfold Token.punctuation? at h
  repeat' split at h
  all_goals cases h
  all_goals simp_all [Token.text]

/-- Without an illegal character a text is made of the tokens the scan finds. -/
theorem tokenized_of_scanFrom {position : Nat} (h : (scanFrom position cs).illegal = none) :
    Tokenized cs ((scanFrom position cs).lexemes.map Lexeme.token) := by
  fun_induction scanFrom position cs with
  | case1 => exact .nil
  | case2 position c rest hc ih => exact .blank hc (ih h)
  | case3 position c rest _ t ht ih =>
    obtain ⟨htext, hmark⟩ := text_of_punctuation ht
    have hrest := Tokenized.mark hmark (ih h)
    rwa [htext] at hrest
  | case4 position c rest _ _ hbegins word ih =>
    have hs : isIdentifier (String.ofList (c :: word)) = true := by
      simp [isIdentifier, hbegins, word]
    have hc : ∀ d, (rest.dropWhile Token.continuesName).head? = some d →
        Token.continuesName d = false := by
      intro d hd
      have hnot := List.head?_dropWhile_not Token.continuesName rest
      rw [hd] at hnot
      exact hnot
    have hrest := Tokenized.name hs hc (ih h)
    rwa [String.toList_ofList, List.cons_append, List.takeWhile_append_dropWhile] at hrest
  | case5 => cases h

/-! ## Derivations begun -/

theorem ofType_name (name : String) :
    (ofType (ofText name : τ) []).typeName = ofText name ∧
      (ofType (ofText name : τ) []).fields = [] := by
  unfold ofType
  split
  · next h =>
    rw [FreeText.isText_ofText] at h
    exact ⟨congrArg ofText (beq_iff_eq.mp h).symm, rfl⟩
  · split
    · next h =>
      rw [FreeText.isText_ofText] at h
      exact ⟨congrArg ofText (beq_iff_eq.mp h).symm, rfl⟩
    · exact ⟨rfl, rfl⟩

namespace Progress

/-- What stands before a field: nothing, or other fields and a semicolon. -/
def Before (ts : List Token) (fields : List (Field τ)) : Prop :=
  (ts = [] ∧ fields = []) ∨ ∃ us, FieldsRule us fields ∧ ts = us ++ [.semicolon]

theorem Before.field {ts : List Token} {fields : List (Field τ)} (h : Before ts fields)
    (name type : String) :
    FieldsRule (ts ++ [.name name, .colon, .name type])
      (fields ++ [⟨ofText name, ofText type⟩]) := by
  rcases h with ⟨rfl, rfl⟩ | ⟨us, hus, rfl⟩
  · exact .one (.field name type)
  · rw [List.append_assoc]
    exact .more hus (.field name type)

/-- The tokens that lead to each point of a clause. -/
def Reads (tokens : List Token) : Progress τ → Prop
  | start => tokens = []
  | question => tokens = [.question]
  | colon => tokens = [.question, .colon]
  | typed name => tokens = [.question, .colon, .name name]
  | opened => tokens = [.question, .colon, .opening]
  | var fields name => ∃ ts, Before ts fields ∧
    tokens = .question :: .colon :: .opening :: (ts ++ [.name name])
  | varColon fields name => ∃ ts, Before ts fields ∧
    tokens = .question :: .colon :: .opening :: (ts ++ [.name name, .colon])
  | field fields => ∃ ts, FieldsRule ts fields ∧ tokens = .question :: .colon :: .opening :: ts
  | separator fields => ∃ ts, FieldsRule ts fields ∧
    tokens = .question :: .colon :: .opening :: (ts ++ [.semicolon])
  | closed fields => ClauseRule tokens (.record fields)

theorem Reads.next {p q : Progress τ} {t : Token} (h : Reads tokens p) (hq : p.next? t = some q) :
    Reads (tokens ++ [t]) q := by
  unfold next? at hq
  split at hq <;> cases hq
  case h_1 => exact congrArg (· ++ _) h
  case h_2 => exact congrArg (· ++ _) h
  case h_3 => exact congrArg (· ++ _) h
  case h_4 => exact congrArg (· ++ _) h
  case h_5 =>
    cases h
    exact .empty
  case h_6 name => exact ⟨[], .inl ⟨rfl, rfl⟩, congrArg (· ++ _) h⟩
  case h_7 =>
    obtain ⟨ts, hts, rfl⟩ := h
    exact ⟨ts, hts, by simp⟩
  case h_8 fields name type =>
    obtain ⟨ts, hts, rfl⟩ := h
    exact ⟨_, hts.field name type, by simp⟩
  case h_9 =>
    obtain ⟨ts, hts, rfl⟩ := h
    exact ⟨ts, hts, by simp⟩
  case h_10 =>
    obtain ⟨ts, hts, rfl⟩ := h
    exact .record hts
  case h_11 =>
    obtain ⟨ts, hts, rfl⟩ := h
    exact ⟨_, .inr ⟨ts, hts, rfl⟩, by simp⟩

theorem Reads.foldlM {p q : Progress τ} {rest : List Token} (h : Reads tokens p)
    (hq : rest.foldlM next? p = some q) : Reads (tokens ++ rest) q := by
  induction rest generalizing tokens p with
  | nil =>
    cases hq
    rwa [List.append_nil]
  | cons t rest ih =>
    rw [List.foldlM_cons] at hq
    obtain ⟨r, hr, hq⟩ := Option.bind_eq_some_iff.mp hq
    rw [List.append_cons]
    exact ih (h.next hr) hq

theorem Reads.clause {p : Progress τ} {s : Shape τ} (h : Reads tokens p) (hs : p.shape? = some s) :
    ClauseRule tokens s := by
  unfold shape? at hs
  split at hs <;> cases hs
  · cases h
    exact .unit
  · cases h
    exact .typed (ofType_name _).1 (ofType_name _).2
  · exact h

end Progress

/-! ## What is derived -/

section Names

variable (hnames : ∀ name, .name name ∈ tokens → isIdentifier name = true)

include hnames

theorem FieldRule.named {f : Field τ} (h : FieldRule tokens f) : IsName f.var ∧ IsName f.type := by
  cases h with
  | field name type =>
    exact ⟨⟨name, rfl, hnames name (by simp)⟩, ⟨type, rfl, hnames type (by simp)⟩⟩

theorem FieldsRule.named {fields : List (Field τ)} (h : FieldsRule tokens fields) :
    ∀ f ∈ fields, IsName f.var ∧ IsName f.type := by
  induction h with
  | one hf => exact List.forall_mem_singleton.mpr (hf.named hnames)
  | more _ hf ih =>
    have hfirst := ih fun name hn => hnames name (List.mem_append_left _ hn)
    have hlast := hf.named fun name hn =>
      hnames name (List.mem_append_right _ (List.mem_cons_of_mem _ hn))
    exact List.forall_mem_append.mpr ⟨hfirst, List.forall_mem_singleton.mpr hlast⟩

/-- A clause of ASCII names stands for a shape of such names. -/
theorem ClauseRule.spelled {s : Shape τ} (h : ClauseRule tokens s) : s.Spelled := by
  cases h with
  | unit => trivial
  | @typed name s type plain =>
    cases s with
    | unit => trivial
    | named x _ => exact ⟨name, type, hnames name (by simp)⟩
    | record fields =>
      cases plain
      exact List.forall_mem_nil _
  | empty => exact List.forall_mem_nil _
  | record hf => exact hf.named fun name hn => hnames name (by simp [hn])

end Names

/-! ## Exactness -/

/-- A text is read as the shapes that its tokens stand for. -/
theorem parse_eq_ok_iff {text : String} {s : Shape τ} :
    parse text = .ok s ↔ ∃ ts, Tokenized text.toList ts ∧ ClauseRule ts s := by
  constructor
  · intro h
    obtain ⟨hlegal, q, hq, hs⟩ := Progress.run_eq_ok_iff.mp h
    have hstart : Progress.Reads [] (.start : Progress τ) := rfl
    exact ⟨_, tokenized_of_scanFrom hlegal, (hstart.foldlM hq).clause hs⟩
  · intro ⟨ts, hts, hs⟩
    exact parse_of_scans hts.scans hs

/-- How a text is read as a clause: as what the grammar derives from its tokens, and with an error if
it derives nothing. The clause of what was read is read in the same way. -/
structure ReadExactly (τ : Type) [FreeText τ] (text : String) : Prop where
  accepted : ∀ s : Shape τ,
    parse text = .ok s ↔ ∃ ts, Tokenized text.toList ts ∧ ClauseRule ts s
  refused : (∃ e, (parse text : Except ParseError (Shape τ)) = .error e) ↔
    ¬ ∃ s : Shape τ, ∃ ts, Tokenized text.toList ts ∧ ClauseRule ts s
  again : ∀ s : Shape τ, parse text = .ok s → parse s.render = .ok s

/-- Every text is read exactly as the grammar has it, and every shape of ASCII names is read back from
its clause. -/
theorem clauses_exact :
    (∀ text, ReadExactly τ text) ∧ ∀ s : Shape τ, s.Spelled → parse s.render = .ok s := by
  refine ⟨fun text => ⟨fun s => parse_eq_ok_iff, ?_, fun s hs => ?_⟩,
    fun s => parse_render_of_spelled⟩
  · simp only [← parse_eq_ok_iff]
    cases (parse text : Except ParseError (Shape τ)) with
    | error e => simp
    | ok s => simp
  · obtain ⟨ts, hts, hclause⟩ := parse_eq_ok_iff.mp hs
    exact parse_render_of_spelled (hclause.spelled hts.isIdentifier)

/-- A blank before a colon makes no difference, a semicolon after the last field does, and a type of a
field may have the name of a record. -/
theorem clauses_exact_separators :
    (∃ ts, Tokenized "?:\x7bsize :Integer\x7d".toList ts ∧
        ClauseRule ts (.record [⟨"size", "Integer"⟩] : Shape String)) ∧
      (¬ ∃ s : Shape String, ∃ ts,
        Tokenized "?:\x7bsize:Integer;\x7d".toList ts ∧ ClauseRule ts s) ∧
      (.record [⟨"size", "Integer"⟩, ⟨"unit", "Record"⟩] : Shape String).Spelled ∧
      parse (render (.record [⟨"size", "Integer"⟩, ⟨"unit", "Record"⟩] : Shape String)) =
        .ok (.record [⟨"size", "Integer"⟩, ⟨"unit", "Record"⟩] : Shape String) := by
  have hspelled : (.record [⟨"size", "Integer"⟩, ⟨"unit", "Record"⟩] : Shape String).Spelled :=
    Readable.spelled (by decide)
  refine ⟨((clauses_exact.1 _).accepted _).mp (by decide +kernel),
    (clauses_exact.1 _).refused.mp ⟨.unexpected .closing 16, by decide +kernel⟩, hspelled,
    clauses_exact.2 _ hspelled⟩

end Dcr.Shape
