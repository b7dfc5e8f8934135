import Dcr.Shape.Reading

/-! Value clauses read back. A clause is described by its tokens and their grammar: scanning a rendered
clause gives them whatever the positions, and the transitions of `Progress` take what the grammar
derives to the shape it stands for. -/

namespace Dcr.Shape

open FreeText (ofText shown)

variable {τ : Type} [FreeText τ] {cs : List Char} {tokens : List Token} {c : Char}

/-! ## Tokens of a text -/

/-- The text is made of these tokens. -/
def Scans (cs : List Char) (tokens : List Token) : Prop :=
  ∀ position, ∃ ls, scanFrom position cs = ⟨ls, none⟩ ∧ ls.map Lexeme.token = tokens

theorem Scans.nil : Scans [] [] := fun position => ⟨[], by rw [scanFrom], rfl⟩

theorem Scans.space (hc : c = ' ' ∨ c = '\t') (h : Scans cs tokens) : Scans (c :: cs) tokens := by
  intro position
  obtain ⟨ls, hs, hl⟩ := h (position + 1)
  refine ⟨ls, ?_, hl⟩
  rw [scanFrom, if_pos hc, hs]

theorem Scans.punctuation {t : Token} (hc : c ≠ ' ' ∧ c ≠ '\t') (ht : Token.punctuation? c = some t)
    (h : Scans cs tokens) : Scans (c :: cs) (t :: tokens) := by
  intro position
  obtain ⟨ls, hs, hl⟩ := h (position + 1)
  refine ⟨⟨t, position⟩ :: ls, ?_, by rw [List.map_cons, hl]⟩
  rw [scanFrom, if_neg (by simp [hc]), ht]
  simp only [hs, Scan.cons]

/-- An ASCII name: a letter or an underscore, and then letters, digits and underscores. -/
def isIdentifier (s : String) : Bool :=
  match s.toList with
  | [] => false
  | c :: rest => Token.beginsName c && rest.all Token.continuesName

theorem not_punctuation_of_beginsName (hc : Token.beginsName c = true) :
    (c ≠ ' ' ∧ c ≠ '\t') ∧ Token.punctuation? c = none := by
  have hne : ∀ d : Char, Token.beginsName d = false → c ≠ d := by
    intro d hd he
    rw [he, hd] at hc
    cases hc
  refine ⟨⟨hne ' ' (by decide), hne '\t' (by decide)⟩, ?_⟩
  simp only [Token.punctuation?, if_neg (hne '?' (by decide)), if_neg (hne ':' (by decide)),
    if_neg (hne '\x7b' (by decide)), if_neg (hne '\x7d' (by decide)), if_neg (hne ';' (by decide))]

theorem Scans.name {s : String} (hs : isIdentifier s = true)
    (hc : ∀ c, cs.head? = some c → Token.continuesName c = false) (h : Scans cs tokens) :
    Scans (s.toList ++ cs) (.name s :: tokens) := by
  intro position
  unfold isIdentifier at hs
  cases hl : s.toList with
  | nil => simp [hl] at hs
  | cons c rest =>
    simp only [hl, Bool.and_eq_true, List.all_eq_true] at hs
    obtain ⟨hsep, hnone⟩ := not_punctuation_of_beginsName hs.1
    have hstop : cs.takeWhile Token.continuesName = [] ∧ cs.dropWhile Token.continuesName = cs := by
      cases cs with
      | nil => exact ⟨rfl, rfl⟩
      | cons d tail =>
        have hd := hc d rfl
        exact ⟨List.takeWhile_cons_of_neg (by simp [hd]), List.dropWhile_cons_of_neg (by simp [hd])⟩
    have htake : (rest ++ cs).takeWhile Token.continuesName = rest := by
      rw [List.takeWhile_append_of_pos hs.2, hstop.1, List.append_nil]
    have hdrop : (rest ++ cs).dropWhile Token.continuesName = cs := by
      rw [List.dropWhile_append_of_pos hs.2, hstop.2]
    obtain ⟨ls, hscan, hls⟩ := h (position + 1 + rest.length)
    refine ⟨⟨.name s, position⟩ :: ls, ?_, by rw [List.map_cons, hls]⟩
    rw [List.cons_append, scanFrom, if_neg (by simp [hsep]), hnone]
    simp only [hs.1, if_true, htake, hdrop, hscan, Scan.cons, ← hl, String.ofList_toList]

/-! ## The grammar of a clause -/

/-- A field is a name, a colon and a type. -/
inductive FieldRule : List Token → Field τ → Prop
  | field (name type : String) :
    FieldRule [.name name, .colon, .name type] ⟨ofText name, ofText type⟩

/-- One field, or more with a semicolon between any two of them. -/
inductive FieldsRule : List Token → List (Field τ) → Prop
  | one {ts f} : FieldRule ts f → FieldsRule ts [f]
  | more {ts us fs f} :
    FieldsRule ts fs → FieldRule us f → FieldsRule (ts ++ .semicolon :: us) (fs ++ [f])

/-- A question mark alone or with the name of a type, or the fields of a record in braces. -/
inductive ClauseRule : List Token → Shape τ → Prop
  | unit : ClauseRule [.question] .unit
  | typed {name s} (type : s.typeName = ofText name) (plain : s.fields = []) :
    ClauseRule [.question, .colon, .name name] s
  | empty : ClauseRule [.question, .colon, .opening, .closing] (.record [])
  | record {ts fields} : FieldsRule ts fields →
    ClauseRule (.question :: .colon :: .opening :: (ts ++ [.closing])) (.record fields)

/-- A field may come first as well. -/
theorem FieldsRule.cons {ts us : List Token} {f : Field τ} {fs : List (Field τ)}
    (hf : FieldRule ts f) (h : FieldsRule us fs) :
    FieldsRule (ts ++ .semicolon :: us) (f :: fs) := by
  induction h with
  | one hg => exact .more (.one hf) hg
  | @more _ _ fs g _ hg ih =>
    have h := ih.more hg
    rwa [List.append_assoc, List.cons_append] at h

/-! ## Reading tokens -/

theorem ofType_typeName (s : Shape τ) : ofType s.typeName s.fields = s := by
  cases s with
  | unit => simp [ofType, typeName]
  | named type plain => simp [ofType, typeName, plain]
  | record fields => simp [ofType, typeName, Shape.fields]

namespace Progress

/-- A clause is read if its tokens lead to where it may end and no illegal character comes. -/
theorem run_eq_ok_iff {illegal : Option (Char × Nat)} {p : Progress τ} {s : Shape τ}
    {ls : List Lexeme} :
    run illegal p ls = .ok s ↔ illegal = none ∧
      ∃ q, (ls.map Lexeme.token).foldlM next? p = some q ∧ q.shape? = some s := by
  induction ls generalizing p with
  | nil =>
    cases illegal with
    | some _ => simp [run]
    | none => cases hs : p.shape? <;> simp [run, hs]
  | cons l rest ih =>
    rw [List.map_cons, List.foldlM_cons, run]
    cases p.next? l.token with
    | none => simp
    | some q => exact ih

end Progress

theorem FieldRule.foldlM {f : Field τ} (h : FieldRule tokens f) :
    tokens.foldlM Progress.next? .opened = some (.field [f]) ∧
      ∀ done, tokens.foldlM Progress.next? (.separator done) = some (.field (done ++ [f])) := by
  cases h
  exact ⟨rfl, fun _ => rfl⟩

theorem FieldsRule.foldlM {fields : List (Field τ)} (h : FieldsRule tokens fields) :
    tokens.foldlM Progress.next? .opened = some (.field fields) := by
  induction h with
  | one hf => exact hf.foldlM.1
  | @more _ _ fs _ _ hf ih =>
    rw [List.foldlM_append, ih]
    exact hf.foldlM.2 fs

theorem ClauseRule.foldlM {s : Shape τ} (h : ClauseRule tokens s) :
    ∃ q, tokens.foldlM Progress.next? .start = some q ∧ q.shape? = some s := by
  cases h with
  | unit => exact ⟨.question, rfl, rfl⟩
  | @typed name s type plain =>
    refine ⟨.typed name, rfl, ?_⟩
    rw [Progress.shape?, ← type, ← plain, ofType_typeName]
  | empty => exact ⟨.closed [], rfl, rfl⟩
  | @record ts fields hf =>
    refine ⟨.closed fields, ?_, rfl⟩
    show (ts ++ [Token.closing]).foldlM Progress.next? .opened = _
    rw [List.foldlM_append, hf.foldlM]
    rfl

theorem parse_of_scans {text : String} {s : Shape τ} (h : Scans text.toList tokens)
    (hs : ClauseRule tokens s) : parse text = .ok s := by
  obtain ⟨ls, hscan, rfl⟩ := h 0
  rw [parse, scan, hscan]
  exact Progress.run_eq_ok_iff.mpr ⟨rfl, hs.foldlM⟩

/-! ## Rendered clauses -/

/-- A free text that is an ASCII name. -/
def IsName (x : τ) : Prop := ∃ name, x = ofText name ∧ isIdentifier name = true

/-- All names in a shape are ASCII names. -/
def Spelled : Shape τ → Prop
  | unit => True
  | named type _ => IsName type
  | record fields => ∀ f ∈ fields, IsName f.var ∧ IsName f.type

theorem scans_field {f : Field τ} (hf : IsName f.var ∧ IsName f.type)
    (hc : ∀ c, cs.head? = some c → Token.continuesName c = false) (h : Scans cs tokens) :
    ∃ ts, FieldRule ts f ∧ Scans (f.render.toList ++ cs) (ts ++ tokens) := by
  obtain ⟨var, type⟩ := f
  obtain ⟨⟨name, rfl, hname⟩, ⟨type, rfl, htype⟩⟩ := hf
  have hl : (Field.render (⟨ofText name, ofText type⟩ : Field τ)).toList ++ cs =
      name.toList ++ ':' :: (type.toList ++ cs) := by simp [Field.render]
  refine ⟨_, .field name type, ?_⟩
  rw [hl]
  refine Scans.name hname ?_ (Scans.punctuation (by decide) rfl (Scans.name htype hc h))
  intro c he
  cases he
  decide

theorem scans_fields {f : Field τ} {fields : List (Field τ)}
    (hf : ∀ g ∈ f :: fields, IsName g.var ∧ IsName g.type) :
    ∃ ts, FieldsRule ts (f :: fields) ∧
      Scans (("; ".intercalate ((f :: fields).map Field.render)).toList ++ ['\x7d'])
        (ts ++ [.closing]) := by
  have hend : Scans ['\x7d'] [.closing] := Scans.punctuation (by decide) rfl Scans.nil
  induction fields generalizing f with
  | nil =>
    rw [List.map_singleton, String.intercalate_singleton]
    obtain ⟨ts, hts, hscan⟩ := scans_field (hf f List.mem_cons_self) (by simp; decide) hend
    exact ⟨ts, .one hts, hscan⟩
  | cons g rest ih =>
    obtain ⟨us, hus, hrest⟩ := ih fun h hh => hf h (List.mem_cons_of_mem _ hh)
    have hsep : Scans (';' :: ' ' :: (("; ".intercalate ((g :: rest).map Field.render)).toList ++
        ['\x7d'])) (.semicolon :: (us ++ [.closing])) :=
      Scans.punctuation (by decide) rfl (Scans.space (.inl rfl) hrest)
    obtain ⟨ts, hts, hscan⟩ := scans_field (hf f List.mem_cons_self) (by simp; decide) hsep
    refine ⟨_, .cons hts hus, ?_⟩
    rw [List.map_cons, List.map_cons, String.intercalate_cons_cons]
    simpa using hscan

/-- A shape is read back from its clause if all its names are ASCII names. -/
theorem parse_render_of_spelled {s : Shape τ} (h : s.Spelled) : parse s.render = .ok s := by
  have hopen : ∀ {cs tokens}, Scans cs tokens →
      Scans ('?' :: ':' :: cs) (.question :: .colon :: tokens) :=
    fun hs => Scans.punctuation (by decide) rfl (Scans.punctuation (by decide) rfl hs)
  cases s with
  | unit =>
    have hl : (render (.unit : Shape τ)).toList = ['?'] := by simp [render]
    exact parse_of_scans (hl ▸ Scans.punctuation (by decide) rfl Scans.nil) .unit
  | named type plain =>
    obtain ⟨name, rfl, hname⟩ := h
    have hl : (render (.named (ofText name : τ) plain)).toList = '?' :: ':' :: (name.toList ++ []) := by
      simp [render]
    refine parse_of_scans ?_ (.typed rfl rfl)
    rw [hl]
    exact hopen (Scans.name hname (fun c he => by cases he) Scans.nil)
  | record fields =>
    have hl : (render (.record fields)).toList = '?' :: ':' :: '\x7b' ::
        (("; ".intercalate (fields.map Field.render)).toList ++ ['\x7d']) := by
      simp [render]
    have hbrace : ∀ {cs tokens}, Scans cs tokens → Scans ('\x7b' :: cs) (.opening :: tokens) :=
      Scans.punctuation (by decide) rfl
    cases fields with
    | nil =>
      exact parse_of_scans (hl ▸ hopen (hbrace (Scans.punctuation (by decide) rfl Scans.nil))) .empty
    | cons f rest =>
      obtain ⟨ts, hts, hscan⟩ := scans_fields h
      exact parse_of_scans (hl ▸ hopen (hbrace hscan)) (.record hts)

/-- The names in a shape are ASCII names. -/
def Readable : Shape String → Prop
  | unit => True
  | named type _ => isIdentifier type = true
  | record fields => ∀ f ∈ fields, isIdentifier f.var = true ∧ isIdentifier f.type = true

instance : DecidablePred Readable
  | unit => .isTrue trivial
  | named type _ => inferInstanceAs (Decidable (isIdentifier type = true))
  | record fields =>
    inferInstanceAs
    (Decidable (∀ f ∈ fields, isIdentifier f.var = true ∧ isIdentifier f.type = true))

theorem Readable.spelled {s : Shape String} (h : s.Readable) : s.Spelled := by
  cases s with
  | unit => trivial
  | named type _ => exact ⟨type, rfl, h⟩
  | record fields => exact fun f hf => ⟨⟨f.var, rfl, (h f hf).1⟩, ⟨f.type, rfl, (h f hf).2⟩⟩

/-- A readable shape is read back from its clause. -/
theorem parse_render {s : Shape String} (h : s.Readable) : parse s.render = .ok s :=
  parse_render_of_spelled h.spelled

end Dcr.Shape
