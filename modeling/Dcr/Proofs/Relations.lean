import Dcr.Proofs.Nodes

/-! The store of relations. Ids are made of a mark and two ends, and tell relations apart because no
node id has a dash in it. `Linked` is what every choreography keeps: canonical ids, ends that are
there, and one relation of a type between two nodes. -/

namespace Dcr

variable {τ : Type} [FreeText τ] {c : Choreography τ} {r s : Relation τ}

/-! ## Ids -/

/-- A text without a dash. -/
def Dashless (s : String) : Prop := '-' ∉ s.toList

instance : DecidablePred Dashless := fun s => inferInstanceAs (Decidable ('-' ∉ s.toList))

theorem Dashless.split {a b : List Char} (ha : '-' ∉ a) (hb : '-' ∉ b) {x y : List Char}
    (h : a ++ '-' :: x = b ++ '-' :: y) : a = b ∧ x = y := by
  induction a generalizing b with
  | nil =>
    cases b with
    | nil => simpa using h
    | cons d b => simp at h; exact absurd h.1 (by simp at hb; tauto)
  | cons d a ih =>
    cases b with
    | nil => simp at h; exact absurd h.1.symm (by simp at ha; tauto)
    | cons e b =>
      simp only [List.cons_append, List.cons.injEq] at h
      simp only [List.mem_cons, not_or] at ha hb
      obtain ⟨hab, hxy⟩ := ih ha.2 hb.2 h.2
      exact ⟨by rw [h.1, hab], hxy⟩

theorem RelationType.initial_injective {t u : RelationType} (h : t.initial = u.initial) :
    t = u := by
  cases t <;> cases u <;> simp [initial] at h ⊢

namespace Relation

variable {a b a' b' : String} {t t' : RelationType} {g g' : Bool}

/-- The two ends with a dash between them. -/
theorem ends_injective (ha : Dashless a) (ha' : Dashless a')
    (h : a.toList ++ '-' :: b.toList = a'.toList ++ '-' :: b'.toList) : a = a' ∧ b = b' := by
  obtain ⟨h1, h2⟩ := Dashless.split ha ha' h
  exact ⟨String.toList_inj.mp h1, String.toList_inj.mp h2⟩

theorem toList_idFor : (idFor a b t g).toList =
    if g then 'x' :: '-' :: (a.toList ++ '-' :: b.toList)
    else if a = b ∧ t = .exclusion then 's' :: 'e' :: '-' :: a.toList
    else t.initial.toList ++ '-' :: (a.toList ++ '-' :: b.toList) := by
  unfold idFor
  split
  · simp
  · split <;> simp

/-- Without dashes in them, the ends and the type of a relation can be read off its id. -/
theorem idFor_injective (ha : Dashless a) (ha' : Dashless a')
    (h : idFor a b t g = idFor a' b' t' g') :
    g = g' ∧ a = a' ∧ b = b' ∧ (g = false → t = t') := by
  have hl := congrArg String.toList h
  rw [toList_idFor, toList_idFor] at hl
  cases g <;> cases g'
  · simp only [Bool.false_eq_true, if_false] at hl
    by_cases hs : a = b ∧ t = .exclusion <;> by_cases hs' : a' = b' ∧ t' = .exclusion
    · rw [if_pos hs, if_pos hs'] at hl
      have he : a = a' := String.toList_inj.mp (by simpa using hl)
      exact ⟨rfl, he, by rw [← hs.1, ← hs'.1, he], fun _ => hs.2.trans hs'.2.symm⟩
    · rw [if_pos hs, if_neg hs'] at hl
      cases t' <;> simp [RelationType.initial] at hl
    · rw [if_neg hs, if_pos hs'] at hl
      cases t <;> simp [RelationType.initial] at hl
    · rw [if_neg hs, if_neg hs'] at hl
      have hd : ∀ u : RelationType, '-' ∉ u.initial.toList := by
        intro u; cases u <;> simp [RelationType.initial]
      obtain ⟨hi, he⟩ := Dashless.split (hd t) (hd t') hl
      obtain ⟨h1, h2⟩ := ends_injective ha ha' he
      exact ⟨rfl, h1, h2, fun _ => RelationType.initial_injective (String.toList_inj.mp hi)⟩
  · simp only [Bool.false_eq_true, if_false, if_true] at hl
    split at hl
    · simp at hl
    · cases t <;> simp [RelationType.initial] at hl
  · simp only [Bool.false_eq_true, if_false, if_true] at hl
    split at hl
    · simp at hl
    · cases t' <;> simp [RelationType.initial] at hl
  · simp only [if_true, List.cons.injEq, true_and] at hl
    obtain ⟨h1, h2⟩ := ends_injective ha ha' hl
    exact ⟨rfl, h1, h2, fun hg => absurd hg (by simp)⟩

/-- The id of a relation tells whether it was generated. -/
theorem isGeneratedId_idFor : isGeneratedId (idFor a b t g) = g := by
  have hx : isGeneratedId (idFor a b t g) = true ↔ ['x', '-'] <+: (idFor a b t g).toList := by
    rw [isGeneratedId, String.isPrefixOf, String.startsWith_string_iff]
    rfl
  rw [Bool.eq_iff_iff, hx, toList_idFor]
  cases g with
  | true => simp
  | false =>
    simp only [Bool.false_eq_true, if_false, iff_false]
    split
    · simp
    · cases t <;> simp [RelationType.initial]

theorem joins_iff : r.joins a b t = true ↔ r.pair = (a, b) ∧ r.type = t := by
  simp [joins, pair, and_assoc]

theorem touches_iff : r.touches a = true ↔ r.source = a ∨ r.target = a := by simp [touches]

end Relation

/-! ## What the store keeps -/

namespace Choreography

/-- Every relation stands under the id of its type and ends, its ends are there, no other relation
of its type joins them, and it is an exclusion if it was generated. -/
structure Linked (c : Choreography τ) : Prop where
  canonical : ∀ r ∈ c.relations.entries, r.id = Relation.idFor r.source r.target r.type r.generated
  ends : ∀ r ∈ c.relations.entries, c.hasNode r.source = true ∧ c.hasNode r.target = true
  single : ∀ r ∈ c.relations.entries, ∀ s ∈ c.relations.entries, r.pair = s.pair →
    r.type = s.type → r = s
  generated : ∀ r ∈ c.relations.entries, r.generated = true → r.type = .exclusion

end Choreography

end Dcr
