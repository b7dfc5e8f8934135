import Dcr.Choreography
import Mathlib.Data.List.Nodup

/-! Identifiers and the pools they come from. An identifier is its kind's letter and a canonical
decimal, which determine one another; a pool is described by the set of numbers it can still hand
out, which it hands out smallest first. -/

namespace Dcr

open Text

/-! ## Numerals -/

namespace Text

theorem decimalValue?_of_isDigit {c : Char} (h : c.isDigit = true) :
    decimalValue? c = some (c.toNat - '0'.toNat) := by
  have hc : 48 ≤ c.toNat ∧ c.toNat ≤ 48 + 9 := by
    simp only [Char.isDigit, Bool.and_eq_true, decide_eq_true_eq] at h
    exact ⟨h.1, h.2⟩
  simp only [decimalValue?, zeros, List.find?_cons, decide_eq_true hc]
  rfl

theorem isDigit_of_ascii {c : Char} (h : c.isDigit = true) : isDigit c = true := by
  simp [isDigit, decimalValue?_of_isDigit h]

theorem number?_of_digits {cs : List Char} (hne : cs ≠ []) (h : ∀ c ∈ cs, c.isDigit = true) :
    number? cs = some (Nat.ofDigitChars 10 cs 0) := by
  have step : ∀ (cs : List Char) (n : Nat), (∀ c ∈ cs, c.isDigit = true) →
      cs.foldl (fun total c => do return 10 * (← total) + (← decimalValue? c)) (some n) =
        some (Nat.ofDigitChars 10 cs n) := by
    intro cs
    induction cs with
    | nil => intro n _; simp
    | cons c rest ih =>
      intro n h
      rw [Nat.ofDigitChars_cons, ← ih _ fun d hd => h d (List.mem_cons_of_mem _ hd)]
      simp [decimalValue?_of_isDigit (h c List.mem_cons_self)]
  cases cs with
  | nil => exact absurd rfl hne
  | cons c rest => exact step _ 0 h

/-- The digits of a numeral. -/
theorem toList_toString (n : Nat) : (toString n).toList = Nat.toDigits 10 n := by simp

theorem isDigit_of_mem_numeral {n : Nat} {c : Char} (h : c ∈ (toString n).toList) :
    c.isDigit = true := by
  rw [toList_toString] at h
  exact Nat.isDigit_of_mem_toDigits (by omega) (by omega) h

theorem numeral_ne_nil (n : Nat) : (toString n).toList ≠ [] := by
  rw [toList_toString]; exact Nat.toDigits_ne_nil

theorem number?_numeral (n : Nat) : number? (toString n).toList = some n := by
  rw [number?_of_digits (numeral_ne_nil n) fun _ => isDigit_of_mem_numeral, toList_toString,
    Nat.ofDigitChars_ten_toDigits]

theorem toString_injective {m n : Nat} (h : toString m = toString n) : m = n :=
  Option.some.inj (by rw [← number?_numeral m, h, number?_numeral])

end Text

/-! ## Identifiers -/

/-- The letter that the ids of a kind begin with. -/
def NodeKind.stem : NodeKind → String
  | event => "e"
  | nest => "n"
  | subprocess => "s"

/-- The id of a kind with a number. -/
def NodeKind.ident (kind : NodeKind) (n : Nat) : String := kind.stem ++ toString n

namespace NodeKind

theorem toList_ident (kind : NodeKind) (n : Nat) :
    (kind.ident n).toList = kind.stem.toList ++ (toString n).toList := by simp [ident]

theorem ident_injective {j k : NodeKind} {m n : Nat} (h : j.ident m = k.ident n) :
    j = k ∧ m = n := by
  have hl := congrArg String.toList h
  simp only [toList_ident] at hl
  have hk : j = k := by cases j <;> cases k <;> simp_all [stem]
  subst hk
  exact ⟨rfl, toString_injective (String.toList_inj.mp (List.append_cancel_left hl))⟩

theorem not_dash_mem_ident (kind : NodeKind) (n : Nat) : '-' ∉ (kind.ident n).toList := by
  rw [toList_ident, List.mem_append]
  intro hor
  rcases hor with h | h
  · cases kind <;> simp [stem] at h
  · exact absurd (isDigit_of_mem_numeral h) (by decide)

theorem ident_ne_empty (kind : NodeKind) (n : Nat) : kind.ident n ≠ "" := by
  intro h
  have hl := congrArg String.toList h
  cases kind <;> simp [ident, stem] at hl

end NodeKind

/-! ## Pools -/

namespace IdPool

variable {p : IdPool} {m n : Int}

/-- A number is available if it was taken back or not handed out yet. -/
def Available (p : IdPool) (n : Int) : Prop := n ∈ p.free ∨ p.next ≤ n

/-- The numbers taken back ascend, all of them below a counter that began at zero. -/
structure Sane (p : IdPool) : Prop where
  counter : 0 ≤ p.next
  ascending : p.free.Pairwise (· < ·)
  natural : ∀ n ∈ p.free, 0 ≤ n
  below : ∀ n ∈ p.free, n < p.next

theorem Sane.nonneg (h : p.Sane) (hn : p.Available n) : 0 ≤ n := by
  rcases hn with hn | hn
  · exact h.natural n hn
  · exact Int.le_trans h.counter hn

theorem sane_new (stem : String) : ({ stem } : IdPool).Sane := ⟨by simp, by simp, by simp, by simp⟩

/-- Allocation hands out the least available number and nothing else changes. -/
theorem Sane.allocate (h : p.Sane) :
    p.allocate.2.Sane ∧ p.allocate.2.stem = p.stem ∧ p.Available p.allocate.1 ∧
      (∀ n, p.Available n → p.allocate.1 ≤ n) ∧
      ∀ n, p.allocate.2.Available n ↔ p.Available n ∧ n ≠ p.allocate.1 := by
  obtain ⟨counter, ascending, natural, below⟩ := h
  unfold IdPool.allocate
  split
  · next first rest hf =>
    rw [hf] at ascending natural below
    obtain ⟨least, ascending⟩ := List.pairwise_cons.mp ascending
    have hfirst := below first List.mem_cons_self
    refine ⟨⟨counter, ascending, fun n hn => natural n (List.mem_cons_of_mem _ hn),
      fun n hn => below n (List.mem_cons_of_mem _ hn)⟩, rfl, by simp [Available, hf], ?_, ?_⟩
    · intro n hor
      rcases hor with hn | hn
      · rw [hf] at hn
        rcases List.mem_cons.mp hn with rfl | hn
        · exact Int.le_refl _
        · exact Int.le_of_lt (least n hn)
      · omega
    · intro n
      simp only [Available, hf, List.mem_cons]
      constructor
      · intro hor
        rcases hor with hn | hn
        · exact ⟨.inl (.inr hn), by have := least n hn; omega⟩
        · exact ⟨.inr hn, by omega⟩
      · intro hx
        rcases hx with ⟨(hn | hn) | hn, hne⟩
        · exact absurd hn hne
        · exact .inl hn
        · exact .inr hn
  · next hf =>
    refine ⟨⟨by show 0 ≤ p.next + 1; omega, by simp [hf], by simp [hf], by simp [hf]⟩, rfl,
      by simp [Available], by simp [Available, hf], fun n => ?_⟩
    simp only [Available, hf, List.not_mem_nil, false_or]
    omega

theorem mem_place {free : List Int} : m ∈ place n free ↔ m = n ∨ m ∈ free := by
  induction free with
  | nil => simp [place]
  | cons x rest ih =>
    unfold place
    split
    · simp
    · simp only [List.mem_cons, ih]; tauto

theorem ascending_place {free : List Int} (h : free.Pairwise (· < ·)) (hn : n ∉ free) :
    (place n free).Pairwise (· < ·) := by
  induction free with
  | nil => simp [place]
  | cons x rest ih =>
    obtain ⟨least, ascending⟩ := List.pairwise_cons.mp h
    have hx : n ≠ x := fun he => hn (he ▸ List.mem_cons_self)
    unfold place
    split
    · refine List.pairwise_cons.mpr ⟨fun y hy => ?_, h⟩
      rcases List.mem_cons.mp hy with rfl | hy
      · omega
      · have := least y hy; omega
    · refine List.pairwise_cons.mpr
        ⟨fun y hy => ?_, ih ascending fun hr => hn (List.mem_cons_of_mem _ hr)⟩
      rcases mem_place.mp hy with rfl | hy
      · omega
      · exact least y hy

/-- A number taken back is available again, and nothing else changes. -/
theorem Sane.release (h : p.Sane) (hn : 0 ≤ n) :
    (p.release n).Sane ∧ (p.release n).stem = p.stem ∧
      ∀ m, (p.release n).Available m ↔ p.Available m ∨ m = n := by
  unfold IdPool.release
  split
  · next hout =>
    refine ⟨h, rfl, fun m => ⟨.inl, ?_⟩⟩
    intro hor
    rcases hor with hm | rfl
    · exact hm
    · exact hout.symm
  · next hin =>
    simp only [not_or] at hin
    refine ⟨⟨h.counter, ascending_place h.ascending hin.2, fun m hm => ?_, fun m hm => ?_⟩, rfl,
      fun m => by simp only [Available, mem_place]; tauto⟩
    · rcases mem_place.mp hm with rfl | hm
      · exact hn
      · exact h.natural m hm
    · rcases mem_place.mp hm with rfl | hm
      · have := hin.1; show m < p.next; omega
      · exact h.below m hm

/-- The number in an identifier does not depend on what the pool can hand out. -/
theorem value?_of_stem {q : IdPool} (h : p.stem = q.stem) {ident : String} :
    p.value? ident = q.value? ident := by
  cases p
  cases h
  rfl

@[simp] theorem afterStem_append (stem digits : String) :
    afterStem stem (stem ++ digits) = digits := by
  rw [afterStem, String.toList_append, ← String.length_toList, List.drop_left, String.ofList_toList]

section Digits

variable {digits : String} (hne : digits.toList ≠ [])
  (hd : ∀ c ∈ digits.toList, c.isDigit = true)

include hne hd

theorem owns_append : p.owns (p.stem ++ digits) = true := by
  have hall : ∀ c ∈ digits.toList, Text.isDigit c = true := fun c hc => isDigit_of_ascii (hd c hc)
  simp only [owns, afterStem_append, List.all_eq_true.mpr hall, Bool.and_true, Bool.and_eq_true]
  refine ⟨?_, by simpa using hne⟩
  rw [String.isPrefixOf, String.startsWith_string_iff, String.toList_append]
  exact List.prefix_append _ _

theorem value?_append :
    p.value? (p.stem ++ digits) = some (Nat.ofDigitChars 10 digits.toList 0) := by
  rw [value?, if_pos (owns_append hne hd), afterStem_append, number?_of_digits hne hd]

/-- The number of an identifier is read if it does not take too many digits. -/
theorem number_append (hcount : digits.length ≤ Text.mostDigits) :
    p.number (p.stem ++ digits) = .ok (Nat.ofDigitChars 10 digits.toList 0) := by
  have hfew : (digits.toList.takeWhile fun c => (Text.decimalValue? c).isSome).length ≤
      Text.mostDigits :=
    Nat.le_trans (List.takeWhile_prefix _).length_le (by rwa [String.length_toList])
  rw [number, if_pos (owns_append hne hd)]
  simp only [afterStem_append, number?_of_digits hne hd]
  exact if_neg (Nat.not_lt.mpr hfew)

end Digits

theorem ofDigitChars_numeral (n : Nat) : Nat.ofDigitChars 10 (toString n).toList 0 = n := by
  rw [toList_toString, Nat.ofDigitChars_ten_toDigits]

theorem value?_ident {kind : NodeKind} (h : p.stem = kind.stem) (n : Nat) :
    p.value? (kind.ident n) = some n := by
  rw [NodeKind.ident, ← h, value?_append (numeral_ne_nil n) fun _ => isDigit_of_mem_numeral,
    ofDigitChars_numeral]

theorem number_ident {kind : NodeKind} (h : p.stem = kind.stem) {n : Nat}
    (hn : (toString n).length ≤ Text.mostDigits) :
    p.number (kind.ident n) = .ok n := by
  rw [NodeKind.ident, ← h, number_append (numeral_ne_nil n) (fun _ => isDigit_of_mem_numeral) hn,
    ofDigitChars_numeral]

theorem ident_natCast {kind : NodeKind} (h : p.stem = kind.stem) (n : Nat) :
    p.ident (n : Int) = kind.ident n := by
  rw [ident, NodeKind.ident, h]; rfl

theorem le_foldl_max (n : Int) (xs : List Int) : ∀ x ∈ n :: xs, x ≤ xs.foldl max n := by
  induction xs generalizing n with
  | nil =>
    intro x hx
    exact Int.le_of_eq (List.mem_singleton.mp hx)
  | cons y rest ih =>
    have hmax := ih (max n y) _ List.mem_cons_self
    intro x hx
    rw [List.foldl_cons]
    rcases List.mem_cons.mp hx with rfl | hx
    · omega
    · rcases List.mem_cons.mp hx with rfl | hx
      · omega
      · exact ih _ x (List.mem_cons_of_mem _ hx)

/-- In a pool made for some numbers exactly these are taken. -/
theorem sane_ofUsed (stem : String) {used : List Int} (h : ∀ n ∈ used, 0 ≤ n) :
    (ofUsed stem used).Sane ∧ ∀ n, (ofUsed stem used).Available n ↔ 0 ≤ n ∧ n ∉ used := by
  have hbelow : ∀ n ∈ used, n < (ofUsed stem used).next := by
    intro n hn
    cases used with
    | nil => cases hn
    | cons m rest =>
      have hmax := le_foldl_max m rest n hn
      show n < rest.foldl max m + 1
      omega
  have hcounter : 0 ≤ (ofUsed stem used).next := by
    cases used with
    | nil => exact Int.le_refl 0
    | cons m rest =>
      have hm := h m List.mem_cons_self
      have := hbelow m List.mem_cons_self
      omega
  have hfree : ∀ n, n ∈ (ofUsed stem used).free ↔ (0 ≤ n ∧ n < (ofUsed stem used).next) ∧
      n ∉ used := by
    intro n
    show n ∈ ((List.range (ofUsed stem used).next.toNat).map fun (n : Nat) => (n : Int)).filter _ ↔
      _
    simp only [List.mem_filter, List.mem_map, List.mem_range, Bool.not_eq_true',
      List.contains_eq_mem, decide_eq_false_iff_not]
    refine and_congr_left fun _ => ⟨?_, fun hn => ⟨n.toNat, by omega, by omega⟩⟩
    intro hx
    obtain ⟨m, hm, rfl⟩ := hx
    omega
  have hascending : (ofUsed stem used).free.Pairwise (· < ·) := by
    refine List.Pairwise.filter _ (List.pairwise_map.mpr ?_)
    exact List.pairwise_lt_range.imp fun hlt => Int.ofNat_lt.mpr hlt
  refine ⟨⟨hcounter, hascending, fun n hn => ((hfree n).mp hn).1.1,
    fun n hn => ((hfree n).mp hn).1.2⟩, fun n => ?_⟩
  rw [Available, hfree]
  constructor
  · intro hn
    rcases hn with ⟨⟨hn, _⟩, hout⟩ | hn
    · exact ⟨hn, hout⟩
    · exact ⟨Int.le_trans hcounter hn, fun hin => absurd (hbelow n hin) (Int.not_lt.mpr hn)⟩
  · intro ⟨hn, hout⟩
    by_cases hlt : n < (ofUsed stem used).next
    · exact .inl ⟨⟨hn, hlt⟩, hout⟩
    · exact .inr (Int.not_lt.mp hlt)

end IdPool

/-! ## The pools of a choreography -/

namespace IdPools

variable {p : IdPools} {kind j : NodeKind} {id : String} {m : Nat}

@[simp] theorem get_set (p : IdPools) (kind j : NodeKind) (pool : IdPool) :
    (p.set kind pool).get j = if j = kind then pool else p.get j := by
  cases kind <;> cases j <;> rfl

theorem get_allocate_of_ne {p : IdPools} {kind j : NodeKind} (h : j ≠ kind) :
    (p.allocate kind).2.get j = p.get j := by
  show (p.set kind _).get j = _
  rw [get_set, if_neg h]

theorem get_release_of_ne {p : IdPools} {kind j : NodeKind} {id : String} (h : j ≠ kind) :
    (p.release kind id).get j = p.get j := by
  unfold release
  split
  · rw [get_set, if_neg h]
  · rfl

/-- Every pool is in order and makes ids of its own kind. -/
def Sane (p : IdPools) : Prop := ∀ kind, (p.get kind).Sane ∧ (p.get kind).stem = kind.stem

/-- An id that some pool can still hand out. -/
def Free (p : IdPools) (id : String) : Prop :=
  ∃ (kind : NodeKind) (m : Nat), id = kind.ident m ∧ (p.get kind).Available m

theorem free_ident : p.Free (kind.ident m) ↔ (p.get kind).Available (m : Int) := by
  refine ⟨?_, fun h => ⟨kind, m, rfl, h⟩⟩
  intro ⟨j, n, h, ha⟩
  obtain ⟨rfl, rfl⟩ := NodeKind.ident_injective h
  exact ha

theorem Sane.set {pool : IdPool} (h : p.Sane) (hp : pool.Sane) (hs : pool.stem = kind.stem) :
    (p.set kind pool).Sane := by
  intro j
  rw [get_set]
  split
  · next he => exact ⟨hp, he ▸ hs⟩
  · exact h j

/-- A new id was the least free one of its kind, and it is the only one that is free no more. -/
theorem Sane.allocate (h : p.Sane) (kind : NodeKind) :
    ∃ m, (p.allocate kind).1 = kind.ident m ∧ p.Free (kind.ident m) ∧
      (∀ n, p.Free (kind.ident n) → m ≤ n) ∧ (p.allocate kind).2.Sane ∧
      ∀ id, (p.allocate kind).2.Free id ↔ p.Free id ∧ id ≠ kind.ident m := by
  obtain ⟨hs, hstem⟩ := h kind
  obtain ⟨hs', hstem', ha, hleast, hrest⟩ := hs.allocate
  obtain ⟨m, hm⟩ := Int.eq_ofNat_of_zero_le (hs.nonneg ha)
  refine ⟨m, ?_, free_ident.mpr (hm ▸ ha), fun n hn => ?_, h.set hs' (hstem'.trans hstem),
    fun id => ?_⟩
  · show (p.get kind).ident (p.get kind).allocate.1 = _
    rw [hm, IdPool.ident_natCast hstem]
  · have := hleast n (free_ident.mp hn)
    omega
  · have hone : ∀ j n, (p.allocate kind).2.Free (NodeKind.ident j n) ↔
        p.Free (j.ident n) ∧ j.ident n ≠ kind.ident m := by
      intro j n
      rw [free_ident, free_ident]
      show ((p.set kind (p.get kind).allocate.2).get j).Available _ ↔ _
      rw [get_set]
      split
      · next he =>
        rw [he, hrest, hm]
        refine and_congr_right fun _ => not_congr ⟨fun hn => ?_, fun hn => ?_⟩
        · rw [Int.ofNat.inj hn]
        · rw [(NodeKind.ident_injective hn).2]
      · next he => exact ⟨fun hn => ⟨hn, fun hi => he (NodeKind.ident_injective hi).1⟩, And.left⟩
    constructor
    · intro hx
      obtain ⟨j, n, rfl, hn⟩ := hx
      exact (hone j n).mp (free_ident.mpr hn)
    · intro hx
      obtain ⟨⟨j, n, rfl, hn⟩, hne⟩ := hx
      exact (hone j n).mpr ⟨free_ident.mpr hn, hne⟩

/-- An id that has been taken back is free, and nothing else changes. -/
theorem Sane.release (h : p.Sane) (kind : NodeKind) (m : Nat) :
    (p.release kind (kind.ident m)).Sane ∧
      ∀ id, (p.release kind (kind.ident m)).Free id ↔ p.Free id ∨ id = kind.ident m := by
  obtain ⟨hs, hstem⟩ := h kind
  obtain ⟨hs', hstem', hrest⟩ := hs.release (Int.natCast_nonneg m)
  rw [IdPools.release, IdPool.value?_ident hstem]
  refine ⟨h.set hs' (hstem'.trans hstem), fun id => ?_⟩
  have hone : ∀ j n, (p.set kind ((p.get kind).release m)).Free (NodeKind.ident j n) ↔
      p.Free (j.ident n) ∨ j.ident n = kind.ident m := by
    intro j n
    rw [free_ident, free_ident, get_set]
    split
    · next he =>
      rw [he, hrest]
      refine or_congr_right ⟨fun hn => ?_, fun hn => ?_⟩
      · rw [Int.ofNat.inj hn]
      · rw [(NodeKind.ident_injective hn).2]
    · next he =>
        exact ⟨.inl, fun hn => hn.resolve_right fun hi => he (NodeKind.ident_injective hi).1⟩
  constructor
  · intro hx
    obtain ⟨j, n, rfl, hn⟩ := hx
    exact (hone j n).mp (free_ident.mpr hn)
  · intro hor
    rcases hor with ⟨j, n, rfl, hn⟩ | rfl
    · exact (hone j n).mpr (.inl (free_ident.mpr hn))
    · exact (hone kind m).mpr (.inr rfl)

theorem sane_new : ({} : IdPools).Sane := fun kind => by
  cases kind <;> exact ⟨IdPool.sane_new _, rfl⟩

end IdPools

end Dcr
