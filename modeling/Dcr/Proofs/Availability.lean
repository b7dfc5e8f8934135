import Dcr.Proofs.Identifiers
import Mathlib.Order.Lattice.Nat

/-! A pool is a set of available numbers. Whatever is asked of a pool, in whatever order, it answers
as the set of all numbers it can still hand out, with the least of them for the next id; the numbers
taken back and the counter are one way to keep that set. -/

namespace Dcr

open Text

/-- What a pool may be asked. -/
inductive PoolRequest where
  | allocate
  | release (ident : String)
  deriving DecidableEq, Repr

/-- A new id, if one was asked for, or why an id could not be taken back. -/
abbrev PoolReply := Except IdError (Option String)

/-- The replies to some requests, one after the other, and what is left in the end. -/
def served {σ : Type} (serve : σ → PoolRequest → PoolReply × σ) (s : σ) :
    List PoolRequest → List PoolReply × σ
  | [] => ([], s)
  | request :: rest =>
    let (reply, s) := serve s request
    let (replies, s) := served serve s rest
    (reply :: replies, s)

namespace IdPool

variable {p : IdPool}

/-- One request to a pool. An id without a number is taken back by no pool. -/
def serve (p : IdPool) : PoolRequest → PoolReply × IdPool
  | .allocate => (.ok (some (p.ident p.allocate.1)), p.allocate.2)
  | .release ident =>
    match p.number ident with
    | .ok n => (.ok none, p.release n)
    | .error e => (.error e, p)

/-- The number of an identifier does not depend on what the pool can hand out. -/
theorem number_of_stem {q : IdPool} (h : p.stem = q.stem) (ident : String) :
    p.number ident = q.number ident := by
  cases p
  cases h
  rfl

/-- Leading zeros make no difference to a number. -/
theorem ofDigitChars_replicate_zero (zeros : Nat) (cs : List Char) :
    Nat.ofDigitChars 10 (List.replicate zeros '0' ++ cs) 0 = Nat.ofDigitChars 10 cs 0 := by
  induction zeros with
  | zero => rfl
  | succ zeros ih => rw [List.replicate_succ, List.cons_append, Nat.ofDigitChars_cons, ← ih]; rfl

theorem number_padded (p : IdPool) {zeros n : Nat}
    (h : zeros + (toString n).length ≤ mostDigits) :
    p.number (p.stem ++ (String.ofList (List.replicate zeros '0') ++ toString n)) = .ok n := by
  rw [number_append, String.toList_append, String.toList_ofList, ofDigitChars_replicate_zero,
    ofDigitChars_numeral]
  · simp
  · intro c hc
    rw [String.toList_append, String.toList_ofList, List.mem_append] at hc
    rcases hc with hc | hc
    · rw [List.eq_of_mem_replicate hc]; rfl
    · exact isDigit_of_mem_numeral hc
  · simpa using h

end IdPool

/-! ## The set of numbers -/

/-- The numbers that can be handed out after a stem. -/
structure Supply where
  stem : String
  numbers : Set Nat

namespace Supply

/-- The numbers that are not in use. -/
def unused (stem : String) (used : List Nat) : Supply := { stem, numbers := {n | n ∉ used} }

/-- One request to a set of numbers: the least one leaves it, and a number that is taken back is in
it. -/
noncomputable def serve (s : Supply) : PoolRequest → PoolReply × Supply
  | .allocate =>
    (.ok (some (s.stem ++ toString (sInf s.numbers))),
      { s with numbers := s.numbers \ {sInf s.numbers} })
  | .release ident =>
    match IdPool.number { stem := s.stem } ident with
    | .ok n => (.ok none, { s with numbers := insert n s.numbers })
    | .error e => (.error e, s)

end Supply

/-! ## Pools that keep a set -/

namespace IdPool

variable {p : IdPool} {s : Supply}

/-- A pool in order that can hand out just the numbers of a set. -/
structure Keeps (p : IdPool) (s : Supply) : Prop where
  sane : p.Sane
  stem : p.stem = s.stem
  available : ∀ n : Nat, p.Available n ↔ n ∈ s.numbers

theorem keeps_ofUsed (stem : String) (used : List Nat) :
    (ofUsed stem (used.map Int.ofNat)).Keeps (Supply.unused stem used) := by
  have hnatural : ∀ n ∈ used.map Int.ofNat, 0 ≤ n := by
    intro n hn
    obtain ⟨m, _, rfl⟩ := List.mem_map.mp hn
    exact Int.natCast_nonneg m
  obtain ⟨sane, available⟩ := sane_ofUsed stem hnatural
  refine ⟨sane, rfl, fun n => (available n).trans ?_⟩
  have hmem : (n : Int) ∈ used.map Int.ofNat ↔ n ∈ used :=
    List.mem_map_of_injective fun _ _ => Int.ofNat.inj
  exact (and_iff_right (Int.natCast_nonneg n)).trans (not_congr hmem)

/-- The number handed out is the least one of the set. -/
theorem Keeps.allocate_eq (h : p.Keeps s) : p.allocate.1 = (sInf s.numbers : Nat) := by
  obtain ⟨_, _, ha, hleast, _⟩ := h.sane.allocate
  obtain ⟨m, hm⟩ := Int.eq_ofNat_of_zero_le (h.sane.nonneg ha)
  rw [hm] at ha hleast ⊢
  have hmem : m ∈ s.numbers := (h.available m).mp ha
  have hinf : sInf s.numbers ∈ s.numbers := Nat.sInf_mem ⟨m, hmem⟩
  have hle := hleast _ ((h.available _).mpr hinf)
  have hge := Nat.sInf_le hmem
  omega

theorem Keeps.serve (h : p.Keeps s) (request : PoolRequest) :
    (p.serve request).1 = (s.serve request).1 ∧ (p.serve request).2.Keeps (s.serve request).2 := by
  cases request with
  | allocate =>
    obtain ⟨sane, stem, _, _, hrest⟩ := h.sane.allocate
    refine ⟨?_, sane, stem.trans h.stem, fun n => ?_⟩
    · show Except.ok (some (p.stem ++ toString p.allocate.1)) = _
      rw [h.allocate_eq, h.stem]
      rfl
    · show p.allocate.2.Available n ↔ n ∈ s.numbers \ {sInf s.numbers}
      rw [hrest, h.allocate_eq, h.available, Int.natCast_inj.ne]
      rfl
  | release ident =>
    simp only [IdPool.serve, Supply.serve, number_of_stem (q := { stem := s.stem }) h.stem]
    cases IdPool.number { stem := s.stem } ident with
    | error e => exact ⟨rfl, h⟩
    | ok n =>
      obtain ⟨sane, stem, hrest⟩ := h.sane.release (Int.natCast_nonneg n)
      refine ⟨rfl, sane, stem.trans h.stem, fun m => ?_⟩
      show (p.release n).Available m ↔ m ∈ insert n s.numbers
      rw [hrest, h.available, Int.natCast_inj, Set.mem_insert_iff, or_comm]

/-- As long as it is asked, the pool replies as the set, and keeps what is left of the set. -/
theorem Keeps.served (h : p.Keeps s) (requests : List PoolRequest) :
    (served IdPool.serve p requests).1 = (served Supply.serve s requests).1 ∧
      (served IdPool.serve p requests).2.Keeps (served Supply.serve s requests).2 := by
  induction requests generalizing p s with
  | nil => exact ⟨rfl, h⟩
  | cons request rest ih =>
    obtain ⟨hreply, hkeeps⟩ := h.serve request
    obtain ⟨hreplies, hend⟩ := ih hkeeps
    exact ⟨congrArg₂ List.cons hreply hreplies, hend⟩

/-- What a pool lists as coming next: the numbers of the set below its counter, each one once and in
ascending order, and then the counter, from which on every number is in the set. -/
structure Lists (p : IdPool) (numbers : Set Nat) : Prop where
  pending : ∃ (below : List Nat) (counter : Nat), p.next = counter ∧
    p.pending = (below ++ [counter]).map Int.ofNat ∧ (below ++ [counter]).Pairwise (· < ·) ∧
    (∀ n, n ∈ below ↔ n ∈ numbers ∧ n < counter) ∧ ∀ n, counter ≤ n → n ∈ numbers

theorem Sane.ascending_pending (h : p.Sane) : p.pending.Pairwise (· < ·) := by
  refine List.pairwise_append.mpr ⟨h.ascending, List.pairwise_singleton _ _, fun n hn m hm => ?_⟩
  rw [List.mem_singleton.mp hm]
  exact h.below n hn

theorem Keeps.lists (h : p.Keeps s) : p.Lists s.numbers := by
  obtain ⟨counter, hcounter⟩ := Int.eq_ofNat_of_zero_le h.sane.counter
  obtain ⟨below, hfree⟩ : ∃ below : List Nat, below.map Int.ofNat = p.free := by
    refine ⟨p.free.map Int.toNat, ?_⟩
    rw [List.map_map]
    exact (List.map_congr_left fun n hn => Int.toNat_of_nonneg (h.sane.natural n hn)).trans
      (List.map_id _)
  have hpending : p.pending = (below ++ [counter]).map Int.ofNat := by
    rw [List.map_append, hfree, pending, hcounter]
    rfl
  have hmem : ∀ n : Nat, (n : Int) ∈ p.free ↔ n ∈ below := by
    intro n
    rw [← hfree]
    exact List.mem_map_of_injective fun _ _ => Int.ofNat.inj
  have havailable : ∀ n : Nat, n ∈ s.numbers ↔ n ∈ below ∨ counter ≤ n := by
    intro n
    rw [← h.available, Available, hmem, hcounter, Int.ofNat_le]
  refine ⟨below, counter, hcounter, hpending, ?_, fun n => ?_, fun n hn =>
    (havailable n).mpr (.inr hn)⟩
  · have hascending := h.sane.ascending_pending
    rw [hpending, List.pairwise_map] at hascending
    exact hascending.imp Int.ofNat_lt.mp
  · have hless : n ∈ below → n < counter := fun hn => by
      have := h.sane.below n ((hmem n).mpr hn)
      omega
    rw [havailable]
    constructor
    · intro hn
      exact ⟨.inl hn, hless hn⟩
    · intro hn
      exact hn.1.resolve_right (Nat.not_le.mpr hn.2)

/-- How a pool does as a set of numbers. The set never runs out, and a number may be taken back in any
of its spellings. -/
structure SameAs (p : IdPool) (s : Supply) (requests : List PoolRequest) : Prop where
  replies : (served serve p requests).1 = (served Supply.serve s requests).1
  pending : (served serve p requests).2.Lists (served Supply.serve s requests).2.numbers
  more : (served Supply.serve s requests).2.numbers.Nonempty
  padded : ∀ zeros n, zeros + (toString n).length ≤ mostDigits →
    p.number (s.stem ++ (String.ofList (List.replicate zeros '0') ++ toString n)) = .ok n

/-- A pool made for some numbers in use is the set of all the others, whatever it is asked: the least
one is handed out and gone, and what is taken back is there again. -/
theorem sameAs_ofUsed (stem : String) (used : List Nat) (requests : List PoolRequest) :
    (ofUsed stem (used.map Int.ofNat)).SameAs (Supply.unused stem used) requests := by
  have hkeeps := keeps_ofUsed stem used
  obtain ⟨hreplies, hend⟩ := hkeeps.served requests
  obtain ⟨_, counter, _, _, _, _, hmore⟩ := hend.lists.pending
  refine ⟨hreplies, hend.lists, ⟨counter, hmore counter (Nat.le_refl _)⟩, fun zeros n hn => ?_⟩
  rw [← hkeeps.stem]
  exact number_padded _ hn

/-- An id in use comes back with leading zeros, then a second time; one was never handed out, and one
is foreign. -/
theorem sameAs_ofUsed_gaps :
    (served Supply.serve (Supply.unused "e" [0, 2, 2, 5]) [.allocate, .release "e0005",
        .release "e5", .release "e9", .release "n1", .allocate, .allocate, .allocate, .allocate]).1 =
      [.ok (some "e1"), .ok none, .ok none, .ok none, .error (.foreign "n1" "e"), .ok (some "e3"),
        .ok (some "e4"), .ok (some "e5"), .ok (some "e6")] := by
  rw [← (sameAs_ofUsed "e" [0, 2, 2, 5] _).replies]
  decide +kernel

end IdPool

end Dcr
