import Dcr.Proofs.Generation
import Dcr.Proofs.Twins

/-! Replies. A call replies with an answer and some notices; editors of twins that show the same
code and the same run reply the same to every call, in any session. -/

namespace Dcr

open Logged (Tally)

variable {τ : Type} [FreeText τ]

/-! ## Code -/

namespace Choreography

variable {c d : Choreography τ} {q : IdPools}

@[simp] theorem bodyWithin_withIds (depth : Nat) (scope : String) :
    (c.withIds q).bodyWithin depth scope = c.bodyWithin depth scope := by
  induction depth generalizing scope with
  | zero => rfl
  | succ depth ih =>
    have hpart : (c.withIds q).part scope = c.part scope := rfl
    rw [bodyWithin_succ, bodyWithin_succ, hpart]
    simp only [ih]

@[simp] theorem process_withIds (levels : Nat) (active : List String) (indent scope : String) :
    (c.withIds q).process levels active indent scope = c.process levels active indent scope := by
  have hbody : ∀ scope, (c.withIds q).body scope = c.body scope :=
    fun scope => bodyWithin_withIds _ _
  have hrelation : ∀ indent r, (c.withIds q).relationPiece indent r = c.relationPiece indent r :=
    fun _ _ => rfl
  have hspawn : ∀ indent r inner, (c.withIds q).spawnPieces indent r inner =
      c.spawnPieces indent r inner :=
    fun _ _ _ => rfl
  have hscopes : (c.withIds q).scopes = c.scopes := rfl
  induction levels generalizing active indent scope with
  | zero => rfl
  | succ levels ih =>
    rw [process, process]
    simp only [hbody, hrelation, hspawn, hscopes, ih]

theorem generate_withIds : (c.withIds q).generate = c.generate := by
  have hpieces : (c.withIds q).pieces = c.pieces := by
    have hmisplaced : (c.withIds q).misplaced? = c.misplaced? := rfl
    simp only [pieces, hmisplaced, process_withIds, containers_withIds]
  have hpreamble : (c.withIds q).preamble = c.preamble := rfl
  simp only [generate, hpieces, hpreamble]

theorem Twins.generate (h : Twins c d) : d.generate = c.generate := by
  rw [h.rest, generate_withIds]

end Choreography

/-! ## Runs -/

namespace Run

open Choreography (withIds)

/-- Runs at the same point, of choreographies that differ in their pools only. -/
def Twins (r s : Run τ) : Prop := ∃ q, s = { r with model := r.model.withIds q }

theorem twins_start {c d : Choreography τ} (h : c.Twins d) : Twins (start c) (start d) := by
  obtain ⟨q, _, rfl⟩ := Choreography.twins_iff.mp h
  exact ⟨q, rfl⟩

theorem Twins.startNotices {r s : Run τ} (h : Twins r s) : s.startNotices = r.startNotices := by
  obtain ⟨q, rfl⟩ := h
  rfl

theorem updateMarking_withIds (c : Choreography τ) (q : IdPools) (id : String)
    (f : Marking → Marking) :
    (c.withIds q).updateMarking id f = (c.updateMarking id f).withIds q := by
  unfold Choreography.updateMarking
  rw [Choreography.withIds_ite]
  rfl

theorem deliver_withIds (c : Choreography τ) (q : IdPools) (rs : List (Relation τ)) :
    deliver (c.withIds q) rs = ((deliver c rs).1.withIds q, (deliver c rs).2) := by
  induction rs generalizing c with
  | nil => rfl
  | cons r rest ih =>
    by_cases ht : c.hasNode r.target = true
    · have hq : (c.withIds q).hasNode r.target = true := ht
      simp only [deliver, if_pos ht, if_pos hq]
      cases r.type.effect? with
      | none => exact ih c
      | some effect => simp only [updateMarking_withIds, ih]
    · have hq : ¬ (c.withIds q).hasNode r.target = true := ht
      simp only [deliver, if_neg ht, if_neg hq]

/-- A run does the same on twins. -/
theorem tally_fire {r s : Run τ} (h : Twins r s) (id : String) :
    Tally (fun a b => Twins a.1 b.1 ∧ b.2 = a.2) (r.fire id) (s.fire id) := by
  obtain ⟨model, history⟩ := r
  obtain ⟨q, rfl⟩ := h
  have houtgoing : (model.withIds q).outgoing id = model.outgoing id := rfl
  unfold fire
  simp only [Choreography.events_withIds, houtgoing, deliver_withIds]
  cases model.events.get? id with
  | none => exact .pure ⟨⟨q, rfl⟩, rfl⟩
  | some e =>
    refine .ite (fun _ => ?_) fun _ => ⟨⟨⟨q, rfl⟩, rfl⟩, rfl⟩
    rcases deliver model (model.outgoing id) with ⟨m, v⟩
    cases v with
    | done effects => exact ⟨⟨⟨q, rfl⟩, rfl⟩, rfl⟩
    | refused => exact .pure ⟨⟨q, rfl⟩, rfl⟩
    | stopped o => exact .pure ⟨⟨q, rfl⟩, rfl⟩

end Run

/-! ## Calls -/

namespace Editor

variable {e f : Editor τ}

/-- Editors of twins with the same code and with runs that are twins too. -/
structure Twins (e f : Editor τ) : Prop where
  choreography : e.choreography.Twins f.choreography
  run : Option.Rel Run.Twins e.run f.run
  code : f.code = e.code

/-- What a call answers. -/
inductive Reply (τ : Type) [FreeText τ] where
  | edit (verdict : Verdict (Answer τ))
  | run (verdict : Verdict Unit)
  | ended
  | code (result : Except Obstacle GeneratedCode)
  | updated (ids : List String)

/-- A call with its answer. -/
def reply [DecidableEq τ] (e : Editor τ) : Call τ → Logged (Editor τ × Reply τ)
  | .edit edit => (fun a => (a.1, .edit a.2)) <$> e.edit edit
  | .start => (fun a => (a.1, .run a.2)) <$> e.start
  | .stop => (fun a => (a, .ended)) <$> e.stop
  | .fire id => (fun a => (a.1, .run a.2)) <$> e.fire id
  | .generate => (fun a => (a.1, .code a.2)) <$> e.generate
  | .applyRecords records => (fun a => (a.1, .updated a.2)) <$> e.applyRecords records

theorem value_reply [DecidableEq τ] (e : Editor τ) (call : Call τ) :
    (e.reply call).value.1 = (e.call call).value ∧ (e.reply call).log = (e.call call).log := by
  cases call <;> simp [reply, Editor.call]

/-- The answers and the notices of a session. -/
def replies [DecidableEq τ] : Editor τ → List (Call τ) → List (Reply τ × List Notice)
  | _, [] => []
  | e, call :: rest =>
    ((e.reply call).value.2, (e.reply call).log) :: replies (e.call call).value rest

/-- Editors and answers of calls that did the same. -/
def Agree {α : Type} (a b : Editor τ × α) : Prop := Twins a.1 b.1 ∧ b.2 = a.2

theorem Tally.reply {α : Type} {x y : Logged (Editor τ × α)} (h : Tally Agree x y)
    (f : α → Reply τ) :
    Tally Agree ((fun a : Editor τ × α => (a.1, f a.2)) <$> x)
    ((fun a : Editor τ × α => (a.1, f a.2)) <$> y) :=
  ⟨⟨h.value.1, congrArg f h.value.2⟩, by simp [h.log]⟩

/-- Of twins either none has a run or both have one. -/
theorem Twins.runs (h : Twins e f) :
    (e.run = none ∧ f.run = none) ∨ ∃ r s, e.run = some r ∧ f.run = some s ∧ Run.Twins r s := by
  have hrun := h.run
  cases he : e.run <;> cases hf : f.run <;> rw [he, hf] at hrun
  · exact .inl ⟨rfl, rfl⟩
  · cases hrun
  · cases hrun
  · cases hrun with
    | some hrs => exact .inr ⟨_, _, rfl, rfl, hrs⟩

theorem Twins.running (h : Twins e f) : f.run.isSome = e.run.isSome := by
  rcases h.runs with ⟨he, hf⟩ | ⟨r, s, he, hf, _⟩
  · rw [he, hf]
  · rw [he, hf]
    rfl

theorem tally_edit (h : Twins e f) (edit : Edit τ) : Tally Agree (e.edit edit) (f.edit edit) := by
  unfold Editor.edit
  rw [h.choreography.absent?, h.running]
  cases edit.absent? e.choreography with
  | some id => exact .pure ⟨h, rfl⟩
  | none =>
    refine .ite (fun _ => ⟨⟨h, rfl⟩, rfl⟩) fun _ => ?_
    exact (Choreography.tally_perform h.choreography edit).bind fun a b hab =>
      .pure ⟨⟨hab.1, h.run, h.code⟩, hab.2⟩

theorem tally_start (h : Twins e f) : Tally Agree e.start f.start := by
  unfold Editor.start
  rcases h.runs with ⟨he, hf⟩ | ⟨r, s, he, hf, _⟩
  · have hfits : Run.fits f.choreography = Run.fits e.choreography := by
      rw [h.choreography.rest]
      rfl
    rw [he, hf]
    have hruns := Run.twins_start h.choreography
    simp only [hfits]
    refine .ite (fun _ => ⟨⟨⟨h.choreography, .some hruns, h.code⟩, rfl⟩, ?_⟩) fun _ =>
      .pure ⟨h, rfl⟩
    exact hruns.startNotices
  · rw [he, hf]
    exact .pure ⟨h, rfl⟩

theorem tally_stop (h : Twins e f) : Tally Twins e.stop f.stop := by
  unfold Editor.stop
  rcases h.runs with ⟨he, hf⟩ | ⟨r, s, he, hf, _⟩
  · rw [he, hf]
    exact .pure h
  · rw [he, hf]
    exact ⟨⟨h.choreography, .none, h.code⟩, rfl⟩

theorem tally_fire (h : Twins e f) (id : String) : Tally Agree (e.fire id) (f.fire id) := by
  unfold Editor.fire
  rcases h.runs with ⟨he, hf⟩ | ⟨r, s, he, hf, hrs⟩
  · rw [he, hf]
    exact .pure ⟨h, rfl⟩
  · rw [he, hf]
    exact (Run.tally_fire hrs id).bind fun a b hab =>
      .pure ⟨⟨h.choreography, .some hab.1, h.code⟩, hab.2⟩

theorem tally_generate (h : Twins e f) : Tally Agree e.generate f.generate := by
  unfold Editor.generate
  rw [h.choreography.generate]
  refine Tally.bind (R := Eq) ⟨rfl, rfl⟩ fun a b hab => ?_
  subst hab
  cases a with
  | ok code => exact .pure ⟨⟨h.choreography, h.run, rfl⟩, rfl⟩
  | error o => exact .pure ⟨h, rfl⟩

theorem tally_applyRecords [DecidableEq τ] (h : Twins e f) (records : Rehydration.Records τ) :
    Tally Agree (e.applyRecords records) (f.applyRecords records) := by
  induction records generalizing e f with
  | nil => exact .pure ⟨h, rfl⟩
  | cons record rest ih =>
    obtain ⟨id, content⟩ := record
    unfold Editor.applyRecords
    rw [h.choreography.events]
    cases e.choreography.events.get? id with
    | none => exact .tell (ih h)
    | some event =>
      refine .ite (fun _ => ih h) fun _ => ?_
      refine Tally.bindAnswer (T := Twins) (tally_edit h (.updateEvent id content))
        fun a b v hab => ?_
      refine Tally.bindAnswer (T := Twins) (ih hab) fun a b ids hab => ?_
      cases v with
      | done u => exact .pure ⟨hab, rfl⟩
      | refused => exact .pure ⟨hab, rfl⟩
      | stopped o => exact .pure ⟨hab, rfl⟩

/-- Twins reply the same to a call, and stay twins. -/
theorem tally_reply [DecidableEq τ] (h : Twins e f) (call : Call τ) :
    Tally Agree (e.reply call) (f.reply call) := by
  cases call with
  | edit edit => exact Tally.reply (tally_edit h edit) .edit
  | start => exact Tally.reply (tally_start h) .run
  | stop =>
    obtain ⟨htwins, hlog⟩ := tally_stop h
    exact ⟨⟨htwins, rfl⟩, by simp [reply, hlog]⟩
  | fire id => exact Tally.reply (tally_fire h id) .run
  | generate => exact Tally.reply (tally_generate h) .code
  | applyRecords records => exact Tally.reply (tally_applyRecords h records) .updated

/-- Twins reply the same in every session, and are twins after it. -/
theorem replies_of_twins [DecidableEq τ] (h : Twins e f) (calls : List (Call τ)) :
    f.replies calls = e.replies calls ∧ Twins (e.after calls) (f.after calls) := by
  induction calls generalizing e f with
  | nil => exact ⟨rfl, h⟩
  | cons call rest ih =>
    obtain ⟨⟨htwins, hanswer⟩, hlog⟩ := tally_reply h call
    rw [(value_reply e call).1, (value_reply f call).1] at htwins
    obtain ⟨hreplies, hafter⟩ := ih htwins
    refine ⟨?_, hafter⟩
    rw [replies, replies, hanswer, hlog, hreplies]

end Editor

end Dcr
