import Dcr.Proofs.Bodies
import Mathlib.Data.List.Perm.Basic

/-! What generated code covers. A path of spawns starts at the top level and passes no process
twice. Code shows the last process of each such path once, one tab deeper for each spawn, and
nothing else. The levels that it may open are enough, because the processes on a path are distinct
scopes. -/

namespace Dcr

namespace Choreography

variable {τ : Type} [FreeText τ] {c : Choreography τ} {E : Set String} {D : Debt} {s : String}
  {r : Relation τ} {p q : List (Relation τ)}

/-! ## Paths of spawns -/

/-- The process at the end of a path; the last spawn comes first. -/
def pathEnd : List (Relation τ) → String
  | [] => topLevel
  | r :: _ => r.target

/-- The processes on a path but for its end. -/
def passed : List (Relation τ) → List String
  | [] => []
  | _ :: p => pathEnd p :: passed p

/-- The processes on a path. -/
def visited (p : List (Relation τ)) : List String := pathEnd p :: passed p

/-- A path of spawns from the top level: each one leads on from the process around its source, and
no process is visited twice. -/
inductive SpawnPath (c : Choreography τ) : List (Relation τ) → Prop
  | start : SpawnPath c []
  | next {r : Relation τ} {p : List (Relation τ)} : SpawnPath c p → r ∈ c.relations.entries →
    r.type = .spawn → c.processOf (c.sourceParent r) = pathEnd p → r.target ∉ visited p →
    SpawnPath c (r :: p)

/-- A process to which some series of spawns leads, whatever it visits. -/
inductive Spawned (c : Choreography τ) : String → Prop
  | top : Spawned c topLevel
  | spawn {r : Relation τ} : r ∈ c.relations.entries → r.type = .spawn →
    Spawned c (c.processOf (c.sourceParent r)) → Spawned c r.target

theorem length_visited (p : List (Relation τ)) : (visited p).length = p.length + 1 := by
  induction p with
  | nil => rfl
  | cons r p ih => exact congrArg (· + 1) ih

theorem exists_suffix_of_mem_visited (h : s ∈ visited p) : ∃ q, q <:+ p ∧ pathEnd q = s := by
  induction p with
  | nil => exact ⟨[], List.suffix_rfl, (List.mem_singleton.mp h).symm⟩
  | cons r p ih =>
    rcases List.mem_cons.mp h with rfl | h
    · exact ⟨r :: p, List.suffix_rfl, rfl⟩
    · obtain ⟨q, hq, he⟩ := ih h
      exact ⟨q, hq.trans (List.suffix_cons r p), he⟩

theorem SpawnPath.of_suffix (h : c.SpawnPath p) (hq : q <:+ p) : c.SpawnPath q := by
  induction h with
  | start => rw [List.suffix_nil.mp hq]; exact .start
  | next hp hr hs hsource ht ih =>
    rcases List.suffix_cons_iff.mp hq with rfl | hq
    · exact .next hp hr hs hsource ht
    · exact ih hq

theorem SpawnPath.nodup_visited (h : c.SpawnPath p) : (visited p).Nodup := by
  induction h with
  | start => exact List.nodup_singleton _
  | next _ _ _ _ ht ih => exact List.nodup_cons.mpr ⟨ht, ih⟩

/-- Only the path without a spawn ends at the top level. -/
theorem SpawnPath.pathEnd_eq_topLevel_iff (h : c.SpawnPath p) : pathEnd p = topLevel ↔ p = [] := by
  have htop : ∀ p : List (Relation τ), topLevel ∈ visited p := fun p => by
    induction p with
    | nil => exact List.mem_singleton.mpr rfl
    | cons r p ih => exact List.mem_cons_of_mem _ ih
  refine ⟨fun he => ?_, fun he => he ▸ rfl⟩
  cases h with
  | start => rfl
  | @next r p _ _ _ _ ht =>
    have he : r.target = topLevel := he
    exact absurd (htop p) (he ▸ ht)

/-- Where a series of spawns leads, a path leads: it is cut short where the series comes back. -/
theorem spawned_iff : c.Spawned s ↔ ∃ p, c.SpawnPath p ∧ pathEnd p = s := by
  constructor
  · intro h
    induction h with
    | top => exact ⟨[], .start, rfl⟩
    | @spawn r hr hs _ ih =>
      obtain ⟨p, hp, he⟩ := ih
      by_cases ht : r.target ∈ visited p
      · obtain ⟨q, hq, hend⟩ := exists_suffix_of_mem_visited ht
        exact ⟨q, hp.of_suffix hq, hend⟩
      · exact ⟨r :: p, .next hp hr hs he.symm ht, rfl⟩
  · intro ⟨p, hp, he⟩
    subst he
    induction hp with
    | start => exact .top
    | next _ hr hs hsource _ ih => exact .spawn hr hs (hsource ▸ ih)

/-! ## Paths of an orderly choreography -/

theorem Orderly.mem_scopes_of_spawn (h : c.Orderly E D) (hD : D.astray = ∅)
    (hr : r ∈ c.relations.entries) (hs : r.type = .spawn) :
    c.form? r.target = some .subprocess ∧ r.target ∈ c.scopes := by
  have hf := h.owned.landing r hr hs (by rw [hD]; exact Set.notMem_empty _)
  obtain ⟨x, hx, hid⟩ := Store.contains_iff.mp (contains_iff_form?.mpr (by rw [hf]; rfl))
  exact ⟨hf, List.mem_cons_of_mem _ (List.mem_map.mpr ⟨x, hx, hid⟩)⟩

theorem Orderly.isProcess_pathEnd (h : c.Orderly E D) (hD : D.astray = ∅) (hp : c.SpawnPath p) :
    c.IsProcess (pathEnd p) := by
  cases hp with
  | start => exact .inl rfl
  | next _ hr hs _ _ => exact .inr (h.mem_scopes_of_spawn hD hr hs).1

/-- A path has no more spawns than there are containers. -/
theorem Orderly.length_path_le (h : c.Orderly E D) (hD : D.astray = ∅) (hp : c.SpawnPath p) :
    p.length ≤ c.containers.size := by
  have hsub : visited p ⊆ c.scopes := by
    induction hp with
    | start => exact List.cons_subset_cons _ (List.nil_subset _)
    | next _ hr hs _ _ ih => exact List.cons_subset.mpr ⟨(h.mem_scopes_of_spawn hD hr hs).2, ih⟩
  have hle := (List.subperm_of_subset hp.nodup_visited hsub).length_le
  rw [length_visited] at hle
  exact Nat.le_of_succ_le_succ (hle.trans_eq (congrArg (· + 1) (List.length_map _)))

/-- The paths that go on from a path, each one before those that go on from it, in the order in
which code shows what is at their ends. -/
def pathsFrom (c : Choreography τ) : Nat → List (Relation τ) → List (List (Relation τ))
  | 0, _ => []
  | levels + 1, p => p :: (c.body (pathEnd p)).relations.flatMap fun r =>
      if r.type = .spawn ∧ r.target ∉ visited p then c.pathsFrom levels (r :: p) else []

/-- All paths of spawns. -/
def paths (c : Choreography τ) : List (List (Relation τ)) := c.pathsFrom (c.containers.size + 1) []

theorem suffix_of_mem_pathsFrom {levels : Nat} (hq : q ∈ c.pathsFrom levels p) : p <:+ q := by
  induction levels generalizing p with
  | zero => cases hq
  | succ levels ih =>
    rcases List.mem_cons.mp hq with rfl | hq
    · exact List.suffix_rfl
    · obtain ⟨r, _, hq⟩ := List.mem_flatMap.mp hq
      split at hq
      · exact (List.suffix_cons r p).trans (ih hq)
      · cases hq

section Orderly

variable (h : c.Orderly E D) (hD : D.unfit = ∅ ∧ D.astray = ∅)
include h hD

/-- The relations in the body at the end of a path are those from a source with that process around
it. -/
theorem Orderly.mem_relations_pathEnd (hp : c.SpawnPath p) :
    r ∈ (c.body (pathEnd p)).relations ↔
      r ∈ c.relations.entries ∧ c.processOf (c.sourceParent r) = pathEnd p := by
  rw [(h.relations_body hD.1 (h.isProcess_pathEnd hD.2 hp)).mem_iff, List.mem_filter,
    decide_eq_true_iff]

/-- What holds of a path as soon as it holds of those one spawn longer holds of all paths. The
levels that are left and the spawns that were used make one more than there are containers, so that
a path is never without a level. -/
theorem Orderly.path_rule {P : Nat → List (Relation τ) → Prop}
    (hstep : ∀ levels p, c.SpawnPath p → (∀ r ∈ (c.body (pathEnd p)).relations, r.type = .spawn →
      r.target ∉ visited p → c.SpawnPath (r :: p) ∧ P levels (r :: p)) → P (levels + 1) p)
    {levels : Nat} (hp : c.SpawnPath p) (hl : levels + p.length = c.containers.size + 1) :
    P levels p := by
  induction levels generalizing p with
  | zero =>
    have := h.length_path_le hD.2 hp
    omega
  | succ levels ih =>
    refine hstep levels p hp fun r hr hs ht => ?_
    obtain ⟨hmem, hsource⟩ := (h.mem_relations_pathEnd hD hp).mp hr
    have hnext : c.SpawnPath (r :: p) := .next hp hmem hs hsource ht
    exact ⟨hnext, ih hnext (by rw [List.length_cons]; omega)⟩

theorem Orderly.mem_pathsFrom {levels : Nat} (hp : c.SpawnPath p)
    (hl : levels + p.length = c.containers.size + 1) :
    ∀ q, q ∈ c.pathsFrom levels p ↔ c.SpawnPath q ∧ p <:+ q := by
  refine h.path_rule hD (P := fun levels p => ∀ q, q ∈ c.pathsFrom levels p ↔
    c.SpawnPath q ∧ p <:+ q) (fun levels p hp hnext q => ?_) hp hl
  rw [pathsFrom, List.mem_cons, List.mem_flatMap]
  constructor
  · intro hor
    rcases hor with rfl | ⟨r, hr, hq⟩
    · exact ⟨hp, List.suffix_rfl⟩
    · split at hq
      · next hopen =>
        obtain ⟨hq, hsuf⟩ := ((hnext r hr hopen.1 hopen.2).2 q).mp hq
        exact ⟨hq, (List.suffix_cons r p).trans hsuf⟩
      · cases hq
  · intro ⟨hq, hsuf⟩
    obtain ⟨t, rfl⟩ := hsuf
    rcases List.eq_nil_or_concat' t with rfl | ⟨t, r, rfl⟩
    · exact .inl rfl
    · right
      have hsuf : r :: p <:+ t ++ [r] ++ p := ⟨t, by simp⟩
      have hrp := hq.of_suffix hsuf
      cases hrp with
      | next _ hmem hs hsource ht =>
        have hr := (h.mem_relations_pathEnd hD hp).mpr ⟨hmem, hsource⟩
        refine ⟨r, hr, ?_⟩
        rw [if_pos ⟨hs, ht⟩]
        exact ((hnext r hr hs ht).2 _).mpr ⟨hq, hsuf⟩

theorem Orderly.nodup_pathsFrom {levels : Nat} (hp : c.SpawnPath p)
    (hl : levels + p.length = c.containers.size + 1) : (c.pathsFrom levels p).Nodup := by
  refine h.path_rule hD (P := fun levels p => (c.pathsFrom levels p).Nodup)
    (fun levels p hp hnext => ?_) hp hl
  have hsuffix : ∀ r q, q ∈ (if r.type = .spawn ∧ r.target ∉ visited p then
      c.pathsFrom levels (r :: p) else []) → r :: p <:+ q := by
    intro r q hq
    split at hq
    · exact suffix_of_mem_pathsFrom hq
    · cases hq
  refine List.nodup_cons.mpr ⟨fun hmem => ?_, List.nodup_flatMap.mpr ⟨fun r hr => ?_, ?_⟩⟩
  · obtain ⟨r, _, hmem⟩ := List.mem_flatMap.mp hmem
    have hle := (hsuffix r p hmem).length_le
    rw [List.length_cons] at hle
    omega
  · split
    · next hopen => exact (hnext r hr hopen.1 hopen.2).2
    · exact List.nodup_nil
  · have hnd : (c.body (pathEnd p)).relations.Nodup :=
      (h.relations_body hD.1 (h.isProcess_pathEnd hD.2 hp)).nodup_iff.mpr
        (c.relations.nodup_entries.filter _)
    refine hnd.imp fun {r t} hne q hqr hqt => hne ?_
    -- two paths of one length that end another one are the same
    have hsuf := List.suffix_of_suffix_length_le (hsuffix r q hqr) (hsuffix t q hqt) (Nat.le_refl _)
    exact (List.cons.inj (hsuf.eq_of_length rfl)).1

theorem Orderly.mem_paths : q ∈ c.paths ↔ c.SpawnPath q :=
  (h.mem_pathsFrom hD .start rfl q).trans (and_iff_left List.nil_suffix)

theorem Orderly.nodup_paths : c.paths.Nodup := h.nodup_pathsFrom hD .start rfl

end Orderly

/-! ## Lines -/

section Texts

variable {c : Choreography String} {p : List (Relation String)}

/-- One tab for each spawn of a path. -/
def indentOf : List (Relation String) → String
  | [] => ""
  | _ :: p => indentOf p ++ "\t"

/-- The line of an event. -/
def eventText (indent : String) (e : Event String) : String :=
  indent ++ String.ofList (EventLine.written e.content)

/-- The label of a node. -/
def labelText (c : Choreography String) (id : String) : String :=
  ((c.node? id).map Node.label).getD ""

/-- The line of a relation other than a spawn. -/
def relationText (c : Choreography String) (indent : String) (r : Relation String) : String :=
  indent ++ c.labelText r.source ++ " " ++ r.type.arrow ++ " " ++ c.labelText r.target
    ++ r.guardText

/-- The line that opens a spawn. -/
def openingText (c : Choreography String) (indent : String) (r : Relation String) : String :=
  indent ++ c.labelText r.source ++ " " ++ r.type.arrow ++ " \x7b"

/-- The line that closes a spawn. -/
def closingText (indent : String) : String := indent ++ "\x7d"

/-- The lines of a relation: one line, or a spawn around some lines. -/
def entryLines (c : Choreography String) (indent : String) (r : Relation String)
    (inner : List String) : List String :=
  if r.type = .spawn then c.openingText indent r :: inner ++ [closingText indent]
  else [c.relationText indent r]

/-- What the rendering at the end of a path has by itself, with its spawns left empty. -/
def ownLines (c : Choreography String) (p : List (Relation String)) : List String :=
  (c.body (pathEnd p)).events.map (eventText (indentOf p)) ++ (indentOf p ++ terminator) ::
    (c.body (pathEnd p)).relations.flatMap fun r => c.entryLines (indentOf p) r []

/-- The event lines of the rendering at the end of a path, under the ids of the events. -/
def ownEvents (c : Choreography String) (p : List (Relation String)) : List (String × String) :=
  (c.body (pathEnd p)).events.map fun e => (e.id, eventText (indentOf p) e)

/-- The pieces of the process at the end of a path. -/
def piecesAt (c : Choreography String) (p : List (Relation String)) : List Piece :=
  c.process (c.containers.size + 1 - p.length) (passed p) (indentOf p) (pathEnd p)

/-- The lines of the process at the end of a path. -/
def linesAt (c : Choreography String) (p : List (Relation String)) : List String :=
  (c.piecesAt p).filterMap Piece.line?

theorem Orderly.relationPiece {r : Relation String} (h : c.Orderly E D)
    (hr : r ∈ c.relations.entries) (indent : String) :
    c.relationPiece indent r = .text (c.relationText indent r) := by
  obtain ⟨hs, ht⟩ := h.complete.ends r hr
  obtain ⟨n, hn⟩ := Option.isSome_iff_exists.mp hs
  obtain ⟨m, hm⟩ := Option.isSome_iff_exists.mp ht
  simp only [Choreography.relationPiece, label, relationText, labelText, hn, hm]
  rfl

theorem Orderly.spawnPieces {r : Relation String} (h : c.Orderly E D)
    (hr : r ∈ c.relations.entries) (indent : String) (inner : List Piece) :
    c.spawnPieces indent r inner =
      .text (c.openingText indent r) :: inner ++ [.text (closingText indent)] := by
  obtain ⟨n, hn⟩ := Option.isSome_iff_exists.mp (h.complete.ends r hr).1
  simp only [Choreography.spawnPieces, label, openingText, labelText, hn]
  rfl

/-- The pieces at the end of a path: what is right there, and the pieces one spawn further on. -/
theorem Orderly.piecesAt (h : c.Orderly E D) (hD : D.unfit = ∅ ∧ D.astray = ∅)
    (hp : c.SpawnPath p) : c.piecesAt p =
      (c.body (pathEnd p)).events.map
          (fun e => .event e.id (eventText (indentOf p) e)) ++
        .text (indentOf p ++ terminator) :: (c.body (pathEnd p)).relations.flatMap fun r =>
          if r.type = .spawn then
            .text (c.openingText (indentOf p) r) ::
              (if r.target ∈ visited p then [.recursion r.target r.source]
                else c.piecesAt (r :: p)) ++ [.text (closingText (indentOf p))]
          else [.text (c.relationText (indentOf p) r)] := by
  have hle := h.length_path_le hD.2 hp
  obtain ⟨levels, hlevels⟩ : ∃ levels, c.containers.size + 1 - p.length = levels + 1 :=
    ⟨c.containers.size - p.length, by omega⟩
  rw [Choreography.piecesAt, hlevels, process]
  refine congrArg₂ _ (List.map_congr_left fun e _ => eventPiece_text _ e) (congrArg _ ?_)
  refine List.flatMap_congr fun r hr => ?_
  have hmem := ((h.mem_relations_pathEnd hD hp).mp hr).1
  by_cases hs : r.type = .spawn
  · have hscope := (h.mem_scopes_of_spawn hD.2 hmem hs).2
    have hnext : c.piecesAt (r :: p) =
        c.process levels (visited p) (indentOf p ++ "\t") r.target := by
      rw [Choreography.piecesAt, List.length_cons, show c.containers.size + 1 - (p.length + 1) =
        levels by omega]
      rfl
    have hloop : (r.target = pathEnd p ∨ r.target ∈ passed p) ↔ r.target ∈ visited p :=
      List.mem_cons.symm
    simp only [if_pos hs, h.spawnPieces hmem, hloop, if_pos hscope, hnext]
    rfl
  · simp only [if_neg hs, h.relationPiece hmem]

/-- The lines at the end of a path: a line for each event, the terminator and the lines of each
relation, where a spawn is around the lines one spawn further on or left empty. -/
theorem Orderly.linesAt (h : c.Orderly E D) (hD : D.unfit = ∅ ∧ D.astray = ∅)
    (hp : c.SpawnPath p) : c.linesAt p =
      (c.body (pathEnd p)).events.map (eventText (indentOf p)) ++
        (indentOf p ++ terminator) :: (c.body (pathEnd p)).relations.flatMap fun r =>
          c.entryLines (indentOf p) r
            (if r.target ∈ visited p then [] else c.linesAt (r :: p)) := by
  rw [Choreography.linesAt, h.piecesAt hD hp, List.filterMap_append, List.filterMap_map,
    List.filterMap_cons_some (by rfl), List.filterMap_flatMap]
  refine congrArg₂ _ (List.filterMap_eq_map' ▸ rfl) (congrArg _ ?_)
  refine List.flatMap_congr fun r _ => ?_
  unfold entryLines
  split
  · rw [List.filterMap_append, List.filterMap_cons_some (by rfl)]
    split <;> rfl
  · rfl

theorem entryLines_perm (indent : String) (r : Relation String) (hs : r.type = .spawn)
    (inner : List String) :
    (c.entryLines indent r inner).Perm (c.entryLines indent r [] ++ inner) := by
  rw [entryLines, entryLines, if_pos hs, if_pos hs]
  exact List.perm_append_comm.cons _

/-- The lines of a rendering are, in some order, what it and the renderings inside it have by
themselves. -/
theorem Orderly.linesAt_perm (h : c.Orderly E D) (hD : D.unfit = ∅ ∧ D.astray = ∅) {levels : Nat}
    (hp : c.SpawnPath p) (hl : levels + p.length = c.containers.size + 1) :
    (c.linesAt p).Perm ((c.pathsFrom levels p).flatMap c.ownLines) := by
  refine h.path_rule hD (P := fun levels p =>
    (c.linesAt p).Perm ((c.pathsFrom levels p).flatMap c.ownLines)) (fun levels p hp hnext => ?_)
    hp hl
  rw [h.linesAt hD hp, pathsFrom, List.flatMap_cons, ownLines, List.flatMap_assoc,
    List.append_assoc, List.cons_append]
  refine ((List.Perm.flatMap_left _ fun r hr => ?_).trans
    (List.flatMap_append_perm _ _ _).symm).cons _ |>.append_left _
  by_cases hs : r.type = .spawn
  · refine (entryLines_perm _ r hs _).trans (List.Perm.append_left _ ?_)
    by_cases ht : r.target ∈ visited p
    · rw [if_pos ht, if_neg fun hx => hx.2 ht]
      exact .refl _
    · rw [if_neg ht, if_pos ⟨hs, ht⟩]
      exact (hnext r hr hs ht).2
  · rw [entryLines, entryLines, if_neg hs, if_neg hs, if_neg fun hx => hs hx.1]
    exact .refl _

/-- The event lines of a rendering are those of it and of the renderings inside it. -/
theorem Orderly.eventsAt (h : c.Orderly E D) (hD : D.unfit = ∅ ∧ D.astray = ∅) {levels : Nat}
    (hp : c.SpawnPath p) (hl : levels + p.length = c.containers.size + 1) :
    (c.piecesAt p).filterMap Piece.eventLine? = (c.pathsFrom levels p).flatMap c.ownEvents := by
  refine h.path_rule hD (P := fun levels p =>
    (c.piecesAt p).filterMap Piece.eventLine? = (c.pathsFrom levels p).flatMap c.ownEvents)
    (fun levels p hp hnext => ?_) hp hl
  rw [h.piecesAt hD hp, pathsFrom, List.flatMap_cons, ownEvents, List.flatMap_assoc,
    List.filterMap_append, List.filterMap_map, List.filterMap_cons_none (by rfl),
    List.filterMap_flatMap]
  refine congrArg₂ _ (List.filterMap_eq_map' ▸ rfl) (List.flatMap_congr fun r hr => ?_)
  by_cases hs : r.type = .spawn
  · rw [if_pos hs, List.filterMap_append, List.filterMap_cons_none (by rfl),
      List.filterMap_cons_none (by rfl), List.filterMap_nil, List.append_nil]
    by_cases ht : r.target ∈ visited p
    · rw [if_pos ht, if_neg fun hx => hx.2 ht]
      rfl
    · rw [if_neg ht, if_pos ⟨hs, ht⟩]
      exact (hnext r hr hs ht).2
  · rw [if_neg hs, if_neg fun hx => hs hx.1]
    rfl

/-! ## Coverage -/

/-- An event is in a body once if its process is that of the body, and otherwise not at all. -/
theorem Orderly.count_body (h : c.Orderly E D) {s : String} (hs : c.IsProcess s)
    {e : Event String} (he : e ∈ c.events.entries) :
    ((c.body s).events.map Event.id).count e.id = if s = c.processOf e.parent then 1 else 0 := by
  have hnd : ((c.events.entries.filter fun e => c.processOf e.parent = s).map Event.id).Nodup :=
    c.events.distinct.sublist (List.filter_sublist.map _)
  rw [((h.placed.events_body hs).map _).count_eq]
  split
  · next heq =>
    subst heq
    exact List.count_eq_one_of_mem hnd
      (List.mem_map_of_mem (List.mem_filter.mpr ⟨he, by simp⟩))
  · next hne =>
    refine List.count_eq_zero_of_not_mem fun hmem => ?_
    obtain ⟨f, hf, hid⟩ := List.mem_map.mp hmem
    obtain ⟨hf, hof⟩ := List.mem_filter.mp hf
    rw [Store.eq_of_key hf he hid] at hof
    exact hne (of_decide_eq_true hof).symm

theorem count_flatMap_eq_countP {α β : Type} [BEq β] (f : α → List β) (b : β) (P : α → Bool)
    {xs : List α} (hf : ∀ x ∈ xs, (f x).count b = if P x then 1 else 0) :
    (xs.flatMap f).count b = xs.countP P := by
  induction xs with
  | nil => rfl
  | cons x rest ih =>
    rw [List.flatMap_cons, List.count_append, hf x List.mem_cons_self,
      ih fun y hy => hf y (List.mem_cons_of_mem _ hy), List.countP_cons, Nat.add_comm]

/-- An event is shown once for each path to the process around it. -/
theorem Orderly.count_shown (h : c.Orderly E D) (hD : D.unfit = ∅ ∧ D.astray = ∅)
    {e : Event String} (he : e ∈ c.events.entries) :
    ((c.paths.flatMap c.ownEvents).map Prod.fst).count e.id =
      c.paths.countP fun p => pathEnd p = c.processOf e.parent := by
  rw [List.map_flatMap]
  refine count_flatMap_eq_countP _ _ _ fun p hp => ?_
  have hids : (c.ownEvents p).map Prod.fst = (c.body (pathEnd p)).events.map Event.id := by
    rw [ownEvents, List.map_map]
    rfl
  rw [hids, h.count_body (h.isProcess_pathEnd hD.2 ((h.mem_paths hD).mp hp)) he]
  simp only [decide_eq_true_iff]

/-- The top level is at the end of one path. -/
theorem Orderly.countP_topLevel (h : c.Orderly E D) (hD : D.unfit = ∅ ∧ D.astray = ∅) :
    (c.paths.countP fun p => pathEnd p = topLevel) = 1 := by
  have hnil : c.paths.countP (fun p => pathEnd p = topLevel) = c.paths.count [] :=
    List.countP_congr fun p hp => by
      rw [decide_eq_true_iff, beq_iff_eq]
      exact ((h.mem_paths hD).mp hp).pathEnd_eq_topLevel_iff
  rw [hnil]
  exact List.count_eq_one_of_mem (h.nodup_paths hD) ((h.mem_paths hD).mpr .start)

/-- A process is at the end of no path if no spawns lead there. -/
theorem Orderly.countP_eq_zero_iff (h : c.Orderly E D) (hD : D.unfit = ∅ ∧ D.astray = ∅)
    (s : String) : (c.paths.countP fun p => pathEnd p = s) = 0 ↔ ¬ c.Spawned s := by
  rw [List.countP_eq_zero, spawned_iff]
  simp only [decide_eq_true_iff]
  exact ⟨fun hnone ⟨p, hp, hend⟩ => hnone p ((h.mem_paths hD).mpr hp) hend,
    fun hnone p hp hend => hnone ⟨p, (h.mem_paths hD).mp hp, hend⟩⟩

/-- What generated code covers. There is one rendering for each path of spawns; `lines` tells its
lines. -/
structure Covers (c : Choreography String) (code : GeneratedCode)
    (paths : List (List (Relation String))) (lines : List (Relation String) → List String) :
    Prop where
  /-- The renderings are those of the paths. -/
  mem : ∀ p, p ∈ paths ↔ c.SpawnPath p
  nodup : paths.Nodup
  top : ∀ p ∈ paths, pathEnd p = topLevel ↔ p = []
  /-- The body of a process has the events and the relations with that process around them. -/
  events : ∀ p ∈ paths, (c.body (pathEnd p)).events.Perm
    (c.events.entries.filter fun e => c.processOf e.parent = pathEnd p)
  relations : ∀ p ∈ paths, (c.body (pathEnd p)).relations.Perm
    (c.relations.entries.filter fun r => c.processOf (c.sourceParent r) = pathEnd p)
  /-- Both ends of a relation are there, so that its lines have their labels. -/
  ends : ∀ r ∈ c.relations.entries, c.hasNode r.source = true ∧ c.hasNode r.target = true
  /-- The text is the rendering at the top level after the lines before it. -/
  text : code.text = "\n".intercalate (c.preamble ++ lines [])
  /-- A rendering has a line for each event, the terminator and an entry for each relation, where a
  spawn is around the rendering one spawn further on or left empty. -/
  rendering : ∀ p ∈ paths, lines p =
    (c.body (pathEnd p)).events.map (eventText (indentOf p)) ++
      (indentOf p ++ terminator) :: (c.body (pathEnd p)).relations.flatMap fun r =>
        c.entryLines (indentOf p) r (if r.target ∈ visited p then [] else lines (r :: p))
  /-- All lines together are those that the renderings have by themselves, each rendering once. -/
  once : (lines []).Perm (paths.flatMap c.ownLines)
  rendered : code.rendered = paths.flatMap c.ownEvents
  /-- An event is shown once for each path to the process around it. -/
  count : ∀ e ∈ c.events.entries, (code.rendered.map Prod.fst).count e.id =
    paths.countP fun p => pathEnd p = c.processOf e.parent
  count_open : ∀ e ∈ c.events.entries,
    (∀ k ∈ c.ancestors e.parent, c.form? k ≠ some .subprocess) →
      (code.rendered.map Prod.fst).count e.id = 1
  count_zero : ∀ e ∈ c.events.entries,
    (code.rendered.map Prod.fst).count e.id = 0 ↔ ¬ c.Spawned (c.processOf e.parent)

theorem Orderly.covers (h : c.Orderly E D) (hD : D.unfit = ∅ ∧ D.astray = ∅) :
    c.Covers (codeOf c.preamble c.pieces) c.paths c.linesAt := by
  have hpieces : c.pieces = c.piecesAt [] := h.complete.pieces
  have hrendered : (codeOf c.preamble c.pieces).rendered = c.paths.flatMap c.ownEvents := by
    rw [codeOf, hpieces]
    exact h.eventsAt hD .start rfl
  have hcount : ∀ e ∈ c.events.entries,
      ((codeOf c.preamble c.pieces).rendered.map Prod.fst).count e.id =
        c.paths.countP fun p => pathEnd p = c.processOf e.parent := fun e he => by
    rw [hrendered]
    exact h.count_shown hD he
  have hpath : ∀ p ∈ c.paths, c.SpawnPath p := fun p => (h.mem_paths hD).mp
  exact {
    mem := fun p => h.mem_paths hD
    nodup := h.nodup_paths hD
    top := fun p hp => (hpath p hp).pathEnd_eq_topLevel_iff
    events := fun p hp => h.placed.events_body (h.isProcess_pathEnd hD.2 (hpath p hp))
    relations := fun p hp => h.relations_body hD.1 (h.isProcess_pathEnd hD.2 (hpath p hp))
    ends := h.complete.ends
    text := by rw [codeOf, hpieces]; rfl
    rendering := fun p hp => h.linesAt hD (hpath p hp)
    once := h.linesAt_perm hD .start rfl
    rendered := hrendered
    count := hcount
    count_open := fun e he hopen => by
      rw [hcount e he, processOf_eq_topLevel hopen, h.countP_topLevel hD]
    count_zero := fun e he => by rw [hcount e he, h.countP_eq_zero_iff hD] }

end Texts

end Choreography

/-! ## Sessions -/

namespace Editor

/-- After every session code is generated, and it covers the choreography: the process at the end
of each path of spawns is shown once, each event in it has its line, and nothing else is shown. -/
theorem coverage_after {e : Editor String} (h : e.Opening) (calls : List (Call String)) :
    ∃ code paths lines, (e.after calls).choreography.generate.value = .ok code ∧
      (e.after calls).choreography.Covers code paths lines := by
  have hc := orderly_after h calls
  exact ⟨_, _, _, hc.complete.generate, hc.covers ⟨rfl, rfl⟩⟩

/-- A session that puts an event of the sample into a subprocess, which is then spawned from two
places and by itself. -/
def spawningTwice : List (Call String) :=
  [.edit (.createContainer { form := .subprocess, children := ["e2"] }),
    .edit (.createRelation "e0" "s0" .spawn ""), .edit (.createRelation "e1" "s0" .spawn ""),
    .edit (.createRelation "e2" "s0" .spawn "")]

/-- The session, and what the code after it covers. -/
theorem coverage_after_spawning :
    Opening { choreography := (Sample.choreography : Choreography String) } ∧
    ∃ code paths lines,
      (after { choreography := Sample.choreography } spawningTwice).choreography.generate.value =
        .ok code ∧
      (after { choreography := Sample.choreography } spawningTwice).choreography.Covers code paths
        lines :=
  ⟨.inr rfl, coverage_after (.inr rfl) _⟩

/-- The subprocess is shown inside either spawn from the top level, and its own spawn is left
empty. -/
example : (after { choreography := Sample.choreography } spawningTwice).choreography.paths.map
    (List.map Relation.id) = [[], ["s-e0-s0"], ["s-e1-s0"]] := by decide +kernel

end Editor

end Dcr
