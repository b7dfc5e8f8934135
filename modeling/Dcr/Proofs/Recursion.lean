import Dcr.CommandLine.Execution
import Dcr.Proofs.Bodies
import Dcr.Proofs.Cycles

/-! Generating code ends. Two recursions meet on the way: from a scope into its nests, and from a
process into those that it spawns. The first one has no guard; it starts where no nest is, and since
every nest is in one scope only, nests inside one another in a circle are never come to. The second
one leaves a process alone that is being shown. So neither comes back to where it has been, and the
levels that were set for them never run out, which here is said by versions of both that tell when
they do. Commands allow for so many levels only, and that leaves out nothing but choreographies with
more containers than that. -/

namespace Dcr

/-- Steps that all succeed do what the same steps do that cannot fail. -/
theorem foldlM_eq_some {α β : Type} {f : β → α → Option β} {g : β → α → β} {xs : List α} {b : β}
    (h : ∀ x ∈ xs, ∀ b, f b x = some (g b x)) : xs.foldlM f b = some (xs.foldl g b) := by
  induction xs generalizing b with
  | nil => rfl
  | cons x rest ih =>
    rw [List.foldlM_cons, h x List.mem_cons_self]
    exact ih fun y hy => h y (List.mem_cons_of_mem _ hy)

theorem foldl_le {α : Type} {f : Nat → α → Nat} {xs : List α} {b N : Nat} (hb : b ≤ N)
    (h : ∀ x ∈ xs, ∀ n ≤ N, f n x ≤ N) : xs.foldl f b ≤ N := by
  induction xs generalizing b with
  | nil => exact hb
  | cons x rest ih =>
    exact ih (h x List.mem_cons_self b hb) fun y hy => h y (List.mem_cons_of_mem _ hy)

theorem mapM_eq_some {α β : Type} {f : α → Option β} {g : α → β} {xs : List α}
    (h : ∀ x ∈ xs, f x = some (g x)) : xs.mapM f = some (xs.map g) := by
  induction xs with
  | nil => rfl
  | cons x rest ih =>
    rw [List.mapM_cons, h x List.mem_cons_self, ih fun y hy => h y (List.mem_cons_of_mem _ hy)]
    rfl

namespace Choreography

variable {τ : Type} [FreeText τ] {c : Choreography τ} {s : String} {x y : Container τ}

/-- Spawns lead to subprocesses, and no nest has the name of the top level, which is not made like the
id of a container. -/
structure Anchored (c : Choreography τ) : Prop where
  landing : ∀ r ∈ c.relations.entries, r.type = .spawn → c.form? r.target = some .subprocess
  apart : ∀ type, c.form? topLevel ≠ some (.nest type)

/-! ## Into nests -/

/-- The body of a scope, unless it has more levels than allowed. -/
def bodyWithin? (c : Choreography τ) : Nat → String → Option (Body τ)
  | 0, _ => none
  | depth + 1, scope =>
    let part := c.part scope
    part.nests.foldlM (fun body nest => do return body ++ (← c.bodyWithin? depth nest.id))
      { events := part.events, relations := part.relations }

/-- The scopes that gathering a body comes to, so many levels deep. -/
def visits (c : Choreography τ) (depth : Nat) (scope : String) : List String :=
  c.gather (fun k => [k]) depth scope

theorem gather_eq_flatMap {α : Type} (f : String → List α) (depth : Nat) (scope : String) :
    c.gather f depth scope = (c.visits depth scope).flatMap f := by
  induction depth generalizing scope with
  | zero => rfl
  | succ depth ih =>
    simp only [gather, visits, List.flatMap_cons, List.flatMap_assoc, List.singleton_append,
      ih]

/-- A body has what is right inside the scopes that gathering it comes to. -/
theorem bodyWithin_eq_visits (depth : Nat) (scope : String) : c.bodyWithin depth scope =
    ⟨(c.visits depth scope).flatMap fun k => (c.part k).events,
      (c.visits depth scope).flatMap fun k => (c.part k).relations⟩ := by
  rw [bodyWithin_eq, gather_eq_flatMap, gather_eq_flatMap]

/-- A nest leads to the scope that it is in, and anything else leads nowhere. -/
def outward (c : Choreography τ) (id : String) : Option (Option String) :=
  match c.form? id with
  | some (.nest _) => some ((c.up id).map home)
  | _ => some none

theorem outward_nest (hx : x ∈ (c.part s).nests) : c.outward x.id = some (some s) := by
  obtain ⟨hmem, rfl, type, hf⟩ := mem_nests.mp hx
  rw [outward, form?_container hmem, hf, up_container hmem]
  rfl

/-- From a process the walk outwards is at its end. -/
theorem Anchored.grounded (h : c.Anchored) (hs : c.IsProcess s) : Grounded c.outward (some s) := by
  refine .inside (p := none) ?_ .top
  unfold outward
  split
  · next type hf =>
    rcases hs with rfl | hs
    · exact absurd hf (h.apart type)
    · rw [hs] at hf
      cases hf
  · rfl

theorem above_of_mem_visits {k : String} {depth : Nat} (hk : k ∈ c.visits depth s) :
    Above c.outward s (some k) := by
  induction depth generalizing s with
  | zero => cases hk
  | succ depth ih =>
    rcases List.mem_append.mp hk with hk | hk
    · rw [List.mem_singleton.mp hk]
      exact .here
    · obtain ⟨x, hx, hk⟩ := List.mem_flatMap.mp hk
      exact (Above.up (outward_nest hx) .here).trans (ih hk)

theorem nest_of_mem_visits {k : String} {depth : Nat} (hk : k ∈ c.visits depth s) :
    k = s ∨ ∃ type, c.form? k = some (.nest type) := by
  induction depth generalizing s with
  | zero => cases hk
  | succ depth ih =>
    rcases List.mem_append.mp hk with hk | hk
    · exact .inl (List.mem_singleton.mp hk)
    · obtain ⟨x, hx, hk⟩ := List.mem_flatMap.mp hk
      obtain ⟨hmem, -, type, hf⟩ := mem_nests.mp hx
      rcases ih hk with rfl | hnest
      · exact .inr ⟨type, by rw [form?_container hmem, hf]⟩
      · exact .inr hnest

/-- Where the walk outwards ends, no scope is come to twice. -/
theorem nodup_visits (hs : Grounded c.outward (some s)) (depth : Nat) :
    (c.visits depth s).Nodup := by
  induction depth generalizing s with
  | zero => exact List.nodup_nil
  | succ depth ih =>
    refine List.nodup_cons.mpr ⟨fun hmem => ?_, List.nodup_flatMap.mpr ⟨fun x hx => ?_, ?_⟩⟩
    · obtain ⟨x, hx, hmem⟩ := List.mem_flatMap.mp hmem
      exact hs.not_above_self (outward_nest hx) (above_of_mem_visits hmem)
    · exact ih (.inside (outward_nest hx) hs)
    · have hnd : (c.part s).nests.Nodup := (c.containers.nodup_entries.filter _).filter _
      refine hnd.imp_of_mem fun {x y} hx hy hne k hkx hky => ?_
      have hid : x.id ≠ y.id := fun he =>
        hne (Store.eq_of_key (mem_nests.mp hx).1 (mem_nests.mp hy).1 he)
      exact hs.not_above_both (outward_nest hx) (outward_nest hy) hid (above_of_mem_visits hkx)
        (above_of_mem_visits hky)

/-- The levels suffice if they are more than the containers that have not been passed yet on the way
to a scope. -/
theorem bodyWithin?_eq (passed : List String) {depth levels : Nat}
    (hs : Grounded c.outward (some s)) (hnd : passed.Nodup) (hkeys : passed ⊆ c.containers.keys)
    (habove : ∀ k ∈ passed, Above c.outward k (some s))
    (hd : c.containers.size < depth + passed.length) (hl : depth ≤ levels) :
    c.bodyWithin? levels s = some (c.bodyWithin depth s) := by
  induction depth generalizing s levels passed with
  | zero =>
    have hle := (List.subperm_of_subset hnd hkeys).length_le
    have hsize : c.containers.keys.length = c.containers.size := List.length_map _
    omega
  | succ depth ih =>
    obtain ⟨levels, rfl⟩ : ∃ m, levels = m + 1 := ⟨levels - 1, by omega⟩
    refine foldlM_eq_some fun x hx body => ?_
    have hup := outward_nest hx
    have hrest : c.bodyWithin? levels x.id = some (c.bodyWithin depth x.id) := by
      refine ih (x.id :: passed) (.inside hup hs) (List.nodup_cons.mpr ⟨fun hx => ?_, hnd⟩)
        (List.cons_subset.mpr ⟨List.mem_map_of_mem (mem_nests.mp hx).1, hkeys⟩)
        (List.forall_mem_cons.mpr ⟨.here, fun k hk => .up hup (habove k hk)⟩) ?_ (by omega)
      · exact hs.not_above_self hup (habove _ hx)
      · rw [List.length_cons]
        omega
    rw [hrest]
    rfl

theorem Anchored.body_eq (h : c.Anchored) (hs : c.IsProcess s) {levels : Nat}
    (hl : c.containers.size < levels) : c.bodyWithin? levels s = some (c.body s) :=
  bodyWithin?_eq [] (h.grounded hs) List.nodup_nil (List.nil_subset _) (by simp) (by simp) hl

/-! ## Into spawned processes -/

/-- The process of a scope, unless it or the body of a process has more levels than allowed. -/
def process? (c : Choreography τ) : Nat → List String → String → String → Option (List Piece)
  | 0, _, _, _ => none
  | levels + 1, active, indent, scope => do
    let body ← c.bodyWithin? (c.containers.size + 1) scope
    let pieces ← body.relations.mapM fun r =>
      if r.type = .spawn then
        c.spawnPieces indent r <$>
          if r.target = scope ∨ r.target ∈ active then some [.recursion r.target r.source]
          else if r.target ∈ c.scopes then
            c.process? levels (scope :: active) (indent ++ "\t") r.target
          else some []
      else some [c.relationPiece indent r]
    return body.events.map (eventPiece indent) ++ .text (indent ++ terminator) :: pieces.flatten

/-- A process is shown inside the blocks of others, the innermost one first. -/
inductive Shown (c : Choreography τ) : List String → String → Prop
  | top : Shown c [] topLevel
  | spawn {active : List String} {scope : String} {r : Relation τ} : Shown c active scope →
    r ∈ (c.body scope).relations → r.type = .spawn → ¬ (r.target = scope ∨ r.target ∈ active) →
    r.target ∈ c.scopes → Shown c (scope :: active) r.target

/-- How many subprocesses there are. -/
def subprocesses (c : Choreography τ) : Nat :=
  (c.containers.entries.filter Container.isSubprocess).length

/-- How many nests there are. -/
def nests (c : Choreography τ) : Nat :=
  (c.containers.entries.filter fun x => !x.isSubprocess).length

theorem subprocesses_add_nests (c : Choreography τ) :
    c.subprocesses + c.nests = c.containers.size :=
  (List.length_eq_length_filter_add _).symm

/-- What has a form is among the containers that are kept for the form. -/
theorem mem_filter_of_form? {k : String} {form : ContainerForm} (hf : c.form? k = some form)
    {keep : Container τ → Bool} (hkeep : ∀ x, x.form = form → keep x = true) :
    k ∈ (c.containers.entries.filter keep).map Container.id := by
  obtain ⟨x, hx, hform⟩ := Option.map_eq_some_iff.mp hf
  obtain ⟨hmem, rfl⟩ := Store.get?_eq_some_iff.mp hx
  exact List.mem_map_of_mem (List.mem_filter.mpr ⟨hmem, hkeep x hform⟩)

variable {active : List String}

theorem Shown.nodup (h : c.Shown active s) : (s :: active).Nodup := by
  induction h with
  | top => exact List.nodup_singleton _
  | spawn _ _ _ hnew _ ih => exact List.nodup_cons.mpr ⟨by simpa using hnew, ih⟩

theorem Shown.processes (h : c.Shown active s) (hc : c.Anchored) :
    ∀ k ∈ s :: active, c.IsProcess k := by
  induction h with
  | top => simp [IsProcess]
  | @spawn _ scope r _ hr ht _ _ ih =>
    exact List.forall_mem_cons.mpr ⟨.inr (hc.landing r ((mem_bodyWithin _ _).2 r hr) ht), ih⟩

/-- A process is shown inside at most as many blocks as there are subprocesses. -/
theorem Shown.length_le (h : c.Shown active s) (hc : c.Anchored) :
    active.length ≤ c.subprocesses := by
  have hsub : s :: active ⊆
      topLevel :: (c.containers.entries.filter Container.isSubprocess).map Container.id := by
    intro k hk
    rcases h.processes hc k hk with rfl | hf
    · exact List.mem_cons_self
    · refine List.mem_cons_of_mem _ (mem_filter_of_form? hf fun x hform => ?_)
      rw [Container.isSubprocess, hform]
      rfl
  have hle := (List.subperm_of_subset h.nodup hsub).length_le
  rw [List.length_cons, List.length_cons, List.length_map] at hle
  exact Nat.le_of_succ_le_succ hle

/-- The levels suffice if they are more than the subprocesses that are not being shown. -/
theorem Shown.process?_eq (h : c.Shown active s) (hc : c.Anchored) (levels : Nat) {more : Nat}
    {indent : String} (hl : c.subprocesses < levels + active.length) (hm : levels ≤ more) :
    c.process? more active indent s = some (c.process levels active indent s) := by
  induction levels generalizing active s more indent with
  | zero =>
    have hle := h.length_le hc
    omega
  | succ levels ih =>
    obtain ⟨more, rfl⟩ : ∃ m, more = m + 1 := ⟨more - 1, by omega⟩
    have hs : c.IsProcess s := h.processes hc s List.mem_cons_self
    rw [process?, hc.body_eq hs (Nat.lt_succ_self _), Option.bind_eq_bind, Option.bind_some,
      mapM_eq_some (g := fun r =>
        if r.type = .spawn then
          c.spawnPieces indent r (
            if r.target = s ∨ r.target ∈ active then [.recursion r.target r.source]
            else if r.target ∈ c.scopes then
              c.process levels (s :: active) (indent ++ "\t") r.target
            else [])
        else [c.relationPiece indent r])]
    · rfl
    · intro r hr
      by_cases ht : r.type = .spawn
      · simp only [if_pos ht]
        by_cases hold : r.target = s ∨ r.target ∈ active
        · simp only [if_pos hold, Option.map_eq_map, Option.map_some]
        · by_cases hin : r.target ∈ c.scopes
          · have hnext : c.Shown (s :: active) r.target := h.spawn hr ht hold hin
            simp only [if_neg hold, if_pos hin]
            rw [ih hnext (by rw [List.length_cons]; omega) (by omega)]
            rfl
          · simp only [if_neg hold, if_neg hin, Option.map_eq_map, Option.map_some]
      · simp only [if_neg ht]

/-! ## Levels -/

/-- Gathering a body comes to more scopes than there are nests inside one another. -/
theorem nestingWithin_lt (depth : Nat) (s : String) :
    c.nestingWithin depth s < (c.visits (depth + 1) s).length := by
  induction depth generalizing s with
  | zero => exact Nat.succ_pos _
  | succ depth ih =>
    show _ < (s :: (c.part s).nests.flatMap fun x => c.visits (depth + 1) x.id).length
    refine Nat.lt_succ_of_le (foldl_le (Nat.zero_le _) fun x hx n hn => max_le hn ?_)
    have hsub := List.sublist_flatten_of_mem
      (List.mem_map_of_mem (f := fun x : Container τ => c.visits (depth + 1) x.id) hx)
    exact (ih x.id).trans_le hsub.length_le

theorem Anchored.nestingWithin_le (h : c.Anchored) (hs : c.IsProcess s) (depth : Nat) :
    c.nestingWithin depth s ≤ c.nests := by
  obtain ⟨hnew, hnd⟩ := List.nodup_cons.mp (nodup_visits (h.grounded hs) (depth + 1))
  have hsub : ((c.part s).nests.flatMap fun x => c.visits depth x.id) ⊆
      (c.containers.entries.filter fun x => !x.isSubprocess).map Container.id := by
    intro k hk
    have hvisit : k ∈ c.visits (depth + 1) s := List.mem_cons_of_mem _ hk
    rcases nest_of_mem_visits hvisit with rfl | ⟨type, hf⟩
    · exact absurd hk hnew
    · refine mem_filter_of_form? hf fun x hform => ?_
      rw [Container.isSubprocess, hform]
      rfl
  have hle := (List.subperm_of_subset hnd hsub).length_le
  rw [List.length_map] at hle
  exact (Nat.le_of_lt_succ (nestingWithin_lt depth s)).trans hle

/-- Where a process is shown, the blocks around it and the levels in it are no more than there are
containers. -/
theorem Shown.depthWithin_le (h : c.Shown active s) (hc : c.Anchored) (levels : Nat) :
    active.length + c.depthWithin levels active s ≤ c.containers.size := by
  have hsum := c.subprocesses_add_nests
  induction levels generalizing active s with
  | zero => exact (h.length_le hc).trans (Nat.le.intro hsum)
  | succ levels ih =>
    have hle := h.length_le hc
    have hnests := hc.nestingWithin_le (h.processes hc s List.mem_cons_self) (c.containers.size + 1)
    have hlevels : c.depthWithin (levels + 1) active s ≤ c.containers.size - active.length := by
      refine foldl_le (by omega) fun r hr n hn => ?_
      split
      · next hopen =>
        have hinner := ih (h.spawn hr hopen.1 hopen.2.1 hopen.2.2)
        rw [List.length_cons] at hinner
        omega
      · exact hn
    omega

/-- No more processes and nests are inside one another than there are containers. -/
theorem Anchored.depth_le (h : c.Anchored) : c.depth ≤ c.containers.size := by
  have hle := Shown.top.depthWithin_le h (c.containers.size + 1)
  rwa [List.length_nil, Nat.zero_add] at hle

/-! ## Code that is generated -/

/-- How generating code ends. Gathering the body of a process comes to no scope twice and, apart from
the process, to nests only; so it takes no more levels than there are containers, the process itself
apart. Processes are shown inside one another at most as deep as there are subprocesses, and no more
levels than that are taken below the top level. More levels make no difference. -/
structure Ends (c : Choreography τ) : Prop where
  visits : ∀ s, c.IsProcess s → ∀ depth, (c.visits depth s).Nodup ∧
    ∀ k ∈ c.visits depth s, k = s ∨ ∃ type, c.form? k = some (.nest type)
  gathered : ∀ depth s, c.bodyWithin depth s =
    ⟨(c.visits depth s).flatMap fun k => (c.part k).events,
      (c.visits depth s).flatMap fun k => (c.part k).relations⟩
  bodies : ∀ s, c.IsProcess s → ∀ levels, c.containers.size < levels →
    c.bodyWithin? levels s = some (c.body s)
  blocks : ∀ active s, c.Shown active s → (s :: active).Nodup ∧ active.length ≤ c.subprocesses
  few : c.subprocesses ≤ c.containers.size
  processes : ∀ levels, c.subprocesses < levels →
    c.process? levels [] "" topLevel =
      some (c.process (c.containers.size + 1) [] "" topLevel)

theorem Anchored.ends (h : c.Anchored) : c.Ends where
  visits s hs depth := ⟨nodup_visits (h.grounded hs) depth, fun _ hk => nest_of_mem_visits hk⟩
  gathered := bodyWithin_eq_visits
  bodies _ hs _ := h.body_eq hs
  blocks _ _ hs := ⟨hs.nodup, hs.length_le h⟩
  few := List.length_filter_le _ _
  processes levels hl := by
    have hle : c.subprocesses ≤ c.containers.size := List.length_filter_le _ _
    -- as many levels as are needed, which neither the given ones nor the usual ones fall short of
    have hneeded : ∀ more, c.subprocesses + 1 ≤ more → c.process? more [] "" topLevel =
        some (c.process (c.subprocesses + 1) [] "" topLevel) :=
      fun _ hm => Shown.top.process?_eq h _ (Nat.lt_succ_self _) hm
    have husual : c.process? (c.containers.size + 1) [] "" topLevel =
        some (c.process (c.containers.size + 1) [] "" topLevel) :=
      Shown.top.process?_eq h _ (Nat.lt_succ_of_le hle) (Nat.le_refl _)
    rw [hneeded levels hl, ← husual, hneeded _ (Nat.succ_le_succ hle)]

theorem Anchored.tended (h : c.Anchored) (k : String) : (c.tended k).Anchored where
  landing := forall_upkeep (Q := fun r => r.type = .spawn → c.form? r.target = some .subprocess)
    h.landing (fun _ hr => hr) (fun _ _ _ hr => hr) fun _ _ ht => nomatch ht
  apart := h.apart

theorem form?_dropContainer_of_ne {id : String} (hne : id ≠ x.id) :
    (c.dropContainer x).form? id = c.form? id :=
  congrArg (Option.map Container.form) (Store.get?_erase_of_ne hne)

theorem Anchored.drop (h : c.Anchored) (x : Container τ) : (c.dropContainer x).Anchored where
  landing r hr ht := by
    obtain ⟨hr, -, htarget⟩ := mem_relations_dropContainer hr
    rw [form?_dropContainer_of_ne htarget]
    exact h.landing r hr ht
  apart type := by
    by_cases hx : topLevel = x.id
    · rw [hx, form?, show (c.dropContainer x).containers = c.containers.erase x.id from rfl,
        Store.get?_erase_self]
      exact (Option.some_ne_none _).symm
    · rw [form?_dropContainer_of_ne hx]
      exact h.apart type

end Choreography

namespace Document

open Choreography (topLevel)

variable {τ : Type} [FreeText τ] {d : Document τ} {c : Choreography τ}

theorem anchored_of_load (hc : d.load.value = .ok c) : c.Anchored := by
  refine load_rule hc (fun b hb => ?_) (fun _ k h => h.tended k) fun _ x _ h _ _ => h.drop x
  have htells := tells_of_check hb
  refine ⟨htells.landing, fun type hf => ?_⟩
  obtain ⟨n, hn, hid, -⟩ := Choreography.form?_eq_some_iff.mp hf
  exact (NodeKind.ne_of_numbered (htells.numbered n hn)).2 hid

end Document

namespace Choreography

variable {τ : Type} [FreeText τ] {c : Choreography τ}

/-- Generating code ends wherever spawns lead to subprocesses, be nests inside one another in a circle
and processes spawning one another or themselves, and so it does for every document that is loaded. -/
theorem generation_ends (h : c.Anchored ∨ ∃ d : Document τ, d.load.value = .ok c) : c.Ends := by
  rcases h with h | ⟨d, hc⟩
  · exact h.ends
  · exact (Document.anchored_of_load hc).ends

end Choreography

namespace Document

/-- A subprocess under its id. -/
def plainSubprocess (id : String) : NodeEntry String :=
  .container
    { id, parent := none, label := id, form := .subprocess, included := true, pending := false }

/-- Two nests inside one another with an event, and two subprocesses that spawn one another, one of them
itself as well. -/
def looping : Document String :=
  bare [plainNest "n0" .group (some "n1"), plainNest "n1" .group (some "n0"),
      plainSubprocess "s0", plainSubprocess "s1", plainEvent "e0" (some "n0"),
      plainEvent "e1" (some "s0"), plainEvent "e2" (some "s1"), plainEvent "e3" none]
    [plainEdge "s-e3-s0" "e3" "s0" .spawn none, plainEdge "s-e1-s0" "e1" "s0" .spawn none,
      plainEdge "s-e1-s1" "e1" "s1" .spawn none, plainEdge "s-e2-s0" "e2" "s0" .spawn none]

end Document

namespace Choreography

/-- Three levels are enough for two subprocesses, and the nests are not come to. -/
theorem generation_ends_looping : Document.looping.load.value = .ok Document.looping.opened ∧
    Circular Document.looping.opened.up "n0" ∧
    Document.looping.opened.process? 3 [] "" topLevel =
      some (Document.looping.opened.process (Document.looping.opened.containers.size + 1) [] ""
        topLevel) ∧
    Document.looping.opened.visits 5 topLevel = [topLevel] := by
  have hload : Document.looping.load.value = .ok Document.looping.opened := by decide +kernel
  have hends := generation_ends (.inr ⟨Document.looping, hload⟩)
  have h0 : Document.looping.opened.up "n0" = some (some "n1") := by decide +kernel
  have h1 : Document.looping.opened.up "n1" = some (some "n0") := by decide +kernel
  exact ⟨hload, ⟨_, h0, .up h1 .here⟩, hends.processes 3 (by decide +kernel), by decide +kernel⟩

end Choreography

namespace CommandLine.Command

/-- A command makes the code of every loaded document that does not have too many containers. -/
theorem generated_of_few {d : Document Json} {c : Choreography Json} (hc : d.load.value = .ok c)
    (hsize : c.containers.size ≤ deepestLevel) :
    generated c = (do unobstructed (← logged c.generate)) := by
  have hdepth := (Document.anchored_of_load hc).depth_le
  unfold generated
  rw [if_neg fun hdeep => by omega]

end CommandLine.Command

end Dcr
