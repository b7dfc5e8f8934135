import Dcr.Code.Generation
import Dcr.Proofs.EventLines
import Dcr.Proofs.Settling

/-! Generated code. A choreography is complete if every parent, scope and end of a relation is
there; then nothing keeps its code from being generated, and the ids beside the event lines depend
on places and relations only, not on what the events say. -/

namespace Dcr.Choreography

variable {τ : Type} [FreeText τ] {c d : Choreography τ} {r : Relation τ} {e : Event τ}
    {id scope : String}

/-! ## Complete choreographies -/

/-- Everything that an element names is there. -/
structure Complete (c : Choreography τ) : Prop where
  parents : ∀ n ∈ c.nodes, ∀ k, n.parent = some k → c.containers.contains k = true
  ends : ∀ r ∈ c.relations.entries, c.hasNode r.source = true ∧ c.hasNode r.target = true
  scopes : ∀ r ∈ c.relations.entries, ∀ k, r.scope = some k → c.containers.contains k = true

theorem Orderly.complete {E : Set String} {D : Debt} (h : c.Orderly E D) : c.Complete where
  parents _ hn _ hk := h.placed.contains_parent hn hk
  ends := h.owned.linked.ends
  scopes _ hr _ hk := h.contains_scope hr hk

theorem home_some {k : String} (hk : k ≠ "") : home (some k) = k := by
  simp [home, Option.filter, hk]

theorem absent?_home {parent : Option String}
    (h : ∀ k, parent = some k → c.containers.contains k = true) :
    c.absent? (home parent) = none := by
  have hmem : home parent ∈ c.scopes := by
    cases parent with
    | none => exact List.mem_cons_self
    | some k =>
      by_cases hk : k = ""
      · subst hk
        exact List.mem_cons_self
      · obtain ⟨x, hx, hid⟩ := Store.contains_iff.mp (h k rfl)
        rw [home_some hk]
        exact List.mem_cons_of_mem _ (List.mem_map.mpr ⟨x, hx, hid⟩)
  rw [absent?, if_pos (List.contains_iff_mem.mpr hmem)]

theorem Complete.relationHome (h : c.Complete) (hr : r ∈ c.relations.entries) :
    ∃ scope, c.relationHome r = .ok scope ∧ c.absent? scope = none := by
  unfold Choreography.relationHome
  cases hs : r.scope.filter fun s => s != "" with
  | some k =>
    obtain ⟨hk, hne⟩ := Option.filter_eq_some_iff.mp hs
    refine ⟨k, rfl, ?_⟩
    rw [← home_some (bne_iff_ne.mp hne)]
    exact absent?_home fun j hj => h.scopes r hr j (hk.trans hj)
  | none =>
    obtain ⟨n, hn⟩ := Option.isSome_iff_exists.mp (h.ends r hr).1
    exact ⟨home n.parent, by rw [hn], absent?_home fun k hk => h.parents n (node?_mem hn).1 k hk⟩

/-- In a complete choreography every element has a place. -/
theorem Complete.misplaced? (h : c.Complete) : c.misplaced? = none := by
  have hx : (c.containers.entries.findSome? fun x => c.absent? (home x.parent)) = none :=
    List.findSome?_eq_none_iff.mpr fun x hx =>
      absent?_home (h.parents _ (container_mem_nodes.mpr hx))
  have he : (c.events.entries.findSome? fun e => c.absent? (home e.parent)) = none :=
    List.findSome?_eq_none_iff.mpr fun e he => absent?_home (h.parents _ (event_mem_nodes.mpr he))
  rw [Choreography.misplaced?, hx, he]
  refine List.findSome?_eq_none_iff.mpr fun r hr => ?_
  obtain ⟨scope, hs, ha⟩ := h.relationHome hr
  rw [hs]
  exact ha

theorem Complete.label (h : c.Complete) (hr : r ∈ c.relations.entries) :
    (∃ source, c.label r.source = .ok source) ∧ ∃ target, c.label r.target = .ok target := by
  obtain ⟨hs, ht⟩ := h.ends r hr
  obtain ⟨n, hn⟩ := Option.isSome_iff_exists.mp hs
  obtain ⟨m, hm⟩ := Option.isSome_iff_exists.mp ht
  exact ⟨⟨_, by rw [Choreography.label, hn]⟩, ⟨_, by rw [Choreography.label, hm]⟩⟩

/-! ## Bodies -/

theorem foldl_append_bodies {α : Type} (f : α → Body τ) (xs : List α) (b : Body τ) :
    xs.foldl (fun body x => body ++ f x) b =
      ⟨b.events ++ xs.flatMap fun x => (f x).events,
        b.relations ++ xs.flatMap fun x => (f x).relations⟩ := by
  induction xs generalizing b with
  | nil => simp
  | cons x rest ih =>
    have happ : b ++ f x = ⟨b.events ++ (f x).events, b.relations ++ (f x).relations⟩ := rfl
    rw [List.foldl_cons, ih, happ]
    simp

/-- The body of a scope is what is right inside it and then the bodies of its nests. -/
theorem bodyWithin_succ (depth : Nat) (scope : String) : c.bodyWithin (depth + 1) scope =
    ⟨(c.part scope).events ++
        (c.part scope).nests.flatMap fun x => (c.bodyWithin depth x.id).events,
      (c.part scope).relations ++
        (c.part scope).nests.flatMap fun x => (c.bodyWithin depth x.id).relations⟩ :=
  foldl_append_bodies (fun x : Container τ => c.bodyWithin depth x.id) _ _

theorem mem_bodyWithin (depth : Nat) (scope : String) :
    (∀ e ∈ (c.bodyWithin depth scope).events, e ∈ c.events.entries) ∧
      ∀ r ∈ (c.bodyWithin depth scope).relations, r ∈ c.relations.entries := by
  induction depth generalizing scope with
  | zero => exact ⟨fun _ he => absurd he List.not_mem_nil, fun _ hr => absurd hr List.not_mem_nil⟩
  | succ depth ih =>
    rw [bodyWithin_succ]
    constructor
    · intro e he
      rcases List.mem_append.mp he with he | he
      · exact List.mem_of_mem_filter he
      · obtain ⟨x, _, he⟩ := List.mem_flatMap.mp he
        exact (ih x.id).1 e he
    · intro r hr
      rcases List.mem_append.mp hr with hr | hr
      · exact List.mem_of_mem_filter hr
      · obtain ⟨x, _, hr⟩ := List.mem_flatMap.mp hr
        exact (ih x.id).2 r hr

/-! ## Processes -/

/-- What holds of each piece of a process, whatever its indentation by tabs. -/
theorem process_rule {P : Piece → Prop} (h : c.Complete)
    (hevent : ∀ indent e, (∀ x ∈ indent.toList, x = '\t') → e ∈ c.events.entries →
      P (eventPiece indent e))
    (htext : ∀ line, P (.text line)) (hrecursion : ∀ target source, P (.recursion target source))
    (levels : Nat) (active : List String) {indent : String} (hi : ∀ x ∈ indent.toList, x = '\t')
    (scope : String) :
    ∀ p ∈ c.process levels active indent scope, P p := by
  induction levels generalizing active indent scope with
  | zero =>
    intro p hp
    cases hp
  | succ levels ih =>
    intro p hp
    rcases List.mem_append.mp hp with hp | hp
    · obtain ⟨e, he, rfl⟩ := List.mem_map.mp hp
      exact hevent indent e hi ((mem_bodyWithin _ _).1 e he)
    · rcases List.mem_cons.mp hp with rfl | hp
      · exact htext _
      · obtain ⟨r, hr, hp⟩ := List.mem_flatMap.mp hp
        obtain ⟨⟨source, hs⟩, target, ht⟩ := h.label ((mem_bodyWithin _ _).2 r hr)
        by_cases hspawn : r.type = .spawn
        · rw [if_pos hspawn, spawnPieces, hs] at hp
          rcases List.mem_append.mp hp with hp | hp
          · rcases List.mem_cons.mp hp with rfl | hp
            · exact htext _
            · split at hp
              · rw [List.mem_singleton.mp hp]
                exact hrecursion _ _
              · split at hp
                · refine ih (scope :: active) ?_ r.target p hp
                  intro x hx
                  rw [String.toList_append, List.mem_append] at hx
                  rcases hx with hx | hx
                  · exact hi x hx
                  · exact List.mem_singleton.mp hx
                · cases hp
          · rw [List.mem_singleton.mp hp]
            exact htext _
        · rw [if_neg hspawn, relationPiece, hs, ht] at hp
          rw [List.mem_singleton.mp hp]
          exact htext _

/-- The ids of the events of a process, in the order of their lines. -/
def shownIds (c : Choreography τ) : Nat → List String → String → List String
  | 0, _, _ => []
  | levels + 1, active, scope =>
    (c.body scope).events.map Event.id ++ (c.body scope).relations.flatMap fun r =>
      if r.type = .spawn ∧ ¬ (r.target = scope ∨ r.target ∈ active) ∧ r.target ∈ c.scopes then
        c.shownIds levels (scope :: active) r.target
      else []

/-! ## Code of texts -/

section Texts

variable {c d : Choreography String}

theorem eventPiece_text (indent : String) (e : Event String) :
    eventPiece indent e = .event e.id (indent ++ String.ofList (EventLine.written e.content)) := by
  rw [eventPiece, EventLine.render_text]

theorem Complete.pieces (h : c.Complete) :
    c.pieces = c.process (c.containers.size + 1) [] "" topLevel := by
  rw [Choreography.pieces, h.misplaced?]

/-- A piece of a process is no obstacle, and if it is an event line, it is one of an event, after
tabs. -/
theorem Complete.piece (h : c.Complete) :
    ∀ p ∈ c.pieces, p.obstacle? = none ∧
      ∀ id line, p = .event id line →
        ∃ e ∈ c.events.entries, ∃ tabs, (∀ x ∈ tabs, x = '\t') ∧ e.id = id ∧
          line.toList = tabs ++ EventLine.written e.content := by
  rw [h.pieces]
  refine process_rule h (fun indent e hi he => ?_) (fun _ => ?_) (fun _ _ => ?_) _ []
    (by simp) topLevel
  · rw [eventPiece_text]
    refine ⟨rfl, fun id line hp => ?_⟩
    cases hp
    exact ⟨e, he, indent.toList, hi, rfl, by simp⟩
  · exact ⟨rfl, fun _ _ hp => by cases hp⟩
  · exact ⟨rfl, fun _ _ hp => by cases hp⟩

theorem ids_process (h : c.Complete) (levels : Nat) (active : List String) (indent scope : String) :
    ((c.process levels active indent scope).filterMap Piece.eventLine?).map Prod.fst =
      c.shownIds levels active scope := by
  induction levels generalizing active indent scope with
  | zero => rfl
  | succ levels ih =>
    have hevents : ∀ es : List (Event String),
        ((es.map (eventPiece indent)).filterMap Piece.eventLine?).map Prod.fst =
          es.map Event.id := fun es => by
      induction es with
      | nil => rfl
      | cons e rest ih =>
        rw [List.map_cons, eventPiece_text, List.map_cons, ← ih]
        rfl
    rw [process, shownIds, List.filterMap_append, List.map_append, hevents,
      List.filterMap_cons_none (by rfl), List.filterMap_flatMap, List.map_flatMap]
    refine congrArg _ (List.flatMap_congr fun r hr => ?_)
    obtain ⟨⟨source, hs⟩, target, ht⟩ := h.label ((mem_bodyWithin _ _).2 r hr)
    by_cases hspawn : r.type = .spawn
    · rw [if_pos hspawn, spawnPieces, hs]
      simp only [List.filterMap_append,
        List.filterMap_cons_none (show Piece.eventLine? (.text _) = none from rfl),
        List.filterMap_nil, List.append_nil]
      by_cases hloop : r.target = scope ∨ r.target ∈ active
      · rw [if_pos hloop, if_neg fun hx => hx.2.1 hloop]
        rfl
      · rw [if_neg hloop]
        by_cases hthere : r.target ∈ c.scopes
        · rw [if_pos hthere, if_pos ⟨hspawn, hloop, hthere⟩, ih]
        · rw [if_neg hthere, if_neg fun hx => hthere hx.2.2]
          rfl
    · rw [if_neg hspawn, if_neg fun hx => hspawn hx.1, relationPiece, hs, ht]
      rfl

/-- The code of a complete choreography is generated. -/
theorem Complete.generate (h : c.Complete) :
    c.generate.value = .ok (codeOf c.preamble c.pieces) := by
  have hfree : c.pieces.findSome? Piece.obstacle? = none :=
    List.findSome?_eq_none_iff.mpr fun p hp => (h.piece p hp).1
  simp only [Choreography.generate, Logged.value_bind, hfree, EventLine.textsFrom_text,
    Logged.value_pure]

end Texts

/-! ## Other contents -/

/-- Where an event is. -/
def place (e : Event τ) : String × Option String := (e.id, e.parent)

/-- The second choreography has the events of the first in the same places, whatever they say, and
the same containers and relations. -/
structure Rewords (c d : Choreography τ) : Prop where
  places : d.events.entries.map place = c.events.entries.map place
  containers : d.containers = c.containers
  relations : d.relations = c.relations

section Rewords

variable (h : Rewords c d)
include h

theorem Rewords.ids_filter (keep : Option String → Bool) :
    (d.events.entries.filter fun e => keep e.parent).map Event.id =
      (c.events.entries.filter fun e => keep e.parent).map Event.id := by
  have hf : ∀ es : List (Event τ), (es.filter fun e => keep e.parent).map Event.id =
      ((es.map place).filter fun p => keep p.2).map Prod.fst := fun es => by
    rw [List.filter_map, List.map_map]
    rfl
  rw [hf, hf, h.places]

theorem Rewords.parent_node? (id : String) :
    (d.node? id).map Node.parent = (c.node? id).map Node.parent := by
  have hget : ∀ es : Store (Event τ), (es.get? id).map Event.parent =
      ((es.entries.map place).find? fun p => p.1 == id).map Prod.snd := fun es => by
    rw [List.find?_map, Option.map_map]
    rfl
  have he : (d.events.get? id).map Event.parent = (c.events.get? id).map Event.parent := by
    rw [hget, hget, h.places]
  unfold node?
  rw [h.containers]
  cases hd : d.events.get? id with
  | none =>
    rw [hd] at he
    rw [Option.map_eq_none_iff.mp he.symm]
  | some e =>
    rw [hd] at he
    obtain ⟨f, hf, hp⟩ := Option.map_eq_some_iff.mp he.symm
    rw [hf]
    exact congrArg some hp.symm

theorem Rewords.liesIn (r : Relation τ) (scope : String) : d.liesIn r scope = c.liesIn r scope := by
  have hhome : d.relationHome r = c.relationHome r := by
    unfold relationHome
    split
    · rfl
    · have hp := h.parent_node? r.source
      cases hd : d.node? r.source with
      | none =>
        rw [hd] at hp
        rw [Option.map_eq_none_iff.mp hp.symm]
      | some n =>
        rw [hd] at hp
        obtain ⟨m, hm, hp⟩ := Option.map_eq_some_iff.mp hp.symm
        rw [hm]
        exact congrArg (fun p => Except.ok (home p)) hp.symm
  rw [Choreography.liesIn, hhome]
  rfl

theorem Rewords.bodyWithin (depth : Nat) (scope : String) :
    (d.bodyWithin depth scope).events.map Event.id =
    (c.bodyWithin depth scope).events.map Event.id ∧
      (d.bodyWithin depth scope).relations = (c.bodyWithin depth scope).relations := by
  induction depth generalizing scope with
  | zero => exact ⟨rfl, rfl⟩
  | succ depth ih =>
    have hnests : (d.part scope).nests = (c.part scope).nests := by rw [part, h.containers]; rfl
    have hrelations : (d.part scope).relations = (c.part scope).relations := by
      rw [part, part, h.relations]
      exact List.filter_congr fun r _ => h.liesIn r scope
    rw [bodyWithin_succ, bodyWithin_succ]
    simp only [List.map_append, List.map_flatMap, hnests, hrelations, fun x => (ih x).1,
      fun x => (ih x).2]
    exact ⟨congrArg (· ++ _) (h.ids_filter fun p => home p == scope), trivial⟩

/-- The same events are shown, in the same order. -/
theorem Rewords.shownIds (levels : Nat) (active : List String) (scope : String) :
    d.shownIds levels active scope = c.shownIds levels active scope := by
  have hscopes : d.scopes = c.scopes := by rw [scopes, h.containers]; rfl
  induction levels generalizing active scope with
  | zero => rfl
  | succ levels ih =>
    obtain ⟨hevents, hrelations⟩ := h.bodyWithin (d.containers.size + 1) scope
    simp only [Choreography.shownIds, hscopes, ih]
    rw [body, hevents, hrelations, h.containers]
    rfl

end Rewords

end Dcr.Choreography
