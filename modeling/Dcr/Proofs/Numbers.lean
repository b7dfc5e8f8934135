import Dcr.Proofs.Nodewise

/-! Numbers in use. The nodes of a kind and its pool divide the natural numbers between them, so
that what the pool hands out next is the least number not in use. A call draws that number for what
it makes: whatever it leaves was there before, or stands under the least number of its kind. -/

namespace Dcr

variable {τ : Type} [FreeText τ]

/-- The kind of the node that an edit makes, if it makes one: what it adds, or a container of the
other kind in the place of one. -/
def Edit.makes? (c : Choreography τ) : Edit τ → Option NodeKind
  | .createEvent _ => some .event
  | .createContainer w => some w.kind.node
  | .changeContainerType id kind _ =>
    match c.containers.get? id with
    | some x => if x.kind = kind then none else some kind.node
    | none => none
  | _ => none

namespace Choreography

variable {c : Choreography τ} {kind : NodeKind} {m : Nat} {E L A S : Set String} {k id : String}
  {p : Option String} {n : Node τ} {x : Container τ}

/-! ## Numbers and pools -/

/-- A number of a kind is in use if a node of the kind has it in its id. -/
def InUse (c : Choreography τ) (kind : NodeKind) (m : Nat) : Prop :=
  ∃ n ∈ c.nodes, n.kind = kind ∧ n.id = kind.ident m

/-- The smallest number of a kind that is not in use. -/
structure Least (c : Choreography τ) (kind : NodeKind) (m : Nat) : Prop where
  unused : ¬ c.InUse kind m
  below : ∀ l < m, c.InUse kind l

/-- Nodes and pools share the numbers out: a natural number of a kind is in use or available, and
not both. No id names two nodes, and no number has been taken back twice. -/
structure Divided (c : Choreography τ) : Prop where
  named : ∀ n ∈ c.nodes, ∃ m, n.id = n.kind.ident m
  distinct : (c.nodes.map Node.id).Nodup
  stems : ∀ kind, (c.ids.get kind).stem = kind.stem
  released : ∀ kind, (c.ids.get kind).free.Pairwise (· < ·)
  natural : ∀ kind n, (c.ids.get kind).Available n → 0 ≤ n
  disjoint : ∀ kind m, c.InUse kind m → ¬ (c.ids.get kind).Available m
  covered : ∀ kind m, c.InUse kind m ∨ (c.ids.get kind).Available m
  next : ∀ kind, ∃ m, (c.ids.allocate kind).1 = kind.ident m ∧ c.Least kind m

theorem Numbered.inUse_iff (h : c.Numbered) : c.InUse kind m ↔ c.hasNode (kind.ident m) = true := by
  rw [hasNode_iff]
  refine exists_congr fun n => and_congr_right fun hn => ⟨And.right, fun hid => ⟨?_, hid⟩⟩
  obtain ⟨l, hl⟩ := h.named n hn
  exact (NodeKind.ident_injective (hl.symm.trans hid)).1

theorem Numbered.available_iff (h : c.Numbered) :
    (c.ids.get kind).Available m ↔ ¬ c.InUse kind m := by
  rw [← IdPools.free_ident, h.free, h.inUse_iff]

/-- What is handed out next is the least number not in use. -/
theorem Numbered.least (h : c.Numbered) (kind : NodeKind) :
    ∃ m, (c.ids.allocate kind).1 = kind.ident m ∧ c.Least kind m := by
  obtain ⟨m, hid, hfree, hleast, _⟩ := h.sane.allocate kind
  refine ⟨m, hid, h.available_iff.mp (IdPools.free_ident.mp hfree), fun l hl => ?_⟩
  by_contra hunused
  have := hleast l (IdPools.free_ident.mpr (h.available_iff.mpr hunused))
  omega

theorem Numbered.divided (h : c.Numbered) : c.Divided where
  named := h.named
  distinct := h.apart.nodup_ids
  stems kind := (h.sane kind).2
  released kind := (h.sane kind).1.ascending
  natural kind _ := (h.sane kind).1.nonneg
  disjoint _ _ hu ha := h.available_iff.mp ha hu
  covered _ _ := or_iff_not_imp_left.mpr h.available_iff.mpr
  next := h.least

/-! ## Ids after an edit -/

/-- All ids of nodes are in a set. -/
def Among (S : Set String) (c : Choreography τ) : Prop :=
  c.Nodewise (fun e => e.id ∈ S) fun x => x.id ∈ S

theorem robust_mem (S : Set String) :
    Robust (fun e : Event τ => e.id ∈ S) fun x : Container τ => x.id ∈ S where
  eventPlace _ h := h
  content _ h := h
  inside _ _ h := h
  place _ h := h
  form _ h := h
  label _ h := h
  marking _ h := h

theorem Among.mono {T : Set String} (h : c.Among S) (hST : S ⊆ T) : c.Among T :=
  Nodewise.mono h (fun _ he => hST he) fun _ hx => hST hx

theorem Among.mem (h : c.Among S) (hn : n ∈ c.nodes) : n.id ∈ S := by
  rcases mem_nodes.mp hn with ⟨x, hx, rfl⟩ | ⟨e, he, rfl⟩
  · exact h.containers x hx
  · exact h.events e he

/-- The ids of nodes are those that there are. -/
theorem among_nodes (c : Choreography τ) : c.Among {id | c.hasNode id = true} :=
  ⟨fun _ he => hasNode_of_mem (event_mem_nodes.mpr he),
    fun _ hx => hasNode_of_mem (container_mem_nodes.mpr hx)⟩

theorem makes?_of_conversion {target : ContainerKind} {type : Option NestType}
    (hx : c.containers.get? id = some x) (hk : x.kind ≠ target) :
    (Edit.changeContainerType id target type).makes? c = some target.node := by
  simp only [Edit.makes?, hx, if_neg hk]

/-- A type change that makes a node is the conversion of a container. -/
theorem conversion_of_makes? {target : ContainerKind} {type : Option NestType}
    (hk : (Edit.changeContainerType id target type).makes? c = some kind) :
    ∃ x, c.containers.get? id = some x ∧ x.kind ≠ target ∧ kind = target.node := by
  cases hx : c.containers.get? id with
  | none => simp [Edit.makes?, hx] at hk
  | some x =>
    by_cases hsame : x.kind = target
    · simp [Edit.makes?, hx, hsame] at hk
    · rw [makes?_of_conversion hx hsame] at hk
      exact ⟨x, rfl, hsame, (Option.some.inj hk).symm⟩

/-- An edit leaves no ids but those that were there and the one it makes. -/
theorem Among.perform (h : c.Among S) (edit : Edit τ)
    (hnew : ∀ kind, edit.makes? c = some kind → (c.ids.allocate kind).1 ∈ S) :
    (edit.perform c).value.1.Among S := by
  refine (robust_mem S).perform h edit (fun n he => ?_) (fun w he => ?_)
    fun id kind type x he hx hk y _ => ?_
  all_goals subst he
  · exact hnew _ rfl
  · exact hnew _ rfl
  · exact hnew _ (makes?_of_conversion hx hk)

/-! ## What is made is there

A new container takes nodes in one after the other, and each move may settle the container that the
node leaves and what is above it. The new container is not among those that go: it has the node that
has just moved, and the walk upwards does not start below that node. -/

/-- Settling keeps a container in which a node is that is not above the start. -/
theorem Orderly.contains_settle (h : c.Orderly (insert id E) ⟨{id}, L, A⟩)
    (hk : c.containers.contains k = true) (hn : n ∈ c.nodes) (hp : n.parent = some k)
    (hab : ¬ Above c.up n.id (some id)) :
    (c.settle id).value.1.containers.contains k = true := by
  refine settle_rule (P := fun id c => c.Orderly (insert id E) ⟨{id}, L, A⟩ ∧
    c.containers.contains k = true ∧ n ∈ c.nodes ∧ ¬ Above c.up n.id (some id))
    (Q := fun c => c.containers.contains k = true) ?_ ?_ ?_ ?_ ⟨h, hk, hn, hab⟩
  · exact fun id c h _ => h.2.1
  · exact fun id c h _ => h.2.1
  all_goals
    intro id c x
    have hkeep : c.Orderly (insert id E) ⟨{id}, L, A⟩ → c.containers.get? id = some x →
        c.children id = [] → n ∈ c.nodes → c.containers.contains k = true →
          (c.dropContainer x).containers.contains k = true := fun h hx hc hn hk => by
      have hne : k ≠ id := fun he => children_eq_nil_iff.mp hc n hn (he ▸ hp)
      have hr := removes_dropContainer h.placed.numbered.apart hx hc
      rwa [contains_iff_form?, hr.form?_of_not_mem hne, ← contains_iff_form?]
  · exact fun h hx hc _ => hkeep h.1 hx hc h.2.2.1 h.2.1
  · intro q h hx hc hq
    obtain ⟨hord, hk, hn, hab⟩ := h
    have hr := removes_dropContainer hord.placed.numbered.apart hx hc
    have hne : n.id ≠ id := fun he => hab (he ▸ .here)
    refine ⟨hord.drop_next hx hc hq, hkeep hord hx hc hn hk, (hr.mem n).mpr ⟨hn, hne⟩, fun ha => ?_⟩
    obtain ⟨hmem, rfl⟩ := get?_container_iff.mp hx
    have hup : c.up x.id = some (some q) := up_eq_some_iff.mpr ⟨_, hmem, rfl, rfl, hq⟩
    have hg : Grounded c.up (some q) := by
      have := hord.placed.grounded _ hmem
      rwa [show (Node.container x : Node τ).parent = some q from hq] at this
    refine hab (.up hup (hg.above_of_above (fun a haq => ?_) ha))
    refine hr.up_of_not_mem fun he => ?_
    exact hg.not_above_self hup (Set.mem_singleton_iff.mp he ▸ haq)

/-- A container that takes a node in stays. -/
theorem Orderly.contains_moved (h : c.Orderly E ⟨∅, L, A⟩) (hn : n ∈ c.nodes)
    (hp : c.parentRejection? n.id (some k) = none) :
    (c.moved n (some k)).containers.contains k = true := by
  have hk := (not_above_of_accepted h.placed hp k rfl).1
  have hapart := h.placed.numbered.apart
  have hthere : (c.setParent n.id (some k)).containers.contains k = true := by
    rwa [contains_iff_form?, form?_setParent hapart, ← contains_iff_form?]
  unfold Choreography.moved
  cases hold : n.parent with
  | none => exact hthere
  | some old =>
    have hd := h.displaced hn hp hold
    have hmem : n.withParent (some k) ∈ (c.setParent n.id (some k)).nodes :=
      (mem_nodes_setParent hapart).mpr ⟨n, hn, by simp⟩
    refine hd.contains_settle hthere hmem (by simp) fun ha => ?_
    have hnot : ¬ Above c.up n.id (some old) := fun ha =>
      not_mem_family_self h.placed (mem_family.mpr (below_of_above hn (hold ▸ ha)))
    rw [Node.id_withParent] at ha
    refine hnot ((hold ▸ h.placed.grounded n hn).above_of_above (fun a hab => ?_) ha)
    exact up_setParent_of_ne hapart fun he => hnot (he ▸ hab)

theorem Orderly.contains_reparent (h : c.Orderly E ⟨∅, L, A⟩) (hk : c.containers.contains k = true)
    (id : String) : (c.reparent id (some k)).value.1.containers.contains k = true := by
  by_cases hid : c.hasNode id = true
  · obtain ⟨n, hn, rfl⟩ := hasNode_iff.mp hid
    rcases reparent_cases (p := some k) h.placed.numbered.apart hn with ⟨_, he⟩ | ⟨hp, he⟩
    · rwa [he]
    · rw [he]
      show (if n.parent = some k then c else c.moved n (some k)).containers.contains k = true
      split
      · exact hk
      · exact h.contains_moved hn hp
  · rwa [reparent_missing hid]

/-- A container that takes nodes in stays. -/
theorem Orderly.contains_adopt (h : c.Orderly E ⟨∅, L, A⟩) (hk : c.containers.contains k = true)
    (ids : List String) : (c.adopt k ids).value.1.containers.contains k = true := by
  induction ids generalizing c with
  | nil => exact hk
  | cons id rest ih =>
    have hd := h.reparent id (some k)
    have hstep := h.contains_reparent hk id
    simp only [Choreography.adopt, Logged.value_bind]
    split
    · exact hstep
    · exact ih hd hstep

/-! ## What is answered -/

theorem hasNode_tended {k : String} : (c.tended k).hasNode id = c.hasNode id := rfl

theorem nodes_tendedIn : (c.tendedIn p).nodes = c.nodes := by
  cases p <;> rfl

theorem hasNode_tendedIn : (c.tendedIn p).hasNode id = c.hasNode id := by
  cases p <;> rfl

/-- An edit that makes a node answers the id handed out for it. -/
theorem answer_of_makes? {edit : Edit τ} {answer : Answer τ} (hk : edit.makes? c = some kind)
    (hv : (edit.perform c).value.2 = .done answer) : answer = .name (c.ids.allocate kind).1 := by
  cases edit with
  | createEvent e =>
    cases hk
    obtain ⟨new, hdone, rfl⟩ := Verdict.map_eq_done.mp hv
    unfold Choreography.createEvent at hdone
    split at hdone
    · cases hdone
    · split at hdone
      · cases hdone
      · simp only [Logged.value_bind, value_addEvent] at hdone
        cases hdone
        rfl
  | createContainer w =>
    cases hk
    obtain ⟨new, hdone, rfl⟩ := Verdict.map_eq_done.mp hv
    unfold Choreography.createContainer at hdone
    split at hdone
    · cases hdone
    · split at hdone
      · cases hdone
      · split at hdone
        · cases hdone
        · rcases wrap_cases c w with ⟨o, -, he⟩ | ⟨-, he⟩
          · rw [he] at hdone
            cases hdone
          · rw [he] at hdone
            cases hdone
            rfl
  | changeContainerType id target type =>
    obtain ⟨x, hx, hne, rfl⟩ := conversion_of_makes? hk
    rw [value_perform_conversion type hx hne] at hv
    cases hv
    rfl
  | _ => cases hk

/-- A new event is there. -/
theorem Orderly.hasNode_createEvent (h : c.Orderly E ⟨∅, L, A⟩) {e : NewEvent τ} {new : String}
    (hv : (c.createEvent e).value.2 = .done new) :
    (c.createEvent e).value.1.hasNode (c.ids.allocate .event).1 = true := by
  have hnew := h.placed.numbered.unused .event
  unfold Choreography.createEvent at hv ⊢
  split at hv
  · cases hv
  · next hi =>
    rw [if_neg hi]
    split at hv
    · cases hv
    · simp only [Logged.value_bind, value_addEvent]
      refine hasNode_tendedIn.trans ?_
      exact (adds_withEvent hnew).hasNode_iff.mpr (.inr rfl)

/-- A new container is there. -/
theorem Orderly.hasNode_wrap {w : NewContainer τ} (h : (c.withContainer w).Orderly E ⟨∅, L, A⟩)
    (hthere : (c.withContainer w).containers.contains (c.ids.allocate w.kind.node).1 = true)
    {new : String} (hv : (c.wrap w).value.2 = .done new) :
    (c.wrap w).value.1.hasNode (c.ids.allocate w.kind.node).1 = true := by
  have hfull := hasNode_of_contains (h.contains_adopt hthere w.wrapped)
  rcases wrap_cases c w with ⟨o, -, he⟩ | ⟨-, he⟩
  · rw [he] at hv
    cases hv
  · rw [he]
    exact hasNode_tendedIn.trans (hasNode_tended.trans hfull)

theorem Orderly.hasNode_createContainer (h : c.Orderly ∅ ⟨∅, L, A⟩) {w : NewContainer τ}
    {new : String} (hv : (c.createContainer w).value.2 = .done new) :
    (c.createContainer w).value.1.hasNode (c.ids.allocate w.kind.node).1 = true := by
  unfold Choreography.createContainer at hv ⊢
  split at hv
  · cases hv
  · split at hv
    · cases hv
    · next hempty =>
      rw [if_neg hempty]
      split at hv
      · cases hv
      · next hw =>
        exact (h.withContainer (contains_of_wrapRejection? hw)).hasNode_wrap
          (contains_withContainer (h.placed.numbered.unused _)) hv

/-- A converted container is there under its new id. -/
theorem Orderly.hasNode_convert (h : c.Orderly ∅ ⟨∅, L, A⟩) (hx : x ∈ c.containers.entries)
    (form : ContainerForm) :
    (c.convert x form).value.1.hasNode (c.ids.allocate form.kind.node).1 = true := by
  obtain ⟨m, hm, hf, _⟩ := h.placed.numbered.allocate form.kind.node
  have hr := renames_converted h.placed.numbered.apart hx rfl (hm ▸ hf)
  obtain ⟨n, hn, hid, _⟩ := hr.forth _ (container_mem_nodes.mpr hx)
  have hthere := hasNode_of_mem hn
  rw [hid, show (Node.container x : Node τ).id = x.id from rfl, renameId_old] at hthere
  rw [value_convert]
  split <;> exact hthere

/-- The node that an edit makes is there when the edit completes. -/
theorem Orderly.hasNode_made (h : c.Orderly ∅ ⟨∅, L, A⟩) {edit : Edit τ} {answer : Answer τ}
    (hk : edit.makes? c = some kind) (hv : (edit.perform c).value.2 = .done answer) :
    (edit.perform c).value.1.hasNode (c.ids.allocate kind).1 = true := by
  cases edit with
  | createEvent e =>
    cases hk
    obtain ⟨new, hdone, -⟩ := Verdict.map_eq_done.mp hv
    exact h.hasNode_createEvent hdone
  | createContainer w =>
    cases hk
    obtain ⟨new, hdone, -⟩ := Verdict.map_eq_done.mp hv
    exact h.hasNode_createContainer hdone
  | changeContainerType id target type =>
    obtain ⟨x, hx, hne, rfl⟩ := conversion_of_makes? hk
    have hmem := container_mem_nodes.mp (get?_container_iff.mp hx).1
    have hthere := h.hasNode_convert hmem (.ofKind target type)
    rw [ContainerForm.kind_ofKind] at hthere
    rwa [value_perform_conversion type hx hne]
  | _ => cases hk

end Choreography

/-! ## Sessions -/

namespace Editor

open Choreography (Least)

/-- A call draws the numbers of what it makes: a node that was not there before is the one that an
edit makes, and stands under the least number of its kind; what a completed edit answers is the id
of the node it has made. -/
structure Draws [DecidableEq τ] (e : Editor τ) (call : Call τ) : Prop where
  fresh : ∀ n ∈ (e.call call).value.choreography.nodes, ¬ e.choreography.hasNode n.id = true →
    ∃ edit m, call = .edit edit ∧ edit.makes? e.choreography = some n.kind ∧
      n.id = n.kind.ident m ∧ Least e.choreography n.kind m
  answered : ∀ edit kind answer, call = .edit edit → edit.makes? e.choreography = some kind →
    (e.edit edit).value.2 = .done answer →
      ∃ m, answer = .name (kind.ident m) ∧ Least e.choreography kind m ∧
        (e.call call).value.choreography.InUse kind m

open Choreography (Orderly)

variable {e : Editor τ}

/-- A call leaves no ids but those that were there and the one that an edit makes. -/
theorem among_call [DecidableEq τ] (e : Editor τ) (call : Call τ) :
    (e.call call).value.choreography.Among {id | e.choreography.hasNode id = true ∨
      ∃ edit kind, call = .edit edit ∧ edit.makes? e.choreography = some kind ∧
        id = (e.choreography.ids.allocate kind).1} := by
  refine call_rule (P := Choreography.Among _) ?_ call (fun _ id content hc _ =>
    (Choreography.robust_mem _).updateEvent hc id content) fun edit hcall _ _ => ?_
  · exact (Choreography.among_nodes _).mono fun _ => .inl
  · exact ((Choreography.among_nodes _).mono fun _ => .inl).perform edit fun kind hk =>
      .inr ⟨edit, kind, hcall, hk, rfl⟩

theorem draws_of_orderly [DecidableEq τ]
    (h : Orderly ∅ { lacking := Set.univ } e.choreography) (call : Call τ) : e.Draws call where
  fresh n hn hout := by
    rcases (among_call e call).mem hn with hold | ⟨edit, kind, hcall, hk, hid⟩
    · exact absurd hold hout
    · obtain ⟨m, hm, hleast⟩ := h.placed.numbered.least kind
      obtain ⟨l, hl⟩ := (orderly_call h call).placed.numbered.named n hn
      obtain ⟨rfl, _⟩ := NodeKind.ident_injective (hl.symm.trans (hid.trans hm))
      exact ⟨edit, m, hcall, hk, hid.trans hm, hleast⟩
  answered edit kind answer hcall hk hv := by
    subst hcall
    rcases e.edit_cases edit with ⟨_, hnot⟩ | ⟨_, _, hperform⟩
    · exact absurd hv (hnot answer)
    · obtain ⟨m, hid, hleast⟩ := h.placed.numbered.least kind
      rw [hperform] at hv
      have hthere := h.hasNode_made hk hv
      obtain rfl := Choreography.answer_of_makes? hk hv
      refine ⟨m, congrArg _ hid, hleast,
        (orderly_call h (.edit edit)).placed.numbered.inUse_iff.mpr ?_⟩
      rw [← hid]
      simpa only [Editor.call, Logged.value_map, hperform] using hthere

/-- After every session nodes and pools share the numbers out, and every further call draws the
least numbers not in use, whatever is asked for and whatever the calls answer. -/
theorem numbers_after [DecidableEq τ] (h : e.Opening) (calls : List (Call τ)) :
    (e.after calls).choreography.Divided ∧ ∀ call, Draws (e.after calls) call :=
  ⟨(orderly_after h calls).placed.numbered.divided, draws_of_orderly (orderly_after h calls)⟩

/-- A session that puts a nest around an event of the sample and a subprocess around another, makes
the nest a subprocess, which frees its number, and asks in vain for a deletion. -/
def freeing : List (Call String) :=
  [.edit (.createContainer { form := .nest .choice, children := ["e0"] }),
    .edit (.createContainer { form := .subprocess, children := ["e1"] }),
    .edit (.changeContainerType "n0" .subprocess none), .edit (.deleteNodes ["e7"])]

/-- One more nest is asked for after the session, and draws the number that is free again. -/
theorem numbers_after_conversion :
    Opening { choreography := (Sample.choreography : Choreography String) } ∧
    (after { choreography := (Sample.choreography : Choreography String) }
      freeing).choreography.Divided ∧
    Draws (after { choreography := (Sample.choreography : Choreography String) } freeing)
      (.edit (.createContainer { form := .nest .group, children := ["e2"] })) :=
  ⟨.inr rfl, (numbers_after (.inr rfl) _).1, (numbers_after (.inr rfl) _).2 _⟩

end Editor

end Dcr
