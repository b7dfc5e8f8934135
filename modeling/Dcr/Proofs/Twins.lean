import Dcr.Edit
import Dcr.Proofs.Sessions

/-! Twins: choreographies that differ in their pools only, and not in the numbers these can hand
out. Every edit does the same to twins: it tells and answers the same and leaves twins behind. -/

namespace Dcr

/-! ## Pools with the same numbers -/

namespace IdPools

/-- Two families of pools that can hand out the same numbers. -/
structure Same (p q : IdPools) : Prop where
  left : p.Sane
  right : q.Sane
  available : ∀ kind n, (q.get kind).Available n ↔ (p.get kind).Available n

variable {p q : IdPools}

theorem Same.stem (h : Same p q) (kind : NodeKind) : (q.get kind).stem = (p.get kind).stem :=
  (h.right kind).2.trans (h.left kind).2.symm

theorem Same.set {kind : NodeKind} {a b : IdPool} (h : Same p q) (ha : a.Sane) (hb : b.Sane)
    (hs : a.stem = kind.stem) (ht : b.stem = kind.stem) (hab : ∀ n, b.Available n ↔ a.Available n) :
    Same (p.set kind a) (q.set kind b) := by
  refine ⟨h.left.set ha hs, h.right.set hb ht, fun j n => ?_⟩
  rw [get_set, get_set]
  split
  · exact hab n
  · exact h.available j n

/-- The same id is handed out, because it is the least one. -/
theorem Same.allocate (h : Same p q) (kind : NodeKind) :
    (q.allocate kind).1 = (p.allocate kind).1 ∧ Same (p.allocate kind).2 (q.allocate kind).2 := by
  obtain ⟨hp, hps⟩ := h.left kind
  obtain ⟨hq, hqs⟩ := h.right kind
  obtain ⟨hp', hps', hpa, hpl, hpr⟩ := hp.allocate
  obtain ⟨hq', hqs', hqa, hql, hqr⟩ := hq.allocate
  have hle := hpl _ ((h.available kind _).mp hqa)
  have hge := hql _ ((h.available kind _).mpr hpa)
  have hn : (q.get kind).allocate.1 = (p.get kind).allocate.1 := by omega
  refine ⟨?_, h.set hp' hq' (hps'.trans hps) (hqs'.trans hqs) fun n => ?_⟩
  · show (q.get kind).ident (q.get kind).allocate.1 = (p.get kind).ident (p.get kind).allocate.1
    rw [hn, IdPool.ident, IdPool.ident, h.stem]
  · show (q.get kind).allocate.2.Available n ↔ (p.get kind).allocate.2.Available n
    rw [hpr, hqr, h.available, hn]

theorem Same.release (h : Same p q) (kind : NodeKind) (id : String) :
    Same (p.release kind id) (q.release kind id) := by
  obtain ⟨hp, hps⟩ := h.left kind
  obtain ⟨hq, hqs⟩ := h.right kind
  have hvalue : (q.get kind).value? id = (p.get kind).value? id :=
    IdPool.value?_of_stem (h.stem kind)
  unfold IdPools.release
  rw [hvalue]
  cases (p.get kind).value? id with
  | none => exact h
  | some n =>
    obtain ⟨hp', hps', hpr⟩ := hp.release (Int.natCast_nonneg n)
    obtain ⟨hq', hqs', hqr⟩ := hq.release (Int.natCast_nonneg n)
    exact h.set hp' hq' (hps'.trans hps) (hqs'.trans hqs) fun m => by rw [hpr, hqr, h.available]

end IdPools

/-! ## Results that tally -/

namespace Logged

variable {α β γ δ ε : Type}

/-- Two results that are related, with the same notices on the way. -/
structure Tally (R : α → β → Prop) (x : Logged α) (y : Logged β) : Prop where
  value : R x.value y.value
  log : y.log = x.log

variable {R : α → β → Prop} {S : γ → δ → Prop}

theorem Tally.pure {a : α} {b : β} (h : R a b) : Tally R (Pure.pure a) (Pure.pure b) := ⟨h, rfl⟩

theorem Tally.bind {x : Logged α} {y : Logged β} {f : α → Logged γ} {g : β → Logged δ}
    (h : Tally R x y)
    (hf : ∀ a b, R a b → Tally S (f a) (g b)) : Tally S (x >>= f) (y >>= g) := by
  obtain ⟨hv, hl⟩ := hf _ _ h.value
  exact ⟨hv, by rw [log_bind, log_bind, hl, h.log]⟩

/-- What comes next may look at the common answer. -/
theorem Tally.bindAnswer {T : α → β → Prop} {x : Logged (α × ε)} {y : Logged (β × ε)}
    {f : α × ε → Logged γ}
    {g : β × ε → Logged δ} (h : Tally (fun a b => T a.1 b.1 ∧ b.2 = a.2) x y)
    (hf : ∀ a b v, T a b → Tally S (f (a, v)) (g (b, v))) : Tally S (x >>= f) (y >>= g) := by
  refine h.bind fun a b hab => ?_
  obtain ⟨a, v⟩ := a
  obtain ⟨b, w⟩ := b
  obtain ⟨hT, rfl⟩ := hab
  exact hf a b w hT

theorem Tally.ite {p : Prop} [Decidable p] {x x' : Logged γ} {y y' : Logged δ}
    (hp : p → Tally S x y)
    (hn : ¬ p → Tally S x' y') : Tally S (if p then x else x') (if p then y else y') := by
  by_cases h : p
  · rw [if_pos h, if_pos h]
    exact hp h
  · rw [if_neg h, if_neg h]
    exact hn h

theorem Tally.tell {notices : List Notice} {x : Logged γ} {y : Logged δ} (h : Tally S x y) :
    Tally S (Logged.tell notices >>= fun _ => x) (Logged.tell notices >>= fun _ => y) :=
  Tally.bind (R := Eq) ⟨rfl, rfl⟩ fun _ _ _ => h

end Logged

open Logged (Tally)

variable {τ : Type} [FreeText τ]

namespace Choreography

variable {c d : Choreography τ} {q : IdPools} {α β : Type}

/-! ## Other pools -/

/-- The choreography with other pools. -/
def withIds (c : Choreography τ) (q : IdPools) : Choreography τ := { c with ids := q }

theorem withIds_ite (p : Prop) [Decidable p] (c d : Choreography τ) :
    (if p then c else d).withIds q = if p then c.withIds q else d.withIds q :=
  apply_ite (fun c => c.withIds q) p c d

@[simp] theorem events_withIds : (c.withIds q).events = c.events := rfl

@[simp] theorem containers_withIds : (c.withIds q).containers = c.containers := rfl

@[simp] theorem node?_withIds (id : String) : (c.withIds q).node? id = c.node? id := rfl

@[simp] theorem hasNode_withIds (id : String) : (c.withIds q).hasNode id = c.hasNode id := rfl

@[simp] theorem children_withIds (id : String) : (c.withIds q).children id = c.children id := rfl

@[simp] theorem upkeep_withIds (id : String) : (c.withIds q).upkeep id = c.upkeep id := rfl

@[simp] theorem family_withIds (id : String) : (c.withIds q).family id = c.family id :=
  search_congr (fun _ => True) (fun _ _ => ⟨rfl, fun _ _ => ⟨rfl, fun _ => trivial⟩⟩) fun _ _ => trivial

@[simp] theorem parentRejection?_withIds (id : String) (parent : Option String) :
    (c.withIds q).parentRejection? id parent = c.parentRejection? id parent := by
  cases parent with
  | none => rfl
  | some k => simp only [parentRejection?, family_withIds, containers_withIds]

@[simp] theorem wrapRejection?_withIds (children : List String) (parent : Option String) :
    (c.withIds q).wrapRejection? children parent = c.wrapRejection? children parent := by
  cases parent with
  | none => rfl
  | some k => simp only [wrapRejection?, parentRejection?_withIds, containers_withIds]

@[simp] theorem doomed_withIds (found ids : List String) :
    (c.withIds q).doomed found ids = c.doomed found ids := by
  induction ids generalizing found with
  | nil => rfl
  | cons id rest ih =>
    simp only [doomed, subtree, ih, hasNode_withIds, family_withIds, containers_withIds]

/-! ## Twins -/

/-- Choreographies that differ in their pools only, which can hand out the same numbers. -/
structure Twins (c d : Choreography τ) : Prop where
  rest : d = c.withIds d.ids
  same : c.ids.Same d.ids

/-- Changes of twins that leave twins with the same answer. -/
def Agree (x y : Choreography τ × α) : Prop := Twins x.1 y.1 ∧ y.2 = x.2

theorem twins_iff : Twins c d ↔ ∃ q, c.ids.Same q ∧ d = c.withIds q :=
  ⟨fun h => ⟨d.ids, h.same, h.rest⟩, fun ⟨_, hq, hd⟩ => ⟨hd ▸ rfl, hd ▸ hq⟩⟩

/-- The same change of what is not in the pools. -/
theorem Twins.change (h : Twins c d) {f : Choreography τ → Choreography τ}
    (hf : ∀ c q, f (c.withIds q) = (f c).withIds q) (hids : ∀ c, (f c).ids = c.ids) :
    Twins (f c) (f d) := by
  obtain ⟨q, hq, rfl⟩ := twins_iff.mp h
  exact twins_iff.mpr ⟨q, (hids c).symm ▸ hq, hf c q⟩

/-- The same pools in the place of those that twins have. -/
theorem Twins.repool (h : Twins c d) {p q : IdPools} (hpq : p.Same q) :
    Twins (c.withIds p) (d.withIds q) := by
  obtain ⟨r, _, rfl⟩ := twins_iff.mp h
  exact ⟨rfl, hpq⟩

section Reads

variable (h : Twins c d)
include h

theorem Twins.events : d.events = c.events := by rw [h.rest]; rfl

theorem Twins.containers : d.containers = c.containers := by rw [h.rest]; rfl

theorem Twins.relations : d.relations = c.relations := by rw [h.rest]; rfl

theorem Twins.roles : d.roles = c.roles := by rw [h.rest]; rfl

theorem Twins.node? (id : String) : d.node? id = c.node? id := by rw [h.rest, node?_withIds]

theorem Twins.hasNode (id : String) : d.hasNode id = c.hasNode id := by rw [h.rest, hasNode_withIds]

theorem Twins.children (id : String) : d.children id = c.children id := by
  rw [h.rest, children_withIds]

theorem Twins.upkeep (id : String) : d.upkeep id = c.upkeep id := by rw [h.rest, upkeep_withIds]

theorem Twins.parentRejection? (id : String) (parent : Option String) :
    d.parentRejection? id parent = c.parentRejection? id parent := by
  rw [h.rest, parentRejection?_withIds]

theorem Twins.wrapRejection? (children : List String) (parent : Option String) :
    d.wrapRejection? children parent = c.wrapRejection? children parent := by
  rw [h.rest, wrapRejection?_withIds]

theorem Twins.doomed (found ids : List String) : d.doomed found ids = c.doomed found ids := by
  rw [h.rest, doomed_withIds]

end Reads

/-! ## Containment -/

theorem tally_refuse (h : Twins c d) (reason : Rejection) (attempt : String) :
    Tally (Agree (α := Verdict α)) (refuse c reason attempt) (refuse d reason attempt) :=
  ⟨⟨h, rfl⟩, rfl⟩

theorem tally_syncExclusions (h : Twins c d) (id : String) :
    Tally Twins (c.syncExclusions id) (d.syncExclusions id) := by
  refine ⟨?_, by rw [syncExclusions, syncExclusions, h.upkeep]⟩
  exact h.change (f := fun c => { c with relations := (c.upkeep id).relations }) (fun _ _ => rfl)
    fun _ => rfl

/-- A parent is looked after, if there is one, before what comes next. -/
theorem tally_syncParent {β : Type} (h : Twins c d) (parent : Option String)
    {f g : Choreography τ → Logged β}
    {R : β → β → Prop} (hf : ∀ a b, Twins a b → Tally R (f a) (g b)) :
    Tally R (match parent with | none => pure c >>= f | some id => c.syncExclusions id >>= f)
      (match parent with | none => pure d >>= g | some id => d.syncExclusions id >>= g) := by
  cases parent with
  | none => exact (Tally.pure h).bind hf
  | some id => exact (tally_syncExclusions h id).bind hf

theorem Twins.setParent (h : Twins c d) (id : String) (parent : Option String) :
    Twins (c.setParent id parent) (d.setParent id parent) := by
  refine h.change (f := fun c => c.setParent id parent) (fun c q => ?_) fun c => ?_
  · unfold Choreography.setParent
    rw [withIds_ite]
    rfl
  · unfold Choreography.setParent
    split <;> rfl

theorem Twins.dropContainer (h : Twins c d) (x : Container τ) :
    Twins (c.dropContainer x) (d.dropContainer x) := by
  have hpools := h.same.release x.kind.node x.id
  have hrest := h.change (f := fun c => { c with
    containers := c.containers.erase x.id
    relations := c.relations.filter fun r => !r.touches x.id }) (fun _ _ => rfl) fun _ => rfl
  exact hrest.repool hpools

theorem tally_settle (h : Twins c d) (id : String) : Tally Agree (c.settle id) (d.settle id) := by
  fun_induction settle c id generalizing d with
  | case1 c id hnone =>
    rw [settle_of_absent (h.containers ▸ hnone)]
    exact .pure ⟨h, rfl⟩
  | case2 c id x hx hc ih =>
    have hempty : d.children id = [] := h.children id ▸ List.isEmpty_iff.mp hc
    rw [settle_of_empty (h.containers ▸ hx) hempty]
    refine .tell ?_
    cases hp : x.parent with
    | none => exact .pure ⟨h.dropContainer x, rfl⟩
    | some parent =>
      exact Tally.bindAnswer (T := Twins) (ih parent (h.dropContainer x)) fun a b removed hab =>
        .pure ⟨hab, rfl⟩
  | case3 c id x hx hc =>
    have hkept : d.children id ≠ [] := h.children id ▸ fun he => hc (List.isEmpty_iff.mpr he)
    rw [settle_of_kept (h.containers ▸ hx) hkept]
    exact (tally_syncExclusions h id).bind fun a b hab => .pure ⟨hab, rfl⟩

theorem tally_settleAll (h : Twins c d) (ids : List String) :
    Tally Agree (c.settleAll ids) (d.settleAll ids) := by
  induction ids generalizing c d with
  | nil => exact .pure ⟨h, rfl⟩
  | cons id rest ih =>
    refine Tally.bindAnswer (T := Twins) (tally_settle h id) fun a b removed hab => ?_
    exact Tally.bindAnswer (T := Twins) (ih hab) fun a b more hab => .pure ⟨hab, rfl⟩

theorem tally_reparent (h : Twins c d) (id : String) (parent : Option String) :
    Tally Agree (c.reparent id parent) (d.reparent id parent) := by
  have hnext : ∀ a b : Choreography τ, Twins a b → Tally (Agree (α := Verdict Unit))
      (match parent with
        | none => do let c ← pure a; return (c, .done ())
        | some new => do let c ← a.syncExclusions new; return (c, .done ()))
      (match parent with
        | none => do let c ← pure b; return (c, .done ())
        | some new => do let c ← b.syncExclusions new; return (c, .done ())) :=
    fun a b hab => tally_syncParent hab parent fun a b hab => .pure ⟨hab, rfl⟩
  unfold reparent
  rw [h.node?]
  cases c.node? id with
  | none => exact .pure ⟨h, rfl⟩
  | some node =>
    simp only [h.parentRejection?]
    cases c.parentRejection? id parent with
    | some reason => exact tally_refuse h _ _
    | none =>
      refine .ite (fun _ => .pure ⟨h, rfl⟩) fun _ => .tell ?_
      have hmoved := h.setParent id parent
      cases node.parent with
      | none => exact (Tally.pure hmoved).bind hnext
      | some old =>
        obtain ⟨hv, hl⟩ := tally_settle hmoved old
        have hsettled : Tally Twins (Prod.fst <$> (c.setParent id parent).settle old)
            (Prod.fst <$> (d.setParent id parent).settle old) := ⟨hv.1, by simp [hl]⟩
        exact hsettled.bind hnext

theorem tally_adopt (h : Twins c d) (container : String) (ids : List String) :
    Tally Agree (c.adopt container ids) (d.adopt container ids) := by
  induction ids generalizing c d with
  | nil => exact .pure ⟨h, rfl⟩
  | cons id rest ih =>
    refine Tally.bindAnswer (T := Twins) (tally_reparent h id (some container))
      fun a b v htwins => ?_
    cases v with
    | stopped o => exact .pure ⟨htwins, rfl⟩
    | refused => exact ih htwins
    | done u => exact ih htwins

theorem tally_wrap (h : Twins c d) (n : NewContainer τ) : Tally Agree (c.wrap n) (d.wrap n) := by
  obtain ⟨hid, hpools⟩ := h.same.allocate n.kind.node
  have hrest := h.change
    (f := fun e => { e with
      containers := e.containers.insert (n.container (c.ids.allocate n.kind.node).1) })
    (fun _ _ => rfl) fun _ => rfl
  have hnew := hrest.repool hpools
  have hadopt := tally_adopt hnew (c.ids.allocate n.kind.node).1 n.wrapped
  unfold wrap
  simp only [hid]
  refine .tell (Tally.bindAnswer (T := Twins) hadopt fun a b v htwins => ?_)
  cases v with
  | stopped o => exact .pure ⟨htwins, rfl⟩
  | refused =>
    refine (tally_syncExclusions htwins _).bind fun a b hab => ?_
    exact tally_syncParent hab n.parent fun a b hab => .pure ⟨hab, rfl⟩
  | done u =>
    refine (tally_syncExclusions htwins _).bind fun a b hab => ?_
    exact tally_syncParent hab n.parent fun a b hab => .pure ⟨hab, rfl⟩

theorem tally_createContainer (h : Twins c d) (n : NewContainer τ) :
    Tally Agree (c.createContainer n) (d.createContainer n) := by
  unfold createContainer
  simp only [h.hasNode, h.wrapRejection?]
  cases n.wrapped.find? fun child => !c.hasNode child with
  | some child => exact .pure ⟨h, rfl⟩
  | none =>
    refine .ite (fun _ => tally_refuse h _ _) fun _ => ?_
    cases c.wrapRejection? n.wrapped n.parent with
    | some reason => exact tally_refuse h _ _
    | none => exact tally_wrap h n

theorem tally_updateContainer (h : Twins c d) (x : Container τ) (label : Option τ)
    (marking : Option Marking) :
    Tally Agree (c.updateContainer x label marking) (d.updateContainer x label marking) := by
  refine ⟨⟨?_, rfl⟩, rfl⟩
  refine h.change (f := fun c => (c.updateContainer x label marking).value.1)
    (fun c q => ?_) fun c => ?_
  · cases label <;> cases marking <;> rfl
  · cases label <;> cases marking <;> rfl

/-! ## Events -/

theorem tally_addEvent (h : Twins c d) (n : NewEvent τ) :
    Tally Agree (c.addEvent n) (d.addEvent n) := by
  obtain ⟨hid, hpools⟩ := h.same.allocate .event
  have hrest := h.change
    (f := fun e => { e with events := e.events.insert (n.event (c.ids.allocate .event).1) })
    (fun _ _ => rfl) fun _ => rfl
  have hnew := hrest.repool hpools
  unfold addEvent
  simp only [hid]
  exact .tell (tally_syncParent hnew n.parent fun a b hab => .pure ⟨hab, rfl⟩)

theorem tally_createEvent (h : Twins c d) (n : NewEvent τ) :
    Tally Agree (c.createEvent n) (d.createEvent n) := by
  unfold createEvent
  rw [h.containers]
  refine .ite (fun _ => tally_refuse h _ _) fun _ => ?_
  cases n.parent.filter fun parent => !c.containers.contains parent with
  | some parent => exact tally_refuse h _ _
  | none =>
    exact Tally.bindAnswer (T := Twins) (tally_addEvent h n) fun a b id hab => .pure ⟨hab, rfl⟩

theorem tally_updateEvent (h : Twins c d) (id : String) (content : EventContent τ) :
    Tally Agree (c.updateEvent id content) (d.updateEvent id content) := by
  unfold updateEvent
  refine .ite (fun _ => tally_refuse h _ _) fun _ => ⟨⟨?_, rfl⟩, rfl⟩
  exact h.change
    (f := fun c => { c with events := c.events.modify id fun e => e.withContent content })
    (fun _ _ => rfl) fun _ => rfl

/-! ## Conversion -/

theorem Twins.renameContainer (h : Twins c d) (old new : String) :
    Twins (c.renameContainer old new) (d.renameContainer old new) :=
  h.change (f := fun c => c.renameContainer old new) (fun _ _ => rfl) fun _ => rfl

theorem tally_dropSpawns (h : Twins c d) (id : String) :
    Tally Twins (c.dropSpawns id) (d.dropSpawns id) := by
  refine ⟨h.change (f := fun c => (c.dropSpawns id).value) (fun _ _ => rfl) fun _ => rfl, ?_⟩
  obtain ⟨q, _, rfl⟩ := twins_iff.mp h
  rfl

theorem tally_convert (h : Twins c d) (x : Container τ) (form : ContainerForm) :
    Tally Agree (c.convert x form) (d.convert x form) := by
  obtain ⟨hid, hpools⟩ := h.same.allocate form.kind.node
  have hrest := h.change
    (f := fun e => { e with containers := e.containers.modify x.id fun x => { x with form } })
    (fun _ _ => rfl) fun _ => rfl
  have hnew := hrest.repool (hpools.release x.kind.node x.id)
  have hrenamed := hnew.renameContainer x.id (c.ids.allocate form.kind.node).1
  unfold convert
  simp only [hid]
  refine (tally_syncExclusions hrenamed _).bind fun a b hab => ?_
  split
  · exact (tally_dropSpawns hab _).bind fun a b hab => .tell (.pure ⟨hab, rfl⟩)
  · exact (Tally.pure hab).bind fun a b hab => .tell (.pure ⟨hab, rfl⟩)

theorem tally_changeContainerType (h : Twins c d) (x : Container τ) (kind : ContainerKind)
    (type : Option NestType) :
    Tally Agree (c.changeContainerType x kind type) (d.changeContainerType x kind type) := by
  unfold changeContainerType
  refine .ite (fun _ => ?_) fun _ => tally_convert h x _
  cases kind with
  | subprocess => exact .pure ⟨h, rfl⟩
  | nest =>
    cases type with
    | none => exact .pure ⟨h, rfl⟩
    | some type =>
      refine .ite (fun _ => .pure ⟨h, rfl⟩) fun _ => ?_
      have hnew := h.change
        (f := fun e => { e with
          containers := e.containers.modify x.id fun x => { x with form := .nest type } })
        (fun _ _ => rfl) fun _ => rfl
      exact (tally_syncExclusions hnew x.id).bind fun a b hab => .pure ⟨hab, rfl⟩

/-! ## Deletion -/

theorem Twins.eraseNode (h : Twins c d) (id : String) :
    Twins (c.eraseNode id) (d.eraseNode id) := by
  refine h.change (f := fun c => c.eraseNode id) (fun c q => ?_) fun c => ?_
  · unfold Choreography.eraseNode
    rw [withIds_ite]
    rfl
  · unfold Choreography.eraseNode
    split <;> rfl

theorem agree_eraseNodes (h : Twins c d) (ids : List String) :
    Agree (c.eraseNodes ids) (d.eraseNodes ids) := by
  induction ids generalizing c d with
  | nil => exact ⟨h, rfl⟩
  | cons id rest ih =>
    unfold eraseNodes
    rw [h.node?]
    cases c.node? id with
    | none => exact ⟨h, rfl⟩
    | some node =>
      obtain ⟨htwins, hverdict⟩ := ih (h.eraseNode id)
      exact ⟨htwins, congrArg (Verdict.map (node :: ·)) hverdict⟩

theorem Twins.releaseNodes (h : Twins c d) (nodes : List (Node τ)) :
    Twins (c.releaseNodes nodes) (d.releaseNodes nodes) := by
  have hpools : ∀ (nodes : List (Node τ)) (p q : IdPools), p.Same q →
      (nodes.foldl (fun ids (n : Node τ) => ids.release n.kind n.id) p).Same
        (nodes.foldl (fun ids (n : Node τ) => ids.release n.kind n.id) q) := by
    intro nodes
    induction nodes with
    | nil => exact fun _ _ h => h
    | cons n rest ih => exact fun p q h => ih _ _ (h.release n.kind n.id)
  exact h.repool (hpools nodes _ _ h.same)

theorem tally_deleteNodes (h : Twins c d) (ids : List String) :
    Tally Agree (c.deleteNodes ids) (d.deleteNodes ids) := by
  unfold deleteNodes
  rw [h.doomed]
  cases c.doomed [] ids with
  | error id => exact .pure ⟨h, rfl⟩
  | ok doomed =>
    have hcut := h.change (f := fun c => c.cut doomed) (fun _ _ => rfl) fun _ => rfl
    obtain ⟨htwins, hverdict⟩ := agree_eraseNodes hcut doomed
    have hbereaved : d.bereaved doomed = c.bereaved doomed := by
      obtain ⟨q, _, rfl⟩ := twins_iff.mp h
      rfl
    rcases hx : (c.cut doomed).eraseNodes doomed with ⟨a, v⟩
    rcases hy : (d.cut doomed).eraseNodes doomed with ⟨b, w⟩
    rw [hx, hy] at htwins hverdict
    cases hverdict
    unfold Choreography.cut at hx hy
    simp only [hx, hy, hbereaved]
    cases v with
    | stopped o => exact .pure ⟨htwins, rfl⟩
    | refused => exact .pure ⟨htwins, rfl⟩
    | done nodes =>
      have hsettled := tally_settleAll (htwins.releaseNodes nodes) (c.bereaved doomed)
      exact Tally.bindAnswer (T := Twins) hsettled fun a b emptied hab => .tell (.pure ⟨hab, rfl⟩)

/-! ## Relations and roles -/

theorem Twins.relationRejection? (h : Twins c d) (a b : String) (t : RelationType) :
    d.relationRejection? a b t = c.relationRejection? a b t := by
  obtain ⟨q, _, rfl⟩ := twins_iff.mp h
  rfl

theorem tally_createRelation (h : Twins c d) (a b : String) (t : RelationType) (guard : τ) :
    Tally Agree (c.createRelation a b t guard) (d.createRelation a b t guard) := by
  unfold createRelation
  rw [h.relationRejection?]
  cases c.relationRejection? a b t with
  | some reason => exact tally_refuse h _ _
  | none =>
    exact ⟨⟨h.change
      (f := fun c => { c with relations := c.relations.insert (newRelation a b t guard) })
      (fun _ _ => rfl) fun _ => rfl, rfl⟩, rfl⟩

theorem tally_updateRelation (h : Twins c d) (r : Relation τ) (type : Option RelationType)
    (guard : Option τ) :
    Tally Agree (c.updateRelation r type guard) (d.updateRelation r type guard) := by
  unfold updateRelation
  refine .ite (fun _ => tally_refuse h _ _) fun _ => ?_
  simp only [h.relationRejection?]
  cases if type.getD r.type = r.type then none else c.relationRejection? r.source r.target
    (type.getD r.type) with
  | some reason => exact tally_refuse h _ _
  | none =>
    have hupdated : d.updated r (type.getD r.type) guard =
        c.updated r (type.getD r.type) guard := by
      obtain ⟨q, _, rfl⟩ := twins_iff.mp h
      rfl
    simp only [hupdated]
    refine ⟨⟨?_, rfl⟩, rfl⟩
    exact h.change (f := fun e => { e with relations := (c.updated r (type.getD r.type) guard).1 })
      (fun _ _ => rfl) fun _ => rfl

theorem tally_deleteRelation (h : Twins c d) (r : Relation τ) :
    Tally Agree (c.deleteRelation r) (d.deleteRelation r) := by
  unfold deleteRelation
  refine .ite (fun _ => tally_refuse h _ _) fun _ => ⟨⟨?_, rfl⟩, rfl⟩
  exact h.change (f := fun c => { c with relations := c.relations.erase r.id }) (fun _ _ => rfl)
    fun _ => rfl

theorem Twins.role? (h : Twins c d) (name : String) : d.role? name = c.role? name := by
  rw [Choreography.role?, h.roles]
  rfl

/-- Other roles. -/
theorem Twins.withRoles (h : Twins c d) (roles : List (Role τ)) :
    Twins { c with roles := roles } { d with roles := roles } :=
  h.change (f := fun c => { c with roles := roles }) (fun _ _ => rfl) fun _ => rfl

theorem tally_addRole (h : Twins c d) (name : String) (label : Option τ)
    (parameters : List (Parameter τ)) :
    Tally Agree (c.addRole name label parameters) (d.addRole name label parameters) := by
  unfold addRole
  simp only [h.role?, h.roles]
  exact .ite (fun _ => tally_refuse h _ _) fun _ => ⟨⟨h.withRoles _, rfl⟩, rfl⟩

theorem tally_addParticipant (h : Twins c d) (name : String) (role : Role τ)
    (bindings : List (String × String)) :
    Tally Agree (c.addParticipant name role bindings) (d.addParticipant name role bindings) := by
  unfold addParticipant
  simp only [h.roles]
  cases role.participant bindings with
  | error o => exact .pure ⟨h, rfl⟩
  | ok participant => exact ⟨⟨h.withRoles _, rfl⟩, rfl⟩

/-! ## Edits -/

theorem tally_answer {f : α → Answer τ} {x y : Logged (Choreography τ × Verdict α)}
    (h : Tally Agree x y) :
    Tally Agree (Edit.answer f x) (Edit.answer f y) :=
  ⟨⟨h.value.1, congrArg (Verdict.map f) h.value.2⟩, h.log⟩

theorem tally_deleteNodesAloud (h : Twins c d) (ids : List String) :
    Tally Agree (Edit.deleteNodesAloud c ids) (Edit.deleteNodesAloud d ids) := by
  refine Tally.bindAnswer (T := Twins) (tally_deleteNodes h ids) fun a b v htwins => ?_
  cases v with
  | done removed => exact .tell (.pure ⟨htwins, rfl⟩)
  | refused => exact .pure ⟨htwins, rfl⟩
  | stopped o => exact .pure ⟨htwins, rfl⟩

theorem tally_withFound (h : Twins c d) {found : Option α} {id : String}
    {f g : α → Logged (Choreography τ × Verdict (Answer τ))} (hf : ∀ x, Tally Agree (f x) (g x)) :
    Tally Agree (Edit.withFound c found id f) (Edit.withFound d found id g) := by
  cases found with
  | none => exact .pure ⟨h, rfl⟩
  | some x => exact hf x

theorem Twins.absent? (h : Twins c d) (edit : Edit τ) : edit.absent? d = edit.absent? c := by
  obtain ⟨q, _, rfl⟩ := twins_iff.mp h
  cases edit <;> rfl

/-- An edit does the same to twins. -/
theorem tally_perform (h : Twins c d) (edit : Edit τ) :
    Tally Agree (edit.perform c) (edit.perform d) := by
  cases edit with
  | createEvent n => exact tally_answer (tally_createEvent h n)
  | updateEvent id content => exact tally_answer (tally_updateEvent h id content)
  | deleteEvent id => exact tally_deleteNodesAloud h [id]
  | createContainer n => exact tally_answer (tally_createContainer h n)
  | updateContainer id label marking =>
    simp only [Edit.perform, h.containers]
    exact tally_withFound h fun x => tally_answer (tally_updateContainer h x label marking)
  | changeContainerType id kind type =>
    simp only [Edit.perform, h.containers]
    refine tally_withFound h fun x => (tally_changeContainerType h x kind type).bind fun a b hab =>
      .pure ⟨hab.1, ?_⟩
    rw [hab.2]
  | moveNode id parent => exact tally_answer (tally_reparent h id parent)
  | deleteNodes ids => exact tally_deleteNodesAloud h ids
  | createRelation source target type guard =>
    exact tally_answer (tally_createRelation h source target type guard)
  | updateRelation id type guard =>
    simp only [Edit.perform, h.relations]
    exact tally_withFound h fun r => tally_answer (tally_updateRelation h r type guard)
  | deleteRelation id =>
    simp only [Edit.perform, h.relations]
    exact tally_withFound h fun r => tally_answer (tally_deleteRelation h r)
  | addRole name label parameters => exact tally_answer (tally_addRole h name label parameters)
  | removeRole name =>
    simp only [Edit.perform, removeRole, h.roles]
    exact tally_answer ⟨⟨h.withRoles _, rfl⟩, rfl⟩
  | addParticipant role bindings =>
    simp only [Edit.perform, h.role?]
    exact tally_withFound h fun r => tally_answer (tally_addParticipant h role r bindings)
  | removeParticipant role participant =>
    simp only [Edit.perform, removeParticipant, h.roles]
    exact tally_answer ⟨⟨h.withRoles _, rfl⟩, rfl⟩
  | setSecurity text =>
    exact tally_answer
      ⟨⟨h.change (f := fun c => { c with security := text }) (fun _ _ => rfl) fun _ => rfl, rfl⟩,
        rfl⟩
  | setDocumentation text =>
    exact tally_answer
      ⟨⟨h.change (f := fun c => { c with documentation := text }) (fun _ _ => rfl)
        fun _ => rfl, rfl⟩, rfl⟩

end Choreography

end Dcr
