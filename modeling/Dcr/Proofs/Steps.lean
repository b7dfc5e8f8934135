import Dcr.Proofs.Sessions

/-! Edits taken apart. Apart from the contents of nodes and roles an edit changes nothing but the
relations, the places of nodes and the nodes there are; what these steps keep, the edit keeps. -/

namespace Dcr.Choreography

variable {τ : Type} [FreeText τ]

/-- What is kept by looking after a container, by dropping an empty one, and by moving a node to a
place that is allowed. -/
structure Steps (allowed : Option String → Prop) (P : Choreography τ → Prop) : Prop where
  tended : ∀ {c} (k : String), P c → P (c.tended k)
  drop : ∀ {c x id}, P c → c.containers.get? id = some x → c.children id = [] →
    P (c.dropContainer x)
  place : ∀ {c} (id : String) {p : Option String}, allowed p → P c → P (c.setParent id p)

namespace Steps

variable {allowed : Option String → Prop} {P : Choreography τ → Prop} {c : Choreography τ}
  (h : Steps allowed P)
include h

/-! ## Containment -/

theorem tendedIn (hc : P c) (p : Option String) : P (c.tendedIn p) := by
  cases p with
  | none => exact hc
  | some k => exact h.tended k hc

theorem settle (hc : P c) (id : String) : P (c.settle id).value.1 :=
  settle_rule (P := fun _ c => P c) (fun _ _ hc _ => hc) (fun id _ hc _ => h.tended id hc)
    (fun _ _ _ hc hx hempty _ => h.drop hc hx hempty)
    (fun _ _ _ _ hc hx hempty _ => h.drop hc hx hempty) hc

theorem settleAll (hc : P c) (ids : List String) : P (c.settleAll ids).value.1 :=
  settleAll_rule (fun _ k hc => h.tended k hc)
    (fun _ _ _ hc hx hempty => h.drop hc hx hempty) hc ids

/-- A move keeps what is kept by setting the place. -/
theorem reparent (hc : P c) {id : String} {p : Option String} (hmoved : P (c.setParent id p)) :
    P (c.reparent id p).value.1 := by
  unfold Choreography.reparent
  split
  · exact hc
  · next node _ =>
    split
    · exact hc
    · split
      · exact hc
      · simp only [Logged.value_bind]
        cases node.parent with
        | none =>
          cases p with
          | none => exact hmoved
          | some new => exact h.tended new hmoved
        | some old =>
          cases p with
          | none => exact h.settle hmoved old
          | some new => exact h.tended new (h.settle hmoved old)

theorem adopt (hc : P c) {k : String} (hk : allowed (some k)) (ids : List String) :
    P (c.adopt k ids).value.1 := by
  induction ids generalizing c with
  | nil => exact hc
  | cons id rest ih =>
    have hd := h.reparent hc (h.place id hk hc)
    simp only [Choreography.adopt, Logged.value_bind]
    split
    · exact hd
    · exact ih hd

/-- A deletion keeps what is kept by taking nodes out, up to the end or up to one that is
missing. -/
theorem deleteNodes (hc : P c)
    (hdone : ∀ gone d ns, (c.cut gone).eraseNodes gone = (d, .done ns) → P (d.releaseNodes ns))
    {ids : List String} (hhalted : ∀ gone d v, c.doomed [] ids = .ok gone →
      (c.cut gone).eraseNodes gone = (d, v) → (∀ ns, v ≠ .done ns) → P d) :
    P (c.deleteNodes ids).value.1 := by
  unfold Choreography.deleteNodes
  split
  · exact hc
  · next gone hlisted =>
    rcases hd : (c.cut gone).eraseNodes gone with ⟨d, v⟩
    have hstep := hd
    unfold cut at hd
    simp only [hd]
    cases v with
    | done nodes => exact h.settleAll (hdone gone d nodes hstep) _
    | refused => exact hhalted gone d _ hlisted hstep fun _ hv => nomatch hv
    | stopped o => exact hhalted gone d _ hlisted hstep fun _ hv => nomatch hv

theorem deleteNodesAloud (hc : P c)
    (hdone : ∀ gone d ns, (c.cut gone).eraseNodes gone = (d, .done ns) → P (d.releaseNodes ns))
    {ids : List String} (hhalted : ∀ gone d v, c.doomed [] ids = .ok gone →
      (c.cut gone).eraseNodes gone = (d, v) → (∀ ns, v ≠ .done ns) → P d) :
    P (Edit.deleteNodesAloud c ids).value.1 := by
  rw [value_deleteNodesAloud]
  exact h.deleteNodes hc hdone hhalted

/-! ## Nodes with new ids -/

theorem createEvent (hc : P c) {n : NewEvent τ} (hnew : P (c.withEvent n)) :
    P (c.createEvent n).value.1 := by
  unfold Choreography.createEvent
  split
  · exact hc
  · split
    · exact hc
    · simp only [Logged.value_bind, value_addEvent]
      exact h.tendedIn hnew _

theorem createContainer (hc : P c) {w : NewContainer τ} (hnew : P (c.withContainer w))
    (hallowed : allowed (some (c.ids.allocate w.kind.node).1)) :
    P (c.createContainer w).value.1 := by
  have hfull := h.adopt hnew hallowed w.wrapped
  unfold Choreography.createContainer
  split
  · exact hc
  · split
    · exact hc
    · split
      · exact hc
      · rcases wrap_cases c w with ⟨o, -, he⟩ | ⟨-, he⟩
        · rw [he]
          exact hfull
        · rw [he]
          exact h.tendedIn (h.tended _ hfull) _

theorem convert {x : Container τ} {form : ContainerForm} (hconverted : P (c.converted x form))
    (hspawns : form.kind = .nest → ∀ d, P d →
      P (d.dropSpawns (c.ids.allocate form.kind.node).1).value) :
    P (c.convert x form).value.1 := by
  rw [value_convert]
  split
  · next hnest => exact hspawns hnest _ (h.tended _ hconverted)
  · exact h.tended _ hconverted

theorem changeContainerType (hc : P c) {x : Container τ} {kind : ContainerKind}
    {type : Option NestType}
    (hreformed : ∀ t, x.kind = .nest → P (c.reformed x.id (.nest t)))
    (hconverted : x.kind ≠ kind → P (c.convert x (.ofKind kind type)).value.1) :
    P (c.changeContainerType x kind type).value.1 := by
  unfold Choreography.changeContainerType
  split
  · next hk =>
    split
    · split
      · exact hc
      · exact h.tended x.id (hreformed _ hk)
    · exact hc
  · next hk => exact hconverted hk

end Steps

/-! ## Edits of relations -/

section

variable {P : Choreography τ → Prop} {c : Choreography τ}
  (h : ∀ R : Store (Relation τ), P { c with relations := R })
include h

theorem createRelation_rule (a b : String) (t : RelationType) (guard : τ) :
    P (c.createRelation a b t guard).value.1 := by
  unfold Choreography.createRelation
  split
  · exact h _
  · exact h _

theorem updateRelation_rule (r : Relation τ) (type : Option RelationType) (guard : Option τ) :
    P (c.updateRelation r type guard).value.1 := by
  unfold Choreography.updateRelation
  split
  · exact h _
  · dsimp only
    split
    · exact h _
    · exact h _

theorem deleteRelation_rule (r : Relation τ) : P (c.deleteRelation r).value.1 := by
  unfold Choreography.deleteRelation
  split
  · exact h _
  · exact h _

end

/-- What is kept by every step that makes no id, wherever it is taken. -/
structure Kept (P : Choreography τ → Prop) : Prop where
  relate : ∀ {c} (R : Store (Relation τ)), P c → P { c with relations := R }
  place : ∀ {c} (id : String) (p : Option String), P c → P (c.setParent id p)
  drop : ∀ {c} (x : Container τ), P c → P (c.dropContainer x)
  erase : ∀ {c} (id : String), P c → P (c.eraseNode id)
  release : ∀ {c} (nodes : List (Node τ)), P c → P (c.releaseNodes nodes)

namespace Kept

variable {P : Choreography τ → Prop} {c : Choreography τ} (h : Kept P)
include h

theorem steps : Steps (fun _ => True) P where
  tended _ hc := h.relate _ hc
  drop hc _ _ := h.drop _ hc
  place id _ _ hc := h.place id _ hc

theorem eraseNodes (hc : P c) (ids : List String) : P (c.eraseNodes ids).1 := by
  induction ids generalizing c with
  | nil => exact hc
  | cons id rest ih =>
    unfold Choreography.eraseNodes
    split
    · exact hc
    · exact ih (h.erase id hc)

theorem deleteNodesAloud (hc : P c) (ids : List String) :
    P (Edit.deleteNodesAloud c ids).value.1 := by
  have hcut : ∀ gone d v, (c.cut gone).eraseNodes gone = (d, v) → P d := by
    intro gone d v hd
    have hgone : P ((c.cut gone).eraseNodes gone).1 := h.eraseNodes (h.relate _ hc) gone
    rwa [hd] at hgone
  exact h.steps.deleteNodesAloud hc (fun gone d ns hd => h.release ns (hcut gone d _ hd))
    fun gone d v _ hd _ => hcut gone d v hd

/-! ## Edits -/

/-- An edit keeps what its steps keep, if that holds with what it makes and with the contents and
forms that it gives. -/
theorem perform (hc : P c) (edit : Edit τ) (hevent : ∀ n, edit = .createEvent n → P (c.withEvent n))
    (hcontainer : ∀ w, edit = .createContainer w → P (c.withContainer w))
    (hreformed : ∀ x type, c.containers.get? x.id = some x → x.kind = .nest →
      P (c.reformed x.id (.nest type)))
    (hconverted : ∀ id kind type x, edit = .changeContainerType id kind type →
      c.containers.get? id = some x → x.kind ≠ kind → P (c.converted x (.ofKind kind type)))
    (hcontent : ∀ id content, P (c.updateEvent id content).value.1)
    (hlabel : ∀ x label marking, P (c.updateContainer x label marking).value.1)
    (haside : edit.isAside = true → P (edit.perform c).value.1) : P (edit.perform c).value.1 := by
  cases edit with
  | createEvent n => exact h.steps.createEvent hc (hevent n rfl)
  | updateEvent id content => exact hcontent id content
  | deleteEvent id => exact h.deleteNodesAloud hc [id]
  | createContainer w => exact h.steps.createContainer hc (hcontainer w rfl) trivial
  | updateContainer id label marking =>
    exact withFound_rule hc fun x _ => hlabel x label marking
  | changeContainerType id kind type =>
    refine withFound_rule hc fun x hx => ?_
    refine h.steps.changeContainerType hc (fun t hk => ?_) fun hk => ?_
    · obtain ⟨-, rfl⟩ := get?_container_iff.mp hx
      exact hreformed x t hx hk
    · exact h.steps.convert (hconverted id kind type x rfl hx hk) fun _ d hd => h.relate _ hd
  | moveNode id parent => exact h.steps.reparent hc (h.place id parent hc)
  | deleteNodes ids => exact h.deleteNodesAloud hc ids
  | createRelation source target type guard =>
    exact createRelation_rule (fun R => h.relate R hc) source target type guard
  | updateRelation id type guard =>
    exact withFound_rule hc fun r _ => updateRelation_rule (fun R => h.relate R hc) r type guard
  | deleteRelation id =>
    exact withFound_rule hc fun r _ => deleteRelation_rule (fun R => h.relate R hc) r
  | _ => exact haside rfl

end Kept

end Dcr.Choreography
