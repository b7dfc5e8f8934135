import Dcr.Document.Reading
import Dcr.Document.Writing
import Dcr.Proofs.Shapes

/-! Documents written and read back. Every part of a document is read from the JSON it is written
as; references must name something, and the label of a role, if it is empty, must be its name. -/

namespace Dcr

theorem ok_bind {α β ε : Type} (a : α) (f : α → Except ε β) : (Except.ok a >>= f) = f a := rfl

/-- Reading the images of some values one by one. -/
theorem mapM_of_forall {α β γ ε : Type} {f : α → β} {g : β → Except ε γ} {h : α → γ} {xs : List α}
    (hx : ∀ x ∈ xs, g (f x) = .ok (h x)) : (xs.map f).mapM g = .ok (xs.map h) := by
  induction xs with
  | nil => rfl
  | cons x rest ih =>
    rw [List.map_cons, List.mapM_cons, hx x List.mem_cons_self,
      ih fun y hy => hx y (List.mem_cons_of_mem _ hy)]
    rfl

theorem mapM_of_inverse {α β ε : Type} {f : α → β} {g : β → Except ε α} {xs : List α}
    (hx : ∀ x ∈ xs, g (f x) = .ok x) : (xs.map f).mapM g = .ok xs := by
  have h := mapM_of_forall (h := id) hx
  rwa [List.map_id] at h

/-! ## Texts -/

theorem Json.freeOrEmpty_text (s : String) :
    (Json.freeOrEmpty (FreeText.toJson s) : DocumentM String) = .ok s := by
  by_cases hs : s = ""
  · subst hs
    rfl
  · have hh : (FreeText.toJson s).holds = true := bne_iff_ne.mpr hs
    rw [freeOrEmpty, if_pos hh]
    rfl

theorem Json.frees_texts (xs : List String) :
    (Json.frees (.arr (xs.map FreeText.toJson)) : DocumentM (List String)) = .ok xs :=
  mapM_of_inverse fun _ _ => rfl

/-! ## Shapes and contents -/

theorem Field.ofJson_toJson (f : Field String) : Field.ofJson f.toJson = .ok f := rfl

theorem Shape.ofJson_toJson (s : Shape String) : Shape.ofJson s.toJson = .ok s := by
  cases s with
  | unit => rfl
  | named type plain =>
    have hjson : (named type plain).toJson = .obj [("type", .str type)] := by
      simp [toJson, isRecord, typeName, plain, FreeText.toJson]
    have htype : Shape.ofJson (.obj [("type", .str type)]) =
        if FreeText.isText type "Record" = true then .ok (.record [])
        else .ok (ofType type []) := rfl
    rw [hjson, htype, if_neg (by simp [plain])]
    exact congrArg Except.ok (Shape.ofType_typeName (.named type plain))
  | record fields =>
    have hfields : (fields.map Field.toJson).mapM Field.ofJson = .ok fields :=
      mapM_of_inverse fun f _ => Field.ofJson_toJson f
    show ((fields.map Field.toJson).mapM Field.ofJson >>= fun fs => pure (Shape.record fs)) = _
    rw [hfields]
    rfl

/-! ## Nodes -/

/-- A reference names something. -/
def IsReference (j : Option Json) : Prop := ∀ x ∈ j, x.holds = true

theorem isReference_reference (id : Option String) : IsReference (reference id) := by
  intro x hx
  obtain ⟨s, hs, rfl⟩ := Option.map_eq_some_iff.mp hx
  exact (Option.filter_eq_some_iff.mp hs).2

theorem place_getD {parent : Option Json} (h : IsReference parent) :
    Json.place (parent.getD (.str "")) = parent := by
  cases parent with
  | none => rfl
  | some j => exact if_pos (h j rfl)

theorem EventValue.ofKind_kind (v : EventValue String) :
    ofKind v.kind v.shape? v.expression? = v := by
  cases v with
  | input shape => rfl
  | computation e =>
    by_cases he : e = ""
    · subst he
      rfl
    · simp [ofKind, kind, expression?, FreeText.orText, Option.filter, FreeText.holds,
        FreeText.toJson, Json.holds, he]

theorem NodeEntry.ofJson_event {e : EventEntry String} (h : IsReference e.parent) :
    NodeEntry.ofJson (NodeEntry.event e).toJson = .ok (.event e) := by
  obtain ⟨id, parent, label, name, security, value, initiators, receivers, included, pending⟩ := e
  have hplace : Json.place (parent.getD (.str "")) = parent := place_getD h
  cases value with
  | input shape =>
    have hread : NodeEntry.ofJson (NodeEntry.event (τ := String)
        ⟨id, parent, label, name, security, .input shape, initiators, receivers, included,
          pending⟩).toJson = do
        let shape ← some <$> Shape.ofJson shape.toJson
        let label ← Json.freeOrEmpty (FreeText.toJson label)
        let initiators ← Json.frees (.arr (initiators.map FreeText.toJson))
        let receivers ← Json.frees (.arr (receivers.map FreeText.toJson))
        return .event ⟨id, Json.place (parent.getD (.str "")),
          { label, name, security, value := .ofKind .input shape none, initiators, receivers,
            included, pending }⟩ := rfl
    rw [hread, Shape.ofJson_toJson, Json.freeOrEmpty_text, Json.frees_texts, Json.frees_texts,
      hplace]
    rfl
  | computation expression =>
    have hread : NodeEntry.ofJson (NodeEntry.event (τ := String)
        ⟨id, parent, label, name, security, .computation expression, initiators, receivers,
          included, pending⟩).toJson = do
        let label ← Json.freeOrEmpty (FreeText.toJson label)
        let expression ← some <$> Json.freeOrEmpty (FreeText.toJson expression)
        let initiators ← Json.frees (.arr (initiators.map FreeText.toJson))
        let receivers ← Json.frees (.arr (receivers.map FreeText.toJson))
        return .event ⟨id, Json.place (parent.getD (.str "")),
          { label, name, security, value := .ofKind .computation none expression, initiators,
            receivers, included, pending }⟩ := rfl
    have hvalue := EventValue.ofKind_kind (EventValue.computation (τ := String) expression)
    rw [hread, Json.freeOrEmpty_text, Json.freeOrEmpty_text, Json.frees_texts, Json.frees_texts,
      hplace]
    show Except.ok _ = _
    rw [← hvalue]
    rfl

theorem NodeEntry.ofJson_container {x : ContainerEntry String} (h : IsReference x.parent) :
    NodeEntry.ofJson (NodeEntry.container x).toJson = .ok (.container x) := by
  obtain ⟨id, parent, label, form, included, pending⟩ := x
  have hplace : Json.place (parent.getD (.str "")) = parent := place_getD h
  have hread : NodeEntry.ofJson (NodeEntry.container (τ := String)
      ⟨id, parent, label, form, included, pending⟩).toJson = do
      let label : String ← Json.freeOrEmpty (FreeText.toJson label)
      return .container
        { id, parent := Json.place (parent.getD (.str "")), label, form, included, pending } := by
    cases form with
    | nest type => cases type <;> rfl
    | subprocess => rfl
  rw [hread, Json.freeOrEmpty_text, hplace]
  rfl

/-! ## Edges -/

theorem RelationType.ofJson_name (t : RelationType) :
    RelationType.ofJson (.str t.name) = .ok t := by cases t <;> rfl

theorem EdgeEntry.ofJson_toJson {e : EdgeEntry String} (h : IsReference e.scope) :
    EdgeEntry.ofJson e.toJson = .ok e := by
  obtain ⟨id, source, target, type, guard, scope, hidden⟩ := e
  have hread : EdgeEntry.ofJson (EdgeEntry.toJson (τ := String)
      ⟨id, source, target, type, guard, scope, hidden⟩) = do
      let type ← RelationType.ofJson (.str type.name)
      let scope := Json.place (scope.getD .null)
      return { id, source, target, type, guard, scope, hidden } := by
    by_cases hg : guard = ""
    · subst hg
      cases scope <;> cases hidden <;> rfl
    · have hh : FreeText.holds guard = true := bne_iff_ne.mpr hg
      simp only [EdgeEntry.toJson, hh, if_true]
      cases scope <;> cases hidden <;> rfl
  have hscope : Json.place (scope.getD .null) = scope := by
    cases scope with
    | none => rfl
    | some j => exact if_pos (h j rfl)
  rw [hread, RelationType.ofJson_name, hscope]
  rfl

/-! ## Roles -/

theorem Parameter.ofJson_toJson (p : Parameter String) : Parameter.ofJson p.toJson = .ok p := rfl

theorem Role.ofJson_toJson {r : Role String} (h : r.label ≠ "" ∨ r.label = r.name) :
    Role.ofJson r.toJson = .ok r := by
  obtain ⟨name, label, parameters, participants⟩ := r
  have hread : Role.ofJson (Role.toJson (τ := String) ⟨name, label, parameters, participants⟩) = do
      let label ← Json.freeOrEmpty (FreeText.toJson label)
      let parameters ← (parameters.map Parameter.toJson).mapM Parameter.ofJson
      let participants ← Json.frees (.arr (participants.map FreeText.toJson))
      let label := if FreeText.holds label then label else name
      return { name, label, parameters, participants } := rfl
  have hlabel : (if FreeText.holds label then label else name) = label := by
    rcases h with h | h
    · exact if_pos (bne_iff_ne.mpr h)
    · rw [show name = label from h.symm, ite_self]
  have hparameters : (parameters.map Parameter.toJson).mapM Parameter.ofJson = .ok parameters :=
    mapM_of_inverse fun p _ => Parameter.ofJson_toJson p
  rw [hread, Json.freeOrEmpty_text, hparameters, Json.frees_texts]
  exact congrArg (fun l => Except.ok { name, label := l, parameters, participants : Role String })
    hlabel

/-! ## Documents -/

/-- A document whose JSON tells all that is in it. -/
structure Document.Storable (d : Document String) : Prop where
  named : ∀ n ∈ d.nodes,
    (∃ e, n = .event e ∧ IsReference e.parent) ∨ ∃ x, n = .container x ∧ IsReference x.parent
  scopes : ∀ e ∈ d.edges, IsReference e.scope
  labels : ∀ r ∈ d.roles, r.label ≠ "" ∨ r.label = r.name

/-- Such a document is read back from its JSON. -/
theorem Document.ofJson_toJson {d : Document String} (h : d.Storable) :
    Document.ofJson d.toJson = .ok d := by
  have hnodes : (d.nodes.map NodeEntry.toJson).mapM NodeEntry.ofJson = .ok d.nodes := by
    refine mapM_of_inverse fun n hn => ?_
    rcases h.named n hn with ⟨e, rfl, he⟩ | ⟨x, rfl, hx⟩
    · exact NodeEntry.ofJson_event he
    · exact NodeEntry.ofJson_container hx
  have hedges : (d.edges.map EdgeEntry.toJson).mapM EdgeEntry.ofJson = .ok d.edges :=
    mapM_of_inverse fun e he => EdgeEntry.ofJson_toJson (h.scopes e he)
  have hroles : (d.roles.map Role.toJson).mapM Role.ofJson = .ok d.roles :=
    mapM_of_inverse fun r hr => Role.ofJson_toJson (h.labels r hr)
  have hread : Document.ofJson d.toJson = do
      let nodes ← (d.nodes.map NodeEntry.toJson).mapM NodeEntry.ofJson
      let edges ← (d.edges.map EdgeEntry.toJson).mapM EdgeEntry.ofJson
      let roles ← (d.roles.map Role.toJson).mapM Role.ofJson
      return { nodes, edges, security := d.security, documentation := d.documentation, roles } :=
        rfl
  rw [hread, hnodes, hedges, hroles]
  rfl

end Dcr
