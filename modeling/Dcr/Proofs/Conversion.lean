import Dcr.Proofs.Settling

/-! Changing what a container is. A new id is free of dashes and names nothing yet, so that renaming
neither joins two containers nor two relations; what the container owned as a choice is looked after
under the new id. -/

namespace Dcr.Choreography

variable {τ : Type} [FreeText τ] {c d : Choreography τ} {x : Container τ} {E L A : Set String}
  {old new k : String} {form : ContainerForm} {r s : Relation τ}

/-! ## Renaming -/

theorem dashless_renameId (hd : ∀ n ∈ c.nodes, Dashless n.id) (hnew : Dashless new) {a : String}
    (ha : c.hasNode a = true) :
    Dashless (renameId old new a) := by
  unfold renameId
  split
  · exact hnew
  · obtain ⟨n, hmem, rfl⟩ := hasNode_iff.mp ha
    exact hd n hmem

/-- Renaming joins no two relations. -/
theorem nodup_rename_relations (hd : ∀ n ∈ c.nodes, Dashless n.id) (hl : c.Linked)
    (hnew : Dashless new) (hf : ¬ c.hasNode new = true) :
    (c.relations.entries.map fun r => (r.rename old new).id).Nodup := by
  refine List.Nodup.map_on (fun r hr s hs h => ?_) c.relations.nodup_entries
  rw [hl.id_rename hr, hl.id_rename hs] at h
  have hends := hl.ends r hr
  have hends' := hl.ends s hs
  obtain ⟨hg, h1, h2, ht⟩ := Relation.idFor_injective (dashless_renameId hd hnew hends.1)
    (dashless_renameId hd hnew hends'.1) h
  refine hl.single r hr s hs (Prod.ext (renameId_injective hf hends.1 hends'.1 h1)
    (renameId_injective hf hends.2 hends'.2 h2)) ?_
  cases hgen : r.generated with
  | false => exact ht hgen
  | true => rw [hl.generated r hr hgen, hl.generated s hs (hg ▸ hgen)]

theorem entries_rename_relations (hd : ∀ n ∈ c.nodes, Dashless n.id) (hl : c.Linked) (hnew : Dashless new)
    (hf : ¬ c.hasNode new = true) :
    (Store.ofList (c.relations.entries.map fun r => r.rename old new)).entries =
      c.relations.entries.map fun r => r.rename old new := by
  refine Store.entries_ofList ?_
  rw [List.map_map]
  exact nodup_rename_relations hd hl hnew hf

/-- Renaming joins no two containers. -/
theorem entries_rename_containers (hf : ¬ c.hasNode new = true) :
    (Store.ofList (c.containers.entries.map fun x => x.rename old new)).entries =
      c.containers.entries.map fun x => x.rename old new := by
  have hid : ∀ x : Container τ, (x.rename old new).id = renameId old new x.id := fun x => by
    unfold Container.rename renameId
    split <;> rfl
  have hnode : ∀ x ∈ c.containers.entries, c.hasNode x.id = true :=
    fun x hx => hasNode_of_contains (Store.contains_of_mem hx)
  refine Store.entries_ofList ?_
  rw [List.map_map]
  refine List.Nodup.map_on (fun x hx y hy h => ?_) c.containers.nodup_entries
  have h : (x.rename old new).id = (y.rename old new).id := h
  rw [hid, hid] at h
  exact Store.eq_of_key hx hy (renameId_injective hf (hnode x hx) (hnode y hy) h)

/-! ## Another form -/

theorem key_withForm {α : Type} (form : ContainerForm) : ∀ x : Container α,
    Keyed.key { x with form } = Keyed.key x :=
  fun _ => rfl

/-- The choreography in which a container has another form. -/
def reformed (c : Choreography τ) (id : String) (form : ContainerForm) : Choreography τ :=
  { c with containers := c.containers.modify id (fun x => { x with form }) (key_withForm form) }

/-- A container after the one under an id has got another form. -/
def reform (id : String) (form : ContainerForm) (y : Container τ) : Container τ :=
  if y.id = id then { y with form } else y

theorem entries_reformed (c : Choreography τ) (form : ContainerForm) (id : String) :
    (c.reformed id form).containers.entries = c.containers.entries.map (reform id form) := by
  simp only [reformed, Store.entries_modify, key_container, beq_iff_eq]
  rfl

omit [FreeText τ] in
theorem id_reform (id : String) (y : Container τ) : (reform id form y).id = y.id := by
  unfold reform
  split <;> rfl

theorem hasNode_reformed (id a : String) :
    (c.reformed id form).hasNode a = true ↔ c.hasNode a = true := by
  simp only [hasNode_iff, mem_nodes, entries_reformed, List.mem_map]
  constructor
  · intro h
    rcases h with ⟨_, ⟨_, ⟨y, hy, rfl⟩, rfl⟩ | ⟨e, he, rfl⟩, rfl⟩
    · exact ⟨_, .inl ⟨y, hy, rfl⟩, (id_reform id y).symm⟩
    · exact ⟨_, .inr ⟨e, he, rfl⟩, rfl⟩
  · intro h
    rcases h with ⟨_, ⟨y, hy, rfl⟩ | ⟨e, he, rfl⟩, rfl⟩
    · exact ⟨_, .inl ⟨_, ⟨y, hy, rfl⟩, rfl⟩, id_reform id y⟩
    · exact ⟨_, .inr ⟨e, he, rfl⟩, rfl⟩

/-- A container that has got its form and then another id. -/
theorem rename_reform (form : ContainerForm) (new old : String) (y : Container τ) :
    ((reform old form y).rename old new).id = renameId old new y.id ∧
    ((reform old form y).rename old new).parent = y.parent.map (renameId old new) ∧
    ((reform old form y).rename old new).form = if y.id = old then form else y.form := by
  by_cases hy : y.id = old
  · simp [reform, Container.rename, hy, renameId]
  · simp [reform, Container.rename, hy, renameId]

/-! ## Another id -/

/-- The choreography with a container of a new form under a new id, before it is looked after. -/
def converted (c : Choreography τ) (x : Container τ) (form : ContainerForm) : Choreography τ :=
  renameContainer
    { c with
      containers := c.containers.modify x.id (fun x => { x with form }) (key_withForm form)
      ids := (c.ids.allocate form.kind.node).2.release x.kind.node x.id }
    x.id (c.ids.allocate form.kind.node).1

theorem entries_converted (x : Container τ)
    (hf : ¬ c.hasNode (c.ids.allocate form.kind.node).1 = true) :
    (c.converted x form).containers.entries = (c.containers.entries.map (reform x.id form)).map
      fun y => y.rename x.id (c.ids.allocate form.kind.node).1 := by
  rw [← entries_reformed]
  exact entries_rename_containers (c := c.reformed x.id form) fun h =>
    hf ((hasNode_reformed x.id _).mp h)

theorem renames_converted (h : c.Apart) (hx : x ∈ c.containers.entries)
    (hnew : (c.ids.allocate form.kind.node).1 = new) (hf : ¬ c.hasNode new = true) :
    Renames x.id new form c (c.converted x form) := by
  have hcont : (c.converted x form).containers.entries =
      (c.containers.entries.map (reform x.id form)).map fun y => y.rename x.id new := by
    subst hnew
    exact entries_converted x hf
  have hevents : (c.converted x form).events.entries =
      c.events.entries.map fun e => { e with parent := e.parent.map (renameId x.id new) } := by
    subst hnew
    rfl
  have hevent : ∀ e ∈ c.events.entries, e.id ≠ x.id := fun e he => h e he x hx
  refine ⟨Store.contains_of_mem hx, hf, fun m hm => ?_, fun n hn => ?_⟩
  · simp only [mem_nodes, hcont, hevents, List.mem_map] at hm
    rcases hm with ⟨_, ⟨_, ⟨y, hy, rfl⟩, rfl⟩, rfl⟩ | ⟨_, ⟨e, he, rfl⟩, rfl⟩
    · obtain ⟨h1, h2, h3⟩ := rename_reform form new x.id y
      refine ⟨.container y, container_mem_nodes.mpr hy, h1, h2, (congrArg some h3).trans ?_⟩
      exact apply_ite some _ _ _
    · exact ⟨.event e, event_mem_nodes.mpr he, (renameId_of_ne (hevent e he)).symm, rfl,
        (if_neg (hevent e he)).symm⟩
  · rcases mem_nodes.mp hn with ⟨y, hy, rfl⟩ | ⟨e, he, rfl⟩
    · obtain ⟨h1, h2, h3⟩ := rename_reform form new x.id y
      refine ⟨.container ((reform x.id form y).rename x.id new), container_mem_nodes.mpr ?_, h1, h2,
        (congrArg some h3).trans (apply_ite some _ _ _)⟩
      rw [hcont]
      exact List.mem_map_of_mem (List.mem_map_of_mem hy)
    · refine ⟨.event { e with parent := e.parent.map (renameId x.id new) }, event_mem_nodes.mpr ?_,
        (renameId_of_ne (hevent e he)).symm, rfl, (if_neg (hevent e he)).symm⟩
      rw [hevents]
      exact List.mem_map_of_mem he

theorem relations_converted (hd : ∀ n ∈ c.nodes, Dashless n.id) (hl : c.Linked)
    (hnew : (c.ids.allocate form.kind.node).1 = new) (hf : ¬ c.hasNode new = true)
    (hdash : Dashless new) : (c.converted x form).relations.entries =
      c.relations.entries.map fun r => r.rename x.id new := by
  rw [← hnew] at hf hdash ⊢
  show (Store.ofList (c.relations.entries.map _)).entries = _
  exact entries_rename_relations (c := c) hd hl hdash hf

theorem mem_relations_converted (hd : ∀ n ∈ c.nodes, Dashless n.id) (hl : c.Linked)
    (hnew : (c.ids.allocate form.kind.node).1 = new) (hf : ¬ c.hasNode new = true)
    (hdash : Dashless new) :
    s ∈ (c.converted x form).relations.entries ↔
      ∃ r ∈ c.relations.entries, s = r.rename x.id new := by
  rw [relations_converted hd hl hnew hf hdash, List.mem_map]
  exact exists_congr fun r => and_congr_right fun _ => eq_comm

/-- The new id was free and names no node, and it changes places with the old one. -/
theorem Numbered.converted (h : c.Numbered) (hx : x ∈ c.containers.entries)
    (hnew : (c.ids.allocate form.kind.node).1 = new) :
    ∃ m, new = form.kind.node.ident m ∧ ¬ c.hasNode new = true ∧ (c.converted x form).ids.Sane ∧
      ∀ id, (c.converted x form).ids.Free id ↔ (c.ids.Free id ∧ id ≠ new) ∨ id = x.id := by
  obtain ⟨m, hm, hf, hs, hfree⟩ := h.allocate form.kind.node
  obtain ⟨l, hl⟩ := h.named _ (container_mem_nodes.mpr hx)
  have hl : x.id = x.kind.node.ident l := hl
  obtain ⟨hs', hfree'⟩ := hs.release x.kind.node l
  rw [← hl] at hs' hfree'
  rw [← hm, hnew] at hf hfree
  exact ⟨m, hnew.symm.trans hm, hf, hs', fun id => (hfree' id).trans (or_congr_left (hfree id))⟩

/-- A container of the other kind leaves itself to be looked after, and the spawns that led to it if
it is a subprocess no more. -/
theorem Orderly.renamed (h : c.Orderly ∅ ⟨∅, L, ∅⟩) (hx : x ∈ c.containers.entries)
    (hk : form.kind ≠ x.kind) (hnew : (c.ids.allocate form.kind.node).1 = new) :
    (c.converted x form).Orderly ∅ ⟨{new}, L ∪ {new}, {k | k = new ∧ form.kind = .nest}⟩ := by
  obtain ⟨m, hid, hf, hs, hids⟩ := h.placed.numbered.converted hx hnew
  have hr := renames_converted h.placed.numbered.apart hx hnew hf
  have hrel :=
    fun s => mem_relations_converted (s := s) (x := x) h.placed.numbered.dashless h.owned.linked hnew hf
    (hid ▸ NodeKind.not_dash_mem_ident _ _)
  refine ⟨h.placed.rename hr ⟨m, hid⟩ hs hids, (Owned.rename (D := ⟨∅, L, ∅⟩) h.owned hr hrel).narrow
    (fun _ hu hn => absurd hu hn) (fun _ hl hn => absurd hl hn) fun s hs ht hA hn => ?_⟩
  -- no spawn led to the container while it was a nest
  obtain ⟨r, hmem, rfl⟩ := (hrel s).mp hs
  have htgt : renameId x.id new r.target = new := hA.resolve_left fun hA => hA.elim
  have hold : r.target = x.id := by
    by_contra hne
    rw [renameId_of_ne hne] at htgt
    exact hf (htgt ▸ (h.owned.linked.ends r hmem).2)
  have hform := h.owned.landing r hmem ht (by simp)
  rw [hold, form?_container hx] at hform
  have hsub : x.kind = .subprocess := congrArg ContainerForm.kind (Option.some.inj hform)
  refine absurd ⟨htgt, ?_⟩ hn
  cases hfk : form.kind with
  | nest => rfl
  | subprocess => exact absurd (hfk.trans hsub.symm) hk

/-- A container of the other kind is in order once it has been looked after, apart from the spawns
that led to it if it is a subprocess no more. -/
theorem Orderly.converted (h : c.Orderly ∅ ⟨∅, L, ∅⟩) (hx : x ∈ c.containers.entries)
    (hk : form.kind ≠ x.kind) (hnew : (c.ids.allocate form.kind.node).1 = new) :
    ((c.converted x form).tended new).Orderly ∅ ⟨∅, L, {k | k = new ∧ form.kind = .nest}⟩ := by
  refine ((h.renamed hx hk hnew).tended (k := new) fun j hj => hj).mono subset_rfl subset_rfl ?_
    subset_rfl
  intro j hall
  rcases hall with ⟨hj | hj, hne⟩
  · exact hj
  · exact absurd hj hne

/-! ## Spawns -/

theorem entries_dropSpawns (c : Choreography τ) (k : String) :
    (c.dropSpawns k).value.relations.entries =
      c.relations.entries.filter fun r => !(r.target == k && r.type == .spawn) := by
  refine Store.entries_foldl_erase.trans (List.filter_congr fun r hr => ?_)
  rw [Bool.eq_iff_iff, List.all_eq_true, Bool.not_eq_true', Bool.eq_false_iff, Ne,
    Bool.and_eq_true, beq_iff_eq, beq_iff_eq]
  simp only [incoming, List.mem_filter, beq_iff_eq, bne_iff_ne, and_imp]
  constructor
  · intro h hk
    exact h r hr hk.1 hk.2 rfl
  · intro h s hs htgt ht hid
    have he : r = s := Store.eq_of_key hr hs hid
    exact h (he ▸ ⟨htgt, ht⟩)

theorem mem_dropSpawns : r ∈ (c.dropSpawns k).value.relations.entries ↔
    r ∈ c.relations.entries ∧ ¬ (r.target = k ∧ r.type = .spawn) := by
  rw [entries_dropSpawns, List.mem_filter, Bool.not_eq_true', Bool.eq_false_iff, Ne,
    Bool.and_eq_true, beq_iff_eq, beq_iff_eq]

theorem Orderly.dropSpawns (h : c.Orderly E ⟨∅, L, A⟩) :
    (c.dropSpawns k).value.Orderly E ⟨∅, L, A \ {k}⟩ := by
  have hkeep : ∀ r ∈ c.relations.entries, r.scope.isSome →
      r ∈ (c.dropSpawns k).value.relations.entries := fun r hr hs => by
    obtain ⟨j, hj⟩ := Option.isSome_iff_exists.mp hs
    refine mem_dropSpawns.mpr ⟨hr, fun hk => ?_⟩
    rw [(h.owned.bound r hr j hj).1] at hk
    cases hk.2
  have howned : Owned ⟨∅, L, A⟩ { c with relations := (c.dropSpawns k).value.relations } :=
    h.owned.discard (fun r hr => (mem_dropSpawns.mp hr).1) hkeep
  refine ⟨h.placed.redraw rfl rfl,
    howned.narrow (fun _ hk => hk.elim) (fun _ hl hn => absurd hl hn) ?_⟩
  intro r hr ht hA hn
  have htgt : r.target = k := by
    by_contra hne
    exact hn ⟨hA, hne⟩
  exact absurd ⟨htgt, ht⟩ (mem_dropSpawns.mp hr).2

/-! ## The change -/

theorem value_convert : (c.convert x form).value =
    (if form.kind = .nest then
        (((c.converted x form).tended (c.ids.allocate form.kind.node).1).dropSpawns
          (c.ids.allocate form.kind.node).1).value
      else (c.converted x form).tended (c.ids.allocate form.kind.node).1,
      (c.ids.allocate form.kind.node).1) := by
  unfold convert
  simp only [Logged.value_bind]
  split <;> rfl

theorem id_convert : (c.convert x form).value.2 = (c.ids.allocate form.kind.node).1 :=
  congrArg Prod.snd value_convert

/-- A container that is given another kind is converted. -/
theorem changeContainerType_of_ne {kind : ContainerKind} (hk : x.kind ≠ kind)
    (type : Option NestType) : c.changeContainerType x kind type =
      c.convert x (.ofKind kind type) := if_neg hk

theorem Orderly.convert (h : c.Orderly ∅ ⟨∅, L, ∅⟩) (hx : x ∈ c.containers.entries)
    (hk : form.kind ≠ x.kind) :
    (c.convert x form).value.1.Orderly ∅ ⟨∅, L, ∅⟩ := by
  have hc := h.converted hx hk rfl
  rw [value_convert]
  split
  · refine hc.dropSpawns.mono subset_rfl subset_rfl subset_rfl ?_
    intro j ⟨⟨hj, _⟩, hne⟩
    exact absurd hj hne
  · next hn =>
    refine hc.mono subset_rfl subset_rfl subset_rfl ?_
    intro j ⟨_, hnest⟩
    exact absurd hnest hn

/-- A nest of another type in its place leaves itself to be looked after. -/
theorem Orderly.reformed (h : c.Orderly ∅ ⟨∅, L, ∅⟩) (hx : x ∈ c.containers.entries)
    (hk : x.kind = .nest) (type : NestType) :
    (c.reformed x.id (.nest type)).Orderly ∅ ⟨{x.id}, L ∪ {x.id}, ∅⟩ := by
  have hd := entries_reformed c (.nest type) x.id
  have hskel : (c.reformed x.id (.nest type)).skeleton = c.skeleton := by
    refine skeleton_of_maps (g := id) hd (List.map_id _).symm (fun y hy => ?_) fun _ _ => ⟨rfl, rfl⟩
    unfold reform
    split
    · next he =>
      rw [Store.eq_of_key hy hx he]
      exact ⟨rfl, rfl, hk.symm⟩
    · exact ⟨rfl, rfl, rfl⟩
  have hform : ∀ k, k ∉ ({x.id} : Set String) → (c.reformed x.id (.nest type)).form? k =
      c.form? k := fun k hne => by
    refine form?_of_map hd (fun y _ => id_reform x.id y) fun y _ he => ?_
    have hyx : y.id ≠ x.id := fun hyx => hne (he ▸ hyx)
    rw [reform, if_neg hyx]
  refine ⟨h.placed.redraw hskel rfl, (h.owned.redraw hskel rfl hform).narrow ?_
    (fun _ hl hn => absurd hl hn) ?_⟩
  · intro k hk hn
    exact absurd (hk.resolve_left fun hk => hk.elim) hn
  · intro r hr ht hA _
    have htgt : r.target = x.id := hA.resolve_left fun hA => hA.elim
    have hland := h.owned.landing r hr ht (by simp)
    rw [htgt, form?_container hx] at hland
    have hsub : x.kind = .subprocess := congrArg ContainerForm.kind (Option.some.inj hland)
    rw [hk] at hsub
    cases hsub

/-- A nest of another type in its place is in order once it has been looked after. -/
theorem Orderly.retype (h : c.Orderly ∅ ⟨∅, L, ∅⟩) (hx : x ∈ c.containers.entries)
    (hk : x.kind = .nest)
    (type : NestType) : ((c.reformed x.id (.nest type)).tended x.id).Orderly ∅ ⟨∅, L, ∅⟩ := by
  refine ((h.reformed hx hk type).tended (k := x.id) fun j hj => hj).mono subset_rfl subset_rfl ?_
    subset_rfl
  intro j hall
  rcases hall with ⟨hj | hj, hne⟩
  · exact hj
  · exact absurd hj hne

theorem Orderly.changeContainerType (h : c.Orderly ∅ ⟨∅, L, ∅⟩) (hx : x ∈ c.containers.entries)
    (kind : ContainerKind) (type : Option NestType) :
    (c.changeContainerType x kind type).value.1.Orderly ∅ ⟨∅, L, ∅⟩ := by
  by_cases hk : x.kind = kind
  · unfold Choreography.changeContainerType
    rw [if_pos hk]
    split
    · next type =>
      split
      · exact h
      · exact h.retype hx hk type
    · exact h
  · rw [changeContainerType_of_ne hk]
    exact h.convert hx (by simpa using Ne.symm hk)

end Dcr.Choreography
