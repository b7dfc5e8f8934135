import Dcr.Document.Loading
import Dcr.Proofs.Documents
import Dcr.Proofs.Lasting
import Mathlib.Data.List.Forall2
import Mathlib.Data.List.Pairwise

/-! The checks of a document. `Checked` says what they establish: ids that can be read, labels, and
parents and ends that are there. What they say of scopes is kept apart in `Scoped`, because a
container that goes later takes the relations at it along, but not those that belong to it. -/

namespace Dcr

/-! ## Results that succeed -/

section Success

variable {α β γ ε : Type} {x : Except ε α}

theorem bind_eq_ok {f : α → Except ε β} {b : β} :
    x >>= f = .ok b ↔ ∃ a, x = .ok a ∧ f a = .ok b := by
  cases x with
  | error e => exact ⟨fun h => (nomatch h), fun ⟨_, h, _⟩ => (nomatch h)⟩
  | ok a => exact ⟨fun h => ⟨a, rfl, h⟩, fun ⟨_, ha, h⟩ => by cases ha; exact h⟩

theorem map_eq_ok {f : α → β} {b : β} : f <$> x = .ok b ↔ ∃ a, x = .ok a ∧ f a = b := by
  cases x with
  | error e => exact ⟨fun h => (nomatch h), fun ⟨_, h, _⟩ => (nomatch h)⟩
  | ok a =>
    exact ⟨fun h => ⟨a, rfl, Except.ok.inj h⟩, fun ⟨_, ha, h⟩ => by cases ha; exact congrArg _ h⟩

/-- A list that is read one by one is read item for item. -/
theorem forall₂_of_mapM {f : α → Except ε β} {xs : List α} {ys : List β}
    (h : xs.mapM f = .ok ys) : List.Forall₂ (fun x y => f x = .ok y) xs ys := by
  induction xs generalizing ys with
  | nil => cases h; exact .nil
  | cons x rest ih =>
    rw [List.mapM_cons, bind_eq_ok] at h
    obtain ⟨y, hy, h⟩ := h
    obtain ⟨zs, hzs, h⟩ := bind_eq_ok.mp h
    cases h
    exact .cons hy (ih hzs)

variable {R : α → β → Prop} {xs : List α} {ys : List β}

theorem exists_of_forall₂ (h : List.Forall₂ R xs ys) {y : β} (hy : y ∈ ys) : ∃ x ∈ xs, R x y := by
  induction h with
  | nil => cases hy
  | cons hxy _ ih =>
    rcases List.mem_cons.mp hy with rfl | hy
    · exact ⟨_, List.mem_cons_self, hxy⟩
    · obtain ⟨x, hx, hR⟩ := ih hy
      exact ⟨x, List.mem_cons_of_mem _ hx, hR⟩

theorem map_eq_of_forall₂ {f : α → γ} {g : β → γ} (h : List.Forall₂ R xs ys)
    (hfg : ∀ x y, R x y → g y = f x) : ys.map g = xs.map f := by
  induction h with
  | nil => rfl
  | cons hxy _ ih => rw [List.map_cons, List.map_cons, hfg _ _ hxy, ih]

end Success

/-! ## Ids that are read -/

theorem IdPool.value?_of_number {p : IdPool} {id : String} {m : Nat} (h : p.number id = .ok m) :
    p.value? id = some m := by
  unfold number at h
  split at h
  · next howns =>
    simp only at h
    split at h
    · cases h
    · rw [value?, if_pos howns]
      split at h
      · next hm => cases h; exact hm
      · cases h
  · cases h

/-- An id of a pool is the stem with digits after it. -/
theorem IdPool.toList_of_owns {p : IdPool} {id : String} (h : p.owns id = true) :
    ∃ digits, id.toList = p.stem.toList ++ digits ∧ ∀ x ∈ digits, Text.isDigit x = true := by
  simp only [owns, Bool.and_eq_true, List.all_eq_true] at h
  obtain ⟨⟨hstem, -⟩, hdigits⟩ := h
  rw [String.isPrefixOf, String.startsWith_string_iff] at hstem
  obtain ⟨digits, hid⟩ := hstem
  refine ⟨digits, hid.symm, fun x hx => hdigits x ?_⟩
  rwa [afterStem, String.toList_ofList, ← hid, ← String.length_toList, List.drop_left]

namespace NodeKind

variable {kind j : NodeKind} {id : String} {m l : Nat} {r : NodeKind × Nat}

/-- The number in an id of a kind, however many digits write it. -/
def number? (kind : NodeKind) (id : String) : Option Nat := (IdPools.get {} kind).value? id

/-- The pools of a kind read an id alike. -/
theorem value?_eq_number? {p : IdPool} (h : p.stem = kind.stem) (id : String) :
    p.value? id = kind.number? id :=
  IdPool.value?_of_stem (h.trans (IdPools.sane_new kind).2.symm)

theorem number?_ident (kind : NodeKind) (m : Nat) : kind.number? (kind.ident m) = some m :=
  IdPool.value?_ident (IdPools.sane_new kind).2 m

/-- An id that is read is the letter of its kind with digits after it. -/
theorem toList_of_number? (h : kind.number? id = some m) :
    ∃ digits, id.toList = kind.stem.toList ++ digits ∧ ∀ x ∈ digits, Text.isDigit x = true := by
  unfold number? IdPool.value? at h
  split at h
  · next howns =>
    have hid := IdPool.toList_of_owns howns
    rwa [(IdPools.sane_new kind).2] at hid
  · cases h

theorem dashless_of_number? (h : kind.number? id = some m) : Dashless id := by
  obtain ⟨digits, hid, hdigits⟩ := toList_of_number? h
  intro hdash
  rw [hid, List.mem_append] at hdash
  rcases hdash with hdash | hdash
  · cases kind <;> simp [stem] at hdash
  · exact absurd (hdigits _ hdash) (by decide)

/-- The first letter tells the kind. -/
theorem eq_of_number? (h : kind.number? id = some m) (hj : j.number? id = some l) : j = kind := by
  obtain ⟨digits, hid, -⟩ := toList_of_number? h
  obtain ⟨digits', hid', -⟩ := toList_of_number? hj
  have hhead : (j.stem.toList ++ digits').head? = (kind.stem.toList ++ digits).head? := by
    rw [← hid, ← hid']
  cases j <;> cases kind <;> simp [stem] at hhead ⊢

theorem numbered_eq_ok (h : kind.numbered id = .ok r) :
    kind.number? id = some r.2 ∧ r.1 = kind := by
  unfold numbered at h
  split at h
  · next m hm => cases h; exact ⟨IdPool.value?_of_number hm, rfl⟩
  · cases h

theorem dashless_of_numbered (h : kind.numbered id = .ok r) : Dashless id :=
  dashless_of_number? (numbered_eq_ok h).1

theorem eq_of_numbered {s : NodeKind × Nat} (h : kind.numbered id = .ok r)
    (hj : j.numbered id = .ok s) : j = kind :=
  eq_of_number? (numbered_eq_ok h).1 (numbered_eq_ok hj).1

theorem ne_of_numbered (h : kind.numbered id = .ok r) : id ≠ "" ∧ id ≠ Choreography.topLevel := by
  obtain ⟨digits, hid, -⟩ := toList_of_number? (numbered_eq_ok h).1
  constructor
  · rintro rfl
    cases kind <;> simp [stem] at hid
  · rintro rfl
    cases kind <;> simp [stem, Choreography.topLevel] at hid

end NodeKind

/-- The number in a node's id. -/
def Node.number {τ : Type} [FreeText τ] (n : Node τ) : Nat :=
  ((IdPools.get {} n.kind).value? n.id).getD 0

/-! ## References that are looked up -/

section References

variable {known : String → Bool} {unknown : String → DocumentError}

theorem Json.resolve_eq_ok {j : Json} {id : String} :
    j.resolve known unknown = .ok id ↔ j = .str id ∧ known id = true := by
  cases j with
  | str s =>
    show (if known s then Except.ok s else .error (unknown s)) = _ ↔ _
    by_cases hs : known s = true
    · rw [if_pos hs, Except.ok.injEq, str.injEq]
      exact ⟨fun h => ⟨h, h ▸ hs⟩, And.left⟩
    · rw [if_neg hs, str.injEq]
      exact ⟨fun h => (nomatch h), fun ⟨h, hid⟩ => absurd (h ▸ hid) hs⟩
  | _ => exact ⟨fun h => (nomatch h), fun ⟨h, _⟩ => (nomatch h)⟩

/-- The text that a reference is, if it is one. -/
def Json.name? : Json → Option String
  | str s => some s
  | _ => none

/-- A reference that may be left out is read back from its text. -/
theorem bind_name?_map (p : Option String) : (p.map Json.str).bind Json.name? = p := by
  cases p <;> rfl

/-- A reference that may be left out is looked up if it names what is known. -/
theorem resolved_iff {j : Option Json} {p : Option String} :
    j.mapM (Json.resolve known unknown) = .ok p ↔
      j = p.map .str ∧ ∀ k, p = some k → known k = true := by
  cases j with
  | none =>
    cases p with
    | none => exact ⟨fun _ => ⟨rfl, fun _ h => (nomatch h)⟩, fun _ => rfl⟩
    | some k => exact ⟨fun h => (nomatch h), fun ⟨h, _⟩ => (nomatch h)⟩
  | some j =>
    show some <$> j.resolve known unknown = _ ↔ _
    rw [map_eq_ok]
    constructor
    · rintro ⟨k, hk, rfl⟩
      obtain ⟨rfl, hknown⟩ := Json.resolve_eq_ok.mp hk
      exact ⟨rfl, fun _ hid => Option.some.inj hid ▸ hknown⟩
    · rintro ⟨hj, hknown⟩
      cases p with
      | none => cases hj
      | some k => exact ⟨k, Json.resolve_eq_ok.mpr ⟨Option.some.inj hj, hknown k rfl⟩, rfl⟩

end References

/-! ## Entries that are read -/

namespace Roster

variable {τ : Type} [FreeText τ] {roster : Roster τ}

theorem container_eq_ok {x : ContainerEntry τ} {y : Container τ} :
    roster.container x = .ok y ↔ ∃ p, (x.parent = p.map .str ∧
      ∀ k, p = some k → roster.containers.contains k = true) ∧ x.container p = y := by
  rw [container, map_eq_ok]
  exact exists_congr fun p => and_congr_left fun _ => resolved_iff

theorem event_eq_ok {e : EventEntry τ} {f : Event τ} :
    roster.event e = .ok f ↔ ∃ p, (e.parent = p.map .str ∧
      ∀ k, p = some k → roster.containers.contains k = true) ∧ e.event p = f := by
  rw [event, map_eq_ok]
  exact exists_congr fun p => and_congr_left fun _ => resolved_iff

theorem key_of_container {x : ContainerEntry τ} {y : Container τ} (h : roster.container x = .ok y) :
    Keyed.key y = Keyed.key x := by
  obtain ⟨p, -, rfl⟩ := container_eq_ok.mp h
  rfl

theorem key_of_event {e : EventEntry τ} {f : Event τ} (h : roster.event e = .ok f) :
    Keyed.key f = Keyed.key e := by
  obtain ⟨p, -, rfl⟩ := event_eq_ok.mp h
  rfl

theorem container_mem_of_mem {nodes : List (NodeEntry τ)} {x : ContainerEntry τ}
    (h : x ∈ (ofNodes nodes).containers.entries) : NodeEntry.container x ∈ nodes := by
  obtain ⟨n, hn, hx⟩ := List.mem_filterMap.mp (Store.mem_ofList h)
  cases n with
  | container y => cases hx; exact hn
  | _ => cases hx

theorem event_mem_of_mem {nodes : List (NodeEntry τ)} {e : EventEntry τ}
    (h : e ∈ (ofNodes nodes).events.entries) : NodeEntry.event e ∈ nodes := by
  obtain ⟨n, hn, he⟩ := List.mem_filterMap.mp (Store.mem_ofList h)
  cases n with
  | event f => cases he; exact hn
  | _ => cases he

/-- What is checked of the relation that an edge is read as, apart from those before it. -/
structure Accepts (roster : Roster τ) (e : EdgeEntry τ) (r : Relation τ) : Prop where
  made : r = e.relation r.source r.target r.scope
  source : e.source = .str r.source ∧ roster.hasNode r.source = true
  target : e.target = .str r.target ∧ roster.hasNode r.target = true
  landing : r.type = .spawn → roster.hasSubprocess r.target = true
  scope : e.scope = r.scope.map .str ∧ ∀ k, r.scope = some k → roster.containers.contains k = true

theorem relation_eq_ok {before : List (Relation τ)} {e : EdgeEntry τ} {r : Relation τ} :
    roster.relation before e = .ok r ↔
      roster.Accepts e r ∧ ∀ b ∈ before, ¬ (b.pair = r.pair ∧ b.type = r.type) := by
  simp only [relation, bind_eq_ok]
  constructor
  · rintro ⟨source, hsource, target, htarget, h⟩
    split at h
    · cases h
    · next hfind =>
      split at h
      · cases h
      · next hland =>
        obtain ⟨scope, hscope, h⟩ := bind_eq_ok.mp h
        cases h
        refine ⟨⟨rfl, Json.resolve_eq_ok.mp hsource, Json.resolve_eq_ok.mp htarget, fun ht => ?_,
          resolved_iff.mp hscope⟩, fun b hb hjoins => ?_⟩
        · by_contra hn
          exact hland ⟨ht, Bool.not_eq_true' _ ▸ Bool.eq_false_iff.mpr hn⟩
        · exact List.find?_eq_none.mp hfind b hb (Relation.joins_iff.mpr hjoins)
  · rintro ⟨h, hbefore⟩
    refine ⟨r.source, Json.resolve_eq_ok.mpr h.source, r.target,
      Json.resolve_eq_ok.mpr h.target, ?_⟩
    have htype : e.type = r.type := by rw [h.made]; rfl
    have hfind : before.find? (fun b => b.joins r.source r.target e.type) = none :=
      List.find?_eq_none.mpr fun b hb hjoins => hbefore b hb (htype ▸ Relation.joins_iff.mp hjoins)
    have hland : ¬ (e.type = .spawn ∧ (!roster.hasSubprocess r.target) = true) := by
      rintro ⟨ht, hn⟩
      rw [h.landing (htype ▸ ht)] at hn
      cases hn
    rw [hfind]
    refine (if_neg hland).trans (bind_eq_ok.mpr ⟨r.scope, resolved_iff.mpr h.scope, ?_⟩)
    exact congrArg Except.ok h.made.symm

/-- The edges are read one by one, and no two relations of a type have the same ends. -/
theorem relations_eq_ok {before rs : List (Relation τ)} {edges : List (EdgeEntry τ)}
    (h : roster.relations before edges = .ok rs)
    (hbefore : before.Pairwise fun r s => ¬ (r.pair = s.pair ∧ r.type = s.type)) :
    (∃ new, rs = before ++ new ∧ List.Forall₂ roster.Accepts edges new) ∧
      rs.Pairwise fun r s => ¬ (r.pair = s.pair ∧ r.type = s.type) := by
  induction edges generalizing before with
  | nil =>
    cases h
    exact ⟨⟨[], (List.append_nil _).symm, .nil⟩, hbefore⟩
  | cons e rest ih =>
    obtain ⟨r, hr, h⟩ := bind_eq_ok.mp h
    obtain ⟨haccepts, hnew⟩ := relation_eq_ok.mp hr
    have hpairwise : (before ++ [r]).Pairwise fun r s => ¬ (r.pair = s.pair ∧ r.type = s.type) := by
      refine List.pairwise_append.mpr ⟨hbefore, List.pairwise_singleton _ _, fun b hb s hs => ?_⟩
      rw [List.mem_singleton.mp hs]
      exact hnew b hb
    obtain ⟨⟨new, rfl, hall⟩, hsingle⟩ := ih h hpairwise
    exact ⟨⟨r :: new, by rw [List.append_assoc, List.singleton_append], .cons haccepts hall⟩,
      hsingle⟩

end Roster

/-- What an accepted document says, store by store. -/
structure Document.Tells {τ : Type} [FreeText τ] (d : Document τ) (c : Choreography τ) : Prop where
  pools : ∃ used, c.ids = .ofUsed used ∧
    ∀ n ∈ d.nodes, ∃ r ∈ used, (Roster.ofNodes d.nodes).numberOf n = .ok r
  containers : List.Forall₂ (fun x y => (Roster.ofNodes d.nodes).container x = .ok y)
    (Roster.ofNodes d.nodes).containers.entries c.containers.entries
  events : List.Forall₂ (fun e f => (Roster.ofNodes d.nodes).event e = .ok f)
    (Roster.ofNodes d.nodes).events.entries c.events.entries
  relations : List.Forall₂ (Roster.ofNodes d.nodes).Accepts (Store.ofList d.edges).entries
    c.relations.entries
  single : c.relations.entries.Pairwise fun r s => ¬ (r.pair = s.pair ∧ r.type = s.type)
  roles : c.roles = d.roles

namespace Document

variable {τ : Type} [FreeText τ] {d : Document τ} {c : Choreography τ}

/-- What is read from the entries of a store can be put in a store as it is. -/
theorem entries_ofList_of_forall₂ {α β : Type} [Keyed α] [Keyed β] {R : α → β → Prop} {s : Store α}
    {ys : List β} (h : List.Forall₂ R s.entries ys)
    (hkey : ∀ x y, R x y → Keyed.key y = Keyed.key x) : (Store.ofList ys).entries = ys := by
  refine Store.entries_ofList ?_
  rw [map_eq_of_forall₂ h hkey]
  exact s.distinct

theorem tells_of_check (h : d.check = .ok c) : d.Tells c := by
  simp only [check, bind_eq_ok] at h
  obtain ⟨used, hused, containers, hcontainers, events, hevents, relations, hrelations, h⟩ := h
  cases h
  have hcontainers := forall₂_of_mapM hcontainers
  have hevents := forall₂_of_mapM hevents
  obtain ⟨⟨_, rfl, hrelations⟩, hsingle⟩ := Roster.relations_eq_ok hrelations .nil
  have hx := entries_ofList_of_forall₂ hcontainers fun _ _ => Roster.key_of_container
  have he := entries_ofList_of_forall₂ hevents fun _ _ => Roster.key_of_event
  have hr := entries_ofList_of_forall₂ hrelations fun _ _ hr => congrArg Relation.id hr.made
  refine ⟨⟨used, rfl, fun n hn => ?_⟩, hx.symm ▸ hcontainers, he.symm ▸ hevents,
    hr.symm ▸ hrelations, hr.symm ▸ hsingle, rfl⟩
  have hsorted : n ∈ (d.nodes.filter fun n => !n.isEvent) ++ d.nodes.filter NodeEntry.isEvent := by
    cases hkind : n.isEvent <;> simp [hn, hkind]
  exact exists_of_forall₂ (forall₂_of_mapM hused).flip hsorted

/-- A document that passes the checks is loaded, with all containers settled one after the other. -/
theorem load_eq_ok :
    d.load.value = .ok c ↔
      ∃ b, d.check = .ok b ∧ (b.settleAll b.containers.keys).value.1 = c := by
  cases hcheck : d.check with
  | error e =>
    rw [load, hcheck]
    constructor
    · intro h
      cases h
    · rintro ⟨_, h, _⟩
      cases h
  | ok b =>
    have hvalue : d.load.value = .ok (b.settleAll b.containers.keys).value.1 := by
      rw [load, hcheck]
      simp only [Logged.value_bind]
      split <;> rfl
    rw [hvalue]
    constructor
    · exact fun h => ⟨b, rfl, Except.ok.inj h⟩
    · rintro ⟨a, ha, rfl⟩
      rw [Except.ok.inj ha]

/-- What the checks establish, and looking after a container and dropping an empty one keep, holds
of what is loaded. -/
theorem load_rule {P : Choreography τ → Prop} (hc : d.load.value = .ok c)
    (check : ∀ b, d.check = .ok b → P b) (tended : ∀ c k, P c → P (c.tended k))
    (drop : ∀ c x id, P c → c.containers.get? id = some x → c.children id = [] →
      P (c.dropContainer x)) : P c := by
  obtain ⟨b, hcheck, rfl⟩ := load_eq_ok.mp hc
  exact Choreography.settleAll_rule tended drop (check b hcheck) _

end Document

namespace Choreography

/-- Ids that can be read tell events from containers. -/
theorem apart_of_read {τ : Type} [FreeText τ] {c : Choreography τ}
    (h : ∀ n ∈ c.nodes, ∃ m, n.kind.number? n.id = some m) : c.Apart := by
  intro e he x hx hid
  obtain ⟨m, hm⟩ := h _ (event_mem_nodes.mpr he)
  obtain ⟨l, hl⟩ := h _ (container_mem_nodes.mpr hx)
  have hkind : x.kind.node = .event := NodeKind.eq_of_number? hm ((congrArg _ hid).trans hl)
  cases hx : x.kind <;> rw [hx] at hkind <;> cases hkind

theorem number?_of_numbered {τ : Type} [FreeText τ] {c : Choreography τ}
    (h : ∀ n ∈ c.nodes, n.kind.numbered n.id = .ok (n.kind, n.number)) :
    ∀ n ∈ c.nodes, n.kind.number? n.id = some n.number := fun n hn =>
  (NodeKind.numbered_eq_ok (h n hn)).1

theorem apart_of_numbered {τ : Type} [FreeText τ] {c : Choreography τ}
    (h : ∀ n ∈ c.nodes, n.kind.numbered n.id = .ok (n.kind, n.number)) : c.Apart :=
  apart_of_read fun n hn => ⟨_, number?_of_numbered h n hn⟩

/-- What the checks of a document establish of nodes and relations, scopes apart. -/
structure Checked (c : Choreography String) : Prop where
  numbered : ∀ n ∈ c.nodes, n.kind.numbered n.id = .ok (n.kind, n.number)
  labelled : ∀ n ∈ c.nodes, n.label ≠ ""
  lasting : c.Lasting
  parents : ∀ n ∈ c.nodes, ∀ k, n.parent = some k → c.containers.contains k = true
  ends : ∀ r ∈ c.relations.entries, c.hasNode r.source = true ∧ c.hasNode r.target = true
  single : ∀ r ∈ c.relations.entries, ∀ s ∈ c.relations.entries, r.pair = s.pair →
    r.type = s.type → r = s
  landing : ∀ r ∈ c.relations.entries, r.type = .spawn → c.form? r.target = some .subprocess
  marked : ∀ r ∈ c.relations.entries, r.generated = Relation.isGeneratedId r.id

section Checked

variable {c : Choreography String} {n : Node String} {k : String} (h : c.Checked)
include h

theorem Checked.dashless : ∀ n ∈ c.nodes, Dashless n.id := fun n hn =>
  NodeKind.dashless_of_numbered (h.numbered n hn)

theorem Checked.apart : c.Apart := apart_of_numbered h.numbered

theorem Checked.ne_of_contains (hk : c.containers.contains k = true) : k ≠ "" ∧ k ≠ topLevel := by
  obtain ⟨n, hn, rfl, -⟩ := contains_iff_node.mp hk
  exact NodeKind.ne_of_numbered (h.numbered n hn)

/-- At most one exclusion joins a pair. -/
theorem Checked.singleIn : SingleIn c.relations.entries := Single.singleIn h.single

end Checked

/-- Every scope is a container. -/
def Scoped {τ : Type} [FreeText τ] (c : Choreography τ) : Prop :=
  ∀ r ∈ c.relations.entries, ∀ k, r.scope = some k → c.containers.contains k = true

end Choreography

theorem Node.numbered_number {τ : Type} [FreeText τ] {n : Node τ} {r : NodeKind × Nat}
    (h : n.kind.numbered n.id = .ok r) : n.kind.numbered n.id = .ok (n.kind, n.number) := by
  obtain ⟨hvalue, hkind⟩ := NodeKind.numbered_eq_ok h
  have hnumber : n.number = r.2 := congrArg (Option.getD · 0) hvalue
  rw [h, hnumber, ← hkind]

theorem orText_ne {s t : String} (ht : t ≠ "") : FreeText.orText (some s) t ≠ "" := by
  rw [FreeText.orText, Option.filter_some]
  split
  · next hs => exact bne_iff_ne.mp hs
  · exact ht

namespace Document.Tells

section

variable {τ : Type} [FreeText τ] {d : Document τ} {c : Choreography τ} (h : d.Tells c)
include h

theorem numbers : ∀ n ∈ d.nodes, ∃ r, (Roster.ofNodes d.nodes).numberOf n = .ok r := by
  intro n hn
  obtain ⟨used, -, hused⟩ := h.pools
  obtain ⟨r, -, hr⟩ := hused n hn
  exact ⟨r, hr⟩

theorem contains_eq (id : String) :
    c.containers.contains id = (Roster.ofNodes d.nodes).containers.contains id :=
  Store.contains_of_keys (map_eq_of_forall₂ h.containers fun _ _ => Roster.key_of_container) id

theorem hasNode_eq (id : String) : c.hasNode id = (Roster.ofNodes d.nodes).hasNode id := by
  have hevents := Store.contains_of_keys
    (map_eq_of_forall₂ h.events fun _ _ => Roster.key_of_event) id
  rw [Choreography.hasNode_eq, hevents, h.contains_eq]
  rfl

/-- The entry of a container. -/
theorem container_entry {y : Container τ} (hy : y ∈ c.containers.entries) :
    ∃ (x : ContainerEntry τ) (p : Option String), (∃ r, y.kind.node.numbered x.id = .ok r) ∧
      (∀ k, p = some k → c.containers.contains k = true) ∧ y = x.container p := by
  obtain ⟨x, hx, hxy⟩ := exists_of_forall₂ h.containers hy
  obtain ⟨p, ⟨-, hp⟩, rfl⟩ := Roster.container_eq_ok.mp hxy
  obtain ⟨r, hr⟩ := h.numbers _ (Roster.container_mem_of_mem hx)
  have hget : (Roster.ofNodes d.nodes).containers.get? x.id = some x :=
    Store.get?_eq_some_iff.mpr ⟨hx, rfl⟩
  rw [Roster.numberOf, hget] at hr
  exact ⟨x, p, ⟨r, hr⟩, fun k hk => (h.contains_eq k).trans (hp k hk), rfl⟩

/-- The entry of an event. -/
theorem event_entry {f : Event τ} (hf : f ∈ c.events.entries) :
    ∃ (e : EventEntry τ) (p : Option String), (∃ r, NodeKind.event.numbered e.id = .ok r) ∧
      (∀ k, p = some k → c.containers.contains k = true) ∧ f = e.event p := by
  obtain ⟨e, he, hef⟩ := exists_of_forall₂ h.events hf
  obtain ⟨p, ⟨-, hp⟩, rfl⟩ := Roster.event_eq_ok.mp hef
  exact ⟨e, p, h.numbers _ (Roster.event_mem_of_mem he),
    fun k hk => (h.contains_eq k).trans (hp k hk), rfl⟩

/-- The id of every node can be read. -/
theorem numbered : ∀ n ∈ c.nodes, n.kind.numbered n.id = .ok (n.kind, n.number) := by
  intro n hn
  rcases Choreography.mem_nodes.mp hn with ⟨y, hy, rfl⟩ | ⟨f, hf, rfl⟩
  · obtain ⟨x, p, ⟨r, hr⟩, -, rfl⟩ := h.container_entry hy
    exact Node.numbered_number (n := .container (x.container p)) hr
  · obtain ⟨e, p, ⟨r, hr⟩, -, rfl⟩ := h.event_entry hf
    exact Node.numbered_number (n := .event (e.event p)) hr

/-- Every place is a container. -/
theorem parents : ∀ n ∈ c.nodes, ∀ k, n.parent = some k → c.containers.contains k = true := by
  intro n hn k hk
  rcases Choreography.mem_nodes.mp hn with ⟨y, hy, rfl⟩ | ⟨f, hf, rfl⟩
  · obtain ⟨x, p, -, hp, rfl⟩ := h.container_entry hy
    exact hp k hk
  · obtain ⟨e, p, -, hp, rfl⟩ := h.event_entry hf
    exact hp k hk

theorem form?_of_hasSubprocess {id : String}
    (hid : (Roster.ofNodes d.nodes).hasSubprocess id = true) : c.form? id = some .subprocess := by
  rw [Roster.hasSubprocess, Option.any_eq_true] at hid
  obtain ⟨x, hget, hform⟩ := hid
  obtain ⟨hx, rfl⟩ := Store.get?_eq_some_iff.mp hget
  obtain ⟨y, hy, hxy⟩ := exists_of_forall₂ h.containers.flip hx
  obtain ⟨p, -, rfl⟩ := Roster.container_eq_ok.mp hxy
  rw [← beq_iff_eq.mp hform]
  exact Choreography.form?_container hy

/-- A relation is that of an edge of the document. -/
theorem edge {r : Relation τ} (hr : r ∈ c.relations.entries) :
    ∃ e ∈ d.edges, (Roster.ofNodes d.nodes).Accepts e r := by
  obtain ⟨e, he, haccepts⟩ := exists_of_forall₂ h.relations hr
  exact ⟨e, Store.mem_ofList he, haccepts⟩

theorem landing : ∀ r ∈ c.relations.entries, r.type = .spawn →
    c.form? r.target = some .subprocess := by
  intro r hr ht
  obtain ⟨e, -, haccepts⟩ := h.edge hr
  exact h.form?_of_hasSubprocess (haccepts.landing ht)

/-- No two relations of one type have the same ends. -/
theorem unique : ∀ r ∈ c.relations.entries, ∀ s ∈ c.relations.entries, r.pair = s.pair →
    r.type = s.type → r = s := by
  intro r hr s hs hpair htype
  have hsymm : Std.Symm fun r s : Relation τ => ¬ (r.pair = s.pair ∧ r.type = s.type) :=
    ⟨fun _ _ hn ⟨hp, ht⟩ => hn ⟨hp.symm, ht.symm⟩⟩
  by_contra hne
  exact h.single.forall hr hs hne ⟨hpair, htype⟩

theorem scopes : c.Scoped := by
  intro r hr k hk
  obtain ⟨e, -, haccepts⟩ := h.edge hr
  exact (h.contains_eq k).trans (haccepts.scope.2 k hk)

end

/-- What an accepted document says passes the checks for good, if its roles are labelled. -/
theorem checked {d : Document String} {c : Choreography String} (h : d.Tells c)
    (hroles : ∀ r ∈ d.roles, r.label ≠ "" ∨ r.label = r.name) : c.Checked where
  numbered := h.numbered
  labelled n hn := by
    rcases Choreography.mem_nodes.mp hn with ⟨y, hy, rfl⟩ | ⟨f, hf, rfl⟩
    · obtain ⟨x, p, ⟨r, hr⟩, -, rfl⟩ := h.container_entry hy
      exact orText_ne (NodeKind.ne_of_numbered hr).1
    · obtain ⟨e, p, ⟨r, hr⟩, -, rfl⟩ := h.event_entry hf
      exact orText_ne (NodeKind.ne_of_numbered hr).1
  lasting := by
    refine ⟨⟨fun f hf => ?_, fun y hy => ?_⟩, fun r hr => ?_⟩
    · obtain ⟨e, p, -, -, rfl⟩ := h.event_entry hf
      exact ⟨rfl, rfl⟩
    · obtain ⟨x, p, -, -, rfl⟩ := h.container_entry hy
      exact ⟨rfl, rfl⟩
    · exact (hroles r (h.roles ▸ hr)).imp_left bne_iff_ne.mpr
  parents := h.parents
  ends r hr := by
    obtain ⟨e, -, haccepts⟩ := h.edge hr
    exact ⟨(h.hasNode_eq _).trans haccepts.source.2, (h.hasNode_eq _).trans haccepts.target.2⟩
  single := h.unique
  landing := h.landing
  marked r hr := by
    obtain ⟨e, -, haccepts⟩ := h.edge hr
    rw [haccepts.made]
    rfl

end Document.Tells

/-! ## Roles -/

theorem Role.labelled_of_json {j : Json} {r : Role String} (h : ofJson j = .ok r) :
    r.label ≠ "" ∨ r.label = r.name := by
  simp only [ofJson, bind_eq_ok] at h
  obtain ⟨_, _, name, _, _, _, label, _, _, _, _, _, _, _, _, _, _, _, h⟩ := h
  cases h
  show (if FreeText.holds label then label else name) ≠ "" ∨ (if FreeText.holds label then label
    else name) = name
  split
  · next hlabel => exact .inl (bne_iff_ne.mp hlabel)
  · exact .inr rfl

/-- The roles of a document that is read are labelled. -/
theorem Document.labelled_of_json {j : Json} {d : Document String} (h : ofJson j = .ok d) :
    ∀ r ∈ d.roles, r.label ≠ "" ∨ r.label = r.name := by
  simp only [ofJson, bind_eq_ok] at h
  obtain ⟨_, _, _, _, _, _, _, _, _, _, _, _, _, _, _, _, roles, hroles, _, _, _, _, _, _, _, _,
    h⟩ := h
  cases h
  intro r hr
  obtain ⟨_, _, hread⟩ := exists_of_forall₂ (forall₂_of_mapM hroles) hr
  exact Role.labelled_of_json hread

end Dcr
