import Dcr.Store
import Mathlib.Data.List.Induction
import Mathlib.Data.List.Nodup

/-! Laws of stores. Every operation is described by the entries it leaves, and lookup by membership;
later modules never open an operation again. -/

namespace Dcr.Store

open Keyed (key)

variable {α : Type} [Keyed α] {s : Store α} {x y : α} {k : String}

/-! ## Lookup -/

theorem eq_of_key (hx : x ∈ s.entries) (hy : y ∈ s.entries) (h : key x = key y) : x = y :=
  List.inj_on_of_nodup_map s.distinct hx hy h

theorem get?_eq_some_iff : s.get? k = some x ↔ x ∈ s.entries ∧ key x = k := by
  constructor
  · intro h
    exact ⟨List.mem_of_find?_eq_some h, by simpa using List.find?_some h⟩
  · intro hall
    obtain ⟨hx, rfl⟩ := hall
    cases h : s.get? (key x) with
    | none => exact absurd (beq_self_eq_true (key x)) (List.find?_eq_none.mp h x hx)
    | some y =>
      have hk : key y = key x := by simpa using List.find?_some h
      rw [eq_of_key (List.mem_of_find?_eq_some h) hx hk]

theorem get?_eq_none_iff : s.get? k = none ↔ ∀ x ∈ s.entries, key x ≠ k := by
  simp [get?, List.find?_eq_none]

theorem contains_iff : s.contains k = true ↔ ∃ x ∈ s.entries, key x = k := by
  simp [contains, get?]

theorem contains_of_mem (hx : x ∈ s.entries) : s.contains (key x) = true :=
  contains_iff.mpr ⟨x, hx, rfl⟩

theorem nodup_entries (s : Store α) : s.entries.Nodup := s.distinct.of_map key

theorem mem_keys : k ∈ s.keys ↔ s.contains k = true := by
  rw [contains_iff, keys, List.mem_map]

/-! ## Entries left by the operations -/

@[simp] theorem entries_empty : (∅ : Store α).entries = [] := rfl

@[simp] theorem entries_filter (keep : α → Bool) :
    (s.filter keep).entries = s.entries.filter keep := rfl

@[simp] theorem entries_erase : (s.erase k).entries = s.entries.filter fun x => key x != k := rfl

@[simp] theorem entries_modify (f : α → α) (same : ∀ x, key (f x) = key x) :
    (s.modify k f same).entries = s.entries.map fun x => if key x == k then f x else x := rfl

theorem filter_filter (p q : α → Bool) : (s.filter p).filter q = s.filter fun x => p x && q x :=
  ext (by simp [List.filter_filter, Bool.and_comm])

@[simp] theorem filter_true : s.filter (fun _ => true) = s := ext (by simp)

theorem filter_eq_self {keep : α → Bool} (h : ∀ x ∈ s.entries, keep x = true) :
    s.filter keep = s :=
  ext (List.filter_eq_self.mpr h)

theorem entries_modify_update (f g : α → α) (hf : ∀ x, key (f x) = key x)
    (hg : ∀ x, key (g x) = key x) : ((s.update f hf).modify k g hg).entries =
      s.entries.map fun x => if key x == k then g (f x) else f x := by
  show (s.entries.map f).map _ = _
  rw [List.map_map]
  exact List.map_congr_left fun x _ => by rw [Function.comp_apply, hf]

theorem mem_erase : x ∈ (s.erase k).entries ↔ x ∈ s.entries ∧ key x ≠ k := by simp

theorem mem_modify {f : α → α} {same : ∀ x, key (f x) = key x} :
    y ∈ (s.modify k f same).entries ↔ ∃ x ∈ s.entries, y = if key x = k then f x else x := by
  simp only [entries_modify, List.mem_map, beq_iff_eq]
  exact exists_congr fun x => and_congr_right fun _ => eq_comm

/-- A change of one entry leaves the others as they are. -/
theorem mem_modify_of_ne {f : α → α} {same : ∀ x, key (f x) = key x} (hne : key y ≠ k) :
    y ∈ (s.modify k f same).entries ↔ y ∈ s.entries := by
  rw [mem_modify]
  constructor
  · rintro ⟨x, hx, rfl⟩
    split at hne
    · next hk => exact absurd ((same x).trans hk) hne
    · next hk => rwa [if_neg hk]
  · exact fun hy => ⟨y, hy, (if_neg hne).symm⟩

/-- What holds of all entries and is kept by a change of one holds of all entries after it. -/
theorem forall_modified {P : α → Prop} {f : α → α} (h : ∀ x ∈ s.entries, P x)
    (hf : ∀ x ∈ s.entries, P x → P (f x)) :
    ∀ y ∈ s.entries.map (fun x => if key x == k then f x else x), P y := by
  intro y hy
  obtain ⟨x, hx, rfl⟩ := List.mem_map.mp hy
  split
  · exact hf x hx (h x hx)
  · exact h x hx

theorem put_of_fresh {xs : List α} (h : ∀ y ∈ xs, key y ≠ key x) : put x xs = xs ++ [x] := by
  induction xs with
  | nil => rfl
  | cons y rest ih =>
    have hy := h y List.mem_cons_self
    simp [put, hy, ih fun z hz => h z (List.mem_cons_of_mem _ hz)]

theorem entries_insert_of_ne (h : ∀ y ∈ s.entries, key y ≠ key x) :
    (s.insert x).entries = s.entries ++ [x] := put_of_fresh h

theorem mem_put_iff {xs : List α} (h : (xs.map key).Nodup) :
    y ∈ put x xs ↔ y = x ∨ y ∈ xs ∧ key y ≠ key x := by
  induction xs with
  | nil => simp [put]
  | cons z rest ih =>
    obtain ⟨hfresh, h⟩ := List.nodup_cons.mp h
    unfold put
    split
    · next hz =>
      -- the key is gone from the rest
      have hrest : ∀ y ∈ rest, key y ≠ key x := fun y hy he =>
        hfresh (hz ▸ he ▸ List.mem_map_of_mem hy)
      rw [List.mem_cons, List.mem_cons]
      refine or_congr_right ⟨fun hy => ⟨.inr hy, hrest y hy⟩, fun hy => ?_⟩
      exact hy.1.resolve_left fun he => hy.2 (he ▸ hz)
    · next hz =>
      rw [List.mem_cons, ih h, List.mem_cons]
      constructor
      · rintro (rfl | rfl | ⟨hy, hne⟩)
        · exact .inr ⟨.inl rfl, hz⟩
        · exact .inl rfl
        · exact .inr ⟨.inr hy, hne⟩
      · rintro (rfl | ⟨rfl | hy, hne⟩)
        · exact .inr (.inl rfl)
        · exact .inl rfl
        · exact .inr (.inr ⟨hy, hne⟩)

/-- An insertion replaces the entry under the key, and no other. -/
theorem mem_insert_iff : y ∈ (s.insert x).entries ↔ y = x ∨ y ∈ s.entries ∧ key y ≠ key x :=
  mem_put_iff s.distinct

/-- The entries after an insertion are the new one and old ones. -/
theorem mem_insert (h : y ∈ (s.insert x).entries) : y = x ∨ y ∈ s.entries :=
  (mem_insert_iff.mp h).imp_right And.left

theorem entries_foldl_erase {ks : List α} : (ks.foldl (fun s y => s.erase (key y)) s).entries =
    s.entries.filter fun x => ks.all fun y => key x != key y := by
  induction ks generalizing s with
  | nil => simp
  | cons y rest ih =>
    rw [List.foldl_cons, ih, entries_erase, List.filter_filter]
    exact List.filter_congr fun x _ => Bool.and_comm _ _

/-! ## Building a store -/

theorem entries_foldl_insert {xs : List α} {s : Store α}
    (h : ((s.entries ++ xs).map key).Nodup) : (xs.foldl insert s).entries = s.entries ++ xs := by
  induction xs generalizing s with
  | nil => simp
  | cons x rest ih =>
    have hf : ∀ y ∈ s.entries, key y ≠ key x := by
      simp only [List.map_append, List.map_cons, List.nodup_append] at h
      exact fun y hy => h.2.2 _ (List.mem_map_of_mem hy) _ List.mem_cons_self
    have hs := entries_insert_of_ne hf
    rw [List.foldl_cons, ih (by simpa [hs] using h), hs, List.append_assoc, List.singleton_append]

/-- No later item of a list has the key of this one. -/
def Prevails {α β : Type} (key : α → β) (xs : List α) (x : α) : Prop :=
  ∃ before after, xs = before ++ x :: after ∧ ∀ y ∈ after, key y ≠ key x

theorem Prevails.mem {α β : Type} {key : α → β} {xs : List α} {x : α} (h : Prevails key xs x) :
    x ∈ xs := by
  obtain ⟨before, after, rfl, -⟩ := h
  exact List.mem_append_right _ List.mem_cons_self

/-- Where no two items have one key each of them prevails. -/
theorem prevails_of_nodup {α β : Type} {key : α → β} {xs : List α} {x : α}
    (h : (xs.map key).Nodup) (hx : x ∈ xs) : Prevails key xs x := by
  obtain ⟨before, after, rfl⟩ := List.append_of_mem hx
  rw [List.map_append, List.map_cons, List.nodup_append] at h
  refine ⟨before, after, rfl, fun y hy he => ?_⟩
  exact (List.nodup_cons.mp h.2.1).1 (he ▸ List.mem_map_of_mem hy)

/-- What is read from an item that prevails does so among what is read. -/
theorem Prevails.filterMap {α β γ δ : Type} {key : α → γ} {key' : β → δ} {f : α → Option β}
    {g : δ → γ} (hkey : ∀ x y, f x = some y → key x = g (key' y)) {xs : List α} {x : α} {y : β}
    (h : Prevails key xs x) (hx : f x = some y) : Prevails key' (xs.filterMap f) y := by
  obtain ⟨before, after, rfl, hafter⟩ := h
  refine ⟨before.filterMap f, after.filterMap f, ?_, fun z hz he => ?_⟩
  · rw [List.filterMap_append, List.filterMap_cons_some hx]
  · obtain ⟨w, hw, hwz⟩ := List.mem_filterMap.mp hz
    exact hafter w hw (by rw [hkey w z hwz, hkey x y hx, he])

/-- What prevails among what is read is read from an item after which nothing with its key is. -/
theorem Prevails.of_filterMap {α β δ : Type} {key : β → δ} {f : α → Option β} {xs : List α}
    {y : β} (h : Prevails key (xs.filterMap f) y) :
    ∃ before x after, xs = before ++ x :: after ∧ f x = some y ∧
      ∀ w ∈ after, ∀ z, f w = some z → key z ≠ key y := by
  obtain ⟨before, after, hxs, hafter⟩ := h
  obtain ⟨left, right, rfl, -, hright⟩ := List.filterMap_eq_append_iff.mp hxs
  obtain ⟨skipped, x, rest, rfl, -, hx, rfl⟩ := List.filterMap_eq_cons_iff.mp hright
  exact ⟨left ++ skipped, x, rest, by simp, hx,
    fun w hw z hz => hafter z (List.mem_filterMap.mpr ⟨w, hw, hz⟩)⟩

theorem not_prevails_nil {α β : Type} {key : α → β} {x : α} : ¬ Prevails key [] x :=
  fun h => List.not_mem_nil h.mem

theorem prevails_concat {α β : Type} {key : α → β} {xs : List α} {x y : α} :
    Prevails key (xs ++ [y]) x ↔ x = y ∨ Prevails key xs x ∧ key x ≠ key y := by
  constructor
  · rintro ⟨before, after, h, hafter⟩
    rcases List.eq_nil_or_concat after with rfl | ⟨init, last, rfl⟩
    · obtain ⟨-, hxy⟩ := List.append_inj' h rfl
      exact .inl (List.cons.inj hxy).1.symm
    · rw [List.concat_eq_append, ← List.cons_append, ← List.append_assoc] at h
      rw [List.concat_eq_append] at hafter
      obtain ⟨rfl, hy⟩ := List.append_inj' h rfl
      rw [(List.cons.inj hy).1]
      exact .inr ⟨⟨before, init, rfl, fun z hz => hafter z (List.mem_append_left _ hz)⟩,
        (hafter last (List.mem_append_right _ List.mem_cons_self)).symm⟩
  · rintro (rfl | ⟨⟨before, after, rfl, hafter⟩, hne⟩)
    · exact ⟨xs, [], rfl, by simp⟩
    · refine ⟨before, after ++ [y], by simp, fun z hz => ?_⟩
      rcases List.mem_append.mp hz with hz | hz
      · exact hafter z hz
      · rw [List.mem_singleton.mp hz]
        exact hne.symm

/-- The entries of a store are those that prevail in the list that it is built of. -/
theorem mem_ofList_iff {xs : List α} : y ∈ (ofList xs).entries ↔ Prevails key xs y := by
  induction xs using List.reverseRecOn with
  | nil => exact ⟨fun h => (nomatch h), fun h => absurd h not_prevails_nil⟩
  | append_singleton xs x ih =>
    have hofList : ofList (xs ++ [x]) = (ofList xs).insert x := List.foldl_concat ..
    rw [hofList, mem_insert_iff, prevails_concat, ih]

theorem mem_ofList {xs : List α} (h : y ∈ (ofList xs).entries) : y ∈ xs := (mem_ofList_iff.mp h).mem

theorem entries_ofList {xs : List α} (h : (xs.map key).Nodup) : (ofList xs).entries = xs := by
  have hx : ((empty.entries ++ xs).map key).Nodup := by simpa [empty] using h
  simpa [ofList, empty] using entries_foldl_insert hx

@[simp] theorem ofList_entries (s : Store α) : ofList s.entries = s :=
  ext (entries_ofList s.distinct)

/-! ## Lookup after the operations -/

theorem get?_erase_of_ne {j : String} (h : j ≠ k) : (s.erase k).get? j = s.get? j := by
  refine Option.ext fun x => ?_
  simp only [get?_eq_some_iff, mem_erase]
  exact ⟨fun ⟨hx, hk⟩ => ⟨hx.1, hk⟩, fun ⟨hx, hk⟩ => ⟨⟨hx, hk ▸ h⟩, hk⟩⟩

theorem keys_update (f : α → α) (same : ∀ x, key (f x) = key x) :
    (s.update f same).keys = s.keys :=
  List.map_map.trans (List.map_congr_left fun x _ => same x)

theorem keys_modify (f : α → α) (same : ∀ x, key (f x) = key x) :
    (s.modify k f same).keys = s.keys := keys_update _ _

/-- Changes of two entries commute, and so do changes of one that do. -/
theorem modify_comm {j : String} {f g : α → α} {hf : ∀ x, key (f x) = key x}
    {hg : ∀ x, key (g x) = key x} (h : k = j → ∀ x, f (g x) = g (f x)) :
    (s.modify k f hf).modify j g hg = (s.modify j g hg).modify k f hf := by
  refine ext ?_
  simp only [entries_modify, List.map_map]
  refine List.map_congr_left fun x _ => ?_
  simp only [Function.comp_apply, apply_ite key, hf, hg, ite_self]
  cases hk : key x == k with
  | false => simp
  | true =>
    cases hj : key x == j with
    | false => simp
    | true =>
      have hkj : k = j := (beq_iff_eq.mp hk).symm.trans (beq_iff_eq.mp hj)
      simp [h hkj]

theorem contains_of_keys {β : Type} [Keyed β] {t : Store β} (h : t.keys = s.keys) (k : String) :
    t.contains k = s.contains k := by
  rw [Bool.eq_iff_iff, ← mem_keys, ← mem_keys, h]

theorem contains_update (f : α → α) (same : ∀ x, key (f x) = key x) :
    (s.update f same).contains k = s.contains k := contains_of_keys (keys_update f same) k

theorem get?_update (f : α → α) (same : ∀ x, key (f x) = key x) :
    (s.update f same).get? k = (s.get? k).map f := by
  have hkey : (fun x => key x == k) ∘ f = fun x => key x == k := funext fun x => by
    rw [Function.comp_apply, same]
  unfold get? update
  rw [List.find?_map, hkey]

theorem get?_modify {j : String} (f : α → α) (same : ∀ x, key (f x) = key x) :
    (s.modify k f same).get? j = (s.get? j).map fun x => if j = k then f x else x := by
  unfold modify
  rw [get?_update]
  cases h : s.get? j with
  | none => rfl
  | some x => simp [(get?_eq_some_iff.mp h).2]

theorem get?_erase_self : (s.erase k).get? k = none :=
  get?_eq_none_iff.mpr fun _ hx => (mem_erase.mp hx).2

end Dcr.Store
