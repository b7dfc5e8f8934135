import Dcr.Proofs.Settling

/-! Deleting nodes. The ids that are to go are closed downwards, without repetition and all of them
there, so that taking them out one by one never fails; what is left is in order as soon as the
parents that lost a child have been settled. -/

namespace Dcr.Choreography

variable {τ : Type} [FreeText τ] {c d e : Choreography τ} {n : Node τ} {x : Container τ}
  {E L A : Set String} {id a : String}
  {found ids gone more : List String}

/-! ## What is to go -/

theorem mem_ascending : a ∈ ascending ids ↔ a ∈ ids := by simp [ascending]

/-- The subtree of a node is the node and what is below it. -/
theorem mem_subtree (h : c.Placed E) : a ∈ c.subtree id ↔ a = id ∨ a ∈ c.family id := by
  have hnone : ¬ c.containers.contains id = true → a ∉ c.family id := fun hc ha => by
    obtain ⟨m, hm, _, hab⟩ := h.numbered.apart.mem_family.mp ha
    exact hc (contains_iff_up.mpr ((h.grounded m hm).isSome_of_above hab))
  unfold subtree
  split
  · simp [mem_ascending]
  · next hc => simp [hnone hc]

theorem not_mem_family_self (h : c.Placed E) : id ∉ c.family id := by
  intro hf
  obtain ⟨n, hn, hid, hab⟩ := h.numbered.apart.mem_family.mp hf
  exact h.ne_of_above hn hab hid

theorem nodup_subtree (h : c.Placed E) : (c.subtree id).Nodup := by
  unfold subtree
  split
  · refine List.nodup_cons.mpr ⟨fun hmem => not_mem_family_self h (mem_ascending.mp hmem), ?_⟩
    exact (List.mergeSort_perm _ _).nodup_iff.mpr nodup_family
  · simp

/-- Ids of nodes without repetition, and with each one all that is below it. -/
structure Lower (c : Choreography τ) (ids : List String) : Prop where
  nodup : ids.Nodup
  there : ∀ id ∈ ids, c.hasNode id = true
  closed : ∀ id ∈ ids, ∀ a ∈ c.family id, a ∈ ids

theorem Lower.append_subtree (h : c.Placed E) (hl : c.Lower found) (hid : c.hasNode id = true) :
    c.Lower (found ++ (c.subtree id).filter fun a => !found.contains a) := by
  have hmem : ∀ a, a ∈ found ++ (c.subtree id).filter (fun a => !found.contains a) ↔
      a ∈ found ∨ a = id ∨ a ∈ c.family id := fun a => by
    rw [List.mem_append, List.mem_filter, mem_subtree h]
    simp only [Bool.not_eq_true', Bool.eq_false_iff, Ne, List.contains_iff_mem]
    tauto
  refine ⟨?_, fun a ha => ?_, fun b hb a ha => ?_⟩
  · refine List.nodup_append.mpr ⟨hl.nodup, (nodup_subtree h).filter _, fun a ha b hb he => ?_⟩
    simp only [List.mem_filter, Bool.not_eq_true', Bool.eq_false_iff, Ne,
      List.contains_iff_mem] at hb
    exact hb.2 (he ▸ ha)
  · rcases (hmem a).mp ha with ha | rfl | ha
    · exact hl.there a ha
    · exact hid
    · obtain ⟨m, hm, rfl, _⟩ := h.numbered.apart.mem_family.mp ha
      exact hasNode_of_mem hm
  · refine (hmem a).mpr ?_
    rcases (hmem b).mp hb with hb | rfl | hb
    · exact .inl (hl.closed b hb a ha)
    · exact .inr (.inr ha)
    · -- below something below the node
      obtain ⟨m, hm, rfl, habove⟩ := h.numbered.apart.mem_family.mp hb
      obtain ⟨l, hl', rfl, hbelow⟩ := h.numbered.apart.mem_family.mp ha
      obtain ⟨q, hq⟩ := Option.isSome_iff_exists.mp ((h.grounded l hl').isSome_of_above hbelow)
      obtain ⟨x, hx, hxid, _, rfl⟩ := up_eq_some_iff.mp hq
      rw [← h.numbered.apart.eq_of_id hx hm hxid] at habove
      exact .inr (.inr (mem_family.mpr (below_of_above hl' ((Above.up hq habove).trans hbelow))))

/-- What goes with some nodes is closed downwards, and is the nodes with what is below them. -/
theorem Lower.doomed (h : c.Placed E) (hl : c.Lower found) (hd : c.doomed found ids = .ok gone) :
    c.Lower gone ∧ ∀ a, a ∈ gone ↔ a ∈ found ∨ ∃ id ∈ ids, a = id ∨ a ∈ c.family id := by
  induction ids generalizing found with
  | nil =>
    cases hd
    exact ⟨hl, fun a => by simp⟩
  | cons id rest ih =>
    unfold Choreography.doomed at hd
    split at hd
    · next hid =>
      obtain ⟨hlow, hmem⟩ := ih (hl.append_subtree h hid) hd
      refine ⟨hlow, fun a => ?_⟩
      rw [hmem, List.mem_append, List.mem_filter, mem_subtree h]
      simp only [Bool.not_eq_true', Bool.eq_false_iff, Ne, List.contains_iff_mem, List.mem_cons,
        exists_eq_or_imp]
      by_cases ha : a ∈ found <;> simp [ha]
    · cases hd

theorem lower_nil : c.Lower [] := ⟨List.nodup_nil, by simp, by simp⟩

/-! ## Nodes cut out -/

/-- The choreography without the relations at some nodes. -/
def cut (c : Choreography τ) (gone : List String) : Choreography τ :=
  { c with
    relations := c.relations.filter fun r => !gone.contains r.source && !gone.contains r.target }

/-- The choreography without some nodes; the relations at them stay. -/
def strip (c : Choreography τ) (gone : List String) : Choreography τ :=
  { c with
    events := c.events.filter fun e => !gone.contains e.id
    containers := c.containers.filter fun x => !gone.contains x.id }

/-- The choreography without some nodes and the relations at them. -/
def prune (c : Choreography τ) (gone : List String) : Choreography τ := (c.cut gone).strip gone

/-- Some nodes are gone with the relations at them, and apart from the pools nothing else has
changed. -/
def Prunes (gone : List String) (c d : Choreography τ) : Prop :=
  d = { c.prune gone with ids := d.ids }

theorem strip_nil : c.strip [] = c := by simp [strip]

theorem strip_append : c.strip (gone ++ more) = (c.strip gone).strip more := by
  simp [strip, Store.filter_filter]

theorem mem_nodes_strip : n ∈ (c.strip gone).nodes ↔ n ∈ c.nodes ∧ n.id ∉ gone := by
  cases n <;> simp [strip, container_mem_nodes, event_mem_nodes, Node.id]

theorem prune_nil : c.prune [] = c := by simp [prune, cut, strip]

theorem prune_append : c.prune (gone ++ more) = (c.prune gone).prune more := by
  simp [prune, cut, strip, Store.filter_filter, Bool.and_assoc, Bool.and_left_comm]

/-- It does not matter in which order nodes are listed, or how often. -/
theorem prune_congr (h : ∀ a, a ∈ gone ↔ a ∈ more) : c.prune gone = c.prune more := by
  simp [prune, cut, strip, h]

theorem Prunes.relations (h : Prunes gone c d) : d.relations = (c.cut gone).relations :=
  (congrArg Choreography.relations h :)

theorem Prunes.mem_nodes (h : Prunes gone c d) : n ∈ d.nodes ↔ n ∈ c.nodes ∧ n.id ∉ gone := by
  have hnodes : d.nodes = (c.prune gone).nodes := (congrArg Choreography.nodes h :)
  rw [hnodes]
  exact mem_nodes_strip

theorem prunes_nil : Prunes [] c c := by rw [Prunes, prune_nil]

theorem Prunes.trans (h : Prunes gone c d) (h' : Prunes more d e) : Prunes (gone ++ more) c e := by
  have hd : d.prune more = { (c.prune gone).prune more with ids := d.ids } :=
    congrArg (fun b => b.prune more) h
  rw [Prunes, prune_append]
  exact Eq.trans h' (congrArg (fun b : Choreography τ => { b with ids := e.ids }) hd)

theorem prunes_dropContainer (ha : c.Apart) (hx : c.containers.get? id = some x) :
    Prunes [x.id] c (c.dropContainer x) := by
  obtain ⟨hmem, rfl⟩ := get?_container_iff.mp hx
  have he : c.events.filter (fun f => !([x.id].contains f.id)) = c.events :=
    Store.filter_eq_self fun f hf => by simpa using ha f hf x (container_mem_nodes.mp hmem)
  rw [Prunes, prune, strip, show (c.cut [x.id]).events = c.events from rfl, he]
  simp [cut, dropContainer, Store.erase, bne, Relation.touches, beq_eq_decide]

/-! ## Taking nodes out -/

theorem mem_nodes_eraseNode (ha : c.Apart) :
    n ∈ (c.eraseNode id).nodes ↔ n ∈ c.nodes ∧ n.id ≠ id := by
  rw [nodes_eraseNode ha, List.mem_filter, bne_iff_ne]

theorem Apart.eraseNode (ha : c.Apart) : (c.eraseNode id).Apart := fun e he x hx =>
  ha e (event_mem_nodes.mp ((mem_nodes_eraseNode ha).mp (event_mem_nodes.mpr he)).1) x
    (container_mem_nodes.mp ((mem_nodes_eraseNode ha).mp (container_mem_nodes.mpr hx)).1)

theorem eraseNode_eq (ha : c.Apart) : c.eraseNode id = c.strip [id] := by
  unfold eraseNode
  split
  · next hc =>
    obtain ⟨f, hf, hid⟩ := Store.contains_iff.mp hc
    have hx : c.containers.filter (fun x => !([id].contains x.id)) = c.containers :=
      Store.filter_eq_self fun x hx => by simpa [← hid] using (ha f hf x hx).symm
    rw [strip, hx]
    simp [Store.erase, bne, beq_eq_decide]
  · next hc =>
    have he : c.events.filter (fun f => !([id].contains f.id)) = c.events :=
      Store.filter_eq_self fun f hf => by
        simpa using fun hid => hc (Store.contains_iff.mpr ⟨f, hf, hid⟩)
    rw [strip, he]
    simp [Store.erase, bne, beq_eq_decide]

/-- Nodes that are there are all taken out, and nothing else changes. -/
theorem eraseNodes_done (ha : c.Apart) (hnd : ids.Nodup) (hin : ∀ id ∈ ids, c.hasNode id = true) :
    ∃ ns, c.eraseNodes ids = (c.strip ids, .done ns) ∧ ns.map Node.id = ids ∧
      ∀ n ∈ ns, n ∈ c.nodes := by
  induction ids generalizing c with
  | nil => exact ⟨[], by rw [strip_nil]; rfl, rfl, by simp⟩
  | cons id rest ih =>
    obtain ⟨hfresh, hnd⟩ := List.nodup_cons.mp hnd
    obtain ⟨n, hn⟩ := Option.isSome_iff_exists.mp (hin id List.mem_cons_self)
    obtain ⟨hmem, hid⟩ := node?_mem hn
    have hrest : ∀ a ∈ rest, (c.eraseNode id).hasNode a = true := fun a har => by
      obtain ⟨m, hm, rfl⟩ := hasNode_iff.mp (hin a (List.mem_cons_of_mem _ har))
      exact hasNode_iff.mpr ⟨m, (mem_nodes_eraseNode ha).mpr ⟨hm, fun he => hfresh (he ▸ har)⟩, rfl⟩
    obtain ⟨ns, hd, hids, hold⟩ := ih ha.eraseNode hnd hrest
    refine ⟨n :: ns, ?_, by simp [hids, hid], fun m hm => ?_⟩
    · rw [eraseNodes, hn]
      simp only [hd]
      rw [eraseNode_eq ha, ← strip_append]
      rfl
    · rcases List.mem_cons.mp hm with rfl | hm
      · exact hmem
      · exact ((mem_nodes_eraseNode ha).mp (hold m hm)).1

/-- Taking nodes out one by one changes nothing else, also where it stops, and leaves the nodes that
are not listed; and if it does not stop, no id of the list is left. -/
theorem eraseNodes_cases {v : Verdict (List (Node τ))} (ha : c.Apart)
    (hd : c.eraseNodes ids = (d, v)) :
    (∀ n ∈ d.nodes, n ∈ c.nodes) ∧ (∀ n ∈ c.nodes, n.id ∉ ids → n ∈ d.nodes) ∧ d.ids = c.ids ∧
      d.relations = c.relations ∧ ∀ ns, v = .done ns → (∀ n ∈ ns, n ∈ c.nodes) ∧
        ns.map Node.id = ids ∧ ∀ n ∈ d.nodes, n.id ∉ ids := by
  induction ids generalizing c d v with
  | nil =>
    cases hd
    refine ⟨fun _ hn => hn, fun _ hn _ => hn, rfl, rfl, fun ns hv => ?_⟩
    cases hv
    exact ⟨by simp, rfl, by simp⟩
  | cons id rest ih =>
    unfold eraseNodes at hd
    split at hd
    · cases hd
      exact ⟨fun _ hn => hn, fun _ hn _ => hn, rfl, rfl, fun _ hv => nomatch hv⟩
    · next n hn =>
      obtain ⟨hmem, hid⟩ := node?_mem hn
      rcases hrest : (c.eraseNode id).eraseNodes rest with ⟨e, w⟩
      rw [hrest] at hd
      cases hd
      obtain ⟨hsub, hstay, hids, hrel, hdone⟩ := ih ha.eraseNode hrest
      have hold : ∀ n ∈ d.nodes, n ∈ c.nodes ∧ n.id ≠ id := fun n hn =>
        (mem_nodes_eraseNode ha).mp (hsub n hn)
      refine ⟨fun n hn => (hold n hn).1, fun n hn hout => ?_, hids.trans ?_, hrel.trans ?_,
        fun ns hv => ?_⟩
      · rw [List.mem_cons, not_or] at hout
        exact hstay n ((mem_nodes_eraseNode ha).mpr ⟨hn, hout.1⟩) hout.2
      · unfold eraseNode; split <;> rfl
      · unfold eraseNode; split <;> rfl
      · cases w with
        | done rest' =>
          cases hv
          obtain ⟨hfrom, hall, hout⟩ := hdone rest' rfl
          refine ⟨fun l hl => ?_, by simp [hid, hall], fun l hl => ?_⟩
          · rcases List.mem_cons.mp hl with rfl | hl
            · exact hmem
            · exact ((mem_nodes_eraseNode ha).mp (hfrom l hl)).1
          · rw [List.mem_cons, not_or]
            exact ⟨(hold l hl).2, hout l hl⟩
        | refused => cases hv
        | stopped o => cases hv

/-- The ids of some nodes are free after they have been given back. -/
theorem releaseNodes_free {ns : List (Node τ)} (hs : d.ids.Sane)
    (hn : ∀ n ∈ ns, ∃ m, n.id = n.kind.ident m) :
    (d.releaseNodes ns).ids.Sane ∧
      ∀ id, (d.releaseNodes ns).ids.Free id ↔ d.ids.Free id ∨ id ∈ ns.map Node.id := by
  have step : ∀ (ns : List (Node τ)) (p : IdPools), p.Sane →
    (∀ n ∈ ns, ∃ m, n.id = n.kind.ident m) →
      (ns.foldl (fun p (n : Node τ) => p.release n.kind n.id) p).Sane ∧
        ∀ id, (ns.foldl (fun p (n : Node τ) => p.release n.kind n.id) p).Free id ↔
          p.Free id ∨ id ∈ ns.map Node.id := by
    intro ns
    induction ns with
    | nil => exact fun p hp _ => ⟨hp, fun id => by simp⟩
    | cons n rest ih =>
      intro p hp hn
      obtain ⟨m, hm⟩ := hn n List.mem_cons_self
      obtain ⟨hs, hfree⟩ := hp.release n.kind m
      rw [← hm] at hs hfree
      obtain ⟨hs', hfree'⟩ := ih _ hs fun l hl => hn l (List.mem_cons_of_mem _ hl)
      refine ⟨hs', fun id => ?_⟩
      rw [List.foldl_cons, hfree', hfree, List.map_cons, List.mem_cons, or_assoc]
  exact step ns d.ids hs hn

/-! ## The deletion -/

/-- Nodes with all that is below them, and the relations at them, out of a choreography in order:
only their parents may be left without children. -/
theorem Orderly.erase (h : c.Orderly ∅ ⟨∅, L, A⟩) (hl : c.Lower gone) :
    ∃ d ns, (c.cut gone).eraseNodes gone = (d, .done ns) ∧
      (d.releaseNodes ns).Orderly {k | k ∈ c.bereaved gone} ⟨∅, L, A⟩ ∧
      Removes {a | a ∈ gone} c (d.releaseNodes ns) ∧ Prunes gone c (d.releaseNodes ns) := by
  have hapart := h.placed.numbered.apart
  obtain ⟨ns, hd, hids, hold⟩ := eraseNodes_done (c := c.cut gone) hapart hl.nodup hl.there
  have hnamed : ∀ n ∈ ns, ∃ m, n.id = n.kind.ident m :=
    fun n hn => h.placed.numbered.named n (hold n hn)
  obtain ⟨hs, hfree⟩ := releaseNodes_free (d := c.prune gone) h.placed.numbered.sane hnamed
  have hprunes : Prunes gone c ((c.prune gone).releaseNodes ns) := rfl
  have hr : Removes {a | a ∈ gone} c ((c.prune gone).releaseNodes ns) := by
    refine ⟨fun _ => hprunes.mem_nodes, fun m hm p hp hmp => ?_⟩
    exact hl.closed p hp m.id (mem_family.mpr (.child (mem_children_of hm hmp)))
  refine ⟨c.prune gone, ns, hd, ⟨?_, h.owned.remove hr (fun r => ?_) (by simp)⟩, hr, hprunes⟩
  · refine (h.placed.remove hr hs fun a => by rw [hfree, hids]; rfl).narrow
      fun k hk hE hc => ?_
    rcases hk with hk | ⟨m, hm, hgone, hp⟩
    · cases hk
    · by_cases hkg : k ∈ gone
      · rw [contains_iff_form?, hr.form?_of_mem hkg] at hc
        cases hc
      · refine absurd ?_ hE
        simp only [bereaved, Set.mem_ofPred_eq, List.mem_eraseDups, List.mem_filter,
          List.mem_filterMap]
        exact ⟨⟨m.id, hgone, by rw [hapart.node?_of_mem hm]; exact hp⟩, by simpa using hkg⟩
  · rw [hprunes.relations]
    simp [cut]

theorem deleteNodes_ok (h : c.Orderly ∅ ⟨∅, L, A⟩) (hd : c.doomed [] ids = .ok gone) :
    ∃ d : Choreography τ, d.Orderly {k | k ∈ c.bereaved gone} ⟨∅, L, A⟩ ∧
      Removes {a | a ∈ gone} c d ∧ Prunes gone c d ∧
      (c.deleteNodes ids).value = ((d.settleAll (c.bereaved gone)).value.1,
        .done (gone ++ (d.settleAll (c.bereaved gone)).value.2)) := by
  obtain ⟨d, ns, he, hord, hr, hprunes⟩ := h.erase (lower_nil.doomed h.placed hd).1
  refine ⟨d.releaseNodes ns, hord, hr, hprunes, ?_⟩
  unfold cut at he
  rw [deleteNodes, hd]
  simp only [he]
  rfl

theorem Orderly.deleteNodes (h : c.Orderly ∅ ⟨∅, L, A⟩) (ids : List String) :
    (c.deleteNodes ids).value.1.Orderly ∅ ⟨∅, L, A⟩ := by
  cases hd : c.doomed [] ids with
  | error id =>
    rw [Choreography.deleteNodes, hd]
    exact h
  | ok gone =>
    obtain ⟨d, hord, _, _, hv⟩ := deleteNodes_ok h hd
    rw [hv]
    exact (hord.mono (by simp) subset_rfl subset_rfl subset_rfl).settleAll

end Dcr.Choreography
