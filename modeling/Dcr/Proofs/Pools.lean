import Dcr.Proofs.Entries
import Dcr.Proofs.Numbers

/-! Ids handed out after loading. The pools work on numbers, and a document may write one number in
several ways. As long as no two nodes of a kind have one number, the number of a node that is there
is never available, whatever way it is written: `Dealt` says this, every step of every call keeps
it, and so no id handed out names a node. -/

namespace Dcr

variable {τ : Type} [FreeText τ]

/-! ## Pools and ids that are read -/

namespace IdPools

variable {p : IdPools} {kind : NodeKind} {id : String} {m : Nat}

/-- What is available after an allocation is what was, but for the number handed out. -/
theorem Sane.available_allocate (h : p.Sane) (kind : NodeKind) :
    ∃ m : Nat, (p.allocate kind).1 = kind.ident m ∧ (p.get kind).Available m ∧
      (p.allocate kind).2.Sane ∧ ∀ (j : NodeKind) (l : Nat),
        ((p.allocate kind).2.get j).Available l ↔ (p.get j).Available l ∧ ¬ (j = kind ∧ l = m) := by
  obtain ⟨m, hid, hfree, -, hsane, hrest⟩ := h.allocate kind
  refine ⟨m, hid, free_ident.mp hfree, hsane, fun j l => ?_⟩
  rw [← free_ident, hrest, free_ident]
  refine and_congr_right fun _ => not_congr ⟨NodeKind.ident_injective, ?_⟩
  rintro ⟨rfl, rfl⟩
  rfl

/-- What is available after an id has been taken back is what was, and its number. -/
theorem Sane.available_release (h : p.Sane) (hid : kind.number? id = some m) :
    (p.release kind id).Sane ∧ ∀ (j : NodeKind) (l : Nat),
      ((p.release kind id).get j).Available l ↔ (p.get j).Available l ∨ (j = kind ∧ l = m) := by
  obtain ⟨hpool, hstem⟩ := h kind
  obtain ⟨hsane, hstem', hrest⟩ := hpool.release (Int.natCast_nonneg m)
  rw [IdPools.release, NodeKind.value?_eq_number? hstem, hid]
  refine ⟨h.set hsane (hstem'.trans hstem), fun j l => ?_⟩
  simp only [get_set]
  split
  · next hj =>
    subst hj
    rw [hrest]
    exact or_congr_right ⟨fun he => ⟨rfl, Int.ofNat.inj he⟩, fun he => he.2 ▸ rfl⟩
  · next hj => exact ⟨.inl, fun hor => hor.resolve_right fun hx => hj hx.1⟩

end IdPools

namespace Choreography

variable {c d : Choreography τ} {n : Node τ} {x : Container τ} {kind : NodeKind} {id : String}
  {p : Option String} {m : Nat}

/-- What is available after the ids of nodes have been taken back is what was, and their numbers. -/
theorem available_releaseNodes {ns : List (Node τ)} (hs : d.ids.Sane)
    (hns : ∀ n ∈ ns, ∃ m, n.kind.number? n.id = some m) :
    (d.releaseNodes ns).ids.Sane ∧ ∀ (j : NodeKind) (l : Nat),
      ((d.releaseNodes ns).ids.get j).Available l ↔
        (d.ids.get j).Available l ∨ ∃ n ∈ ns, n.kind = j ∧ n.kind.number? n.id = some l := by
  have step : ∀ (ns : List (Node τ)) (p : IdPools), p.Sane →
      (∀ n ∈ ns, ∃ m, n.kind.number? n.id = some m) →
        (ns.foldl (fun p (n : Node τ) => p.release n.kind n.id) p).Sane ∧
          ∀ (j : NodeKind) (l : Nat),
            ((ns.foldl (fun p (n : Node τ) => p.release n.kind n.id) p).get j).Available l ↔
              (p.get j).Available l ∨ ∃ n ∈ ns, n.kind = j ∧ n.kind.number? n.id = some l := by
    intro ns
    induction ns with
    | nil => exact fun p hp _ => ⟨hp, fun j l => by simp⟩
    | cons n rest ih =>
      intro p hp hns
      obtain ⟨m, hm⟩ := hns n List.mem_cons_self
      obtain ⟨hs, hfree⟩ := hp.available_release hm
      obtain ⟨hs', hfree'⟩ := ih _ hs fun l hl => hns l (List.mem_cons_of_mem _ hl)
      refine ⟨hs', fun j l => ?_⟩
      rw [List.foldl_cons, hfree', hfree, or_assoc]
      rw [List.exists_mem_cons_iff, hm, Option.some.injEq, eq_comm (a := j), eq_comm (a := l)]
  exact step ns d.ids hs hns

/-! ## Numbers dealt out -/

/-- The id of every node can be read, no two nodes of a kind have one number, and the number of a
node is not available. -/
structure Dealt (c : Choreography τ) : Prop where
  sane : c.ids.Sane
  read : ∀ n ∈ c.nodes, ∃ m, n.kind.number? n.id = some m
  alone : ∀ n ∈ c.nodes, ∀ l ∈ c.nodes, n.kind = l.kind →
    n.kind.number? n.id = l.kind.number? l.id → n.id = l.id
  taken : ∀ n ∈ c.nodes, ∀ m, n.kind.number? n.id = some m → ¬ (c.ids.get n.kind).Available m

theorem Dealt.apart (h : c.Dealt) : c.Apart := apart_of_read h.read

theorem Dealt.dashless (h : c.Dealt) : ∀ n ∈ c.nodes, Dashless n.id := fun n hn =>
  NodeKind.dashless_of_number? (h.read n hn).choose_spec

/-- A number that is available is that of no node. -/
theorem Dealt.fresh (h : c.Dealt) (hm : (c.ids.get kind).Available m) :
    ¬ c.hasNode (kind.ident m) = true := by
  intro hthere
  obtain ⟨n, hn, hid⟩ := hasNode_iff.mp hthere
  obtain ⟨l, hl⟩ := h.read n hn
  have hkind : n.kind = kind := NodeKind.eq_of_number? (hid ▸ NodeKind.number?_ident kind m) hl
  subst hkind
  exact h.taken n hn m (hid ▸ NodeKind.number?_ident n.kind m) hm

/-- No id that is handed out names a node. -/
theorem Dealt.unused (h : c.Dealt) (kind : NodeKind) :
    ¬ c.hasNode (c.ids.allocate kind).1 = true := by
  obtain ⟨m, hid, hm, -⟩ := h.sane.available_allocate kind
  exact hid ▸ h.fresh hm

/-- Fewer nodes stay dealt with pools in which none of their numbers is available. -/
theorem Dealt.restock (h : c.Dealt)
    (hnodes : ∀ n ∈ d.nodes, ∃ l ∈ c.nodes, l.id = n.id ∧ l.kind = n.kind) (hs : d.ids.Sane)
    (htaken : ∀ n ∈ d.nodes, ∀ m, n.kind.number? n.id = some m → ¬ (d.ids.get n.kind).Available m) :
    d.Dealt where
  sane := hs
  read n hn := by
    obtain ⟨l, hl, hid, hkind⟩ := hnodes n hn
    exact hid ▸ hkind ▸ h.read l hl
  alone n hn l hl hkind hnumber := by
    obtain ⟨n', hn', hid, hnk⟩ := hnodes n hn
    obtain ⟨l', hl', hid', hlk⟩ := hnodes l hl
    rw [← hid, ← hid'] at hnumber ⊢
    rw [← hnk, ← hlk] at hnumber
    exact h.alone n' hn' l' hl' (by rw [hnk, hlk, hkind]) hnumber
  taken := htaken

/-- Fewer nodes stay dealt with the same pools. -/
theorem Dealt.fewer (h : c.Dealt)
    (hnodes : ∀ n ∈ d.nodes, ∃ l ∈ c.nodes, l.id = n.id ∧ l.kind = n.kind) (hi : d.ids = c.ids) :
    d.Dealt := by
  refine h.restock hnodes (hi ▸ h.sane) fun n hn m hm => ?_
  obtain ⟨l, hl, hid, hkind⟩ := hnodes n hn
  rw [hi, ← hkind]
  exact h.taken l hl m (by rw [hid, hkind, hm])

theorem Dealt.redraw (h : c.Dealt) (hs : d.skeleton = c.skeleton) (hi : d.ids = c.ids) :
    d.Dealt :=
  h.fewer (fun n hn => (exists_iff_of_skeleton hs fun i _ kind => i = n.id ∧ kind = n.kind).mp
    ⟨n, hn, rfl, rfl⟩) hi

/-! ## Steps -/

theorem Dealt.tended (h : c.Dealt) (k : String) : (c.tended k).Dealt := h.redraw rfl rfl

theorem Dealt.setParent (h : c.Dealt) (id : String) (p : Option String) :
    (c.setParent id p).Dealt := by
  refine h.fewer (fun n hn => ?_) (by unfold Choreography.setParent; split <;> rfl)
  obtain ⟨l, hl, rfl⟩ := (mem_nodes_setParent h.apart).mp hn
  exact ⟨l, hl, by split <;> simp, by split <;> simp⟩

theorem Dealt.drop (h : c.Dealt) (hx : c.containers.get? id = some x) (hc : c.children id = []) :
    (c.dropContainer x).Dealt := by
  have hr := removes_dropContainer h.apart hx hc
  obtain ⟨hmem, rfl⟩ := get?_container_iff.mp hx
  obtain ⟨m, hm⟩ := h.read _ hmem
  obtain ⟨hs, hfree⟩ := h.sane.available_release hm
  refine h.restock (fun n hn => ⟨n, ((hr.mem n).mp hn).1, rfl, rfl⟩) hs fun n hn l hl hfreed => ?_
  obtain ⟨hn, hne⟩ := (hr.mem n).mp hn
  rcases (hfree n.kind l).mp hfreed with hfreed | ⟨hkind, rfl⟩
  · exact h.taken n hn l hl hfreed
  · exact hne (h.alone n hn _ hmem hkind (hl.trans hm.symm))

theorem dealt_steps : Steps (fun _ => True) (Dealt (τ := τ)) where
  tended k h := h.tended k
  drop h hx hc := h.drop hx hc
  place id p _ h := h.setParent id p

theorem Dealt.eraseNodes (h : c.Dealt) {gone : List String} {v : Verdict (List (Node τ))}
    (hd : c.eraseNodes gone = (d, v)) : d.Dealt := by
  obtain ⟨hsub, -, hids, -, -⟩ := eraseNodes_cases h.apart hd
  exact h.fewer (fun n hn => ⟨n, hsub n hn, rfl, rfl⟩) hids

/-- The numbers of nodes taken out are those of no node that is left. -/
theorem Dealt.releaseNodes (h : c.Dealt) {gone : List String} {ns : List (Node τ)}
    (hd : c.eraseNodes gone = (d, .done ns)) : (d.releaseNodes ns).Dealt := by
  obtain ⟨hsub, -, hids, -, hdone⟩ := eraseNodes_cases h.apart hd
  obtain ⟨hfrom, rfl, hout⟩ := hdone ns rfl
  obtain ⟨hs, hfree⟩ :=
    available_releaseNodes (h.eraseNodes hd).sane fun n hn => h.read n (hfrom n hn)
  refine h.restock (fun n hn => ⟨n, hsub n hn, rfl, rfl⟩) hs fun n hn m hm hfreed => ?_
  rcases (hfree n.kind m).mp hfreed with hfreed | ⟨l, hl, hkind, hnumber⟩
  · exact (h.eraseNodes hd).taken n hn m hm hfreed
  · have hid := h.alone n (hsub n hn) l (hfrom l hl) hkind.symm (hm.trans hnumber.symm)
    exact hout n hn (hid ▸ List.mem_map_of_mem hl)

/-- One more node under the id handed out. -/
theorem Dealt.add (h : c.Dealt) (hkind : n.kind = kind) (hid : n.id = (c.ids.allocate kind).1)
    (ha : Adds n c d) (hids : d.ids = (c.ids.allocate kind).2) : d.Dealt := by
  obtain ⟨m, hnew, hm, hs, hfree⟩ := h.sane.available_allocate kind
  have hread : n.kind.number? n.id = some m := by
    rw [hkind, hid, hnew, NodeKind.number?_ident]
  -- the number handed out is that of no other node
  have hother : ∀ l ∈ c.nodes, l.kind = n.kind → l.kind.number? l.id ≠ some m := by
    intro l hl hk hlm
    exact h.taken l hl m hlm (hk ▸ hkind ▸ hm)
  refine ⟨hids ▸ hs, fun l hl => ?_, fun l hl l' hl' hk hnumber => ?_, fun l hl i hi hav => ?_⟩
  · rcases (ha l).mp hl with hl | rfl
    · exact h.read l hl
    · exact ⟨m, hread⟩
  · rcases (ha l).mp hl with hl | rfl <;> rcases (ha l').mp hl' with hl' | rfl
    · exact h.alone l hl l' hl' hk hnumber
    · exact absurd (hnumber.trans hread) (hother l hl hk)
    · exact absurd (hnumber.symm.trans hread) (hother l' hl' hk.symm)
    · rfl
  · rw [hids, hfree] at hav
    rcases (ha l).mp hl with hl | rfl
    · exact h.taken l hl i hi hav.1
    · exact hav.2 ⟨hkind, Option.some.inj (hi.symm.trans hread)⟩

theorem Dealt.withEvent (h : c.Dealt) (e : NewEvent τ) : (c.withEvent e).Dealt :=
  h.add (n := .event (e.event (c.ids.allocate .event).1)) rfl rfl
    (adds_withEvent (h.unused .event)) rfl

theorem Dealt.withContainer (h : c.Dealt) (w : NewContainer τ) : (c.withContainer w).Dealt :=
  h.add (n := .container (w.container (c.ids.allocate w.kind.node).1)) rfl rfl
    (adds_withContainer (h.unused w.kind.node)) rfl

theorem Dealt.reformed (h : c.Dealt) (hx : c.containers.get? x.id = some x) (hk : x.kind = .nest)
    (type : NestType) : (c.reformed x.id (.nest type)).Dealt := by
  refine h.redraw (skeleton_of_maps (g := fun e => e) (entries_reformed c (.nest type) x.id)
    (List.map_id _).symm (fun y hy => ?_) fun _ _ => ⟨rfl, rfl⟩) rfl
  unfold reform
  split
  · next he =>
    rw [Store.eq_of_key hy (Store.get?_eq_some_iff.mp hx).1 he]
    exact ⟨rfl, rfl, hk.symm⟩
  · exact ⟨rfl, rfl, rfl⟩

end Choreography

theorem ContainerKind.node_injective {j k : ContainerKind} (h : j.node = k.node) : j = k := by
  cases j <;> cases k <;> first | rfl | exact nomatch h

theorem Node.kind_eq (n : Node τ) : n.kind = n.form?.elim .event fun form => form.kind.node := by
  cases n <;> rfl

theorem Node.form?_of_event {n : Node τ} (h : n.kind = .event) : n.form? = none := by
  cases n with
  | event e => rfl
  | container x =>
    have hx : x.kind.node = .event := h
    cases hkind : x.kind <;> rw [hkind] at hx <;> cases hx

namespace Choreography

variable {c d : Choreography τ} {n : Node τ} {x : Container τ} {form : ContainerForm}

/-- A container under a new id of its new kind, with its old id given back. -/
theorem Dealt.converted (h : c.Dealt) (hx : x ∈ c.containers.entries) (hk : form.kind ≠ x.kind) :
    (c.converted x form).Dealt := by
  obtain ⟨m, hnew, hm, hs, hfree⟩ := h.sane.available_allocate form.kind.node
  have hr := renames_converted h.apart hx hnew (h.fresh hm)
  have hnode : (Node.container x : Node τ) ∈ c.nodes := container_mem_nodes.mpr hx
  obtain ⟨l, hl⟩ := h.read _ hnode
  obtain ⟨hs', hfree'⟩ := hs.available_release hl
  have hread := NodeKind.number?_ident form.kind.node m
  -- a node stays under its id, or is the one converted
  have hcases : ∀ n ∈ (c.converted x form).nodes, (∃ o ∈ c.nodes, o.id = n.id ∧ o.kind = n.kind ∧
      o.id ≠ x.id) ∨ (n.id = form.kind.node.ident m ∧ n.kind = form.kind.node) := by
    intro n hn
    obtain ⟨o, ho, hid, -, hform⟩ := hr.back n hn
    by_cases hox : o.id = x.id
    · rw [if_pos hox] at hform
      rw [hox, renameId_old] at hid
      exact .inr ⟨hid, by rw [Node.kind_eq, hform]; rfl⟩
    · rw [if_neg hox] at hform
      rw [renameId_of_ne hox] at hid
      exact .inl ⟨o, ho, hid.symm, by rw [Node.kind_eq, Node.kind_eq, hform], hox⟩
  -- the number handed out is that of no node that stays under its id
  have hother : ∀ o ∈ c.nodes, o.kind = form.kind.node → o.kind.number? o.id ≠ some m :=
    fun o ho hkind hom => h.taken o ho m hom (hkind ▸ hm)
  have hnode_ne : x.kind.node ≠ form.kind.node := fun he =>
    hk (ContainerKind.node_injective he).symm
  refine ⟨hs', fun n hn => ?_, fun n hn o hn' hkind hnumber => ?_, fun n hn i hi hav => ?_⟩
  · rcases hcases n hn with ⟨o, ho, hid, hkind, -⟩ | ⟨hid, hkind⟩
    · exact hid ▸ hkind ▸ h.read o ho
    · exact ⟨m, by rw [hid, hkind, hread]⟩
  · rcases hcases n hn with ⟨l, hl, hid, hlk, -⟩ | ⟨hid, hlk⟩ <;>
      rcases hcases o hn' with ⟨l', hl', hid', hlk', -⟩ | ⟨hid', hlk'⟩
    · rw [← hid, ← hid', ← hlk, ← hlk'] at hnumber
      rw [← hid, ← hid']
      exact h.alone l hl l' hl' (by rw [hlk, hlk', hkind]) hnumber
    · rw [← hid, ← hlk, hid', hlk', hread] at hnumber
      exact absurd hnumber (hother l hl (by rw [hlk, hkind, hlk']))
    · rw [← hid', ← hlk', hid, hlk, hread] at hnumber
      exact absurd hnumber.symm (hother l' hl' (by rw [hlk', ← hkind, hlk]))
    · rw [hid, hid']
  · have hav := (hfree' n.kind i).mp hav
    rw [hfree] at hav
    rcases hcases n hn with ⟨o, ho, hid, hkind, hne⟩ | ⟨hid, hkind⟩
    · rw [← hid, ← hkind] at hi
      rcases hav with ⟨hav, -⟩ | ⟨hxk, rfl⟩
      · exact h.taken o ho i hi (hkind ▸ hav)
      · exact hne (h.alone o ho _ hnode (hkind.trans hxk) (hi.trans hl.symm))
    · rw [hid, hkind, hread] at hi
      rcases hav with ⟨-, hout⟩ | ⟨hxk, -⟩
      · exact hout ⟨hkind, (Option.some.inj hi).symm⟩
      · exact hnode_ne (hxk.symm.trans hkind)

/-- Every edit keeps the numbers dealt. -/
theorem Dealt.perform (h : c.Dealt) (edit : Edit τ) : (edit.perform c).value.1.Dealt := by
  by_cases haside : edit.isAside = true
  · obtain ⟨_, _, _, he⟩ := perform_aside (c := c) haside
    rw [he]
    exact h.redraw rfl rfl
  have hcut : ∀ gone, (c.cut gone).Dealt := fun gone => h.redraw rfl rfl
  have hdelete : ∀ ids, (Edit.deleteNodesAloud c ids).value.1.Dealt := fun _ =>
    dealt_steps.deleteNodesAloud h (fun gone _ _ hd => (hcut gone).releaseNodes hd)
      fun gone _ _ _ hd _ => (hcut gone).eraseNodes hd
  have hrelate : ∀ R : Store (Relation τ), ({ c with relations := R } : Choreography τ).Dealt :=
    fun R => h.redraw rfl rfl
  cases edit with
  | createEvent e => exact dealt_steps.createEvent h (h.withEvent e)
  | updateEvent id content =>
    exact h.redraw (skeleton_updateEvent id content) (aside_updateEvent id content).2.1
  | deleteEvent id => exact hdelete [id]
  | createContainer w => exact dealt_steps.createContainer h (h.withContainer w) trivial
  | updateContainer id label marking =>
    refine withFound_rule h fun x _ => ?_
    have haside := aside_updateContainer (c := c) x label marking
    exact h.redraw (skeleton_updateContainer x label marking) haside.2.1
  | changeContainerType id kind type =>
    refine withFound_rule h fun x hx => ?_
    obtain ⟨hmem, rfl⟩ := get?_container_iff.mp hx
    refine dealt_steps.changeContainerType h (fun t hk => h.reformed hx hk t) fun hk => ?_
    refine dealt_steps.convert (h.converted (container_mem_nodes.mp hmem) ?_) fun _ d hd => ?_
    · rw [ContainerForm.kind_ofKind]
      exact Ne.symm hk
    · exact hd.redraw rfl rfl
  | moveNode id parent => exact dealt_steps.reparent h (h.setParent id parent)
  | deleteNodes ids => exact hdelete ids
  | createRelation source target type guard =>
    exact createRelation_rule hrelate source target type guard
  | updateRelation id type guard =>
    exact withFound_rule h fun r _ => updateRelation_rule hrelate r type guard
  | deleteRelation id => exact withFound_rule h fun r _ => deleteRelation_rule hrelate r
  | _ => exact absurd rfl haside

/-! ## What is made replaces nothing -/

/-- Nothing has been replaced: what stands under the id of a node that was there before is that
node, wherever it is now, and every event that was there is there. -/
structure Intact (c d : Choreography τ) : Prop where
  same : ∀ m ∈ d.nodes, ∀ n ∈ c.nodes, m.id = n.id → m = n.withParent m.parent
  events : ∀ n ∈ c.nodes, n.kind = .event → ∃ p, n.withParent p ∈ d.nodes

theorem Dealt.intact (h : c.Dealt) : Intact c c where
  same m hm n hn hid := by rw [h.apart.eq_of_id hm hn hid, Node.withParent_parent]
  events n hn _ := ⟨n.parent, by rwa [Node.withParent_parent]⟩

/-- Moves and the removal of containers replace nothing. -/
theorem intact_steps (c : Choreography τ) :
    Steps (fun _ => True) fun d => d.Dealt ∧ Intact c d where
  tended k h := ⟨h.1.tended k, h.2.same, h.2.events⟩
  drop h hx hc := by
    have hr := removes_dropContainer h.1.apart hx hc
    obtain ⟨hmem, rfl⟩ := get?_container_iff.mp hx
    refine ⟨h.1.drop hx hc, fun m hm => h.2.same m ((hr.mem m).mp hm).1, fun n hn hkind => ?_⟩
    obtain ⟨p, hp⟩ := h.2.events n hn hkind
    refine ⟨p, (hr.mem _).mpr ⟨hp, fun hid => ?_⟩⟩
    have hcontainer := congrArg Node.form? (h.1.apart.eq_of_id hp hmem hid)
    rw [Node.form?_withParent, Node.form?_of_event hkind] at hcontainer
    cases hcontainer
  place id p _ h := by
    refine ⟨h.1.setParent id p, fun m hm n hn hid => ?_, fun n hn hkind => ?_⟩
    · obtain ⟨l, hl, rfl⟩ := (mem_nodes_setParent h.1.apart).mp hm
      have hln : l.id = n.id := by
        rw [← hid]
        split <;> simp
      rw [h.2.same l hl n hn hln]
      split <;> simp
    · obtain ⟨q, hq⟩ := h.2.events n hn hkind
      by_cases hid : n.id = id
      · exact ⟨p, (mem_nodes_setParent h.1.apart).mpr ⟨_, hq, by simp [hid]⟩⟩
      · exact ⟨q, (mem_nodes_setParent h.1.apart).mpr ⟨_, hq, by simp [hid]⟩⟩

/-- One more node under an id that names none replaces nothing. -/
theorem Intact.add (h : c.Dealt) (ha : Adds n c d) (hf : ¬ c.hasNode n.id = true) :
    Intact c d where
  same m hm l hl hid := by
    rcases (ha m).mp hm with hm | rfl
    · exact h.intact.same m hm l hl hid
    · exact absurd (hasNode_of_mem hl) (hid ▸ hf)
  events l hl _ := ⟨l.parent, (ha _).mpr (.inl (by rwa [Node.withParent_parent]))⟩

theorem Intact.converted (h : c.Dealt) (x : Container τ) (form : ContainerForm) :
    Intact c (c.converted x form) := by
  have hunused := h.unused form.kind.node
  constructor
  case same =>
    intro m hm n hn hid
    rcases mem_nodes.mp hm with ⟨y, hy, rfl⟩ | ⟨f, hf, rfl⟩
    · rw [entries_converted x hunused, List.map_map] at hy
      obtain ⟨z, hz, rfl⟩ := List.mem_map.mp hy
      have hzid : _ = n.id := (rename_reform form _ x.id z).1.symm.trans hid
      by_cases hzx : z.id = x.id
      · rw [hzx, renameId_old] at hzid
        exact absurd (hasNode_of_mem hn) (hzid ▸ hunused)
      · rw [renameId_of_ne hzx] at hzid
        rw [← h.apart.eq_of_id (container_mem_nodes.mpr hz) hn hzid]
        simp [reform, Container.rename, hzx, Node.withParent, Node.parent]
    · obtain ⟨g, hg, rfl⟩ := List.mem_map.mp hf
      rw [← h.apart.eq_of_id (event_mem_nodes.mpr hg) hn hid]
      rfl
  case events =>
    intro n hn hkind
    cases n with
    | container y => cases Node.form?_of_event hkind
    | event e =>
      exact ⟨_, event_mem_nodes.mpr (List.mem_map_of_mem ((event_mem_nodes (c := c)).mp hn))⟩

/-- An edit that makes a node replaces nothing. -/
theorem Intact.perform (h : c.Dealt) {edit : Edit τ} {kind : NodeKind}
    (hk : edit.makes? c = some kind) : Intact c (edit.perform c).value.1 := by
  have hc := And.intro h h.intact
  cases edit with
  | createEvent e =>
    have hunused := h.unused .event
    exact ((intact_steps c).createEvent hc ⟨h.withEvent e,
      Intact.add h (n := .event (e.event _)) (adds_withEvent hunused) hunused⟩).2
  | createContainer w =>
    have hunused := h.unused w.kind.node
    exact ((intact_steps c).createContainer hc ⟨h.withContainer w,
      Intact.add h (n := .container (w.container _)) (adds_withContainer hunused) hunused⟩
        trivial).2
  | changeContainerType id target type =>
    obtain ⟨x, hx, hne, rfl⟩ := conversion_of_makes? hk
    have hmem := container_mem_nodes.mp (get?_container_iff.mp hx).1
    rw [value_perform_conversion type hx hne]
    refine ((intact_steps c).convert ⟨h.converted hmem ?_, Intact.converted h x _⟩
      fun _ d hd => ⟨hd.1.redraw rfl rfl, hd.2.same, hd.2.events⟩).2
    rw [ContainerForm.kind_ofKind]
    exact hne.symm
  | _ => cases hk

end Choreography

/-! ## Documents loaded -/

namespace Document

open Choreography (Dealt)

variable {d : Document τ} {b c : Choreography τ}

/-- No two nodes of a kind have one number under different ids. -/
def Unambiguous (d : Document τ) : Prop :=
  ∀ m ∈ d.nodes, ∀ n ∈ d.nodes,
    (Roster.ofNodes d.nodes).numberOf m = (Roster.ofNodes d.nodes).numberOf n → m.id? = n.id?

/-- The entry that a node is read from, with its number. -/
theorem Tells.entry (h : d.Tells b) {n : Node τ} (hn : n ∈ b.nodes) :
    ∃ m ∈ d.nodes, m.id? = some n.id ∧
      (Roster.ofNodes d.nodes).numberOf m = .ok (n.kind, n.number) := by
  have hnumber := h.numbered n hn
  rcases Choreography.mem_nodes.mp hn with ⟨y, hy, rfl⟩ | ⟨f, hf, rfl⟩
  · obtain ⟨x, hx, hxy⟩ := exists_of_forall₂ h.containers hy
    obtain ⟨p, -, rfl⟩ := Roster.container_eq_ok.mp hxy
    refine ⟨_, Roster.container_mem_of_mem hx, rfl, ?_⟩
    have hget : (Roster.ofNodes d.nodes).containers.get? x.id = some x :=
      Store.get?_eq_some_iff.mpr ⟨hx, rfl⟩
    rw [Roster.numberOf, hget]
    exact hnumber
  · obtain ⟨x, hx, hxf⟩ := exists_of_forall₂ h.events hf
    obtain ⟨p, -, rfl⟩ := Roster.event_eq_ok.mp hxf
    exact ⟨_, Roster.event_mem_of_mem hx, rfl, hnumber⟩

theorem Tells.dealt (h : d.Tells b) (hd : d.Unambiguous) : b.Dealt := by
  obtain ⟨used, hids, hused⟩ := h.pools
  obtain ⟨hsane, havailable⟩ := IdPools.sane_ofUsed used
  have hread := Choreography.number?_of_numbered h.numbered
  refine ⟨hids ▸ hsane, fun n hn => ⟨_, hread n hn⟩, fun n hn l hl hkind hnumber => ?_,
    fun n hn m hm hav => ?_⟩
  · rw [hread n hn, hread l hl] at hnumber
    obtain ⟨a, ha, haid, hna⟩ := h.entry hn
    obtain ⟨b, hb, hbid, hlb⟩ := h.entry hl
    have hsame := hd a ha b hb (by rw [hna, hlb, hkind, Option.some.inj hnumber])
    exact Option.some.inj (haid.symm.trans (hsame.trans hbid))
  · rw [hread n hn] at hm
    cases hm
    obtain ⟨a, ha, -, hna⟩ := h.entry hn
    obtain ⟨r, hr, hnr⟩ := hused a ha
    cases hna.symm.trans hnr
    rw [hids] at hav
    exact ((havailable _ _).mp hav).2 _ rfl hr

theorem dealt_of_load (hc : d.load.value = .ok c) (hd : d.Unambiguous) : c.Dealt :=
  load_rule hc (fun _ hcheck => (tells_of_check hcheck).dealt hd) (fun _ k h => h.tended k)
    fun _ _ _ h hx hempty => h.drop hx hempty

end Document

namespace Editor

open Choreography (Dealt Intact)

open Document (bare plainEvent plainNest)

variable {e : Editor τ}

theorem dealt_call [DecidableEq τ] (h : e.choreography.Dealt) (call : Call τ) :
    (e.call call).value.choreography.Dealt :=
  call_rule h call (fun _ _ _ hc _ => hc.perform _) fun edit _ _ _ => h.perform edit

/-- What a call makes is new: no node is there under an id that is handed out next; a node that was
not there before is under the id handed out to the edit, which is the id answered; and an edit that
makes a node replaces nothing. -/
structure Fresh [DecidableEq τ] (e : Editor τ) (call : Call τ) : Prop where
  unused : ∀ kind, ¬ e.choreography.hasNode (e.choreography.ids.allocate kind).1 = true
  made : ∀ n ∈ (e.call call).value.choreography.nodes, ¬ e.choreography.hasNode n.id = true →
    ∃ edit, call = .edit edit ∧ edit.makes? e.choreography = some n.kind ∧
      n.id = (e.choreography.ids.allocate n.kind).1
  answered : ∀ edit kind answer, call = .edit edit → edit.makes? e.choreography = some kind →
    (e.edit edit).value.2 = .done answer → answer = .name (e.choreography.ids.allocate kind).1
  intact : ∀ edit kind, call = .edit edit → edit.makes? e.choreography = some kind →
    Intact e.choreography (e.call call).value.choreography

theorem fresh_of_dealt [DecidableEq τ] (h : e.choreography.Dealt) (call : Call τ) :
    e.Fresh call where
  unused := h.unused
  made n hn hout := by
    rcases (among_call e call).mem hn with hold | ⟨edit, kind, hcall, hk, hid⟩
    · exact absurd hold hout
    · obtain ⟨m, hm, -⟩ := h.sane.available_allocate kind
      obtain ⟨l, hl⟩ := (dealt_call h call).read n hn
      have hread := NodeKind.number?_ident kind m
      rw [← hm, ← hid] at hread
      obtain rfl := NodeKind.eq_of_number? hread hl
      exact ⟨edit, hcall, hk, hid⟩
  answered edit kind answer hcall hk hv := by
    rcases e.edit_cases edit with ⟨_, hnot⟩ | ⟨_, _, hperform⟩
    · exact absurd hv (hnot answer)
    · rw [hperform] at hv
      exact Choreography.answer_of_makes? hk hv
  intact edit kind hcall hk := by
    subst hcall
    exact edit_rule h.intact edit fun _ _ => Intact.perform h hk

/-- After every session on a document in which no number has two ids, what is made is new, whatever
is asked for and whatever the calls answer. -/
theorem fresh_after [DecidableEq τ] {d : Document τ} (hload : d.load.value = .ok e.choreography)
    (hd : d.Unambiguous) (calls : List (Call τ)) (call : Call τ) : Fresh (e.after calls) call :=
  fresh_of_dealt
    (after_rule (Document.dealt_of_load hload hd) calls fun _ call h => dealt_call h call) call

/-- A choice of one event, the number of each of them written with more digits than it needs, and
one more event. -/
def padded : Document String :=
  bare [plainNest "n00" .choice none, plainEvent "e01" (some "n00"), plainEvent "e002" none] []

/-- The event outside is put into a new nest and deleted, the nest goes with it, and the choice is
made a subprocess; then one more event is asked for. -/
theorem fresh_after_padded : padded.load.value = .ok padded.opened ∧ padded.Unambiguous ∧
    Fresh (after { choreography := padded.opened }
      [.edit (.createContainer { form := .nest .group, children := ["e002"] }),
        .edit (.deleteNodes ["e002"]), .edit (.changeContainerType "n00" .subprocess none)])
      (.edit (.createEvent { value := .computation "1", initiators := ["P"] })) := by
  have hload : padded.load.value = .ok padded.opened := by decide +kernel
  have hone : padded.Unambiguous := by
    unfold Document.Unambiguous
    decide +kernel
  exact ⟨hload, hone, fresh_after hload hone _ _⟩

/-- Two events with one number. -/
def doubled : Document String := bare [plainEvent "e0" none, plainEvent "e00" none] []

/-- When one of two events with one number is deleted, the id of the other one is handed out, and a
new event replaces it. -/
theorem not_fresh :
    (¬ ∀ (j : Json) (c : Choreography String), (loadJson j).value = .ok c →
      ∀ (calls : List (Call String)) (kind : NodeKind),
        ¬ (after { choreography := c } calls).choreography.hasNode
          ((after { choreography := c } calls).choreography.ids.allocate kind).1 = true) ∧
    ¬ ∀ (j : Json) (c : Choreography String), (loadJson j).value = .ok c →
      ∀ (calls : List (Call String)) (edit : Edit String) (kind : NodeKind),
        edit.makes? (after { choreography := c } calls).choreography = some kind →
          Intact (after { choreography := c } calls).choreography
            ((after { choreography := c } calls).edit edit).value.1.choreography := by
  have hload : (loadJson doubled.toJson).value = .ok doubled.opened := by decide +kernel
  refine ⟨fun h => ?_, fun h => ?_⟩
  · exact h _ _ hload [.edit (.deleteEvent "e00")] .event (by decide +kernel)
  · have hintact := h _ _ hload [.edit (.deleteEvent "e00")]
      (.createEvent { value := .computation "1", initiators := ["Q"] }) .event (by decide +kernel)
    have hbefore : ["P"] ∈ (after { choreography := doubled.opened }
        [.edit (.deleteEvent "e00")]).choreography.events.entries.map Event.initiators := by
      decide +kernel
    have hafter : ((after { choreography := doubled.opened } [.edit (.deleteEvent "e00")]).edit
        (.createEvent { value := .computation "1", initiators := ["Q"] })
          ).value.1.choreography.events.entries.map Event.initiators = [["Q"]] := by decide +kernel
    obtain ⟨f, hf, hP⟩ := List.mem_map.mp hbefore
    obtain ⟨p, hp⟩ := hintact.events (.event f) (Choreography.event_mem_nodes.mpr hf) rfl
    have hQ := List.mem_map_of_mem (f := Event.initiators) (Choreography.event_mem_nodes.mp hp)
    rw [hafter, List.mem_singleton] at hQ
    exact absurd (hP.symm.trans hQ) (by decide)

end Editor

end Dcr
