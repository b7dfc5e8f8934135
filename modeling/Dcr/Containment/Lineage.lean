import Dcr.Choreography
import Dcr.Log

/-! What is below a node. Parent links may form a cycle, so the search downwards keeps what it has
found and looks into each container once. -/

namespace Dcr.Choreography

variable {τ : Type} [FreeText τ]

/-- A search downwards: the ids found so far, and those that it has still to look into, the next one
first. -/
structure Search where
  found : List String
  frontier : List String
  deriving DecidableEq, Repr

/-- Finds a child, unless it was found before, and goes on into it if it is a container. -/
def meet (c : Choreography τ) (s : Search) (child : String) : Search :=
  if s.found.contains child then s
  else
    { found := s.found ++ [child]
      frontier := if c.containers.contains child then child :: s.frontier else s.frontier }

/-- The containers that a search has not found. -/
def unfound (c : Choreography τ) (s : Search) : List String :=
  c.containers.keys.filter fun k => !s.found.contains k

/-- A child that is looked into is one container less to be found. -/
theorem remaining_meet (c : Choreography τ) (s : Search) (child : String) :
    (c.meet s child).frontier.length + (c.unfound (c.meet s child)).length ≤
      s.frontier.length + (c.unfound s).length := by
  unfold meet
  split
  · exact Nat.le_refl _
  · next hnew =>
    have hfewer : (c.containers.keys.filter fun k => !(s.found ++ [child]).contains k) =
        (c.unfound s).filter fun k => k != child := by
      rw [unfound, List.filter_filter]
      refine List.filter_congr fun k _ => ?_
      rw [Bool.eq_iff_iff]
      simp [and_comm]
    by_cases hc : c.containers.contains child = true
    · have hmem : child ∈ c.unfound s := by
        obtain ⟨x, hx⟩ := Option.isSome_iff_exists.1 hc
        have named : Keyed.key x = child := by simpa using List.find?_some hx
        refine List.mem_filter.2 ⟨?_, by simpa using hnew⟩
        exact named ▸ List.mem_map_of_mem (List.mem_of_find?_eq_some hx)
      have hlt : ((c.unfound s).filter fun k => k != child).length < (c.unfound s).length :=
        List.length_filter_lt_length_iff_exists.2 ⟨child, hmem, by simp⟩
      simp only [hc, if_true, unfound, hfewer, List.length_cons] at hlt ⊢
      omega
    · simp only [hc, unfound, hfewer]
      exact Nat.add_le_add_left (List.length_filter_le _ _) _

theorem remaining_meet_foldl (c : Choreography τ) (s : Search) (children : List String) :
    (children.foldl c.meet s).frontier.length + (c.unfound (children.foldl c.meet s)).length ≤
      s.frontier.length + (c.unfound s).length := by
  induction children generalizing s with
  | nil => exact Nat.le_refl _
  | cons child rest ih => exact Nat.le_trans (ih (c.meet s child)) (remaining_meet c s child)

/-- Looks into one id after the other until none is left, and answers what it has found. -/
def search (c : Choreography τ) : Search → List String
  | ⟨found, []⟩ => found
  | ⟨found, id :: frontier⟩ => c.search ((c.children id).foldl c.meet ⟨found, frontier⟩)
termination_by s => s.frontier.length + (c.unfound s).length
decreasing_by
  refine Nat.lt_of_le_of_lt (remaining_meet_foldl c _ _) ?_
  exact Nat.add_lt_add_right (Nat.lt_succ_self _) _

/-- The ids of the nodes below a node, near and far. -/
def family (c : Choreography τ) (id : String) : List String := c.search ⟨[], [id]⟩

/-- Why a node cannot move into a container, if it cannot. -/
def parentRejection? (c : Choreography τ) (id : String) (parent : Option String) :
    Option Rejection :=
  match parent with
  | none => none
  | some parent =>
    if parent = id then some .selfParent
    else if !c.containers.contains parent then some .notAContainer
    else if c.containers.contains id && (c.family id).contains parent then some .cyclicParent
    else none

end Dcr.Choreography
