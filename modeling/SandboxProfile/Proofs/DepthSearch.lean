import Mathlib.Data.List.Perm.Basic
import Mathlib.Logic.Relation
import SandboxProfile.Proofs.JsonNesting
import SandboxProfile.Wire.Decoding

/-!
# The search for the depth in any order

The deepest level of a value is looked for with a list of the values yet to be looked at. In
whatever order these are taken from the list, the search comes to an end, and what it finds is the
depth that recursion on the value gives (`Json.found_iff`). A value is refused as too deep by that
depth (`Wire.Profile.tooDeep_iff`).
-/

namespace SandboxProfile

namespace Json

/-- The greatest level so far, and the values yet to be looked at with their levels. -/
structure Search where
  best : Nat
  work : List (Json × Nat)

namespace Search

/-- Any of the values is looked at, and its children join the others in any place. -/
inductive Round : Search → Search → Prop
  | look {best level : Nat} {x : Json} {work others next : List (Json × Nat)}
    (taken : work.Perm ((x, level) :: others))
    (joined : next.Perm (x.children.map (·, level + 1) ++ others)) :
    Round ⟨best, work⟩ ⟨max best level, next⟩

/-- The number of values that stand in those yet to be looked at. -/
def pending (s : Search) : Nat := sizeItems (s.work.map (·.1))

/-- The deepest level there is, whether it was met before or is yet to be met. -/
def deepest (s : Search) : Nat := max s.best (reach s.work)

end Search

/-! ### One round -/

theorem sizeItems_perm {xs ys : List Json} (h : xs.Perm ys) : sizeItems xs = sizeItems ys := by
  induction h with
  | nil => rfl
  | cons x _ ih => rw [sizeItems, sizeItems, ih]
  | swap x y xs =>
    simp only [sizeItems]
    omega
  | trans _ _ ih₁ ih₂ => exact ih₁.trans ih₂

theorem reach_perm {work more : List (Json × Nat)} (h : work.Perm more) :
    reach work = reach more := by
  induction h with
  | nil => rfl
  | cons item _ ih => rw [reach, reach, ih]
  | swap x y work =>
    simp only [reach]
    omega
  | trans _ _ ih₁ ih₂ => exact ih₁.trans ih₂

namespace Search

variable {s t : Search}

/-- A round takes away one value, so that no search goes on for ever. -/
theorem Round.pending_lt (h : Round s t) : t.pending < s.pending := by
  cases h with
  | @look best level x work others next taken joined =>
    have hchildren : (x.children.map (·, level + 1)).map (·.1) = x.children := by
      simp [Function.comp_def]
    rw [pending, pending, sizeItems_perm (taken.map _), sizeItems_perm (joined.map _),
      List.map_append, hchildren, sizeItems_append, List.map_cons, sizeItems, size_eq x]
    omega

theorem wellFounded_round : WellFounded (flip Round) :=
  Subrelation.wf (fun h => Round.pending_lt h) (measure pending).wf

/-- No level is lost in a round, and none is made up. -/
theorem Round.deepest_eq (h : Round s t) : t.deepest = s.deepest := by
  cases h with
  | @look best level x work others next taken joined =>
    have hbelow := max_reach_below level x.children
    simp only [deepest]
    rw [reach_perm taken, reach_perm joined, reach_append, reach]
    omega

/-! ### A whole search -/

theorem deepest_rounds (h : Relation.ReflTransGen Round s t) : t.deepest = s.deepest := by
  induction h with
  | refl => rfl
  | tail _ hlast ih => exact hlast.deepest_eq.trans ih

/-- Any search can be brought to an end. -/
theorem exists_end (s : Search) : ∃ n, Relation.ReflTransGen Round s ⟨n, []⟩ := by
  induction s using wellFounded_round.induction with
  | _ s ih =>
    obtain ⟨best, work⟩ := s
    cases work with
    | nil => exact ⟨best, .refl⟩
    | cons item others =>
      have hround : Round ⟨best, item :: others⟩ ⟨max best item.2, _⟩ := .look (.refl _) (.refl _)
      obtain ⟨n, hn⟩ := ih _ hround
      exact ⟨n, .head hround hn⟩

end Search

/-- A search over a value ends with its depth, in whatever order it is made. -/
theorem found_iff (x : Json) (n : Nat) :
    Relation.ReflTransGen Search.Round ⟨0, [(x, 1)]⟩ ⟨n, []⟩ ↔ n = x.depth := by
  have hfound : ∀ m, Relation.ReflTransGen Search.Round ⟨0, [(x, 1)]⟩ ⟨m, []⟩ → m = x.depth := by
    intro m h
    have hdeepest := Search.deepest_rounds h
    rw [depth_eq]
    simpa [Search.deepest, reach] using hdeepest
  refine ⟨hfound n, ?_⟩
  rintro rfl
  obtain ⟨m, hm⟩ := Search.exists_end ⟨0, [(x, 1)]⟩
  exact hfound m hm ▸ hm

theorem depthItems_eq_foldr (xs : List Json) : depthItems xs = (xs.map depth).foldr max 0 := by
  induction xs with
  | nil => rfl
  | cons x xs ih => rw [depthItems, ih, List.map_cons, List.foldr_cons]

end Json

namespace Wire.Profile

/-- Only objects are refused for their depth, and only beyond the limit. -/
theorem ofJson_eq_tooDeep {x : Json} {depth limit : Nat} :
    ofJson x = .error (.tooDeep depth limit) ↔
      (∃ fields, x = .object fields) ∧ depthLimit < x.depth ∧ depth = x.depth ∧
        limit = depthLimit := by
  cases x with
  | object fields =>
    rw [ofJson, Json.nesting_eq_depth]
    by_cases hdeep : depthLimit < (Json.object fields).depth
    · rw [if_pos hdeep]
      simp [hdeep, eq_comm]
    · -- What a shape is refused for is not its depth.
      rw [if_neg hdeep]
      cases ofFields fields <;> simp [Except.mapError, hdeep]
  | _ => simp [ofJson]

/-- How deep a value nests, by recursion: one level more than the deepest of its children, if it has
any. That is what the search for it finds, in the order it is made and in any other, and a value is
refused as too deep exactly if it is an object with more levels than the limit. -/
theorem tooDeep_iff (x : Json) :
    x.depth = 1 + (x.children.map Json.depth).foldr max 0 ∧
      x.nesting = x.depth ∧
      WellFounded (flip Json.Search.Round) ∧
      (∀ n, Relation.ReflTransGen Json.Search.Round ⟨0, [(x, 1)]⟩ ⟨n, []⟩ ↔ n = x.depth) ∧
      ∀ depth limit, ofJson x = .error (.tooDeep depth limit) ↔
        (∃ fields, x = .object fields) ∧ 512 < x.depth ∧ depth = x.depth ∧ limit = 512 := by
  refine ⟨?_, Json.nesting_eq_depth x, Json.Search.wellFounded_round, Json.found_iff x,
    fun _ _ => ofJson_eq_tooDeep⟩
  rw [Json.depth_eq, Json.depthItems_eq_foldr]

end Wire.Profile

end SandboxProfile
