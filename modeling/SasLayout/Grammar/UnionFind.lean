set_option autoImplicit false

/-!
Classes of numbers as trees: each number points to one above it in its class, and the number at
the top, which points to itself, names the class. Looking up the top shortens the way there by
half.
-/
namespace SasLayout

/-- The number that `parent` has above `x`; numbers that it does not list are alone. -/
def parentOf (parent : Array Nat) (x : Nat) : Nat :=
  parent.getD x x

/-- One step up, to another number. -/
def StepUp (parent : Array Nat) (above x : Nat) : Prop :=
  above = parentOf parent x ∧ above ≠ x

/-- Numbers that each point to one above them, so that every way up ends. -/
structure UnionFind where
  parent : Array Nat
  founded : WellFounded (StepUp parent)

theorem parentOf_set {parent : Array Nat} {x : Nat} (known : x < parent.size) (above y : Nat) :
    parentOf (parent.setIfInBounds x above) y = if y = x then above else parentOf parent y := by
  unfold parentOf
  by_cases same : y = x
  · subst same
    simp [known]
  · simp [same, Ne.symm same]

theorem parentOf_outside {parent : Array Nat} {x : Nat} (outside : parent.size ≤ x) :
    parentOf parent x = x := by
  simp [parentOf, outside]

theorem lt_size_of_parentOf_ne {parent : Array Nat} {x : Nat} (inner : parentOf parent x ≠ x) :
    x < parent.size :=
  Nat.lt_of_not_le fun outside => inner (parentOf_outside outside)

namespace UnionFind

/-- Each of the numbers below `count` alone. -/
def singletons (count : Nat) : UnionFind where
  parent := Array.range count
  founded := ⟨fun x => ⟨x, fun above up => by
    have alone : parentOf (Array.range count) x = x := by
      unfold parentOf
      by_cases known : x < count <;> simp [known]
    exact absurd (up.1.trans alone) up.2⟩⟩

/-- The number above `x`, which is `x` itself at the top. -/
def above (uf : UnionFind) (x : Nat) : Nat :=
  parentOf uf.parent x

/-- Lets `x` point to the number two steps above it. -/
def halve (uf : UnionFind) (x : Nat) : UnionFind where
  parent := uf.parent.setIfInBounds x (uf.above (uf.above x))
  founded := by
    refine Subrelation.wf ?_ uf.founded.transGen
    intro y z up
    obtain ⟨rfl, moved⟩ := up
    by_cases known : x < uf.parent.size
    · rw [parentOf_set known] at moved ⊢
      by_cases same : z = x
      · subst same
        simp only [if_true] at moved ⊢
        by_cases next : uf.above (uf.above z) = uf.above z
        · exact .single ⟨next, moved⟩
        · exact .tail (.single ⟨rfl, next⟩) ⟨rfl, fun top => next (by rw [top, top])⟩
      · simp only [same, if_false] at moved ⊢
        exact .single ⟨rfl, moved⟩
    · rw [Array.setIfInBounds_eq_of_size_le (Nat.le_of_not_lt known)] at moved ⊢
      exact .single ⟨rfl, moved⟩

/-- How many steps lead from `x` to the top. -/
noncomputable def distance (uf : UnionFind) : Nat → Nat :=
  uf.founded.fix fun x next =>
    if inner : uf.above x = x then 0 else next (uf.above x) ⟨rfl, inner⟩ + 1

theorem distance_top {uf : UnionFind} {x : Nat} (top : uf.above x = x) : uf.distance x = 0 := by
  rw [distance, WellFounded.fix_eq, dif_pos top]

theorem distance_inner {uf : UnionFind} {x : Nat} (inner : uf.above x ≠ x) :
    uf.distance x = uf.distance (uf.above x) + 1 := by
  rw [distance, WellFounded.fix_eq, dif_neg inner]

theorem above_halve {uf : UnionFind} {x : Nat} (inner : uf.above x ≠ x) (y : Nat) :
    (uf.halve x).above y = if y = x then uf.above (uf.above x) else uf.above y :=
  parentOf_set (lt_size_of_parentOf_ne inner) _ y

theorem distance_above_above_lt {uf : UnionFind} {x : Nat} (inner : uf.above x ≠ x) :
    uf.distance (uf.above (uf.above x)) < uf.distance x := by
  rw [distance_inner inner]
  by_cases next : uf.above (uf.above x) = uf.above x
  · rw [next]
    exact Nat.lt_succ_self _
  · rw [distance_inner next]
    omega

/-- Halving makes no way up longer. -/
theorem distance_halve_le {uf : UnionFind} {x : Nat} (inner : uf.above x ≠ x) (y : Nat) :
    (uf.halve x).distance y ≤ uf.distance y := by
  induction steps : uf.distance y using Nat.strongRecOn generalizing y with
  | ind n ih =>
    by_cases top : (uf.halve x).above y = y
    · rw [distance_top top]
      exact Nat.zero_le _
    · rw [distance_inner top]
      rw [above_halve inner] at top ⊢
      by_cases same : y = x
      · subst same
        simp only [if_true]
        have shorter := distance_above_above_lt inner
        have := ih _ (steps ▸ shorter) _ rfl
        omega
      · simp only [same, if_false] at top ⊢
        have shorter := distance_inner top
        have := ih _ (by omega) (uf.above y) rfl
        omega

/-- The top of the class of `x`, with the way there halved. -/
def find (uf : UnionFind) (x : Nat) : Nat × UnionFind :=
  if uf.above x = x then (x, uf) else (uf.halve x).find (uf.above (uf.above x))
termination_by uf.distance x
decreasing_by
  exact Nat.lt_of_le_of_lt (distance_halve_le ‹_› _) (distance_above_above_lt ‹_›)

theorem halve_keeps_top {uf : UnionFind} {x y : Nat} (inner : uf.above x ≠ x)
    (top : uf.above y = y) : (uf.halve x).above y = y := by
  rw [above_halve inner, if_neg, top]
  rintro rfl
  exact inner top

theorem find_keeps_top {uf : UnionFind} (x : Nat) {y : Nat} (top : uf.above y = y) :
    (uf.find x).2.above y = y := by
  fun_induction find uf x with
  | case1 uf x here => exact top
  | case2 uf x inner ih => exact ih (halve_keeps_top inner top)

theorem above_find (uf : UnionFind) (x : Nat) :
    (uf.find x).2.above (uf.find x).1 = (uf.find x).1 := by
  fun_induction find uf x with
  | case1 uf x here => exact here
  | case2 uf x inner ih => exact ih

/-- Lets `lower` point to `upper`, the top of another class. -/
def attach (uf : UnionFind) (upper lower : Nat) (top : uf.above upper = upper)
    (differ : upper ≠ lower) : UnionFind where
  parent := uf.parent.setIfInBounds lower upper
  founded := by
    by_cases known : lower < uf.parent.size
    · have ends : Acc (StepUp (uf.parent.setIfInBounds lower upper)) upper := by
        refine ⟨_, fun y up => absurd (up.1.trans ?_) up.2⟩
        rw [parentOf_set known, if_neg differ]
        exact top
      refine ⟨fun x => uf.founded.induction x fun x ih => ⟨x, fun y up => ?_⟩⟩
      obtain ⟨rfl, moved⟩ := up
      rw [parentOf_set known] at moved ⊢
      split
      · exact ends
      · rename_i other
        rw [if_neg other] at moved
        exact ih _ ⟨rfl, moved⟩
    · rw [Array.setIfInBounds_eq_of_size_le (Nat.le_of_not_lt known)]
      exact uf.founded

/-- Puts the classes of two numbers into one, named as that of the first. -/
def union (uf : UnionFind) (x y : Nat) : UnionFind :=
  let first := uf.find x
  let second := first.2.find y
  if same : first.1 = second.1 then second.2
  else second.2.attach first.1 second.1 (find_keeps_top y (above_find uf x)) same

/-- The tops of the classes of some numbers, looked up one after another. -/
def findAll (uf : UnionFind) : List Nat → List Nat × UnionFind
  | [] => ([], uf)
  | x :: rest =>
    let first := uf.find x
    let others := first.2.findAll rest
    (first.1 :: others.1, others.2)

end UnionFind
end SasLayout
