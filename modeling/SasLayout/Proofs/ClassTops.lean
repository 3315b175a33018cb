import Mathlib.Tactic.SplitIfs
import SasLayout.Grammar.UnionFind

set_option autoImplicit false

/-!
The top of each class: what a look-up finds, that shortening the ways up changes none, and what
joining two classes does to all of them.
-/
namespace SasLayout.UnionFind

variable {uf : UnionFind}

/-- The number at the end of the way up from `x`. -/
def top (uf : UnionFind) (x : Nat) : Nat :=
  if uf.above x = x then x else uf.top (uf.above x)
termination_by uf.distance x
decreasing_by
  have := distance_inner ‹uf.above x ≠ x›
  omega

theorem top_of_above {x : Nat} (here : uf.above x = x) : uf.top x = x := by
  rw [top, if_pos here]

@[simp] theorem top_above (uf : UnionFind) (x : Nat) : uf.top (uf.above x) = uf.top x := by
  by_cases here : uf.above x = x
  · rw [here]
  · rw [top.eq_def uf x, if_neg here]

/-- Only the tops are the same all along each way up and fixed at its end. -/
theorem top_unique (f : Nat → Nat) (along : ∀ x, f (uf.above x) = f x)
    (fixed : ∀ x, uf.above x = x → f x = x) (x : Nat) : uf.top x = f x := by
  fun_induction top uf x with
  | case1 x here => exact (fixed x here).symm
  | case2 x inner ih => rw [ih, along]

theorem above_above_ne {x : Nat} (inner : uf.above x ≠ x) : uf.above (uf.above x) ≠ x := by
  intro back
  have shorter := distance_above_above_lt inner
  rw [back] at shorter
  exact Nat.lt_irrefl _ shorter

theorem top_halve {x : Nat} (inner : uf.above x ≠ x) (y : Nat) :
    (uf.halve x).top y = uf.top y := by
  refine top_unique uf.top (fun z => ?_) (fun z here => ?_) y
  · rw [above_halve inner]
    split_ifs with same
    · rw [same, top_above, top_above]
    · exact top_above uf z
  · rw [above_halve inner] at here
    split_ifs at here with same
    · exact absurd (same ▸ here) (above_above_ne inner)
    · exact top_of_above here

/-- A look-up finds the top. -/
theorem find_fst (uf : UnionFind) (x : Nat) : (uf.find x).1 = uf.top x := by
  fun_induction find uf x with
  | case1 uf x here => exact (top_of_above here).symm
  | case2 uf x inner ih => rw [ih, top_halve inner, top_above, top_above]

/-- A look-up changes no top. -/
@[simp] theorem top_find (uf : UnionFind) (x y : Nat) : (uf.find x).2.top y = uf.top y := by
  fun_induction find uf x with
  | case1 uf x here => rfl
  | case2 uf x inner ih => rw [ih, top_halve inner]

@[simp] theorem size_find (uf : UnionFind) (x : Nat) :
    (uf.find x).2.parent.size = uf.parent.size := by
  fun_induction find uf x with
  | case1 uf x here => rfl
  | case2 uf x inner ih => rw [ih, halve, Array.size_setIfInBounds]

theorem top_attach {upper lower : Nat} (first : uf.above upper = upper) (differ : upper ≠ lower)
    (known : lower < uf.parent.size) (second : uf.above lower = lower) (x : Nat) :
    (uf.attach upper lower first differ).top x = if uf.top x = lower then upper else uf.top x := by
  have above_attach : ∀ y, (uf.attach upper lower first differ).above y =
      if y = lower then upper else uf.above y := parentOf_set known upper
  refine top_unique (fun y => if uf.top y = lower then upper else uf.top y) (fun y => ?_)
    (fun y here => ?_) x
  · rw [above_attach]
    by_cases same : y = lower
    · rw [if_pos same, same, top_of_above first, if_neg differ, top_of_above second, if_pos rfl]
    · rw [if_neg same, top_above]
  · rw [above_attach] at here
    split_ifs at here with same
    · exact absurd (here.trans same) differ
    · rw [top_of_above here, if_neg same]

/-- Joining two classes moves the second under the top of the first and leaves the others. -/
theorem top_union {w : Nat} (v x : Nat) (known : uf.top w < uf.parent.size) :
    (uf.union v w).top x = if uf.top x = uf.top w then uf.top v else uf.top x := by
  simp only [union]
  split
  · rename_i same
    rw [find_fst, find_fst, top_find] at same
    rw [top_find, top_find]
    split_ifs with member
    · rw [member, same]
    · rfl
  · have low : (((uf.find v).2.find w).1 : Nat) < ((uf.find v).2.find w).2.parent.size := by
      rw [find_fst, top_find, size_find, size_find]
      exact known
    rw [top_attach _ _ low (above_find _ w), find_fst, find_fst, top_find, top_find, top_find]

@[simp] theorem size_union (uf : UnionFind) (v w : Nat) :
    (uf.union v w).parent.size = uf.parent.size := by
  simp only [union]
  split
  · rw [size_find, size_find]
  · rw [attach, Array.size_setIfInBounds, size_find, size_find]

theorem top_singletons (count x : Nat) : (singletons count).top x = x := by
  refine top_of_above ?_
  unfold above parentOf singletons
  by_cases known : x < count <;> simp [known]

@[simp] theorem size_singletons (count : Nat) : (singletons count).parent.size = count :=
  Array.size_range

theorem findAll_fst (uf : UnionFind) (xs : List Nat) : (uf.findAll xs).1 = xs.map uf.top := by
  induction xs generalizing uf with
  | nil => rfl
  | cons x rest ih =>
    simp only [findAll, ih, find_fst, List.map_cons, List.cons.injEq, true_and]
    exact List.map_congr_left fun y _ => top_find uf x y

@[simp] theorem top_findAll (uf : UnionFind) (xs : List Nat) (y : Nat) :
    (uf.findAll xs).2.top y = uf.top y := by
  induction xs generalizing uf with
  | nil => rfl
  | cons x rest ih => simp only [findAll, ih, top_find]

end SasLayout.UnionFind
