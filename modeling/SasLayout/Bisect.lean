set_option autoImplicit false

/-! Bisection of an array whose elements satisfy a predicate up to some index and fail it after. -/
namespace SasLayout.Bisect

/-- The index between `lo` and `hi` at which `p` stops to hold. -/
@[specialize] def between {α : Type} (xs : Array α) (p : α → Bool) (lo hi : Nat) : Nat :=
  if h : lo < hi ∧ hi ≤ xs.size then
    have within : (lo + hi) / 2 < xs.size := by omega
    if p xs[(lo + hi) / 2] then between xs p ((lo + hi) / 2 + 1) hi
    else between xs p lo ((lo + hi) / 2)
  else lo
termination_by hi - lo

/-- How many leading elements satisfy `p`. -/
@[inline] def leading {α : Type} (xs : Array α) (p : α → Bool) : Nat :=
  between xs p 0 xs.size

/-- The element before the index found satisfies `p`. -/
theorem between_last {α : Type} {xs : Array α} {p : α → Bool} {lo hi k : Nat}
    (before : ∀ j, lo = j + 1 → ∃ inside : j < xs.size, p xs[j] = true)
    (found : between xs p lo hi = k + 1) : ∃ inside : k < xs.size, p xs[k] = true := by
  fun_induction between xs p lo hi with
  | case1 lo hi _ within holds ih =>
    apply ih _ found
    intro j next
    cases next
    exact ⟨within, holds⟩
  | case2 lo hi _ _ _ ih => exact ih before found
  | case3 lo hi _ => exact before k found

theorem leading_last {α : Type} {xs : Array α} {p : α → Bool} {k : Nat}
    (found : leading xs p = k + 1) : ∃ inside : k < xs.size, p xs[k] = true :=
  between_last (fun _ impossible => by omega) found

end SasLayout.Bisect
