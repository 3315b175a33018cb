import SasLayout.Bisect

set_option autoImplicit false

/-!
What bisection finds: the first index at which the predicate fails, if it fails ever after, and so
the length of the first part of an array that falls into elements with the predicate and without.
-/
namespace SasLayout.Bisect

variable {α : Type} {xs : Array α} {p : α → Bool}

/-- Once `p` fails it fails ever after. -/
def Splits (xs : Array α) (p : α → Bool) : Prop :=
  ∀ j k (first : j < xs.size) (second : k < xs.size), j ≤ k → p xs[k] = true → p xs[j] = true

theorem between_spec (splits : Splits xs p) {lo hi : Nat} (ordered : lo ≤ hi)
    (within : hi ≤ xs.size) (before : ∀ k (bound : k < xs.size), k < lo → p xs[k] = true)
    (after : ∀ k (bound : k < xs.size), hi ≤ k → p xs[k] = false) (k : Nat)
    (bound : k < xs.size) : p xs[k] = true ↔ k < between xs p lo hi := by
  fun_induction between xs p lo hi with
  | case1 lo hi room middle holds ih =>
    refine ih (by omega) within ?_ after
    intro j inside below
    exact splits j _ inside middle (by omega) holds
  | case2 lo hi room middle fails ih =>
    refine ih (by omega) (by omega) before ?_
    intro j inside above
    cases held : p xs[j] with
    | false => rfl
    | true => exact absurd (splits _ j middle inside above held) fails
  | case3 lo hi full =>
    obtain rfl : lo = hi := by omega
    constructor
    · intro holds
      apply Nat.lt_of_not_le
      intro beyond
      rw [after k bound beyond] at holds
      cases holds
    · exact before k bound

theorem leading_spec (splits : Splits xs p) (k : Nat) (bound : k < xs.size) :
    p xs[k] = true ↔ k < leading xs p :=
  between_spec splits (Nat.zero_le _) (Nat.le_refl _) (fun _ _ below => absurd below (by omega))
    (fun _ inside beyond => absurd inside (by omega)) k bound

/-- An array that falls into elements with `p` and elements without has the first part found. -/
theorem leading_eq {front back : List α} (view : xs.toList = front ++ back)
    (holds : ∀ a ∈ front, p a = true) (fails : ∀ b ∈ back, p b = false) :
    leading xs p = front.length := by
  have size : xs.size = front.length + back.length := by
    rw [← Array.length_toList, view, List.length_append]
  have here : ∀ k (bound : k < xs.size), p xs[k] = true ↔ k < front.length := by
    intro k bound
    have element : (front ++ back)[k]? = some xs[k] := by
      rw [← view, Array.getElem?_toList, Array.getElem?_eq_getElem bound]
    rcases Nat.lt_or_ge k front.length with first | second
    · rw [List.getElem?_append_left first] at element
      simp [holds _ (List.mem_of_getElem? element), first]
    · rw [List.getElem?_append_right second] at element
      simp [fails _ (List.mem_of_getElem? element), second]
  have splits : Splits xs p := fun j k first second below held =>
    (here j first).mpr (Nat.lt_of_le_of_lt below ((here k second).mp held))
  have within : leading xs p ≤ xs.size := by
    cases found : leading xs p with
    | zero => exact Nat.zero_le _
    | succ k => exact (leading_last found).1
  apply Nat.le_antisymm
  · apply Nat.le_of_not_lt
    intro long
    have held := (leading_spec splits front.length (by omega)).mpr long
    exact absurd ((here _ (by omega)).mp held) (Nat.lt_irrefl _)
  · apply Nat.le_of_not_lt
    intro short
    have held := (here (leading xs p) (by omega)).mpr short
    exact absurd ((leading_spec splits _ (by omega)).mp held) (Nat.lt_irrefl _)

end SasLayout.Bisect
