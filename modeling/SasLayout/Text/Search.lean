import SasLayout.Text

set_option autoImplicit false

/-!
Search for a pattern in both directions. A pattern gives the length of its match at an offset. The
search backward reads windows of doubling size before its anchor, and in each window the matches
that follow one another without overlap.
-/
namespace SasLayout

/-- The length of the match that starts at an offset, if one does. -/
abbrev Pattern := Text → Nat → Option Nat

/-- Whether every match of the pattern takes at least one byte. -/
def Pattern.Positive (pattern : Pattern) : Prop :=
  ∀ (t : Text) (i length : Nat), pattern t i = some length → 0 < length

namespace Text

/-- The pattern of a fixed word. -/
def literal (word : Text) : Pattern := fun t i =>
  if t.startsWith i word.toList then some word.size else none

/-- The first match that starts at `i` or later, at a character boundary. -/
@[specialize] def firstMatch (t : Text) (pattern : Pattern) (i : Nat) : Option Extent :=
  if i ≤ t.size then
    match pattern t i with
    | some length =>
      if t.isBoundary i then some ⟨i, i + length⟩ else t.firstMatch pattern (i + 1)
    | none => t.firstMatch pattern (i + 1)
  else none
termination_by t.size + 1 - i

theorem firstMatch_bounds {t : Text} {pattern : Pattern} {i : Nat} {found : Extent}
    (matched : t.firstMatch pattern i = some found) :
    i ≤ found.start ∧ found.start ≤ t.size ∧ found.start ≤ found.stop := by
  fun_induction firstMatch t pattern i with
  | case1 i within length _ _ =>
    cases matched
    exact ⟨Nat.le_refl i, within, Nat.le_add_right i length⟩
  | case2 i _ length _ _ ih =>
    have bounds := ih matched
    omega
  | case3 i _ _ ih =>
    have bounds := ih matched
    omega
  | case4 => simp at matched

theorem firstMatch_lt {t : Text} {pattern : Pattern} (positive : pattern.Positive) {i : Nat}
    {found : Extent} (matched : t.firstMatch pattern i = some found) :
    found.start < found.stop := by
  fun_induction firstMatch t pattern i with
  | case1 i _ length here _ =>
    cases matched
    exact Nat.lt_add_of_pos_right (positive t i length here)
  | case2 i _ length _ _ ih => exact ih matched
  | case3 i _ _ ih => exact ih matched
  | case4 => simp at matched

def searchForward (t : Text) (pattern : Pattern) (anchor : Nat) : Option Extent :=
  if t.size < anchor then none else t.firstMatch pattern (t.floor anchor)

/-- The last of the successive matches from `i` on that end at or before `anchor`. -/
@[specialize] def lastMatch (t : Text) (pattern : Pattern) (anchor i : Nat)
    (last : Option Extent) : Option Extent :=
  match _matched : t.firstMatch pattern i with
  | none => last
  | some found =>
    if anchor < found.stop then last
    else if found.start < found.stop then t.lastMatch pattern anchor found.stop (some found)
    else if found.stop < t.size then
      t.lastMatch pattern anchor (t.next found.stop) (some found)
    else some found
termination_by anchor + 1 - i
decreasing_by
  · have bounds := firstMatch_bounds _matched
    omega
  · rename_i inside
    have bounds := firstMatch_bounds _matched
    have further := t.lt_next found.stop inside
    omega

/-- The size of the search window after `k` doublings. -/
def windowSize (k : Nat) : Nat := 4096 * Nat.pow 2 k

theorem lt_windowSize (k : Nat) : k < windowSize k := by
  have grows : k < Nat.pow 2 k := Nat.lt_two_pow_self
  unfold windowSize
  omega

/-- The search in the window of `k` doublings before `anchor`, and in larger ones after it. -/
@[specialize] def searchWindows (t : Text) (pattern : Pattern) (anchor k : Nat) : Option Extent :=
  if windowSize k < anchor then
    match t.lastMatch pattern anchor (t.floor (anchor - windowSize k)) none with
    | some found => some found
    | none =>
      have := lt_windowSize k
      t.searchWindows pattern anchor (k + 1)
  else t.lastMatch pattern anchor 0 none
termination_by anchor - k

/-- The last match that ends at or before `anchor`. -/
def searchBackward (t : Text) (pattern : Pattern) (anchor : Nat) : Option Extent :=
  t.searchWindows pattern (t.floor anchor) 0

theorem lastMatch_stop_le {t : Text} {pattern : Pattern} {anchor i : Nat} {last : Option Extent}
    {found : Extent} (before : ∀ m ∈ last, m.stop ≤ anchor)
    (matched : t.lastMatch pattern anchor i last = some found) : found.stop ≤ anchor := by
  fun_induction lastMatch t pattern anchor i last with
  | case1 => exact before found matched
  | case2 => exact before found matched
  | case3 i last m _ within _ ih =>
    apply ih _ matched
    intro same equal
    cases equal
    exact Nat.le_of_not_lt within
  | case4 i last m _ within _ _ ih =>
    apply ih _ matched
    intro same equal
    cases equal
    exact Nat.le_of_not_lt within
  | case5 i last m _ within _ _ =>
    cases matched
    exact Nat.le_of_not_lt within

theorem lastMatch_lt {t : Text} {pattern : Pattern} (positive : pattern.Positive) {anchor i : Nat}
    {last : Option Extent} {found : Extent} (before : ∀ m ∈ last, m.start < m.stop)
    (matched : t.lastMatch pattern anchor i last = some found) : found.start < found.stop := by
  fun_induction lastMatch t pattern anchor i last with
  | case1 => exact before found matched
  | case2 => exact before found matched
  | case3 i last m here _ _ ih =>
    apply ih _ matched
    intro same equal
    cases equal
    exact firstMatch_lt positive here
  | case4 i last m here _ _ _ ih =>
    apply ih _ matched
    intro same equal
    cases equal
    exact firstMatch_lt positive here
  | case5 i last m here _ _ _ =>
    cases matched
    exact firstMatch_lt positive here

theorem searchWindows_lt {t : Text} {pattern : Pattern} (positive : pattern.Positive)
    {anchor k : Nat} {found : Extent}
    (matched : t.searchWindows pattern anchor k = some found) : found.start < found.stop := by
  fun_induction searchWindows t pattern anchor k with
  | case1 k _ m inWindow =>
    cases matched
    exact lastMatch_lt positive (by simp) inWindow
  | case2 k _ _ _ ih => exact ih matched
  | case3 => exact lastMatch_lt positive (by simp) matched

theorem searchBackward_lt {t : Text} {pattern : Pattern} (positive : pattern.Positive)
    {anchor : Nat} {found : Extent} (matched : t.searchBackward pattern anchor = some found) :
    found.start < found.stop :=
  searchWindows_lt positive matched

theorem searchWindows_stop_le {t : Text} {pattern : Pattern} {anchor k : Nat} {found : Extent}
    (matched : t.searchWindows pattern anchor k = some found) : found.stop ≤ anchor := by
  fun_induction searchWindows t pattern anchor k with
  | case1 k _ m inWindow =>
    cases matched
    exact lastMatch_stop_le (by simp) inWindow
  | case2 k _ _ _ ih => exact ih matched
  | case3 => exact lastMatch_stop_le (by simp) matched

theorem searchBackward_stop_le {t : Text} {pattern : Pattern} {anchor : Nat} {found : Extent}
    (matched : t.searchBackward pattern anchor = some found) : found.stop ≤ anchor :=
  Nat.le_trans (searchWindows_stop_le matched) (t.floor_le anchor)

end Text
end SasLayout
