import SasLayout.Proofs.Bisection
import SasLayout.Proofs.Bytes

set_option autoImplicit false

/-!
The line map and the newlines of the text. The starts that the map lists ascend, and those up to an
offset are the first one and one for each newline before it. So the bisection gives the line of an
offset the number of newlines before it.
-/
namespace SasLayout

theorem LineMap.index_min (m : LineMap) (i : Nat) : m.index (min i m.size) = m.index i := by
  rw [index, index, Nat.min_eq_left (Nat.min_le_right _ _)]

/-- The line of an offset is the last one that starts up to it, whether the bisection meets that
start or the place behind it. -/
theorem LineMap.index_eq {m : LineMap} {front back : List Nat} {last i : Nat}
    (view : m.starts.toList = front ++ last :: back) (ascend : (front ++ [last]).Pairwise (· < ·))
    (within : i ≤ m.size) (reached : last ≤ i) (later : ∀ b ∈ back, i < b) :
    m.index i = front.length := by
  have earlier : ∀ a ∈ front, a < last := fun a listed =>
    (List.pairwise_append.mp ascend).2.2 a listed last List.mem_cons_self
  rw [index, Nat.min_eq_left within, search]
  rcases Nat.eq_or_lt_of_le reached with rfl | before
  · have next : Bisect.leading m.starts (· < last) = front.length := by
      refine Bisect.leading_eq view (by simpa using earlier) fun b listed => ?_
      rcases List.mem_cons.mp listed with rfl | beyond
      · simp
      · have := later b beyond
        simp
        omega
    have met : m.starts[front.length]? = some last := by
      rw [← Array.getElem?_toList, view, List.getElem?_append_right (Nat.le_refl _), Nat.sub_self,
        List.getElem?_cons_zero]
    simp only [next, met, ↓reduceIte]
  · have next : Bisect.leading m.starts (· < i) = front.length + 1 := by
      have parts : m.starts.toList = (front ++ [last]) ++ back := by simp [view]
      rw [show front.length + 1 = (front ++ [last]).length by simp]
      refine Bisect.leading_eq parts (fun a listed => ?_) fun b listed => ?_
      · rcases List.mem_append.mp listed with inner | outer
        · have := earlier a inner
          simp
          omega
        · rw [List.mem_singleton.mp outer]
          simpa using before
      · have := later b listed
        simp
        omega
    have missed : m.starts[front.length + 1]? ≠ some i := by
      rw [← Array.getElem?_toList, view, List.getElem?_append_right (by omega),
        Nat.add_sub_cancel_left, List.getElem?_cons_succ]
      exact fun met => Nat.lt_irrefl i (later i (List.mem_of_getElem? met))
    simp only [next, missed, ↓reduceIte, Nat.add_sub_cancel]

namespace Text

variable {t : Text} {i j n : Nat}

/-- How many bytes before `i` satisfy `p`. -/
def countBefore (t : Text) (p : UInt8 → Bool) (i : Nat) : Nat :=
  (t.toList.take i).countP p

section Counting

variable {p : UInt8 → Bool}

theorem countBefore_mono (ordered : i ≤ j) : t.countBefore p i ≤ t.countBefore p j :=
  ((List.take_prefix_take_left ordered).sublist).countP_le

theorem countBefore_succ (t : Text) (p : UInt8 → Bool) (i : Nat) :
    t.countBefore p (i + 1) = t.countBefore p i + (if t.byteIs i p then 1 else 0) := by
  rw [countBefore, List.take_add_one, ← byte?_eq_getElem?, List.countP_append, byteIs_eq_any,
    countBefore]
  cases t.byte? i with
  | none => simp
  | some b => simp [List.countP_singleton]

theorem countBefore_succ_pos (holds : t.byteIs i p = true) :
    t.countBefore p (i + 1) = t.countBefore p i + 1 := by
  rw [countBefore_succ, if_pos holds]

theorem countBefore_succ_neg (fails : t.byteIs i p = false) :
    t.countBefore p (i + 1) = t.countBefore p i := by
  rw [countBefore_succ, if_neg (by simp [fails]), Nat.add_zero]

theorem countBefore_plain (ordered : i ≤ j)
    (plain : ∀ k, i ≤ k → k < j → t.byteIs k p = false) :
    t.countBefore p j = t.countBefore p i := by
  induction ordered with
  | refl => rfl
  | @step j ordered ih =>
    rw [countBefore_succ_neg (plain j ordered (Nat.lt_succ_self j)),
      ih fun k lower upper => plain k lower (by omega)]

end Counting

/-- The offsets behind the newlines among the `n` bytes from `i` on. -/
def behindNewlines (t : Text) (i n : Nat) : List Nat :=
  (List.range' i n).filterMap fun k => if t.byteIs k Byte.isNewline then some (k + 1) else none

theorem bounds_of_mem_behindNewlines {start : Nat} (listed : start ∈ t.behindNewlines i n) :
    i < start ∧ start ≤ i + n := by
  obtain ⟨k, inside, found⟩ := List.mem_filterMap.mp listed
  obtain ⟨lower, upper⟩ := List.mem_range'_1.mp inside
  split at found
  · cases found
    omega
  · cases found

theorem behindNewlines_append (t : Text) (i m n : Nat) :
    t.behindNewlines i m ++ t.behindNewlines (i + m) n = t.behindNewlines i (m + n) := by
  rw [behindNewlines, behindNewlines, behindNewlines, ← List.filterMap_append,
    List.range'_append_1]

theorem behindNewlines_succ (t : Text) (i n : Nat) :
    t.behindNewlines i (n + 1) =
      (if t.byteIs i Byte.isNewline then [i + 1] else []) ++ t.behindNewlines (i + 1) n := by
  rw [behindNewlines, List.range'_succ, List.filterMap_cons, behindNewlines]
  cases t.byteIs i Byte.isNewline <;> rfl

theorem behindNewlines_plain
    (plain : ∀ k, i ≤ k → k < i + n → t.byteIs k Byte.isNewline = false) :
    t.behindNewlines i n = [] := by
  refine List.filterMap_eq_nil_iff.mpr fun k listed => ?_
  obtain ⟨lower, upper⟩ := List.mem_range'_1.mp listed
  rw [plain k lower upper, if_neg Bool.false_ne_true]

theorem behindNewlines_ascend (t : Text) (i n : Nat) :
    (t.behindNewlines i n).Pairwise (· < ·) := by
  refine List.pairwise_filterMap.mpr ((List.pairwise_lt_range' ..).imp ?_)
  intro a b before first left second right
  split at left <;> split at right <;> cases left <;> cases right
  omega

theorem length_behindNewlines (t : Text) (i : Nat) :
    (t.behindNewlines 0 i).length = t.countBefore Byte.isNewline i := by
  induction i with
  | zero => simp [behindNewlines, countBefore]
  | succ i ih =>
    rw [← behindNewlines_append, List.length_append, ih, Nat.zero_add, behindNewlines_succ,
      countBefore_succ]
    cases t.byteIs i Byte.isNewline <;> rfl

theorem toList_addStarts (t : Text) (i : Nat) (starts : Array Nat) :
    (t.addStarts i starts).toList = starts.toList ++ t.behindNewlines i (t.size - i) := by
  fun_induction addStarts t i starts with
  | case1 i starts inside newline ih =>
    rw [ih, show t.size - i = t.size - (i + 1) + 1 by omega, behindNewlines_succ, if_pos newline,
      Array.toList_push, List.append_assoc]
  | case2 i starts inside plain ih =>
    rw [ih, show t.size - i = t.size - (i + 1) + 1 by omega, behindNewlines_succ, if_neg plain,
      List.nil_append]
  | case3 i starts outside =>
    rw [Nat.sub_eq_zero_of_le (Nat.le_of_not_lt outside)]
    simp [behindNewlines]

/-- The starts up to an offset, and the ones behind it. -/
theorem toList_starts (within : i ≤ t.size) :
    t.lineMap.starts.toList =
      (0 :: t.behindNewlines 0 i) ++ t.behindNewlines i (t.size - i) := by
  have halves := t.behindNewlines_append 0 i (t.size - i)
  rw [Nat.zero_add, Nat.add_sub_cancel' within] at halves
  rw [lineMap, toList_addStarts, Nat.sub_zero, ← halves]
  rfl

theorem lineIndex_eq (within : i ≤ t.size) :
    t.lineIndex i = t.countBefore Byte.isNewline i := by
  have ascend : (0 :: t.behindNewlines 0 i).Pairwise (· < ·) :=
    List.pairwise_cons.mpr
      ⟨fun _ listed => (bounds_of_mem_behindNewlines listed).1, t.behindNewlines_ascend 0 i⟩
  have reached : ∀ a ∈ 0 :: t.behindNewlines 0 i, a ≤ i := by
    intro a listed
    rcases List.mem_cons.mp listed with rfl | inner
    · exact Nat.zero_le _
    · have := (bounds_of_mem_behindNewlines inner).2
      omega
  obtain nothing | ⟨front, last, split⟩ := List.eq_nil_or_concat' (0 :: t.behindNewlines 0 i)
  · cases nothing
  · have lengths : front.length = (t.behindNewlines 0 i).length := by
      simpa using (congrArg List.length split).symm
    rw [split] at ascend reached
    rw [← length_behindNewlines, ← lengths]
    have view : t.lineMap.starts.toList = front ++ last :: t.behindNewlines i (t.size - i) := by
      rw [toList_starts within, split, List.append_assoc, List.singleton_append]
    exact LineMap.index_eq view ascend within (reached last (by simp)) fun _ listed =>
      (bounds_of_mem_behindNewlines listed).1

theorem lineCount_eq_countBefore (t : Text) :
    t.lineCount = t.countBefore Byte.isNewline t.size + 1 := by
  rw [lineCount, LineMap.count, ← Array.length_toList, toList_starts (Nat.le_refl _), Nat.sub_self,
    ← length_behindNewlines]
  simp [behindNewlines]

end Text
end SasLayout
