import SasLayout.Proofs.LineMaps

set_option autoImplicit false

/-!
The lines of a text. Where the line of an offset starts and ends depends on the number of the line
alone, and is what the line map has under that number. The list of all lines gives the same lines
by their numbers.
-/
namespace SasLayout

namespace Byte

theorem isNewline_of_isIndent (b : UInt8) : isIndent b = true → isNewline b = false :=
  forall_of_halves (p := fun b => isIndent b = true → isNewline b = false) (by decide) b

theorem plain_of_isContinuation (b : UInt8) :
    isContinuation b = true → isIndent b = false ∧ isNewline b = false :=
  forall_of_halves (p := fun b => isContinuation b = true → isIndent b = false ∧ isNewline b = false)
    (by decide) b

end Byte

namespace Text

variable {t : Text} {i j k : Nat}

theorem lineIndex_min (t : Text) (i : Nat) : t.lineIndex (min i t.size) = t.lineIndex i :=
  t.lineMap.index_min i

theorem lineIndex_mono (ordered : i ≤ j) : t.lineIndex i ≤ t.lineIndex j := by
  rw [← t.lineIndex_min i, ← t.lineIndex_min j, lineIndex_eq (Nat.min_le_right _ _),
    lineIndex_eq (Nat.min_le_right _ _)]
  exact countBefore_mono (by omega)

theorem lt_of_lineIndex_lt (later : t.lineIndex i < t.lineIndex j) : i < j := by
  apply Nat.lt_of_not_le
  intro ordered
  have := t.lineIndex_mono ordered
  omega

theorem lineIndex_plain (ordered : i ≤ j) (within : j ≤ t.size)
    (plain : ∀ k, i ≤ k → k < j → t.byteIs k Byte.isNewline = false) :
    t.lineIndex j = t.lineIndex i := by
  rw [lineIndex_eq within, lineIndex_eq (by omega), countBefore_plain ordered plain]

theorem lineIndex_newline (newline : t.byteIs i Byte.isNewline = true) :
    t.lineIndex (i + 1) = t.lineIndex i + 1 := by
  have inside := lt_size_of_byteIs newline
  rw [lineIndex_eq inside, lineIndex_eq (Nat.le_of_lt inside), countBefore_succ_pos newline]

/-- Between two offsets of one line there is no newline. -/
theorem plain_of_lineIndex_eq (same : t.lineIndex i = t.lineIndex j) (lower : i ≤ k)
    (upper : k < j) : t.byteIs k Byte.isNewline = false := by
  cases newline : t.byteIs k Byte.isNewline with
  | false => rfl
  | true =>
    have before := t.lineIndex_mono lower
    have after := t.lineIndex_mono (Nat.succ_le_of_lt upper)
    rw [Nat.succ_eq_add_one, lineIndex_newline newline] at after
    omega

theorem lineStart_le (within : i ≤ t.size) : t.lineStart i ≤ i := by
  rw [lineStart, Nat.min_eq_left within]
  exact t.seekBack_le _ i

theorem lineStart_zero (t : Text) : t.lineStart 0 = 0 :=
  Nat.le_zero.mp (lineStart_le (Nat.zero_le _))

theorem lineIndex_zero (t : Text) : t.lineIndex 0 = 0 := by
  rw [lineIndex_eq (Nat.zero_le _), countBefore, List.take_zero, List.countP_nil]

theorem lineStart_plain (lower : t.lineStart i ≤ k) (upper : k < i) :
    t.byteIs k Byte.isNewline = false := by
  rcases Nat.lt_or_ge k t.size with inside | outside
  · exact seekBack_after lower (by omega)
  · exact byteIs_past outside _

theorem lineIndex_lineStart (within : i ≤ t.size) :
    t.lineIndex (t.lineStart i) = t.lineIndex i :=
  (lineIndex_plain (lineStart_le within) within fun _ lower upper =>
    lineStart_plain lower upper).symm

theorem lineStart_eq (ordered : i ≤ j) (within : j ≤ t.size)
    (same : t.lineIndex i = t.lineIndex j) : t.lineStart i = t.lineStart j := by
  have early := lineStart_le (Nat.le_trans ordered within)
  have late := lineStart_le within
  rcases Nat.lt_trichotomy (t.lineStart i) (t.lineStart j) with before | equal | after
  · rcases t.lineStart_begins j with zero | newline
    · omega
    · rcases Nat.lt_or_ge (t.lineStart j - 1) i with inside | beyond
      · rw [lineStart_plain (show t.lineStart i ≤ t.lineStart j - 1 by omega) inside] at newline
        cases newline
      · rw [plain_of_lineIndex_eq same beyond (by omega)] at newline
        cases newline
  · exact equal
  · rcases t.lineStart_begins i with zero | newline
    · omega
    · rw [lineStart_plain (show t.lineStart j ≤ t.lineStart i - 1 by omega) (by omega)] at newline
      cases newline

theorem lineStart_congr (left : i ≤ t.size) (right : j ≤ t.size)
    (same : t.lineIndex i = t.lineIndex j) : t.lineStart i = t.lineStart j := by
  rcases Nat.le_total i j with ordered | ordered
  · exact lineStart_eq ordered right same
  · exact (lineStart_eq ordered left same.symm).symm

theorem lineStart_eq_iff (left : i ≤ t.size) (right : j ≤ t.size) :
    t.lineStart i = t.lineStart j ↔ t.lineIndex i = t.lineIndex j := by
  constructor
  · intro same
    rw [← lineIndex_lineStart left, same, lineIndex_lineStart right]
  · exact lineStart_congr left right

theorem lt_lineStart_iff (left : k ≤ t.size) (right : i ≤ t.size) :
    k < t.lineStart i ↔ t.lineIndex k < t.lineIndex i := by
  constructor
  · intro before
    have ordered : k ≤ i := Nat.le_trans (Nat.le_of_lt before) (lineStart_le right)
    refine Nat.lt_of_le_of_ne (t.lineIndex_mono ordered) fun same => ?_
    have start := lineStart_le left
    rw [lineStart_eq ordered right same] at start
    omega
  · intro before
    rw [← lineIndex_lineStart right] at before
    exact lt_of_lineIndex_lt before

theorem le_lineEnd_self (within : i ≤ t.size) : i ≤ t.lineEnd i :=
  t.le_seek _ i within

theorem lineEnd_le_size (t : Text) (i : Nat) : t.lineEnd i ≤ t.size :=
  t.seek_le_size _ i

theorem lineIndex_lineEnd (within : i ≤ t.size) : t.lineIndex (t.lineEnd i) = t.lineIndex i :=
  lineIndex_plain (le_lineEnd_self within) (t.lineEnd_le_size i) fun _ lower upper =>
    seek_before lower upper

theorem lineEnd_eq (ordered : i ≤ j) (within : j ≤ t.size)
    (same : t.lineIndex i = t.lineIndex j) : t.lineEnd i = t.lineEnd j := by
  refine seek_eq (Nat.le_trans ordered (le_lineEnd_self within)) (fun k lower upper => ?_) ?_
  · rcases Nat.lt_or_ge k j with before | after
    · exact plain_of_lineIndex_eq same lower before
    · exact seek_before after upper
  · rcases Nat.eq_or_lt_of_le (t.lineEnd_le_size j) with last | inside
    · exact Or.inr last
    · exact Or.inl (seek_found inside)

theorem lineEnd_congr (left : i ≤ t.size) (right : j ≤ t.size)
    (same : t.lineIndex i = t.lineIndex j) : t.lineEnd i = t.lineEnd j := by
  rcases Nat.le_total i j with ordered | ordered
  · exact lineEnd_eq ordered right same
  · exact (lineEnd_eq ordered left same.symm).symm

theorem lineStart_le_firstNonBlank (t : Text) (i : Nat) : t.lineStart i ≤ t.firstNonBlank i :=
  t.le_seek _ _ (t.lineStart_le_size i)

theorem firstNonBlank_le_size (t : Text) (i : Nat) : t.firstNonBlank i ≤ t.size :=
  t.seek_le_size _ _

theorem firstNonBlank_indent (lower : t.lineStart i ≤ k) (upper : k < t.firstNonBlank i) :
    t.byteIs k Byte.isIndent = true := by
  have inside := Nat.lt_of_lt_of_le upper (t.firstNonBlank_le_size i)
  have fails := seek_before lower upper
  rwa [byteIs_not inside, Bool.not_eq_false'] at fails

theorem firstNonBlank_visible (inside : t.firstNonBlank i < t.size) :
    t.byteIs (t.firstNonBlank i) Byte.isIndent = false :=
  (byteIs_not_iff.mp (seek_found inside)).2

theorem lineIndex_firstNonBlank (within : i ≤ t.size) :
    t.lineIndex (t.firstNonBlank i) = t.lineIndex i := by
  rw [lineIndex_plain (t.lineStart_le_firstNonBlank i) (t.firstNonBlank_le_size i),
    lineIndex_lineStart within]
  intro k lower upper
  exact byteIs_apart (firstNonBlank_indent lower upper) Byte.isNewline_of_isIndent

theorem firstNonBlank_congr (left : i ≤ t.size) (right : j ≤ t.size)
    (same : t.lineIndex i = t.lineIndex j) : t.firstNonBlank i = t.firstNonBlank j := by
  rw [firstNonBlank, firstNonBlank, lineStart_congr left right same]

theorem firstNonBlank_le_lineEnd (within : i ≤ t.size) : t.firstNonBlank i ≤ t.lineEnd i := by
  rw [← lineEnd_congr (t.firstNonBlank_le_size i) within (lineIndex_firstNonBlank within)]
  exact le_lineEnd_self (t.firstNonBlank_le_size i)

/-- From its start to its end a line has one number. -/
theorem lineIndex_within (within : i ≤ t.size) (lower : t.lineStart i ≤ k)
    (upper : k ≤ t.lineEnd i) : t.lineIndex k = t.lineIndex i := by
  apply Nat.le_antisymm
  · rw [← lineIndex_lineEnd within]
    exact t.lineIndex_mono upper
  · rw [← lineIndex_lineStart within]
    exact t.lineIndex_mono lower

/-- A byte that is no indentation does not stand before the first such byte of its line. -/
theorem firstNonBlank_le (inside : i < t.size) (visible : t.byteIs i Byte.isIndent = false) :
    t.firstNonBlank i ≤ i := by
  apply Nat.le_of_not_lt
  intro before
  rw [firstNonBlank_indent (lineStart_le (Nat.le_of_lt inside)) before] at visible
  cases visible

theorem lineCount_eq (t : Text) : t.lineCount = t.lineIndex t.size + 1 := by
  rw [lineCount_eq_countBefore, lineIndex_eq (Nat.le_refl _)]

theorem lineEnd_size (t : Text) : t.lineEnd t.size = t.size := by
  rw [lineEnd, seek, if_neg (Nat.lt_irrefl _)]

theorem lineEnd_eq_size_iff (within : i ≤ t.size) :
    t.lineEnd i = t.size ↔ t.lineIndex i + 1 = t.lineCount := by
  rw [lineCount_eq]
  constructor
  · intro ends
    rw [← lineIndex_lineEnd within, ends]
  · intro same
    rw [lineEnd_congr within (Nat.le_refl _) (by omega), lineEnd_size]

/-- The line after the one of `i`. -/
theorem lineStart_next (more : t.lineEnd i < t.size) :
    t.lineStart (t.lineEnd i + 1) = t.lineEnd i + 1 :=
  lineStart_eq_self more (Or.inr (seek_found more))

theorem lineIndex_next (within : i ≤ t.size) (more : t.lineEnd i < t.size) :
    t.lineIndex (t.lineEnd i + 1) = t.lineIndex i + 1 := by
  rw [← lineIndex_lineEnd within]
  exact lineIndex_newline (seek_found more)

theorem byte?_newline (newline : t.byteIs i Byte.isNewline = true) :
    t.byte? i = some Byte.newline := by
  obtain ⟨b, found, same⟩ := byteIs_iff.mp newline
  rw [found, eq_of_beq same]

theorem lineIndex_lt_lineCount (within : i ≤ t.size) : t.lineIndex i < t.lineCount := by
  rw [lineCount_eq]
  exact Nat.lt_succ_of_le (t.lineIndex_mono within)

theorem exists_lineIndex {line : Nat} (bound : line < t.lineCount) :
    ∃ i ≤ t.size, t.lineIndex i = line := by
  induction line with
  | zero => exact ⟨0, Nat.zero_le _, t.lineIndex_zero⟩
  | succ line ih =>
    obtain ⟨i, within, same⟩ := ih (by omega)
    have more : t.lineEnd i < t.size :=
      Nat.lt_of_le_of_ne (t.lineEnd_le_size i) fun last => by
        have := (lineEnd_eq_size_iff within).mp last
        omega
    exact ⟨t.lineEnd i + 1, more, by rw [lineIndex_next within more, same]⟩

/-- The first character behind the indentation of a line is not part of a longer one. -/
theorem Joined.firstNonBlank (joined : t.Joined) (i : Nat) :
    t.isBoundary (t.firstNonBlank i) = true := by
  refine joined.boundary (t.firstNonBlank_le_size i) fun k next => ?_
  have first := t.lineStart_le_firstNonBlank i
  rcases Nat.lt_or_ge k (t.lineStart i) with before | after
  · obtain newline := (t.lineStart_begins i).resolve_left (by omega)
    rw [show t.lineStart i - 1 = k by omega] at newline
    exact byteIs_apart newline fun b same => by rw [eq_of_beq same]; decide
  · refine byteIs_apart (firstNonBlank_indent after (by omega)) fun b indent => ?_
    rcases Bool.or_eq_true_iff.mp indent with same | same <;> rw [eq_of_beq same] <;> decide

/-- No newline stands inside a character. -/
theorem Joined.lineIndex_floor (joined : t.Joined) (within : i ≤ t.size) :
    t.lineIndex (t.floor i) = t.lineIndex i := by
  refine (lineIndex_plain (t.floor_le i) within fun k lower upper => ?_).symm
  have inside : i < t.size := by
    refine Nat.lt_of_le_of_ne within fun last => ?_
    rw [floor, if_pos (Nat.le_of_eq last.symm)] at lower
    omega
  have inner : t.isBoundary (k + 1) = false := by
    rw [floor, if_neg (Nat.not_le.mpr inside)] at lower
    exact floor_back_skipped (Nat.lt_succ_of_le lower) upper
  obtain ⟨b, found⟩ := exists_byte (show k + 1 < t.size by omega)
  have continues : Byte.isContinuation b = true := by
    rw [isBoundary, byteIs_of_byte? found, Bool.or_eq_false_iff, Bool.not_eq_false'] at inner
    exact inner.2
  obtain ⟨j, c, next, before, large⟩ :=
    joined (k + 1) b (by rw [← byte?_eq_getElem?, found]) continues
  obtain rfl := Nat.succ.inj next
  rw [byteIs_of_byte? (by rw [byte?_eq_getElem?, before])]
  cases newline : Byte.isNewline c with
  | false => rfl
  | true =>
    rw [eq_of_beq newline] at large
    exact absurd large (by decide)

theorem lineStart_lineStart (within : i ≤ t.size) :
    t.lineStart (t.lineStart i) = t.lineStart i :=
  lineStart_congr (t.lineStart_le_size i) within (lineIndex_lineStart within)

theorem firstNonBlank_lineStart (within : i ≤ t.size) :
    t.firstNonBlank (t.lineStart i) = t.firstNonBlank i :=
  firstNonBlank_congr (t.lineStart_le_size i) within (lineIndex_lineStart within)

theorem lineStart_firstNonBlank (within : i ≤ t.size) :
    t.lineStart (t.firstNonBlank i) = t.lineStart i :=
  lineStart_congr (t.firstNonBlank_le_size i) within (lineIndex_firstNonBlank within)

/-- The lines of the text in order, without their newlines. -/
def lines (t : Text) : List (List UInt8) :=
  t.toList.splitOnP Byte.isNewline

theorem length_splitOnP_newline (bytes : List UInt8) :
    (bytes.splitOnP Byte.isNewline).length = bytes.countP Byte.isNewline + 1 := by
  induction bytes with
  | nil => simp
  | cons b rest ih =>
    rw [List.splitOnP_cons_eq_if_modifyHead]
    cases newline : Byte.isNewline b <;> simp [newline, ih]

theorem length_lines (t : Text) : t.lines.length = t.lineCount := by
  rw [lines, length_splitOnP_newline, lineCount_eq_countBefore, countBefore,
    List.take_of_length_le (by simp)]

/-- The line of `i`. -/
def line (t : Text) (i : Nat) : List UInt8 :=
  (t.slice (t.lineStart i) (t.lineEnd i)).toList

/-- Where the lines from the one that starts at `start` on start. -/
def startsFrom (t : Text) (start : Nat) : List Nat :=
  if more : t.lineEnd start < t.size then
    have := le_lineEnd more
    start :: t.startsFrom (t.lineEnd start + 1)
  else [start]
termination_by t.size - start

theorem startsFrom_more (more : t.lineEnd i < t.size) :
    t.startsFrom i = i :: t.startsFrom (t.lineEnd i + 1) := by
  rw [startsFrom, dif_pos more]

theorem startsFrom_last (last : ¬ t.lineEnd i < t.size) : t.startsFrom i = [i] := by
  rw [startsFrom, dif_neg last]

/-- They start where a line does, from `start` on. -/
theorem mem_startsFrom (begins : t.lineStart i = i) (within : i ≤ t.size) :
    ∀ k ∈ t.startsFrom i, i ≤ k ∧ k ≤ t.size ∧ t.lineStart k = k := by
  fun_induction startsFrom t i with
  | case1 i more ordered ih =>
    intro k listed
    rcases List.mem_cons.mp listed with rfl | later
    · exact ⟨Nat.le_refl _, within, begins⟩
    · obtain ⟨lower, rest⟩ := ih (lineStart_next more) more k later
      exact ⟨by omega, rest⟩
  | case2 i last =>
    intro k listed
    rw [List.mem_singleton.mp listed]
    exact ⟨Nat.le_refl _, within, begins⟩

theorem startsFrom_ordered (begins : t.lineStart i = i) (within : i ≤ t.size) :
    (t.startsFrom i).Pairwise (· < ·) := by
  fun_induction startsFrom t i with
  | case1 i more ordered ih =>
    refine List.pairwise_cons.mpr ⟨fun k listed => ?_, ih (lineStart_next more) more⟩
    have := (mem_startsFrom (lineStart_next more) more k listed).1
    omega
  | case2 i last => exact List.pairwise_singleton _ _

/-- The lines are counted from the first one on. -/
theorem startsFrom_lineIndex (begins : t.lineStart i = i) (ordered : i ≤ j) (within : j ≤ t.size) :
    (t.startsFrom i)[t.lineIndex j - t.lineIndex i]? = some (t.lineStart j) := by
  fun_induction startsFrom t i with
  | case1 i more longer ih =>
    have here := Nat.le_trans ordered within
    rcases Nat.lt_or_ge (t.lineEnd i) j with later | same
    · have next := lineIndex_next here more
      have below := t.lineIndex_mono (Nat.succ_le_of_lt later)
      rw [Nat.succ_eq_add_one] at below
      rw [show t.lineIndex j - t.lineIndex i = t.lineIndex j - t.lineIndex (t.lineEnd i + 1) + 1 by
        omega, List.getElem?_cons_succ]
      exact ih (lineStart_next more) later
    · have number := lineIndex_within here (by omega) same
      rw [number, Nat.sub_self, List.getElem?_cons_zero,
        lineStart_congr within here number, begins]
  | case2 i last =>
    have here := Nat.le_trans ordered within
    have number := lineIndex_within (k := j) here (by omega) (by omega)
    rw [number, Nat.sub_self, List.getElem?_cons_zero, lineStart_congr within here number, begins]

theorem startsFrom_suffix (begins : t.lineStart i = i) (ordered : i ≤ j) (within : j ≤ t.size)
    (starts : t.lineStart j = j) : t.startsFrom j <:+ t.startsFrom i := by
  fun_induction startsFrom t i with
  | case1 i more longer ih =>
    rcases Nat.lt_or_ge (t.lineEnd i) j with later | same
    · exact (ih (lineStart_next more) later).trans (List.suffix_cons _ _)
    · have here := Nat.le_trans ordered within
      have number := lineIndex_within here (by omega) same
      obtain rfl : j = i := by rw [← starts, ← begins, lineStart_congr within here number]
      rewrite [startsFrom_more more]
      exact List.suffix_rfl
  | case2 i last =>
    have here := Nat.le_trans ordered within
    have number := lineIndex_within (k := j) here (by omega) (by omega)
    obtain rfl : j = i := by rw [← starts, ← begins, lineStart_congr within here number]
    rewrite [startsFrom_last last]
    exact List.suffix_rfl

theorem startsFrom_eq (within : i ≤ t.size) :
    t.startsFrom i = i :: t.behindNewlines i (t.size - i) := by
  fun_induction startsFrom t i with
  | case1 i more ends ih =>
    have newline : t.byteIs (t.lineEnd i) Byte.isNewline = true := seek_found more
    have lengths : t.size - i = (t.lineEnd i - i) + (t.size - (t.lineEnd i + 1) + 1) := by omega
    rw [ih more, lengths, ← behindNewlines_append, Nat.add_sub_cancel' ends,
      behindNewlines_plain fun k lower upper => seek_before lower (show k < t.lineEnd i by omega),
      behindNewlines_succ, if_pos newline, List.nil_append, List.singleton_append]
  | case2 i last =>
    rw [behindNewlines_plain fun k lower upper =>
      seek_before lower (show k < t.lineEnd i by omega)]

theorem lineStarts_eq (t : Text) : t.lineStarts = t.startsFrom 0 := by
  rw [startsFrom_eq (Nat.zero_le _), lineStarts, toList_starts (Nat.zero_le _)]
  rfl

theorem startOfLine?_eq (t : Text) (line : Nat) :
    t.startOfLine? line = (t.startsFrom 0)[line]? := by
  rw [← lineStarts_eq, lineStarts, Array.getElem?_toList]
  rfl

/-- A line is found under its number. -/
theorem startOfLine?_lineIndex (within : i ≤ t.size) :
    t.startOfLine? (t.lineIndex i) = some (t.lineStart i) := by
  have start := startsFrom_lineIndex t.lineStart_zero (Nat.zero_le _) within
  rwa [lineIndex_zero, Nat.sub_zero, ← startOfLine?_eq] at start

/-- Bytes without a newline are the first line together with what follows them on that line. -/
theorem splitOnP_newline (front : List UInt8) (plain : ∀ b ∈ front, Byte.isNewline b = false)
    (rest : List UInt8) :
    (front ++ Byte.newline :: rest).splitOnP Byte.isNewline =
      front :: rest.splitOnP Byte.isNewline :=
  List.splitOnP_append_cons_of_forall_mem plain _ rfl _

theorem slice_plain (t : Text) (lower : t.lineStart i ≤ k) :
    ∀ b ∈ (t.slice k (t.lineEnd i)).toList, Byte.isNewline b = false := by
  intro b listed
  obtain ⟨m, above, upper, found⟩ := mem_slice.mp listed
  rw [← byteIs_of_byte? found Byte.isNewline]
  rcases Nat.lt_or_ge m i with before | after
  · exact lineStart_plain (by omega) before
  · exact seek_before after upper

theorem drop_lineEnd (within : k ≤ t.lineEnd i) :
    t.toList.drop k = (t.slice k (t.lineEnd i)).toList ++ t.toList.drop (t.lineEnd i) := by
  rw [toList_slice]
  nth_rewrite 1 [← List.take_append_drop (t.lineEnd i) t.toList]
  have bound := t.lineEnd_le_size i
  rw [List.drop_append_of_le_length (by rw [List.length_take, length_toList]; omega)]

theorem drop_newline (more : t.lineEnd i < t.size) :
    t.toList.drop (t.lineEnd i) = Byte.newline :: t.toList.drop (t.lineEnd i + 1) := by
  have found := byte?_newline (seek_found more)
  rw [byte?_eq_getElem?] at found
  obtain ⟨bound, same⟩ := List.getElem?_eq_some_iff.mp found
  rw [lineEnd, List.drop_eq_getElem_cons bound, same]

theorem splitOnP_drop (begins : t.lineStart i = i) (within : i ≤ t.size) :
    (t.toList.drop i).splitOnP Byte.isNewline = (t.startsFrom i).map t.line := by
  fun_induction startsFrom t i with
  | case1 i more ordered ih =>
    rw [drop_lineEnd ordered, drop_newline more, splitOnP_newline _ (slice_plain t (by omega)),
      ih (lineStart_next more) more, List.map_cons, line, begins]
  | case2 i last =>
    have ends : t.lineEnd i = t.size := by
      have := t.lineEnd_le_size i
      omega
    rw [drop_lineEnd (le_lineEnd_self within), List.drop_of_length_le (by simp [ends]),
      List.append_nil, List.splitOnP_eq_singleton (slice_plain t (by omega)), List.map_singleton,
      line, begins]

theorem lines_eq (t : Text) : t.lines = (t.startsFrom 0).map t.line :=
  splitOnP_drop t.lineStart_zero (Nat.zero_le _)

theorem startOfLine?_eq_none_iff {line : Nat} :
    t.startOfLine? line = none ↔ t.lineCount ≤ line := by
  rw [startOfLine?_eq, List.getElem?_eq_none_iff, ← length_lines, lines_eq, List.length_map]

/-- The end of a line is found under its number: before the start of the next one, or where the
text ends. -/
theorem endOfLine?_lineIndex (within : i ≤ t.size) :
    t.endOfLine? (t.lineIndex i) = some (t.lineEnd i) := by
  have counted : ¬ t.lineMap.starts.size ≤ t.lineIndex i :=
    Nat.not_le.mpr (lineIndex_lt_lineCount within)
  rcases Nat.lt_or_ge (t.lineEnd i) t.size with more | last
  · have next : t.lineMap.starts[t.lineIndex i + 1]? = some (t.lineEnd i + 1) := by
      rw [← lineIndex_next within more]
      exact (startOfLine?_lineIndex more).trans (congrArg some (lineStart_next more))
    simp only [endOfLine?, LineMap.stop?, counted, if_false, next, Nat.add_sub_cancel]
  · have ends := Nat.le_antisymm (t.lineEnd_le_size i) last
    have next : t.lineMap.starts[t.lineIndex i + 1]? = none :=
      startOfLine?_eq_none_iff.mpr (Nat.le_of_eq ((lineEnd_eq_size_iff within).mp ends).symm)
    simp only [endOfLine?, LineMap.stop?, counted, if_false, next, ends]
    rfl

/-- The list of lines holds each line under its number. -/
theorem lines_lineIndex (within : i ≤ t.size) : t.lines[t.lineIndex i]? = some (t.line i) := by
  have start := startsFrom_lineIndex t.lineStart_zero (Nat.zero_le _) within
  rw [lineIndex_zero, Nat.sub_zero] at start
  rw [lines_eq, List.getElem?_map, start, Option.map_some, line, lineStart_lineStart within,
    lineEnd_congr (t.lineStart_le_size i) within (lineIndex_lineStart within), line]

end Text
end SasLayout
