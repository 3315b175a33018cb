import Mathlib.Data.List.Basic
import SasLayout.Text.Line

set_option autoImplicit false

/-!
Single bytes of a text, the searches for one, and the character boundaries of a text that encodes
a string.
-/
namespace SasLayout

namespace Byte

/-- Whether `p` holds of all bytes that have `n` before their last `bits` bits. -/
def holdsUnder (p : UInt8 → Bool) : (bits n : Nat) → Bool
  | 0, n => p (UInt8.ofNat n)
  | bits + 1, n => holdsUnder p bits (2 * n) && holdsUnder p bits (2 * n + 1)

theorem of_holdsUnder {p : UInt8 → Bool} {bits n k : Nat} (holds : holdsUnder p bits n = true)
    (before : k >>> bits = n) : p (UInt8.ofNat k) = true := by
  induction bits generalizing n with
  | zero =>
    obtain rfl : k = n := before
    exact holds
  | succ bits ih =>
    rw [holdsUnder, Bool.and_eq_true] at holds
    rw [Nat.shiftRight_succ] at before
    obtain even | odd : k >>> bits = 2 * n ∨ k >>> bits = 2 * n + 1 := by omega
    · exact ih holds.1 even
    · exact ih holds.2 odd

/-- A statement about every byte is settled by the 256 of them. They are gone through by halves,
which keeps the evaluation flat. -/
theorem forall_of_halves {p : UInt8 → Prop} [DecidablePred p]
    (each : holdsUnder (fun b => decide (p b)) 8 0 = true) (b : UInt8) : p b := by
  have bound := b.toNat_lt
  have held := of_holdsUnder each (show b.toNat >>> 8 = 0 by omega)
  rw [UInt8.ofNat_toNat] at held
  exact of_decide_eq_true held

theorem isBlank_of_isIndent (b : UInt8) : isIndent b = true → isBlank b = true :=
  forall_of_halves (p := fun b => isIndent b = true → isBlank b = true) (by decide) b

theorem isBlank_of_isNewline (b : UInt8) : isNewline b = true → isBlank b = true :=
  forall_of_halves (p := fun b => isNewline b = true → isBlank b = true) (by decide) b

theorem isSemicolon_of_isBlank (b : UInt8) : isBlank b = true → isSemicolon b = false :=
  forall_of_halves (p := fun b => isBlank b = true → isSemicolon b = false) (by decide) b

end Byte

namespace Text

theorem byte?_eq_getElem? (t : Text) (i : Nat) : t.byte? i = t.toList[i]? := by
  unfold byte? toList
  split
  · rename_i inside
    rw [List.getElem?_eq_getElem (by simpa using inside), Array.getElem_toList]
    rfl
  · rename_i outside
    rw [List.getElem?_eq_none (by simpa using outside)]

theorem byteIs_eq_any (t : Text) (i : Nat) (p : UInt8 → Bool) :
    t.byteIs i p = (t.byte? i).any p := by
  unfold byteIs byte?
  split <;> rfl

theorem byteIs_iff {t : Text} {i : Nat} {p : UInt8 → Bool} :
    t.byteIs i p = true ↔ ∃ b, t.byte? i = some b ∧ p b = true := by
  rw [byteIs_eq_any, Option.any_eq_true]

theorem byte?_eq_none_iff {t : Text} {i : Nat} : t.byte? i = none ↔ t.size ≤ i := by
  unfold byte? size
  split <;> simp_all

theorem exists_byte {t : Text} {i : Nat} (inside : i < t.size) : ∃ b, t.byte? i = some b := by
  cases found : t.byte? i with
  | none =>
    have := byte?_eq_none_iff.mp found
    omega
  | some b => exact ⟨b, rfl⟩

theorem lt_size_of_byte? {t : Text} {i : Nat} {b : UInt8} (found : t.byte? i = some b) :
    i < t.size := by
  apply Nat.lt_of_not_le
  intro outside
  rw [byte?_eq_none_iff.mpr outside] at found
  cases found

theorem byteIs_of_byte? {t : Text} {i : Nat} {b : UInt8} (found : t.byte? i = some b)
    (p : UInt8 → Bool) : t.byteIs i p = p b := by
  rw [byteIs_eq_any, found, Option.any_some]

theorem byteIs_past {t : Text} {i : Nat} (outside : t.size ≤ i) (p : UInt8 → Bool) :
    t.byteIs i p = false := by
  rw [byteIs_eq_any, byte?_eq_none_iff.mpr outside, Option.any_none]

theorem byteIs_mono {t : Text} {i : Nat} {p q : UInt8 → Bool} (holds : t.byteIs i p = true)
    (implies : ∀ b, p b = true → q b = true) : t.byteIs i q = true := by
  obtain ⟨b, found, held⟩ := byteIs_iff.mp holds
  exact byteIs_iff.mpr ⟨b, found, implies b held⟩

theorem byteIs_anti {t : Text} {i : Nat} {p q : UInt8 → Bool} (fails : t.byteIs i q = false)
    (implies : ∀ b, p b = true → q b = true) : t.byteIs i p = false := by
  cases holds : t.byteIs i p with
  | false => rfl
  | true =>
    rw [byteIs_mono holds implies] at fails
    cases fails

/-- Two classes without a common byte do not meet at one offset. -/
theorem byteIs_apart {t : Text} {i : Nat} {p q : UInt8 → Bool} (holds : t.byteIs i p = true)
    (apart : ∀ b, p b = true → q b = false) : t.byteIs i q = false := by
  obtain ⟨b, found, held⟩ := byteIs_iff.mp holds
  rw [byteIs_of_byte? found, apart b held]

theorem byteIs_not {t : Text} {i : Nat} (inside : i < t.size) (p : UInt8 → Bool) :
    t.byteIs i (!p ·) = !t.byteIs i p := by
  obtain ⟨b, found⟩ := exists_byte inside
  rw [byteIs_of_byte? found, byteIs_of_byte? found]

theorem byteIs_not_iff {t : Text} {i : Nat} {p : UInt8 → Bool} :
    t.byteIs i (!p ·) = true ↔ i < t.size ∧ t.byteIs i p = false := by
  constructor
  · intro holds
    have inside := lt_size_of_byteIs holds
    rw [byteIs_not inside] at holds
    exact ⟨inside, by simpa using holds⟩
  · rintro ⟨inside, fails⟩
    rw [byteIs_not inside, fails, Bool.not_false]

theorem seek_before {t : Text} {p : UInt8 → Bool} {i j : Nat} (lower : i ≤ j)
    (upper : j < t.seek p i) : t.byteIs j p = false := by
  fun_induction seek t p i with
  | case1 i _ _ => omega
  | case2 i _ fails ih =>
    rcases Nat.eq_or_lt_of_le lower with rfl | later
    · simpa using fails
    · exact ih later upper
  | case3 i outside => exact byteIs_past (by omega) p

theorem seek_le_of_found {t : Text} {p : UInt8 → Bool} {i k : Nat} (ordered : i ≤ k)
    (found : t.byteIs k p = true) : t.seek p i ≤ k := by
  apply Nat.le_of_not_lt
  intro beyond
  rw [seek_before ordered beyond] at found
  cases found

theorem seek_found {t : Text} {p : UInt8 → Bool} {i : Nat} (inside : t.seek p i < t.size) :
    t.byteIs (t.seek p i) p = true := by
  fun_induction seek t p i with
  | case1 i _ holds => exact holds
  | case2 i _ _ ih => exact ih inside
  | case3 i _ => omega

/-- A search ends at the first offset that satisfies `p`. -/
theorem seek_eq {t : Text} {p : UInt8 → Bool} {i j : Nat} (lower : i ≤ j)
    (before : ∀ k, i ≤ k → k < j → t.byteIs k p = false)
    (found : t.byteIs j p = true ∨ j = t.size) : t.seek p i = j := by
  have within : j ≤ t.size := by
    rcases found with holds | rfl
    · exact Nat.le_of_lt (lt_size_of_byteIs holds)
    · exact Nat.le_refl _
  have reached := t.le_seek p i (by omega)
  rcases Nat.lt_trichotomy (t.seek p i) j with short | same | long
  · have holds := seek_found (t := t) (p := p) (i := i) (by omega)
    rw [before _ reached short] at holds
    cases holds
  · exact same
  · have fails := seek_before lower long
    have bound := t.seek_le_size p i
    rcases found with holds | rfl
    · rw [fails] at holds
      cases holds
    · omega

theorem seek_eq_self {t : Text} {p : UInt8 → Bool} {i : Nat} (within : i ≤ t.size)
    (ends : t.byteIs i (!p ·) = false) : t.seek p i = i := by
  refine seek_eq (Nat.le_refl i) (by omega) ?_
  rcases Nat.eq_or_lt_of_le within with last | inside
  · exact Or.inr last
  · rw [byteIs_not inside, Bool.not_eq_false'] at ends
    exact Or.inl ends

theorem seekBack_found {t : Text} {p : UInt8 → Bool} {i k : Nat}
    (found : t.seekBack p i = k + 1) : t.byteIs k p = true := by
  fun_induction seekBack t p i with
  | case1 => omega
  | case2 i holds =>
    cases found
    exact holds
  | case3 i _ ih => exact ih found

theorem seekBack_after {t : Text} {p : UInt8 → Bool} {i j : Nat} (lower : t.seekBack p i ≤ j)
    (upper : j < i) : t.byteIs j p = false := by
  fun_induction seekBack t p i with
  | case1 => omega
  | case2 i _ => omega
  | case3 i fails ih =>
    rcases Nat.eq_or_lt_of_le (Nat.le_of_lt_succ upper) with rfl | earlier
    · simpa using fails
    · exact ih lower earlier

@[simp] theorem length_toList (t : Text) : t.toList.length = t.size := by
  rw [toList, Array.length_toList]
  rfl

theorem toList_slice (t : Text) (start stop : Nat) :
    (t.slice start stop).toList = (t.toList.take stop).drop start := by
  simp [slice, toList, List.extract_eq_take_drop, List.drop_take]

theorem toList_slice_self (t : Text) (i : Nat) : (t.slice i i).toList = [] := by
  rw [toList_slice, List.drop_of_length_le (List.length_take_le _ _)]

theorem toList_append (t u : Text) : (t.append u).toList = t.toList ++ u.toList := by
  simp [append, toList]

theorem mem_slice {t : Text} {start stop : Nat} {b : UInt8} :
    b ∈ (t.slice start stop).toList ↔ ∃ k, start ≤ k ∧ k < stop ∧ t.byte? k = some b := by
  rw [toList_slice, List.mem_iff_getElem?]
  simp only [List.getElem?_drop, List.getElem?_take, ← byte?_eq_getElem?]
  constructor
  · rintro ⟨k, found⟩
    split at found
    · exact ⟨start + k, Nat.le_add_right _ _, by omega, found⟩
    · cases found
  · rintro ⟨k, lower, upper, found⟩
    exact ⟨k - start, by rw [Nat.add_sub_cancel' lower, if_pos upper, found]⟩

theorem toList_slice_cons {t : Text} {start stop : Nat} {b : UInt8} (found : t.byte? start = some b)
    (inside : start < stop) :
    (t.slice start stop).toList = b :: (t.slice (start + 1) stop).toList := by
  have bound : start < (t.toList.take stop).length := by
    rw [List.length_take, length_toList]
    exact Nat.lt_min.mpr ⟨inside, lt_size_of_byte? found⟩
  rw [byte?_eq_getElem?] at found
  rw [toList_slice, toList_slice, List.drop_eq_getElem_cons bound, List.getElem_take]
  rw [List.getElem?_eq_some_iff] at found
  rw [found.2]

theorem toList_slice_take {t : Text} {start middle stop : Nat} (upper : middle ≤ stop) :
    (t.slice start middle).toList = (t.slice start stop).toList.take (middle - start) := by
  rw [toList_slice, toList_slice, ← List.drop_take, List.take_take, Nat.min_eq_left upper]

theorem toList_slice_append {t : Text} {start middle stop : Nat} (lower : start ≤ middle)
    (upper : middle ≤ stop) :
    (t.slice start stop).toList = (t.slice start middle).toList ++ (t.slice middle stop).toList := by
  have back : (t.slice middle stop).toList = (t.slice start stop).toList.drop (middle - start) := by
    rw [toList_slice, toList_slice, List.drop_drop, Nat.add_sub_cancel' lower]
  rw [toList_slice_take upper, back, List.take_append_drop]

theorem length_slice {t : Text} {start stop : Nat} (within : stop ≤ t.size) :
    (t.slice start stop).toList.length = stop - start := by
  rw [toList_slice, List.length_drop, List.length_take, length_toList, Nat.min_eq_left within]

theorem getElem?_slice {t : Text} {start stop k : Nat} (inside : start + k < stop) :
    (t.slice start stop).toList[k]? = t.byte? (start + k) := by
  rw [toList_slice, List.getElem?_drop, List.getElem?_take_of_lt inside, byte?_eq_getElem?]

theorem byteIs_slice_first {t : Text} {start stop : Nat} (inside : start < stop)
    (p : UInt8 → Bool) : (t.slice start stop).byteIs 0 p = t.byteIs start p := by
  rw [byteIs_eq_any, byteIs_eq_any, byte?_eq_getElem?, byte?_eq_getElem?, toList_slice,
    List.getElem?_drop, List.getElem?_take, Nat.add_zero, if_pos inside]

theorem ext_toList {t u : Text} (same : t.toList = u.toList) : t = u := by
  obtain ⟨⟨a⟩⟩ := t
  obtain ⟨⟨b⟩⟩ := u
  exact congrArg (fun data => (⟨⟨data⟩⟩ : Text)) (Array.toList_inj.mp same)

theorem lineStart_le_size (t : Text) (offset : Nat) : t.lineStart offset ≤ t.size :=
  Nat.le_trans (t.seekBack_le _ _) (Nat.min_le_right _ _)

theorem lineStart_begins (t : Text) (offset : Nat) :
    t.lineStart offset = 0 ∨ t.byteIs (t.lineStart offset - 1) Byte.isNewline = true := by
  cases found : t.lineStart offset with
  | zero => exact Or.inl rfl
  | succ k => exact Or.inr (seekBack_found found)

theorem lineStart_eq_self {t : Text} {start : Nat} (within : start ≤ t.size)
    (begins : start = 0 ∨ t.byteIs (start - 1) Byte.isNewline = true) :
    t.lineStart start = start := by
  rw [lineStart, Nat.min_eq_left within]
  cases start with
  | zero => rfl
  | succ k =>
    have newline := begins.resolve_left (Nat.succ_ne_zero k)
    rw [Nat.add_sub_cancel] at newline
    rw [seekBack, if_pos newline]

/-- Each byte that continues a character follows a byte of that character. -/
def JoinedBytes (bytes : List UInt8) : Prop :=
  ∀ (i : Nat) (b : UInt8), bytes[i]? = some b → Byte.isContinuation b = true →
    ∃ j c, i = j + 1 ∧ bytes[j]? = some c ∧ 128 ≤ c

theorem JoinedBytes.append {front back : List UInt8} (first : JoinedBytes front)
    (second : JoinedBytes back) : JoinedBytes (front ++ back) := by
  intro i b found continues
  by_cases inside : i < front.length
  · rw [List.getElem?_append_left inside] at found
    obtain ⟨j, c, rfl, before, large⟩ := first i b found continues
    exact ⟨j, c, rfl, by rw [List.getElem?_append_left (by omega), before], large⟩
  · rw [List.getElem?_append_right (by omega)] at found
    obtain ⟨j, c, next, before, large⟩ := second _ b found continues
    refine ⟨front.length + j, c, by omega, ?_, large⟩
    rw [List.getElem?_append_right (by omega), Nat.add_sub_cancel_left, before]

/-- The bytes of one character: the first does not continue one, and none but a lone first byte is
ASCII. -/
theorem joinedBytes_cons {first : UInt8} {rest : List UInt8}
    (starts : Byte.isContinuation first = false)
    (large : rest ≠ [] → ∀ b ∈ first :: rest, 128 ≤ b) : JoinedBytes (first :: rest) := by
  intro i b found continues
  cases i with
  | zero =>
    cases found
    rw [starts] at continues
    cases continues
  | succ j =>
    have inside : j + 1 < (first :: rest).length := (List.getElem?_eq_some_iff.mp found).1
    have more : rest ≠ [] := by
      rintro rfl
      simp at inside
    exact ⟨j, (first :: rest)[j], rfl, List.getElem?_eq_getElem (by omega),
      large more _ (List.getElem_mem _)⟩

theorem joinedBytes_utf8EncodeChar (c : Char) : JoinedBytes (String.utf8EncodeChar c) := by
  have first_of_range : ∀ n : Nat, (n % 256 < 128 ∨ 192 ≤ n % 256) →
      Byte.isContinuation (UInt8.ofNat n) = false := by
    intro n outside
    simp only [Byte.isContinuation, Bool.and_eq_false_iff, decide_eq_false_iff_not,
      UInt8.le_iff_toNat_le, UInt8.lt_iff_toNat_lt, UInt8.toNat_ofNat', UInt8.reduceToNat]
    omega
  fun_cases String.utf8EncodeChar c with
  | case1 v small =>
    exact joinedBytes_cons (first_of_range _ (by omega)) (fun more => absurd rfl more)
  | case2 | case3 | case4 =>
    refine joinedBytes_cons (first_of_range _ (by omega)) (fun _ => ?_)
    simp only [List.mem_cons, List.not_mem_nil, or_false, forall_eq_or_imp, forall_eq,
      UInt8.le_iff_toNat_le, UInt8.toNat_ofNat', UInt8.reduceToNat]
    omega

theorem joinedBytes_flatMap (chars : List Char) :
    JoinedBytes (chars.flatMap String.utf8EncodeChar) := by
  induction chars with
  | nil =>
    intro i b found
    cases found
  | cons c rest ih => exact (joinedBytes_utf8EncodeChar c).append ih

/-- The bytes of each character of the text stand together. -/
def Joined (t : Text) : Prop :=
  JoinedBytes t.toList

theorem exists_chars (s : String) :
    ∃ chars : List Char, (ofString s).toList = chars.flatMap String.utf8EncodeChar := by
  obtain ⟨chars, encoded⟩ := s.isValidUTF8
  refine ⟨chars, ?_⟩
  rw [ofString, toList, String.toUTF8_eq_toByteArray, encoded, List.utf8Encode,
    List.data_toByteArray]

theorem joined_ofString (s : String) : (ofString s).Joined := by
  obtain ⟨chars, view⟩ := exists_chars s
  rw [Joined, view]
  exact joinedBytes_flatMap chars

/-- A boundary lies where no byte of a longer character precedes. -/
theorem Joined.boundary {t : Text} (joined : t.Joined) {i : Nat} (within : i ≤ t.size)
    (ascii : ∀ j, i = j + 1 → t.byteIs j (128 ≤ ·) = false) : t.isBoundary i = true := by
  rcases Nat.eq_or_lt_of_le within with rfl | inside
  · simp [isBoundary]
  · obtain ⟨b, found⟩ := exists_byte inside
    have view := t.byte?_eq_getElem? i
    cases continues : Byte.isContinuation b with
    | false => simp [isBoundary, byteIs_of_byte? found, continues]
    | true =>
      obtain ⟨j, c, rfl, before, large⟩ := joined i b (by rw [← view, found]) continues
      have short := ascii j rfl
      rw [byteIs_of_byte? (by rw [byte?_eq_getElem?, before])] at short
      simp [large] at short

theorem le_size_of_boundary {t : Text} {i : Nat} (boundary : t.isBoundary i = true) :
    i ≤ t.size := by
  simp only [isBoundary, Bool.or_eq_true, beq_iff_eq] at boundary
  rcases boundary with (rfl | rfl) | here
  · exact Nat.zero_le _
  · exact Nat.le_refl _
  · exact Nat.le_of_lt (lt_size_of_byteIs here)

theorem floor_back_skipped {t : Text} {i k : Nat} (lower : floor.back t i < k) (upper : k ≤ i) :
    t.isBoundary k = false := by
  induction i with
  | zero => omega
  | succ i ih =>
    rw [floor.back] at lower
    split at lower
    · omega
    · rename_i inner
      rcases Nat.eq_or_lt_of_le upper with rfl | earlier
      · simpa using inner
      · exact ih lower (by omega)

/-- No boundary lies between an offset and the one found for it. -/
theorem le_floor {t : Text} {i j : Nat} (boundary : t.isBoundary j = true) (before : j ≤ i) :
    j ≤ t.floor i := by
  unfold floor
  split
  · exact le_size_of_boundary boundary
  · apply Nat.le_of_not_lt
    intro beyond
    rw [floor_back_skipped beyond before] at boundary
    cases boundary

theorem floor_eq_self {t : Text} {i : Nat} (boundary : t.isBoundary i = true) : t.floor i = i :=
  Nat.le_antisymm (t.floor_le i) (le_floor boundary (Nat.le_refl i))

end Text
end SasLayout
