import Mathlib.Order.Bounds.Defs
import SasLayout.Proofs.PlainSearch

set_option autoImplicit false

/-!
The last occurrence of a word before an offset. Where the occurrences of the word in the text do not
overlap, the search backward finds the one that starts last among those that end by its anchor: an
occurrence that a window cuts is found in a later window, unless one behind it is found first.
-/
namespace SasLayout

namespace Text

/-! ### Characters and their bytes -/

theorem utf8EncodeChar_lt (c : Char) : ∀ b ∈ String.utf8EncodeChar c, b < 248 := by
  fun_cases String.utf8EncodeChar c with
  | case1 | case2 | case3 | case4 =>
    simp only [List.mem_cons, List.not_mem_nil, or_false, forall_eq_or_imp, forall_eq,
      UInt8.lt_iff_toNat_lt, UInt8.toNat_ofNat', UInt8.reduceToNat]
    omega

/-- Of the bytes that occur in texts, those that do not continue a character start one. -/
theorem isUTF8FirstByte_iff (b : UInt8) :
    b < 248 → (b.IsUTF8FirstByte ↔ Byte.isContinuation b = false) :=
  Byte.forall_of_halves
    (p := fun b => b < 248 → (b.IsUTF8FirstByte ↔ Byte.isContinuation b = false)) (by decide) b

variable {s word : String} {i : Nat}

theorem size_ofString (s : String) : (ofString s).size = s.utf8ByteSize := rfl

theorem toList_ofString_append (a b : String) :
    (ofString (a ++ b)).toList = (ofString a).toList ++ (ofString b).toList :=
  toList_append (ofString a) (ofString b)

theorem byte_lt {b : UInt8} (here : (ofString s).byte? i = some b) : b < 248 := by
  obtain ⟨chars, view⟩ := exists_chars s
  rw [byte?_eq_getElem?, view] at here
  obtain ⟨c, -, member⟩ := List.mem_flatMap.mp (List.mem_of_getElem? here)
  exact utf8EncodeChar_lt c b member

/-- The character boundaries of a text are the offsets between characters of its string. -/
theorem isBoundary_ofString_iff :
    (ofString s).isBoundary i = true ↔ ∃ front back, s = front ++ back ∧ front.utf8ByteSize = i := by
  constructor
  · intro boundary
    simp only [isBoundary, Bool.or_eq_true, beq_iff_eq] at boundary
    rcases boundary with (rfl | rfl) | starts
    · exact ⟨"", s, by simp, rfl⟩
    · exact ⟨s, "", by simp, rfl⟩
    · obtain ⟨b, here, other⟩ := byteIs_iff.mp starts
      have inside := lt_size_of_byte? here
      have first := (isUTF8FirstByte_iff b (byte_lt here)).mpr (by simpa using other)
      rw [byte?, dif_pos (show i < (ofString s).bytes.size from inside), Option.some.injEq] at here
      have valid : String.Pos.Raw.IsValid s ⟨i⟩ := by
        refine String.Pos.Raw.isValid_iff_isUTF8FirstByte.mpr (Or.inr ⟨inside, ?_⟩)
        rw [← here] at first
        exact first
      obtain ⟨front, back, whole, same⟩ := String.Pos.Raw.isValid_iff_exists_append.mp valid
      exact ⟨front, back, whole, (congrArg String.Pos.Raw.byteIdx same).symm⟩
  · rintro ⟨front, back, rfl, rfl⟩
    cases first : (ofString back).byte? 0 with
    | none =>
      have empty := byte?_eq_none_iff.mp first
      rw [size_ofString] at empty
      have last : front.utf8ByteSize = (ofString (front ++ back)).size := by
        rw [size_ofString, String.utf8ByteSize_append]
        omega
      simp [isBoundary, last]
    | some b =>
      have here : (ofString (front ++ back)).byte? front.utf8ByteSize = some b := by
        rw [byte?_eq_getElem?] at first ⊢
        rw [toList_ofString_append, List.getElem?_append_right (by rw [length_toList]; rfl),
          length_toList, size_ofString, Nat.sub_self, first]
      have starts : Byte.isContinuation b = false := by
        cases continues : Byte.isContinuation b with
        | false => rfl
        | true =>
          rw [byte?_eq_getElem?] at first
          obtain ⟨j, c, impossible, -⟩ := joined_ofString back 0 b first continues
          omega
      simp [isBoundary, byteIs_of_byte? here, starts]

/-- What is left of the bytes of characters behind the first characters are those of the others. -/
theorem isValidUTF8_of_append {chars : List Char} {rest : ByteArray}
    (valid : (chars.utf8Encode ++ rest).IsValidUTF8) : rest.IsValidUTF8 := by
  induction chars with
  | nil => simpa using valid
  | cons c chars ih =>
    rw [← List.singleton_append, List.utf8Encode_append, ByteArray.append_assoc] at valid
    exact ih (ByteArray.isValidUTF8_utf8Encode_singleton_append_iff.mp valid)

/-! ### Occurrences -/

/-- The word stands at the offset `i` of the string. -/
def Occurs (s word : String) (i : Nat) : Prop :=
  ∃ front back, s = front ++ word ++ back ∧ front.utf8ByteSize = i

theorem occurs_iff :
    Occurs s word i ↔ (ofString s).isBoundary i = true ∧
      (ofString s).startsWith i (ofString word).toList = true := by
  have stands : ∀ t : Text, t.From i (t.toList.drop i) := fun t => rfl
  rw [(stands _).startsWith, isBoundary_ofString_iff, List.isPrefixOf_iff_prefix]
  constructor
  · rintro ⟨front, back, rfl, rfl⟩
    refine ⟨⟨front, word ++ back, String.append_assoc, rfl⟩, ?_⟩
    rw [toList_ofString_append, toList_ofString_append, List.append_assoc,
      List.drop_left' (by rw [length_toList]; rfl)]
    exact List.prefix_append _ _
  · rintro ⟨⟨front, tail, rfl, rfl⟩, rest, whole⟩
    rw [toList_ofString_append, List.drop_left' (by rw [length_toList]; rfl)] at whole
    have bytes : tail.toByteArray = word.toByteArray ++ ⟨⟨rest⟩⟩ := by
      have texts : ofString tail = (ofString word).append ⟨⟨⟨rest⟩⟩⟩ :=
        ext_toList (whole.symm.trans (toList_append (ofString word) ⟨⟨⟨rest⟩⟩⟩).symm)
      exact congrArg Text.bytes texts
    obtain ⟨chars, encoded⟩ := word.isValidUTF8
    have valid := tail.isValidUTF8
    rw [bytes, encoded] at valid
    refine ⟨front, .ofByteArray _ (isValidUTF8_of_append valid), ?_, rfl⟩
    rw [String.append_assoc]
    congr 1
    exact String.toByteArray_inj.mp bytes

/-- The matches of a word are its occurrences. -/
theorem matches_literal_iff {place : Extent} :
    (ofString s).Matches (literal (ofString word)) place ↔
      Occurs s word place.start ∧ place.stop = place.start + word.utf8ByteSize := by
  rw [occurs_iff]
  constructor
  · rintro ⟨starts, ordered, here⟩
    unfold literal at here
    split at here
    · rename_i stands
      rw [size_ofString, Option.some.injEq] at here
      exact ⟨⟨starts, stands⟩, by omega⟩
    · cases here
  · rintro ⟨⟨starts, stands⟩, stop⟩
    refine ⟨starts, by omega, ?_⟩
    rw [literal, if_pos stands, size_ofString, stop, Nat.add_sub_cancel_left]

/-! ### The last match -/

variable {t : Text} {pattern : Pattern} {limit : Nat}

/-- What a search for the last match that ends by `limit` is to find. -/
def IsLast (t : Text) (pattern : Pattern) (limit : Nat) : Option Extent → Prop
  | none => ∀ m, t.Matches pattern m → limit < m.stop
  | some place => t.Matches pattern place ∧ place.stop ≤ limit ∧
      ∀ m, t.Matches pattern m → m.stop ≤ limit → m.start ≤ place.start

theorem IsLast.unique {found other : Option Extent} (first : IsLast t pattern limit found)
    (second : IsLast t pattern limit other) : found = other := by
  cases found with
  | none =>
    cases other with
    | none => rfl
    | some place =>
      have := first place second.1
      have := second.2.1
      omega
  | some place =>
    cases other with
    | none =>
      have := second place first.1
      have := first.2.1
      omega
    | some place' =>
      have lower := first.2.2 place' second.1 second.2.1
      have upper := second.2.2 place first.1 first.2.1
      rw [first.1.eq_of_start second.1 (Nat.le_antisymm upper lower)]

/-- Where no two matches overlap, a search finds the last one, however large its first window is. -/
theorem searchWindows_isLast (apart : ∀ a b, t.Matches pattern a → t.Matches pattern b →
      a.start < b.start → a.stop ≤ b.start) (k : Nat) :
    IsLast t pattern limit (t.searchWindows pattern limit k) := by
  have reached : ∀ m, t.Matches pattern m → m.stop ≤ limit →
      ∃ m', t.searchWindows pattern limit k = some m' ∧ m.start ≤ m'.start := by
    intro m matched within
    exact matched.searchWindows_reaches (fun a first => apart a m first matched) within k
  cases found : t.searchWindows pattern limit k with
  | none =>
    intro m matched
    apply Nat.lt_of_not_le
    intro within
    obtain ⟨m', here, -⟩ := reached m matched within
    rw [found] at here
    cases here
  | some place =>
    refine ⟨searchWindows_matches found, searchWindows_stop_le found, fun m matched within => ?_⟩
    obtain ⟨m', here, later⟩ := reached m matched within
    rw [found, Option.some.injEq] at here
    rwa [here]

theorem IsLast.eq_iff {found other : Option Extent} (last : IsLast t pattern limit found) :
    found = other ↔ IsLast t pattern limit other := by
  constructor
  · rintro rfl
    exact last
  · exact last.unique

/-- A search with one window, the whole of the text. -/
theorem searchWindows_whole (t : Text) (pattern : Pattern) (limit : Nat) :
    t.searchWindows pattern limit limit = t.lastMatch pattern limit 0 none := by
  have wide := lt_windowSize limit
  rw [searchWindows, if_neg (by omega)]

/-! ### The last occurrence -/

variable {anchor : Nat}

/-- An occurrence ends on a boundary, so none that ends by an offset ends behind its floor. -/
theorem Occurs.stop_le_floor_iff (occurs : Occurs s word i) :
    i + word.utf8ByteSize ≤ (ofString s).floor anchor ↔ i + word.utf8ByteSize ≤ anchor := by
  obtain ⟨front, back, whole, rfl⟩ := occurs
  have boundary : (ofString s).isBoundary (front.utf8ByteSize + word.utf8ByteSize) = true :=
    isBoundary_ofString_iff.mpr ⟨front ++ word, back, whole, String.utf8ByteSize_append⟩
  constructor
  · intro before
    exact Nat.le_trans before (floor_le _ anchor)
  · exact le_floor boundary

theorem isLast_literal_none_iff :
    IsLast (ofString s) (literal (ofString word)) ((ofString s).floor anchor) none ↔
      ∀ i, Occurs s word i → anchor < i + word.utf8ByteSize := by
  constructor
  · intro absent i occurs
    have beyond := absent ⟨i, i + word.utf8ByteSize⟩ (matches_literal_iff.mpr ⟨occurs, rfl⟩)
    rw [← Nat.not_le, ← occurs.stop_le_floor_iff, Nat.not_le]
    exact beyond
  · intro absent m matched
    obtain ⟨occurs, stop⟩ := matches_literal_iff.mp matched
    rw [stop, ← Nat.not_le, occurs.stop_le_floor_iff, Nat.not_le]
    exact absent m.start occurs

theorem isLast_literal_some_iff {place : Extent} :
    IsLast (ofString s) (literal (ofString word)) ((ofString s).floor anchor) (some place) ↔
      place.stop = place.start + word.utf8ByteSize ∧
      IsGreatest {i | Occurs s word i ∧ i + word.utf8ByteSize ≤ anchor} place.start := by
  constructor
  · rintro ⟨matched, within, last⟩
    obtain ⟨occurs, stop⟩ := matches_literal_iff.mp matched
    rw [stop, occurs.stop_le_floor_iff] at within
    refine ⟨stop, ⟨occurs, within⟩, ?_⟩
    rintro i ⟨other, before⟩
    exact last ⟨i, i + word.utf8ByteSize⟩ (matches_literal_iff.mpr ⟨other, rfl⟩)
      (other.stop_le_floor_iff.mpr before)
  · rintro ⟨stop, ⟨occurs, within⟩, greatest⟩
    refine ⟨matches_literal_iff.mpr ⟨occurs, stop⟩, ?_, ?_⟩
    · rw [stop, occurs.stop_le_floor_iff]
      exact within
    · intro m matched before
      obtain ⟨other, last⟩ := matches_literal_iff.mp matched
      rw [last, other.stop_le_floor_iff] at before
      exact greatest ⟨other, before⟩

/-- Where the occurrences of a word do not overlap, the search backward finds the last of those that
end by its anchor, and nothing when there is none. Windows of whatever size find what one pass over
the whole text finds. -/
theorem searchBackward_last (s word : String) (anchor : Nat)
    (apart : ∀ i j, Occurs s word i → Occurs s word j → i < j → i + word.utf8ByteSize ≤ j) :
    let t := ofString s
    let needle := literal (ofString word)
    (∀ place, t.searchBackward needle anchor = some place ↔
      place.stop = place.start + word.utf8ByteSize ∧
      IsGreatest {i | Occurs s word i ∧ i + word.utf8ByteSize ≤ anchor} place.start) ∧
    (t.searchBackward needle anchor = none ↔
      ∀ i, Occurs s word i → anchor < i + word.utf8ByteSize) ∧
    ∀ k, t.searchWindows needle (t.floor anchor) k = t.lastMatch needle (t.floor anchor) 0 none := by
  intro t needle
  have matched : ∀ a b, t.Matches needle a → t.Matches needle b → a.start < b.start →
      a.stop ≤ b.start := by
    intro a b first second before
    obtain ⟨occurs, stop⟩ := matches_literal_iff.mp first
    rw [stop]
    exact apart a.start b.start occurs (matches_literal_iff.mp second).1 before
  have last : ∀ k, IsLast t needle (t.floor anchor) (t.searchWindows needle (t.floor anchor) k) :=
    searchWindows_isLast matched
  refine ⟨fun place => ?_, ?_, fun k => ?_⟩
  · rw [searchBackward, (last 0).eq_iff, isLast_literal_some_iff]
  · rw [searchBackward, (last 0).eq_iff, isLast_literal_none_iff]
  · rw [← searchWindows_whole, (last k).unique (last _)]

/-- Two letters of two bytes with `n` semicolons between them. -/
def spread (n : Nat) : String :=
  "é" ++ String.ofList (List.replicate n ';') ++ "é"

theorem utf8ByteSize_semicolons (n : Nat) :
    (String.ofList (List.replicate n ';')).utf8ByteSize = n := by
  induction n with
  | zero => rfl
  | succ n ih =>
    rw [List.replicate_succ, String.ofList_cons, String.utf8ByteSize_append, ih,
      String.utf8ByteSize_singleton, Nat.add_comm]
    rfl

theorem occurs_spread {n i : Nat} (occurs : Occurs (spread n) "é" i) : i = 0 ∨ i = n + 2 := by
  obtain ⟨front, back, split, rfl⟩ := occurs
  have letters : 'é' :: (List.replicate n ';' ++ ['é']) = front.toList ++ 'é' :: back.toList := by
    simpa [spread] using congrArg String.toList split
  cases start : front.toList with
  | nil =>
    rw [String.toList_eq_nil_iff.mp start]
    exact Or.inl rfl
  | cons c rest =>
    rw [start, List.cons_append] at letters
    obtain ⟨rfl, same⟩ := List.cons.inj letters
    have between : rest = List.replicate n ';' := by
      rcases List.append_eq_append_iff.mp same with ⟨more, split, last⟩ | ⟨more, split, last⟩
      · cases more with
        | nil => rw [split, List.append_nil]
        | cons d others => simp at last
      · cases more with
        | nil => rw [split, List.append_nil]
        | cons d others =>
          have listed : d ∈ List.replicate n ';' := split ▸ by simp
          rw [List.eq_of_mem_replicate listed] at last
          cases last
    have text : front = "é" ++ String.ofList (List.replicate n ';') := by
      apply String.toList_injective
      simp [start, between]
    rw [text, String.utf8ByteSize_append, utf8ByteSize_semicolons]
    exact Or.inr (Nat.add_comm _ _)

/-- Two letters with a window between them. The second one ends behind the anchor, which cuts it in
two, and the first one ends where the first window starts. -/
theorem searchBackward_last_cut :
    let s := spread 4096
    let needle := literal (ofString "é")
    windowSize 0 < (ofString s).size ∧
    (∀ i j, Occurs s "é" i → Occurs s "é" j → i < j → i + "é".utf8ByteSize ≤ j) ∧
    (ofString s).searchBackward needle 4099 = some ⟨0, 2⟩ ∧
    (ofString s).searchBackward needle 1 = none := by
  intro s needle
  have long : windowSize 0 < (ofString s).size := by
    rw [size_ofString]
    simp only [s, spread, String.utf8ByteSize_append, utf8ByteSize_semicolons]
    decide
  have first : Occurs s "é" 0 := by
    refine ⟨"", String.ofList (List.replicate 4096 ';') ++ "é", ?_, rfl⟩
    rw [String.empty_append, ← String.append_assoc]
    rfl
  have letter : "é".utf8ByteSize = 2 := by decide
  have apart : ∀ i j, Occurs s "é" i → Occurs s "é" j → i < j → i + "é".utf8ByteSize ≤ j := by
    intro i j here there before
    have := occurs_spread here
    have := occurs_spread there
    omega
  refine ⟨long, apart, ?_, ?_⟩
  · refine ((searchBackward_last s "é" 4099 apart).1 ⟨0, 2⟩).mpr ⟨by decide, ⟨first, by decide⟩, ?_⟩
    rintro i ⟨occurs, within⟩
    have := occurs_spread occurs
    show i ≤ 0
    omega
  · refine (searchBackward_last s "é" 1 apart).2.1.mpr fun i occurs => ?_
    have := occurs_spread occurs
    omega

end Text
end SasLayout
