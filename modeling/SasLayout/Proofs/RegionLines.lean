import SasLayout.Proofs.Idempotence

set_option autoImplicit false

/-!
What reindenting a region touches. The lines placed are those of the region that are not blank, each
once and in order. In the moved text the lines whose column changed have new indentation, and all
others are the same byte for byte.
-/
namespace SasLayout

namespace Text

variable {t : Text} {i j k : Nat}

/-- Line `n` has a byte other than space and tab. -/
def showsLine (t : Text) (n : Nat) : Bool :=
  t.lines[n]?.any fun line => line.any (!Byte.isIndent ·)

/-- The numbers of the lines from that of `start` to that of `stop` that are not blank. -/
def shownLines (t : Text) (start stop : Nat) : List Nat :=
  (List.range' (t.lineIndex start) (t.lineIndex stop + 1 - t.lineIndex start)).filter t.showsLine

theorem body_eq_nil_iff : t.body i = [] ↔ t.lineEnd i ≤ t.firstNonBlank i := by
  rw [← List.length_eq_zero_iff, length_body, Nat.sub_eq_zero_iff_le]

theorem isBlankLine_iff (within : i ≤ t.size) :
    t.isBlankLine i = true ↔ ∀ b ∈ t.line i, Byte.isIndent b = true := by
  rw [isBlankLine, decide_eq_true_eq, ← body_eq_nil_iff, ← unindented_line within, unindented,
    List.dropWhile_eq_nil_iff]

theorem showsLine_lineIndex (within : i ≤ t.size) :
    t.showsLine (t.lineIndex i) = !t.isBlankLine i := by
  have blank := isBlankLine_iff within
  rw [showsLine, lines_lineIndex within, Option.any_some, Bool.eq_iff_iff, List.any_eq_true,
    Bool.not_eq_true', ← Bool.not_eq_true, blank]
  simp

/-- The line of `i` alone. -/
def shownLine (t : Text) (i : Nat) : List Nat :=
  if t.isBlankLine i then [] else [t.lineIndex i]

theorem filter_shownLine (within : i ≤ t.size) :
    [t.lineIndex i].filter t.showsLine = t.shownLine i := by
  rw [List.filter_singleton, showsLine_lineIndex within, shownLine]
  cases t.isBlankLine i <;> rfl

theorem shownLines_last (within : i ≤ t.size) (same : t.lineIndex j = t.lineIndex i) :
    t.shownLines i j = t.shownLine i := by
  rw [shownLines, same, Nat.add_sub_cancel_left, List.range'_one, filter_shownLine within]

theorem shownLines_more (within : i ≤ t.size) (more : t.lineEnd i < j) (bound : j ≤ t.size) :
    t.shownLines i j = t.shownLine i ++ t.shownLines (t.lineEnd i + 1) j := by
  have next := lineIndex_next within (Nat.lt_of_lt_of_le more bound)
  have below := t.lineIndex_mono (Nat.succ_le_of_lt more)
  rw [Nat.succ_eq_add_one, next] at below
  rw [shownLines, shownLines, next, ← filter_shownLine within, ← List.filter_append,
    List.singleton_append, ← List.range'_succ]
  congr 2
  omega

end Text

namespace Indenter

open Indent

variable {ix : Indenter} {start stop : Nat} {lines : Array PlacedLine}

/-- Lines with the numbers listed, each the number of the line that starts at its offset. -/
structure Numbered (t : Text) (numbers : List Nat) (lines : List PlacedLine) : Prop where
  numbered : lines.map (·.line) = numbers.map (· + 1)
  offsets : ∀ l ∈ lines, l.line = t.lineIndex l.offset + 1

theorem Numbered.append {t : Text} {first second : List Nat} {front back : List PlacedLine}
    (left : Numbered t first front) (right : Numbered t second back) :
    Numbered t (first ++ second) (front ++ back) where
  numbered := by rw [List.map_append, List.map_append, left.numbered, right.numbered]
  offsets l listed := (List.mem_append.mp listed).elim (left.offsets l) (right.offsets l)

theorem placeLine_numbered {memo memo' : Memo} {placed placed' : Array PlacedLine}
    (ran : (ix.placeLine start memo placed).value = .ok (memo', placed')) :
    ∃ added, placed'.toList = placed.toList ++ added ∧
      Numbered ix.text (ix.text.shownLine start) added := by
  obtain ⟨blank, rfl, rfl⟩ | ⟨shown, target, -, rfl⟩ := placeLine_cases ran
  · refine ⟨[], by simp, ?_, by simp⟩
    rw [Text.shownLine, if_pos blank, List.map_nil, List.map_nil]
  · refine ⟨[_], Array.toList_push, ?_, by simp⟩
    rw [Text.shownLine, shown, if_neg Bool.false_ne_true, List.map_singleton, List.map_singleton]

theorem placeLines_numbered {memo : Memo} {placed : Array PlacedLine} {events : Array Event}
    (begins : ix.text.lineStart start = start) (ordered : start ≤ stop)
    (within : stop ≤ ix.text.size)
    (ran : (ix.placeLines stop start memo placed events).value = .ok lines) :
    ∃ added, lines.toList = placed.toList ++ added ∧
      Numbered ix.text (ix.text.shownLines start stop) added := by
  fun_induction placeLines ix stop start memo placed events with
  | case1 start memo placed events next cause failed => cases ran
  | case2 start memo placed events next memo' placed' found more _ ih =>
    obtain ⟨first, grown, here⟩ := placeLine_numbered found
    obtain ⟨rest, all, later⟩ := ih (Text.lineStart_next more.2) more.1 ran
    refine ⟨first ++ rest, by rw [all, grown, List.append_assoc], ?_⟩
    rw [Text.shownLines_more (by omega) more.1 within]
    exact here.append later
  | case3 start memo placed events next memo' placed' found more =>
    cases ran
    obtain ⟨first, grown, here⟩ := placeLine_numbered found
    refine ⟨first, grown, ?_⟩
    -- The region ends on this line, or the text does.
    have ends : stop ≤ ix.text.lineEnd start := by
      have := ix.text.lineEnd_le_size start
      omega
    have inside := Nat.le_trans ordered within
    rwa [Text.shownLines_last inside (Text.lineIndex_within inside (by omega) ends)]

/-- The lines of a region are those from its start to its end that are not blank. -/
theorem reindentRegion_numbered (ran : (ix.reindentRegion start stop).value = .ok lines) :
    Numbered ix.text
      (ix.text.shownLines (ix.text.floor start) (max (ix.text.floor start) (ix.text.floor stop)))
      lines.toList := by
  obtain ⟨first, last, placed⟩ := reindentRegion_checked ran
  have left := Nat.le_trans (ix.text.floor_le start) first
  have right := Nat.le_trans (ix.text.floor_le stop) last
  have ordered := Nat.le_trans (Text.lineStart_le left) (Nat.le_max_left _ (ix.text.floor stop))
  obtain ⟨added, all, numbered⟩ := placeLines_numbered (Text.lineStart_lineStart left) ordered
    (Nat.max_le.mpr ⟨left, right⟩) placed
  rw [Text.shownLines, Text.lineIndex_lineStart left] at numbered
  rwa [all, Array.toList_empty, List.nil_append]

/-- What reindenting the region from `start` to `stop` makes of a text: the lines placed and the text
with them moved. -/
structure RegionEdit (t : Text) (start stop : Nat) (lines : Array PlacedLine) (moved : Text) :
    Prop where
  /-- The lines placed are those of the region that are not blank, once each and in order. -/
  numbers : lines.toList.map (·.line) =
    (t.shownLines (t.floor start) (max (t.floor start) (t.floor stop))).map (· + 1)
  starts : ∀ l ∈ lines, t.startOfLine? (l.line - 1) = some l.offset ∧
    l.current = t.indentation l.offset
  lineCount : moved.lineCount = t.lineCount
  kept : ∀ n, (∀ l ∈ lines, l.isMoved = true → l.line ≠ n + 1) → moved.lines[n]? = t.lines[n]?
  changed : ∀ l ∈ lines, l.isMoved = true → ∃ old, t.lines[l.line - 1]? = some old ∧
    moved.lines[l.line - 1]? =
      some (List.replicate l.target Byte.space ++ old.dropWhile Byte.isIndent)
  /-- Each line placed stands at its column. -/
  columns : ∀ l ∈ lines, ∃ k, moved.startOfLine? (l.line - 1) = some k ∧
    moved.indentation k = l.target

section Moved

variable (ran : (ix.reindentRegion start stop).value = .ok lines)

include ran

theorem reindentRegion_kept (n : Nat) (still : ∀ l ∈ lines, l.isMoved = true → l.line ≠ n + 1) :
    (ix.text.moveLines lines.toList).lines[n]? = ix.text.lines[n]? := by
  have listed := reindentRegion_offsets ran
  rcases Nat.lt_or_ge n ix.text.lineCount with inside | past
  · obtain ⟨i, within, rfl⟩ := Text.exists_lineIndex inside
    rw [Text.lines_moveLines_lineIndex listed within, Text.lines_lineIndex within,
      Text.relined_none, Text.line_lineStart within]
    intro l member moved here
    apply still l (Array.mem_toList_iff.mp member) moved
    rw [(reindentRegion_numbered ran).offsets l member, here, Text.lineIndex_lineStart within]
  · have count := (relaid_moveLines (reindentRegion_placed ran) listed).lineCount
    rw [List.getElem?_eq_none_iff.mpr, List.getElem?_eq_none_iff.mpr]
    · rwa [Text.length_lines]
    · rw [Text.length_lines]
      exact Nat.le_trans (Nat.le_of_eq count) past

theorem reindentRegion_changed {l : PlacedLine} (member : l ∈ lines) (moved : l.isMoved = true) :
    ∃ old, ix.text.lines[ix.text.lineIndex l.offset]? = some old ∧
      (ix.text.moveLines lines.toList).lines[ix.text.lineIndex l.offset]? =
        some (List.replicate l.target Byte.space ++ old.dropWhile Byte.isIndent) := by
  have placed := reindentRegion_placed ran l member
  have listed := reindentRegion_offsets ran
  refine ⟨ix.text.line l.offset, Text.lines_lineIndex placed.within, ?_⟩
  rw [Text.lines_moveLines_lineIndex listed placed.within,
    Text.lineStart_eq_self placed.within placed.begins, relined_placed member listed, if_pos moved,
    ← Text.unindented_line placed.within, Text.unindented]

theorem reindentRegion_columns (joined : ix.text.Joined) {l : PlacedLine} (member : l ∈ lines) :
    ∃ k, (ix.text.moveLines lines.toList).startOfLine? (ix.text.lineIndex l.offset) = some k ∧
      (ix.text.moveLines lines.toList).indentation k = l.target := by
  have placed := reindentRegion_placed ran
  have listed := reindentRegion_offsets ran
  have count := (relaid_moveLines placed listed).lineCount
  have inside : ix.text.lineIndex l.offset < (ix.text.moveLines lines.toList).lineCount := by
    refine Nat.lt_of_lt_of_le ?_ (Nat.le_of_eq count.symm)
    change ix.text.lineIndex l.offset < ix.text.lineCount
    rw [Text.lineCount_eq]
    exact Nat.lt_succ_of_le (ix.text.lineIndex_mono (placed l member).within)
  obtain ⟨i, within, same⟩ := Text.exists_lineIndex inside
  refine ⟨_, by rw [← same, Text.startOfLine?_lineIndex within], ?_⟩
  refine indentation_moveLines joined member placed listed (Text.lineStart_le_size _ _) ?_
  rw [Text.lineIndex_lineStart within, same]

end Moved

/-- Reindenting a region touches its lines only. They are placed once each and in order, blank ones
left out; in the moved text a line whose column changed is spaces up to its column and then the line
from its first visible character, and every other line is unchanged. -/
theorem reindentRegion_touches (lexical : LexicalSettings) (style : IndentSettings)
    (grammar : Grammar String) (s : String) (start stop : Nat) (lines : Array PlacedLine) :
    let t := Text.ofString s
    (reindentRegion ⟨Source.ofText lexical t, style, grammar⟩ start stop).value = .ok lines →
    RegionEdit t start stop lines (t.moveLines lines.toList) := by
  intro t ran
  have numbered := reindentRegion_numbered ran
  have placed := reindentRegion_placed ran
  have listed := reindentRegion_offsets ran
  have number : ∀ l ∈ lines, l.line - 1 = t.lineIndex l.offset := by
    intro l member
    rw [numbered.offsets l (Array.mem_toList_iff.mpr member)]
    exact Nat.add_sub_cancel _ 1
  constructor
  case numbers => exact numbered.numbered
  case starts =>
    intro l member
    have line := placed l member
    have start : t.startOfLine? (t.lineIndex l.offset) = some (t.lineStart l.offset) :=
      Text.startOfLine?_lineIndex line.within
    refine ⟨?_, line.current⟩
    rw [number l member, start]
    exact congrArg some (Text.lineStart_eq_self line.within line.begins)
  case lineCount => exact (relaid_moveLines placed listed).lineCount
  case kept => exact reindentRegion_kept ran
  case changed =>
    intro l member moved
    rw [number l member]
    exact reindentRegion_changed ran member moved
  case columns =>
    intro l member
    rw [number l member]
    exact reindentRegion_columns ran (Text.joined_ofString s) member

/-- The lines of a group but its first and last, which stay off their columns. Between the line with
the tab, which moves, and the one in place is a blank line. -/
theorem reindentRegion_touches_part :
    let t := Text.ofString " do;\r\n\tx;\n \t\n    y;\r\n end;"
    let lines : Array PlacedLine := #[⟨2, 6, 8, 4⟩, ⟨4, 13, 4, 4⟩]
    (reindentRegion ⟨Source.ofText {} t, {}, ⟨Grammar.standardLevels, []⟩⟩ 7 14).value =
        .ok lines ∧
      RegionEdit t 7 14 lines (t.moveLines lines.toList) := by
  intro t lines
  have ran : (reindentRegion ⟨Source.ofText {} t, {}, ⟨Grammar.standardLevels, []⟩⟩ 7 14).value =
      .ok lines := by decide +kernel
  exact ⟨ran, reindentRegion_touches {} {} _ _ 7 14 lines ran⟩

end Indenter
end SasLayout
