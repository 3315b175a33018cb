import SasLayout.Configuration
import SasLayout.Proofs.DepthIndent
import SasLayout.SourceFile

set_option autoImplicit false

/-!
How large columns become. The column of a line is that of another line and a shift, at most as many
times as the limit on lines that depend on each other allows, and a shift is an indentation step, a
continuation, or the distance between two columns of one line. Lines are bounded by the limits on a
text and steps by the settings that are accepted. Continuations are not.
-/
namespace SasLayout

namespace Text

variable {t : Text} {bounds : TextLimits} {i start limit : Nat}

/-- The most columns that a line within the limits can take: a tab for each byte. -/
def widestLine (bounds : TextLimits) : Nat :=
  tabWidth * bounds.line

theorem advance_le (column : Nat) (b : UInt8) : advance column b ≤ column + tabWidth := by
  unfold advance tabWidth
  split
  · omega
  · split <;> omega

theorem foldl_advance_le (bytes : List UInt8) (column : Nat) :
    bytes.foldl advance column ≤ column + tabWidth * bytes.length := by
  induction bytes generalizing column with
  | nil => simp
  | cons b rest ih =>
    have step := advance_le column b
    have later := ih (advance column b)
    rw [List.foldl_cons, List.length_cons, Nat.mul_succ]
    omega

/-- A line that the search for a long one has passed is not long. -/
theorem length_le_of_longLineFrom? {line : Nat} (begins : t.lineStart start = start)
    (none : t.longLineFrom? limit line start = none) (ordered : start ≤ i) (within : i ≤ t.size) :
    t.lineEnd i - t.lineStart i ≤ limit := by
  have here {start : Nat} (begins : t.lineStart start = start) (lower : start ≤ i)
      (upper : i ≤ t.lineEnd start) (short : ¬ limit < t.lineEnd start - start) :
      t.lineEnd i - t.lineStart i ≤ limit := by
    have inside := Nat.le_trans lower within
    have same := lineIndex_within inside (begins.symm ▸ lower) upper
    rw [lineEnd_congr within inside same, lineStart_congr within inside same, begins]
    exact Nat.le_of_not_lt short
  fun_induction longLineFrom? t limit line start with
  | case1 line start long => cases none
  | case2 line start short more longer ih =>
    rcases Nat.lt_or_ge (t.lineEnd start) i with later | upper
    · exact ih (lineStart_next more) none later
    · exact here begins ordered upper short
  | case3 line start short more =>
    exact here begins ordered (Nat.le_trans within (Nat.le_of_not_lt more)) short

theorem length_le_of_checkLimits (limits : t.checkLimits bounds = .ok ()) (within : i ≤ t.size) :
    t.lineEnd i - t.lineStart i ≤ bounds.line := by
  unfold checkLimits at limits
  split at limits
  · cases limits
  · split at limits
    · cases limits
    · rename_i none
      exact length_le_of_longLineFrom? t.lineStart_zero none (Nat.zero_le i) within

theorem columnOf_le (limits : t.checkLimits bounds = .ok ()) (i : Nat) :
    t.columnOf i ≤ widestLine bounds := by
  have length : (t.slice (t.lineStart (t.floor i)) (t.floor i)).toList.length ≤ bounds.line := by
    have within := Nat.min_le_right (t.floor i) t.size
    have upper : min (t.floor i) t.size ≤ t.lineEnd (min (t.floor i) t.size) :=
      t.le_seek _ _ within
    have line := length_le_of_checkLimits limits within
    rw [lineStart, Nat.min_eq_left within] at line
    rw [toList_slice, List.length_drop, List.length_take, length_toList, lineStart]
    omega
  have columns := foldl_advance_le (t.slice (t.lineStart (t.floor i)) (t.floor i)).toList 0
  rw [Nat.zero_add] at columns
  exact Nat.le_trans columns (Nat.mul_le_mul_left tabWidth length)

theorem indentation_le (limits : t.checkLimits bounds = .ok ()) (i : Nat) :
    t.indentation i ≤ widestLine bounds :=
  columnOf_le limits _

end Text

namespace Indent

/-- The steps that an action counts. -/
def Action.units : Action → Nat
  | .basic units => units
  | _ => 0

variable {transition : Transition} {name : String} {c : Category} {action default : Action}

/-- A rule asks for one step at most. -/
theorem action?_units (chosen : action? transition name c = some action) : action.units ≤ 1 := by
  obtain ⟨rule, found, rfl⟩ := Option.map_eq_some_iff.mp chosen
  have all : ∀ rule ∈ rules, rule.action.units ≤ 1 := by decide
  exact all rule (List.mem_of_find?_eq_some found)

theorem units_getD (few : default.units ≤ 1) :
    ((action? transition name c).getD default).units ≤ 1 := by
  cases chosen : action? transition name c with
  | none => exact few
  | some action => exact action?_units chosen

end Indent

namespace Indenter

open Indent

section

variable (ix : Indenter) (bounds : TextLimits)

/-- The most that the column of a line exceeds that of the line it rests on. -/
def stride : Nat :=
  max (ix.settings.continuationUnits * ix.settings.width)
    (max ix.settings.limits.width (Text.widestLine bounds))

/-- A column of a line within the limits, or one stride from another line. -/
def InStride : Footing → Prop
  | .column value => value ≤ Text.widestLine bounds
  | .line _ shift => shift ≤ ix.stride bounds
  | .list _ => True

end

variable {ix : Indenter} {bounds : TextLimits} (limits : ix.text.checkLimits bounds = .ok ())
  (narrow : ix.settings.width ≤ ix.settings.limits.width)

theorem widestLine_le_stride (ix : Indenter) : Text.widestLine bounds ≤ ix.stride bounds :=
  Nat.le_trans (Nat.le_max_right _ _) (Nat.le_max_right _ _)

include limits in
theorem inStride_aligned (pos : Nat) : ix.InStride bounds (ix.aligned pos) :=
  Nat.le_trans (Nat.sub_le _ _)
    (Nat.le_trans (Text.columnOf_le limits pos) (widestLine_le_stride ix))

theorem inStride_continued (pos : Nat) : ix.InStride bounds (ix.continued pos) :=
  Nat.le_max_left _ _

include narrow in
theorem width_le_stride : ix.settings.width ≤ ix.stride bounds := by
  exact Nat.le_trans narrow (Nat.le_trans (Nat.le_max_left _ _) (Nat.le_max_right _ _))

include limits narrow

theorem inStride_anchored (anchor : Extent) {action : Action} (few : action.units ≤ 1) :
    ix.InStride bounds (ix.anchored anchor action) := by
  have step : ix.settings.width ≤ ix.stride bounds := width_le_stride narrow
  cases action with
  | basic units =>
    have scaled := Nat.mul_le_mul_right ix.settings.width few
    rw [Nat.one_mul] at scaled
    exact Nat.le_trans scaled step
  | continuation => exact Nat.le_max_left _ _
  | inherit => exact Nat.zero_le _
  | alignAnchor => exact inStride_aligned limits _
  | alignNext =>
    rw [anchored]
    split
    · split
      · exact inStride_aligned limits _
      · exact step
    · exact step

theorem inStride_footingAfter {previous : Token} {on : Footing}
    (found : ix.footingAfter previous = .ok on) : ix.InStride bounds on := by
  unfold footingAfter at found
  simp only at found
  split at found
  · cases found
    trivial
  split at found
  · cases bracket : ix.bracketAround previous.start with
    | error cause =>
      rw [bracket] at found
      cases found
    | ok around =>
      rw [bracket] at found
      cases around with
      | none =>
        cases found
        exact inStride_continued _
      | some around =>
        cases found
        exact inStride_anchored limits narrow _ (units_getD (Nat.zero_le 1))
  · split at found
    · cases found
      exact inStride_continued _
    · cases found
      exact inStride_continued _
    · rename_i rule
      cases found
      exact inStride_anchored limits narrow _ (action?_units rule)

omit limits narrow in
/-- The action for the first token of a line, too, counts one step at most. -/
theorem leadingAnchor?_units {tok : Token} {lineStart : Nat} {anchor : Extent} {action : Action}
    (found : ix.leadingAnchor? tok lineStart = .ok (some (anchor, action))) :
    action.units ≤ 1 := by
  unfold leadingAnchor? at found
  simp only at found
  split at found
  · cases found
  · cases found
    exact units_getD (Nat.zero_le 1)
  split at found
  · cases bracket : ix.bracketAround tok.start with
    | error cause =>
      rw [bracket] at found
      cases found
    | ok around =>
      rw [bracket] at found
      cases around with
      | none => cases found
      | some around =>
        cases found
        exact units_getD (Nat.zero_le 1)
  split at found
  · split at found
    · cases found
    · cases found
      exact units_getD (Nat.zero_le 1)
  · cases found

theorem inStride_footing {lineStart : Nat} {on : Footing} (found : ix.footing lineStart = .ok on) :
    ix.InStride bounds on := by
  unfold footing at found
  split at found
  · cases found
    exact Text.indentation_le limits lineStart
  split at found
  · cases found
    exact Nat.zero_le _
  split at found
  · exact inStride_footingAfter limits narrow found
  · rename_i previous _ tok _
    cases leading : ix.leadingAnchor? tok lineStart with
    | error cause =>
      rw [leading] at found
      cases found
    | ok anchored =>
      rw [leading] at found
      cases anchored with
      | none => exact inStride_footingAfter limits narrow found
      | some anchor =>
        cases found
        exact inStride_anchored limits narrow _ (leadingAnchor?_units leading)

omit limits narrow in
/-- With no columns known no statement before gives its column. -/
theorem listContextFrom_fresh {separator steps pos column : Nat} :
    ix.listContextFrom [] separator steps pos ≠ .ok (.sibling column) := by
  induction steps generalizing pos with
  | zero => simp [listContextFrom]
  | succ steps ih =>
    rw [listContextFrom]
    split
    · simp
    · rw [sibling?_nil]
      split
      · exact ih
      · simp
    · exact ih
    · exact ih
    · simp

theorem inStride_listed {separator : Nat} {context : ListContext}
    (search : ix.listContext [] separator = .ok context) :
    ix.InStride bounds (ix.listed context) := by
  cases context with
  | sibling column => exact absurd search listContextFrom_fresh
  | outermost => exact Nat.zero_le _
  | inside pos token => exact inStride_anchored limits narrow _ (units_getD (Nat.le_refl 1))

theorem inStride_found {lineStart : Nat} {on : Footing} (found : ix.Found lineStart on) :
    ix.InStride bounds on := by
  cases found with
  | plain found other => exact inStride_footing limits narrow found
  | list found search => exact inStride_listed limits narrow search

omit limits narrow in
/-- A column that is computed with no columns known is that on what the line rests on. -/
theorem found_of_compute {columnOfLine : Nat → Indenting Nat} {lineStart column : Nat} {memo : Memo}
    (ran : outcome (ix.compute columnOfLine lineStart) [] = .ok (column, memo)) :
    ∃ on, ix.Found lineStart on ∧ (∀ separator, on ≠ .list separator) ∧
      outcome (ix.columnOn columnOfLine on) [] = .ok (column, memo) := by
  rw [outcome_compute] at ran
  cases found : ix.footing lineStart with
  | error cause =>
    rw [found] at ran
    cases ran
  | ok on =>
    rw [found] at ran
    cases on with
    | column value => exact ⟨_, .plain found (by simp), by simp, ran⟩
    | line start shift => exact ⟨_, .plain found (by simp), by simp, ran⟩
    | list separator =>
      change outcome (ix.columnOn columnOfLine (.list separator)) [] = _ at ran
      rw [outcome_list] at ran
      cases search : ix.listContext [] separator with
      | error cause =>
        rw [search] at ran
        cases ran
      | ok context =>
        rw [search] at ran
        exact ⟨_, .list found search, listed_ne_list context, ran⟩

/-- A line within the limits, or one stride from a line with less room. -/
theorem lineIndent_stride {room lineStart column : Nat} {memo : Memo}
    (ran : outcome (ix.lineIndent (room + 1) lineStart) [] = .ok (column, memo)) :
    (column ≤ Text.widestLine bounds ∧ memo = [(lineStart, column)]) ∨
      ∃ start base rest, outcome (ix.lineIndent room start) [] = .ok (base, rest) ∧
        column ≤ base + ix.stride bounds ∧ memo = (lineStart, column) :: rest := by
  rw [outcome_lineIndent _ _ rfl] at ran
  cases computed : outcome (ix.compute (ix.lineIndent room) lineStart) [] with
  | error cause =>
    rw [computed] at ran
    cases ran
  | ok result =>
    obtain ⟨value, known⟩ := result
    rw [computed] at ran
    cases ran
    obtain ⟨on, found, other, placed⟩ := found_of_compute computed
    have stride := inStride_found limits narrow found
    cases on with
    | list separator => exact absurd rfl (other separator)
    | column value =>
      cases placed
      exact Or.inl ⟨stride, rfl⟩
    | line start shift =>
      rw [outcome_line] at placed
      cases below : outcome (ix.lineIndent room start) [] with
      | error cause =>
        rw [below] at placed
        cases placed
      | ok lower =>
        rw [below] at placed
        cases placed
        exact Or.inr ⟨start, lower.1, lower.2, below, Nat.add_le_add_left stride _, rfl⟩

/-- Every column of a run is bounded by the room for lines that depend on each other. -/
theorem lineIndent_le {room lineStart column : Nat} {memo : Memo}
    (ran : outcome (ix.lineIndent (room + 1) lineStart) [] = .ok (column, memo)) :
    (lineStart, column) ∈ memo ∧
      ∀ entry ∈ memo, entry.2 ≤ Text.widestLine bounds + room * ix.stride bounds := by
  have stride := lineIndent_stride limits narrow ran
  induction room generalizing lineStart column memo with
  | zero =>
    rcases stride with ⟨own, rfl⟩ | ⟨start, base, rest, below, -, -⟩
    · exact ⟨List.mem_cons_self, List.forall_mem_singleton.mpr (Nat.le_add_right_of_le own)⟩
    · cases below
  | succ room ih =>
    rcases stride with ⟨own, rfl⟩ | ⟨start, base, rest, below, own, rfl⟩
    · exact ⟨List.mem_cons_self, List.forall_mem_singleton.mpr (Nat.le_add_right_of_le own)⟩
    · obtain ⟨first, others⟩ := ih below (lineIndent_stride limits narrow below)
      have lower : base ≤ Text.widestLine bounds + room * ix.stride bounds := others _ first
      rw [Nat.succ_mul, ← Nat.add_assoc]
      exact ⟨List.mem_cons_self, List.forall_mem_cons.mpr
        ⟨Nat.le_trans own (Nat.add_le_add_right lower _),
          fun entry listed => Nat.le_add_right_of_le (others entry listed)⟩⟩

omit limits narrow in
/-- Bounded continuations, steps and lines keep the columns of a run within the numbers. -/
theorem stride_le_number
    (continuations : ix.settings.limits.recursion *
      (ix.settings.continuationUnits * ix.settings.width) + Text.widestLine bounds ≤ Limits.number)
    (lines : ix.settings.limits.recursion *
      max ix.settings.limits.width (Text.widestLine bounds) + Text.widestLine bounds ≤
        Limits.number) :
    Text.widestLine bounds + ix.settings.limits.recursion * ix.stride bounds ≤ Limits.number := by
  rw [stride, Nat.add_comm]
  rcases Nat.le_total (ix.settings.continuationUnits * ix.settings.width)
    (max ix.settings.limits.width (Text.widestLine bounds)) with small | large
  · rw [Nat.max_eq_right small]
    exact lines
  · rw [Nat.max_eq_left large]
    exact continuations

end Indenter

theorem Configuration.width_le_of_validate {c : Configuration} (valid : c.validate = .ok ()) :
    c.indentation.width ≤ c.indentation.limits.width := by
  unfold validate at valid
  simp only at valid
  split at valid
  · cases valid
  · rename_i fits
    rw [Bool.or_eq_true, decide_eq_true_eq, decide_eq_true_eq] at fits
    omega

namespace Indenter

open Indent

/-- Columns are numbers when continuations are bounded. For settings that are accepted, and a text
within the limits, the column for an offset is a number, and so are all columns that it is computed
from, provided that as many continuations as lines can depend on each other, and the widest line
before them, add up to a number, and so do as many of the widest steps or lines. -/
theorem indentFor_number (c : Configuration) (bounds : TextLimits) (grammar : Grammar String)
    (t : Text) (offset column : Nat) :
    let ix : Indenter := ⟨Source.ofText c.lexical t, c.indentation, grammar⟩
    let limits := c.indentation.limits
    let widest := Text.tabWidth * bounds.line
    c.validate = .ok () → t.checkLimits bounds = .ok () →
    limits.recursion * (c.indentation.continuationUnits * c.indentation.width) + widest ≤
      Limits.number →
    limits.recursion * max limits.width widest + widest ≤ Limits.number →
    (ix.indentFor offset).value = .ok column →
    column ≤ Limits.number ∧
      ∃ memo, (ix.runLine (t.lineStart (t.floor offset)) []).value = .ok (column, memo) ∧
        ∀ entry ∈ memo, entry.2 ≤ Limits.number := by
  intro ix limits widest valid within continuations lines found
  obtain ⟨memo, ran⟩ := runLine_of_indentFor found
  have narrow : ix.settings.width ≤ ix.settings.limits.width :=
    Configuration.width_le_of_validate valid
  have bound : Text.widestLine bounds + ix.settings.limits.recursion * ix.stride bounds ≤
      Limits.number := stride_le_number continuations lines
  have checked : ix.text.checkLimits bounds = .ok () := within
  obtain ⟨own, all⟩ := lineIndent_le checked narrow ran
  have numbers : ∀ entry ∈ memo, entry.2 ≤ Limits.number := fun entry listed =>
    Nat.le_trans (all entry listed) bound
  exact ⟨numbers _ own, memo, ran, numbers⟩

/-- Continuations with as many steps as the bound allows, one below the other. -/
theorem indentFor_number_group :
    let c : Configuration :=
      { indentation := { width := 16, continuationUnits := 4503599627368447 } }
    let bounds := TextLimits.development
    let t := Text.ofString "if a\n= b do; if c\n= d do;\n c;"
    let ix : Indenter := ⟨Source.ofText c.lexical t, c.indentation, ⟨Grammar.standardLevels, []⟩⟩
    c.validate = .ok () ∧ t.checkLimits bounds = .ok () ∧
      256 * (4503599627368447 * 16) + Text.tabWidth * bounds.line ≤ Limits.number ∧
      256 * max 16 (Text.tabWidth * bounds.line) + Text.tabWidth * bounds.line ≤ Limits.number ∧
      (ix.indentFor 29).value = .ok 144115188075790320 ∧ 144115188075790320 ≤ Limits.number ∧
      ∃ memo, (ix.runLine (t.lineStart (t.floor 29)) []).value = .ok (144115188075790320, memo) ∧
        ∀ entry ∈ memo, entry.2 ≤ Limits.number := by
  intro c bounds t ix
  have valid : c.validate = .ok () := by decide +kernel
  have within : t.checkLimits bounds = .ok () := by decide +kernel
  have continuations : 256 * (4503599627368447 * 16) + Text.tabWidth * bounds.line ≤
      Limits.number := by decide
  have lines : 256 * max 16 (Text.tabWidth * bounds.line) + Text.tabWidth * bounds.line ≤
      Limits.number := by decide
  have found : (ix.indentFor 29).value = .ok 144115188075790320 := by decide +kernel
  exact ⟨valid, within, continuations, lines, found,
    indentFor_number c bounds ix.grammar t 29 144115188075790320 valid within continuations lines
      found⟩

/-- Without the bound, settings are accepted with which a single continuation passes the largest
number. -/
theorem indentFor_past_number :
    let c : Configuration := { indentation := { continuationUnits := 4611686018427387904 } }
    let t := Text.ofString "x =\ny;"
    let ix : Indenter := ⟨Source.ofText c.lexical t, c.indentation, ⟨Grammar.standardLevels, []⟩⟩
    c.validate = .ok () ∧ t.checkLimits .development = .ok () ∧
      (ix.indentFor 4).value = .ok 18446744073709551616 ∧
      Limits.number < 18446744073709551616 := by
  decide +kernel

end Indenter
end SasLayout
