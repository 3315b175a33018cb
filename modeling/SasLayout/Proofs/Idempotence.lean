import Mathlib.Data.List.Nodup
import SasLayout.Proofs.Layout

set_option autoImplicit false

/-!
Reindenting twice changes nothing more. The moved text has the lines of the text with the placed ones
at their columns, so the two texts are indented in step: the second time every line stands where it
belongs.
-/
namespace SasLayout

namespace Text

variable {t : Text} {i k : Nat} {lines rest : List PlacedLine}

/-- The line that starts at `start` once the lines listed are moved. -/
def relined (t : Text) (lines : List PlacedLine) (start : Nat) : List UInt8 :=
  match lines.find? fun l => l.isMoved && l.offset = start with
  | some l => List.replicate l.target Byte.space ++ t.body start
  | none => t.line start

theorem relined_other {l : PlacedLine} (other : l.offset ≠ i) :
    t.relined (l :: lines) i = t.relined lines i := by
  rw [relined, List.find?_cons_of_neg (by simp [other]), relined]

theorem relined_kept {l : PlacedLine} (kept : l.isMoved = false) :
    t.relined (l :: lines) i = t.relined lines i := by
  rw [relined, List.find?_cons_of_neg (by simp [kept]), relined]

theorem relined_moved {l : PlacedLine} (moved : l.isMoved = true) (here : l.offset = i) :
    t.relined (l :: lines) i = List.replicate l.target Byte.space ++ t.body i := by
  rw [relined, List.find?_cons_of_pos (by simp [moved, here])]

theorem relined_none (none : ∀ l ∈ lines, l.isMoved = true → l.offset ≠ i) :
    t.relined lines i = t.line i := by
  have absent : lines.find? (fun l => l.isMoved && l.offset = i) = Option.none := by
    refine List.find?_eq_none.mpr fun l listed => ?_
    simpa using none l listed
  rw [relined, absent]

/-- Up to the first line that moves the text is copied. -/
theorem moveFrom_skip (ordered : i ≤ k) (within : k ≤ t.size)
    (later : ∀ l ∈ lines, k ≤ l.offset) :
    (t.moveFrom i lines).toList = (t.slice i k).toList ++ (t.moveFrom k lines).toList := by
  induction lines with
  | nil => exact toList_slice_append ordered within
  | cons l rest ih =>
    have here := later l List.mem_cons_self
    have others := ih fun l listed => later l (List.mem_cons_of_mem _ listed)
    rw [moveFrom, moveFrom, decide_eq_true (Nat.le_trans ordered here), decide_eq_true here,
      Bool.and_true]
    split
    · rw [toList_append, toList_append, toList_append, toList_append,
        toList_slice_append ordered here, List.append_assoc, List.append_assoc, List.append_assoc]
    · exact others

/-- The rest of a line on which nothing more moves. -/
theorem splitOnP_moveFrom_rest {front : List UInt8}
    (plain : ∀ b ∈ front, Byte.isNewline b = false) (lower : t.lineStart i ≤ k)
    (upper : k ≤ t.lineEnd i)
    (later : ∀ l ∈ lines, t.lineEnd i < t.size ∧ t.lineEnd i + 1 ≤ l.offset) :
    (front ++ (t.moveFrom k lines).toList).splitOnP Byte.isNewline =
      (front ++ (t.slice k (t.lineEnd i)).toList) ::
        if t.lineEnd i < t.size then
          (t.moveFrom (t.lineEnd i + 1) lines).toList.splitOnP Byte.isNewline
        else [] := by
  have bare : ∀ b ∈ front ++ (t.slice k (t.lineEnd i)).toList, Byte.isNewline b = false := by
    intro b listed
    rcases List.mem_append.mp listed with first | second
    · exact plain b first
    · exact slice_plain t lower b second
  split
  · rename_i more
    have newline : (t.slice (t.lineEnd i) (t.lineEnd i + 1)).toList = [Byte.newline] := by
      have found : t.byte? (t.lineEnd i) = some Byte.newline := byte?_newline (seek_found more)
      rw [toList_slice_cons found (Nat.lt_succ_self _), toList_slice_self]
    rw [moveFrom_skip (Nat.le_succ_of_le upper) more fun l listed => (later l listed).2,
      toList_slice_append upper (Nat.le_succ _), newline, ← List.append_assoc,
      ← List.append_assoc, List.append_assoc, List.singleton_append, splitOnP_newline _ bare]
  · rename_i last
    have ends : t.lineEnd i = t.size := by
      have := t.lineEnd_le_size i
      omega
    cases lines with
    | nil => rw [moveFrom, ← ends, List.splitOnP_eq_singleton bare]
    | cons l rest => exact absurd (later l List.mem_cons_self).1 last

/-- One line of a text with moved lines, and the lines behind it. -/
theorem splitOnP_moveFrom_line (begins : t.lineStart i = i) (within : i ≤ t.size) {tail : List Nat}
    (later : ∀ k ∈ tail, t.lineEnd i < t.size ∧ t.lineEnd i + 1 ≤ k)
    (others : ∀ lines : List PlacedLine, (lines.map (·.offset)).Sublist tail →
      (if t.lineEnd i < t.size then
        (t.moveFrom (t.lineEnd i + 1) lines).toList.splitOnP Byte.isNewline else []) =
        tail.map (t.relined lines))
    (listed : (lines.map (·.offset)).Sublist (i :: tail)) :
    (t.moveFrom i lines).toList.splitOnP Byte.isNewline = (i :: tail).map (t.relined lines) := by
  have ends := le_lineEnd_self within
  have beyond : ∀ {lines : List PlacedLine}, (lines.map (·.offset)).Sublist tail →
      ∀ l ∈ lines, t.lineEnd i < t.size ∧ t.lineEnd i + 1 ≤ l.offset :=
    fun sub l member => later _ (sub.subset (List.mem_map_of_mem member))
  have copied : ∀ {lines : List PlacedLine}, (lines.map (·.offset)).Sublist tail →
      (t.moveFrom i lines).toList.splitOnP Byte.isNewline =
        (i :: tail).map (t.relined lines) := by
    intro lines sub
    have plain : ∀ b ∈ ([] : List UInt8), Byte.isNewline b = false := by simp
    have step := splitOnP_moveFrom_rest plain (by omega) ends (beyond sub)
    rw [List.nil_append, List.nil_append] at step
    rw [step, others lines sub, List.map_cons, relined_none fun l member _ => by
      have := (beyond sub l member).2
      omega, line, begins]
  rcases List.sublist_cons_iff.mp listed with skipped | ⟨offsets, split, sub⟩
  · exact copied skipped
  obtain ⟨l, rest, rfl, here, rfl⟩ := List.map_eq_cons_iff.mp split
  cases moved : l.isMoved with
  | false =>
    have same : t.relined (l :: rest) = t.relined rest := funext fun _ => relined_kept moved
    rw [same, ← copied sub, moveFrom, moved, Bool.false_and, if_neg Bool.false_ne_true]
  | true =>
    have plain : ∀ b ∈ List.replicate l.target Byte.space, Byte.isNewline b = false := by
      intro b member
      rw [List.eq_of_mem_replicate member]
      rfl
    have first := t.lineStart_le_firstNonBlank i
    have same : tail.map (t.relined (l :: rest)) = tail.map (t.relined rest) :=
      List.map_congr_left fun k member => relined_other (by have := (later k member).2; omega)
    rw [List.map_cons, same, relined_moved moved here, moveFrom, moved, here, Bool.true_and,
      decide_eq_true (Nat.le_refl i), if_pos rfl, toList_append, toList_append, toList_slice_self,
      List.nil_append, toList_spaces,
      splitOnP_moveFrom_rest plain first (firstNonBlank_le_lineEnd within) (beyond sub),
      others rest sub, body]

/-- The lines of a text with moved lines. -/
theorem splitOnP_moveFrom (begins : t.lineStart i = i) (within : i ≤ t.size)
    (listed : (lines.map (·.offset)).Sublist (t.startsFrom i)) :
    (t.moveFrom i lines).toList.splitOnP Byte.isNewline =
      (t.startsFrom i).map (t.relined lines) := by
  fun_induction startsFrom t i generalizing lines with
  | case1 i more ordered ih =>
    refine splitOnP_moveFrom_line begins within (fun k member => ⟨more, ?_⟩)
      (fun lines sub => ?_) listed
    · exact (mem_startsFrom (lineStart_next more) more k member).1
    · rw [if_pos more]
      exact ih (lineStart_next more) more sub
  | case2 i last =>
    refine splitOnP_moveFrom_line begins within (by simp) (fun lines sub => ?_) listed
    rw [if_neg last, List.map_nil]

theorem lines_moveLines (listed : (lines.map (·.offset)).Sublist (t.startsFrom 0)) :
    (t.moveLines lines).lines = (t.startsFrom 0).map (t.relined lines) :=
  splitOnP_moveFrom t.lineStart_zero (Nat.zero_le _) listed

theorem lines_moveLines_lineIndex (listed : (lines.map (·.offset)).Sublist (t.startsFrom 0))
    (within : i ≤ t.size) :
    (t.moveLines lines).lines[t.lineIndex i]? = some (t.relined lines (t.lineStart i)) := by
  have start := startsFrom_lineIndex t.lineStart_zero (Nat.zero_le _) within
  rw [lineIndex_zero, Nat.sub_zero] at start
  rw [lines_moveLines listed, List.getElem?_map, start, Option.map_some]

theorem unindented_relined (within : i ≤ t.size) :
    unindented (t.relined lines i) = unindented (t.line i) := by
  rw [relined]
  split
  · rw [unindented, List.dropWhile_append_of_pos, ← unindented_line within, unindented,
      List.dropWhile_idempotent]
    intro b member
    rw [List.eq_of_mem_replicate member]
    rfl
  · rfl

theorem line_lineStart (within : i ≤ t.size) : t.line (t.lineStart i) = t.line i := by
  rw [line, line, lineStart_lineStart within,
    lineEnd_congr (t.lineStart_le_size i) within (lineIndex_lineStart within)]

/-- Lines that are not moved leave the text as it is. -/
theorem moveLines_still (still : ∀ l ∈ lines, l.isMoved = false) : t.moveLines lines = t := by
  have whole : ∀ {lines : List PlacedLine}, (∀ l ∈ lines, l.isMoved = false) →
      t.moveFrom 0 lines = t.slice 0 t.size := by
    intro lines still
    induction lines with
    | nil => rfl
    | cons l rest ih =>
      rw [moveFrom, still l List.mem_cons_self, Bool.false_and, if_neg Bool.false_ne_true,
        ih fun l listed => still l (List.mem_cons_of_mem _ listed)]
  rw [moveLines, whole still]
  apply ext_toList
  rw [toList_slice, List.drop_zero, List.take_of_length_le (by simp)]

end Text

namespace Indenter

open Source Indent

variable {ix : Indenter} {lines : Array PlacedLine}

/-- A line that starts inside a comment or a literal is not moved. -/
theorem Placed.still {l : PlacedLine} (placed : ix.Placed l) {i : Nat} (within : i ≤ ix.source.size)
    (here : l.offset = ix.text.lineStart i) (inside : ix.source.OpensInside i) :
    l.isMoved = false := by
  obtain ⟨s, listed, early, reach⟩ := inside
  have first : ix.text.firstNonBlank l.offset = ix.text.firstNonBlank i := by
    rw [here]
    exact Text.firstNonBlank_lineStart within
  have shown := placed.shown
  rw [Text.isBlankLine, decide_eq_false_iff_not, Nat.not_le] at shown
  have bound := ix.text.lineEnd_le_size l.offset
  have upper : ix.text.firstNonBlank l.offset < s.stop := by
    rcases reach with beyond | unclosed
    · rw [first]
      exact beyond
    · obtain ⟨fresh, opened⟩ := (span_fits listed).opened
      rw [Text.opening?_open opened unclosed]
      exact Nat.lt_of_lt_of_le shown bound
  have covers : ix.source.map.spanAt? (ix.text.firstNonBlank l.offset) = some s := by
    refine spanAt?_eq_some_iff.mpr ⟨listed, ?_, upper⟩
    have ordered := ix.text.lineStart_le_firstNonBlank i
    rw [first]
    exact Nat.le_trans (Nat.le_of_lt early) ordered
  have kept := placed.kept (by
    rw [startsInSpan, covers, Option.any_some, decide_eq_true_eq, here]
    exact early)
  rw [PlacedLine.isMoved, placed.current, kept, bne_self_eq_false]

/-- A text and the same text with its lines moved differ in the indentation only. -/
theorem relaid_moveLines (placed : ∀ l ∈ lines, ix.Placed l)
    (listed : (lines.toList.map (·.offset)).Sublist (ix.text.startsFrom 0)) :
    Relaid ix.source (Source.ofText ix.source.settings (ix.text.moveLines lines.toList)) where
  settings := rfl
  bodies := by
    change (ix.text.moveLines lines.toList).lines.map _ = ix.text.lines.map _
    rw [Text.lines_moveLines listed, Text.lines_eq, List.map_map, List.map_map]
    refine List.map_congr_left fun k member => ?_
    exact Text.unindented_relined
      (Text.mem_startsFrom ix.text.lineStart_zero (Nat.zero_le _) k member).2.1
  kept i within inside := by
    change (ix.text.moveLines lines.toList).lines[ix.text.lineIndex i]? =
      ix.text.lines[ix.text.lineIndex i]?
    have bound : i ≤ ix.text.size := within
    rw [Text.lines_moveLines_lineIndex listed bound, Text.lines_lineIndex bound,
      Text.relined_none, Text.line_lineStart bound]
    intro l member moved here
    rw [(placed l (Array.mem_toList_iff.mp member)).still within here inside] at moved
    cases moved

/-- One line is added, or none when the line is blank. -/
theorem placeLine_offsets {start : Nat} {memo memo' : Memo} {placed placed' : Array PlacedLine}
    (ran : (ix.placeLine start memo placed).value = .ok (memo', placed')) :
    ∃ added, placed'.toList = placed.toList ++ added ∧
      (added.map (·.offset)).Sublist [start] := by
  obtain ⟨-, rfl, rfl⟩ | ⟨-, target, -, rfl⟩ := placeLine_cases ran
  · exact ⟨[], by simp, List.nil_sublist _⟩
  · exact ⟨[_], Array.toList_push, List.Sublist.refl _⟩

/-- Lines are placed in order. -/
theorem placeLines_offsets {stop start : Nat} {memo : Memo} {placed lines : Array PlacedLine}
    {events : Array Event}
    (ran : (ix.placeLines stop start memo placed events).value = .ok lines) :
    ∃ added, lines.toList = placed.toList ++ added ∧
      (added.map (·.offset)).Sublist (ix.text.startsFrom start) := by
  fun_induction placeLines ix stop start memo placed events with
  | case1 start memo placed events next cause failed => cases ran
  | case2 start memo placed events next memo' placed' found more _ ih =>
    obtain ⟨first, grown, here⟩ := placeLine_offsets found
    obtain ⟨rest, all, later⟩ := ih ran
    refine ⟨first ++ rest, by rw [all, grown, List.append_assoc], ?_⟩
    rw [List.map_append, Text.startsFrom_more more.2]
    exact here.append later
  | case3 start memo placed events next memo' placed' found more =>
    cases ran
    obtain ⟨first, grown, here⟩ := placeLine_offsets found
    refine ⟨first, grown, here.trans ?_⟩
    rw [Text.startsFrom]
    split
    · exact List.singleton_sublist.mpr List.mem_cons_self
    · exact List.Sublist.refl _

theorem reindentRegion_whole (ix : Indenter) :
    ix.reindentRegion 0 ix.source.size = ix.placeLines ix.source.size 0 [] #[] #[] := by
  have check : ∀ k ≤ ix.source.size, ix.text.isBoundary k = true →
      ix.source.checkOffset k = .ok k := by
    intro k within boundary
    rw [checkOffset_within within]
    exact congrArg _ (Text.floor_eq_self boundary)
  rw [reindentRegion, check 0 (Nat.zero_le _) (isBoundary_zero _),
    check ix.source.size (Nat.le_refl _) (isBoundary_size _)]
  simp only [placeRegion, Nat.zero_max, Text.lineStart_zero]

/-- A region whose lines are placed is within the text. -/
theorem reindentRegion_checked {start stop : Nat}
    (ran : (ix.reindentRegion start stop).value = .ok lines) :
    start ≤ ix.text.size ∧ stop ≤ ix.text.size ∧
      (ix.placeRegion (ix.text.floor start) (ix.text.floor stop)).value = .ok lines := by
  rw [reindentRegion, Source.checkOffset, Source.checkOffset, Text.checkOffset,
    Text.checkOffset] at ran
  by_cases first : ix.source.text.size < start
  · rw [if_pos first] at ran
    cases ran
  · by_cases last : ix.source.text.size < stop
    · rw [if_neg first, if_pos last] at ran
      cases ran
    · rw [if_neg first, if_neg last] at ran
      exact ⟨Nat.le_of_not_lt first, Nat.le_of_not_lt last, ran⟩

theorem reindentRegion_offsets {start stop : Nat}
    (ran : (ix.reindentRegion start stop).value = .ok lines) :
    (lines.toList.map (·.offset)).Sublist (ix.text.startsFrom 0) := by
  obtain ⟨first, last, placed⟩ := reindentRegion_checked ran
  have left := Nat.le_trans (ix.text.floor_le start) first
  obtain ⟨added, all, sub⟩ := placeLines_offsets placed
  rw [all, Array.toList_empty, List.nil_append]
  exact sub.trans (Text.startsFrom_suffix ix.text.lineStart_zero (Nat.zero_le _)
    (ix.text.lineStart_le_size _) (Text.lineStart_lineStart left)).sublist

section Lockstep

variable {other : Source} {i j : Nat} (relaid : Relaid ix.source other)
  (joined : ix.source.text.Joined) (untabbed : ix.source.Untabbed)

/-- The same line in both texts, placed at the same column. -/
structure PlacedPair (src other : Source) (l l' : PlacedLine) : Prop where
  line : l.line = l'.line
  target : l.target = l'.target
  number : src.text.lineIndex l.offset = other.text.lineIndex l'.offset
  within : l'.offset ≤ other.size

theorem PlacedPair.columns {src other : Source} {lines again : List PlacedLine}
    (pairs : List.Forall₂ (PlacedPair src other) lines again) :
    again.map (fun l => (l.line, l.target)) = lines.map (fun l => (l.line, l.target)) := by
  induction pairs with
  | nil => rfl
  | cons pair rest ih => rw [List.map_cons, List.map_cons, ih, pair.line, pair.target]

include relaid in
theorem isBlankLine_eq (left : i ≤ ix.source.size) (right : j ≤ other.size)
    (line : ix.source.text.lineIndex i = other.text.lineIndex j) :
    ix.source.text.isBlankLine (ix.source.text.lineStart i) =
      other.text.isBlankLine (other.text.lineStart j) := by
  have blank : ∀ {t : Text} {k : Nat}, k ≤ t.size →
      t.isBlankLine (t.lineStart k) = decide (t.body k = []) := by
    intro t k within
    have empty : t.body k = [] ↔ t.lineEnd k ≤ t.firstNonBlank k := by
      rw [← List.length_eq_zero_iff, Text.length_body, Nat.sub_eq_zero_iff_le]
    rw [Text.isBlankLine, Text.firstNonBlank_lineStart within,
      Text.lineEnd_congr (t.lineStart_le_size k) within (Text.lineIndex_lineStart within)]
    exact decide_eq_decide.mpr empty.symm
  rw [blank left, blank right, relaid.body left right line]

include relaid joined untabbed

theorem placeLine_concur {memo memo' : Memo} {placed placed' : Array PlacedLine}
    (recalls : Recalls ix.source other memo memo')
    (pairs : List.Forall₂ (PlacedPair ix.source other) placed.toList placed'.toList)
    (left : i ≤ ix.source.size) (right : j ≤ other.size)
    (line : ix.source.text.lineIndex i = other.text.lineIndex j) :
    Concur (fun a b => Recalls ix.source other a.1 b.1 ∧
        List.Forall₂ (PlacedPair ix.source other) a.2.toList b.2.toList)
      (ix.placeLine (ix.source.text.lineStart i) memo placed).value
      ((ix.withSource other).placeLine (other.text.lineStart j) memo' placed').value := by
  have results := runLine_concur relaid joined untabbed recalls left right line
  have first := Text.lineIndex_lineStart (t := ix.source.text) left
  have second := Text.lineIndex_lineStart (t := other.text) right
  rw [placeLine, placeLine, text, withSource_text, isBlankLine_eq relaid left right line]
  split
  · exact .ok ⟨recalls, pairs⟩
  · rw [Logged.value_bind, Logged.value_bind]
    generalize (ix.runLine _ memo).value = x at results
    generalize ((ix.withSource other).runLine _ memo').value = y at results
    cases results with
    | error => exact .error
    | @ok a b same =>
      obtain ⟨target, memos⟩ := same
      refine .ok ⟨memos, ?_⟩
      simp only [Array.toList_push]
      refine List.rel_append pairs (.cons ⟨?_, target, ?_, ?_⟩ .nil)
      · simp only [Source.lineMap_index, withSource_source, first, second, line]
      · rw [first, second, line]
      · exact other.text.lineStart_le_size j

theorem placeLines_concur {memo memo' : Memo} {placed placed' : Array PlacedLine}
    {events events' : Array Event} (recalls : Recalls ix.source other memo memo')
    (pairs : List.Forall₂ (PlacedPair ix.source other) placed.toList placed'.toList)
    (left : i ≤ ix.source.size) (right : j ≤ other.size)
    (line : ix.source.text.lineIndex i = other.text.lineIndex j) :
    Concur (fun a b => List.Forall₂ (PlacedPair ix.source other) a.toList b.toList)
      (ix.placeLines ix.source.size (ix.source.text.lineStart i) memo placed events).value
      ((ix.withSource other).placeLines other.size (other.text.lineStart j) memo' placed'
        events').value := by
  induction rest : ix.source.size - ix.source.text.lineEnd i using Nat.strongRecOn
    generalizing i j memo memo' placed placed' events events' with
  | ind length ih =>
    have results := placeLine_concur relaid joined untabbed recalls pairs left right line
    have start : ∀ {t : Text} {k : Nat}, k ≤ t.size → t.lineEnd (t.lineStart k) = t.lineEnd k :=
      fun within => Text.lineEnd_congr (Text.lineStart_le_size _ _) within
        (Text.lineIndex_lineStart within)
    have size : ∀ u : Source, u.text.size = u.size := fun _ => rfl
    have ends := relaid.last left right line
    rw [placeLines, placeLines]
    simp only [text, withSource_source, start left, start right, size]
    generalize (ix.placeLine _ memo placed).value = x at results
    generalize ((ix.withSource other).placeLine _ memo' placed').value = y at results
    cases results with
    | error => exact .error
    | @ok a b same =>
      obtain ⟨memos, lines⟩ := same
      simp only
      by_cases more : ix.source.text.lineEnd i < ix.source.size
      · have onward : other.text.lineEnd j < other.size :=
          Nat.lt_of_le_of_ne (other.text.lineEnd_le_size j) fun last =>
            absurd (ends.mpr last) (Nat.ne_of_lt more)
        have shorter : ix.source.size - ix.source.text.lineEnd (ix.source.text.lineEnd i + 1) <
            length := by
          have := Text.le_lineEnd_self (t := ix.source.text) (i := ix.source.text.lineEnd i + 1) more
          omega
        rw [dif_pos ⟨more, more⟩, dif_pos ⟨onward, onward⟩, ← Text.lineStart_next more,
          ← Text.lineStart_next onward]
        exact ih _ shorter memos lines more onward
          (by rw [Text.lineIndex_next left more, Text.lineIndex_next right onward, line]) rfl
      · have final : ¬ other.text.lineEnd j < other.size := by
          have last := ends.mp (Nat.le_antisymm (ix.source.text.lineEnd_le_size i)
            (Nat.le_of_not_lt more))
          omega
        rw [dif_neg fun both => more both.1, dif_neg fun both => final both.1]
        exact .ok lines

/-- Reindenting both texts places the same lines at the same columns, or fails for both. -/
theorem reindentRegion_concur :
    Concur (fun a b => List.Forall₂ (PlacedPair ix.source other) a.toList b.toList)
      (ix.reindentRegion 0 ix.source.size).value
      ((ix.withSource other).reindentRegion 0 other.size).value := by
  have whole := reindentRegion_whole (ix.withSource other)
  rw [withSource_source] at whole
  rw [reindentRegion_whole, whole]
  rw [← ix.source.text.lineStart_zero, ← other.text.lineStart_zero]
  exact placeLines_concur relaid joined untabbed (fun _ _ _ _ _ => rfl) .nil (Nat.zero_le _)
    (Nat.zero_le _) ((ix.source.text.lineIndex_zero).trans (other.text.lineIndex_zero).symm)

end Lockstep

/-- The line of a placed line in the moved text. -/
theorem relined_placed {l : PlacedLine} (member : l ∈ lines)
    (listed : (lines.toList.map (·.offset)).Sublist (ix.text.startsFrom 0)) :
    ix.text.relined lines.toList l.offset =
      if l.isMoved then List.replicate l.target Byte.space ++ ix.text.body l.offset
      else ix.text.line l.offset := by
  have distinct : (lines.toList.map (·.offset)).Nodup :=
    ((Text.startsFrom_ordered ix.text.lineStart_zero (Nat.zero_le _)).imp Nat.ne_of_lt).sublist listed
  have only : ∀ m ∈ lines.toList, m.offset = l.offset → m = l := fun m present same =>
    List.inj_on_of_nodup_map distinct present (Array.mem_toList_iff.mpr member) same
  split
  · rename_i moved
    rw [Text.relined]
    cases found : lines.toList.find? fun m => m.isMoved && m.offset = l.offset with
    | none =>
      have absent := List.find?_eq_none.mp found l (Array.mem_toList_iff.mpr member)
      simp [moved] at absent
    | some m =>
      have holds := List.find?_some found
      simp only [Bool.and_eq_true, decide_eq_true_eq] at holds
      rw [only m (List.mem_of_find?_eq_some found) holds.2]
  · rename_i kept
    refine Text.relined_none fun m present moved same => kept ?_
    rw [← only m present same, moved]

/-- A placed line stands at its column in the moved text. -/
theorem indentation_moveLines (joined : ix.text.Joined) {l : PlacedLine} (member : l ∈ lines)
    (placed : ∀ l ∈ lines, ix.Placed l)
    (listed : (lines.toList.map (·.offset)).Sublist (ix.text.startsFrom 0)) {k : Nat}
    (within : k ≤ (ix.text.moveLines lines.toList).size)
    (number : ix.text.lineIndex l.offset = (ix.text.moveLines lines.toList).lineIndex k) :
    (ix.text.moveLines lines.toList).indentation k = l.target := by
  have whole : (ix.text.moveLines lines.toList).Joined := (relaid_moveLines placed listed).joined joined
  have bound := (placed l member).within
  have start : ix.text.lineStart l.offset = l.offset :=
    Text.lineStart_eq_self bound (placed l member).begins
  have line : (ix.text.moveLines lines.toList).line k = ix.text.relined lines.toList l.offset := by
    have here := Text.lines_lineIndex within
    rw [← number, Text.lines_moveLines_lineIndex listed bound, start] at here
    exact (Option.some.inj here).symm
  rw [Text.indentation_line whole within, line, relined_placed member listed]
  cases moved : l.isMoved with
  | true =>
    have body : (ix.text.body l.offset).takeWhile Byte.isIndent = [] :=
      Text.takeWhile_body bound
    rw [if_pos rfl, List.takeWhile_append_of_pos, body, List.append_nil, Text.foldl_advance]
    · rw [List.countP_replicate, Nat.zero_add]
      rfl
    · intro tab
      cases List.eq_of_mem_replicate tab
    · intro b present
      rw [List.eq_of_mem_replicate present]
      rfl
  | false =>
    have same : l.current = l.target := by simpa [PlacedLine.isMoved] using moved
    rw [if_neg Bool.false_ne_true, ← Text.indentation_line joined bound, ← (placed l member).current,
      same]

/-- Reindenting is idempotent. In a text without tabs behind the first visible characters of its
lines, reindenting the whole of the moved text succeeds again, places the same lines at the same
columns and moves none of them, so that it gives the moved text itself. -/
theorem reindent_idempotent (lexical : LexicalSettings) (style : IndentSettings)
    (grammar : Grammar String) (s : String) (lines : Array PlacedLine) :
    let src := Source.ofText lexical (Text.ofString s)
    let moved := Source.ofText lexical (src.text.moveLines lines.toList)
    src.Untabbed → (reindentRegion ⟨src, style, grammar⟩ 0 src.size).value = .ok lines →
    ∃ again, (reindentRegion ⟨moved, style, grammar⟩ 0 moved.size).value = .ok again ∧
      again.toList.map (fun l => (l.line, l.target)) =
        lines.toList.map (fun l => (l.line, l.target)) ∧
      (∀ l ∈ again, l.isMoved = false) ∧ moved.text.moveLines again.toList = moved.text := by
  intro src moved untabbed ran
  have joined : src.text.Joined := Text.joined_ofString s
  have placed := reindentRegion_placed ran
  have listed := reindentRegion_offsets ran
  have relaid : Relaid src moved := relaid_moveLines placed listed
  have alike : Relaid (Indenter.mk src style grammar).source moved := relaid
  have both := reindentRegion_concur alike joined untabbed
  rw [ran] at both
  cases result : (reindentRegion ⟨moved, style, grammar⟩ 0 moved.size).value with
  | error cause =>
    have failed : Concur _ (.ok lines) (.error cause) := result ▸ both
    cases failed
  | ok again =>
    have pairs : List.Forall₂ (PlacedPair src moved) lines.toList again.toList := by
      have found : Concur _ (.ok lines) (.ok again) := result ▸ both
      cases found with
      | ok pairs => exact pairs
    have still : ∀ l ∈ again, l.isMoved = false := by
      intro l member
      obtain ⟨first, present, pair⟩ := forall₂_mem pairs (Array.mem_toList_iff.mpr member)
      have whole : (Indenter.mk src style grammar).text.Joined := joined
      have column := indentation_moveLines whole (Array.mem_toList_iff.mp present) placed listed
        pair.within pair.number
      rw [PlacedLine.isMoved, (reindentRegion_placed result l member).current, ← pair.target,
        ← column]
      exact bne_self_eq_false _
    refine ⟨again, rfl, ?_, still, Text.moveLines_still fun l listed =>
      still l (Array.mem_toList_iff.mp listed)⟩
    exact PlacedPair.columns pairs

/-- The second time no line of the group is moved. -/
theorem reindent_idempotent_group :
    let moved := Source.ofText {} (group.text.moveLines groupLines.toList)
    Grammar.standard = .ok group.grammar ∧ group.source.Untabbed ∧
      (group.reindentRegion 0 group.source.size).value = .ok groupLines ∧
      ∃ again, (reindentRegion ⟨moved, group.settings, group.grammar⟩ 0 moved.size).value =
          .ok again ∧
        again.toList.map (fun l => (l.line, l.target)) =
          groupLines.toList.map (fun l => (l.line, l.target)) ∧
        (∀ l ∈ again, l.isMoved = false) ∧ moved.text.moveLines again.toList = moved.text := by
  have untabbed : group.source.Untabbed := by
    rw [Source.Untabbed]
    decide +kernel
  have ran : (group.reindentRegion 0 group.source.size).value = .ok groupLines := by decide +kernel
  exact ⟨Grammar.standard_eq, untabbed, ran, reindent_idempotent {} group.settings group.grammar
    "do;\n* c\n;\nx = 'a\n b';\nend;" groupLines untabbed ran⟩

end Indenter
end SasLayout
