import SasLayout.Editor
import SasLayout.Proofs.Footing

set_option autoImplicit false

/-!
Columns past the largest number. An indenter computes columns of any size and reports each one as
it is computed; an editor stops at the first report of a column that passes the largest number.
The column of a line is that of another line and a shift, so no column on the way to it is larger.
Hence an editor gives the column of the indenter when that is a number, and fails otherwise.
-/
namespace SasLayout

open Indent

namespace Indenter

variable (ix : Indenter)

/-- The reports of columns that were computed one after the other, the last of them first. -/
def reports (computed : Memo) : Array Event :=
  (computed.reverse.map fun entry => ix.columnEvent entry.1 entry.2).toArray

theorem reports_append (later earlier : Memo) :
    ix.reports (later ++ earlier) = ix.reports earlier ++ ix.reports later := by
  simp [reports]

/-- What a run from the columns in `memo` can come to. One that fails has computed nothing; one that
gives a column has added the columns that it computed and reported, none larger than its result. -/
inductive Reported (memo : Memo) : Logged (Except IndentError (Nat × Memo)) → Prop
  | failed (cause : IndentError) : Reported memo ⟨.error cause, #[]⟩
  | found (column : Nat) (computed : Memo) (bounded : ∀ entry ∈ computed, entry.2 ≤ column) :
    Reported memo ⟨.ok (column, computed ++ memo), ix.reports computed⟩

/-- Every run of the computation comes to that. -/
def Reporting (x : Indenting Nat) : Prop :=
  ∀ memo, ix.Reported memo (x memo)

namespace Reporting

variable {ix : Indenter} {α : Type} {x : Indenting Nat}

theorem pure (column : Nat) : ix.Reporting (Pure.pure column) := fun _ =>
  .found column [] (by simp)

theorem shift (reporting : ix.Reporting x) (shift : Nat) :
    ix.Reporting (do return (← x) + shift) := by
  intro memo
  have reported := reporting memo
  change ix.Reported memo (Logged.bind (x memo) _)
  generalize x memo = run at reported
  cases reported with
  | failed cause => exact .failed cause
  | found column computed bounded =>
    change ix.Reported memo
      ⟨.ok (column + shift, computed ++ memo), ix.reports computed ++ #[]⟩
    rw [Array.append_empty]
    exact .found _ _ fun entry listed => Nat.le_add_right_of_le (bounded entry listed)

theorem except (result : Except IndentError α) {f : α → Indenting Nat}
    (reporting : ∀ a, ix.Reporting (f a)) : ix.Reporting (liftM result >>= f) := by
  intro memo
  cases result with
  | error cause => exact .failed cause
  | ok a =>
    have reported := reporting a memo
    change ix.Reported memo ⟨(f a memo).value, #[] ++ (f a memo).events⟩
    rwa [Array.empty_append]

theorem get {f : Memo → Indenting Nat} (reporting : ∀ memo, ix.Reporting (f memo)) :
    ix.Reporting (MonadState.get >>= f) := by
  intro memo
  have reported := reporting memo memo
  change ix.Reported memo ⟨(f memo memo).value, #[] ++ (f memo memo).events⟩
  rwa [Array.empty_append]

/-- A column that is reported and recorded when it has been computed. -/
theorem settle (reporting : ix.Reporting x) (lineStart : Nat) :
    ix.Reporting (do
      let column ← x
      Logged.log (ix.columnEvent lineStart column)
      modify ((lineStart, column) :: ·)
      return column) := by
  intro memo
  have reported := reporting memo
  change ix.Reported memo (Logged.bind (x memo) _)
  generalize x memo = run at reported
  cases reported with
  | failed cause => exact .failed cause
  | found column computed bounded =>
    have once : ix.reports ((lineStart, column) :: computed) =
        ix.reports computed ++ #[ix.columnEvent lineStart column] := by
      simp [reports]
    change ix.Reported memo ⟨.ok (column, (lineStart, column) :: computed ++ memo),
      ix.reports computed ++ #[ix.columnEvent lineStart column]⟩
    rw [← once]
    exact .found _ _ (List.forall_mem_cons.mpr ⟨Nat.le_refl _, bounded⟩)

end Reporting

section

variable {ix : Indenter} {columnOfLine : Nat → Indenting Nat}
  (lines : ∀ start, ix.Reporting (columnOfLine start))

include lines

theorem reporting_place (anchor : Extent) (action : Action) :
    ix.Reporting (ix.place columnOfLine anchor action) := by
  cases action with
  | basic units => exact (lines _).shift _
  | continuation => exact (lines _).shift _
  | inherit => exact lines _
  | alignAnchor => exact (lines _).shift _
  | alignNext =>
    rw [place]
    split
    · split <;> exact (lines _).shift _
    · exact (lines _).shift _

theorem reporting_continuation (pos : Nat) : ix.Reporting (ix.continuation columnOfLine pos) := by
  rw [continuation]
  exact reporting_place lines _ _

theorem reporting_afterSemicolon (separator : Nat) :
    ix.Reporting (ix.afterSemicolon columnOfLine separator) := by
  refine .get fun memo => .except _ fun context => ?_
  cases context with
  | sibling column => exact .pure column
  | outermost => exact .pure 0
  | inside pos token => exact reporting_place lines _ _

theorem reporting_afterToken (previous : Token) :
    ix.Reporting (ix.afterToken columnOfLine previous) := by
  rw [afterToken]
  split
  · exact reporting_afterSemicolon lines _
  split
  · refine .except _ fun around => ?_
    cases around with
    | none => exact reporting_continuation lines _
    | some bracket => exact reporting_place lines _ _
  · split
    · exact reporting_continuation lines _
    · exact reporting_continuation lines _
    · exact reporting_place lines _ _

theorem reporting_compute (lineStart : Nat) :
    ix.Reporting (ix.compute columnOfLine lineStart) := by
  rw [compute]
  split
  · exact .pure _
  split
  · exact .pure 0
  split
  · exact reporting_afterToken lines _
  · refine .except _ fun anchored => ?_
    cases anchored with
    | none => exact reporting_afterToken lines _
    | some anchor => exact reporting_place lines _ _

end

theorem reporting_lineIndent (ix : Indenter) (room lineStart : Nat) :
    ix.Reporting (ix.lineIndent room lineStart) := by
  induction room generalizing lineStart with
  | zero =>
    refine .get fun memo => ?_
    split
    · exact .pure _
    · exact fun _ => .failed _
  | succ room ih =>
    refine .get fun memo => ?_
    split
    · exact .pure _
    · exact (reporting_compute ih lineStart).settle lineStart

/-- The column of a line is known once it has been found. -/
theorem mem_of_lineIndent {ix : Indenter} {room lineStart column : Nat} {memo memo' : Memo}
    (ran : outcome (ix.lineIndent room lineStart) memo = .ok (column, memo')) :
    (lineStart, column) ∈ memo' := by
  cases known : memo.lookup lineStart with
  | some value =>
    rw [outcome_lineIndent_known _ _ known] at ran
    cases ran
    exact mem_of_lookup known
  | none =>
    cases room with
    | zero =>
      rw [lineIndent, outcome_bind] at ran
      change outcome _ memo = _ at ran
      simp only [known] at ran
      cases ran
    | succ room =>
      rw [outcome_lineIndent _ _ known] at ran
      cases computed : outcome (ix.compute (ix.lineIndent room) lineStart) memo with
      | error cause =>
        rw [computed] at ran
        cases ran
      | ok result =>
        rw [computed] at ran
        cases ran
        exact List.mem_cons_self

/-- What is known when the lines up to some place of a region have been placed: the columns computed
are those reported, none is larger than all that the lines are given, and each line is given one of
them. -/
structure RegionReported (ix : Indenter) (memo : Memo) (placed : Array PlacedLine)
    (events : Array Event) : Prop where
  reported : events = ix.reports memo
  bounded : ∀ entry ∈ memo, ∃ l ∈ placed, entry.2 ≤ l.target
  known : ∀ l ∈ placed, ∃ entry ∈ memo, entry.2 = l.target

section

variable {ix : Indenter} {memo : Memo} {placed : Array PlacedLine} {events : Array Event}

theorem RegionReported.push (region : ix.RegionReported memo placed events) {computed : Memo}
    {start : Nat} (l : PlacedLine) (bounded : ∀ entry ∈ computed, entry.2 ≤ l.target)
    (member : (start, l.target) ∈ computed ++ memo) :
    ix.RegionReported (computed ++ memo) (placed.push l) (events ++ ix.reports computed) where
  reported := by rw [region.reported, reports_append]
  bounded := by
    intro entry listed
    rcases List.mem_append.mp listed with new | old
    · exact ⟨l, Array.mem_push_self, bounded entry new⟩
    · obtain ⟨other, inside, below⟩ := region.bounded entry old
      exact ⟨other, Array.mem_push_of_mem _ inside, below⟩
  known := by
    intro other inside
    rcases Array.mem_push.mp inside with old | rfl
    · obtain ⟨entry, listed, same⟩ := region.known other old
      exact ⟨entry, List.mem_append_right _ listed, same⟩
    · exact ⟨_, member, rfl⟩

theorem placeLine_reported (region : ix.RegionReported memo placed events) (start : Nat) :
    (∃ cause, ix.placeLine start memo placed = ⟨.error cause, #[]⟩) ∨
      ∃ memo' placed' more, ix.placeLine start memo placed = ⟨.ok (memo', placed'), more⟩ ∧
        ix.RegionReported memo' placed' (events ++ more) := by
  rw [placeLine]
  split
  · exact Or.inr ⟨memo, placed, #[], rfl, by rwa [Array.append_empty]⟩
  · have reported : ix.Reported memo (ix.runLine start memo) :=
      ix.reporting_lineIndent _ start memo
    have member : ∀ column memo', (ix.runLine start memo).value = .ok (column, memo') →
        (start, column) ∈ memo' := fun _ _ ran => mem_of_lineIndent ran
    change (∃ cause, Logged.bind (ix.runLine start memo) _ = _) ∨
      ∃ memo' placed' more, Logged.bind (ix.runLine start memo) _ = _ ∧ _
    generalize ix.runLine start memo = run at reported member
    cases reported with
    | failed cause => exact Or.inl ⟨cause, rfl⟩
    | found column computed bounded =>
      have line := region.push
        ⟨ix.source.lineMap.index start + 1, start, ix.text.indentation start, column⟩ bounded
        (member column _ rfl)
      refine Or.inr ⟨_, _, ix.reports computed ++ #[], rfl, ?_⟩
      rwa [Array.append_empty]

theorem placeLines_reported (region : ix.RegionReported memo placed events) (stop start : Nat) :
    ∃ computed, (ix.placeLines stop start memo placed events).events = ix.reports computed ∧
      ∀ placed', (ix.placeLines stop start memo placed events).value = .ok placed' →
        ix.RegionReported computed placed' (ix.reports computed) := by
  fun_induction placeLines ix stop start memo placed events with
  | case1 start memo placed events next cause failed =>
    rcases placeLine_reported region start with ⟨other, ran⟩ | ⟨memo', placed', more, ran, -⟩
    · refine ⟨memo, ?_, fun _ impossible => by cases impossible⟩
      simp only [next, ran, Array.append_empty, region.reported]
    · simp only [next, ran] at failed
      cases failed
  | case2 start memo placed events next memo' placed' found more longer ih =>
    rcases placeLine_reported region start with ⟨other, ran⟩ | ⟨_, _, more, ran, kept⟩
    · simp only [next, ran] at found
      cases found
    · simp only [next, ran] at found ih ⊢
      cases found
      exact ih kept
  | case3 start memo placed events next memo' placed' found last =>
    rcases placeLine_reported region start with ⟨other, ran⟩ | ⟨_, _, more, ran, kept⟩
    · simp only [next, ran] at found
      cases found
    · simp only [next, ran] at found ⊢
      cases found
      refine ⟨memo', kept.reported, fun _ same => ?_⟩
      cases same
      exact kept.reported ▸ kept

end

end Indenter

namespace Editor

variable {ix : Indenter} {α : Type} {found : Logged (Except IndentError α)} {computed : Memo}

/-- A report of a column is read back. -/
theorem overflow?_columnEvent (ix : Indenter) (lineStart column : Nat) :
    overflow? (ix.columnEvent lineStart column) =
      if Limits.number < column then some column else none := by
  simp [overflow?, Indenter.columnEvent, Event.attach, Dict.find?_insert, Read.digits?_toDigits,
    Option.filter_some]

theorem withinNumbers_small (reported : found.events = ix.reports computed)
    (small : ∀ entry ∈ computed, entry.2 ≤ Limits.number) : withinNumbers found = found := by
  have none : found.events.findSome? overflow? = none := by
    rw [reported, Indenter.reports, List.findSome?_toArray, List.findSome?_eq_none_iff]
    intro e listed
    obtain ⟨entry, member, rfl⟩ := List.mem_map.mp listed
    rw [overflow?_columnEvent,
      if_neg (Nat.not_lt.mpr (small entry (List.mem_reverse.mp member)))]
  rw [withinNumbers, none]

theorem withinNumbers_large (reported : found.events = ix.reports computed)
    {entry : Nat × Nat} (listed : entry ∈ computed) (large : Limits.number < entry.2) :
    ∃ other ∈ computed, Limits.number < other.2 ∧
      (withinNumbers found).value = .error (.overflow other.2) := by
  cases first : found.events.findSome? overflow? with
  | none =>
    rw [reported, Indenter.reports, List.findSome?_toArray, List.findSome?_eq_none_iff] at first
    have missed := first _ (List.mem_map_of_mem (List.mem_reverse.mpr listed))
    rw [overflow?_columnEvent, if_pos large] at missed
    cases missed
  | some column =>
    have read := first
    rw [reported, Indenter.reports, List.findSome?_toArray] at read
    obtain ⟨e, member, found⟩ := List.exists_of_findSome?_eq_some read
    obtain ⟨other, inside, rfl⟩ := List.mem_map.mp member
    rw [overflow?_columnEvent] at found
    split at found
    · rename_i past
      cases found
      exact ⟨other, List.mem_reverse.mp inside, past, by rw [withinNumbers, first]⟩
    · cases found

/-- What an editor answers where an indenter gives `result` with the columns `columns`: the same if
the columns are numbers, and otherwise that a column passes the largest number. -/
def Answers (columns : List Nat) (result : α) (answer : Except IndentError α) : Prop :=
  ((∀ c ∈ columns, c ≤ Limits.number) → answer = .ok result) ∧
    ((∃ c ∈ columns, Limits.number < c) → ∃ first, Limits.number < first ∧
      (∃ c ∈ columns, first ≤ c) ∧ answer = .error (.overflow first))

theorem Answers.single {column : Nat} {answer : Except IndentError Nat}
    (answers : Answers [column] column answer) :
    (column ≤ Limits.number → answer = .ok column) ∧
      (Limits.number < column → ∃ first, Limits.number < first ∧ first ≤ column ∧
        answer = .error (.overflow first)) := by
  simpa [Answers] using answers

theorem answers_of_reported {columns : List Nat} {result : α}
    (reported : found.events = ix.reports computed) (value : found.value = .ok result)
    (bounded : ∀ entry ∈ computed, ∃ c ∈ columns, entry.2 ≤ c)
    (known : ∀ c ∈ columns, ∃ entry ∈ computed, entry.2 = c) :
    Answers columns result (withinNumbers found).value := by
  constructor
  · intro small
    rw [withinNumbers_small reported fun entry listed => ?_, value]
    obtain ⟨c, inside, below⟩ := bounded entry listed
    exact Nat.le_trans below (small c inside)
  · rintro ⟨c, inside, large⟩
    obtain ⟨entry, listed, rfl⟩ := known c inside
    obtain ⟨other, member, past, stopped⟩ := withinNumbers_large reported listed large
    exact ⟨other.2, past, bounded other member, stopped⟩

theorem withinNumbers_silent (silent : found.events = #[]) : withinNumbers found = found := by
  rw [withinNumbers, silent]
  rfl

/-- The column for an offset, in an editor and without bounds. -/
theorem withinNumbers_indentFor (ix : Indenter) (offset : Nat) :
    (∀ cause, (ix.indentFor offset).value = .error cause →
      (withinNumbers (ix.indentFor offset)).value = .error cause) ∧
    ∀ column, (ix.indentFor offset).value = .ok column →
      Answers [column] column (withinNumbers (ix.indentFor offset)).value := by
  rw [Indenter.indentFor]
  split
  · refine ⟨fun _ failed => ?_, fun _ found => by cases found⟩
    rw [withinNumbers_silent rfl, failed]
  · rename_i start _
    have reported : ix.Reported [] (ix.runLine (ix.text.lineStart start) []) :=
      ix.reporting_lineIndent _ _ []
    have member : ∀ column memo, (ix.runLine (ix.text.lineStart start) []).value =
        .ok (column, memo) → (ix.text.lineStart start, column) ∈ memo :=
      fun _ _ ran => Indenter.mem_of_lineIndent ran
    generalize ix.runLine (ix.text.lineStart start) [] = run at reported member
    cases reported with
    | failed cause =>
      refine ⟨fun _ failed => ?_, fun _ found => by cases found⟩
      rw [withinNumbers_silent (Logged.events_map _ _), failed]
    | found column computed bounded =>
      refine ⟨fun _ failed => (by cases failed), fun _ same => ?_⟩
      cases same
      refine answers_of_reported (Logged.events_map _ _) rfl (fun entry listed => ?_) ?_
      · exact ⟨column, List.mem_cons_self, bounded entry listed⟩
      · intro c inside
        rw [List.mem_singleton.mp inside]
        have own := member column _ rfl
        rw [List.append_nil] at own
        exact ⟨_, own, rfl⟩

theorem withinNumbers_reindentRegion (ix : Indenter) (start stop : Nat) (placed : Array PlacedLine)
    (ran : (ix.reindentRegion start stop).value = .ok placed) :
    Answers (placed.toList.map (·.target)) placed
      (withinNumbers (ix.reindentRegion start stop)).value := by
  rw [Indenter.reindentRegion] at ran ⊢
  split at ran
  · cases ran
  · cases ran
  · rename_i first last _ _
    have nothing : ix.RegionReported [] #[] #[] := ⟨rfl, by simp, by simp⟩
    obtain ⟨computed, reported, region⟩ :=
      Indenter.placeLines_reported nothing (max first last) (ix.text.lineStart first)
    have whole := region placed ran
    refine answers_of_reported reported ran (fun entry listed => ?_) fun c inside => ?_
    · obtain ⟨l, member, below⟩ := whole.bounded entry listed
      exact ⟨l.target, List.mem_map_of_mem member.val, below⟩
    · obtain ⟨l, member, rfl⟩ := List.mem_map.mp inside
      exact whole.known l ⟨member⟩

section

variable {ed : Editor} {g : Grammar String} (built : Grammar.standard = .ok g)
  (current : ed.peek.text = ed.text)

include built in
theorem grammar_value : (grammar.run ed).value = (.ok g, { ed with grammarKnown := true }) := by
  rw [grammar, built]
  cases ed with
  | mk lexical scanning indentation text scanned grammarKnown => cases grammarKnown <;> rfl

include built current

theorem column_value (offset : Nat) :
    ((column offset).run ed).value.1 =
      (withinNumbers (Indenter.indentFor ⟨ed.peek, ed.indentation, g⟩ offset)).value := by
  have checked : ed.peek.checkOffset offset = ed.text.checkOffset offset :=
    congrArg (Text.checkOffset · offset) current
  cases result : ed.text.checkOffset offset with
  | error cause =>
    rw [Indenter.indentFor, checked, result, withinNumbers_silent rfl]
    simp [column, result]
  | ok start =>
    simp only [column, StateT.run_bind, StateT.run_get, pure_bind, result, Logged.value_bind,
      grammar_value built, source_value]
    rfl

theorem indentFor_value (offset : Nat) :
    ((indentFor offset).run ed).value.1 =
      (withinNumbers (Indenter.indentFor ⟨ed.peek, ed.indentation, g⟩ offset)).value := by
  rw [← column_value built current, indentFor, StateT.run_bind, Logged.value_bind]
  split <;> rfl

/-- An editor answers with the column of the indenter when that is a number. -/
theorem indentFor_answers {offset column : Nat}
    (found : (Indenter.indentFor ⟨ed.peek, ed.indentation, g⟩ offset).value = .ok column) :
    Answers [column] column ((indentFor offset).run ed).value.1 := by
  rw [indentFor_value built current]
  exact (withinNumbers_indentFor _ offset).2 column found

theorem columns_value (start stop : Nat) :
    ((columns start stop).run ed).value.1 =
      (withinNumbers (Indenter.reindentRegion ⟨ed.peek, ed.indentation, g⟩ start stop)).value := by
  have checked (offset : Nat) : ed.peek.checkOffset offset = ed.text.checkOffset offset :=
    congrArg (Text.checkOffset · offset) current
  rw [Indenter.reindentRegion]
  simp only [checked]
  cases first : ed.text.checkOffset start with
  | error cause =>
    rw [withinNumbers_silent rfl]
    simp [columns, first]
  | ok start' =>
    cases last : ed.text.checkOffset stop with
    | error cause =>
      rw [withinNumbers_silent rfl]
      simp [columns, first, last]
    | ok stop' =>
      simp only [columns, StateT.run_bind, StateT.run_get, pure_bind, first, last,
        Logged.value_bind, grammar_value built]
      split <;> rfl

theorem reindent_value (start stop : Nat) :
    ((reindent start stop).run ed).value.1 =
      (withinNumbers (Indenter.reindentRegion ⟨ed.peek, ed.indentation, g⟩ start stop)).value := by
  rw [← columns_value built current, reindent, StateT.run_bind, Logged.value_bind]
  split <;> rfl

/-- An editor reindents a region as the indenter does when the columns of its lines are numbers. -/
theorem reindent_answers {start stop : Nat} {placed : Array PlacedLine}
    (ran : (Indenter.reindentRegion ⟨ed.peek, ed.indentation, g⟩ start stop).value = .ok placed) :
    Answers (placed.toList.map (·.target)) placed ((reindent start stop).run ed).value.1 := by
  rw [reindent_value built current]
  exact withinNumbers_reindentRegion _ start stop placed ran

end

end Editor
end SasLayout
