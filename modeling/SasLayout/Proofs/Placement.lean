import SasLayout.Proofs.MovedLines
import SasLayout.Proofs.StandardLevels

set_option autoImplicit false

/-!
The lines that reindenting a region places. A line that starts inside a comment or a literal keeps
its column, also when the column comes from those computed before; so every line that is moved may
be moved, and the moved text has the tokens of the text.
-/
namespace SasLayout

namespace Indent

variable {α β : Type} {inv : Memo → Prop}

/-- The result of a computation that starts with the columns in `memo`. -/
def outcome (x : Indenting α) (memo : Memo) : Except IndentError (α × Memo) :=
  (x.run memo).run.value

theorem outcome_except (result : Except IndentError α) (memo : Memo) :
    outcome (result : Except IndentError α) memo = result.map (·, memo) := by
  cases result <;> rfl

theorem outcome_bind (x : Indenting α) (f : α → Indenting β) (memo : Memo) :
    outcome (x >>= f) memo = (outcome x memo).bind fun (a, memo) => outcome (f a) memo := by
  rw [outcome, StateT.run_bind, ExceptT.run_bind, Logged.value_bind, outcome]
  cases (x.run memo).run.value <;> rfl

/-- From columns with `inv`, a computation that gives a result leaves columns with `inv`, and `post`
holds of the result. -/
def Ensures (inv : Memo → Prop) (post : α → Prop) (x : Indenting α) : Prop :=
  ∀ memo a memo', inv memo → outcome x memo = .ok (a, memo') → inv memo' ∧ post a

/-- Whatever the result is, the columns keep `inv`. -/
abbrev Keeps (inv : Memo → Prop) (x : Indenting α) : Prop :=
  Ensures inv (fun _ => True) x

theorem Ensures.pure {post : α → Prop} {a : α} (holds : post a) :
    Ensures inv post (Pure.pure a) := by
  intro memo b memo' held ran
  cases ran
  exact ⟨held, holds⟩

theorem Ensures.bind {x : Indenting α} {f : α → Indenting β} {mid : α → Prop} {post : β → Prop}
    (first : Ensures inv mid x) (later : ∀ a, mid a → Ensures inv post (f a)) :
    Ensures inv post (x >>= f) := by
  intro memo b memo' held ran
  rw [outcome_bind] at ran
  cases result : outcome x memo with
  | error cause =>
    rw [result] at ran
    cases ran
  | ok pair =>
    rw [result] at ran
    obtain ⟨kept, holds⟩ := first memo pair.1 pair.2 held result
    exact later pair.1 holds pair.2 b memo' kept ran

theorem Ensures.get : Ensures inv inv (MonadState.get : Indenting Memo) := by
  intro memo b memo' held ran
  cases ran
  exact ⟨held, held⟩

theorem Ensures.weaken {x : Indenting α} {mid post : α → Prop} (first : Ensures inv mid x)
    (implies : ∀ a, mid a → post a) : Ensures inv post x := by
  intro memo a memo' held ran
  obtain ⟨kept, holds⟩ := first memo a memo' held ran
  exact ⟨kept, implies a holds⟩

theorem Ensures.throw {post : α → Prop} (cause : IndentError) :
    Ensures inv post (MonadExcept.throw cause : Indenting α) := by
  intro memo a memo' held ran
  cases ran

theorem Keeps.update {f : Memo → Memo} (keeps : ∀ memo, inv memo → inv (f memo)) :
    Keeps inv (modify f : Indenting PUnit) := by
  intro memo a memo' held ran
  cases ran
  exact ⟨keeps memo held, trivial⟩

theorem Keeps.log (e : Event) : Keeps inv (Logged.log e : Logged Unit) := by
  intro memo a memo' held ran
  cases ran
  exact ⟨held, trivial⟩

theorem Keeps.except (result : Except IndentError α) :
    Keeps inv (result : Except IndentError α) := by
  intro memo a memo' held ran
  rw [outcome_except] at ran
  cases result with
  | error cause => cases ran
  | ok value =>
    cases ran
    exact ⟨held, trivial⟩

end Indent

namespace Indenter

open Indent

section Columns

-- How the columns of other lines are found, and what that keeps.
variable {ix : Indenter} {columnOfLine : Nat → Indenting Nat} {inv : Memo → Prop}
  (keeps : ∀ line, Keeps inv (columnOfLine line))

include keeps

theorem keeps_lineColumn (pos : Nat) : Keeps inv (ix.lineColumn columnOfLine pos) :=
  keeps _

theorem keeps_alignedColumn (pos : Nat) : Keeps inv (ix.alignedColumn columnOfLine pos) :=
  (keeps_lineColumn keeps pos).bind fun _ _ => .pure trivial

theorem keeps_place (anchor : Extent) (action : Action) :
    Keeps inv (ix.place columnOfLine anchor action) := by
  have shifted : ∀ n, Keeps inv (do return (← ix.lineColumn columnOfLine anchor.start) + n) :=
    fun n => (keeps_lineColumn keeps _).bind fun _ _ => .pure trivial
  unfold place
  split
  · exact shifted _
  · exact shifted _
  · exact keeps_lineColumn keeps _
  · exact keeps_alignedColumn keeps _
  · split
    · split
      · exact keeps_alignedColumn keeps _
      · exact shifted _
    · exact shifted _

theorem keeps_afterSemicolon (separator : Nat) :
    Keeps inv (ix.afterSemicolon columnOfLine separator) := by
  refine Ensures.bind .get fun memo _ => Ensures.bind (Keeps.except _) fun context _ => ?_
  cases context with
  | sibling column => exact .pure trivial
  | inside pos token => exact keeps_place keeps _ _
  | outermost => exact .pure trivial

theorem keeps_afterToken (previous : Token) :
    Keeps inv (ix.afterToken columnOfLine previous) := by
  simp only [afterToken]
  split
  · exact keeps_afterSemicolon keeps _
  split
  · refine Ensures.bind (Keeps.except _) fun bracket _ => ?_
    cases bracket with
    | none => exact keeps_place keeps _ _
    | some bracket => exact keeps_place keeps _ _
  · split <;> exact keeps_place keeps _ _

end Columns

/-- The line starts inside a comment or a literal that began before it. -/
def startsInSpan (ix : Indenter) (lineStart : Nat) : Bool :=
  (ix.source.map.spanAt? (ix.text.firstNonBlank lineStart)).any (·.start < lineStart)

/-- Inside a comment or a literal, the column is the present one. -/
def Kept (ix : Indenter) (lineStart column : Nat) : Prop :=
  ix.startsInSpan lineStart = true → column = ix.text.indentation lineStart

/-- So it is for all columns computed so far. -/
def KeptColumns (ix : Indenter) (memo : Memo) : Prop :=
  ∀ lineStart column, memo.lookup lineStart = some column → ix.Kept lineStart column

theorem KeptColumns.cons {ix : Indenter} {memo : Memo} (kept : ix.KeptColumns memo)
    {lineStart column : Nat} (new : ix.Kept lineStart column) :
    ix.KeptColumns ((lineStart, column) :: memo) := by
  intro line found
  rw [List.lookup_cons]
  split
  · rename_i same
    rintro ⟨⟩
    rwa [eq_of_beq same]
  · exact kept line found

theorem ensures_compute {ix : Indenter} {columnOfLine : Nat → Indenting Nat} {inv : Memo → Prop}
    (keeps : ∀ line, Keeps inv (columnOfLine line)) (lineStart : Nat) :
    Ensures inv (ix.Kept lineStart) (ix.compute columnOfLine lineStart) := by
  simp only [compute]
  split
  · exact .pure fun _ => rfl
  · rename_i outside
    have vacuous : ∀ column, True → ix.Kept lineStart column :=
      fun column _ inside => absurd inside outside
    refine Ensures.weaken ?_ vacuous
    split
    · exact .pure trivial
    · rename_i previous _
      split
      · exact keeps_afterToken keeps previous
      · refine Ensures.bind (Keeps.except _) fun anchor _ => ?_
        cases anchor with
        | none => exact keeps_afterToken keeps previous
        | some anchor => exact keeps_place keeps _ _

theorem ensures_lineIndent (ix : Indenter) (room lineStart : Nat) :
    Ensures ix.KeptColumns (ix.Kept lineStart) (ix.lineIndent room lineStart) := by
  induction room generalizing lineStart with
  | zero =>
    refine Ensures.bind .get fun memo kept => ?_
    split
    · exact .pure (kept lineStart _ ‹_›)
    · exact .throw _
  | succ room ih =>
    refine Ensures.bind .get fun memo kept => ?_
    split
    · exact .pure (kept lineStart _ ‹_›)
    · have keeps : ∀ line, Keeps ix.KeptColumns (ix.lineIndent room line) :=
        fun line => (ih line).weaken fun _ _ => trivial
      refine Ensures.bind (ensures_compute keeps lineStart) fun column kept => ?_
      refine Ensures.bind (Keeps.log _) fun _ _ => ?_
      refine Ensures.bind (Keeps.update fun memo columns => columns.cons kept) fun _ _ => ?_
      exact .pure kept

theorem runLine_kept {ix : Indenter} {lineStart column : Nat} {memo memo' : Memo}
    (columns : ix.KeptColumns memo)
    (ran : (ix.runLine lineStart memo).value = .ok (column, memo')) :
    ix.KeptColumns memo' ∧ ix.Kept lineStart column :=
  ix.ensures_lineIndent (ix.settings.limits.recursion + 1) lineStart memo column memo' columns ran

/-- A line that has been placed: it is not blank and starts where a line starts, and inside a
comment or a literal it stays where it is. -/
structure Placed (ix : Indenter) (l : PlacedLine) : Prop where
  begins : l.offset = 0 ∨ ix.text.byteIs (l.offset - 1) Byte.isNewline = true
  within : l.offset ≤ ix.text.size
  shown : ix.text.isBlankLine l.offset = false
  current : l.current = ix.text.indentation l.offset
  kept : ix.Kept l.offset l.target

theorem Placed.movable {ix : Indenter} {l : PlacedLine} (placed : ix.Placed l)
    (moved : l.isMoved = true) :
    ix.source.Movable l.offset (ix.text.firstNonBlank l.offset) := by
  have first : ix.text.firstNonBlank l.offset = ix.text.seek (!Byte.isIndent ·) l.offset := by
    rw [Text.firstNonBlank, Text.lineStart_eq_self placed.within placed.begins]
  have inside : ix.text.firstNonBlank l.offset < ix.text.size := by
    have shown := placed.shown
    rw [Text.isBlankLine, decide_eq_false_iff_not, Nat.not_le] at shown
    exact Nat.lt_of_lt_of_le shown (ix.text.seek_le_size _ _)
  have ordered : l.offset ≤ ix.text.firstNonBlank l.offset := by
    rw [first]
    exact ix.text.le_seek _ _ placed.within
  have outside : ix.startsInSpan l.offset = false := by
    cases covered : ix.startsInSpan l.offset with
    | false => rfl
    | true =>
      rw [PlacedLine.isMoved, placed.current, placed.kept covered, bne_self_eq_false] at moved
      cases moved
  refine ⟨placed.begins, ordered, Nat.le_of_lt inside, fun k lower upper => ?_,
    fun s listed early => ?_⟩
  · rw [first] at upper
    have indent := Text.seek_before lower upper
    rw [Text.byteIs_not (Nat.lt_trans upper (first ▸ inside)), Bool.not_eq_false'] at indent
    exact indent
  · have ends : s.stop ≤ ix.text.firstNonBlank l.offset := by
      apply Nat.le_of_not_lt
      intro beyond
      have covers := Source.spanAt?_eq_some_iff.mpr
        ⟨listed, Nat.le_trans (Nat.le_of_lt early) ordered, beyond⟩
      rw [startsInSpan, covers, Option.any_some, decide_eq_false_iff_not] at outside
      exact outside early
    exact ⟨ends, Nat.lt_of_le_of_lt ends inside⟩

/-- A blank line adds nothing, and any other line itself with the column found for it. -/
theorem placeLine_cases {ix : Indenter} {start : Nat} {memo memo' : Memo}
    {placed placed' : Array PlacedLine}
    (ran : (ix.placeLine start memo placed).value = .ok (memo', placed')) :
    (ix.text.isBlankLine start = true ∧ memo' = memo ∧ placed' = placed) ∨
      ix.text.isBlankLine start = false ∧
        ∃ target, (ix.runLine start memo).value = .ok (target, memo') ∧
          placed' = placed.push
            ⟨ix.text.lineIndex start + 1, start, ix.text.indentation start, target⟩ := by
  unfold placeLine at ran
  split at ran
  · rename_i blank
    cases ran
    exact Or.inl ⟨blank, rfl, rfl⟩
  · rename_i shown
    rw [Bool.not_eq_true] at shown
    rw [Logged.value_bind] at ran
    cases result : (ix.runLine start memo).value with
    | error cause =>
      rw [result] at ran
      cases ran
    | ok pair =>
      obtain ⟨target, found⟩ := pair
      rw [result] at ran
      cases ran
      exact Or.inr ⟨shown, target, rfl, by rw [ix.source.lineMap_index]; rfl⟩

theorem placeLine_placed {ix : Indenter} {start : Nat} {memo memo' : Memo}
    {placed placed' : Array PlacedLine}
    (begins : start = 0 ∨ ix.text.byteIs (start - 1) Byte.isNewline = true)
    (within : start ≤ ix.text.size) (columns : ix.KeptColumns memo)
    (lines : ∀ l ∈ placed, ix.Placed l)
    (ran : (ix.placeLine start memo placed).value = .ok (memo', placed')) :
    ix.KeptColumns memo' ∧ ∀ l ∈ placed', ix.Placed l := by
  obtain ⟨-, rfl, rfl⟩ | ⟨shown, target, result, rfl⟩ := placeLine_cases ran
  · exact ⟨columns, lines⟩
  · obtain ⟨later, kept⟩ := runLine_kept columns result
    refine ⟨later, fun l listed => ?_⟩
    rcases Array.mem_push.mp listed with earlier | rfl
    · exact lines l earlier
    · exact ⟨begins, within, shown, by dsimp only, kept⟩

theorem placeLines_placed {ix : Indenter} {stop start : Nat} {memo : Memo}
    {placed lines : Array PlacedLine} {events : Array Event}
    (begins : start = 0 ∨ ix.text.byteIs (start - 1) Byte.isNewline = true)
    (within : start ≤ ix.text.size) (columns : ix.KeptColumns memo)
    (before : ∀ l ∈ placed, ix.Placed l)
    (ran : (ix.placeLines stop start memo placed events).value = .ok lines) :
    ∀ l ∈ lines, ix.Placed l := by
  fun_induction placeLines ix stop start memo placed events with
  | case1 start memo placed events next cause failed => cases ran
  | case2 start memo placed events next memo' placed' found more _ ih =>
    obtain ⟨later, sofar⟩ := placeLine_placed begins within columns before found
    exact ih (Or.inr (Text.seek_found more.2)) more.2 later sofar ran
  | case3 start memo placed events next memo' placed' found more =>
    cases ran
    exact (placeLine_placed begins within columns before found).2

theorem reindentRegion_placed {ix : Indenter} {start stop : Nat} {lines : Array PlacedLine}
    (ran : (ix.reindentRegion start stop).value = .ok lines) : ∀ l ∈ lines, ix.Placed l := by
  unfold reindentRegion at ran
  split at ran
  · cases ran
  · cases ran
  · rename_i start' stop' _ _
    refine placeLines_placed ?_ ?_ ?_ ?_ ran
    · exact ix.text.lineStart_begins start'
    · exact ix.text.lineStart_le_size start'
    · intro lineStart column found
      cases found
    · simp

/-- Reindenting keeps the program: the text with its lines moved has the same tokens one by one, and
all but the blanks that end a statement comment are unchanged byte for byte. -/
theorem tokens_moveLines (ix : Indenter) (start stop : Nat) (lines : Array PlacedLine)
    (ran : (ix.reindentRegion start stop).value = .ok lines) :
    let moved := Source.ofText ix.source.settings (ix.text.moveLines lines.toList)
    List.Forall₂ Token.Alike ix.source.tokens.toList moved.tokens.toList := by
  intro moved
  have placed := reindentRegion_placed ran
  have matched : Source.Matched ix.source moved 0 0 :=
    Source.matched_moveFrom lines.toList
      (fun l listed shifted => (placed l (Array.mem_toList_iff.mp listed)).movable shifted)
      (Nat.zero_le _) (Nat.zero_le _) rfl
  rw [Source.toList_tokens, Source.toList_tokens]
  exact matched.alike rfl List.suffix_rfl

/-- A group with a comment whose semicolon starts a line and a literal that goes on in a line. -/
def group : Indenter where
  source := .ofText {} (.ofString "do;\n* c\n;\nx = 'a\n b';\nend;")
  settings := {}
  grammar := ⟨Grammar.standardLevels, []⟩

/-- Its lines, with the list of statements one level in. -/
def groupLines : Array PlacedLine :=
  #[⟨1, 0, 0, 0⟩, ⟨2, 4, 0, 4⟩, ⟨3, 8, 0, 4⟩, ⟨4, 10, 0, 4⟩, ⟨5, 17, 1, 1⟩, ⟨6, 22, 0, 0⟩]

/-- The semicolon moves away from its comment, and the literal stays as it is. -/
theorem tokens_moveLines_group :
    Grammar.standard = .ok group.grammar ∧ (group.reindentRegion 0 26).value = .ok groupLines ∧
      List.Forall₂ Token.Alike group.source.tokens.toList
        (Source.ofText {} (group.text.moveLines groupLines.toList)).tokens.toList := by
  have ran : (group.reindentRegion 0 26).value = .ok groupLines := by decide +kernel
  exact ⟨Grammar.standard_eq, ran, tokens_moveLines group 0 26 groupLines ran⟩

end Indenter
end SasLayout
