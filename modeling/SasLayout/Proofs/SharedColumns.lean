import SasLayout.Proofs.SiblingSearch

set_option autoImplicit false

/-!
The columns that lines of a region share are those that each line has by itself. A line by itself
rests on a chain of other lines, down to one that rests on none; the relation `Rests` follows the
chain without limits on its length and without known columns.
-/
namespace SasLayout.Indenter

open Indent Source

section Rests

variable {ix : Indenter} {lineStart : Nat}

theorem anchored_ne_list (anchor : Extent) (action : Action) (separator : Nat) :
    ix.anchored anchor action ≠ .list separator := by
  cases action with
  | alignNext =>
    rw [anchored]
    split
    · split <;> simp [aligned]
    · simp
  | _ => simp [anchored, aligned]

theorem listed_ne_list (context : ListContext) (separator : Nat) :
    ix.listed context ≠ .list separator := by
  cases context with
  | inside pos token => exact anchored_ne_list _ _ _
  | _ => exact nofun

/-- A list that a line belongs to is given by a semicolon. -/
theorem footing_list {separator : Nat} (on : ix.footing lineStart = .ok (.list separator)) :
    ∃ tok ∈ ix.source.logicalTokens.toList, tok.grammarName = ";" ∧ tok.start = separator := by
  have after : ∀ {i : Nat} {previous : Token},
      ix.source.logicalToken? i .backward = some previous →
      ix.footingAfter previous = .ok (.list separator) → ∃ tok ∈ ix.source.logicalTokens.toList,
        tok.grammarName = ";" ∧ tok.start = separator := by
    intro i previous found on
    simp only [footingAfter] at on
    split at on
    · rename_i name
      cases on
      exact ⟨previous, semicolon_mem found name, name, rfl⟩
    split at on
    · cases bracket : ix.bracketAround previous.start with
      | error cause =>
        rw [bracket] at on
        cases on
      | ok around =>
        rw [bracket] at on
        cases around <;> exact absurd (Except.ok.inj on) (anchored_ne_list _ _ _)
    · split at on <;> exact absurd (Except.ok.inj on) (anchored_ne_list _ _ _)
  rw [footing] at on
  split at on
  · cases on
  split at on
  · cases on
  · rename_i previous found
    split at on
    · exact after found on
    · rename_i tok _
      cases anchor : ix.leadingAnchor? tok lineStart with
      | error cause =>
        rw [anchor] at on
        cases on
      | ok found' =>
        rw [anchor] at on
        cases found' with
        | none => exact after found on
        | some anchor => exact absurd (Except.ok.inj on) (anchored_ne_list _ _ _)

/-- What a line rests on by itself, when its list is searched to the end. -/
inductive Stands (ix : Indenter) (lineStart : Nat) : Footing → Prop
  | plain {on : Footing} (found : ix.footing lineStart = .ok on)
    (other : ∀ separator, on ≠ .list separator) : Stands ix lineStart on
  | list {separator : Nat} {context : ListContext}
    (found : ix.footing lineStart = .ok (.list separator))
    (inList : ix.InList separator context) : Stands ix lineStart (ix.listed context)

theorem Stands.unique {a b : Footing} (first : ix.Stands lineStart a)
    (second : ix.Stands lineStart b) : a = b := by
  cases first with
  | plain found other =>
    cases second with
    | plain found' other' => exact Except.ok.inj (found.symm.trans found')
    | list found' inList => exact absurd (Except.ok.inj (found.symm.trans found')) (other _)
  | list found inList =>
    cases second with
    | plain found' other' => exact absurd (Except.ok.inj (found'.symm.trans found)) (other' _)
    | list found' inList' =>
      cases found.symm.trans found'
      rw [inList.unique inList']

/-- The column that a line has by itself. -/
inductive Rests (ix : Indenter) : Nat → Nat → Prop
  | column {lineStart column : Nat} (on : ix.Stands lineStart (.column column)) :
    Rests ix lineStart column
  | line {lineStart start shift column : Nat} (on : ix.Stands lineStart (.line start shift))
    (below : Rests ix start column) : Rests ix lineStart (column + shift)

theorem Rests.unique {a b : Nat} (first : ix.Rests lineStart a) (second : ix.Rests lineStart b) :
    a = b := by
  induction first generalizing b with
  | column on =>
    cases second with
    | column on' =>
      cases on.unique on'
      rfl
    | line on' below => cases on.unique on'
  | line on below ih =>
    cases second with
    | column on' => cases on.unique on'
    | line on' below' =>
      cases on.unique on'
      rw [ih below']

/-- Lines that stand alike have the same column. -/
theorem Rests.of_stands {other column : Nat} (rests : ix.Rests lineStart column)
    (alike : ∀ on, ix.Stands lineStart on → ix.Stands other on) : ix.Rests other column := by
  cases rests with
  | column on => exact .column (alike _ on)
  | line on below => exact .line (alike _ on) below

/-- The columns that are known are those the lines have by themselves. -/
def OwnColumns (ix : Indenter) (memo : Memo) : Prop :=
  ∀ lineStart column, memo.lookup lineStart = some column → ix.Rests lineStart column

theorem OwnColumns.cons {memo : Memo} {column : Nat} (own : ix.OwnColumns memo)
    (rests : ix.Rests lineStart column) : ix.OwnColumns ((lineStart, column) :: memo) := by
  intro line found
  rw [List.lookup_cons]
  split
  · rename_i same
    rintro ⟨⟩
    rwa [eq_of_beq same]
  · exact own line found

theorem columnOn_rests {columnOfLine : Nat → Indenting Nat} {on : Footing}
    {memo memo' : Memo} {column : Nat}
    (below : ∀ line, Ensures ix.OwnColumns (ix.Rests line) (columnOfLine line))
    (stands : ix.Stands lineStart on) (other : ∀ separator, on ≠ .list separator)
    (own : ix.OwnColumns memo)
    (ran : outcome (ix.columnOn columnOfLine on) memo = .ok (column, memo')) :
    ix.OwnColumns memo' ∧ ix.Rests lineStart column := by
  cases on with
  | column value =>
    cases ran
    exact ⟨own, .column stands⟩
  | line start shift =>
    rw [outcome_line] at ran
    cases result : outcome (columnOfLine start) memo with
    | error cause =>
      rw [result] at ran
      cases ran
    | ok pair =>
      rw [result] at ran
      cases ran
      obtain ⟨kept, rests⟩ := below start memo pair.1 pair.2 own result
      exact ⟨kept, .line stands rests⟩
  | list separator => exact absurd rfl (other separator)

/-- The column for an offset is that of a run for its line. -/
theorem runLine_of_indentFor {offset column : Nat} (found : (ix.indentFor offset).value = .ok column) :
    ∃ memo, (ix.runLine (ix.text.lineStart (ix.text.floor offset)) []).value =
      .ok (column, memo) := by
  rcases Nat.lt_or_ge ix.source.size offset with outside | within
  · have refused : ix.source.checkOffset offset = .error ⟨offset, ix.source.size⟩ :=
      if_pos outside
    rw [indentFor, refused] at found
    cases found
  · rw [indentFor, checkOffset_within within] at found
    simp only [Logged.value_map] at found
    change (((ix.runLine (ix.text.lineStart (ix.text.floor offset)) []).value).map _) = _ at found
    cases ran : (ix.runLine (ix.text.lineStart (ix.text.floor offset)) []).value with
    | error cause =>
      rw [ran] at found
      cases found
    | ok result =>
      rw [ran] at found
      cases found
      exact ⟨result.2, rfl⟩

variable (standard : ix.grammar.levels = Grammar.standardLevels)
  (joined : ix.source.text.Joined) (settled : ix.Unstranded)

include standard joined settled

/-- A known column that a line takes from its list is its own. -/
theorem rests_of_sibling {memo : Memo} {separator column : Nat} (own : ix.OwnColumns memo)
    (on : ix.footing lineStart = .ok (.list separator))
    (found : ix.listContext memo separator = .ok (.sibling column)) :
    ix.Rests lineStart column := by
  obtain ⟨tok, listed, name, rfl⟩ := footing_list on
  obtain ⟨front, back, split⟩ := List.append_of_mem listed
  obtain ⟨last, next, sibling⟩ := exists_sibling standard joined split
    (name ▸ starts_semicolon standard) found
  obtain ⟨known, placed⟩ := sibling.footing standard joined settled
  refine (own _ _ known).of_stands fun footing stands => ?_
  cases stands with
  | plain found other => exact absurd (Except.ok.inj (found.symm.trans placed)) (other _)
  | list found inList =>
    cases found.symm.trans placed
    exact .list on (sibling.onward _ inList)

theorem compute_rests {columnOfLine : Nat → Indenting Nat}
    (below : ∀ line, Ensures ix.OwnColumns (ix.Rests line) (columnOfLine line)) (lineStart : Nat) :
    Ensures ix.OwnColumns (ix.Rests lineStart) (ix.compute columnOfLine lineStart) := by
  intro memo column memo' own ran
  rw [outcome_compute] at ran
  cases on : ix.footing lineStart with
  | error cause =>
    rw [on] at ran
    cases ran
  | ok footing =>
    rw [on] at ran
    by_cases lists : ∃ separator, footing = .list separator
    · obtain ⟨separator, rfl⟩ := lists
      change outcome (ix.columnOn columnOfLine (.list separator)) memo = _ at ran
      rw [outcome_list] at ran
      cases found : ix.listContext memo separator with
      | error cause =>
        rw [found] at ran
        cases ran
      | ok context =>
        rw [found] at ran
        by_cases known : ∃ column, context = .sibling column
        · obtain ⟨column, rfl⟩ := known
          cases ran
          exact ⟨own, rests_of_sibling standard joined settled own on found⟩
        · exact columnOn_rests below (.list on (listContext_inList found (not_exists.mp known)))
            (listed_ne_list context) own ran
    · exact columnOn_rests below (.plain on (not_exists.mp lists)) (not_exists.mp lists) own ran

theorem lineIndent_rests (room lineStart : Nat) :
    Ensures ix.OwnColumns (ix.Rests lineStart) (ix.lineIndent room lineStart) := by
  induction room generalizing lineStart with
  | zero =>
    refine Ensures.bind .get fun memo own => ?_
    split
    · exact .pure (own lineStart _ ‹_›)
    · exact .throw _
  | succ room ih =>
    refine Ensures.bind .get fun memo own => ?_
    split
    · exact .pure (own lineStart _ ‹_›)
    · refine Ensures.bind (compute_rests standard joined settled ih lineStart)
        fun column rests => ?_
      refine Ensures.bind (Keeps.log _) fun _ _ => ?_
      refine Ensures.bind (Keeps.update fun memo own => own.cons rests) fun _ _ => ?_
      exact .pure rests

theorem placeLine_rests {start : Nat} {memo memo' : Memo} {placed placed' : Array PlacedLine}
    (own : ix.OwnColumns memo) (lines : ∀ l ∈ placed, ix.Rests l.offset l.target)
    (ran : (ix.placeLine start memo placed).value = .ok (memo', placed')) :
    ix.OwnColumns memo' ∧ ∀ l ∈ placed', ix.Rests l.offset l.target := by
  obtain ⟨-, rfl, rfl⟩ | ⟨-, target, result, rfl⟩ := placeLine_cases ran
  · exact ⟨own, lines⟩
  · obtain ⟨later, rests⟩ := lineIndent_rests standard joined settled _ start memo target memo' own
      result
    refine ⟨later, fun l listed => ?_⟩
    rcases Array.mem_push.mp listed with earlier | rfl
    · exact lines l earlier
    · exact rests

theorem placeLines_rests {stop start : Nat} {memo : Memo} {placed lines : Array PlacedLine}
    {events : Array Event} (own : ix.OwnColumns memo)
    (before : ∀ l ∈ placed, ix.Rests l.offset l.target)
    (ran : (ix.placeLines stop start memo placed events).value = .ok lines) :
    ∀ l ∈ lines, ix.Rests l.offset l.target := by
  fun_induction placeLines ix stop start memo placed events with
  | case1 start memo placed events next cause failed => cases ran
  | case2 start memo placed events next memo' placed' found more _ ih =>
    obtain ⟨later, sofar⟩ := placeLine_rests standard joined settled own before found
    exact ih later sofar ran
  | case3 start memo placed events next memo' placed' found more =>
    cases ran
    exact (placeLine_rests standard joined settled own before found).2

theorem reindentRegion_rests {start stop : Nat} {lines : Array PlacedLine}
    (ran : (ix.reindentRegion start stop).value = .ok lines) :
    ∀ l ∈ lines, ix.Rests l.offset l.target := by
  unfold reindentRegion at ran
  split at ran
  · cases ran
  · cases ran
  · exact placeLines_rests standard joined settled (fun _ _ found => by cases found) (by simp) ran

/-- The column for a line is the one that it has by itself. -/
theorem indentFor_rests {i column : Nat}
    (begins : i = 0 ∨ ix.text.byteIs (i - 1) Byte.isNewline = true) (within : i ≤ ix.source.size)
    (ran : (ix.indentFor i).value = .ok column) :
    ix.Rests i column := by
  have start : ix.text.lineStart (ix.source.text.floor i) = i := by
    rw [text, Text.lineStart_congr (Nat.le_trans (ix.source.text.floor_le i) within) within
      (joined.lineIndex_floor within)]
    exact Text.lineStart_eq_self within begins
  obtain ⟨memo, result⟩ := runLine_of_indentFor ran
  have alone : (ix.runLine i []).value = .ok (column, memo) := start ▸ result
  exact (lineIndent_rests standard joined settled _ i [] column memo
    (fun _ _ found => by cases found) alone).2

end Rests

/-- Columns that the lines of a region share are those that each line has by itself. In a text where
no line starts with a semicolon or an operator that is parted from a semicolon before it by a
comment on an earlier line, a line that reindenting any region places has the column for that line
alone. -/
theorem reindent_own_columns (lexical : LexicalSettings) (style : IndentSettings)
    (grammar : Grammar String) (s : String) (start stop : Nat) (lines : Array PlacedLine) :
    let ix : Indenter := ⟨Source.ofText lexical (Text.ofString s), style, grammar⟩
    Grammar.standard = .ok grammar → ix.Unstranded →
    (ix.reindentRegion start stop).value = .ok lines →
    ∀ l ∈ lines, ∀ column, (ix.indentFor l.offset).value = .ok column → column = l.target := by
  intro ix built settled ran l listed column alone
  have levels : grammar.levels = Grammar.standardLevels := by
    rw [Grammar.standard_eq] at built
    exact congrArg Grammar.levels (Except.ok.inj built).symm
  have joined : ix.source.text.Joined := Text.joined_ofString s
  have placed := reindentRegion_placed ran l listed
  exact (indentFor_rests levels joined settled placed.begins placed.within alone).unique
    (reindentRegion_rests levels joined settled ran l listed)

/-- The second statement of the group takes its column from the first. -/
theorem reindent_own_columns_group :
    let ix : Indenter := ⟨Source.ofText {} (Text.ofString "do;\n a;\n/* c */\nb;\nend;"), {},
      ⟨Grammar.standardLevels, []⟩⟩
    let lines : Array PlacedLine := #[⟨1, 0, 0, 0⟩, ⟨2, 4, 1, 4⟩, ⟨3, 8, 0, 4⟩, ⟨4, 16, 0, 4⟩,
      ⟨5, 19, 0, 0⟩]
    Grammar.standard = .ok ix.grammar ∧ ix.Unstranded ∧
      (ix.reindentRegion 0 ix.source.size).value = .ok lines ∧
      ∃ column, (ix.indentFor 16).value = .ok column ∧ column = 4 := by
  intro ix lines
  have settled : ix.Unstranded := by
    rw [Unstranded]
    decide +kernel
  have ran : (ix.reindentRegion 0 ix.source.size).value = .ok lines := by decide +kernel
  have alone : ∃ column, (ix.indentFor 16).value = .ok column := ⟨4, by decide +kernel⟩
  obtain ⟨column, alone⟩ := alone
  exact ⟨Grammar.standard_eq, settled, ran, column, alone,
    reindent_own_columns {} {} _ _ 0 _ lines Grammar.standard_eq settled ran ⟨4, 16, 0, 4⟩
      (by simp [lines]) column alone⟩

/-- Behind a comment an operator continues the statement that the comment starts. The statement
after it takes its column, but by itself it has that of its list. -/
theorem reindent_stranded :
    let ix : Indenter := ⟨Source.ofText {} (Text.ofString "a;\n/* c */\n= b;\nc;"), {},
      ⟨Grammar.standardLevels, []⟩⟩
    Grammar.standard = .ok ix.grammar ∧
      (ix.reindentRegion 0 18).value =
        .ok #[⟨1, 0, 0, 0⟩, ⟨2, 3, 0, 0⟩, ⟨3, 11, 0, 4⟩, ⟨4, 16, 0, 4⟩] ∧
      (ix.indentFor 16).value = .ok 0 :=
  ⟨Grammar.standard_eq, by decide +kernel, by decide +kernel⟩

end SasLayout.Indenter
