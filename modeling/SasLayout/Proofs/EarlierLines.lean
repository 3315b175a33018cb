import SasLayout.Proofs.DepthIndent

set_option autoImplicit false

/-!
Indentation comes to an end. Every walk backward passes one token at a step, and every anchor is a
token before the first character of its line, so it stands on an earlier line. Within the limits on
bytes and lines a column is therefore always found.
-/
namespace SasLayout

namespace Text

variable {t : Text} {i k : Nat}

/-- What is visible before the first character of a line stands on an earlier line. -/
theorem lineIndex_lt_of_visible (within : i ≤ t.size) (before : k < t.firstNonBlank i)
    (visible : t.byteIs k (!Byte.isBlank ·) = true) : t.lineIndex k < t.lineIndex i := by
  have shown := (byteIs_not_iff.mp visible).2
  apply (lt_lineStart_iff (Nat.le_of_lt (lt_size_of_byteIs visible)) within).mp
  apply Nat.lt_of_not_le
  intro same
  have indent := firstNonBlank_indent same before
  rw [byteIs_mono indent Byte.isBlank_of_isIndent] at shown
  cases shown

end Text

namespace Source

open Token

variable {src : Source} {i pos : Nat} {tok : Token}

/-- A visible character stands at `pos`, before `i`. -/
structure Precedes (src : Source) (pos i : Nat) : Prop where
  before : pos < i
  visible : src.text.byteIs pos (!Byte.isBlank ·) = true

theorem Precedes.le_size (precedes : src.Precedes pos i) : pos ≤ src.size :=
  Nat.le_of_lt (Text.lt_size_of_byteIs precedes.visible)

theorem Precedes.mono (precedes : src.Precedes pos i) {j : Nat} (later : i ≤ j) :
    src.Precedes pos j :=
  ⟨Nat.lt_of_lt_of_le precedes.before later, precedes.visible⟩

theorem Precedes.lineIndex_lt (precedes : src.Precedes pos (src.text.firstNonBlank i))
    (within : i ≤ src.size) : src.text.lineIndex pos < src.text.lineIndex i :=
  Text.lineIndex_lt_of_visible within precedes.before precedes.visible

/-- A logical token found backward from an offset starts before it. -/
theorem precedes_of_logicalToken? (found : src.logicalToken? i .backward = some tok) :
    src.Precedes tok.start i := by
  rw [logicalToken?] at found
  split at found
  · cases found
  · refine ⟨Nat.lt_of_lt_of_le (logicalBefore?_start_lt found) (src.text.floor_le i), ?_⟩
    obtain ⟨last, code, rfl⟩ := Option.map_eq_some_iff.mp found
    obtain ⟨first, listed, start⟩ := resolveBack_start (mem_code_of_codeBefore? code)
    have member := mem_of_mem_code listed
    rw [start, Text.byteIs_not_iff]
    exact ⟨Nat.lt_of_lt_of_le (src.tokens_tiling.nonempty first member)
      (src.tokens_tiling.within first member), src.tokens_tiling.visible first member⟩

end Source

/-! ### Walks -/

namespace Indent

variable {g : Grammar String} {src : Source} {i steps : Nat} {pending : List Nat}

/-- A walk from `i` has ended at a token before `i`, or at the start of the text. -/
def Stop.Behind (src : Source) (i : Nat) : Stop → Prop
  | .skipped pos | .opener pos _ | .parent pos _ _ => src.Precedes pos i
  | .boundary => True

theorem Stop.Behind.mono {stop : Stop} (behind : stop.Behind src i) {j : Nat} (later : i ≤ j) :
    stop.Behind src j := by
  cases stop with
  | boundary => trivial
  | skipped pos => exact Source.Precedes.mono behind later
  | opener pos token => exact Source.Precedes.mono behind later
  | parent pos token level => exact Source.Precedes.mono behind later

/-- Each step goes back by a byte at least, so a walk with more steps than bytes before it ends. -/
theorem walkFrom_ends (enough : i < steps) :
    ∃ stop, walkFrom g src steps i pending = some stop := by
  induction steps generalizing i pending with
  | zero => exact absurd enough (Nat.not_lt_zero i)
  | succ steps ih =>
    rw [walkFrom]
    cases found : src.logicalToken? i .backward with
    | none => exact ⟨_, rfl⟩
    | some tok =>
      have earlier := (Source.precedes_of_logicalToken? found).before
      simp only
      split
      · exact ih (by omega)
      · exact ⟨_, rfl⟩
      · exact ⟨_, rfl⟩
      · exact ⟨_, rfl⟩

theorem walkFrom_behind {stop : Stop} (ended : walkFrom g src steps i pending = some stop) :
    stop.Behind src i := by
  induction steps generalizing i pending with
  | zero => cases ended
  | succ steps ih =>
    rw [walkFrom] at ended
    cases found : src.logicalToken? i .backward with
    | none =>
      rw [found] at ended
      cases ended
      trivial
    | some tok =>
      have precedes := Source.precedes_of_logicalToken? found
      rw [found] at ended
      simp only at ended
      split at ended
      · exact (ih ended).mono (Nat.le_of_lt precedes.before)
      · cases ended
        exact precedes
      · cases ended
        exact precedes
      · cases ended
        exact precedes

end Indent

namespace Indenter

open Indent Source

variable {ix : Indenter} {i pos separator steps : Nat} {tok : Token}

theorem walk_behind {name : String} {stop : Stop} (walked : ix.walk pos name = .ok stop) :
    stop.Behind ix.source pos := by
  unfold walk at walked
  split at walked
  · rename_i ended
    cases walked
    exact walkFrom_behind ended
  · cases walked

theorem walk_settles (ix : Indenter) (short : pos < ix.settings.limits.steps) (name : String) :
    ∃ stop, ix.walk pos name = .ok stop ∧ stop.Behind ix.source pos := by
  have ended : ∃ stop, ix.walk pos name = .ok stop := by
    unfold walk Indent.walk
    obtain ⟨stop, ended⟩ := walkFrom_ends short
    exact ⟨stop, by rw [ended]⟩
  obtain ⟨stop, walked⟩ := ended
  exact ⟨stop, walked, walk_behind walked⟩

/-! ### Anchors -/

/-- The search for the list of statements around a semicolon ends, inside of a token before it. -/
theorem listContextFrom_ends (ix : Indenter) (separator : Nat) (enough : pos < steps)
    (short : pos < ix.settings.limits.steps) :
    ∃ context, ix.listContextFrom [] separator steps pos = .ok context ∧
      ∀ opener token, context = .inside opener token → ix.source.Precedes opener pos := by
  induction steps generalizing pos with
  | zero => exact absurd enough (Nat.not_lt_zero pos)
  | succ steps ih =>
    obtain ⟨stop, walked, behind⟩ := ix.walk_settles short ";"
    have onward {next : Nat} (precedes : ix.source.Precedes next pos) :
        ∃ context, ix.listContextFrom [] separator steps next = .ok context ∧
          ∀ opener token, context = .inside opener token → ix.source.Precedes opener pos := by
      have earlier := precedes.before
      obtain ⟨context, found, inside⟩ := ih (Nat.lt_of_lt_of_le earlier (by omega))
        (Nat.lt_trans earlier short)
      exact ⟨context, found, fun opener token same =>
        (inside opener token same).mono (Nat.le_of_lt earlier)⟩
    rw [listContextFrom, walked]
    cases stop with
    | boundary => exact ⟨.outermost, rfl, fun _ _ same => by cases same⟩
    | skipped next => exact onward behind
    | opener next token => exact onward behind
    | parent next token level =>
      by_cases separates : token = ";"
      · simp only [separates, if_true, sibling?_nil]
        exact onward behind
      · simp only [separates, if_false]
        refine ⟨.inside next token, rfl, fun opener word same => ?_⟩
        cases same
        exact behind

/-- A search succeeds, and what it finds, if anything, has the property. -/
def Finds {α : Type} (search : Except IndentError (Option α)) (holds : α → Prop) : Prop :=
  ∃ found?, search = .ok found? ∧ ∀ found ∈ found?, holds found

theorem finds_none {α : Type} {holds : α → Prop} : Finds (.ok none) holds :=
  ⟨none, rfl, by simp⟩

theorem finds_some {α : Type} {holds : α → Prop} {found : α} (held : holds found) :
    Finds (.ok (some found)) holds :=
  ⟨some found, rfl, by simpa using held⟩

/-- The search for the bracket around a list ends, at a token before its comma. -/
theorem bracketFrom_ends (enough : pos < steps) (short : pos < ix.settings.limits.steps) :
    Finds (ix.bracketFrom separator steps pos) (ix.source.Precedes ·.start pos) := by
  induction steps generalizing pos with
  | zero => exact absurd enough (Nat.not_lt_zero pos)
  | succ steps ih =>
    obtain ⟨stop, walked, behind⟩ := ix.walk_settles short ","
    rw [bracketFrom, walked]
    cases stop with
    | boundary => exact finds_none
    | skipped next => exact finds_none
    | opener next token => exact finds_none
    | parent next token level =>
      have earlier := behind.before
      by_cases separates : token = ","
      · obtain ⟨bracket?, found, inside⟩ := ih (Nat.lt_of_lt_of_le earlier (by omega))
          (Nat.lt_trans earlier short)
        simp only [separates, if_true]
        exact ⟨bracket?, found, fun bracket same =>
          (inside bracket same).mono (Nat.le_of_lt earlier)⟩
      · by_cases opens : token = "("
        · subst opens
          simp only [separates, if_true, if_false]
          exact finds_some behind
        · simp only [separates, opens, if_false]
          exact finds_none

theorem bracketAround_ends (ix : Indenter) (short : pos < ix.settings.limits.steps) :
    Finds (ix.bracketAround pos) (ix.source.Precedes ·.start pos) :=
  bracketFrom_ends short short

theorem partner?_ends (ix : Indenter) (short : tok.start < ix.settings.limits.steps) :
    Finds (ix.partner? tok) (ix.source.Precedes · tok.start) := by
  obtain ⟨stop, walked, behind⟩ := ix.walk_settles short tok.grammarName
  unfold partner?
  simp only [walked]
  cases stop with
  | opener pos token =>
    split
    · exact finds_some behind
    · exact finds_some behind
    · exact finds_none
  | boundary => split <;> exact finds_none
  | skipped pos => split <;> exact finds_none
  | parent pos token level => split <;> exact finds_none

/-- The anchor that the first token of a line asks for stands on an earlier line. -/
theorem leadingAnchor?_ends (within : i ≤ ix.source.size)
    (first : tok.start = ix.text.firstNonBlank i)
    (short : ix.source.size < ix.settings.limits.steps) :
    Finds (ix.leadingAnchor? tok (ix.text.lineStart i)) fun anchor =>
      anchor.1.start ≤ ix.source.size ∧
        ix.text.lineIndex anchor.1.start < ix.text.lineIndex i := by
  have inside : tok.start ≤ ix.source.size := first ▸ ix.text.firstNonBlank_le_size i
  have earlier {pos : Nat} (precedes : ix.source.Precedes pos tok.start) :
      pos ≤ ix.source.size ∧ ix.text.lineIndex pos < ix.text.lineIndex i :=
    ⟨precedes.le_size, Precedes.lineIndex_lt (first ▸ precedes) within⟩
  obtain ⟨opener?, paired, before⟩ :=
    ix.partner?_ends (Nat.lt_of_le_of_lt inside short)
  unfold leadingAnchor?
  simp only [paired]
  cases opener? with
  | some pos => exact finds_some (earlier (before pos rfl))
  | none =>
    simp only
    split
    · obtain ⟨bracket?, found, around⟩ := ix.bracketAround_ends (Nat.lt_of_le_of_lt inside short)
      rw [found]
      cases bracket? with
      | none => exact finds_none
      | some bracket => exact finds_some (earlier (around bracket rfl))
    · split
      · split
        · exact finds_none
        · rename_i before
          have bound : ix.source.statementStart tok.start ≤ ix.source.size :=
            ix.source.text.seek_le_size _ _
          have line := (Text.lt_lineStart_iff bound within).mp (Nat.lt_of_not_le before)
          exact finds_some ⟨bound, line⟩
      · exact finds_none

/-! ### Lines -/

/-- What the line of `i` rests on stands before it: an earlier line, or the list after a semicolon
before its first character. -/
def Rising (ix : Indenter) (i : Nat) : Footing → Prop
  | .column _ => True
  | .line start _ => ∃ k ≤ ix.source.size, start = ix.text.lineStart k ∧
    ix.text.lineIndex k < ix.text.lineIndex i
  | .list separator => ix.source.Precedes separator (ix.text.firstNonBlank i)

theorem anchored_eq_line (ix : Indenter) (anchor : Extent) (action : Action) :
    ∃ shift, ix.anchored anchor action = .line (ix.text.lineStart anchor.start) shift := by
  cases action with
  | basic units => exact ⟨_, rfl⟩
  | continuation => exact ⟨_, rfl⟩
  | inherit => exact ⟨_, rfl⟩
  | alignAnchor => exact ⟨_, rfl⟩
  | alignNext =>
    simp only [anchored]
    split
    · split
      · rename_i same
        rw [aligned, same]
        exact ⟨_, rfl⟩
      · exact ⟨_, rfl⟩
    · exact ⟨_, rfl⟩

theorem rising_anchored {anchor : Extent} (bound : anchor.start ≤ ix.source.size)
    (earlier : ix.text.lineIndex anchor.start < ix.text.lineIndex i) (action : Action) :
    ix.Rising i (ix.anchored anchor action) := by
  obtain ⟨shift, line⟩ := ix.anchored_eq_line anchor action
  rw [line]
  exact ⟨anchor.start, bound, rfl, earlier⟩

theorem rising_preceding (within : i ≤ ix.source.size)
    (precedes : ix.source.Precedes pos (ix.text.firstNonBlank i)) (stop : Nat) (action : Action) :
    ix.Rising i (ix.anchored ⟨pos, stop⟩ action) := by
  have earlier : ix.text.lineIndex pos < ix.text.lineIndex i := precedes.lineIndex_lt within
  exact rising_anchored precedes.le_size earlier action

theorem rising_continued (within : i ≤ ix.source.size)
    (precedes : ix.source.Precedes pos (ix.text.firstNonBlank i)) :
    ix.Rising i (ix.continued pos) := by
  have start := statementStart_le precedes.visible
  exact rising_anchored (Nat.le_trans start precedes.le_size)
    (Nat.lt_of_le_of_lt (Text.lineIndex_mono start) (precedes.lineIndex_lt within)) _

theorem footingAfter_ends (within : i ≤ ix.source.size)
    (short : ix.source.size < ix.settings.limits.steps)
    (precedes : ix.source.Precedes tok.start (ix.text.firstNonBlank i)) :
    ∃ on, ix.footingAfter tok = .ok on ∧ ix.Rising i on := by
  have bound := precedes.le_size
  have continued := rising_continued within precedes
  unfold footingAfter
  simp only
  split
  · exact ⟨_, rfl, precedes⟩
  · split
    · obtain ⟨bracket?, found, around⟩ := ix.bracketAround_ends
        (Nat.lt_of_le_of_lt bound short)
      rw [found]
      refine ⟨_, rfl, ?_⟩
      cases bracket? with
      | none => exact continued
      | some bracket =>
        have opener := (around bracket rfl).mono (Nat.le_of_lt precedes.before)
        exact rising_preceding within opener _ _
    · split
      · exact ⟨_, rfl, continued⟩
      · exact ⟨_, rfl, continued⟩
      · exact ⟨_, rfl, rising_preceding within precedes _ _⟩

/-- What a line rests on is found, and stands before the line. -/
theorem footing_ends (within : i ≤ ix.source.size)
    (short : ix.source.size < ix.settings.limits.steps) :
    ∃ on, ix.footing (ix.text.lineStart i) = .ok on ∧ ix.Rising i on := by
  have same : ix.text.firstNonBlank (ix.text.lineStart i) = ix.text.firstNonBlank i :=
    Text.firstNonBlank_lineStart within
  unfold footing
  rw [same]
  split
  · exact ⟨_, rfl, trivial⟩
  · cases found : ix.source.logicalToken? (ix.text.firstNonBlank i) .backward with
    | none => exact ⟨_, rfl, trivial⟩
    | some previous =>
      have precedes := precedes_of_logicalToken? found
      have after := footingAfter_ends within short precedes
      cases leads : ix.leadingToken? (ix.text.firstNonBlank i) with
      | none => exact after
      | some tok =>
        have first : tok.start = ix.text.firstNonBlank i := by
          unfold leadingToken? at leads
          split at leads
          · cases leads
          · split at leads
            · cases leads
            · simpa using (Option.filter_eq_some_iff.mp leads).2
        obtain ⟨anchor?, asked, earlier⟩ := leadingAnchor?_ends within first short
        simp only [asked]
        cases anchor? with
        | none => exact after
        | some anchor =>
          obtain ⟨bound, line⟩ := earlier anchor rfl
          exact ⟨_, rfl, rising_anchored bound line anchor.2⟩

theorem rising_listed (within : i ≤ ix.source.size) {context : ListContext}
    (inside : ∀ opener token, context = .inside opener token →
      ix.source.Precedes opener (ix.text.firstNonBlank i)) : ix.Rising i (ix.listed context) := by
  cases context with
  | sibling column => trivial
  | outermost => trivial
  | inside opener token =>
    exact rising_preceding within (inside opener token rfl) _ _

/-- The footing of a line with its list resolved is found, and stands before the line. -/
theorem exists_found (within : i ≤ ix.source.size)
    (short : ix.source.size < ix.settings.limits.steps) :
    ∃ on, ix.Found (ix.text.lineStart i) on ∧ (∀ separator, on ≠ .list separator) ∧
      ix.Rising i on := by
  obtain ⟨on, found, rising⟩ := footing_ends within short
  cases on with
  | column value =>
    have other : ∀ separator, Footing.column value ≠ .list separator := by simp
    exact ⟨_, .plain found other, other, trivial⟩
  | line start shift =>
    have other : ∀ separator, Footing.line start shift ≠ .list separator := by simp
    exact ⟨_, .plain found other, other, rising⟩
  | list separator =>
    have bound := rising.le_size
    have room : separator < ix.settings.limits.steps := Nat.lt_of_le_of_lt bound short
    obtain ⟨context, search, inside⟩ := ix.listContextFrom_ends separator room room
    exact ⟨_, .list found search, listed_ne_list context, rising_listed within
      fun opener token same => (inside opener token same).mono (Nat.le_of_lt rising.before)⟩

/-- A line depends on no more lines than there are before it. -/
theorem exists_climbs (within : i ≤ ix.source.size)
    (short : ix.source.size < ix.settings.limits.steps) :
    ∃ column, ix.Climbs (ix.text.lineIndex i + 1) (ix.text.lineStart i) column := by
  induction line : ix.text.lineIndex i using Nat.strongRecOn generalizing i with
  | ind line ih =>
    obtain ⟨on, found, other, rising⟩ := exists_found within short
    cases on with
    | column value => exact ⟨value, .column found⟩
    | list separator => exact absurd rfl (other separator)
    | line start shift =>
      obtain ⟨k, bound, rfl, earlier⟩ := rising
      obtain ⟨column, below⟩ := ih _ (line ▸ earlier) bound rfl
      exact ⟨column + shift, .line found (below.mono (by omega))⟩

/-- What a line rests on when it is found stands on an earlier line. -/
theorem found_earlier (within : i ≤ ix.source.size)
    (short : ix.source.size < ix.settings.limits.steps)
    {start shift : Nat} (found : ix.Found (ix.text.lineStart i) (.line start shift)) :
    ix.text.lineIndex start < ix.text.lineIndex i := by
  obtain ⟨on, other, -, rising⟩ := exists_found within short
  obtain rfl : on = .line start shift := other.stands.unique found.stands
  obtain ⟨k, bound, rfl, earlier⟩ := rising
  rwa [text, Text.lineIndex_lineStart bound]

/-! ### One line -/

/-- With no columns known the list around a line is searched to its end. -/
theorem compute_fresh {columnOfLine : Nat → Indenting Nat} {lineStart : Nat} {on : Footing}
    (found : ix.Found lineStart on) :
    outcome (ix.compute columnOfLine lineStart) [] = outcome (ix.columnOn columnOfLine on) [] := by
  rw [outcome_compute]
  cases found with
  | plain found other =>
    rw [found]
    rfl
  | list found search =>
    rw [found]
    change outcome (ix.columnOn columnOfLine (.list _)) [] = _
    rw [outcome_list, search]
    rfl

/-- With no columns known a line gets the column that the lines it depends on give it. -/
theorem lineIndent_fresh {room lineStart column : Nat} (climbs : ix.Climbs room lineStart column) :
    ∃ memo, outcome (ix.lineIndent room lineStart) [] = .ok (column, memo) := by
  induction climbs with
  | column on =>
    rw [outcome_lineIndent _ _ rfl, compute_fresh on]
    exact ⟨_, rfl⟩
  | line on below ih =>
    obtain ⟨memo, ran⟩ := ih
    rw [outcome_lineIndent _ _ rfl, compute_fresh on, outcome_line, ran]
    exact ⟨_, rfl⟩

theorem indentFor_climbs {column : Nat} (joined : ix.text.Joined) (within : i ≤ ix.source.size)
    (climbs : ix.Climbs (ix.settings.limits.recursion + 1) (ix.text.lineStart i) column) :
    (ix.indentFor i).value = .ok column := by
  have line : ix.text.lineStart (ix.source.text.floor i) = ix.text.lineStart i :=
    Text.lineStart_congr (Nat.le_trans (ix.source.text.floor_le i) within) within
      (joined.lineIndex_floor within)
  obtain ⟨memo, fresh⟩ := lineIndent_fresh climbs
  have ran : (ix.runLine (ix.text.lineStart i) []).value = .ok (column, memo) := fresh
  rw [indentFor, checkOffset_within within]
  simp only [Logged.value_map, line, ran]
  rfl

/-- Indentation succeeds on ordinary files. In a text with no more lines than the limit on lines
that depend on each other, and with fewer bytes than the limit on steps of a walk, every offset has
a column. The line of an offset depends on no more lines than there are before it, each of them
stands before the line that rests on it, and a walk ends before the place it starts from. -/
theorem indentFor_succeeds (lexical : LexicalSettings) (style : IndentSettings) (s : String)
    (few : (Text.ofString s).lineCount ≤ style.limits.recursion)
    (short : (Text.ofString s).size < style.limits.steps) :
    ∃ grammar, Grammar.standard = .ok grammar ∧
      let ix : Indenter := ⟨.ofText lexical (.ofString s), style, grammar⟩
      (∀ i ≤ ix.source.size, ∃ column, (ix.indentFor i).value = .ok column ∧
        ix.Climbs (ix.text.lineIndex i + 1) (ix.text.lineStart i) column) ∧
      (∀ i ≤ ix.source.size, ∀ start shift,
        ix.Found (ix.text.lineStart i) (.line start shift) →
          ix.text.lineIndex start < ix.text.lineIndex i) ∧
      ∀ i name, i < style.limits.steps →
        ∃ stop, ix.walk i name = .ok stop ∧ stop.Behind ix.source i := by
  refine ⟨_, Grammar.standard_eq, ?_, ?_, ?_⟩
  · intro i within
    obtain ⟨column, climbs⟩ := exists_climbs within short
    have last := Text.lineIndex_lt_lineCount within
    refine ⟨column, indentFor_climbs (Text.joined_ofString s) within (climbs.mono ?_), climbs⟩
    exact Nat.succ_le_succ (Nat.le_trans (Nat.le_of_lt last) few)
  · intro i within start shift found
    exact found_earlier within short found
  · intro i name near
    exact walk_settles _ near name

/-- A step with a loop and a continued statement in it. -/
theorem indentFor_succeeds_step :
    let style : IndentSettings := {}
    let s := "data a;\n        do i = 1 to 3;\n  x = f(i,\n  2)\n+ 1;\nend;\n run;"
    (Text.ofString s).lineCount ≤ style.limits.recursion ∧
      (Text.ofString s).size < style.limits.steps ∧
      ∃ grammar, Grammar.standard = .ok grammar ∧
        let ix : Indenter := ⟨.ofText {} (.ofString s), style, grammar⟩
        (ix.indentFor 47).value = .ok 12 ∧ ix.Climbs 5 (ix.text.lineStart 47) 12 := by
  intro style s
  have few : (Text.ofString s).lineCount ≤ style.limits.recursion := by decide +kernel
  have short : (Text.ofString s).size < style.limits.steps := by decide +kernel
  obtain ⟨grammar, standard, columns, -⟩ := indentFor_succeeds {} style s few short
  obtain rfl : ⟨Grammar.standardLevels, []⟩ = grammar :=
    Except.ok.inj (Grammar.standard_eq.symm.trans standard)
  have inside : 47 ≤ (Text.ofString s).size := by decide +kernel
  have line : (Text.ofString s).lineIndex 47 + 1 = 5 := by decide +kernel
  let ix : Indenter := ⟨.ofText {} (.ofString s), style, ⟨Grammar.standardLevels, []⟩⟩
  have computed : (ix.indentFor 47).value = .ok 12 := by decide +kernel
  obtain ⟨column, found, climbs⟩ := columns 47 inside
  obtain rfl : 12 = column := Except.ok.inj (computed.symm.trans found)
  exact ⟨few, short, _, standard, found, line ▸ climbs⟩

end Indenter
end SasLayout
