import SasLayout.Proofs.PlainSearch

set_option autoImplicit false

/-!
The end of a block as a scan of statements. The searches know nothing of statements: they pass from
one match to the next over the bytes of the text. In plain code their result is that of a scan that
reads the statements behind the header one by one.
-/
namespace SasLayout

/-! ### The scan -/

namespace Source

/-- Whether a semicolon ends the statement. -/
def isTerminated (src : Source) (st : Extent) : Bool :=
  (src.map.nextTerminator? st.start).isSome

/-- Whether nothing but options stands between the first token of the statement and its
semicolon. -/
def hasOptions (src : Source) (st : Extent) : Bool :=
  src.isTerminated st && (src.tokenAfter? st.start).any fun word =>
    Text.isOptions (src.text.slice word.stop (st.stop - 1)).toList

/-- Whether the statement closes a step. -/
def closesStep (src : Source) (quitCloses : Bool) (st : Extent) : Bool :=
  (src.leader? st == some .run || quitCloses && src.leader? st == some .quit) && src.hasOptions st

/-- The end of the first of the statements that closes a step. -/
def stepStop (src : Source) (quitCloses : Bool) (statements : List Extent) : Nat :=
  (statements.find? (src.closesStep quitCloses)).elim src.size (·.stop)

/-- The end of the statement that closes the outermost of `depth` macro definitions. -/
def macroStop (src : Source) : (depth : Nat) → List Extent → Nat
  | _, [] => src.size
  | depth, st :: rest =>
    match src.leader? st with
    | some .macroBegin => src.macroStop (depth + 1) rest
    | some .macroEnd =>
      if depth = 1 then if src.isTerminated st then st.stop else src.size
      else src.macroStop (depth - 1) rest
    | _ => src.macroStop depth rest

end Source

/-! ### The keywords of statements -/

/-- A word of blocks holds no semicolon, so the next one follows behind it. -/
theorem Text.semicolon?_behind {t : Text} {i : Nat} {k : Keyword} (listed : k ∈ Block.words)
    (stands : t.startsWithLower i (Program.bytes k.spelling) = true) :
    t.semicolon? (i + (Program.bytes k.spelling).length) = t.semicolon? i := by
  apply Option.ext
  intro last
  rw [semicolon?_eq_some_iff, semicolon?_eq_some_iff]
  constructor
  · rintro ⟨lower, here, before⟩
    refine ⟨by omega, here, fun j above below => ?_⟩
    by_cases word : j < i + (Program.bytes k.spelling).length
    · exact (keyword_inside listed stands above word).2
    · exact before j (by omega) below
  · rintro ⟨lower, here, before⟩
    refine ⟨?_, here, fun j above below => before j (by omega) below⟩
    apply Nat.le_of_not_lt
    intro early
    rw [(keyword_inside listed stands lower early).2] at here
    cases here

namespace Scanner

variable {sc : Scanner} {st : Extent}

section Plain

variable (plain : sc.Plain)
include plain

/-- A statement with a semicolon extends to it. -/
theorem Plain.extent_eq (listed : st ∈ sc.source.statements) {last : Nat}
    (next : sc.text.semicolon? st.start = some last) :
    (⟨st.start, st.start + (last + 1 - st.start)⟩ : Extent) = st := by
  obtain ⟨-, -, stop⟩ := Source.mem_statementsFrom st listed
  have lower := (Text.semicolon?_bounds next).1
  rw [plain.code.statementStop_some next] at stop
  cases st
  simp only [Extent.mk.injEq, true_and] at *
  omega

theorem Plain.leader?_eq (listed : st ∈ sc.source.statements) :
    sc.source.leader? st = (sc.text.tokenAt st.start).keyword? :=
  plain.code.leader?_eq listed

theorem Plain.isTerminated_eq (st : Extent) :
    sc.source.isTerminated st = (sc.text.semicolon? st.start).isSome :=
  congrArg Option.isSome (plain.code.nextTerminator? st.start)

/-- A closing word with options behind it makes up its statement. -/
theorem Plain.closer_eq (listed : st ∈ sc.source.statements) {k : Keyword}
    (known : k ∈ Block.words) (leads : sc.source.leader? st = some k) :
    ((sc.text.closerStop? (st.start + (Program.bytes k.spelling).length)).map (· - st.start)).map
        (fun length => (⟨st.start, st.start + length⟩ : Extent)) =
      if sc.source.hasOptions st then some st else none := by
  have stands := ((plain.announces_iff listed known).mpr leads).stands
  rw [plain.leader?_eq listed] at leads
  have within := Text.startsWithLower_within stands
    (Program.ne_nil_of_isSpelled (Program.Word.keyword_spelled k))
  have word : (sc.source.text.tokenAt st.start).stop = _ := Text.stop_of_keyword? known leads
  rw [plain.ascii.closerStop?_eq within, Text.semicolon?_behind known stands, Source.hasOptions,
    plain.isTerminated_eq, plain.code.tokenAfter?_start listed, Option.any_some, word]
  cases next : sc.text.semicolon? st.start with
  | none => rfl
  | some last =>
    have extent := plain.extent_eq listed next
    have stop : st.stop - 1 = last := by
      have lower := (Text.semicolon?_bounds next).1
      have same := congrArg Extent.stop extent
      simp only at same
      omega
    rw [stop, Option.filter_some, Option.isSome_some, Bool.true_and,
      show sc.source.text = sc.text from rfl]
    split
    · exact congrArg some extent
    · rfl

/-- The keyword that closes a step is a whole statement. -/
theorem Plain.keywordAt?_stepCloser (quitCloses : Bool) (listed : st ∈ sc.source.statements) :
    sc.keywordAt? (Pattern.stepCloser quitCloses) st.start =
      if sc.source.closesStep quitCloses st then some st else none := by
  have starts := plain.startsStatement_start listed
  have run : sc.text.wholeWordAt Text.runWord st.start = true ↔
      sc.source.leader? st = some .run := by
    rw [plain.leader?_eq listed]
    exact plain.code.wholeWordAt_iff starts (k := .run) (by decide)
  have quit : sc.text.wholeWordAt Text.quitWord st.start = true ↔
      sc.source.leader? st = some .quit := by
    rw [plain.leader?_eq listed]
    exact plain.code.wholeWordAt_iff starts (k := .quit) (by decide)
  unfold keywordAt? Pattern.stepCloser Source.closesStep
  split
  · rename_i found
    have leads := run.mp found
    have closed := plain.closer_eq listed (by decide) leads
    rw [show (Program.bytes Keyword.run.spelling).length = 3 from rfl] at closed
    rw [leads, beq_self_eq_true, Bool.true_or, Bool.true_and]
    exact closed
  rename_i other
  rw [run] at other
  split
  · rename_i both
    obtain ⟨closes, found⟩ := Bool.and_eq_true_iff.mp both
    have leads := quit.mp found
    have closed := plain.closer_eq listed (by decide) leads
    rw [show (Program.bytes Keyword.quit.spelling).length = 4 from rfl] at closed
    rw [leads, closes, beq_self_eq_true, Bool.and_self, Bool.or_true, Bool.true_and]
    exact closed
  · rename_i neither
    rw [Bool.and_eq_true, quit] at neither
    rw [if_neg]
    · rfl
    · simp only [Bool.and_eq_true, Bool.or_eq_true, beq_iff_eq]
      rintro ⟨leads | both, -⟩
      · exact other leads
      · exact neither both

/-- The keyword that opens a macro definition stands alone, and the one that closes it is a whole
statement. -/
theorem Plain.keywordAt?_macroKeyword (listed : st ∈ sc.source.statements) :
    sc.keywordAt? Pattern.macroKeyword st.start =
      match sc.source.leader? st with
      | some .macroBegin => some ⟨st.start, st.start + 6⟩
      | some .macroEnd => if sc.source.isTerminated st then some st else none
      | _ => none := by
  have opens : sc.text.signWordAt Text.macroWord st.start = true ↔
      sc.source.leader? st = some .macroBegin := by
    rw [plain.leader?_eq listed]
    exact plain.ascii.signWordAt_iff (k := .macroBegin) (by decide)
  have closes : sc.text.signWordAt Text.mendWord st.start = true ↔
      sc.source.leader? st = some .macroEnd := by
    rw [plain.leader?_eq listed]
    exact plain.ascii.signWordAt_iff (k := .macroEnd) (by decide)
  unfold keywordAt? Pattern.macroKeyword
  split
  · rename_i found
    rw [opens.mp found]
    rfl
  rename_i other
  rw [opens] at other
  split
  · rename_i found
    have stands := (Bool.and_eq_true_iff.mp found).1
    rw [closes.mp found, plain.isTerminated_eq]
    have next := Text.semicolon?_behind (k := .macroEnd) (by decide) stands
    rw [show st.start + 5 = st.start + (Program.bytes Keyword.macroEnd.spelling).length from rfl,
      next]
    cases ended : sc.text.semicolon? st.start with
    | none => rfl
    | some last => exact congrArg some (plain.extent_eq listed ended)
  · rename_i neither
    rw [closes] at neither
    split
    · exact absurd ‹_› other
    · exact absurd ‹_› neither
    · rfl

theorem Plain.isMacroEnd_opener (listed : st ∈ sc.source.statements)
    (leads : sc.source.leader? st = some .macroBegin) {place : Extent}
    (start : place.start = st.start) : sc.isMacroEnd place = false := by
  have announces := (plain.announces_iff listed (by decide)).mpr leads
  rw [isMacroEnd, start, Bool.eq_false_iff]
  intro stands
  cases announces.unique (show Keyword.macroEnd ∈ Block.words by decide) stands

theorem Plain.isMacroEnd_closer (listed : st ∈ sc.source.statements)
    (leads : sc.source.leader? st = some .macroEnd) : sc.isMacroEnd st = true :=
  ((plain.announces_iff listed (by decide)).mpr leads).stands

end Plain

/-! ### The loops over keywords -/

/-- The first place that closes more than was opened before it, when `nested` are open at first. -/
def partner? (closes : Extent → Bool) : (nested : Nat) → List Extent → Option Extent
  | _, [] => none
  | nested, place :: rest =>
    if closes place then if nested = 0 then some place else partner? closes (nested - 1) rest
    else partner? closes (nested + 1) rest

section Plain

variable (plain : sc.Plain)
include plain

/-- The first keyword that counts is the first statement that closes a step. -/
theorem Plain.stepEnd_eq (anchor : Nat) :
    (sc.stepEnd anchor).value = .ok (sc.source.stepStop sc.settings.quitCloses
      (sc.source.statements.filter (anchor ≤ ·.start))) := by
  have closers : sc.countedFrom (Pattern.stepCloser sc.settings.quitCloses) anchor =
      (sc.source.statements.filter (anchor ≤ ·.start)).filter
        (sc.source.closesStep sc.settings.quitCloses) := by
    rw [countedFrom_eq_filterMap,
      ← congrFun (List.filterMap_eq_filter (p := sc.source.closesStep _))]
    apply List.filterMap_congr
    intro st listed
    exact plain.keywordAt?_stepCloser _ (List.mem_of_mem_filter listed)
  rw [stepEnd, Logged.value_bind,
    plain.search_forward (Pattern.stepCloser_enclosed _) (Pattern.stepCloser_ends _), closers,
    Source.stepStop, ← List.head?_filter]
  cases ahead : (sc.source.statements.filter (anchor ≤ ·.start)).filter
      (sc.source.closesStep sc.settings.quitCloses) with
  | nil => rfl
  | cons st rest =>
    have listed : st ∈ sc.source.statements :=
      List.mem_of_mem_filter (List.mem_of_mem_filter (ahead ▸ List.mem_cons_self))
    obtain ⟨-, inside, stop⟩ := Source.mem_statementsFrom st listed
    have whole : sc.closerEnd st = st.stop := by
      rw [closerEnd, plain.ascii.floor (Nat.le_of_lt inside), stop]
    rw [List.head?_cons, Option.elim_some, ← whole]
    rfl

/-- The end of a macro definition is the end of the partner of its opener. -/
theorem Plain.macroEndFrom_eq (name : Text) (nested anchor : Nat) :
    (sc.macroEndFrom name nested anchor #[]).value =
      .ok ((partner? sc.isMacroEnd nested (sc.countedFrom Pattern.macroKeyword anchor)).elim
        sc.text.size (·.stop)) := by
  have enclosed := Pattern.macroKeyword_enclosed
  have ends := Pattern.macroKeyword_ends
  induction ahead : sc.countedFrom Pattern.macroKeyword anchor generalizing nested anchor with
  | nil =>
    rw [macroEndFrom_value, plain.search_forward enclosed ends, ahead]
    rfl
  | cons place rest ih =>
    have behind := plain.countedFrom_stop enclosed ends ahead
    rw [macroEndFrom_value, plain.search_forward enclosed ends, ahead, partner?]
    simp only
    split
    · cases nested with
      | zero => rfl
      | succ outer => exact ih outer place.stop behind
    · exact ih (nested + 1) place.stop behind

/-- No statement follows one without a semicolon. -/
theorem Plain.rest_nil {rest : List Extent} (listed : st ∈ sc.source.statements)
    (unended : ¬ sc.source.isTerminated st = true) (inside : ∀ st ∈ rest, st.start < sc.text.size)
    (apart : (st :: rest).Pairwise fun a b => a.stop ≤ b.start) : rest = [] := by
  obtain ⟨-, -, stop⟩ := Source.mem_statementsFrom st listed
  have none : sc.text.semicolon? st.start = none := by
    simpa [plain.isTerminated_eq] using unended
  rw [plain.code.statementStop_none none] at stop
  apply List.eq_nil_iff_forall_not_mem.mpr
  intro next later
  have bound := List.rel_of_pairwise_cons apart later
  have below := inside next later
  rw [stop] at bound
  exact absurd below (Nat.not_lt.mpr bound)

/-- Reading the statements one by one finds the same partner. -/
theorem Plain.macroStop_eq (nested : Nat) {statements : List Extent}
    (listed : ∀ st ∈ statements, st ∈ sc.source.statements)
    (apart : statements.Pairwise fun a b => a.stop ≤ b.start) :
    sc.source.macroStop (nested + 1) statements =
      (partner? sc.isMacroEnd nested (statements.filterMap fun st =>
        sc.keywordAt? Pattern.macroKeyword st.start)).elim sc.text.size (·.stop) := by
  induction statements generalizing nested with
  | nil => rfl
  | cons st rest ih =>
    have here := listed st List.mem_cons_self
    have further (nested : Nat) := ih nested
      (fun st' later => listed st' (List.mem_cons_of_mem _ later)) apart.of_cons
    have keyword := plain.keywordAt?_macroKeyword here
    rw [Source.macroStop, List.filterMap_cons]
    split at keyword
    · rename_i leads
      have opens : sc.isMacroEnd ⟨st.start, st.start + 6⟩ = false :=
        plain.isMacroEnd_opener here leads rfl
      rw [keyword]
      simp only [partner?, opens, Bool.false_eq_true, if_false]
      exact further (nested + 1)
    · rename_i leads
      split at keyword
      · rename_i ended
        rw [keyword]
        simp only [partner?, plain.isMacroEnd_closer here leads, ended, if_true]
        cases nested with
        | zero => rfl
        | succ outer => exact further outer
      · rename_i unended
        have last := plain.rest_nil here unended (fun st' later =>
          (Source.mem_statementsFrom st' (listed st' (List.mem_cons_of_mem _ later))).2.1) apart
        rw [keyword, last, if_neg unended]
        split <;> rfl
    · rw [keyword]
      exact further nested

end Plain

/-- In plain code the end of a block is what a scan of the statements behind its header finds: for a
step the first one that closes a step, for a macro definition the one at which as many are closed as
were opened, and the end of the text when there is none. -/
theorem endOfBlock_scan (sc : Scanner) (plain : sc.Plain) (b : Block)
    (within : b.headerEnd ≤ sc.source.size) :
    let behind := sc.source.statements.filter (b.headerEnd ≤ ·.start)
    (sc.endOfBlock b).value = .ok (match b.kind with
      | .proc _ => sc.source.stepStop sc.settings.quitCloses behind
      | .data => sc.source.stepStop sc.settings.quitCloses behind
      | .macroBlock _ => sc.source.macroStop 1 behind
      | _ => b.headerEnd) := by
  intro behind
  have floor : sc.text.floor b.headerEnd = b.headerEnd := plain.ascii.floor within
  unfold endOfBlock
  rw [floor]
  cases b.kind with
  | proc name => exact plain.stepEnd_eq b.headerEnd
  | data => exact plain.stepEnd_eq b.headerEnd
  | macroBlock name =>
    have apart : behind.Pairwise fun a b => a.stop ≤ b.start :=
      (sc.source.statementsFrom_apart 0).filter _
    rw [plain.macroEndFrom_eq, countedFrom_eq_filterMap,
      ← plain.macroStop_eq 0 (fun st listed => List.mem_of_mem_filter listed) apart]
  | _ => rfl

/-- A closing word inside a statement, an assignment and options on two lines close no step; a
nested definition takes the first closer. -/
theorem endOfBlock_scan_nested :
    let step : Scanner :=
      ⟨.ofText {} (.ofString "data a; x run; run = 1; run a\nb; Run cancel; quit;"), {}⟩
    let definition : Scanner :=
      ⟨.ofText {} (.ofString "%macro a; %macro b; %mend b; x %mend; %mend; %mend;"), {}⟩
    step.Plain ∧ (step.endOfBlock ⟨.data, 0, 4, 4⟩).value = .ok 44 ∧
      definition.Plain ∧
        (definition.endOfBlock ⟨.macroBlock (.ofString "a"), 0, 8, 8⟩).value = .ok 44 := by
  intro step definition
  have first : step.Plain :=
    ⟨⟨Text.ascii_of_all (by decide +kernel), by decide +kernel⟩, by decide +kernel, rfl⟩
  have second : definition.Plain :=
    ⟨⟨Text.ascii_of_all (by decide +kernel), by decide +kernel⟩, by decide +kernel, rfl⟩
  refine ⟨first, ?_, second, ?_⟩
  · rw [endOfBlock_scan step first _ (by decide +kernel)]
    decide +kernel
  · rw [endOfBlock_scan definition second _ (by decide +kernel)]
    decide +kernel

end Scanner
end SasLayout
