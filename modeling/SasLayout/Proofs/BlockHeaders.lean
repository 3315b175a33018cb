import SasLayout.Block.Navigate
import SasLayout.Proofs.Names
import SasLayout.Proofs.NearestOpener

set_option autoImplicit false

/-!
The way from block to block in plain code. The headers are the statements whose first logical token
is an opening word. A walk forward from an offset ends at the first header that starts after it. A
walk backward ends at the last header whose opening word ends by the offset, so it passes over a
header inside whose word it begins.
-/
namespace SasLayout

/-- The walk stops at every header but the option `data =`. -/
theorem Block.Kind.stops_iff (kind : Block.Kind) :
    (kind.isOpener = true ∨ kind = .error) ↔ (kind.isHeader = true ∧ kind ≠ .dataAssignment) := by
  cases kind <;> simp [isOpener, isHeader]

/-! ### Headers -/

namespace Source

/-- The headers of blocks, each from the start of its statement to the end of the opening word. -/
def headers (src : Source) : List Extent :=
  src.statements.filterMap fun st =>
    ((src.logicalAfter? st.start).filter (·.keyword?.any (Block.openers.contains ·))).map
      fun tok => ⟨st.start, tok.stop⟩

/-- Whether a statement begins with `data =`. -/
def isAssignment (src : Source) (st : Extent) : Bool :=
  (src.logicalAfter? st.start).any (·.kind = .assignmentTarget)

variable {src : Source} {st h : Extent} {tok : Token} {k : Keyword}

theorem header_bounds (listed : h ∈ src.headers) : h.start < src.size ∧ h.start < h.stop := by
  obtain ⟨st, -, found⟩ := List.mem_filterMap.mp listed
  obtain ⟨tok, first, rfl⟩ := Option.map_eq_some_iff.mp found
  exact logicalAfter?_bounds (Option.filter_eq_some_iff.mp first).1

/-- A logical token that spells a keyword is the code token itself. -/
theorem resolve_spelled (spelled : (src.resolve tok).keyword? = some k) :
    src.resolve tok = tok := by
  rcases src.resolve_cases tok with same | merged | operand
  · exact same
  · rw [Token.keyword?, merged] at spelled
    cases spelled
  · rw [Token.keyword?, operand] at spelled
    cases spelled

/-- An opening word is left alone, but for `data` before an equals sign. -/
theorem resolve_opener (src : Source) (opens : k ∈ Block.openers)
    (spelled : tok.keyword? = some k) :
    src.resolve tok = tok ∨ k = .data ∧ (src.resolve tok).kind = .assignmentTarget := by
  simp only [Block.openers, List.mem_cons, List.not_mem_nil, or_false] at opens
  unfold resolve
  rw [spelled]
  rcases opens with rfl | rfl | rfl
  · exact Or.inl rfl
  · simp only
    split
    · split
      · exact Or.inr ⟨trivial, rfl⟩
      · exact Or.inl rfl
    · exact Or.inl rfl
  · exact Or.inl rfl

theorem eq_of_start {st' : Extent} (listed : st ∈ src.statements) (listed' : st' ∈ src.statements)
    (start : st.start = st'.start) : st = st' := by
  obtain ⟨-, -, stop⟩ := mem_statementsFrom st listed
  obtain ⟨-, -, stop'⟩ := mem_statementsFrom st' listed'
  rw [← start] at stop'
  cases st
  cases st'
  simp_all

namespace Plain

variable (plain : src.Plain)
include plain

/-- The first logical token of a statement is its first token, resolved. -/
theorem logicalAfter?_start (listed : st ∈ src.statements) :
    src.logicalAfter? st.start = some (src.resolve (src.text.tokenAt st.start)) := by
  rw [logicalAfter?, codeAfter?_eq_match, plain.tokenAfter?_start listed]
  simp only [tokenAt_code, Bool.false_eq_true, if_false, Option.map_some]

/-- A statement is a header if its first token is an opening word and not a part of `data =`. -/
theorem mem_headers :
    h ∈ src.headers ↔ ∃ st ∈ src.statements, src.isAssignment st = false ∧
      ∃ k ∈ Block.openers, src.leader? st = some k ∧
        h = ⟨st.start, st.start + (Program.bytes k.spelling).length⟩ := by
  rw [headers, List.mem_filterMap]
  apply exists_congr
  intro st
  apply and_congr_right
  intro listed
  rw [isAssignment, plain.logicalAfter?_start listed, plain.leader?_eq listed, Option.any_some,
    decide_eq_false_iff_not]
  simp only [Option.map_eq_some_iff, Option.filter_eq_some_iff, Option.some.injEq,
    Option.any_eq_true, List.contains_iff_mem]
  constructor
  · rintro ⟨tok, ⟨rfl, k, spelled, opens⟩, rfl⟩
    have same := resolve_spelled spelled
    have stop := Text.stop_of_keyword? (Block.words_of_openers k opens) (same ▸ spelled)
    refine ⟨fun merged => ?_, k, opens, same ▸ spelled, by rw [same, stop]⟩
    rw [Token.keyword?, merged] at spelled
    cases spelled
  · rintro ⟨alone, k, opens, spelled, rfl⟩
    have same := (src.resolve_opener opens spelled).resolve_right fun merged =>
      alone merged.2
    have stop := Text.stop_of_keyword? (Block.words_of_openers k opens) spelled
    exact ⟨_, ⟨rfl, k, same.symm ▸ spelled, opens⟩, by rw [same, stop]⟩

/-- Of the opening words only `data` begins an assignment. -/
theorem eq_data_of_isAssignment (listed : st ∈ src.statements) (opens : k ∈ Block.openers)
    (leads : src.leader? st = some k) (merged : src.isAssignment st = true) : k = .data := by
  rw [plain.leader?_eq listed] at leads
  rw [isAssignment, plain.logicalAfter?_start listed, Option.any_some, decide_eq_true_eq] at merged
  rcases src.resolve_opener opens leads with same | ⟨data, -⟩
  · rw [Token.keyword?, ← same, merged] at leads
    cases leads
  · exact data

end Plain
end Source

namespace Source

variable {src : Source} {anchor : Nat} {towards : Direction} {near : Option Nat}

/-- The starts of the headers that a search from `anchor` has before it. -/
def startsAhead (src : Source) (anchor : Nat) (towards : Direction) : List Nat :=
  (src.headers.filter (·.Ahead anchor towards)).map (·.start)

theorem mem_startsAhead {p : Nat} : p ∈ src.startsAhead anchor towards ↔
    ∃ h ∈ src.headers, h.Ahead anchor towards ∧ h.start = p := by
  simp only [startsAhead, List.mem_map, List.mem_filter, decide_eq_true_eq, and_assoc]

/-- Behind a keyword that is no header the search has the same headers before it. -/
theorem startsAhead_beyond {m : Extent} (ahead : m.Ahead anchor towards)
    (proper : m.start < m.stop)
    (passes : ∀ h ∈ src.headers, h.Ahead anchor towards → h.Ahead (m.beyond towards) towards) :
    src.startsAhead (m.beyond towards) towards = src.startsAhead anchor towards := by
  apply congrArg fun headers : List Extent => headers.map (·.start)
  apply List.filter_congr
  intro h listed
  rw [decide_eq_decide]
  exact ⟨fun further => further.trans ahead proper, passes h listed⟩

/-- Of the headers that a search from `anchor` has before it, the start that it meets first. -/
def Nearest (src : Source) (anchor : Nat) (towards : Direction) : Option Nat → Prop
  | none => src.startsAhead anchor towards = []
  | some p => p ∈ src.startsAhead anchor towards ∧
    ∀ q ∈ src.startsAhead anchor towards, towards.Meets p q

theorem Nearest.min? (nearest : src.Nearest anchor .forward near) :
    near = (src.startsAhead anchor .forward).min? := by
  symm
  cases near with
  | none => exact List.min?_eq_none_iff.mpr nearest
  | some p => exact List.min?_eq_some_iff.mpr nearest

theorem Nearest.max? (nearest : src.Nearest anchor .backward near) :
    near = (src.startsAhead anchor .backward).max? := by
  symm
  cases near with
  | none => exact List.max?_eq_none_iff.mpr nearest
  | some p => exact List.max?_eq_some_iff.mpr nearest

end Source

/-! ### From header to header -/

namespace Scanner

variable {sc : Scanner} {st place h : Extent} {k : Keyword} {anchor : Nat} {towards : Direction}

theorem beyond_le {m : Extent} (found : (sc.search sc.keywords anchor towards).value = .found m) :
    m.beyond towards ≤ sc.text.size := by
  obtain ⟨matched, -⟩ := search_matches found
  obtain ⟨positive, within, -⟩ := Pattern.blockKeyword_ends _ _ _ _ matched.here
  cases towards with
  | forward =>
    simp only [Extent.beyond]
    omega
  | backward => exact Text.le_size_of_boundary matched.starts

theorem stopAt_value (short : sc.text.size < sc.settings.limits.retries) (place : Extent) :
    ∃ found, (sc.stopAt place).value = .ok found ∧
      found.map (·.start) =
        if (sc.blockAt place).value.kind.isOpener ∨ (sc.blockAt place).value.kind = .error then
          some place.start
        else none := by
  rw [stopAt, Logged.value_bind]
  split
  · rename_i opens
    obtain ⟨stop, ended⟩ := endOfBlock_ok short (sc.blockAt place).value
    refine ⟨some { (sc.blockAt place).value with stop }, ?_, ?_⟩
    · rw [Logged.value_bind, withEnd, if_pos opens, Logged.value_map, ended]
      rfl
    · rw [if_pos (Or.inl opens), ← blockAt_start place]
      rfl
  · rename_i closed
    split
    · rename_i error
      refine ⟨_, rfl, ?_⟩
      rw [if_pos (Or.inr error), ← blockAt_start place]
      rfl
    · rename_i named
      refine ⟨none, rfl, ?_⟩
      rw [if_neg (not_or.mpr ⟨closed, named⟩)]
      rfl

section Plain

variable (plain : sc.Plain)
include plain

theorem Plain.blockAt_data (listed : st ∈ sc.source.statements)
    (leads : sc.source.leader? st = some .data) (start : st.start = place.start) :
    (sc.blockAt place).value.kind =
      if sc.source.isAssignment st then .dataAssignment else .data := by
  have announces := (plain.announces_iff listed (by decide)).mpr leads
  rw [start] at announces
  have mend : ¬ sc.isMacroEnd place = true := by
    intro stands
    cases announces.unique (show Keyword.macroEnd ∈ Block.words by decide) stands
  have data : sc.text.startsWithLower place.start Text.dataWord = true := announces.stands
  have within : st.start ≤ sc.source.size := Nat.le_of_lt (Source.mem_statementsFrom st listed).2.1
  have first := plain.code.logicalAfter?_start listed
  have here : sc.source.logicalAt? place.start = sc.source.logicalAfter? st.start := by
    rw [← start, Source.logicalAt?, Source.logicalToken?, if_neg (Nat.not_lt.mpr within),
      plain.code.ascii.floor within, first, Option.filter_some, Source.resolve_start]
    exact if_pos (decide_eq_true rfl)
  rw [blockAt, if_neg mend, if_pos data, here, Source.isAssignment, first, Option.any_some]
  simp only [decide_eq_true_eq]
  split <;> rfl

/-- The walk stops at a keyword that counts if it is a header. -/
theorem Plain.stops_iff (counts : sc.Counts sc.keywords place) :
    ((sc.blockAt place).value.kind.isOpener = true ∨ (sc.blockAt place).value.kind = .error) ↔
      place ∈ sc.source.headers := by
  obtain ⟨k, announces, st, listed, start, leads⟩ := plain.leader_of_counts counts
  have words := blockAt_words announces
  have data (same : k = .data) := plain.blockAt_data listed (same ▸ leads) start
  rw [Block.Kind.stops_iff, Block.Kind.isHeader_iff words, plain.code.mem_headers]
  constructor
  · rintro ⟨opens, other⟩
    have word := (plain.counts_of_opener listed opens leads).matched
    refine ⟨st, listed, ?_, k, opens, leads, counts.matched.eq_of_start word start.symm⟩
    rw [Bool.eq_false_iff]
    intro merged
    apply other
    rw [data (plain.code.eq_data_of_isAssignment listed opens leads merged), if_pos merged]
  · rintro ⟨st', listed', alone, k', opens, leads', rfl⟩
    obtain rfl : st = st' := Source.eq_of_start listed listed' start
    cases leads.symm.trans leads'
    refine ⟨opens, fun merged => ?_⟩
    rw [merged] at words
    rw [data (List.mem_singleton.mp words), alone] at merged
    cases merged

theorem Plain.counts_of_header (listed : h ∈ sc.source.headers) : sc.Counts sc.keywords h := by
  obtain ⟨st, member, -, k, opens, leads, rfl⟩ := plain.code.mem_headers.mp listed
  exact plain.counts_of_opener member opens leads

/-- A search passes over no header. -/
theorem Plain.search_header (listed : h ∈ sc.source.headers) (ahead : h.Ahead anchor towards)
    (within : anchor ≤ sc.text.size) :
    ∃ m, (sc.search sc.keywords anchor towards).value = .found m ∧
      (m = h ∨ h.Ahead (m.beyond towards) towards) := by
  have enclosed := Pattern.blockKeyword_enclosed sc.settings.quitCloses
  have ends := Pattern.blockKeyword_ends sc.settings.quitCloses
  have counts := plain.counts_of_header listed
  cases towards with
  | forward => exact plain.search_forward_reaches enclosed ends counts ahead
  | backward =>
    obtain ⟨st, member, -, k, opens, leads, rfl⟩ := plain.code.mem_headers.mp listed
    have hollow := plain.keywords_hollow member opens leads
    exact plain.search_backward_reaches enclosed ends counts hollow ahead within

/-- The walk from `anchor` on ends at the nearest header. -/
theorem Plain.stopFrom_nearest {wanted : Extent → Bool}
    (admits : ∀ m : Extent, m.start < m.stop → m.Ahead anchor towards → wanted m = true)
    (within : anchor ≤ sc.text.size) (offset : Nat) {retries : Nat}
    (enough : sc.room anchor towards < retries) (events : Array Event) :
    ∃ found, (sc.stopFrom towards wanted offset retries anchor events).value = .ok found ∧
      sc.source.Nearest anchor towards (found.map (·.start)) := by
  induction retries generalizing anchor events with
  | zero => exact absurd enough (Nat.not_lt_zero _)
  | succ retries ih =>
    have ends := Pattern.blockKeyword_ends sc.settings.quitCloses
    rw [stopFrom]
    cases ended : (sc.search sc.keywords anchor towards).value with
    | absent =>
      refine ⟨none, rfl, List.eq_nil_iff_forall_not_mem.mpr fun p listed => ?_⟩
      obtain ⟨h, member, ahead, -⟩ := Source.mem_startsAhead.mp listed
      obtain ⟨m, found, -⟩ := plain.search_header member ahead within
      cases found.symm.trans ended
    | gaveUp limit => exact absurd ended (search_ne_gaveUp plain.short ends _ _ _)
    | found m =>
      have less := room_search ends ended
      obtain ⟨proper, ahead⟩ := search_ahead (Pattern.blockKeyword_positive _) ended
      have passes {h : Extent} (listed : h ∈ sc.source.headers)
          (further : h.Ahead anchor towards) : h = m ∨ h.Ahead (m.beyond towards) towards := by
        obtain ⟨m', found, behind⟩ := plain.search_header listed further within
        obtain rfl := SearchEnd.found.inj (found.symm.trans ended)
        exact behind.imp_left Eq.symm
      obtain ⟨found, stops, start⟩ := stopAt_value plain.short m
      simp only [plain.stops_iff (plain.search_counts ended)] at start
      simp only [admits m proper ahead, if_true, stops]
      by_cases header : m ∈ sc.source.headers
      · rw [if_pos header] at start
        cases found with
        | none => cases start
        | some b =>
          refine ⟨some b, rfl, ?_⟩
          rw [start]
          refine ⟨Source.mem_startsAhead.mpr ⟨m, header, ahead, rfl⟩, fun p listed => ?_⟩
          obtain ⟨h, member, further, rfl⟩ := Source.mem_startsAhead.mp listed
          rcases passes member further with rfl | later
          · exact .refl towards h.start
          · exact later.meets proper (Source.header_bounds member).2
      · rw [if_neg header, Option.map_eq_none_iff] at start
        subst start
        have same : sc.source.startsAhead (m.beyond towards) towards =
            sc.source.startsAhead anchor towards := by
          apply Source.startsAhead_beyond ahead proper
          intro h listed further
          apply (passes listed further).resolve_left
          rintro rfl
          exact header listed
        have admits' (h : Extent) (proper' : h.start < h.stop)
            (further : h.Ahead (m.beyond towards) towards) : wanted h = true :=
          admits h proper' (further.trans ahead proper)
        obtain ⟨found, value, nearest⟩ := ih admits' (beyond_le ended) (by omega) _
        refine ⟨found, value, ?_⟩
        unfold Source.Nearest at nearest ⊢
        rwa [same] at nearest

/-- From the byte after `offset` on, the walk forward has the headers after `offset` before it. -/
theorem Plain.next_le_iff {offset p : Nat} (within : offset ≤ sc.text.size)
    (inside : p < sc.text.size) : sc.text.next offset ≤ p ↔ offset < p := by
  rcases Nat.lt_or_eq_of_le within with proper | last
  · rw [plain.ascii.next proper]
    exact Nat.succ_le_iff
  · have past : sc.text.next offset = sc.text.size := by
      rw [Text.next, Text.seek, if_neg (by omega)]
    omega

end Plain

/-- In plain code the next block is the first header after the offset. -/
theorem nextBlock_successor (sc : Scanner) (plain : sc.Plain) (offset : Nat)
    (within : offset ≤ sc.source.size) :
    ∃ found, (sc.nextBlock offset).value = .ok found ∧
      found.map (·.start) = ((sc.source.headers.map (·.start)).filter (offset < ·)).min? := by
  have enough : sc.room (sc.text.next offset) .forward < sc.settings.limits.retries :=
    Nat.lt_of_le_of_lt (sc.room_le _ _) plain.short
  have next : sc.text.next offset ≤ sc.text.size := sc.text.seek_le_size _ _
  have admits (m : Extent) (_ : m.start < m.stop) (_ : m.Ahead (sc.text.next offset) .forward) :
      (fun _ : Extent => true) m = true := rfl
  obtain ⟨found, value, nearest⟩ := plain.stopFrom_nearest admits next offset enough #[]
  refine ⟨found, ?_, ?_⟩
  · rw [nextBlock, Source.checkOffset_within within, plain.code.ascii.floor within]
    exact value
  · rw [nearest.min?, Source.startsAhead, List.filter_map]
    apply congrArg fun headers : List Extent => (headers.map (·.start)).min?
    apply List.filter_congr
    intro h listed
    exact decide_eq_decide.mpr (plain.next_le_iff within (Source.header_bounds listed).1)

/-- Inside the word of a header, and behind words that are no headers. -/
theorem nextBlock_successor_passed :
    let sc : Scanner :=
      ⟨.ofText {} (.ofString "proc a; run; data = 1; x data; %mend; %macro; data b;"), {}⟩
    sc.Plain ∧ sc.source.headers = [⟨0, 4⟩, ⟨38, 44⟩, ⟨46, 50⟩] ∧
      ∃ found, (sc.nextBlock 0).value = .ok found ∧ found.map (·.start) = some 38 := by
  intro sc
  have plain : sc.Plain :=
    ⟨⟨Text.ascii_of_all (by decide +kernel), by decide +kernel⟩, by decide +kernel, rfl⟩
  have headers : sc.source.headers = [⟨0, 4⟩, ⟨38, 44⟩, ⟨46, 50⟩] := by decide +kernel
  obtain ⟨found, value, start⟩ := nextBlock_successor sc plain 0 (Nat.zero_le _)
  rw [headers] at start
  exact ⟨plain, headers, found, value, start⟩

/-- In plain code the previous block is the last header whose opening word ends by the offset. It is
the last header before the offset unless the offset is inside such a word. -/
theorem previousBlock_predecessor (sc : Scanner) (plain : sc.Plain) (offset : Nat)
    (within : offset ≤ sc.source.size) :
    ∃ found, (sc.previousBlock offset).value = .ok found ∧
      found.map (·.start) =
        ((sc.source.headers.filter (·.stop ≤ offset)).map (·.start)).max? ∧
      ((∀ h ∈ sc.source.headers, ¬ (h.start < offset ∧ offset < h.stop)) →
        found.map (·.start) = ((sc.source.headers.map (·.start)).filter (· < offset)).max?) := by
  have enough : sc.room offset .backward < sc.settings.limits.retries :=
    Nat.lt_of_le_of_lt (sc.room_le _ _) plain.short
  have admits (m : Extent) (proper : m.start < m.stop) (ahead : m.Ahead offset .backward) :
      decide (m.start < offset) = true :=
    decide_eq_true (Nat.lt_of_lt_of_le proper ahead)
  obtain ⟨found, value, nearest⟩ := plain.stopFrom_nearest admits within offset enough #[]
  have last : found.map (·.start) =
      ((sc.source.headers.filter (·.stop ≤ offset)).map (·.start)).max? := nearest.max?
  refine ⟨found, ?_, last, fun outside => ?_⟩
  · rw [previousBlock, Source.checkOffset_within within, plain.code.ascii.floor within]
    exact value
  · rw [last, List.filter_map]
    apply congrArg fun headers : List Extent => (headers.map (·.start)).max?
    apply List.filter_congr
    intro h listed
    have proper := (Source.header_bounds listed).2
    have apart := outside h listed
    exact decide_eq_decide.mpr (show h.stop ≤ offset ↔ h.start < offset by omega)

/-- Inside the word of a header the walk backward ends at the header before it. -/
theorem previousBlock_predecessor_inside :
    let sc : Scanner := ⟨.ofText {} (.ofString "proc a; run; data = 1; data b;"), {}⟩
    sc.Plain ∧ sc.source.headers = [⟨0, 4⟩, ⟨23, 27⟩] ∧
      (∃ found, (sc.previousBlock 25).value = .ok found ∧ found.map (·.start) = some 0) ∧
      ∃ found, (sc.previousBlock 27).value = .ok found ∧ found.map (·.start) = some 23 := by
  intro sc
  have plain : sc.Plain :=
    ⟨⟨Text.ascii_of_all (by decide +kernel), by decide +kernel⟩, by decide +kernel, rfl⟩
  have headers : sc.source.headers = [⟨0, 4⟩, ⟨23, 27⟩] := by decide +kernel
  obtain ⟨inside, value, start, -⟩ := previousBlock_predecessor sc plain 25 (by decide +kernel)
  obtain ⟨behind, value', -, start'⟩ := previousBlock_predecessor sc plain 27 (by decide +kernel)
  rw [headers] at start start'
  exact ⟨plain, headers, ⟨inside, value, start⟩, behind, value', start' (by decide)⟩

/-- Inside the only opening word no header is found, though one starts before. -/
theorem previousBlock_inside_word :
    let sc : Scanner := ⟨.ofText {} (.ofString "data a;"), {}⟩
    sc.Plain ∧ ((sc.source.headers.map (·.start)).filter (· < 2)).max? = some 0 ∧
      (sc.previousBlock 2).value = .ok none := by
  intro sc
  exact ⟨⟨⟨Text.ascii_of_all (by decide +kernel), by decide +kernel⟩, by decide +kernel, rfl⟩,
    by decide +kernel, by decide +kernel⟩

end Scanner
end SasLayout
