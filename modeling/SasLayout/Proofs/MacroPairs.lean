import SasLayout.Proofs.NearestOpener
import SasLayout.Proofs.StatementScan

set_option autoImplicit false

/-!
Macro definitions from both ends. The opener of a definition is found by counting back from its
`%mend`, and its end by counting on from its name. Both counts run over the same keywords, and
between the two ends as many close as open. So in plain code the way back from a `%mend` and the way
on from what it leads to meet.
-/
namespace SasLayout

/-! ### Counts that meet -/

namespace Scanner

/-- After `nested` open ones the places close as many as they open in all, and at no point more. -/
structure Level (closes : Extent → Bool) (nested : Nat) (places : List Extent) : Prop where
  even : places.countP closes = nested + places.countP (!closes ·)
  above : ∀ part, part <+: places → part.countP closes ≤ nested + part.countP (!closes ·)

section Level

variable {closes : Extent → Bool} {nested : Nat} {place : Extent} {places : List Extent}

theorem level_nil : Level closes nested [] ↔ nested = 0 := by
  constructor
  · intro level
    have even := level.even
    simpa using even.symm
  · rintro rfl
    refine ⟨rfl, fun part within => ?_⟩
    rw [List.prefix_nil.mp within]
    exact Nat.zero_le _

theorem level_cons_closes (ends : closes place = true) :
    Level closes nested (place :: places) ↔ 0 < nested ∧ Level closes (nested - 1) places := by
  have count (part : List Extent) : (place :: part).countP closes = part.countP closes + 1 :=
    List.countP_cons_of_pos ends
  have other (part : List Extent) :
      (place :: part).countP (!closes ·) = part.countP (!closes ·) :=
    List.countP_cons_of_neg (by simp [ends])
  constructor
  · rintro ⟨even, above⟩
    have first := above [place] (List.cons_prefix_cons.mpr ⟨rfl, List.nil_prefix⟩)
    rw [count, other] at even first
    simp only [List.countP_nil] at first
    refine ⟨by omega, by omega, fun part within => ?_⟩
    have bound := above (place :: part) (List.cons_prefix_cons.mpr ⟨rfl, within⟩)
    rw [count, other] at bound
    omega
  · rintro ⟨positive, even, above⟩
    refine ⟨by rw [count, other]; omega, fun part within => ?_⟩
    cases part with
    | nil => exact Nat.zero_le _
    | cons first part =>
      obtain ⟨rfl, inner⟩ := List.cons_prefix_cons.mp within
      have bound := above part inner
      rw [count, other]
      omega

theorem level_cons_opens (opens : closes place = false) :
    Level closes nested (place :: places) ↔ Level closes (nested + 1) places := by
  have count (part : List Extent) : (place :: part).countP closes = part.countP closes :=
    List.countP_cons_of_neg (by simp [opens])
  have other (part : List Extent) :
      (place :: part).countP (!closes ·) = part.countP (!closes ·) + 1 :=
    List.countP_cons_of_pos (by simp [opens])
  constructor
  · rintro ⟨even, above⟩
    rw [count, other] at even
    refine ⟨by omega, fun part within => ?_⟩
    have bound := above (place :: part) (List.cons_prefix_cons.mpr ⟨rfl, within⟩)
    rw [count, other] at bound
    omega
  · rintro ⟨even, above⟩
    refine ⟨by rw [count, other]; omega, fun part within => ?_⟩
    cases part with
    | nil => exact Nat.zero_le _
    | cons first part =>
      obtain ⟨rfl, inner⟩ := List.cons_prefix_cons.mp within
      have bound := above part inner
      rw [count, other]
      omega

/-- Read from the other end the places close as many as they open, and at no point more. -/
theorem Level.reverse (level : Level (!closes ·) 0 places) : Level closes 0 places.reverse := by
  have twice : (fun p => !!closes p) = closes := funext fun p => Bool.not_not _
  have even := level.even
  rw [twice] at even
  refine ⟨?_, fun part within => ?_⟩
  · rw [List.countP_reverse, List.countP_reverse]
    omega
  · obtain ⟨rest, whole⟩ := within
    have split : places = rest.reverse ++ part.reverse := by
      rw [← List.reverse_append, whole, List.reverse_reverse]
    have front := level.above rest.reverse ⟨part.reverse, split.symm⟩
    rw [split, List.countP_append, List.countP_append] at even
    rw [twice] at front
    simp only [List.countP_reverse] at even front
    omega

/-- With all places before it level, a place that closes is the partner. -/
theorem partner?_of_level (level : Level closes nested places) (ends : closes place = true)
    (back : List Extent) : partner? closes nested (places ++ place :: back) = some place := by
  induction places generalizing nested with
  | nil => rw [List.nil_append, partner?, if_pos ends, if_pos (level_nil.mp level)]
  | cons first rest ih =>
    rw [List.cons_append, partner?]
    split
    · rename_i closing
      obtain ⟨positive, inner⟩ := (level_cons_closes closing).mp level
      rw [if_neg (by omega)]
      exact ih inner
    · rename_i opening
      exact ih ((level_cons_opens (Bool.eq_false_iff.mpr opening)).mp level)

/-- A partner closes, and all places before it are level. -/
theorem level_of_partner? (found : partner? closes nested places = some place) :
    ∃ front back, places = front ++ place :: back ∧ closes place = true ∧
      Level closes nested front := by
  induction places generalizing nested with
  | nil => cases found
  | cons first rest ih =>
    rw [partner?] at found
    split at found
    · rename_i closing
      split at found
      · rename_i none
        cases found
        exact ⟨[], rest, rfl, closing, level_nil.mpr none⟩
      · rename_i some
        obtain ⟨front, back, rfl, ends, level⟩ := ih found
        exact ⟨first :: front, back, rfl, ends,
          (level_cons_closes closing).mpr ⟨by omega, level⟩⟩
    · rename_i opening
      obtain ⟨front, back, rfl, ends, level⟩ := ih found
      exact ⟨first :: front, back, rfl, ends,
        (level_cons_opens (Bool.eq_false_iff.mpr opening)).mpr level⟩

end Level
end Scanner

/-! ### The name of a definition -/

namespace Source

open Token

variable {src : Source} {word name tok : Token} {k : Nat}

theorem resolve_stop (named : (src.resolve tok).isName = true) :
    (src.resolve tok).stop = tok.stop := by
  unfold resolve at named ⊢
  split at named
  · split at named
    · split at named
      · cases named
      · rename_i other
        rw [if_neg other]
    · rfl
  · split <;> rfl
  · split <;> rfl
  · rfl

/-- A name behind a word ends before the next semicolon. -/
theorem name_stop_le (listed : word ∈ src.tokens.toList) (later : word.stop ≤ k)
    (here : src.text.byteIs k Byte.isSemicolon = true) (free : src.map.spanAt? k = none)
    (boundary : src.text.isBoundary word.stop = true)
    (found : (src.logicalToken? word.stop .forward).filter isName = some name) :
    name.stop ≤ k := by
  obtain ⟨front, back, whole, before, -⟩ := src.tokens_tiling.split listed
  have tiling := src.tokens_tiling
  rw [whole] at tiling
  -- the semicolon is a code token behind the word
  obtain ⟨semi, member, start, kind⟩ := tiling.exists_semicolon here free
  have proper := tiling.nonempty semi member
  have behind : semi ∈ code back := by
    apply List.mem_filter.mpr
    refine ⟨?_, by simp [isComment, kind]⟩
    rcases List.mem_append.mp member with earlier | rest
    · have bound := before semi earlier
      have nonempty := src.tokens_tiling.nonempty word listed
      omega
    · rcases List.mem_cons.mp rest with rfl | rest
      · omega
      · exact rest
  rw [logicalToken?, if_neg (Nat.not_lt.mpr (src.tokens_tiling.within word listed)),
    Text.floor_eq_self boundary, logicalAfter?, tiling.cut_stop.codeAfter?] at found
  cases split : code back with
  | nil =>
    rw [split] at behind
    cases behind
  | cons first rest =>
    rw [split, List.head?_cons, Option.map_some, Option.filter_eq_some_iff] at found
    obtain ⟨same, named⟩ := found
    cases same
    rw [resolve_stop named, ← start]
    have apart : (first :: rest).Pairwise (·.stop ≤ ·.start) :=
      split ▸ (List.pairwise_append.mp tiling.apart).2.1.of_cons.filter _
    rw [split] at behind
    rcases List.mem_cons.mp behind with rfl | further
    · -- a semicolon is no name
      have reserved : semi.keyword? = none := by
        rw [keyword?, kind]
        rfl
      rw [resolve, reserved, isName, kind] at named
      cases named
    · exact List.rel_of_pairwise_cons apart further

end Source

/-! ### The keywords of definitions -/

namespace Scanner

variable {sc : Scanner} {pattern : Pattern} {st place : Extent} {anchor : Nat}

theorem countedFrom_split {front back : List Extent}
    (split : sc.counted pattern = front ++ place :: back) :
    sc.countedFrom pattern place.start = place :: back ∧
      sc.countedBefore pattern place.start = front.reverse := by
  have ascend := sc.counted_ascend pattern
  rw [split, List.pairwise_append] at ascend
  have before : ∀ p ∈ front, p.start < place.start :=
    fun p listed => ascend.2.2 p listed place List.mem_cons_self
  have after : ∀ p ∈ place :: back, place.start ≤ p.start := by
    intro p listed
    rcases List.mem_cons.mp listed with rfl | later
    · exact Nat.le_refl _
    · exact Nat.le_of_lt (List.rel_of_pairwise_cons ascend.2.1 later)
  rw [countedFrom, countedBefore, split, List.filter_append, List.filter_append]
  constructor
  · rw [List.filter_eq_nil_iff.mpr, List.filter_eq_self.mpr, List.nil_append]
    · exact fun p listed => decide_eq_true (after p listed)
    · exact fun p listed => by simpa using before p listed
  · rw [List.filter_eq_self.mpr, List.filter_eq_nil_iff.mpr, List.append_nil]
    · exact fun p listed => by simpa using after p listed
    · exact fun p listed => decide_eq_true (before p listed)

theorem withEnd_value {b : Block} {stop : Nat} (opens : b.kind.isOpener = true)
    (ended : (sc.endOfBlock b).value = .ok stop) :
    (sc.withEnd b).value = .ok { b with stop } := by
  rw [withEnd, if_pos opens, Logged.value_map, ended]
  rfl

/-- No block keyword begins inside a statement that closes a macro definition. -/
def BareClosers (sc : Scanner) : Prop :=
  ∀ st ∈ sc.source.statements, sc.source.leader? st = some .macroEnd →
    ∀ j < st.stop, st.start < j → sc.keywords sc.text j = none

theorem macroKeyword_none {j : Nat} (absent : sc.keywords sc.text j = none) :
    Pattern.macroKeyword sc.text j = none := by
  unfold keywords Pattern.blockKeyword at absent
  split at absent
  · cases absent
  split at absent
  · cases absent
  · assumption

section Plain

variable (plain : sc.Plain)
include plain

/-- A keyword of definitions is the first word of a statement or all of it. -/
theorem Plain.counted_macroKeyword (listed : place ∈ sc.counted Pattern.macroKeyword) :
    ∃ st ∈ sc.source.statements, st.start = place.start ∧
      (sc.source.leader? st = some .macroBegin ∧ place.stop = place.start + 6 ∨
        sc.source.leader? st = some .macroEnd ∧ place = st) := by
  obtain ⟨st, member, found⟩ := List.mem_filterMap.mp listed
  refine ⟨st, member, (keywordAt?_start found).symm, ?_⟩
  rw [plain.keywordAt?_macroKeyword member] at found
  split at found
  · rename_i leads
    cases found
    exact Or.inl ⟨leads, rfl⟩
  · rename_i leads
    split at found
    · cases found
      exact Or.inr ⟨leads, rfl⟩
    · cases found
  · cases found

theorem Plain.macroKeyword_hollow (bare : sc.BareClosers) :
    ∀ p ∈ sc.counted Pattern.macroKeyword, ∀ j, p.start < j → j < p.stop →
      Pattern.macroKeyword sc.text j = none := by
  intro p listed j lower upper
  apply macroKeyword_none
  obtain ⟨st, member, start, ⟨leads, stop⟩ | ⟨leads, rfl⟩⟩ := plain.counted_macroKeyword listed
  · rw [stop, ← start] at upper
    exact plain.keywords_hollow member (by decide) leads j (start ▸ lower) upper
  · exact bare p member leads j upper lower

/-- The opener of a definition is the partner of its closer. -/
theorem Plain.macroOpenerFrom_eq (bare : sc.BareClosers) (closer nested : Nat)
    (starts : sc.source.startsStatement anchor = true) (within : anchor ≤ sc.text.size) :
    (sc.macroOpenerFrom closer nested anchor #[]).value =
      (partner? (!sc.isMacroEnd ·) nested (sc.countedBefore Pattern.macroKeyword anchor)).elim
        (.ambiguousAt closer) fun place => (sc.blockAt place).value := by
  have enclosed := Pattern.macroKeyword_enclosed
  have ends := Pattern.macroKeyword_ends
  have hollow := plain.macroKeyword_hollow bare
  induction ahead : sc.countedBefore Pattern.macroKeyword anchor
    generalizing nested anchor with
  | nil =>
    rw [macroOpenerFrom_value, plain.search_backward enclosed ends hollow starts within, ahead]
    rfl
  | cons place rest ih =>
    have counts := plain.search_counts
      ((plain.search_backward enclosed ends hollow starts within).trans (by rw [ahead]))
    have further (nested : Nat) := ih nested counts.starts
      (Text.le_size_of_boundary counts.matched.starts) (countedBefore_start ahead)
    rw [macroOpenerFrom_value, plain.search_backward enclosed ends hollow starts within, ahead,
      partner?]
    simp only
    cases closes : sc.isMacroEnd place with
    | true => exact further (nested + 1)
    | false =>
      cases nested with
      | zero => rfl
      | succ inner => exact further inner

/-! ### From a closer to its opener and on -/

theorem Plain.blockAt_opener (listed : st ∈ sc.source.statements)
    (leads : sc.source.leader? st = some .macroBegin) (start : st.start = place.start) :
    sc.blockAt place = sc.namedHeader place .macroBlock := by
  have announces := (plain.announces_iff listed (by decide)).mpr leads
  rw [start] at announces
  have mend : ¬ sc.isMacroEnd place = true := by
    intro stands
    cases announces.unique (show Keyword.macroEnd ∈ Block.words by decide) stands
  have data : ¬ sc.text.startsWithLower place.start Text.dataWord = true := by
    intro stands
    cases announces.unique (show Keyword.data ∈ Block.words by decide) stands
  have proc : ¬ sc.text.startsWithLower place.start Text.procWord = true := by
    intro stands
    cases announces.unique (show Keyword.proc ∈ Block.words by decide) stands
  have opens : sc.text.startsWithLower place.start Text.macroWord = true := announces.stands
  rw [blockAt, if_neg mend, if_neg data, if_neg proc, if_pos opens]

/-- Behind the name of a definition the search has the same keywords before it as behind its first
word. -/
theorem Plain.countedFrom_name {pattern : Pattern} (enclosed : pattern.Enclosed) {name : Token}
    (listed : st ∈ sc.source.statements) (leads : sc.source.leader? st = some .macroBegin)
    (found : (sc.source.logicalToken? (st.start + 6) .forward).filter Token.isName = some name) :
    sc.countedFrom pattern name.stop = sc.countedFrom pattern (st.start + 6) := by
  obtain ⟨-, visible, starts⟩ :=
    (plain.code.starts_iff Source.fresh_zero st.start).mp ⟨st, listed, rfl⟩
  have announces := (plain.announces_iff listed (by decide)).mpr leads
  have word : (sc.source.text.tokenAt st.start).stop = st.start + 6 :=
    Text.stop_of_keyword? (k := .macroBegin) (by decide) (plain.leader?_eq listed ▸ leads)
  have member := Source.token_of_startsStatement visible (plain.code.spanAt? _) starts
  have within := sc.source.tokens_tiling.within _ member
  rw [word] at within
  have boundary : sc.source.text.isBoundary (st.start + 6) = true := plain.ascii.boundary within
  have later := Source.lt_logicalToken?_stop boundary (Option.filter_eq_some_iff.mp found).1
  apply List.filter_congr
  intro place counted
  have counts := (plain.mem_counted enclosed).mp counted
  rw [decide_eq_decide]
  refine ⟨fun behind => by omega, fun behind => ?_⟩
  -- a semicolon parts the word from the next keyword, and the name stands before it
  have last := Text.keyword_inside announces.listed announces.stands (j := st.start + 5) (by omega)
    (show st.start + 5 < st.start + 6 by omega)
  obtain ⟨k, above, below, semicolon⟩ :=
    plain.code.semicolon_between last.1 (by omega) counts.starts
  have beyond : st.start + 6 ≤ k := by
    apply Nat.lt_of_le_of_ne above
    rintro rfl
    rw [show sc.source.text.byteIs _ Byte.isSemicolon = false from last.2] at semicolon
    cases semicolon
  rw [← word] at found boundary beyond
  have bound := Source.name_stop_le member beyond semicolon (plain.code.spanAt? k) boundary found
  omega

/-- A closer with its semicolon is a keyword that counts. -/
theorem Plain.counts_closer (listed : st ∈ sc.source.statements)
    (leads : sc.source.leader? st = some .macroEnd) (ended : sc.source.isTerminated st = true) :
    sc.Counts sc.keywords st ∧ st ∈ sc.counted Pattern.macroKeyword := by
  have keyword := plain.keywordAt?_macroKeyword listed
  rw [leads] at keyword
  simp only [ended, if_true] at keyword
  have member : st ∈ sc.counted Pattern.macroKeyword := List.mem_filterMap.mpr ⟨st, listed, keyword⟩
  have counts := (plain.mem_counted Pattern.macroKeyword_enclosed).mp member
  refine ⟨⟨⟨counts.matched.starts, counts.matched.ordered, ?_⟩, counts.starts⟩, member⟩
  unfold keywords Pattern.blockKeyword
  rw [plain.stepOpener_start listed, leads, if_neg (by decide), counts.matched.here]

/-- A `%mend` leads back to its opener. -/
theorem Plain.locate_closer (bare : sc.BareClosers) (listed : st ∈ sc.source.statements)
    (leads : sc.source.leader? st = some .macroEnd) (ended : sc.source.isTerminated st = true)
    (rests : sc.leadsTo? (sc.openerOfMacro st.start).value = none) :
    (sc.locate st.start).value = (sc.withEnd (sc.openerOfMacro st.start).value).value := by
  obtain ⟨-, inside, stop⟩ := Source.mem_statementsFrom st listed
  have floor : sc.source.text.floor st.start = st.start :=
    plain.code.ascii.floor (Nat.le_of_lt inside)
  have within : st.stop ≤ sc.text.size := stop ▸ sc.source.statementStop_le st.start
  have found : (sc.search sc.keywords st.stop .backward).value = .found st := by
    obtain ⟨m, found, same | behind⟩ := plain.search_backward_reaches
      (Pattern.blockKeyword_enclosed _) (Pattern.blockKeyword_ends _)
      (plain.counts_closer listed leads ended).1
      (fun j lower upper => bare st listed leads j upper lower) (Nat.le_refl _) within
    · subst same
      exact found
    · have bounds := search_backward_bounds (Pattern.blockKeyword_positive _) found
      omega
  have closer : (sc.blockBefore st.stop).value = .header .closingMacro st.start st.stop := by
    rw [blockBefore_value, found]
    simp only [blockAt, plain.isMacroEnd_closer listed leads]
    rfl
  -- A text that is not empty is shorter than the limit, so the limit leaves two rounds.
  have short : sc.source.size < sc.settings.limits.retries := plain.short
  obtain ⟨retries, enough⟩ : ∃ retries, sc.settings.limits.retries = retries + 2 :=
    Nat.exists_eq_add_of_le' (by omega)
  rw [locate_value (Nat.le_of_lt inside), floor, ← stop, closer, enough, settle]
  simp only [leadsTo?, Block.header]
  rw [settle, rests]

/-- The partner of a closer is the first word of a statement. -/
theorem Plain.opener_of_partner? {nested : Nat}
    (found : partner? (!sc.isMacroEnd ·) nested (sc.countedBefore Pattern.macroKeyword anchor) =
      some place) :
    ∃ st ∈ sc.source.statements, st.start = place.start ∧
      sc.source.leader? st = some .macroBegin ∧ place.stop = place.start + 6 := by
  obtain ⟨front, back, split, opens, -⟩ := level_of_partner? found
  have member : place ∈ sc.countedBefore Pattern.macroKeyword anchor := by simp [split]
  have counted := List.mem_of_mem_filter (List.mem_reverse.mp member)
  obtain ⟨st, listed, start, ⟨leads, stop⟩ | ⟨leads, rfl⟩⟩ := plain.counted_macroKeyword counted
  · exact ⟨st, listed, start, leads, stop⟩
  · rw [plain.isMacroEnd_closer listed leads] at opens
    cases opens

/-- The partner of the partner of a closer is the closer. -/
theorem Plain.partner?_partner (listed : st ∈ sc.counted Pattern.macroKeyword)
    (closes : sc.isMacroEnd st = true)
    (found : partner? (!sc.isMacroEnd ·) 0 (sc.countedBefore Pattern.macroKeyword st.start) =
      some place) :
    partner? sc.isMacroEnd 0 (sc.countedFrom Pattern.macroKeyword place.stop) = some st := by
  obtain ⟨front, back, split, -, level⟩ := level_of_partner? found
  obtain ⟨before, after, whole⟩ := List.append_of_mem listed
  have earlier : before = back.reverse ++ place :: front.reverse := by
    rw [(countedFrom_split whole).2] at split
    rw [← List.reverse_reverse before, split]
    simp
  rw [earlier, List.append_assoc, List.cons_append] at whole
  have behind := plain.countedFrom_stop Pattern.macroKeyword_enclosed Pattern.macroKeyword_ends
    (countedFrom_split whole).1
  rw [behind]
  exact partner?_of_level level.reverse closes after

end Plain

/-- Macro definitions are matched the same from both ends. From a closing statement with its
semicolon the search leads to a block, and if that is a macro definition it ends with this
statement. -/
theorem locate_macroEnd (sc : Scanner) (plain : sc.Plain) (bare : sc.BareClosers) (st : Extent)
    (listed : st ∈ sc.source.statements) (leads : sc.source.leader? st = some .macroEnd)
    (ended : sc.source.isTerminated st = true) :
    ∃ b, (sc.locate st.start).value = .ok b ∧
      ∀ name, b.kind = .macroBlock name → b.stop = st.stop := by
  have starts := plain.startsStatement_start listed
  have within : st.start ≤ sc.text.size := Nat.le_of_lt (Source.mem_statementsFrom st listed).2.1
  have opener : (sc.openerOfMacro st.start).value = _ :=
    plain.macroOpenerFrom_eq bare st.start 0 starts within
  cases found : partner? (!sc.isMacroEnd ·) 0
      (sc.countedBefore Pattern.macroKeyword st.start) with
  | none =>
    rw [found, Option.elim_none] at opener
    refine ⟨.ambiguousAt st.start, ?_, fun name kind => by cases kind⟩
    rw [plain.locate_closer bare listed leads ended (by rw [opener]; rfl), opener]
    rfl
  | some place =>
    rw [found, Option.elim_some] at opener
    obtain ⟨st', listed', start, leads', stop⟩ := plain.opener_of_partner? found
    rw [plain.blockAt_opener listed' leads' start, namedHeader] at opener
    split at opener
    · rename_i name named
      have meets := plain.partner?_partner (plain.counts_closer listed leads ended).2
        (plain.isMacroEnd_closer listed leads) found
      rw [stop, ← start] at named meets
      have token := (Option.filter_eq_some_iff.mp named).1
      have floor : sc.text.floor name.stop = name.stop :=
        Text.floor_eq_self (Source.logicalToken?_stop_boundary plain.ascii.joined token)
      have ends : (sc.macroEndFrom name.lexeme 0 (sc.text.floor name.stop) #[]).value =
          .ok st.stop := by
        rw [floor, plain.macroEndFrom_eq,
          plain.countedFrom_name Pattern.macroKeyword_enclosed listed' leads' named, meets]
        rfl
      refine ⟨⟨.macroBlock name.lexeme, place.start, name.stop, st.stop⟩, ?_, fun _ _ => rfl⟩
      rw [plain.locate_closer bare listed leads ended (by rw [opener]; rfl), opener]
      exact withEnd_value rfl ends
    · refine ⟨.header .error place.start place.stop, ?_, fun name kind => by cases kind⟩
      rw [plain.locate_closer bare listed leads ended (by rw [opener]; rfl), opener]
      rfl

/-- A nested definition before the closer, and an opener behind it that has none. -/
theorem locate_macroEnd_nested :
    let sc : Scanner :=
      ⟨.ofText {} (.ofString "%macro a; %macro b; %mend b; x %mend; %mend a; %macro c;"), {}⟩
    sc.Plain ∧ sc.BareClosers ∧ (sc.locate 38).value = .ok ⟨.macroBlock (.ofString "a"), 0, 8, 46⟩ ∧
      ∃ b, (sc.locate 38).value = .ok b ∧ ∀ name, b.kind = .macroBlock name → b.stop = 46 := by
  intro sc
  have plain : sc.Plain :=
    ⟨⟨Text.ascii_of_all (by decide +kernel), by decide +kernel⟩, by decide +kernel, rfl⟩
  have bare : sc.BareClosers := by
    unfold BareClosers
    decide +kernel
  have closer : (⟨38, 46⟩ : Extent) ∈ sc.source.statements := by decide +kernel
  exact ⟨plain, bare, by decide +kernel,
    locate_macroEnd sc plain bare ⟨38, 46⟩ closer (by decide +kernel) (by decide +kernel)⟩

end Scanner
end SasLayout
