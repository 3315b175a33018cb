import SasLayout.Proofs.PlainSearch

set_option autoImplicit false

/-!
The beginning of a block in plain code. No block keyword begins inside an opening word, so the
search backward passes over none, wherever its windows begin and however many candidates it rejects.
What it finds is the last opening word before the end of the statement, or a closer behind it.
-/
namespace SasLayout

/-- The words that open a block. -/
def Block.openers : List Keyword :=
  [.proc, .data, .macroBegin]

theorem Block.words_of_openers : ∀ k ∈ Block.openers, k ∈ Block.words := by
  decide

/-- The kinds that are read off an opening word. -/
def Block.Kind.isHeader : Block.Kind → Bool
  | .proc _ | .data | .dataAssignment | .macroBlock _ | .error => true
  | _ => false

/-- A block is a header if the word that it begins with opens one. -/
theorem Block.Kind.isHeader_iff {kind : Block.Kind} {k : Keyword} (listed : k ∈ kind.words) :
    kind.isHeader = true ↔ k ∈ Block.openers := by
  have openers : ∀ k : Keyword, k ∈ Block.openers ↔ k = .proc ∨ k = .data ∨ k = .macroBegin := by
    simp [Block.openers]
  rw [openers]
  cases kind <;> simp only [words, announcers, List.mem_cons, List.not_mem_nil, or_false] at listed
  case error => rcases listed with rfl | rfl <;> simp [isHeader]
  case closingRun => rcases listed with rfl | rfl <;> simp [isHeader]
  all_goals simp [listed, isHeader]

/-- The starts of the statements before `stop` that begin with an opening word. -/
def Source.openersBefore (src : Source) (stop : Nat) : List Nat :=
  (src.statements.filter fun st =>
    st.start < stop && (src.leader? st).any (Block.openers.contains ·)).map (·.start)

theorem Source.mem_openersBefore {src : Source} {stop p : Nat} :
    p ∈ src.openersBefore stop ↔ ∃ st ∈ src.statements, st.start = p ∧ p < stop ∧
      ∃ k ∈ Block.openers, src.leader? st = some k := by
  simp only [openersBefore, List.mem_map, List.mem_filter, Bool.and_eq_true, decide_eq_true_eq,
    Option.any_eq_true, List.contains_iff_mem]
  constructor
  · rintro ⟨st, ⟨listed, before, k, leads, opens⟩, rfl⟩
    exact ⟨st, listed, rfl, before, k, opens, leads⟩
  · rintro ⟨st, listed, rfl, before, k, opens, leads⟩
    exact ⟨st, ⟨listed, before, k, leads, opens⟩, rfl⟩

namespace Text

variable {t : Text} {i : Nat} {k : Keyword}

theorem startsWithLower_drop {word : List UInt8} (stands : t.startsWithLower i word = true)
    (n : Nat) : t.startsWithLower (i + n) (word.drop n) = true := by
  apply startsWithLower_of_getElem
  intro m b listed
  rw [List.getElem?_drop] at listed
  rw [Nat.add_assoc]
  exact startsWithLower_getElem stands listed

/-- No word of blocks begins inside an opening word. -/
theorem opener_hollow (opens : k ∈ Block.openers)
    (stands : t.startsWithLower i (Program.bytes k.spelling) = true) {j : Nat} (lower : i < j)
    (upper : j < i + (Program.bytes k.spelling).length) {other : Keyword} :
    ¬ t.Announces other j := by
  intro announces
  have apart : ∀ k ∈ Block.openers, ∀ other ∈ Block.words,
      ∀ n < (Program.bytes k.spelling).length, 0 < n →
        (((Program.bytes k.spelling).drop n).zip (Program.bytes other.spelling)).all
          (fun p => p.1 == p.2) = false := by decide
  obtain ⟨n, rfl⟩ := Nat.exists_eq_add_of_le (Nat.le_of_lt lower)
  have same := startsWithLower_zip (startsWithLower_drop stands n) announces.stands
  rw [apart k opens other announces.listed n (by omega) (by omega)] at same
  cases same

end Text

namespace Source

variable {src : Source} {i : Nat} {k : Keyword}

/-- A word of blocks that starts before the end of a statement ends before it. -/
theorem word_within (listed : k ∈ Block.words)
    (stands : src.text.startsWithLower i (Program.bytes k.spelling) = true) {offset : Nat}
    (before : i < src.statementStop offset) :
    i + (Program.bytes k.spelling).length ≤ src.statementStop offset := by
  rcases src.statementStop_cases offset with whole | ⟨last, terminator, -, stop⟩
  · rw [whole]
    exact Text.startsWithLower_within stands
      (Program.ne_nil_of_isSpelled (Program.Word.keyword_spelled k))
  · have semicolon := terminators_semicolon terminator
    apply Nat.le_of_not_lt
    intro longer
    rw [(Text.keyword_inside listed stands (j := last) (by omega) (by omega)).2] at semicolon
    cases semicolon

end Source

namespace Scanner

variable {sc : Scanner} {st place : Extent} {k : Keyword}

theorem blockBefore_value (sc : Scanner) (anchor : Nat) :
    (sc.blockBefore anchor).value =
      match (sc.search sc.keywords anchor .backward).value with
      | .found place => (sc.blockAt place).value
      | .absent => .notFound
      | .gaveUp limit => .ambiguousAt limit := by
  rw [blockBefore, Logged.value_bind]
  cases (sc.search sc.keywords anchor .backward).value <;> rfl

section Plain

variable (plain : sc.Plain)
include plain

/-- The keyword that counts at the start of a statement is the statement's first token. -/
theorem Plain.leader_of_counts (counts : sc.Counts sc.keywords place) :
    ∃ k, sc.text.Announces k place.start ∧
      ∃ st ∈ sc.source.statements, st.start = place.start ∧ sc.source.leader? st = some k := by
  obtain ⟨k, announces⟩ := Text.exists_announces counts.matched
  obtain ⟨st, listed, start⟩ := (plain.code.starts_iff Source.fresh_zero place.start).mpr
    ⟨Nat.zero_le _, announces.visible, counts.starts⟩
  refine ⟨k, announces, st, listed, start, ?_⟩
  apply (plain.announces_iff listed announces.listed).mp
  rw [start]
  exact announces

/-- At the start of a statement the opening word of a step is its first token. -/
theorem Plain.stepOpener_start (listed : st ∈ sc.source.statements) :
    Pattern.stepOpener sc.text st.start =
      if sc.source.leader? st = some .proc ∨ sc.source.leader? st = some .data then some 4
      else none := by
  have starts := plain.startsStatement_start listed
  have proc : sc.text.wholeWordAt Text.procWord st.start = true ↔ _ :=
    plain.code.wholeWordAt_iff starts (k := .proc) (by decide)
  have data : sc.text.wholeWordAt Text.dataWord st.start = true ↔ _ :=
    plain.code.wholeWordAt_iff starts (k := .data) (by decide)
  rw [plain.code.leader?_eq listed]
  exact if_congr (by rw [Bool.or_eq_true, proc, data]) rfl rfl

/-- An opening word at the start of a statement matches. -/
theorem Plain.keywords_opener (listed : st ∈ sc.source.statements) (opens : k ∈ Block.openers)
    (leads : sc.source.leader? st = some k) :
    sc.keywords sc.text st.start = some (Program.bytes k.spelling).length := by
  unfold keywords Pattern.blockKeyword
  rw [plain.stepOpener_start listed, leads]
  simp only [Block.openers, List.mem_cons, List.not_mem_nil, or_false] at opens
  rcases opens with rfl | rfl | rfl
  · rfl
  · rfl
  · have announces := (plain.announces_iff listed (by decide)).mpr leads
    have sign : sc.text.signWordAt Text.macroWord st.start = true :=
      Bool.and_eq_true_iff.mpr ⟨announces.stands, announces.edge⟩
    rw [if_neg (by decide), Pattern.macroKeyword, if_pos sign]
    rfl

/-- An opening word at the start of a statement is a keyword that counts. -/
theorem Plain.counts_of_opener (listed : st ∈ sc.source.statements) (opens : k ∈ Block.openers)
    (leads : sc.source.leader? st = some k) :
    sc.Counts sc.keywords ⟨st.start, st.start + (Program.bytes k.spelling).length⟩ := by
  have within : st.start ≤ sc.text.size := Nat.le_of_lt (Source.mem_statementsFrom st listed).2.1
  have starts := plain.startsStatement_start listed
  exact ⟨plain.ascii.matched within (plain.keywords_opener listed opens leads), starts⟩

/-- No block keyword begins inside an opening word at the start of a statement. -/
theorem Plain.keywords_hollow (listed : st ∈ sc.source.statements) (opens : k ∈ Block.openers)
    (leads : sc.source.leader? st = some k) :
    ∀ j, st.start < j → j < st.start + (Program.bytes k.spelling).length →
      sc.keywords sc.text j = none := by
  intro j lower upper
  have word := Block.words_of_openers k opens
  have stands := ((plain.announces_iff listed word).mpr leads).stands
  have within := Text.startsWithLower_within stands
    (Program.ne_nil_of_isSpelled (Program.Word.keyword_spelled k))
  rw [Option.eq_none_iff_forall_ne_some]
  intro length found
  have matched := plain.ascii.matched (Nat.le_trans (Nat.le_of_lt upper) within) found
  obtain ⟨other, announces⟩ := Text.exists_announces matched
  exact Text.opener_hollow opens stands lower upper announces

/-- The search backward from the end of a statement passes over no opening word. -/
theorem Plain.search_opener (listed : st ∈ sc.source.statements) (opens : k ∈ Block.openers)
    (leads : sc.source.leader? st = some k) {offset : Nat}
    (before : st.start < sc.source.statementStop offset) :
    ∃ m, (sc.search sc.keywords (sc.source.statementStop offset) .backward).value = .found m ∧
      st.start ≤ m.start := by
  have word := Block.words_of_openers k opens
  have stands := ((plain.announces_iff listed word).mpr leads).stands
  have hollow := plain.keywords_hollow listed opens leads
  obtain ⟨m, found, same | behind⟩ := plain.search_backward_reaches
    (Pattern.blockKeyword_enclosed _) (Pattern.blockKeyword_ends _)
    (plain.counts_of_opener listed opens leads) hollow (Source.word_within word stands before)
    (sc.source.statementStop_le offset)
  · exact ⟨m, found, by rw [same]⟩
  · exact ⟨m, found, by simp only at behind; omega⟩

theorem Plain.search_reaches_openersBefore {offset p : Nat}
    (listed : p ∈ sc.source.openersBefore (sc.source.statementStop offset)) :
    ∃ m, (sc.search sc.keywords (sc.source.statementStop offset) .backward).value = .found m ∧
      p ≤ m.start := by
  obtain ⟨st, member, rfl, before, k, opens, leads⟩ := Source.mem_openersBefore.mp listed
  exact plain.search_opener member opens leads before

/-- A header that the search backward leads to starts at an opening word. -/
theorem Plain.header_mem_openersBefore {anchor : Nat}
    (found : (sc.search sc.keywords anchor .backward).value = .found place)
    (isHeader : (sc.blockAt place).value.kind.isHeader = true) :
    (sc.blockAt place).value.start ∈ sc.source.openersBefore anchor := by
  obtain ⟨k, announces, st, listed, start, leads⟩ :=
    plain.leader_of_counts (plain.search_counts found)
  have bounds := search_backward_bounds (Pattern.blockKeyword_positive _) found
  have opens := (Block.Kind.isHeader_iff (blockAt_words announces)).mp isHeader
  rw [blockAt_start]
  exact Source.mem_openersBefore.mpr ⟨st, listed, start, by omega, k, opens, leads⟩

theorem Plain.blockAt_ne_notFound (counts : sc.Counts sc.keywords place) :
    (sc.blockAt place).value.kind ≠ .notFound := by
  obtain ⟨k, announces, -⟩ := plain.leader_of_counts counts
  have words := blockAt_words announces
  intro kind
  rw [kind] at words
  cases words

theorem Plain.beginningOfBlock_value {offset : Nat} (within : offset ≤ sc.source.size) :
    (sc.beginningOfBlock offset).value =
      .ok (sc.blockBefore (sc.source.statementStop offset)).value := by
  rw [beginningOfBlock, Source.checkOffset_within within, plain.code.ascii.floor within]
  exact Logged.value_map _ _

end Plain

/-- In plain code the search for the beginning of a block skips no opener. Without an opening word
at the start of a statement before the end of the current one no header is found; with one, a
keyword is found that is not before it, and a header only at such a word. -/
theorem beginningOfBlock_nearest (sc : Scanner) (plain : sc.Plain) (offset : Nat)
    (within : offset ≤ sc.source.size) :
    let openers := sc.source.openersBefore (sc.source.statementStop offset)
    ∃ b, (sc.beginningOfBlock offset).value = .ok b ∧
      if openers = [] then b.kind.isHeader = false
      else b.kind ≠ .notFound ∧ (∀ p ∈ openers, p ≤ b.start) ∧
        (b.kind.isHeader = true → b.start ∈ openers) := by
  intro openers
  refine ⟨_, plain.beginningOfBlock_value within, ?_⟩
  rw [blockBefore_value]
  cases found : (sc.search sc.keywords (sc.source.statementStop offset) .backward).value with
  | found m =>
    have header := plain.header_mem_openersBefore found
    have named := plain.blockAt_ne_notFound (plain.search_counts found)
    have last : ∀ p ∈ openers, p ≤ (sc.blockAt m).value.start := by
      intro p listed
      obtain ⟨m', found', early⟩ := plain.search_reaches_openersBefore listed
      cases found'.symm.trans found
      rw [blockAt_start]
      exact early
    split
    · rename_i none
      rw [Bool.eq_false_iff]
      intro isHeader
      have listed : _ ∈ openers := header isHeader
      rw [none] at listed
      cases listed
    · exact ⟨named, last, header⟩
  | absent =>
    rw [if_pos]
    · rfl
    · apply List.eq_nil_iff_forall_not_mem.mpr
      intro p listed
      obtain ⟨m, found', -⟩ := plain.search_reaches_openersBefore listed
      cases found'.symm.trans found
  | gaveUp limit =>
    exact absurd found (search_ne_gaveUp plain.short (Pattern.blockKeyword_ends _) _ _ limit)

/-- Two openers, and behind them two words inside statements that are rejected. -/
theorem beginningOfBlock_nearest_rejected :
    let sc : Scanner := ⟨.ofText {} (.ofString "proc a; data b; x proc; y data;"), {}⟩
    sc.Plain ∧ sc.source.openersBefore (sc.source.statementStop 24) = [0, 8] ∧
      ∃ b, (sc.beginningOfBlock 24).value = .ok b ∧ b.kind ≠ .notFound ∧ 8 ≤ b.start ∧
        (b.kind.isHeader = true → b.start ∈ [0, 8]) := by
  intro sc
  have plain : sc.Plain :=
    ⟨⟨Text.ascii_of_all (by decide +kernel), by decide +kernel⟩, by decide +kernel, rfl⟩
  have openers : sc.source.openersBefore (sc.source.statementStop 24) = [0, 8] := by
    decide +kernel
  obtain ⟨b, found, nearest⟩ := beginningOfBlock_nearest sc plain 24 (by decide +kernel)
  rw [openers, if_neg (by simp)] at nearest
  exact ⟨plain, openers, b, found, nearest.1, nearest.2.1 8 (by simp), nearest.2.2⟩

end Scanner
end SasLayout
