import SasLayout.Block.Locate
import SasLayout.Proofs.LogicalWalk

set_option autoImplicit false

/-!
Where blocks end. Every opener that a search yields was read off a keyword that counts, so its
header ends on a character boundary. A step ends after a semicolon of the code or with the text. A
macro definition ends with the text or after the first semicolon behind its `%mend`, which need not
be one of the code.
-/
namespace SasLayout

namespace Text

variable {t : Text} {pattern : Pattern}

/-- The pattern matches at this place, from a character boundary on. -/
structure Matches (t : Text) (pattern : Pattern) (place : Extent) : Prop where
  starts : t.isBoundary place.start = true
  ordered : place.start ≤ place.stop
  here : pattern t place.start = some (place.stop - place.start)

theorem firstMatch_matches {i : Nat} {place : Extent}
    (found : t.firstMatch pattern i = some place) : t.Matches pattern place := by
  fun_induction firstMatch t pattern i with
  | case1 i within length here whole =>
    cases found
    exact ⟨whole, Nat.le_add_right i length, by rw [here, Nat.add_sub_cancel_left]⟩
  | case2 i within length here inner ih => exact ih found
  | case3 i within absent ih => exact ih found
  | case4 i outside => cases found

theorem lastMatch_matches {anchor i : Nat} {last : Option Extent} {place : Extent}
    (before : ∀ m ∈ last, t.Matches pattern m)
    (found : t.lastMatch pattern anchor i last = some place) : t.Matches pattern place := by
  have some_matches {m : Extent} {i : Nat} (here : t.firstMatch pattern i = some m) :
      ∀ m' ∈ some m, t.Matches pattern m' := by
    rintro m' ⟨⟩
    exact firstMatch_matches here
  fun_induction lastMatch t pattern anchor i last with
  | case1 i last absent => exact before place found
  | case2 i last m here beyond => exact before place found
  | case3 i last m here within proper ih => exact ih (some_matches here) found
  | case4 i last m here within empty inside ih => exact ih (some_matches here) found
  | case5 i last m here within empty outside => exact some_matches here place found

theorem searchWindows_matches {anchor k : Nat} {place : Extent}
    (found : t.searchWindows pattern anchor k = some place) : t.Matches pattern place := by
  fun_induction searchWindows t pattern anchor k with
  | case1 k wide m here =>
    cases found
    exact lastMatch_matches (by simp) here
  | case2 k wide absent _ ih => exact ih found
  | case3 k narrow => exact lastMatch_matches (by simp) found

theorem searchBackward_matches {anchor : Nat} {place : Extent}
    (found : t.searchBackward pattern anchor = some place) : t.Matches pattern place :=
  searchWindows_matches found

/-- The bytes that a word is made of stand in the text in some case. -/
theorem startsWithLower_getElem {i k : Nat} {word : List UInt8} {b : UInt8}
    (stands : t.startsWithLower i word = true) (listed : word[k]? = some b) :
    t.byteIs (i + k) (Byte.lower · == b) = true := by
  induction word generalizing i k with
  | nil => cases listed
  | cons first rest ih =>
    rw [startsWithLower, Bool.and_eq_true] at stands
    cases k with
    | zero =>
      cases listed
      exact stands.1
    | succ k =>
      have later := ih stands.2 (by simpa using listed)
      rwa [Nat.add_right_comm, Nat.add_assoc] at later

theorem ascii_of_lower {i : Nat} {c : UInt8} (ascii : c < 128)
    (here : t.byteIs i (Byte.lower · == c) = true) : t.byteIs i (128 ≤ ·) = false := by
  refine byteIs_apart here fun b same => ?_
  rw [beq_iff_eq] at same
  rw [decide_eq_false_iff_not]
  intro wide
  rw [Byte.lower_of_large b wide] at same
  subst same
  exact absurd wide (UInt8.not_le.mpr ascii)

theorem ascii_of_semicolon {i : Nat} (here : t.byteIs i Byte.isSemicolon = true) :
    t.byteIs i (128 ≤ ·) = false := by
  refine byteIs_apart here fun b same => ?_
  rw [Byte.isSemicolon, beq_iff_eq] at same
  subst same
  decide

theorem Joined.boundary_semicolon (joined : t.Joined) {i : Nat}
    (here : t.byteIs i Byte.isSemicolon = true) : t.isBoundary (i + 1) = true := by
  refine joined.boundary (lt_size_of_byteIs here) fun j next => ?_
  cases next
  exact ascii_of_semicolon here

end Text

namespace Pattern

/-- Every match ends after an ASCII byte. -/
def EndsAscii (pattern : Pattern) : Prop :=
  ∀ (t : Text) (i length : Nat), pattern t i = some length → 0 < length ∧
    i + length ≤ t.size ∧ t.byteIs (i + length - 1) (128 ≤ ·) = false

theorem EndsAscii.positive {pattern : Pattern} (ends : pattern.EndsAscii) : pattern.Positive :=
  fun t i length found => (ends t i length found).1

theorem word_ends (word : List UInt8) (c : UInt8) {t : Text} {i : Nat} (ascii : c < 128)
    (last : word[word.length - 1]? = some c) (stands : t.startsWithLower i word = true) :
    0 < word.length ∧ i + word.length ≤ t.size ∧
      t.byteIs (i + word.length - 1) (128 ≤ ·) = false := by
  have positive : 0 < word.length := by
    have := (List.getElem?_eq_some_iff.mp last).1
    omega
  have here := Text.startsWithLower_getElem stands last
  have inside := Text.lt_size_of_byteIs here
  refine ⟨positive, by omega, ?_⟩
  rw [Nat.add_sub_assoc positive]
  exact Text.ascii_of_lower ascii here

theorem semicolon_ends {t : Text} {i last : Nat} (later : i ≤ last)
    (here : t.byteIs last Byte.isSemicolon = true) :
    0 < last + 1 - i ∧ i + (last + 1 - i) ≤ t.size ∧
      t.byteIs (i + (last + 1 - i) - 1) (128 ≤ ·) = false := by
  have inside := Text.lt_size_of_byteIs here
  refine ⟨by omega, by omega, ?_⟩
  rw [show i + (last + 1 - i) - 1 = last by omega]
  exact Text.ascii_of_semicolon here

theorem stepOpener_ends : EndsAscii stepOpener := by
  intro t i length found
  unfold stepOpener at found
  split at found
  · cases found
    rename_i either
    simp only [Bool.or_eq_true, Text.wholeWordAt, Bool.and_eq_true] at either
    rcases either with ⟨⟨proc, -⟩, -⟩ | ⟨⟨data, -⟩, -⟩
    · exact word_ends Text.procWord 99 (by decide) (by decide) proc
    · exact word_ends Text.dataWord 97 (by decide) (by decide) data
  · cases found

theorem closerStop?_ends {t : Text} {i stop : Nat} (closed : t.closerStop? i = some stop) :
    ∃ last, stop = last + 1 ∧ t.byteIs last Byte.isSemicolon = true := by
  unfold Text.closerStop? at closed
  simp only at closed
  split at closed
  · rename_i both
    cases closed
    exact ⟨_, rfl, (Bool.and_eq_true_iff.mp both).2⟩
  · cases closed

theorem stepCloser_ends (quitCloses : Bool) : EndsAscii (stepCloser quitCloses) := by
  have closes : ∀ (t : Text) (i k length : Nat), (t.closerStop? (i + k)).map (· - i) = some length →
      0 < length ∧ i + length ≤ t.size ∧ t.byteIs (i + length - 1) (128 ≤ ·) = false := by
    intro t i k length found
    obtain ⟨stop, closed, rfl⟩ := Option.map_eq_some_iff.mp found
    have further := Text.lt_closerStop closed
    obtain ⟨last, rfl, here⟩ := closerStop?_ends closed
    exact semicolon_ends (by omega) here
  intro t i length found
  unfold stepCloser at found
  split at found
  · exact closes t i 3 length found
  split at found
  · exact closes t i 4 length found
  · cases found

theorem macroKeyword_ends : EndsAscii macroKeyword := by
  intro t i length found
  unfold macroKeyword at found
  split at found
  · rename_i opens
    cases found
    exact word_ends Text.macroWord 111 (by decide) (by decide)
      (Bool.and_eq_true_iff.mp opens).1
  split at found
  · obtain ⟨last, closed, rfl⟩ := Option.map_eq_some_iff.mp found
    obtain ⟨later, here, -⟩ := Text.semicolon?_eq_some_iff.mp closed
    exact semicolon_ends (by omega) here
  · cases found

theorem blockKeyword_ends (quitCloses : Bool) : EndsAscii (blockKeyword quitCloses) := by
  intro t i length found
  unfold blockKeyword at found
  split at found
  · cases found
    exact stepOpener_ends t i _ ‹_›
  split at found
  · cases found
    exact macroKeyword_ends t i _ ‹_›
  · exact stepCloser_ends quitCloses t i length found

end Pattern

theorem Text.Matches.stop_boundary {t : Text} {pattern : Pattern} {place : Extent}
    (joined : t.Joined) (matched : t.Matches pattern place) (ends : pattern.EndsAscii) :
    t.isBoundary place.stop = true := by
  obtain ⟨positive, within, ascii⟩ := ends t _ _ matched.here
  have ordered := matched.ordered
  rw [Nat.add_sub_cancel' ordered] at within ascii
  refine joined.boundary within fun j next => ?_
  rwa [next, Nat.add_sub_cancel] at ascii

namespace Source

open Token

variable {src : Source}

/-- A logical token after an offset ends on a character boundary. -/
theorem logicalToken?_stop_boundary (joined : src.text.Joined) {offset : Nat} {tok : Token}
    (found : src.logicalToken? offset .forward = some tok) :
    src.text.isBoundary tok.stop = true := by
  have code {offset : Nat} {tok : Token} (found : src.codeAfter? offset = some tok) :
      src.text.isBoundary tok.stop = true :=
    (tokens_boundary joined tok (mem_of_mem_code (mem_code_of_codeAfter? found))).2
  rw [logicalToken?] at found
  split at found
  · cases found
  · obtain ⟨first, here, rfl⟩ := Option.map_eq_some_iff.mp found
    have single := code here
    unfold resolve
    split
    · split
      · rename_i next following
        have both := code following
        split
        · exact both
        · exact single
      · exact single
    · split <;> exact single
    · split <;> exact single
    · exact single

/-- A logical token after a boundary ends behind it. -/
theorem lt_logicalToken?_stop {offset : Nat} {tok : Token}
    (boundary : src.text.isBoundary offset = true)
    (found : src.logicalToken? offset .forward = some tok) : offset < tok.stop := by
  rw [logicalToken?] at found
  split at found
  · cases found
  · rw [Text.floor_eq_self boundary] at found
    exact (logicalAfter?_bounds found).2

/-- A semicolon is no inner byte of a token, so a token of the code that covers one starts with
it. -/
theorem Tiling.start_of_semicolon {tokens : List Token} (tiling : src.Tiling tokens) {tok : Token}
    (listed : tok ∈ tokens) (code : tok.kind.isSpan = false) {i : Nat} (lower : tok.start ≤ i)
    (upper : i < tok.stop) (here : src.text.byteIs i Byte.isSemicolon = true) : tok.start = i := by
  apply Nat.le_antisymm lower
  apply Nat.le_of_not_lt
  intro later
  rw [(tiling.lexed tok listed code).1] at upper
  have inner := Text.shapeAt_inside later upper
  have outer : src.text.byteIs i Byte.isInner = false := by
    refine Text.byteIs_apart here fun b same => ?_
    rw [Byte.isSemicolon, beq_iff_eq] at same
    subst same
    decide
  rw [outer] at inner
  cases inner

/-- A semicolon that no span covers is a token of its own. -/
theorem Tiling.exists_semicolon {tokens : List Token} (tiling : src.Tiling tokens) {i : Nat}
    (here : src.text.byteIs i Byte.isSemicolon = true) (free : src.map.spanAt? i = none) :
    ∃ tok ∈ tokens, tok.start = i ∧ tok.kind = .statementEnd := by
  have inside := Text.lt_size_of_byteIs here
  have visible : src.text.byteIs i Byte.isBlank = false := by
    refine Text.byteIs_apart here fun b same => ?_
    rw [Byte.isSemicolon, beq_iff_eq] at same
    subst same
    decide
  obtain ⟨tok, listed, code, lower, upper⟩ := tiling.code_covers inside visible free
  have first := tiling.start_of_semicolon listed code lower upper here
  refine ⟨tok, listed, first, ?_⟩
  rw [(tiling.lexed tok listed code).1, first]
  exact (tokenAt_semicolon here).1

/-- A semicolon that no span covers is one of the code. -/
theorem mem_terminators {i : Nat} (here : src.text.byteIs i Byte.isSemicolon = true)
    (free : src.map.spanAt? i = none) : i ∈ src.map.terminators := by
  obtain ⟨tok, listed, first, ends⟩ := src.lexFrom_tiling.exists_semicolon here free
  rw [← Array.mem_toList_iff, map_terminators, ← lexFrom_ends]
  exact List.mem_map.mpr ⟨tok, List.mem_filter.mpr ⟨listed, by simpa using ends⟩, first⟩

theorem terminators_semicolon {i : Nat} (listed : i ∈ src.map.terminators) :
    src.text.byteIs i Byte.isSemicolon = true := by
  rw [← Array.mem_toList_iff, map_terminators, ← lexFrom_ends] at listed
  obtain ⟨tok, kept, rfl⟩ := List.mem_map.mp listed
  obtain ⟨member, ends⟩ := List.mem_filter.mp kept
  rw [decide_eq_true_eq] at ends
  rw [(src.lexFrom_lexed true 0 tok member (by rw [ends]; rfl)).1, tokenAt_kind,
    (src.text.shapeAt_kind _).2] at ends
  exact ends

theorem terminators_ascend (src : Source) : src.map.terminators.toList.Pairwise (· < ·) := by
  rw [map_terminators, ← lexFrom_ends]
  refine List.pairwise_map.mpr (((src.lexFrom_apart true 0).imp_of_mem ?_).filter _)
  intro a b first _ apart
  exact Nat.lt_of_lt_of_le (src.lexFrom_bounds true 0 a first).1 apart

/-- The semicolon found after an offset is one of the code and does not stand before it. -/
theorem nextTerminator?_spec {offset last : Nat}
    (found : src.map.nextTerminator? offset = some last) :
    last ∈ src.map.terminators ∧ offset ≤ last := by
  have listed : last ∈ src.map.terminators := Array.mem_of_getElem? found
  refine ⟨listed, ?_⟩
  have splits : Bisect.Splits src.map.terminators (· < offset) := by
    intro j k first second below held
    rcases Nat.eq_or_lt_of_le below with rfl | later
    · exact held
    · have ascend := List.pairwise_iff_getElem.mp src.terminators_ascend j k
        (by simpa using first) (by simpa using second) later
      simp only [Array.getElem_toList, decide_eq_true_eq] at ascend held ⊢
      omega
  rw [SpanMap.nextTerminator?, Array.getElem?_eq_some_iff] at found
  obtain ⟨bound, rfl⟩ := found
  apply Nat.le_of_not_lt
  intro early
  have below := (Bisect.leading_spec splits _ bound).mp (by simpa using early)
  exact absurd below (Nat.lt_irrefl _)

/-- A statement ends with the text or after a semicolon of the code. -/
theorem statementStop_cases (src : Source) (offset : Nat) :
    src.statementStop offset = src.size ∨
      ∃ last ∈ src.map.terminators, offset ≤ last ∧ src.statementStop offset = last + 1 := by
  rw [statementStop]
  cases found : src.map.nextTerminator? offset with
  | none => exact Or.inl rfl
  | some last =>
    obtain ⟨listed, later⟩ := nextTerminator?_spec found
    exact Or.inr ⟨last, listed, later, rfl⟩

theorem statementStop_boundary (joined : src.text.Joined) (offset : Nat) :
    src.text.isBoundary (src.statementStop offset) = true := by
  rcases src.statementStop_cases offset with whole | ⟨last, listed, -, stop⟩
  · rw [whole]
    exact isBoundary_size _
  · rw [stop]
    exact joined.boundary_semicolon (terminators_semicolon listed)

theorem le_statementStop {offset : Nat} (within : offset ≤ src.size) :
    offset ≤ src.statementStop offset := by
  rcases src.statementStop_cases offset with whole | ⟨last, -, later, stop⟩
  · exact whole ▸ within
  · omega

end Source

namespace Scanner

section Values

variable (sc : Scanner)

theorem macroEndFrom_events (name : Text) (nested anchor : Nat) (events logged : Array Event) :
    (sc.macroEndFrom name nested anchor events).value =
      (sc.macroEndFrom name nested anchor logged).value := by
  fun_induction macroEndFrom sc name nested anchor events generalizing logged with
  | case1 nested anchor events more ended =>
    rw [macroEndFrom]
    split <;> simp_all
  | case2 nested anchor events offset more ended =>
    rw [macroEndFrom]
    split <;> simp_all
  | case3 anchor events place more ended bounds closes =>
    rw [macroEndFrom]
    split <;> simp_all
  | case4 anchor events place more ended bounds closes outer ih =>
    conv_rhs => rw [macroEndFrom]
    split <;> simp_all
    exact ih _
  | case5 nested anchor events place more ended bounds opens ih =>
    conv_rhs => rw [macroEndFrom]
    split <;> simp_all
    exact ih _

/-- The end of a macro definition by how the search for its next keyword ends. -/
theorem macroEndFrom_value (name : Text) (nested anchor : Nat) (events : Array Event) :
    (sc.macroEndFrom name nested anchor events).value =
      match (sc.search Pattern.macroKeyword anchor .forward).value with
      | .absent => .ok sc.text.size
      | .gaveUp offset => .error (.retryLimit offset sc.settings.limits.retries)
      | .found place =>
        if sc.isMacroEnd place then
          match nested with
          | 0 => .ok place.stop
          | outer + 1 => (sc.macroEndFrom name outer place.stop #[]).value
        else (sc.macroEndFrom name (nested + 1) place.stop #[]).value := by
  rw [macroEndFrom]
  split
  · rename_i ended
    rw [ended]
  · rename_i ended
    rw [ended]
  · rename_i place more ended
    simp only [ended]
    split
    · cases nested with
      | zero => rfl
      | succ outer => exact sc.macroEndFrom_events name outer place.stop _ _
    · exact sc.macroEndFrom_events name (nested + 1) place.stop _ _

theorem macroOpenerFrom_events (closer nested anchor : Nat) (events logged : Array Event) :
    (sc.macroOpenerFrom closer nested anchor events).value =
      (sc.macroOpenerFrom closer nested anchor logged).value := by
  fun_induction macroOpenerFrom sc closer nested anchor events generalizing logged with
  | case1 nested anchor events more ended =>
    rw [macroOpenerFrom]
    split <;> simp_all
  | case2 nested anchor events offset more ended =>
    rw [macroOpenerFrom]
    split <;> simp_all
  | case3 nested anchor events place more ended bounds closes ih =>
    conv_rhs => rw [macroOpenerFrom]
    split <;> simp_all
    exact ih _
  | case4 anchor events place more ended bounds opens opener =>
    rw [macroOpenerFrom]
    split <;> simp_all
    rfl
  | case5 anchor events place more ended bounds opens inner ih =>
    conv_rhs => rw [macroOpenerFrom]
    split <;> simp_all
    exact ih _

/-- The opener of a macro definition by how the search for the keyword before ends. -/
theorem macroOpenerFrom_value (closer nested anchor : Nat) (events : Array Event) :
    (sc.macroOpenerFrom closer nested anchor events).value =
      match (sc.search Pattern.macroKeyword anchor .backward).value with
      | .absent => .ambiguousAt closer
      | .gaveUp _ => .ambiguousAt closer
      | .found place =>
        if sc.isMacroEnd place then (sc.macroOpenerFrom closer (nested + 1) place.start #[]).value
        else
          match nested with
          | 0 => (sc.blockAt place).value
          | inner + 1 => (sc.macroOpenerFrom closer inner place.start #[]).value := by
  rw [macroOpenerFrom]
  split
  · rename_i ended
    rw [ended]
  · rename_i ended
    rw [ended]
  · rename_i place more ended
    simp only [ended]
    split
    · exact sc.macroOpenerFrom_events closer (nested + 1) place.start _ _
    · cases nested with
      | zero => rfl
      | succ inner => exact sc.macroOpenerFrom_events closer inner place.start _ _

end Values

variable {sc : Scanner}

/-- A keyword that a search finds matches there and counts. -/
theorem search_matches {pattern : Pattern} {anchor : Nat} {towards : Direction} {place : Extent}
    (found : (sc.search pattern anchor towards).value = .found place) :
    sc.text.Matches pattern place ∧ sc.rejection? place = none := by
  have runs : ∀ retries anchor events,
      (sc.searchFrom pattern towards retries anchor events).value = .found place →
        sc.text.Matches pattern place ∧ sc.rejection? place = none := by
    intro retries anchor events found
    fun_induction searchFrom sc pattern towards retries anchor events with
    | case1 anchor events => cases found
    | case2 retries anchor events absent => cases found
    | case3 retries anchor events m here counts =>
      cases found
      refine ⟨?_, counts⟩
      cases towards with
      | forward => exact Text.firstMatch_matches here
      | backward => exact Text.searchBackward_matches here
    | case4 retries anchor events m here why rejected ih => exact ih found
  exact runs _ _ _ found

/-- A search backward from a boundary is given up at one. -/
theorem gaveUp_boundary {pattern : Pattern} {anchor limit : Nat}
    (boundary : sc.text.isBoundary anchor = true)
    (ended : (sc.search pattern anchor .backward).value = .gaveUp limit) :
    sc.text.isBoundary limit = true := by
  have runs : ∀ retries anchor events, sc.text.isBoundary anchor = true →
      (sc.searchFrom pattern .backward retries anchor events).value = .gaveUp limit →
        sc.text.isBoundary limit = true := by
    intro retries anchor events boundary ended
    fun_induction searchFrom sc pattern .backward retries anchor events with
    | case1 anchor events =>
      cases ended
      exact boundary
    | case2 retries anchor events absent => cases ended
    | case3 retries anchor events m here counts => cases ended
    | case4 retries anchor events m here why rejected ih =>
      exact ih (Text.searchBackward_matches here).starts ended
  exact runs _ _ _ boundary ended

/-- The header of the block stands in the text between two character boundaries, and no end of the
block has been searched. -/
structure Formed (sc : Scanner) (b : Block) : Prop where
  starts : sc.text.isBoundary b.start = true
  ends : sc.text.isBoundary b.headerEnd = true
  ordered : b.start ≤ b.headerEnd
  stop_eq : b.stop = b.headerEnd

theorem formed_header {kind : Block.Kind} {start stop : Nat}
    (starts : sc.text.isBoundary start = true) (ends : sc.text.isBoundary stop = true)
    (ordered : start ≤ stop) : sc.Formed (.header kind start stop) :=
  ⟨starts, ends, ordered, rfl⟩

theorem formed_ambiguousAt {offset : Nat} (boundary : sc.text.isBoundary offset = true) :
    sc.Formed (.ambiguousAt offset) :=
  formed_header boundary boundary (Nat.le_refl offset)

theorem namedHeader_formed (joined : sc.text.Joined) {place : Extent}
    (starts : sc.text.isBoundary place.start = true) (ends : sc.text.isBoundary place.stop = true)
    (ordered : place.start ≤ place.stop) (kind : Text → Block.Kind) :
    sc.Formed (sc.namedHeader place kind).value := by
  unfold namedHeader
  split
  · rename_i name found
    have after := (Option.filter_eq_some_iff.mp found).1
    have behind := Source.lt_logicalToken?_stop ends after
    exact formed_header starts (Source.logicalToken?_stop_boundary joined after) (by omega)
  · exact formed_header starts ends ordered

/-- The header that a keyword begins is formed, whatever the keyword. -/
theorem blockAt_formed (joined : sc.text.Joined) {pattern : Pattern} {place : Extent}
    (matched : sc.text.Matches pattern place) (ends : pattern.EndsAscii) :
    sc.Formed (sc.blockAt place).value := by
  have starts := matched.starts
  have stop := matched.stop_boundary joined ends
  have ordered := matched.ordered
  unfold blockAt
  split
  · exact formed_header starts stop ordered
  split
  · split
    · rename_i tok found
      have after := (Option.filter_eq_some_iff.mp found).1
      split
      · exact formed_header starts (Source.logicalToken?_stop_boundary joined after)
          (Nat.le_of_lt (Source.lt_logicalToken?_stop starts after))
      · exact formed_header starts stop ordered
    · exact formed_header starts stop ordered
  split
  · exact namedHeader_formed joined starts stop ordered .proc
  split
  · exact namedHeader_formed joined starts stop ordered .macroBlock
  · refine formed_header starts (Source.statementStop_boundary joined _) ?_
    rw [closerEnd, Text.floor_eq_self starts]
    exact Source.le_statementStop (Text.le_size_of_boundary starts)

theorem blockBefore_formed (joined : sc.text.Joined) {anchor : Nat}
    (boundary : sc.text.isBoundary anchor = true) : sc.Formed (sc.blockBefore anchor).value := by
  rw [blockBefore, Logged.value_bind]
  cases found : (sc.search sc.keywords anchor .backward).value with
  | found place =>
    exact blockAt_formed joined (search_matches found).1 (Pattern.blockKeyword_ends _)
  | absent =>
    exact formed_header (Source.isBoundary_zero _) (Source.isBoundary_zero _) (Nat.le_refl 0)
  | gaveUp limit => exact formed_ambiguousAt (gaveUp_boundary boundary found)

theorem stepOpenerFrom_formed (joined : sc.text.Joined) {closer anchor : Nat}
    (closes : sc.text.isBoundary closer = true) (boundary : sc.text.isBoundary anchor = true)
    (retries : Nat) (events : Array Event) :
    sc.Formed (sc.stepOpenerFrom closer retries anchor events).value := by
  induction retries generalizing anchor events with
  | zero => exact formed_ambiguousAt closes
  | succ retries ih =>
    have before := blockBefore_formed joined boundary
    rw [stepOpenerFrom]
    split
    · exact ih before.starts _
    · exact ih before.starts _
    · exact formed_ambiguousAt closes
    · exact formed_ambiguousAt closes
    · exact before

theorem macroOpenerFrom_formed (joined : sc.text.Joined) {closer : Nat}
    (closes : sc.text.isBoundary closer = true) (nested anchor : Nat) :
    sc.Formed (sc.macroOpenerFrom closer nested anchor #[]).value := by
  induction anchor using Nat.strongRecOn generalizing nested with
  | ind anchor ih =>
    rw [macroOpenerFrom_value]
    cases found : (sc.search Pattern.macroKeyword anchor .backward).value with
    | absent => exact formed_ambiguousAt closes
    | gaveUp limit => exact formed_ambiguousAt closes
    | found place =>
      have bounds := search_backward_bounds Pattern.macroKeyword_positive found
      simp only
      split
      · exact ih place.start (by omega) (nested + 1)
      · cases nested with
        | zero => exact blockAt_formed joined (search_matches found).1 Pattern.macroKeyword_ends
        | succ inner => exact ih place.start (by omega) inner

/-- What keywords lead back to is formed. -/
theorem settle_formed (joined : sc.text.Joined) (offset retries : Nat) {b : Block}
    (events : Array Event) (formed : sc.Formed b) :
    sc.Formed (sc.settle offset retries b events).value := by
  induction retries generalizing b events with
  | zero => exact formed_ambiguousAt formed.starts
  | succ retries ih =>
    rw [settle]
    split
    · rename_i next leads
      refine ih _ ?_
      unfold leadsTo? at leads
      split at leads
      · cases leads
        exact blockBefore_formed joined formed.starts
      · cases leads
        exact stepOpenerFrom_formed joined formed.starts formed.starts _ _
      · cases leads
        exact macroOpenerFrom_formed joined formed.starts 0 _
      · cases leads
    · exact formed

/-- Keywords are followed back to one that leads no further. -/
theorem leadsTo?_settle (offset retries : Nat) (b : Block) (events : Array Event) :
    sc.leadsTo? (sc.settle offset retries b events).value = none := by
  induction retries generalizing b events with
  | zero => rfl
  | succ retries ih =>
    rw [settle]
    split
    · exact ih _ _
    · assumption

/-- A step ends with the text or after a semicolon of the code. -/
theorem stepEnd_spec {anchor stop : Nat} (ended : (sc.stepEnd anchor).value = .ok stop) :
    stop = sc.text.size ∨ ∃ last ∈ sc.source.map.terminators, anchor ≤ last ∧ stop = last + 1 := by
  rw [stepEnd, Logged.value_bind] at ended
  cases found : (sc.search (Pattern.stepCloser sc.settings.quitCloses) anchor .forward).value with
  | found place =>
    rw [found] at ended
    cases ended
    have bounds := search_forward_bounds (Pattern.stepCloser_positive _) found
    have starts := (search_matches found).1.starts
    rw [closerEnd, Text.floor_eq_self starts]
    refine (sc.source.statementStop_cases place.start).imp_right ?_
    rintro ⟨last, listed, later, stops⟩
    exact ⟨last, listed, by omega, stops⟩
  | absent =>
    rw [found] at ended
    cases ended
    exact Or.inl rfl
  | gaveUp limit =>
    rw [found] at ended
    cases ended

/-- An end after the first semicolon behind a `%mend` that stands at `anchor` or later. -/
def AfterMend (sc : Scanner) (anchor stop : Nat) : Prop :=
  ∃ keyword last, anchor ≤ keyword ∧ sc.text.startsWithLower keyword Text.mendWord = true ∧
    sc.text.semicolon? (keyword + 5) = some last ∧ stop = last + 1

/-- A macro keyword that is `%mend` matches up to the first semicolon behind it. -/
theorem afterMend_of_matches {place : Extent}
    (matched : sc.text.Matches Pattern.macroKeyword place) (closes : sc.isMacroEnd place = true) :
    sc.AfterMend place.start place.stop := by
  have here := matched.here
  have ordered := matched.ordered
  unfold Pattern.macroKeyword at here
  split at here
  · -- The third letters of the two keywords differ.
    rename_i opens
    have first := Text.startsWithLower_getElem (Bool.and_eq_true_iff.mp opens).1
      (show Text.macroWord[2]? = some 97 by decide)
    have second := Text.startsWithLower_getElem closes
      (show Text.mendWord[2]? = some 101 by decide)
    rw [Text.byteIs_apart second fun b same => by rw [eq_of_beq same]; decide] at first
    cases first
  split at here
  · obtain ⟨last, found, length⟩ := Option.map_eq_some_iff.mp here
    have later := (Text.semicolon?_bounds found).1
    exact ⟨place.start, last, Nat.le_refl _, closes, found, by omega⟩
  · cases here

/-- A macro definition ends with the text or after the first semicolon behind a `%mend`. -/
theorem macroEndFrom_spec {name : Text} {nested anchor stop : Nat}
    (ended : (sc.macroEndFrom name nested anchor #[]).value = .ok stop) :
    stop = sc.text.size ∨ sc.AfterMend anchor stop := by
  induction left : sc.text.size + 1 - anchor using Nat.strongRecOn generalizing nested anchor with
  | ind left ih =>
    rw [macroEndFrom_value] at ended
    cases found : (sc.search Pattern.macroKeyword anchor .forward).value with
    | absent =>
      rw [found] at ended
      cases ended
      exact Or.inl rfl
    | gaveUp limit =>
      rw [found] at ended
      cases ended
    | found place =>
      have bounds := search_forward_bounds Pattern.macroKeyword_positive found
      have extend {start : Nat} (later : anchor ≤ start) (after : sc.AfterMend start stop) :
          sc.AfterMend anchor stop := by
        obtain ⟨keyword, last, stands, rest⟩ := after
        exact ⟨keyword, last, Nat.le_trans later stands, rest⟩
      have further {nested : Nat}
          (ended : (sc.macroEndFrom name nested place.stop #[]).value = .ok stop) :
          stop = sc.text.size ∨ sc.AfterMend anchor stop :=
        (ih _ (by omega) ended rfl).imp_right (extend (by omega))
      rw [found] at ended
      simp only at ended
      split at ended
      · rename_i closes
        cases nested with
        | succ outer => exact further ended
        | zero =>
          cases ended
          exact Or.inr (extend bounds.1 (afterMend_of_matches (search_matches found).1 closes))
      · exact further ended

theorem locate_value {offset : Nat} (within : offset ≤ sc.source.size) :
    (sc.locate offset).value = (sc.withEnd (sc.settle offset sc.settings.limits.retries
      (sc.blockBefore (sc.source.statementStop (sc.source.text.floor offset))).value
      #[]).value).value := by
  rw [locate, beginningOfBlock, Source.checkOffset_within within]
  simp only [Logged.value_bind, Logged.value_map]
  split <;> simp_all

/-- The block around an offset is a header that leads no further, with its end. -/
theorem locate_within (joined : sc.text.Joined) {offset : Nat} (within : offset ≤ sc.source.size) :
    ∃ header, sc.Formed header ∧ sc.leadsTo? header = none ∧
      (sc.locate offset).value = (sc.withEnd header).value := by
  have first := blockBefore_formed joined
    (Source.statementStop_boundary joined (sc.source.text.floor offset))
  have settled := settle_formed joined offset sc.settings.limits.retries #[] first
  exact ⟨_, settled, leadsTo?_settle _ _ _ _, locate_value within⟩

/-- An opener with its end, from the header whose end was searched. -/
theorem locate_opener {offset : Nat} (joined : sc.text.Joined) {b : Block}
    (found : (sc.locate offset).value = .ok b) (opener : b.kind.isOpener = true) :
    sc.text.isBoundary b.headerEnd = true ∧ (sc.endOfBlock b).value = .ok b.stop := by
  by_cases within : offset ≤ sc.source.size
  · obtain ⟨header, formed, -, located⟩ := locate_within joined within
    rw [located] at found
    unfold withEnd at found
    split at found
    · rw [Logged.value_map] at found
      cases stopped : (sc.endOfBlock header).value with
      | error cause =>
        rw [stopped] at found
        cases found
      | ok stop =>
        rw [stopped] at found
        cases found
        exact ⟨formed.ends, stopped⟩
    · rename_i other
      cases found
      exact absurd opener other
  · have outside : sc.source.checkOffset offset = .error ⟨offset, sc.source.size⟩ :=
      if_pos (Nat.lt_of_not_le within)
    rw [locate, beginningOfBlock, outside] at found
    cases found

/-- The end of the block around an offset: the end of the text, or right after a semicolon behind
the header. For a step it is one of the code. For a macro definition it is the first behind its
`%mend`, and one of the code unless a comment or a literal covers it. -/
theorem locate_stop (lexical : LexicalSettings) (scanning : ScanSettings) (s : String)
    (offset : Nat) (b : Block)
    (found : (locate ⟨.ofText lexical (.ofString s), scanning⟩ offset).value = .ok b)
    (opener : b.kind.isOpener = true) :
    let src := Source.ofText lexical (.ofString s)
    b.stop = src.size ∨
      ∃ last, b.headerEnd ≤ last ∧ b.stop = last + 1 ∧
        src.text.byteIs last Byte.isSemicolon = true ∧
        (last ∈ src.map.terminators ∨
          (∃ name, b.kind = .macroBlock name) ∧ src.map.isCode last = false ∧
            AfterMend ⟨src, scanning⟩ b.headerEnd b.stop) := by
  intro src
  let sc : Scanner := ⟨src, scanning⟩
  have joined : sc.text.Joined := Text.joined_ofString s
  obtain ⟨boundary, ended⟩ := locate_opener joined found opener
  have floor : sc.text.floor b.headerEnd = b.headerEnd := Text.floor_eq_self boundary
  have step (ended : (sc.stepEnd (sc.text.floor b.headerEnd)).value = .ok b.stop) :
      b.stop = src.size ∨ ∃ last ∈ src.map.terminators, b.headerEnd ≤ last ∧
        b.stop = last + 1 := by
    rw [floor] at ended
    exact stepEnd_spec ended
  have code (law : b.stop = src.size ∨ ∃ last ∈ src.map.terminators, b.headerEnd ≤ last ∧
      b.stop = last + 1) :
      b.stop = src.size ∨ ∃ last, b.headerEnd ≤ last ∧ b.stop = last + 1 ∧
        src.text.byteIs last Byte.isSemicolon = true ∧
        (last ∈ src.map.terminators ∨ (∃ name, b.kind = .macroBlock name) ∧
          src.map.isCode last = false ∧ sc.AfterMend b.headerEnd b.stop) :=
    law.imp_right fun ⟨last, listed, later, stops⟩ =>
      ⟨last, later, stops, Source.terminators_semicolon listed, Or.inl listed⟩
  unfold endOfBlock at ended
  split at ended
  · exact code (step ended)
  · exact code (step ended)
  · rename_i name kind
    rw [floor] at ended
    refine (macroEndFrom_spec ended).imp_right fun after => ?_
    obtain ⟨keyword, last, later, -, sought, stops⟩ := id after
    obtain ⟨beyond, here, -⟩ := Text.semicolon?_eq_some_iff.mp sought
    refine ⟨last, by omega, stops, here, ?_⟩
    cases covered : src.map.spanAt? last with
    | none => exact Or.inl (Source.mem_terminators here covered)
    | some s =>
      exact Or.inr ⟨⟨name, kind⟩, by rw [SpanMap.isCode, covered]; rfl, after⟩
  · rename_i proc data named
    cases kind : b.kind <;> simp_all [Block.Kind.isOpener]

/-- The definition ends inside the comment behind its `%mend`. -/
theorem locate_stop_covered :
    let src := Source.ofText {} (.ofString "%macro m; %mend /* ; */ ; x")
    (locate ⟨src, {}⟩ 0).value = .ok ⟨.macroBlock (.ofString "m"), 0, 8, 20⟩ ∧
      19 ∉ src.map.terminators ∧ src.map.isCode 20 = false ∧ 20 < src.size := by
  decide +kernel

/-- A step whose closing statement has a comment with a semicolon ends after its own. -/
theorem locate_stop_step :
    let src := Source.ofText {} (.ofString "data a; run /* ; */ ; x")
    (locate ⟨src, {}⟩ 0).value = .ok ⟨.data, 0, 4, 21⟩ ∧ Block.Kind.isOpener .data = true ∧
      (21 = src.size ∨ ∃ last, 4 ≤ last ∧ 21 = last + 1 ∧
        src.text.byteIs last Byte.isSemicolon = true ∧
        (last ∈ src.map.terminators ∨ (∃ name, Block.Kind.data = .macroBlock name) ∧
          src.map.isCode last = false ∧ AfterMend ⟨src, {}⟩ 4 21)) := by
  intro src
  have found : (locate ⟨src, {}⟩ 0).value = .ok ⟨.data, 0, 4, 21⟩ := by decide +kernel
  exact ⟨found, rfl, locate_stop {} {} "data a; run /* ; */ ; x" 0 _ found rfl⟩

end Scanner
end SasLayout
