import SasLayout.Proofs.SearchLimits

set_option autoImplicit false

/-!
What a search for a keyword reaches. A match holds no semicolon before its last byte. A search
passes over no keyword that counts, unless another match reaches into it or, on the way back, begins
inside it. So where the keywords that count overlap no other match, a search of a text below the
limit on rejected keywords finds the nearest of them, wherever its windows begin.
-/
namespace SasLayout

/-! ### Matches and semicolons -/

namespace Text

variable {t : Text} {i : Nat}

/-- The bytes of a keyword are visible and no semicolons. -/
theorem keyword_inside {k : Keyword} (listed : k ∈ Block.words)
    (stands : t.startsWithLower i (Program.bytes k.spelling) = true) {j : Nat} (lower : i ≤ j)
    (upper : j < i + (Program.bytes k.spelling).length) :
    t.byteIs j (!Byte.isBlank ·) = true ∧ t.byteIs j Byte.isSemicolon = false := by
  have shown : ∀ k ∈ Block.words, ∀ n < (Program.bytes k.spelling).length,
      (Program.bytes k.spelling)[n]?.any (!Byte.isBlank ·) = true ∧
      (Program.bytes k.spelling)[n]?.any (!Byte.isSemicolon ·) = true := by decide
  obtain ⟨n, rfl⟩ := Nat.exists_eq_add_of_le lower
  obtain ⟨visible, plain⟩ := shown k listed n (by omega)
  constructor
  · exact byteIs_of_startsWithLower stands (fun b => by rw [Byte.isBlank_lower]) visible
  · have other := byteIs_of_startsWithLower stands (fun b => by rw [Byte.isSemicolon_lower]) plain
    exact (byteIs_not_iff.mp other).2

theorem skipWhiteSpace_before {j : Nat} (lower : i ≤ j) (upper : j < t.skipWhiteSpace i) :
    t.byteIs j Byte.isSemicolon = false := by
  fun_induction skipWhiteSpace t i with
  | case1 i inside white _ ih =>
    by_cases later : t.next i ≤ j
    · exact ih later upper
    rcases Nat.eq_or_lt_of_le lower with rfl | inner
    · rw [Bool.eq_false_iff]
      intro here
      obtain ⟨b, found, same⟩ := byteIs_iff.mp here
      obtain rfl : b = Byte.semicolon := by simpa [Byte.isSemicolon] using same
      rw [char?_eq_decode t found, decode_ascii (by decide)] at white
      revert white
      decide
    · -- the other bytes of the character are no first ones
      have other := seek_before (p := (!Byte.isContinuation ·)) inner (Nat.lt_of_not_le later)
      refine byteIs_anti other fun b same => ?_
      obtain rfl : b = Byte.semicolon := by simpa [Byte.isSemicolon] using same
      decide
  | case2 i inside visible => omega
  | case3 i outside => omega

/-- A closing statement ends with its first semicolon. -/
theorem closerStop?_before {stop j : Nat} (closed : t.closerStop? i = some stop) (lower : i ≤ j)
    (upper : j + 1 < stop) : t.byteIs j Byte.isSemicolon = false := by
  unfold closerStop? at closed
  simp only at closed
  split at closed
  · cases closed
    by_cases skipped : j < t.skipWhiteSpace i
    · exact skipWhiteSpace_before lower skipped
    · have other := seek_before (Nat.le_of_not_lt skipped) (Nat.lt_of_add_lt_add_right upper)
      exact byteIs_anti other fun b same => by rw [same, Bool.true_or]
  · cases closed

end Text

namespace Pattern

/-- A match begins with a visible byte, and no byte before its last is a semicolon. -/
def Enclosed (pattern : Pattern) : Prop :=
  ∀ (t : Text) (i length : Nat), pattern t i = some length →
    t.byteIs i (!Byte.isBlank ·) = true ∧
      ∀ j, i ≤ j → j + 1 < i + length → t.byteIs j Byte.isSemicolon = false

variable {t : Text} {i : Nat} {k : Keyword}

theorem keyword_enclosed (listed : k ∈ Block.words)
    (stands : t.startsWithLower i (Program.bytes k.spelling) = true) :
    t.byteIs i (!Byte.isBlank ·) = true ∧
      ∀ j, i ≤ j → j + 1 < i + (Program.bytes k.spelling).length →
        t.byteIs j Byte.isSemicolon = false := by
  have proper := List.length_pos_iff.mpr
    (Program.ne_nil_of_isSpelled (Program.Word.keyword_spelled k))
  constructor
  · exact (Text.keyword_inside listed stands (Nat.le_refl i) (by omega)).1
  · intro j lower upper
    exact (Text.keyword_inside listed stands lower (by omega)).2

/-- Nor does what follows a keyword hold a semicolon before its last byte. -/
theorem closer_enclosed (listed : k ∈ Block.words)
    (stands : t.startsWithLower i (Program.bytes k.spelling) = true) {length : Nat}
    (behind : ∀ j, i + (Program.bytes k.spelling).length ≤ j → j + 1 < i + length →
      t.byteIs j Byte.isSemicolon = false) :
    t.byteIs i (!Byte.isBlank ·) = true ∧
      ∀ j, i ≤ j → j + 1 < i + length → t.byteIs j Byte.isSemicolon = false := by
  refine ⟨(keyword_enclosed listed stands).1, fun j lower upper => ?_⟩
  by_cases word : j < i + (Program.bytes k.spelling).length
  · exact (Text.keyword_inside listed stands lower word).2
  · exact behind j (Nat.le_of_not_lt word) upper

theorem stepOpener_enclosed : Enclosed stepOpener := by
  intro t i length found
  unfold stepOpener at found
  split at found
  · rename_i either
    cases found
    simp only [Bool.or_eq_true, Text.wholeWordAt, Bool.and_eq_true] at either
    rcases either with ⟨⟨stands, -⟩, -⟩ | ⟨⟨stands, -⟩, -⟩
    · exact keyword_enclosed (k := .proc) (by decide) stands
    · exact keyword_enclosed (k := .data) (by decide) stands
  · cases found

theorem stepCloser_enclosed (quitCloses : Bool) : Enclosed (stepCloser quitCloses) := by
  intro t i length found
  have closer {k : Keyword} (listed : k ∈ Block.words)
      (whole : t.wholeWordAt (Program.bytes k.spelling) i = true)
      (found : (t.closerStop? (i + (Program.bytes k.spelling).length)).map (· - i) = some length) :
      t.byteIs i (!Byte.isBlank ·) = true ∧
        ∀ j, i ≤ j → j + 1 < i + length → t.byteIs j Byte.isSemicolon = false := by
    simp only [Text.wholeWordAt, Bool.and_eq_true] at whole
    obtain ⟨stop, closed, rfl⟩ := Option.map_eq_some_iff.mp found
    have later := Text.lt_closerStop closed
    exact closer_enclosed listed whole.1.1 fun j lower upper =>
      Text.closerStop?_before closed lower (by omega)
  unfold stepCloser at found
  split at found
  · exact closer (k := .run) (by decide) ‹_› found
  split at found
  · rename_i both
    exact closer (k := .quit) (by decide) (Bool.and_eq_true_iff.mp both).2 found
  · cases found

theorem macroKeyword_enclosed : Enclosed macroKeyword := by
  intro t i length found
  unfold macroKeyword at found
  split at found
  · rename_i opens
    cases found
    exact keyword_enclosed (k := .macroBegin) (by decide) (Bool.and_eq_true_iff.mp opens).1
  split at found
  · rename_i closes
    obtain ⟨last, next, rfl⟩ := Option.map_eq_some_iff.mp found
    obtain ⟨later, -, before⟩ := Text.semicolon?_eq_some_iff.mp next
    exact closer_enclosed (k := .macroEnd) (by decide) (Bool.and_eq_true_iff.mp closes).1
      fun j lower upper => before j lower (by omega)
  · cases found

theorem blockKeyword_enclosed (quitCloses : Bool) : Enclosed (blockKeyword quitCloses) := by
  intro t i length found
  unfold blockKeyword at found
  split at found
  · cases found
    exact stepOpener_enclosed t i _ ‹_›
  split at found
  · cases found
    exact macroKeyword_enclosed t i _ ‹_›
  · exact stepCloser_enclosed quitCloses t i length found

end Pattern

/-! ### What a search reaches -/

namespace Text

variable {t : Text} {pattern : Pattern} {i anchor : Nat} {place s : Extent}

theorem Matches.eq_of_start (first : t.Matches pattern place) (second : t.Matches pattern s)
    (same : place.start = s.start) : place = s := by
  have lengths := second.here
  rw [← same, first.here, Option.some.injEq] at lengths
  have ordered := first.ordered
  have ordered' := second.ordered
  cases place
  cases s
  simp only [Extent.mk.injEq] at *
  omega

/-- The first match is no later than any other. -/
theorem firstMatch_reaches (matched : t.Matches pattern s) (ahead : i ≤ s.start) :
    ∃ m, t.firstMatch pattern i = some m ∧ m.start ≤ s.start := by
  have within := le_size_of_boundary matched.starts
  have earlier {i : Nat} (ahead : i ≤ s.start)
      (missed : pattern t i = none ∨ ¬ t.isBoundary i = true) : i + 1 ≤ s.start := by
    apply Nat.lt_of_le_of_ne ahead
    rintro rfl
    rcases missed with absent | inner
    · rw [matched.here] at absent
      cases absent
    · exact inner matched.starts
  fun_induction firstMatch t pattern i with
  | case1 i inside length here whole => exact ⟨_, rfl, ahead⟩
  | case2 i inside length here inner ih => exact ih (earlier ahead (Or.inr inner))
  | case3 i inside absent ih => exact ih (earlier ahead (Or.inl absent))
  | case4 i outside => omega

/-- A match that the last one is not taken from starts behind the anchor of the scan. -/
theorem lastMatch_cases (t : Text) (pattern : Pattern) (anchor i : Nat) (last : Option Extent) :
    t.lastMatch pattern anchor i last = last ∨
      ∃ m, t.lastMatch pattern anchor i last = some m ∧ i ≤ m.start := by
  fun_induction lastMatch t pattern anchor i last with
  | case1 i last absent => exact Or.inl rfl
  | case2 i last m here beyond => exact Or.inl rfl
  | case3 i last m here within proper ih =>
    have bounds := firstMatch_bounds here
    rcases ih with same | ⟨m', found, later⟩
    · exact Or.inr ⟨m, same, bounds.1⟩
    · exact Or.inr ⟨m', found, by omega⟩
  | case4 i last m here within empty inside ih =>
    have bounds := firstMatch_bounds here
    have further := t.lt_next m.stop inside
    rcases ih with same | ⟨m', found, later⟩
    · exact Or.inr ⟨m, same, bounds.1⟩
    · exact Or.inr ⟨m', found, by omega⟩
  | case5 i last m here within empty outside => exact Or.inr ⟨m, rfl, (firstMatch_bounds here).1⟩

theorem next_le_of_boundary {j : Nat} (boundary : t.isBoundary j = true) (beyond : i < j) :
    t.next i ≤ j := by
  simp only [isBoundary, Bool.or_eq_true, beq_iff_eq] at boundary
  rcases boundary with (rfl | rfl) | starts
  · omega
  · exact t.seek_le_size _ _
  · exact seek_le_of_found beyond starts

/-- The successive matches from before a match on that none before it overlaps go on to it, at
least. -/
theorem Matches.lastMatch_reaches (matched : t.Matches pattern s)
    (apart : ∀ m, t.Matches pattern m → m.start < s.start → m.stop ≤ s.start)
    (ahead : i ≤ s.start) (within : s.stop ≤ anchor) (last : Option Extent) :
    ∃ m, t.lastMatch pattern anchor i last = some m ∧ s.start ≤ m.start := by
  have ordered := matched.ordered
  have inside := le_size_of_boundary matched.starts
  have reached {i : Nat} {m : Extent} (ahead : i ≤ s.start)
      (here : t.firstMatch pattern i = some m) : m = s ∨ m.start < s.start ∧ m.stop ≤ s.start := by
    obtain ⟨m', here', early⟩ := firstMatch_reaches matched ahead
    obtain rfl : m' = m := Option.some.inj (here'.symm.trans here)
    have matched' := firstMatch_matches here
    rcases Nat.lt_or_eq_of_le early with before | same
    · exact Or.inr ⟨before, apart m' matched' before⟩
    · exact Or.inl (matched'.eq_of_start matched same)
  -- from `s` on, whatever is found later starts later
  have kept (j : Nat) (behind : s.stop ≤ j) :
      ∃ m, t.lastMatch pattern anchor j (some s) = some m ∧ s.start ≤ m.start := by
    rcases t.lastMatch_cases pattern anchor j (some s) with same | ⟨m, found, later⟩
    · exact ⟨s, same, Nat.le_refl _⟩
    · exact ⟨m, found, by omega⟩
  fun_induction lastMatch t pattern anchor i last with
  | case1 i last absent =>
    obtain ⟨m, here, -⟩ := firstMatch_reaches matched ahead
    rw [here] at absent
    cases absent
  | case2 i last m here beyond =>
    rcases reached ahead here with rfl | before
    · omega
    · omega
  | case3 i last m here inner nonempty ih =>
    rcases reached ahead here with rfl | before
    · exact kept m.stop (Nat.le_refl _)
    · exact ih before.2
  | case4 i last m here inner empty further ih =>
    rcases reached ahead here with rfl | before
    · exact kept _ (Nat.le_of_lt (t.lt_next m.stop further))
    · exact ih (next_le_of_boundary matched.starts (by omega))
  | case5 i last m here inner empty outside =>
    rcases reached ahead here with rfl | before
    · exact ⟨m, rfl, Nat.le_refl _⟩
    · omega

/-- So does a search backward, wherever its windows begin. -/
theorem Matches.searchWindows_reaches (matched : t.Matches pattern s)
    (apart : ∀ m, t.Matches pattern m → m.start < s.start → m.stop ≤ s.start)
    (within : s.stop ≤ anchor) (k : Nat) :
    ∃ m, t.searchWindows pattern anchor k = some m ∧ s.start ≤ m.start := by
  fun_induction searchWindows t pattern anchor k with
  | case1 k wide m here =>
    refine ⟨m, rfl, ?_⟩
    by_cases covers : t.floor (anchor - windowSize k) ≤ s.start
    · obtain ⟨m', here', reached⟩ := matched.lastMatch_reaches apart covers within none
      rwa [← Option.some.inj (here'.symm.trans here)]
    · -- the window begins behind the start of `s`, and so does what is found in it
      rcases t.lastMatch_cases pattern anchor (t.floor (anchor - windowSize k)) none with
        none | ⟨m', here', later⟩
      · rw [here] at none
        cases none
      · rw [Option.some.inj (here.symm.trans here')]
        omega
  | case2 k wide absent _ ih => exact ih
  | case3 k narrow => exact matched.lastMatch_reaches apart (Nat.zero_le _) within none

/-- A match that no match before it overlaps, and inside which no other starts. -/
structure Solid (t : Text) (pattern : Pattern) (s : Extent) : Prop where
  matched : t.Matches pattern s
  apart : ∀ m, t.Matches pattern m → m.start < s.start → m.stop ≤ s.start
  hollow : ∀ j, s.start < j → j < s.stop → pattern t j = none

/-- A search backward passes over no solid match. -/
theorem Solid.searchBackward_reaches (solid : t.Solid pattern s)
    (within : s.stop ≤ t.floor anchor) :
    ∃ m, t.searchBackward pattern anchor = some m ∧ (m = s ∨ s.stop ≤ m.start) := by
  obtain ⟨m, found, later⟩ := solid.matched.searchWindows_reaches solid.apart within 0
  refine ⟨m, found, ?_⟩
  have matched := searchBackward_matches found
  rcases Nat.eq_or_lt_of_le later with same | behind
  · exact Or.inl (matched.eq_of_start solid.matched same.symm)
  · right
    apply Nat.le_of_not_lt
    intro inner
    have absent := solid.hollow m.start behind inner
    rw [matched.here] at absent
    cases absent

end Text

/-- A search from `anchor` has the whole of a keyword before it. -/
def Extent.Ahead (place : Extent) (anchor : Nat) : Direction → Prop
  | .forward => anchor ≤ place.start
  | .backward => place.stop ≤ anchor

instance (place : Extent) (anchor : Nat) (towards : Direction) :
    Decidable (place.Ahead anchor towards) :=
  match towards with
  | .forward => inferInstanceAs (Decidable (anchor ≤ place.start))
  | .backward => inferInstanceAs (Decidable (place.stop ≤ anchor))

theorem Extent.Ahead.trans {h m : Extent} {anchor : Nat} {towards : Direction}
    (further : h.Ahead (m.beyond towards) towards) (ahead : m.Ahead anchor towards)
    (proper : m.start < m.stop) : h.Ahead anchor towards := by
  cases towards <;> simp only [Ahead, beyond] at * <;> omega

/-- A search meets `p` no later than `q`. -/
def Direction.Meets (p q : Nat) : Direction → Prop
  | .forward => p ≤ q
  | .backward => q ≤ p

theorem Direction.Meets.refl (towards : Direction) (p : Nat) : towards.Meets p p := by
  cases towards <;> exact Nat.le_refl p

theorem Extent.Ahead.meets {h m : Extent} {towards : Direction}
    (further : h.Ahead (m.beyond towards) towards) (proper : m.start < m.stop)
    (proper' : h.start < h.stop) : towards.Meets m.start h.start := by
  cases towards <;> simp only [Ahead, beyond, Direction.Meets] at * <;> omega

namespace Scanner

variable {sc : Scanner} {pattern : Pattern} {place s : Extent} {anchor : Nat} {towards : Direction}

/-- A match that counts. -/
structure Admits (sc : Scanner) (pattern : Pattern) (place : Extent) : Prop where
  matched : sc.text.Matches pattern place
  counts : sc.rejection? place = none

theorem search_ahead (positive : pattern.Positive)
    (found : (sc.search pattern anchor towards).value = .found place) :
    place.start < place.stop ∧ place.Ahead anchor towards := by
  cases towards with
  | forward =>
    obtain ⟨lower, -, proper⟩ := search_forward_bounds positive found
    exact ⟨proper, lower⟩
  | backward => exact search_backward_bounds positive found

section Short

variable (short : sc.text.size < sc.settings.limits.retries) (ends : pattern.EndsAscii)
include short ends

/-- A search goes on as long as its anchors are clear of `s`, and no further than to `s`. -/
theorem search_keeps (clear : Nat → Prop) (counts : sc.rejection? s = none)
    (step : ∀ anchor, clear anchor → ∃ m, sc.candidate? pattern anchor towards = some m ∧
      (m = s ∨ clear (m.beyond towards))) (first : clear anchor) :
    ∃ m, (sc.search pattern anchor towards).value = .found m ∧
      (m = s ∨ clear (m.beyond towards)) := by
  have runs : ∀ retries anchor events, clear anchor →
      (∀ limit, (sc.searchFrom pattern towards retries anchor events).value ≠ .gaveUp limit) →
      ∃ m, (sc.searchFrom pattern towards retries anchor events).value = .found m ∧
        (m = s ∨ clear (m.beyond towards)) := by
    intro retries anchor events first goesOn
    fun_induction searchFrom sc pattern towards retries anchor events with
    | case1 anchor events => exact absurd rfl (goesOn anchor)
    | case2 retries anchor events absent =>
      obtain ⟨m, here, -⟩ := step anchor first
      cases here.symm.trans absent
    | case3 retries anchor events m here admitted =>
      obtain ⟨m', here', kept⟩ := step anchor first
      obtain rfl := Option.some.inj (here'.symm.trans here)
      exact ⟨m', rfl, kept⟩
    | case4 retries anchor events m here why rejected ih =>
      obtain ⟨m', here', kept⟩ := step anchor first
      obtain rfl := Option.some.inj (here'.symm.trans here)
      rcases kept with rfl | kept
      · cases counts.symm.trans rejected
      · exact ih kept goesOn
  exact runs _ _ _ first (search_ne_gaveUp short ends anchor towards)

/-- A search forward passes over no keyword that counts, unless a match reaches into it. -/
theorem search_forward_passes (admits : sc.Admits pattern s)
    (apart : ∀ m, sc.text.Matches pattern m → m.start < s.start → m.stop ≤ s.start)
    (ahead : anchor ≤ s.start) :
    ∃ m, (sc.search pattern anchor .forward).value = .found m ∧ (m = s ∨ m.stop ≤ s.start) := by
  have step (anchor : Nat) (ahead : anchor ≤ s.start) :
      ∃ m, sc.candidate? pattern anchor .forward = some m ∧ (m = s ∨ m.stop ≤ s.start) := by
    obtain ⟨m, here, early⟩ := Text.firstMatch_reaches admits.matched ahead
    refine ⟨m, here, ?_⟩
    have matched := Text.firstMatch_matches here
    rcases Nat.lt_or_eq_of_le early with before | same
    · exact Or.inr (apart m matched before)
    · exact Or.inl (matched.eq_of_start admits.matched same)
  exact search_keeps short ends (· ≤ s.start) admits.counts step ahead

/-- A search backward passes over no solid keyword that counts. -/
theorem search_backward_passes (counts : sc.rejection? s = none)
    (solid : sc.text.Solid pattern s) (ahead : s.stop ≤ anchor)
    (boundary : sc.text.isBoundary anchor = true) :
    ∃ m, (sc.search pattern anchor .backward).value = .found m ∧ (m = s ∨ s.stop ≤ m.start) := by
  have step (anchor : Nat) (clear : s.stop ≤ anchor ∧ sc.text.isBoundary anchor = true) :
      ∃ m, sc.candidate? pattern anchor .backward = some m ∧
        (m = s ∨ s.stop ≤ m.start ∧ sc.text.isBoundary m.start = true) := by
    have within : s.stop ≤ sc.text.floor anchor := by
      rw [Text.floor_eq_self clear.2]
      exact clear.1
    obtain ⟨m, here, behind⟩ := solid.searchBackward_reaches within
    have starts := (Text.searchBackward_matches here).starts
    exact ⟨m, here, behind.imp_right fun later => ⟨later, starts⟩⟩
  obtain ⟨m, found, kept⟩ := search_keeps short ends
    (fun anchor => s.stop ≤ anchor ∧ sc.text.isBoundary anchor = true) counts step ⟨ahead, boundary⟩
  exact ⟨m, found, kept.imp_right And.left⟩

end Short

/-! ### Keywords that overlap no other match -/

/-- A keyword that counts overlaps no other match, whether that counts or not. -/
def KeywordsApart (sc : Scanner) : Prop :=
  ∀ i ≤ sc.text.size, ∀ n ∈ sc.keywords sc.text i, sc.rejection? ⟨i, i + n⟩ = none →
    ∀ j ≤ sc.text.size, ∀ m ∈ sc.keywords sc.text j, j = i ∨ j + m ≤ i ∨ i + n ≤ j

instance (sc : Scanner) : Decidable sc.KeywordsApart :=
  inferInstanceAs (Decidable (∀ i ≤ sc.text.size, ∀ n ∈ sc.keywords sc.text i,
    sc.rejection? ⟨i, i + n⟩ = none →
      ∀ j ≤ sc.text.size, ∀ m ∈ sc.keywords sc.text j, j = i ∨ j + m ≤ i ∨ i + n ≤ j))

/-- Whatever matches one of the patterns is a block keyword of the same length. -/
theorem keywords_of_pattern (listed : pattern ∈ sc.patterns) {t : Text} {i n : Nat}
    (found : pattern t i = some n) : sc.keywords t i = some n := by
  simp only [patterns, List.mem_cons, List.not_mem_nil, or_false] at listed
  unfold keywords Pattern.blockKeyword
  rcases listed with rfl | rfl | rfl
  · exact found
  · obtain ⟨k, closes, announces⟩ := Text.announces_of_stepCloser found
    have other : ∀ k ∈ [Keyword.run, .quit], k ∉ [Keyword.proc, .data] ∧
        k ∉ [Keyword.macroBegin, .macroEnd] := by decide
    rw [announces.stepOpener_none (other k closes).1,
      announces.macroKeyword_none (other k closes).2]
    exact found
  · obtain ⟨k, signs, announces⟩ := Text.announces_of_macroKeyword found
    have other : ∀ k ∈ [Keyword.macroBegin, .macroEnd], k ∉ [Keyword.proc, .data] := by decide
    rw [announces.stepOpener_none (other k signs), found]

theorem Admits.keyword (listed : pattern ∈ sc.patterns) (admits : sc.Admits pattern place) :
    sc.Admits sc.keywords place :=
  ⟨⟨admits.matched.starts, admits.matched.ordered, keywords_of_pattern listed admits.matched.here⟩,
    admits.counts⟩

/-- The end of a search that finds the keyword that counts which it meets first. -/
def Nearest (sc : Scanner) (pattern : Pattern) (anchor : Nat) (towards : Direction) :
    SearchEnd → Prop
  | .found m => sc.Admits pattern m ∧ m.Ahead anchor towards ∧
    ∀ q, sc.Admits pattern q → q.Ahead anchor towards → towards.Meets m.start q.start
  | .absent => ∀ q, sc.Admits pattern q → ¬ q.Ahead anchor towards
  | .gaveUp _ => False

/-- A search backward from here meets every match that begins before. -/
structure Clean (sc : Scanner) (anchor : Nat) : Prop where
  boundary : sc.text.isBoundary anchor = true
  whole : ∀ m, sc.text.Matches sc.keywords m → m.start < anchor → m.stop ≤ anchor

theorem clean_zero (sc : Scanner) : sc.Clean 0 :=
  ⟨Source.isBoundary_zero _, fun _ _ before => absurd before (Nat.not_lt_zero _)⟩

/-- No match reaches over the end of a statement. -/
theorem clean_statementStop {offset : Nat}
    (boundary : sc.text.isBoundary (sc.source.statementStop offset) = true) :
    sc.Clean (sc.source.statementStop offset) := by
  refine ⟨boundary, fun m matched before => ?_⟩
  obtain ⟨-, within, -⟩ := Pattern.blockKeyword_ends _ _ _ _ matched.here
  have ordered := matched.ordered
  rcases sc.source.statementStop_cases offset with whole | ⟨last, terminator, -, stop⟩
  · rw [whole]
    rwa [Nat.add_sub_cancel' ordered] at within
  · have semicolon := Source.terminators_semicolon terminator
    obtain ⟨-, bare⟩ := Pattern.blockKeyword_enclosed _ _ _ _ matched.here
    apply Nat.le_of_not_lt
    intro longer
    have other : sc.source.text.byteIs last Byte.isSemicolon = false :=
      bare last (by omega) (by omega)
    rw [other] at semicolon
    cases semicolon

section Apart

variable (apart : sc.KeywordsApart)
include apart

theorem KeywordsApart.cases (admits : sc.Admits sc.keywords place)
    (matched : sc.text.Matches sc.keywords s) :
    s.start = place.start ∨ s.stop ≤ place.start ∨ place.stop ≤ s.start := by
  have first := Nat.add_sub_cancel' admits.matched.ordered
  have second := Nat.add_sub_cancel' matched.ordered
  have either := apart place.start (Text.le_size_of_boundary admits.matched.starts) _
    admits.matched.here (by rw [first]; exact admits.counts) s.start
    (Text.le_size_of_boundary matched.starts) _ matched.here
  rwa [first, second] at either

theorem KeywordsApart.solid (listed : pattern ∈ sc.patterns) (admits : sc.Admits pattern place) :
    sc.text.Solid pattern place := by
  have known := admits.keyword listed
  refine ⟨admits.matched, fun m matched before => ?_, fun j lower upper => ?_⟩
  · have proper := Pattern.blockKeyword_positive _ _ _ _ known.matched.here
    have either := apart.cases known ⟨matched.starts, matched.ordered,
      keywords_of_pattern listed matched.here⟩
    have ordered := matched.ordered
    omega
  · rw [Option.eq_none_iff_forall_ne_some]
    intro n found
    have within := (Pattern.blockKeyword_ends _ _ _ _ known.matched.here).2.1
    have first := Nat.add_sub_cancel' known.matched.ordered
    have either := apart place.start (Text.le_size_of_boundary known.matched.starts) _
      known.matched.here (by rw [first]; exact known.counts) j (by omega) n
      (keywords_of_pattern listed found)
    omega

theorem KeywordsApart.clean (admits : sc.Admits sc.keywords place) : sc.Clean place.start := by
  refine ⟨admits.matched.starts, fun m matched before => ?_⟩
  have proper := Pattern.blockKeyword_positive _ _ _ _ admits.matched.here
  have either := apart.cases admits matched
  have ordered := matched.ordered
  omega

/-- A search passes over no keyword that counts. -/
theorem KeywordsApart.search_passes (short : sc.text.size < sc.settings.limits.retries)
    (listed : pattern ∈ sc.patterns) (admits : sc.Admits pattern place)
    (ahead : place.Ahead anchor towards)
    (boundary : towards = .backward → sc.text.isBoundary anchor = true) :
    ∃ m, (sc.search pattern anchor towards).value = .found m ∧
      (m = place ∨ place.Ahead (m.beyond towards) towards) := by
  have ends := patterns_end pattern listed
  have solid := apart.solid listed admits
  cases towards with
  | forward => exact search_forward_passes short ends admits solid.apart ahead
  | backward => exact search_backward_passes short ends admits.counts solid ahead (boundary rfl)

theorem KeywordsApart.search_nearest (short : sc.text.size < sc.settings.limits.retries)
    (listed : pattern ∈ sc.patterns)
    (boundary : towards = .backward → sc.text.isBoundary anchor = true) :
    sc.Nearest pattern anchor towards (sc.search pattern anchor towards).value := by
  have ends := patterns_end pattern listed
  have passes (q : Extent) (admits : sc.Admits pattern q) (ahead : q.Ahead anchor towards) :=
    apart.search_passes short listed admits ahead boundary
  cases ended : (sc.search pattern anchor towards).value with
  | found m =>
    obtain ⟨matched, counts⟩ := search_matches ended
    obtain ⟨proper, ahead⟩ := search_ahead ends.positive ended
    refine ⟨⟨matched, counts⟩, ahead, fun q admits further => ?_⟩
    obtain ⟨m', found, same | beyond⟩ := passes q admits further
    · cases ended.symm.trans found
      exact same ▸ Direction.Meets.refl towards _
    · cases ended.symm.trans found
      have positive := ends.positive _ _ _ admits.matched.here
      exact beyond.meets proper (by omega)
  | absent =>
    intro q admits further
    obtain ⟨m, found, -⟩ := passes q admits further
    cases ended.symm.trans found
  | gaveUp limit => exact search_ne_gaveUp short ends anchor towards limit ended

end Apart

end Scanner
end SasLayout
