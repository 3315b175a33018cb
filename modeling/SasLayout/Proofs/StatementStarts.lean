import SasLayout.Proofs.PlainCode

set_option autoImplicit false

/-!
Where statements start. The pass that builds the span map carries a flag along: whether the statement
at hand has no code yet. The question about one offset has no flag; it walks back over blanks and the
comments of the finished map. The pass comes by every offset that is not inside a span, and there the
two agree.
-/
namespace SasLayout

namespace Text

theorem opensStatementComment_iff {t : Text} {settings : LexicalSettings} {i : Nat} :
    t.opensStatementComment settings i = true ↔
      t.byte? i = some Byte.star ∨ (settings.macroComments = true ∧
        t.byte? i = some Byte.percent ∧ t.byte? (i + 1) = some Byte.star) := by
  have read : ∀ (j : Nat) (b : UInt8), t.byteIs j (· == b) = true ↔ t.byte? j = some b := by
    intro j b
    rw [byteIs_iff]
    constructor
    · rintro ⟨c, here, same⟩
      rw [here, eq_of_beq same]
    · intro here
      exact ⟨b, here, beq_self_eq_true b⟩
  simp only [opensStatementComment, Bool.or_eq_true, Bool.and_eq_true, read, and_assoc]

/-- At the start of a statement the sign of a comment opens one. -/
theorem piece_eq_statement {t : Text} {settings : LexicalSettings} {i : Nat}
    (opens : t.opensStatementComment settings i = true) :
    t.piece settings true i = .span (.upTo t i .statementComment (t.semicolon? (i + 1))) := by
  have other : t.opensBlockComment i = false := by
    rw [opensBlockComment, opensStatementComment_first opens, Bool.false_and]
  apply piece_eq_span _ (opening?_eq_statement other opens)
  rcases opensStatementComment_iff.mp opens with star | ⟨-, percent, -⟩
  · exact byteIs_of_byte? star _
  · exact byteIs_of_byte? percent _

end Text

namespace SpanMap

/-- A span that the pass has before it and that starts where it stands is met there. -/
theorem piece_of_mem {settings : LexicalSettings} {t : Text} {fresh : Bool} {i : Nat} {s : Span}
    (inside : i < t.size) (listed : s ∈ (marksFrom settings t fresh i).1) (here : s.start ≤ i) :
    t.piece settings fresh i = .span s := by
  have later : ∀ next j, i < j → s ∉ (marksFrom settings t next j).1 := by
    intro next j beyond listed
    have := (marksFrom_fits settings t next j s listed).1
    omega
  cases met : t.piece settings fresh i with
  | blank =>
    rw [marksFrom_blank inside met] at listed
    exact absurd listed (later _ _ (Nat.lt_succ_self i))
  | span first =>
    rw [marksFrom_span inside met] at listed
    rcases List.mem_cons.mp listed with rfl | rest
    · rfl
    · exact absurd rest (later _ _ (Text.piece_span_bounds inside met).2.1)
  | terminator =>
    rw [marksFrom_terminator inside met] at listed
    exact absurd listed (later _ _ (Nat.lt_succ_self i))
  | code =>
    rw [marksFrom_code inside met] at listed
    exact absurd listed (later _ _ (Nat.lt_succ_self i))

end SpanMap

namespace Source

variable {src : Source} {fresh : Bool} {i : Nat} {s : Span}

/-- The pass comes by the offset `i` with this flag. -/
inductive Visits (src : Source) : (fresh : Bool) → (i : Nat) → Prop
  | first : Visits src true 0
  | blank {fresh : Bool} {i : Nat} (before : Visits src fresh i) (inside : i < src.size)
    (met : src.text.piece src.settings fresh i = .blank) : Visits src fresh (i + 1)
  | span {fresh : Bool} {i : Nat} {s : Span} (before : Visits src fresh i) (inside : i < src.size)
    (met : src.text.piece src.settings fresh i = .span s) :
    Visits src (fresh && s.isComment) s.stop
  | terminator {fresh : Bool} {i : Nat} (before : Visits src fresh i) (inside : i < src.size)
    (met : src.text.piece src.settings fresh i = .terminator) : Visits src true (i + 1)
  | code {fresh : Bool} {i : Nat} (before : Visits src fresh i) (inside : i < src.size)
    (met : src.text.piece src.settings fresh i = .code) : Visits src false (i + 1)

namespace Visits

/-- The map holds spans that the pass has left behind, and those that it still has before it. -/
theorem spans (visits : src.Visits fresh i) :
    ∃ front, src.map.spans.toList =
      front ++ (SpanMap.marksFrom src.settings src.text fresh i).1 ∧ ∀ s ∈ front, s.stop ≤ i := by
  induction visits with
  | first => exact ⟨[], src.map_spans, by simp⟩
  | blank before inside met ih =>
    obtain ⟨front, whole, behind⟩ := ih
    rw [SpanMap.marksFrom_blank inside met] at whole
    exact ⟨front, whole, fun s listed => Nat.le_succ_of_le (behind s listed)⟩
  | @span fresh i last before inside met ih =>
    obtain ⟨front, whole, behind⟩ := ih
    have bounds := Text.piece_span_bounds inside met
    rw [SpanMap.marksFrom_span inside met] at whole
    refine ⟨front ++ [last], by simpa using whole, fun s listed => ?_⟩
    rcases List.mem_append.mp listed with earlier | same
    · have := behind s earlier
      omega
    · rw [List.mem_singleton.mp same]
  | terminator before inside met ih =>
    obtain ⟨front, whole, behind⟩ := ih
    rw [SpanMap.marksFrom_terminator inside met] at whole
    exact ⟨front, whole, fun s listed => Nat.le_succ_of_le (behind s listed)⟩
  | code before inside met ih =>
    obtain ⟨front, whole, behind⟩ := ih
    rw [SpanMap.marksFrom_code inside met] at whole
    exact ⟨front, whole, fun s listed => Nat.le_succ_of_le (behind s listed)⟩

/-- Where the pass comes by, the finished map has a span exactly when the pass met it there. -/
theorem spanAt?_iff (visits : src.Visits fresh i) (inside : i < src.size) :
    src.map.spanAt? i = some s ↔ src.text.piece src.settings fresh i = .span s := by
  obtain ⟨front, whole, behind⟩ := visits.spans
  rw [spanAt?_eq_some_iff, ← Array.mem_toList_iff, whole]
  constructor
  · rintro ⟨listed, lower, upper⟩
    rcases List.mem_append.mp listed with earlier | ahead
    · have := behind s earlier
      omega
    · exact SpanMap.piece_of_mem inside ahead lower
  · intro met
    have bounds := Text.piece_span_bounds inside met
    rw [SpanMap.marksFrom_span inside met]
    exact ⟨by simp, Nat.le_of_eq bounds.1, bounds.2.1⟩

theorem spanAt?_none (visits : src.Visits fresh i) (inside : i < src.size)
    (other : ∀ s, src.text.piece src.settings fresh i ≠ .span s) : src.map.spanAt? i = none := by
  rw [Option.eq_none_iff_forall_ne_some]
  intro s found
  exact other s ((visits.spanAt?_iff inside).mp found)

end Visits

/-- A statement that starts behind a byte of the code: the byte is a semicolon. -/
theorem startsStatement_succ (visible : src.text.byteIs i (!Byte.isBlank ·) = true)
    (free : src.map.spanAt? i = none) :
    src.startsStatement (i + 1) = src.text.byteIs i Byte.isSemicolon := by
  rw [startsStatement_eq_match, Text.seekBack, if_pos visible]
  simp only [free]

/-- Behind a comment a statement starts when it does before the comment, and behind a literal none
does. The walk back may first pass blanks that the comment ends with. -/
theorem startsStatement_stop (listed : s ∈ src.map.spans) :
    src.startsStatement s.stop = (src.startsStatement s.start && s.isComment) := by
  have fits := span_fits listed
  have visible : src.text.byteIs s.start (!Byte.isBlank ·) = true :=
    Text.byteIs_not_iff.mpr ⟨Nat.lt_of_lt_of_le fits.nonempty fits.within, fits.visible⟩
  rw [startsStatement_eq_match]
  cases last : src.text.seekBack (!Byte.isBlank ·) s.stop with
  | zero =>
    have hidden := Text.seekBack_after (t := src.text) (p := (!Byte.isBlank ·)) (j := s.start)
      (by rw [last]; exact Nat.zero_le _) fits.nonempty
    rw [hidden] at visible
    cases visible
  | succ k =>
    have upper : k < s.stop := by
      have := src.text.seekBack_le (!Byte.isBlank ·) s.stop
      omega
    have lower : s.start ≤ k := by
      apply Nat.le_of_not_lt
      intro before
      have hidden := Text.seekBack_after (t := src.text) (p := (!Byte.isBlank ·)) (j := s.start)
        (by omega) fits.nonempty
      rw [hidden] at visible
      cases visible
    simp only [spanAt?_eq_some_iff.mpr ⟨listed, lower, upper⟩]
    cases s.isComment with
    | true => rw [if_pos rfl, Bool.and_true]
    | false => rw [if_neg Bool.false_ne_true, Bool.and_false]

/-- The walk back from where the pass comes by gives the flag of the pass. -/
theorem Visits.startsStatement (visits : src.Visits fresh i) : src.startsStatement i = fresh := by
  induction visits with
  | first => rw [startsStatement_eq_match, Text.seekBack]
  | blank before inside met ih =>
    cases Text.met_of_piece met with
    | blank here =>
      rw [← ih, startsStatement_eq_match, startsStatement_eq_match, Text.seekBack,
        Text.byteIs_not inside, here, Bool.not_true, if_neg Bool.false_ne_true]
  | span before inside met ih =>
    have found := (before.spanAt?_iff inside).mpr met
    rw [startsStatement_stop (spanAt?_eq_some_iff.mp found).1, (Text.piece_span_bounds inside met).1,
      ih]
  | terminator before inside met ih =>
    have free := before.spanAt?_none inside (by simp [met])
    cases Text.met_of_piece met with
    | terminator closed here =>
      rw [startsStatement_succ (visible_of_semicolon here) free, here]
  | code before inside met ih =>
    have free := before.spanAt?_none inside (by simp [met])
    cases Text.met_of_piece met with
    | code visible closed other =>
      rw [startsStatement_succ (Text.byteIs_not_iff.mpr ⟨inside, visible⟩) free, other]

/-- The pass comes by every offset that is not inside a span. -/
theorem exists_visits (within : i ≤ src.size) (clear : Tiling.Clear src i) :
    ∃ fresh, src.Visits fresh i := by
  suffices onward : ∀ left fresh j, src.Visits fresh j → j + left = i →
      ∃ fresh, src.Visits fresh i from onward i true 0 .first (Nat.zero_add i)
  intro left
  induction left using Nat.strongRecOn with
  | ind left ih =>
    intro fresh j visits distance
    by_cases arrived : j = i
    · exact ⟨fresh, arrived ▸ visits⟩
    have inside : j < src.size := by omega
    cases met : src.text.piece src.settings fresh j with
    | blank => exact ih (left - 1) (by omega) _ _ (visits.blank inside met) (by omega)
    | span s =>
      have bounds := Text.piece_span_bounds inside met
      have listed := (spanAt?_eq_some_iff.mp ((visits.spanAt?_iff inside).mpr met)).1
      have passed := clear s listed
      exact ih (i - s.stop) (by omega) _ _ (visits.span inside met) (by omega)
    | terminator => exact ih (left - 1) (by omega) _ _ (visits.terminator inside met) (by omega)
    | code => exact ih (left - 1) (by omega) _ _ (visits.code inside met) (by omega)

/-- The map has a statement comment exactly where the walk back finds that a statement starts and the
sign of such a comment stands. -/
theorem statementComment_iff_starts (settings : LexicalSettings) (t : Text) (i : Nat)
    (inside : i < t.size)
    (outside : ∀ s ∈ (Source.ofText settings t).map.spans, ¬ (s.start < i ∧ i < s.stop)) :
    (∃ s ∈ (Source.ofText settings t).map.spans, s.start = i ∧ s.kind = .statementComment) ↔
      (Source.ofText settings t).isStatementStart i = true ∧
        (t.byte? i = some Byte.star ∨ (settings.macroComments = true ∧
          t.byte? i = some Byte.percent ∧ t.byte? (i + 1) = some Byte.star)) := by
  have within : i ≤ (Source.ofText settings t).size := Nat.le_of_lt inside
  obtain ⟨fresh, visits⟩ := exists_visits within outside
  have flag : (Source.ofText settings t).isStatementStart i = fresh := by
    rw [isStatementStart, Nat.min_eq_left within, visits.startsStatement]
  rw [flag, ← Text.opensStatementComment_iff]
  constructor
  · rintro ⟨s, listed, rfl, kind⟩
    have found := spanAt?_eq_some_iff.mpr ⟨listed, Nat.le_refl _, (span_fits listed).nonempty⟩
    cases Text.met_of_piece ((visits.spanAt?_iff inside).mp found) with
    | span visible opened =>
      have opens := Text.opening?_statement opened kind
      exact ⟨opens.1, opens.2.2⟩
  · rintro ⟨rfl, opens⟩
    have met := Text.piece_eq_statement opens
    have found := (visits.spanAt?_iff inside).mpr met
    refine ⟨_, (spanAt?_eq_some_iff.mp found).1, (Text.piece_span_bounds inside met).1, ?_⟩
    cases t.semicolon? (i + 1) <;> rfl

theorem statementComment_iff_starts_behind_comment :
    let src := Source.ofText {} (.ofString "a; /* b */ * c  ;* d")
    src.isStatementStart 11 = true ∧ src.text.byte? 11 = some Byte.star ∧
      (∃ s ∈ src.map.spans, s.start = 11 ∧ s.kind = .statementComment) ∧
      src.isStatementStart 17 = true := by
  intro src
  have starts : src.isStatementStart 11 = true := by decide +kernel
  have star : src.text.byte? 11 = some Byte.star := by decide +kernel
  have comment := (statementComment_iff_starts {} (.ofString "a; /* b */ * c  ;* d") 11
    (by decide +kernel) (by decide +kernel)).mpr ⟨starts, Or.inl star⟩
  -- the comment ends in blanks, and the next one follows its semicolon
  have next : ∃ s ∈ src.map.spans, s.start = 17 ∧ s.kind = .statementComment := by
    decide +kernel
  exact ⟨starts, star, comment, ((statementComment_iff_starts {} (.ofString "a; /* b */ * c  ;* d") 17
    (by decide +kernel) (by decide +kernel)).mp next).1⟩

end Source
end SasLayout
