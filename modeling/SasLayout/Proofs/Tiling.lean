import SasLayout.Proofs.Lexeme
import SasLayout.Proofs.SpanPass
import SasLayout.Token.Lookup

set_option autoImplicit false

/-!
One pass that yields all tokens of a text: the pass of the span map, with a code token read where
it meets code. Nothing that the span map records starts inside a code token, so the two agree, and
the tokens tile the text up to blanks.
-/
namespace SasLayout

namespace Text

theorem opening?_inner {t : Text} {settings : LexicalSettings} {j : Nat}
    (inner : t.byteIs j Byte.isInner = true) : t.opening? settings false j = none := by
  obtain ⟨b, found, held⟩ := byteIs_iff.mp inner
  simp only [Byte.isInner, Bool.not_eq_true', Bool.or_eq_false_iff] at held
  obtain ⟨⟨⟨_, slash⟩, single⟩, double⟩ := held
  simp [opening?, opensBlockComment, opensLiteral, byteIs_of_byte? found, slash, single, double]

/-- Inside a code token the pass meets nothing but code. -/
theorem piece_inside {t : Text} {settings : LexicalSettings} {i j : Nat} (lower : i < j)
    (upper : j < (t.shapeAt i).2) : t.piece settings false j = .code := by
  have inner := shapeAt_inside lower upper
  refine piece_eq_code ?_ (opening?_inner inner) ?_
  · exact byteIs_apart inner fun b => Byte.isBlank_of_isInner
  · refine byteIs_apart inner fun b held => ?_
    simp only [Byte.isInner, Bool.not_eq_true', Bool.or_eq_false_iff] at held
    exact held.1.1.1.2

end Text

namespace SpanMap

/-- The pass over the bytes of a code token records nothing. -/
theorem marksFrom_token {settings : LexicalSettings} {t : Text} {i j : Nat} (lower : i < j)
    (upper : j ≤ (t.shapeAt i).2) (inside : i < t.size) :
    marksFrom settings t false j = marksFrom settings t false (t.shapeAt i).2 := by
  have bound := Text.shapeAt_le_size inside
  induction left : (t.shapeAt i).2 - j generalizing j with
  | zero => rw [show j = (t.shapeAt i).2 by omega]
  | succ left ih =>
    rw [marksFrom_code (by omega) (Text.piece_inside lower (by omega)), ih (by omega) (by omega)
      (by omega)]

end SpanMap

namespace Source

/-- The tokens that one pass meets from `i` on. -/
def lexFrom (src : Source) (fresh : Bool) (i : Nat) : List Token :=
  if inside : i < src.size then
    match met : src.text.piece src.settings fresh i with
    | .blank => src.lexFrom fresh (i + 1)
    | .span s =>
      have := (Text.piece_span_bounds inside met).2.1
      src.spanToken s :: src.lexFrom (fresh && s.isComment) s.stop
    | .terminator => src.text.tokenAt i :: src.lexFrom true (i + 1)
    | .code =>
      have := src.text.lt_tokenAt_stop i
      src.text.tokenAt i :: src.lexFrom false (src.text.tokenAt i).stop
  else []
termination_by src.size - i

@[simp] theorem spanToken_start (src : Source) (s : Span) : (src.spanToken s).start = s.start := rfl

@[simp] theorem spanToken_stop (src : Source) (s : Span) : (src.spanToken s).stop = s.stop := rfl

theorem spanToken_isSpan (src : Source) (s : Span) : (src.spanToken s).kind.isSpan = true := by
  unfold spanToken
  cases s.isComment <;> rfl

@[simp] theorem tokenAt_start (t : Text) (i : Nat) : (t.tokenAt i).start = i := rfl

theorem tokenAt_stop (t : Text) (i : Nat) : (t.tokenAt i).stop = (t.shapeAt i).2 := rfl

theorem tokenAt_kind (t : Text) (i : Nat) : (t.tokenAt i).kind = (t.shapeAt i).1 := rfl

theorem tokenAt_not_span (t : Text) (i : Nat) : (t.tokenAt i).kind.isSpan = false :=
  (t.shapeAt_kind i).1

theorem tokenAt_code (t : Text) (i : Nat) : (t.tokenAt i).isComment = false := by
  have plain := tokenAt_not_span t i
  rw [Token.isComment, decide_eq_false_iff_not]
  intro comment
  rw [comment] at plain
  cases plain

theorem tokenAt_semicolon {t : Text} {i : Nat} (here : t.byteIs i Byte.isSemicolon = true) :
    (t.tokenAt i).kind = .statementEnd ∧ (t.tokenAt i).stop = i + 1 := by
  rw [tokenAt_kind, tokenAt_stop, Text.shapeAt_semicolon here]
  exact ⟨rfl, rfl⟩

section

variable {src : Source} {fresh : Bool} {i : Nat}

theorem lexFrom_blank (inside : i < src.size)
    (met : src.text.piece src.settings fresh i = .blank) :
    src.lexFrom fresh i = src.lexFrom fresh (i + 1) := by
  rw [lexFrom, dif_pos inside]
  split <;> simp_all

theorem lexFrom_span {s : Span} (inside : i < src.size)
    (met : src.text.piece src.settings fresh i = .span s) :
    src.lexFrom fresh i = src.spanToken s :: src.lexFrom (fresh && s.isComment) s.stop := by
  rw [lexFrom, dif_pos inside]
  split <;> simp_all

theorem lexFrom_terminator (inside : i < src.size)
    (met : src.text.piece src.settings fresh i = .terminator) :
    src.lexFrom fresh i = src.text.tokenAt i :: src.lexFrom true (i + 1) := by
  rw [lexFrom, dif_pos inside]
  split <;> simp_all

theorem lexFrom_code (inside : i < src.size)
    (met : src.text.piece src.settings fresh i = .code) :
    src.lexFrom fresh i =
      src.text.tokenAt i :: src.lexFrom false (src.text.tokenAt i).stop := by
  rw [lexFrom, dif_pos inside]
  split <;> simp_all

theorem lexFrom_end (outside : src.size ≤ i) : src.lexFrom fresh i = [] := by
  rw [lexFrom, dif_neg (by omega)]

end

/-- What holds of the tokens that the pass reads, in a span and in the code, holds of all. -/
theorem forall_lexFrom {src : Source} {motive : Token → Prop}
    (span : ∀ s, SpanMap.Fits src.settings src.text s → motive (src.spanToken s))
    (code : ∀ i, i < src.size → src.text.byteIs i Byte.isBlank = false →
      motive (src.text.tokenAt i)) (fresh : Bool) (i : Nat) :
    ∀ tok ∈ src.lexFrom fresh i, motive tok := by
  fun_induction lexFrom src fresh i with
  | case1 fresh i inside met ih => exact ih
  | case2 fresh i inside s met _ ih =>
    exact List.forall_mem_cons.mpr ⟨span s (SpanMap.fits_of_piece inside met).2, ih⟩
  | case3 fresh i inside met ih =>
    refine List.forall_mem_cons.mpr ⟨code i inside ?_, ih⟩
    cases Text.met_of_piece met with
    | terminator _ here =>
      refine Text.byteIs_apart here fun b same => ?_
      rw [Byte.isSemicolon, beq_iff_eq] at same
      subst same
      decide
  | case4 fresh i inside met _ ih =>
    refine List.forall_mem_cons.mpr ⟨code i inside ?_, ih⟩
    cases Text.met_of_piece met with
    | code visible => exact visible
  | case5 fresh i outside => simp

theorem lexFrom_bounds (src : Source) (fresh : Bool) (i : Nat) :
    ∀ tok ∈ src.lexFrom fresh i, tok.start < tok.stop ∧ tok.stop ≤ src.size :=
  forall_lexFrom (fun _ fits => ⟨fits.nonempty, fits.within⟩)
    (fun i inside _ => ⟨src.text.lt_tokenAt_stop i, Text.shapeAt_le_size inside⟩) fresh i

theorem lexFrom_lexeme (src : Source) (fresh : Bool) (i : Nat) :
    ∀ tok ∈ src.lexFrom fresh i, tok.lexeme = src.text.slice tok.start tok.stop :=
  forall_lexFrom (fun _ _ => rfl) (fun _ _ _ => rfl) fresh i

/-- A token that is no span is the one that the lexer reads where it starts, and none of its bytes
is blank. -/
theorem lexFrom_lexed (src : Source) (fresh : Bool) (i : Nat) :
    ∀ tok ∈ src.lexFrom fresh i, tok.kind.isSpan = false →
      tok = src.text.tokenAt tok.start ∧
        ∀ j, tok.start ≤ j → j < tok.stop → src.text.byteIs j Byte.isBlank = false := by
  refine forall_lexFrom ?_ ?_ fresh i
  · intro s _ other
    rw [spanToken_isSpan] at other
    cases other
  · intro i _ visible _
    refine ⟨rfl, fun j lower upper => ?_⟩
    rcases Nat.eq_or_lt_of_le lower with rfl | later
    · exact visible
    · exact Text.byteIs_apart (Text.shapeAt_inside later upper) fun b => Byte.isBlank_of_isInner

theorem lexFrom_start_visible (src : Source) (fresh : Bool) (i : Nat) :
    ∀ tok ∈ src.lexFrom fresh i, src.text.byteIs tok.start Byte.isBlank = false :=
  forall_lexFrom (fun _ fits => fits.visible) (fun _ _ visible => visible) fresh i

theorem lexFrom_lower (src : Source) (fresh : Bool) (i : Nat) :
    ∀ tok ∈ src.lexFrom fresh i, i ≤ tok.start := by
  fun_induction lexFrom src fresh i with
  | case1 fresh i inside met ih =>
    intro tok listed
    have := ih tok listed
    omega
  | case2 fresh i inside s met _ ih =>
    have start := (Text.piece_span_bounds inside met).1
    refine List.forall_mem_cons.mpr ⟨Nat.le_of_eq start.symm, fun tok listed => ?_⟩
    have := ih tok listed
    omega
  | case3 fresh i inside met ih =>
    refine List.forall_mem_cons.mpr ⟨Nat.le_refl i, fun tok listed => ?_⟩
    have := ih tok listed
    omega
  | case4 fresh i inside met _ ih =>
    refine List.forall_mem_cons.mpr ⟨Nat.le_refl i, fun tok listed => ?_⟩
    have := ih tok listed
    omega
  | case5 fresh i outside => simp

theorem lexFrom_apart (src : Source) (fresh : Bool) (i : Nat) :
    (src.lexFrom fresh i).Pairwise (·.stop ≤ ·.start) := by
  fun_induction lexFrom src fresh i with
  | case1 fresh i inside met ih => exact ih
  | case2 fresh i inside s met _ ih =>
    exact List.pairwise_cons.mpr ⟨src.lexFrom_lower _ s.stop, ih⟩
  | case3 fresh i inside met ih =>
    cases Text.met_of_piece met with
    | terminator _ here =>
      refine List.pairwise_cons.mpr ⟨?_, ih⟩
      rw [(tokenAt_semicolon here).2]
      exact src.lexFrom_lower true (i + 1)
  | case4 fresh i inside met _ ih =>
    exact List.pairwise_cons.mpr ⟨src.lexFrom_lower false _, ih⟩
  | case5 fresh i outside => exact List.Pairwise.nil

/-- Some token covers each byte that is not blank. -/
theorem lexFrom_covers (src : Source) (fresh : Bool) (i : Nat) {j : Nat} (lower : i ≤ j)
    (upper : j < src.size) (visible : src.text.byteIs j Byte.isBlank = false) :
    ∃ tok ∈ src.lexFrom fresh i, tok.start ≤ j ∧ j < tok.stop := by
  fun_induction lexFrom src fresh i with
  | case1 fresh i inside met ih =>
    cases Text.met_of_piece met with
    | blank here =>
      have later : i ≠ j := by
        rintro rfl
        rw [here] at visible
        cases visible
      exact ih (by omega)
  | case2 fresh i inside s met _ ih =>
    have start := (Text.piece_span_bounds inside met).1
    by_cases here : j < s.stop
    · exact ⟨src.spanToken s, List.mem_cons_self, by rw [spanToken_start]; omega, here⟩
    · obtain ⟨tok, listed, covers⟩ := ih (by omega)
      exact ⟨tok, List.mem_cons_of_mem _ listed, covers⟩
  | case3 fresh i inside met ih =>
    by_cases here : j < i + 1
    · refine ⟨src.text.tokenAt i, List.mem_cons_self, lower, ?_⟩
      exact Nat.lt_of_lt_of_le here (src.text.lt_tokenAt_stop i)
    · obtain ⟨tok, listed, covers⟩ := ih (by omega)
      exact ⟨tok, List.mem_cons_of_mem _ listed, covers⟩
  | case4 fresh i inside met _ ih =>
    by_cases here : j < (src.text.tokenAt i).stop
    · exact ⟨src.text.tokenAt i, List.mem_cons_self, lower, here⟩
    · obtain ⟨tok, listed, covers⟩ := ih (by omega)
      exact ⟨tok, List.mem_cons_of_mem _ listed, covers⟩
  | case5 fresh i outside => omega

/-- The comments and literals among the tokens are the spans that the map's pass records. -/
theorem lexFrom_spans (src : Source) (fresh : Bool) (i : Nat) :
    (src.lexFrom fresh i).filter (·.kind.isSpan) =
      (SpanMap.marksFrom src.settings src.text fresh i).1.map src.spanToken := by
  fun_induction lexFrom src fresh i with
  | case1 fresh i inside met ih => rw [ih, SpanMap.marksFrom_blank inside met]
  | case2 fresh i inside s met _ ih =>
    rw [List.filter_cons_of_pos (p := fun tok : Token => tok.kind.isSpan)
      (src.spanToken_isSpan s), ih, SpanMap.marksFrom_span inside met, List.map_cons]
  | case3 fresh i inside met ih =>
    rw [List.filter_cons_of_neg (by simp [tokenAt_not_span]), ih,
      SpanMap.marksFrom_terminator inside met]
  | case4 fresh i inside met _ ih =>
    rw [List.filter_cons_of_neg (by simp [tokenAt_not_span]), ih,
      SpanMap.marksFrom_code inside met, tokenAt_stop,
      SpanMap.marksFrom_token (Nat.lt_succ_self i) (src.text.lt_shapeAt_stop i) inside]
  | case5 fresh i outside => rw [SpanMap.marksFrom_end (Nat.le_of_not_lt outside)]; rfl

/-- The tokens that end a statement are the semicolons that the map's pass records. -/
theorem lexFrom_ends (src : Source) (fresh : Bool) (i : Nat) :
    ((src.lexFrom fresh i).filter (·.kind = .statementEnd)).map (·.start) =
      (SpanMap.marksFrom src.settings src.text fresh i).2 := by
  fun_induction lexFrom src fresh i with
  | case1 fresh i inside met ih => rw [ih, SpanMap.marksFrom_blank inside met]
  | case2 fresh i inside s met _ ih =>
    have other : (src.spanToken s).kind ≠ .statementEnd := by
      intro same
      have spans := src.spanToken_isSpan s
      rw [same] at spans
      cases spans
    rw [List.filter_cons_of_neg (by simpa using other), ih, SpanMap.marksFrom_span inside met]
  | case3 fresh i inside met ih =>
    cases Text.met_of_piece met with
    | terminator _ here =>
      rw [List.filter_cons_of_pos (by simpa using (tokenAt_semicolon here).1), List.map_cons, ih,
        SpanMap.marksFrom_terminator inside met, tokenAt_start]
  | case4 fresh i inside met _ ih =>
    cases Text.met_of_piece met with
    | code _ _ other =>
      have kind : (src.text.tokenAt i).kind ≠ .statementEnd := by
        rw [tokenAt_kind, ne_eq, (src.text.shapeAt_kind i).2, other]
        exact Bool.false_ne_true
      rw [List.filter_cons_of_neg (by simpa using kind), ih, SpanMap.marksFrom_code inside met,
        tokenAt_stop,
        SpanMap.marksFrom_token (Nat.lt_succ_self i) (src.text.lt_shapeAt_stop i) inside]
  | case5 fresh i outside => rw [SpanMap.marksFrom_end (Nat.le_of_not_lt outside)]; rfl

/-- A span ends on a character boundary: after or before an ASCII byte, or with the text. -/
theorem span_stop_boundary {settings : LexicalSettings} {t : Text} (joined : t.Joined) {s : Span}
    (fits : SpanMap.Fits settings t s) : t.isBoundary s.stop = true := by
  obtain ⟨fresh, opened⟩ := fits.opened
  rcases Text.opening?_end opened with ⟨-, last⟩ | ⟨_, semicolon⟩ | closer
  · simp [Text.isBoundary, last]
  · refine Text.isBoundary_of_not_word fits.within (Text.byteIs_apart semicolon fun b same => ?_)
    rw [Byte.isSemicolon, beq_iff_eq] at same
    subst same
    decide
  · apply joined.boundary fits.within
    intro j last
    rw [last, Nat.add_sub_cancel] at closer
    refine Text.byteIs_apart closer fun b held => ?_
    simp only [Text.isCloser, Bool.or_eq_true, beq_iff_eq] at held
    rcases held with (rfl | rfl) | rfl <;> decide

theorem lexFrom_boundary {src : Source} (joined : src.text.Joined) (fresh : Bool) (i : Nat)
    (start : src.text.isBoundary i = true) :
    ∀ tok ∈ src.lexFrom fresh i,
      src.text.isBoundary tok.start = true ∧ src.text.isBoundary tok.stop = true := by
  fun_induction lexFrom src fresh i with
  | case1 fresh i inside met ih =>
    refine ih (joined.boundary inside ?_)
    rintro j same
    obtain rfl : i = j := by omega
    cases Text.met_of_piece met with
    | blank here =>
      refine Text.byteIs_apart here fun b held => ?_
      simp only [Byte.isBlank, Bool.or_eq_true, beq_iff_eq] at held
      rcases held with (((rfl | rfl) | rfl) | rfl) | rfl <;> decide
  | case2 fresh i inside s met _ ih =>
    obtain ⟨same, fits⟩ := SpanMap.fits_of_piece inside met
    have stop := span_stop_boundary joined fits
    refine List.forall_mem_cons.mpr ⟨⟨?_, stop⟩, ih stop⟩
    rw [spanToken_start, same]
    exact start
  | case3 fresh i inside met ih =>
    have stop := joined.shapeAt_boundary inside
    cases Text.met_of_piece met with
    | terminator _ here =>
      refine List.forall_mem_cons.mpr ⟨⟨start, stop⟩, ih ?_⟩
      rw [Text.shapeAt_semicolon here] at stop
      exact stop
  | case4 fresh i inside met _ ih =>
    have stop := joined.shapeAt_boundary inside
    exact List.forall_mem_cons.mpr ⟨⟨start, stop⟩, ih stop⟩
  | case5 fresh i outside => simp

/-- A list of tokens of a text that is complete: everything outside them is blank, the comments
and literals among them are the spans of the map, and the rest is read from the code. -/
structure Tiling (src : Source) (tokens : List Token) : Prop where
  nonempty : ∀ tok ∈ tokens, tok.start < tok.stop
  within : ∀ tok ∈ tokens, tok.stop ≤ src.size
  apart : tokens.Pairwise (·.stop ≤ ·.start)
  covers : ∀ i < src.size, src.text.byteIs i Byte.isBlank = false →
    ∃ tok ∈ tokens, tok.start ≤ i ∧ i < tok.stop
  visible : ∀ tok ∈ tokens, src.text.byteIs tok.start Byte.isBlank = false
  spans : tokens.filter (·.kind.isSpan) = src.map.spans.toList.map src.spanToken
  lexed : ∀ tok ∈ tokens, tok.kind.isSpan = false →
    tok = src.text.tokenAt tok.start ∧
      ∀ j, tok.start ≤ j → j < tok.stop → src.text.byteIs j Byte.isBlank = false

theorem lexFrom_tiling (src : Source) : src.Tiling (src.lexFrom true 0) where
  nonempty tok listed := (src.lexFrom_bounds true 0 tok listed).1
  within tok listed := (src.lexFrom_bounds true 0 tok listed).2
  apart := src.lexFrom_apart true 0
  covers _ inside visible := src.lexFrom_covers true 0 (Nat.zero_le _) inside visible
  visible := src.lexFrom_start_visible true 0
  spans := by rw [lexFrom_spans, map_spans]
  lexed := src.lexFrom_lexed true 0

namespace Tiling

variable {src : Source} {tokens : List Token}

/-- The tokens before and after one of them. -/
theorem split (tiling : src.Tiling tokens) {tok : Token} (listed : tok ∈ tokens) :
    ∃ front back, tokens = front ++ tok :: back ∧ (∀ a ∈ front, a.stop ≤ tok.start) ∧
      ∀ b ∈ back, tok.stop ≤ b.start := by
  obtain ⟨front, back, rfl⟩ := List.append_of_mem listed
  obtain ⟨_, rest, across⟩ := List.pairwise_append.mp tiling.apart
  exact ⟨front, back, rfl, fun a before => across a before tok List.mem_cons_self,
    (List.pairwise_cons.mp rest).1⟩

/-- Tokens that share a byte are the same. -/
theorem unique (tiling : src.Tiling tokens) {a b : Token} (first : a ∈ tokens)
    (second : b ∈ tokens) {i : Nat} (inFirst : a.start ≤ i ∧ i < a.stop)
    (inSecond : b.start ≤ i ∧ i < b.stop) : a = b := by
  obtain ⟨front, back, rfl, before, after⟩ := tiling.split first
  rcases List.mem_append.mp second with earlier | later
  · have := before b earlier
    omega
  · rcases List.mem_cons.mp later with rfl | later
    · rfl
    · have := after b later
      omega

theorem span_mem (tiling : src.Tiling tokens) {s : Span} (listed : s ∈ src.map.spans) :
    src.spanToken s ∈ tokens := by
  have image : src.spanToken s ∈ src.map.spans.toList.map src.spanToken :=
    List.mem_map_of_mem (Array.mem_toList_iff.mpr listed)
  rw [← tiling.spans] at image
  exact (List.mem_filter.mp image).1

theorem exists_span (tiling : src.Tiling tokens) {tok : Token} (listed : tok ∈ tokens)
    (covered : tok.kind.isSpan = true) : ∃ s ∈ src.map.spans, src.spanToken s = tok := by
  have kept : tok ∈ tokens.filter (·.kind.isSpan) := List.mem_filter.mpr ⟨listed, covered⟩
  rw [tiling.spans] at kept
  obtain ⟨s, member, same⟩ := List.mem_map.mp kept
  exact ⟨s, Array.mem_toList_iff.mp member, same⟩

/-- No span covers a byte of a code token. -/
theorem code_free (tiling : src.Tiling tokens) {tok : Token} (listed : tok ∈ tokens)
    (code : tok.kind.isSpan = false) {i : Nat} (lower : tok.start ≤ i) (upper : i < tok.stop) :
    src.map.spanAt? i = none := by
  refine spanAt?_eq_none_iff.mpr fun s member covers => ?_
  have same := tiling.unique listed (tiling.span_mem member) ⟨lower, upper⟩ covers
  rw [same, spanToken_isSpan] at code
  cases code

/-- A byte of the code that is not blank lies in a code token. -/
theorem code_covers (tiling : src.Tiling tokens) {i : Nat} (inside : i < src.size)
    (visible : src.text.byteIs i Byte.isBlank = false) (free : src.map.spanAt? i = none) :
    ∃ tok ∈ tokens, tok.kind.isSpan = false ∧ tok.start ≤ i ∧ i < tok.stop := by
  obtain ⟨tok, listed, covers⟩ := tiling.covers i inside visible
  refine ⟨tok, listed, ?_, covers⟩
  cases covered : tok.kind.isSpan with
  | false => rfl
  | true =>
    obtain ⟨s, member, rfl⟩ := tiling.exists_span listed covered
    exact absurd covers (spanAt?_eq_none_iff.mp free s member)

end Tiling

end Source
end SasLayout
