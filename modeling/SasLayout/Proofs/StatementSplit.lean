import SasLayout.Proofs.BlockEnds
import SasLayout.Proofs.CommentEdit

set_option autoImplicit false

/-!
A text that is split after a semicolon of the code. Nothing before the semicolon looks past it, and
behind it the pass knows only that a statement starts, as at the start of a text. So the text is read
as its two parts are read, one after the other.
-/
namespace SasLayout

/-- What a pass over a text finds, each in the order of the text. -/
structure Findings where
  spans : List Span
  terminators : List Nat
  tokens : List Token

namespace Findings

def append (front back : Findings) : Findings :=
  ⟨front.spans ++ back.spans, front.terminators ++ back.terminators, front.tokens ++ back.tokens⟩

/-- The same with all offsets moved by `f`. -/
def moved (f : Nat → Nat) (found : Findings) : Findings :=
  ⟨found.spans.map (·.moved f), found.terminators.map f, found.tokens.map (·.moved f)⟩

theorem append_assoc (first second third : Findings) :
    (first.append second).append third = first.append (second.append third) := by
  simp only [append, List.append_assoc]

theorem moved_append (f : Nat → Nat) (front back : Findings) :
    (front.append back).moved f = (front.moved f).append (back.moved f) := by
  simp only [append, moved, List.map_append]

theorem moved_zero (found : Findings) : found.moved (· + 0) = found := by
  have spans : found.spans.map (·.moved (· + 0)) = found.spans := List.map_id _
  have terminators : found.terminators.map (· + 0) = found.terminators := List.map_id _
  have tokens : found.tokens.map (·.moved (· + 0)) = found.tokens := List.map_id _
  rw [moved, spans, terminators, tokens]

end Findings

namespace Text

/-- Every semicolon of the code is the same token but for its place. -/
theorem tokenAt_eq_semicolon {t : Text} {i : Nat} (here : t.byteIs i Byte.isSemicolon = true) :
    t.tokenAt i = ⟨ofString ";", .statementEnd, i, i + 1⟩ := by
  obtain ⟨b, found, same⟩ := byteIs_iff.mp here
  obtain rfl : b = Byte.semicolon := eq_of_beq same
  have lexeme : t.slice i (i + 1) = ofString ";" := by
    apply ext_toList
    rw [toList_slice_cons found (Nat.lt_succ_self i), toList_slice, List.drop_take, Nat.sub_self]
    rfl
  rw [tokenAt, shapeAt_semicolon here, lexeme]

theorem size_slice {t : Text} {start stop : Nat} (within : stop ≤ t.size) :
    (t.slice start stop).size = stop - start := by
  rw [← length_toList, length_slice within]

theorem byte?_slice {t : Text} {start stop k : Nat} (inside : start + k < stop) :
    (t.slice start stop).byte? k = t.byte? (start + k) := by
  rw [byte?_eq_getElem?, getElem?_slice inside]

end Text

namespace Source

/-! ### Steps of the pass -/

/-- What the pass finds in the piece that it meets at `i`. -/
def finding (src : Source) (i : Nat) : Piece → Findings
  | .blank => ⟨[], [], []⟩
  | .span s => ⟨[s], [], [src.spanToken s]⟩
  | .terminator => ⟨[], [i], [src.text.tokenAt i]⟩
  | .code => ⟨[], [], [src.text.tokenAt i]⟩

/-- Where the pass goes on behind this piece, and whether the statement is fresh there. -/
def onward (src : Source) (fresh : Bool) (i : Nat) : Piece → Bool × Nat
  | .blank => (fresh, i + 1)
  | .span s => (fresh && s.isComment, s.stop)
  | .terminator => (true, i + 1)
  | .code => (false, (src.text.tokenAt i).stop)

/-- What the pass finds from `i` on. -/
def findFrom (src : Source) (fresh : Bool) (i : Nat) : Findings :=
  ⟨(SpanMap.marksFrom src.settings src.text fresh i).1,
    (SpanMap.marksFrom src.settings src.text fresh i).2, src.lexFrom fresh i⟩

theorem findFrom_zero (src : Source) :
    src.findFrom true 0 =
      ⟨src.map.spans.toList, src.map.terminators.toList, src.tokens.toList⟩ := by
  rw [findFrom, map_spans, map_terminators, toList_tokens]

theorem findFrom_end {src : Source} {i : Nat} (outside : src.size ≤ i) (fresh : Bool) :
    src.findFrom fresh i = ⟨[], [], []⟩ := by
  rw [findFrom, SpanMap.marksFrom_end outside, lexFrom_end outside]

section Step

variable {src : Source} {i : Nat} (inside : i < src.size) (fresh : Bool)

include inside

theorem lt_onward :
    i < (src.onward fresh i (src.text.piece src.settings fresh i)).2 := by
  cases met : src.text.piece src.settings fresh i with
  | blank | terminator => exact Nat.lt_succ_self i
  | span s => exact (Text.piece_span_bounds inside met).2.1
  | code => exact src.text.lt_tokenAt_stop i

/-- One step of the pass. -/
theorem findFrom_step :
    let met := src.text.piece src.settings fresh i
    src.findFrom fresh i =
      (src.finding i met).append
        (src.findFrom (src.onward fresh i met).1 (src.onward fresh i met).2) := by
  intro met
  cases step : src.text.piece src.settings fresh i with
  | blank =>
    simp only [met, step, findFrom, finding, onward, Findings.append,
      SpanMap.marksFrom_blank inside step, lexFrom_blank inside step, List.nil_append]
  | span s =>
    simp only [met, step, findFrom, finding, onward, Findings.append,
      SpanMap.marksFrom_span inside step, lexFrom_span inside step, List.nil_append,
      List.singleton_append]
  | terminator =>
    simp only [met, step, findFrom, finding, onward, Findings.append,
      SpanMap.marksFrom_terminator inside step, lexFrom_terminator inside step, List.nil_append,
      List.singleton_append]
  | code =>
    simp only [met, step, findFrom, finding, onward, Findings.append,
      SpanMap.marksFrom_code inside step, lexFrom_code inside step, List.nil_append,
      List.singleton_append, tokenAt_stop,
      SpanMap.marksFrom_token (Nat.lt_succ_self i) (src.text.lt_shapeAt_stop i) inside]

end Step

theorem le_of_mem_terminators {src : Source} {fresh : Bool} {i k : Nat}
    (listed : k ∈ (src.findFrom fresh i).terminators) : i ≤ k := by
  rw [findFrom, ← lexFrom_ends] at listed
  obtain ⟨tok, kept, rfl⟩ := List.mem_map.mp listed
  exact src.lexFrom_lower fresh i tok (List.mem_filter.mp kept).1

/-- A semicolon that is not the next piece is still before the pass behind that piece. -/
theorem mem_terminators_step {src : Source} {fresh : Bool} {i k : Nat} {next : Bool × Nat}
    (inside : i < src.size) (listed : k ∈ (src.findFrom fresh i).terminators) (later : i ≠ k)
    (goes : src.onward fresh i (src.text.piece src.settings fresh i) = next) :
    k ∈ (src.findFrom next.1 next.2).terminators := by
  subst goes
  rw [findFrom_step inside] at listed
  refine (List.mem_append.mp listed).resolve_left fun here => ?_
  cases step : src.text.piece src.settings fresh i <;> rw [step] at here
  · exact List.not_mem_nil here
  · exact List.not_mem_nil here
  · exact later (List.mem_singleton.mp here).symm
  · exact List.not_mem_nil here

/-! ### A text and a part of it -/

/-- From `i` on the part shows what the whole text shows `d` bytes further on, for `n` bytes and up
to where no token goes on. -/
structure Shows (whole part : Source) (d i n : Nat) : Prop where
  settings : part.settings = whole.settings
  window : Text.Window whole.text part.text (i + d) i n
  positive : 0 < n
  ends : whole.text.byteIs (i + d + n) Byte.isInner = false

namespace Shows

variable {whole part : Source} {d i n : Nat} (shown : Shows whole part d i n)

include shown

theorem tokenAt : whole.text.tokenAt (i + d) = (part.text.tokenAt i).moved (· + d) := by
  obtain ⟨kind, m, bound, left, right⟩ := shown.window.shapeAt shown.ends shown.positive
  rw [Text.tokenAt, Text.tokenAt, left, right, Token.moved]
  simp only [shown.window.slice bound, Nat.add_right_comm]

theorem spanToken {s : Span} (start : s.start = i) (lower : i ≤ s.stop) (upper : s.stop ≤ i + n) :
    whole.spanToken (s.moved (· + d)) = (part.spanToken s).moved (· + d) := by
  obtain ⟨m, stop⟩ := Nat.exists_eq_add_of_le lower
  have slices := shown.window.slice (m := m) (by omega)
  rw [Source.spanToken, Source.spanToken, Token.moved, Span.moved_isComment]
  simp only [Span.moved, start, stop, ← slices, Nat.add_right_comm]

variable {fresh : Bool}
  (short : ∀ s, whole.text.piece whole.settings fresh (i + d) = .span s → s.stop ≤ i + d + n)

include short

/-- The pass meets the same in the part as in the whole text. -/
theorem piece :
    whole.text.piece whole.settings fresh (i + d) =
      (part.text.piece part.settings fresh i).moved (· + d) := by
  rw [shown.settings]
  have window := shown.window
  have positive := shown.positive
  have inside : i + d < whole.text.size := by
    have := window.left
    omega
  cases met : whole.text.piece whole.settings fresh (i + d) with
  | span s =>
    obtain ⟨start, lower, -⟩ := Text.piece_span_bounds inside met
    obtain ⟨m, stop⟩ := Nat.exists_eq_add_of_le (Nat.le_of_lt lower)
    have upper := short s met
    cases Text.met_of_piece met with
    | span visible opened =>
      have there := (window.take (m := m) (by omega)).opening?_span (by omega) whole.settings fresh
        opened stop
      rw [Text.piece_eq_span (window.byteIs_first _ ▸ visible) there]
      change Piece.span s = .span ⟨i + d, i + m + d, s.kind, s.terminated⟩
      rw [Nat.add_right_comm, ← stop, ← start]
  | blank =>
    cases Text.met_of_piece met with
    | blank here =>
      rw [Text.piece, if_pos (window.byteIs_first _ ▸ here)]
      rfl
  | terminator =>
    cases Text.met_of_piece met with
    | terminator closed _ =>
      rw [window.piece_eq positive whole.settings fresh closed, met]
      rfl
  | code =>
    cases Text.met_of_piece met with
    | code _ closed _ =>
      rw [window.piece_eq positive whole.settings fresh closed, met]
      rfl

/-- It finds the same there and goes on at the same place. -/
theorem step :
    let met := part.text.piece part.settings fresh i
    let there := whole.text.piece whole.settings fresh (i + d)
    whole.finding (i + d) there = (part.finding i met).moved (· + d) ∧
      whole.onward fresh (i + d) there =
        ((part.onward fresh i met).1, (part.onward fresh i met).2 + d) := by
  intro met there
  have same : there = met.moved (· + d) := shown.piece short
  have inside : i < part.text.size := by
    have := shown.window.right
    have := shown.positive
    omega
  rw [same]
  cases step : part.text.piece part.settings fresh i with
  | blank =>
    simp only [met, step, Piece.moved, onward, Nat.add_right_comm]
    exact ⟨rfl, trivial⟩
  | span s =>
    obtain ⟨start, lower, -⟩ := Text.piece_span_bounds inside step
    have upper := short (s.moved (· + d)) (by rw [shown.piece short, step]; rfl)
    have token := shown.spanToken start (Nat.le_of_lt lower) (by
      simp only [Span.moved] at upper
      omega)
    simp only [met, step, Piece.moved, finding, onward, token]
    exact ⟨rfl, rfl⟩
  | terminator =>
    simp only [met, step, Piece.moved, finding, onward, shown.tokenAt, Nat.add_right_comm]
    exact ⟨rfl, trivial⟩
  | code =>
    simp only [met, step, Piece.moved, finding, onward, shown.tokenAt]
    exact ⟨rfl, rfl⟩

end Shows

/-! ### The two parts -/

theorem findFrom_semicolon {src : Source} {i : Nat}
    (here : src.text.byteIs i Byte.isSemicolon = true) (fresh : Bool) :
    src.findFrom fresh i =
      Findings.append ⟨[], [i], [⟨Text.ofString ";", .statementEnd, i, i + 1⟩]⟩
        (src.findFrom true (i + 1)) := by
  rw [findFrom_step (Text.lt_size_of_byteIs here), Text.piece_eq_terminator here, finding,
    Text.tokenAt_eq_semicolon here]
  rfl

/-- The bytes of one source stand in the other one, `d` bytes further on. -/
structure PartOf (part whole : Source) (d : Nat) : Prop where
  settings : part.settings = whole.settings
  within : part.size + d ≤ whole.size
  same : ∀ j < part.size, whole.text.byte? (j + d) = part.text.byte? j

theorem partOf_slice (settings : LexicalSettings) {t : Text} {start stop : Nat}
    (ordered : start ≤ stop) (within : stop ≤ t.size) :
    PartOf (ofText settings (t.slice start stop)) (ofText settings t) start := by
  have size : (ofText settings (t.slice start stop)).size = stop - start := Text.size_slice within
  refine ⟨rfl, ?_, fun j inside => ?_⟩
  · rw [size, Nat.sub_add_cancel ordered]
    exact within
  · exact (Nat.add_comm start j ▸ Text.byte?_slice (by omega)).symm

namespace PartOf

variable {part whole : Source} {d : Nat} (stands : PartOf part whole d)

include stands

theorem window {i n : Nat} (inside : i + n < part.size) :
    Text.Window whole.text part.text (i + d) i n where
  left := by
    have : part.size + d ≤ whole.text.size := stands.within
    omega
  right := Nat.le_of_lt inside
  same m bound := by
    rw [Nat.add_right_comm]
    exact stands.same (i + m) (by omega)

/-- The window over the rest of a part with which the text ends. -/
theorem window_end (last : part.size + d = whole.size) {i : Nat} (within : i ≤ part.size) :
    Text.Window whole.text part.text (i + d) i (part.size - i) where
  left := by
    change _ ≤ whole.size
    omega
  right := by
    change _ ≤ part.size
    omega
  same m bound := by
    rcases Nat.eq_or_lt_of_le bound with rfl | more
    · rw [Text.byte?_eq_none_iff.mpr, Text.byte?_eq_none_iff.mpr]
      · change part.size ≤ _
        omega
      · change whole.size ≤ _
        omega
    · rw [Nat.add_right_comm]
      exact stands.same (i + m) (by omega)

/-- A part with which the text ends is read as the text is read from there on. -/
theorem findFrom_last (last : part.size + d = whole.size) (fresh : Bool) (i : Nat) :
    whole.findFrom fresh (i + d) = (part.findFrom fresh i).moved (· + d) := by
  -- By what is left of the part: a span that does not end there reaches the end of the text too.
  induction left : part.size - i using Nat.strongRecOn generalizing fresh i with
  | ind left ih =>
    by_cases inside : i < part.size
    · have here : i + d < whole.size := by omega
      have window := stands.window_end last (Nat.le_of_lt inside)
      have ends : whole.text.byteIs (i + d + (part.size - i)) Byte.isInner = false :=
        Text.byteIs_past (by change whole.size ≤ _; omega) _
      have shown : Shows whole part d i (part.size - i) :=
        ⟨stands.settings, window, by omega, ends⟩
      have short : ∀ s, whole.text.piece whole.settings fresh (i + d) = .span s →
          s.stop ≤ i + d + (part.size - i) := by
        intro s met
        have bound : s.stop ≤ whole.size := (Text.piece_span_bounds here met).2.2
        omega
      obtain ⟨finds, goes⟩ := shown.step short
      have further := lt_onward inside fresh
      rw [findFrom_step here, finds, goes, ih _ (by omega) _ _ rfl, ← Findings.moved_append,
        ← findFrom_step inside]
    · rw [findFrom_end (by omega), findFrom_end (Nat.le_of_not_lt inside)]
      rfl

end PartOf

/-- A part that starts the text and ends after a semicolon of its code is read as the text is. -/
theorem PartOf.findFrom_first {part whole : Source} (stands : PartOf part whole 0) {k : Nat}
    (semicolon : whole.text.byteIs k Byte.isSemicolon = true) (size : part.size = k + 1)
    {fresh : Bool} {i : Nat} (listed : k ∈ (whole.findFrom fresh i).terminators) :
    whole.findFrom fresh i = (part.findFrom fresh i).append (whole.findFrom true (k + 1)) := by
  have bound : k < whole.size := Text.lt_size_of_byteIs semicolon
  induction left : k - i using Nat.strongRecOn generalizing fresh i with
  | ind left ih =>
    have lower := le_of_mem_terminators listed
    rcases Nat.eq_or_lt_of_le lower with rfl | before
    · have byte : part.text.byte? i = whole.text.byte? i := (stands.same i (by omega)).symm
      have last : part.text.byteIs i Byte.isSemicolon = true := by
        rwa [Text.byteIs_eq_any, byte, ← Text.byteIs_eq_any]
      rw [findFrom_semicolon semicolon, findFrom_semicolon last, findFrom_end (Nat.le_of_eq size),
        Findings.append_assoc]
      rfl
    · have here : i < whole.size := by omega
      have window := stands.window (i := i) (n := k - i) (by omega)
      have ends : whole.text.byteIs (i + 0 + (k - i)) Byte.isInner = false := by
        rw [Nat.add_zero, Nat.add_sub_cancel' lower]
        exact Text.byteIs_apart semicolon fun b held => by rw [eq_of_beq held]; decide
      have shown : Shows whole part 0 i (k - i) := ⟨stands.settings, window, by omega, ends⟩
      have later : i ≠ k := Nat.ne_of_lt before
      -- A span that went past the semicolon would leave it out of what the pass finds behind it.
      have short : ∀ s, whole.text.piece whole.settings fresh i = .span s →
          s.stop ≤ i + 0 + (k - i) := by
        intro s met
        have goes : whole.onward fresh i (whole.text.piece whole.settings fresh i) =
            (fresh && s.isComment, s.stop) := by
          rw [met]
          rfl
        have reached := le_of_mem_terminators (mem_terminators_step here listed later goes)
        omega
      obtain ⟨finds, goes⟩ := shown.step short
      rw [Nat.add_zero, Findings.moved_zero] at finds
      replace goes : whole.onward fresh i (whole.text.piece whole.settings fresh i) =
          part.onward fresh i (part.text.piece part.settings fresh i) := goes
      have further := lt_onward here fresh
      rw [goes] at further
      rw [findFrom_step here, finds, goes, ih _ (by omega)
        (mem_terminators_step here listed later goes) rfl, ← Findings.append_assoc,
        ← findFrom_step (by omega)]

/-- A text that is split after a semicolon of the code has the spans, the semicolons and the tokens
of the first part, followed by those of the second, moved behind it. -/
theorem split_after_terminator (settings : LexicalSettings) (t : Text) (k : Nat)
    (listed : k ∈ (ofText settings t).map.terminators) :
    let whole := ofText settings t
    let front := ofText settings (t.slice 0 (k + 1))
    let back := ofText settings (t.slice (k + 1) t.size)
    whole.map.spans = front.map.spans ++ back.map.spans.map (·.moved (· + (k + 1))) ∧
      whole.map.terminators = front.map.terminators ++ back.map.terminators.map (· + (k + 1)) ∧
      whole.tokens = front.tokens ++ back.tokens.map (·.moved (· + (k + 1))) := by
  intro whole front back
  have semicolon : t.byteIs k Byte.isSemicolon = true := terminators_semicolon listed
  have bound : k < t.size := Text.lt_size_of_byteIs semicolon
  have first : PartOf front whole 0 := partOf_slice settings (Nat.zero_le _) bound
  have second : PartOf back whole (k + 1) := partOf_slice settings bound (Nat.le_refl _)
  have met : k ∈ (whole.findFrom true 0).terminators := by
    rw [findFrom_zero]
    exact Array.mem_toList_iff.mpr listed
  have behind : whole.findFrom true (k + 1) = (back.findFrom true 0).moved (· + (k + 1)) := by
    have last : back.size + (k + 1) = whole.size := by
      rw [show back.size = t.size - (k + 1) from Text.size_slice (Nat.le_refl _)]
      exact Nat.sub_add_cancel bound
    rw [← second.findFrom_last last, Nat.zero_add]
  have split := first.findFrom_first semicolon (Text.size_slice bound) met
  rw [behind, findFrom_zero, findFrom_zero, findFrom_zero] at split
  simp only [Findings.append, Findings.moved, Findings.mk.injEq] at split
  obtain ⟨spans, terminators, tokens⟩ := split
  exact ⟨Array.ext' (by simpa using spans), Array.ext' (by simpa using terminators),
    Array.ext' (by simpa using tokens)⟩

/-- A split between a literal with a semicolon inside and a comment with a quote inside, before a
literal that does not end. -/
theorem split_after_terminator_literal :
    let t := Text.ofString "x = 'a;''b';* it's; /* ; */ é=\"open;"
    let whole := ofText {} t
    let front := ofText {} (t.slice 0 12)
    let back := ofText {} (t.slice 12 t.size)
    let place (tok : Token) := (tok.kind, tok.start, tok.stop)
    11 ∈ whole.map.terminators ∧ front.map.spans = #[⟨4, 11, .stringLiteral, true⟩] ∧
      back.map.terminators = #[6] ∧
      whole.map.spans = #[⟨4, 11, .stringLiteral, true⟩, ⟨12, 18, .statementComment, true⟩,
        ⟨20, 27, .blockComment, true⟩, ⟨31, 37, .stringLiteral, false⟩] ∧
      whole.map.terminators = #[11, 18] ∧
      whole.tokens.map place = #[(.identifier, 0, 1), (.operator, 2, 3), (.stringLiteral, 4, 11),
        (.statementEnd, 11, 12), (.comment, 12, 18), (.statementEnd, 18, 19), (.comment, 20, 27),
        (.identifier, 28, 30), (.operator, 30, 31), (.stringLiteral, 31, 37)] := by
  intro t whole front back place
  have listed : 11 ∈ whole.map.terminators := by decide +kernel
  obtain ⟨spans, terminators, tokens⟩ := split_after_terminator {} t 11 listed
  refine ⟨listed, by decide +kernel, by decide +kernel, spans.trans ?_, terminators.trans ?_,
    (congrArg (Array.map place) tokens).trans ?_⟩
  all_goals decide +kernel

end Source
end SasLayout
