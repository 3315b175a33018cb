import SasLayout.Proofs.LogicalTokens
import SasLayout.Proofs.Window
import SasLayout.Statement

set_option autoImplicit false

/-!
Texts that differ in the inside of one comment. The pass looks at nothing between the two delimiters
of a comment but for where the comment ends, so it meets the same before the comment and behind it,
and all that is told of statements and of logical tokens moves with the bytes.
-/
namespace SasLayout

namespace Span

/-- Where an offset goes when `size` bytes replace the inside of a comment. -/
def shift (s : Span) (size offset : Nat) : Nat :=
  if offset < s.start + 2 then offset else offset + (s.start + 2 + size) - (s.stop - 2)

/-- The span with both ends moved by `f`. -/
def moved (f : Nat → Nat) (s : Span) : Span :=
  { s with start := f s.start, stop := f s.stop }

@[simp] theorem moved_isComment (f : Nat → Nat) (s : Span) : (s.moved f).isComment = s.isComment :=
  rfl

variable {s : Span} {size : Nat}

theorem shift_before {i : Nat} (before : i < s.start + 2) : s.shift size i = i :=
  if_pos before

theorem shift_behind {i : Nat} (behind : s.start + 2 ≤ i) :
    s.shift size i = i + (s.start + 2 + size) - (s.stop - 2) :=
  if_neg (Nat.not_lt.mpr behind)

/-- The shift keeps the order of two offsets outside the comment's inside. -/
theorem shift_lt_iff (wide : s.start + 4 ≤ s.stop) {i j : Nat}
    (first : i < s.start + 2 ∨ s.stop - 2 ≤ i) (second : j < s.start + 2 ∨ s.stop - 2 ≤ j) :
    s.shift size i < s.shift size j ↔ i < j := by
  unfold shift
  split <;> split <;> omega

end Span

/-- The token with both ends moved by `f`. -/
def Token.moved (f : Nat → Nat) (tok : Token) : Token :=
  { tok with start := f tok.start, stop := f tok.stop }

/-- What the indentation reads of a token: its kind, its name in the grammar and its place. -/
def Token.outline (tok : Token) : Token.Kind × String × Nat × Nat :=
  (tok.kind, tok.grammarName, tok.start, tok.stop)

def Piece.moved (f : Nat → Nat) : Piece → Piece
  | .span s => .span (s.moved f)
  | piece => piece

def SpanMap.moved (f : Nat → Nat) (m : SpanMap) : SpanMap :=
  ⟨m.spans.map (·.moved f), m.terminators.map f⟩

def OutOfRange.moved (f : Nat → Nat) (e : OutOfRange) : OutOfRange :=
  ⟨f e.offset, f e.size⟩

namespace Text

/-- The text with the bytes `w` inside the comment `s`. -/
def rewriteComment (t : Text) (s : Span) (w : Text) : Text :=
  ((t.slice 0 (s.start + 2)).append w).append (t.slice (s.stop - 2) t.size)

/-- A star and a slash stand nowhere in the text. -/
def ClosesNoComment (t : Text) : Prop :=
  ∀ k < t.size, t.byteIs k (· == Byte.star) = true → t.byteIs (k + 1) (· == Byte.slash) = false

theorem Window.take {t u : Text} {i j n m : Nat} (window : Window t u i j n) (within : m ≤ n) :
    Window t u i j m where
  left := by have := window.left; omega
  right := by have := window.right; omega
  same k bound := window.same k (Nat.le_trans bound within)

theorem commentClose?_eq_some {t : Text} {i stop : Nat} (lower : i ≤ stop)
    (here : t.byteIs stop (· == Byte.star) = true ∧ t.byteIs (stop + 1) (· == Byte.slash) = true)
    (before : ∀ k, i ≤ k → k < stop → t.byteIs k (· == Byte.star) = true →
      t.byteIs (k + 1) (· == Byte.slash) = false) : t.commentClose? i = some (stop + 2) := by
  have inside := lt_size_of_byteIs here.1
  induction left : stop - i generalizing i with
  | zero =>
    obtain rfl : i = stop := by omega
    rw [commentClose?, if_pos inside, if_pos (by rw [here.1, here.2]; rfl)]
  | succ left ih =>
    have goes : ¬ (t.byteIs i (· == Byte.star) && t.byteIs (i + 1) (· == Byte.slash)) = true := by
      rw [Bool.and_eq_true]
      rintro ⟨star, slash⟩
      rw [before i (Nat.le_refl i) (by omega) star] at slash
      cases slash
    rw [commentClose?, if_pos (by omega), if_neg goes]
    exact ih (by omega) (fun k lower => before k (by omega)) (by omega)

theorem commentClose?_sign {t : Text} {i stop : Nat} (found : t.commentClose? i = some stop) :
    t.byteIs (stop - 2) (· == Byte.star) = true ∧ t.byteIs (stop - 1) (· == Byte.slash) = true := by
  fun_induction commentClose? t i with
  | case1 i _ both =>
    cases found
    exact Bool.and_eq_true_iff.mp both
  | case2 i _ _ ih => exact ih found
  | case3 => cases found

end Text

namespace Bisect

variable {α β : Type}

theorem between_map (g : α → β) (xs : Array α) {p : β → Bool} {q : α → Bool}
    (same : ∀ a ∈ xs, p (g a) = q a) (lo hi : Nat) :
    between (xs.map g) p lo hi = between xs q lo hi := by
  fun_induction between xs q lo hi with
  | case1 lo hi room middle holds ih =>
    have held := same _ (Array.getElem_mem middle)
    rw [between, dif_pos (by rwa [Array.size_map]), ← ih]
    simp only [Array.getElem_map, held, holds, if_true]
  | case2 lo hi room middle fails ih =>
    have held := same _ (Array.getElem_mem middle)
    rw [between, dif_pos (by rwa [Array.size_map]), ← ih]
    simp only [Array.getElem_map, held, fails, if_false, Bool.false_eq_true]
  | case3 lo hi full => rw [between, dif_neg (by rwa [Array.size_map])]

/-- Bisection of an array whose elements were changed so that the answers stay. -/
theorem leading_map (g : α → β) (xs : Array α) {p : β → Bool} {q : α → Bool}
    (same : ∀ a ∈ xs, p (g a) = q a) : leading (xs.map g) p = leading xs q := by
  rw [leading, leading, between_map g xs same, Array.size_map]

end Bisect

namespace Source

open Token

/-- `other` is `src` with `size` bytes inside the comment `s`. -/
structure Rewritten (src other : Source) (s : Span) (size : Nat) : Prop where
  settings : other.settings = src.settings
  listed : s ∈ src.map.spans
  kind : s.kind = .blockComment
  terminated : s.terminated = true
  before : ∀ k < s.start + 2, other.text.byte? k = src.text.byte? k
  behind : ∀ k, s.stop - 2 ≤ k → other.text.byte? (s.shift size k) = src.text.byte? k
  closes : other.text.commentClose? (s.start + 2) = some (s.shift size s.stop)
  total : other.text.size = s.shift size src.text.size

/-- Where the pass may stand: where it is still to meet the span `s`, or behind it. -/
def Reaches (src : Source) (s : Span) (fresh : Bool) (i : Nat) : Prop :=
  s ∈ (SpanMap.marksFrom src.settings src.text fresh i).1 ∨ s.stop ≤ i

namespace Reaches

variable {src : Source} {s : Span} {fresh : Bool} {i : Nat} (reached : src.Reaches s fresh i)

include reached

theorem outside : i ≤ s.start ∨ s.stop ≤ i :=
  reached.imp_left fun met => (SpanMap.marksFrom_fits _ _ _ _ s met).1

/-- The pass has the span before it after a byte that is in no span. -/
theorem next {rest : Bool}
    (same : (SpanMap.marksFrom src.settings src.text fresh i).1 =
      (SpanMap.marksFrom src.settings src.text rest (i + 1)).1) : src.Reaches s rest (i + 1) := by
  rcases reached with met | behind
  · exact Or.inl (same ▸ met)
  · exact Or.inr (Nat.le_succ_of_le behind)

/-- A span that the pass meets is `s` itself, or ends before it, or stands behind it. -/
theorem span {first : Span} (inside : i < src.text.size)
    (met : src.text.piece src.settings fresh i = .span first) :
    src.Reaches s (fresh && first.isComment) first.stop ∧
      (first = s ∨ i < s.start ∧ first.stop ≤ s.start ∨ s.stop ≤ i) := by
  obtain ⟨start, lower, -⟩ := Text.piece_span_bounds inside met
  rcases reached with listed | behind
  · rw [SpanMap.marksFrom_span inside met] at listed
    rcases List.mem_cons.mp listed with rfl | later
    · exact ⟨Or.inr (Nat.le_refl _), Or.inl rfl⟩
    · have ordered := (SpanMap.marksFrom_fits _ _ _ _ s later).1
      exact ⟨Or.inl later, Or.inr (Or.inl ⟨by omega, ordered⟩)⟩
  · exact ⟨Or.inr (by omega), Or.inr (Or.inr behind)⟩

/-- So does the pass that reads code token by token. -/
theorem code (inside : i < src.text.size) (met : src.text.piece src.settings fresh i = .code) :
    src.Reaches s false (src.text.tokenAt i).stop := by
  rcases reached with listed | behind
  · rw [SpanMap.marksFrom_code inside met,
      SpanMap.marksFrom_token (Nat.lt_succ_self i) (src.text.lt_shapeAt_stop i) inside] at listed
    exact Or.inl listed
  · have later := src.text.lt_tokenAt_stop i
    exact Or.inr (by omega)

end Reaches

theorem reaches_zero {src : Source} {s : Span} (listed : s ∈ src.map.spans) :
    src.Reaches s true 0 := by
  rw [← Array.mem_toList_iff, map_spans] at listed
  exact Or.inl listed

theorem spanToken_comment {src : Source} {s : Span} (comment : s.isComment = true) :
    (src.spanToken s).isComment = true := by
  simp [Source.spanToken, Token.isComment, comment]

theorem spanToken_literal {src : Source} {s : Span} (literal : s.isComment = false) :
    (src.spanToken s).isComment = false := by
  simp [Source.spanToken, Token.isComment, literal]

/-- A comment of the map that ends before the text does has both its delimiters. -/
theorem blockComment_signs {src : Source} {s : Span} (listed : s ∈ src.map.spans)
    (kind : s.kind = .blockComment) (terminated : s.terminated = true) :
    src.text.opensBlockComment s.start = true ∧
      src.text.commentClose? (s.start + 2) = some s.stop := by
  obtain ⟨-, -, -, fresh, opened⟩ := span_fits listed
  have upTo_kind : ∀ kind close?, (Span.upTo src.text s.start kind close?).kind = kind := by
    intro kind close?
    cases close? <;> rfl
  unfold Text.opening? at opened
  split at opened
  · rename_i block
    refine ⟨block, ?_⟩
    cases close : src.text.commentClose? (s.start + 2) with
    | none =>
      rw [close, Option.some.injEq] at opened
      rw [← opened] at terminated
      cases terminated
    | some stop =>
      rw [close, Option.some.injEq] at opened
      rw [← opened]
      rfl
  all_goals
    repeat' split at opened
    all_goals
      first
      | cases opened
      | rw [Option.some.injEq] at opened
        rw [← opened, upTo_kind] at kind
        cases kind

namespace Rewritten

variable {src other : Source} {s : Span} {size : Nat} (edit : Rewritten src other s size)

include edit

theorem opens : src.text.opensBlockComment s.start = true :=
  (blockComment_signs edit.listed edit.kind edit.terminated).1

theorem ends : src.text.commentClose? (s.start + 2) = some s.stop :=
  (blockComment_signs edit.listed edit.kind edit.terminated).2

theorem wide : s.start + 4 ≤ s.stop ∧ s.stop ≤ src.text.size := by
  have bounds := Text.commentClose?_bounds edit.ends
  omega

theorem piece_comment (fresh : Bool) :
    src.text.piece src.settings fresh s.start = .span s := by
  have fits := span_fits edit.listed
  refine Text.piece_eq_span fits.visible ?_
  rw [Text.opening?, if_pos edit.opens, edit.ends, Span.upTo, ← edit.kind, ← edit.terminated]

/-- The comment of the other text starts at the same offset. -/
theorem piece_rewritten (fresh : Bool) :
    other.text.piece src.settings fresh s.start = .span (s.moved (s.shift size)) := by
  have same : ∀ k, k < s.start + 2 → ∀ p, other.text.byteIs k p = src.text.byteIs k p :=
    fun k early p => by rw [Text.byteIs_eq_any, Text.byteIs_eq_any, edit.before k early]
  refine Text.piece_eq_span ?_ ?_
  · rw [same _ (by omega)]
    exact (span_fits edit.listed).visible
  · have opens : other.text.opensBlockComment s.start = true := by
      rw [Text.opensBlockComment, same _ (by omega), same _ (by omega)]
      exact edit.opens
    rw [Text.opening?, if_pos opens, edit.closes, Span.upTo, Span.moved,
      Span.shift_before (Nat.lt_add_of_pos_right Nat.two_pos), edit.kind, edit.terminated]

theorem shift_add {i n : Nat} (aside : i + n < s.start + 2 ∨ s.stop - 2 ≤ i) :
    s.shift size (i + n) = s.shift size i + n := by
  have := edit.wide
  unfold Span.shift
  split <;> split <;> omega

theorem past_shift {i : Nat} (outside : src.text.size ≤ i) :
    other.text.size ≤ s.shift size i := by
  have wide := edit.wide
  rw [edit.total, Span.shift_behind (by omega), Span.shift_behind (by omega)]
  omega

/-- All that the pass sees from an offset outside the comment, up to the comment or to the end of
the text, is the same in both texts. -/
theorem window {i : Nat} (outside : i ≤ s.start ∨ s.stop ≤ i) (within : i ≤ src.text.size) :
    ∃ n, Text.Window src.text other.text i (s.shift size i) n ∧
      (i ≤ s.start ∧ i + n = s.start ∨ s.stop ≤ i ∧ i + n = src.text.size) := by
  have ⟨wide, bound⟩ := edit.wide
  have total := edit.total
  rcases outside with before | behind
  · refine ⟨s.start - i, ⟨by omega, ?_, fun k early => ?_⟩, Or.inl ⟨before, by omega⟩⟩
    · rw [Span.shift_before (by omega), total, Span.shift_behind (by omega)]
      omega
    · rw [Span.shift_before (by omega), edit.before _ (by omega)]
  · refine ⟨src.text.size - i, ⟨by omega, ?_, fun k _ => ?_⟩, Or.inr ⟨behind, by omega⟩⟩
    · rw [← edit.shift_add (Or.inr (by omega)), total, Nat.add_sub_cancel' within]
    · rw [← edit.shift_add (Or.inr (by omega)), edit.behind _ (by omega)]

/-- No token and no blank goes on at the end of such a window. -/
theorem window_ends {i n : Nat}
    (reach : i ≤ s.start ∧ i + n = s.start ∨ s.stop ≤ i ∧ i + n = src.text.size) :
    src.text.byteIs (i + n) Byte.isInner = false ∧
      src.text.byteIs (i + n) Byte.isBlank = false := by
  rcases reach with ⟨-, stops⟩ | ⟨-, stops⟩
  · rw [stops]
    have slash := (Bool.and_eq_true_iff.mp edit.opens).1
    refine ⟨Text.byteIs_apart slash fun b same => ?_, (span_fits edit.listed).visible⟩
    rw [eq_of_beq same]
    decide
  · rw [stops]
    exact ⟨Text.byteIs_past (Nat.le_refl _) _, Text.byteIs_past (Nat.le_refl _) _⟩

theorem shift_window {i n m : Nat}
    (reach : i ≤ s.start ∧ i + n = s.start ∨ s.stop ≤ i ∧ i + n = src.text.size) (within : m ≤ n) :
    s.shift size (i + m) = s.shift size i + m :=
  edit.shift_add (by omega)

section Step

variable {fresh : Bool} {i : Nat} (reached : src.Reaches s fresh i)

include reached

/-- One step of the pass: it meets the same in both texts. -/
theorem piece (inside : i < src.text.size) :
    other.text.piece other.settings fresh (s.shift size i) =
      (src.text.piece src.settings fresh i).moved (s.shift size) := by
  rw [edit.settings]
  by_cases here : i = s.start
  · subst here
    rw [Span.shift_before (by omega), edit.piece_comment, edit.piece_rewritten]
    rfl
  · obtain ⟨n, window, reach⟩ := edit.window reached.outside (Nat.le_of_lt inside)
    have positive : 0 < n := by omega
    cases opened : src.text.opening? src.settings fresh i with
    | none =>
      rw [window.piece_eq positive src.settings fresh opened]
      cases met : src.text.piece src.settings fresh i with
      | span first =>
        cases Text.met_of_piece met with
        | span _ opening => rw [opened] at opening; cases opening
      | _ => rfl
    | some first =>
      cases blank : src.text.byteIs i Byte.isBlank with
      | true =>
        have there := window.byteIs_first Byte.isBlank
        rw [Text.piece, Text.piece, if_pos blank, if_pos (there ▸ blank)]
        rfl
      | false =>
        have met := Text.piece_eq_span blank opened
        obtain ⟨start, lower, upper⟩ := Text.piece_span_bounds inside met
        have aside := (reached.span inside met).2
        have wide := edit.wide
        have short : first.stop - i ≤ n := by
          rcases aside with rfl | aside <;> omega
        have there := (window.take short).opening?_span (by omega) src.settings fresh opened
          (by omega)
        rw [met, Text.piece_eq_span (window.byteIs_first _ ▸ blank) there]
        have stop := edit.shift_window reach short
        rw [Nat.add_sub_cancel' (Nat.le_of_lt lower)] at stop
        rw [Piece.moved, Span.moved, stop, start]

/-- What is no span does not stand where the comment starts. -/
theorem aside (plain : ∀ first, src.text.piece src.settings fresh i ≠ .span first) :
    i < s.start ∨ s.stop ≤ i := by
  have apart : i ≠ s.start := by
    rintro rfl
    exact plain s (edit.piece_comment fresh)
  have outside := reached.outside
  omega

theorem inside_shift (inside : i < src.text.size) : s.shift size i < other.text.size := by
  obtain ⟨n, window, -⟩ := edit.window reached.outside (Nat.le_of_lt inside)
  exact window.first_inside inside

/-- The code token at an offset is the same in both texts. -/
theorem tokenAt (inside : i < src.text.size)
    (plain : ∀ first, src.text.piece src.settings fresh i ≠ .span first) :
    other.text.tokenAt (s.shift size i) = (src.text.tokenAt i).moved (s.shift size) := by
  have apart := edit.aside reached plain
  have wide := edit.wide
  obtain ⟨n, window, reach⟩ := edit.window reached.outside (Nat.le_of_lt inside)
  obtain ⟨kind, m, bound, left, right⟩ :=
    window.shapeAt (edit.window_ends reach).1 (by omega)
  rw [Text.tokenAt, Text.tokenAt, left, right, Token.moved]
  simp only [edit.shift_window reach bound, window.slice bound]

/-- So is a literal. -/
theorem spanToken {first : Span} (inside : i < src.text.size)
    (met : src.text.piece src.settings fresh i = .span first) (literal : first.isComment = false) :
    other.spanToken (first.moved (s.shift size)) =
      (src.spanToken first).moved (s.shift size) := by
  obtain ⟨rfl, lower, upper⟩ := Text.piece_span_bounds inside met
  have wide := edit.wide
  have aside := (reached.span inside met).2.resolve_left (by
    rintro rfl
    rw [Span.isComment, Span.region, edit.kind] at literal
    cases literal)
  obtain ⟨n, window, reach⟩ := edit.window reached.outside (Nat.le_of_lt inside)
  have short : first.stop - first.start ≤ n := by omega
  have stop := edit.shift_window reach short
  have slices := window.slice short
  rw [Nat.add_sub_cancel' (Nat.le_of_lt lower)] at stop slices
  rw [Source.spanToken, Source.spanToken, Token.moved, Span.moved_isComment]
  simp only [Span.moved, stop, slices]

end Step

section Run

variable {fresh : Bool} {i : Nat}

/-- The whole pass: it records the same spans and semicolons, moved. -/
theorem marksFrom (reached : src.Reaches s fresh i) :
    SpanMap.marksFrom other.settings other.text fresh (s.shift size i) =
      ((SpanMap.marksFrom src.settings src.text fresh i).1.map (·.moved (s.shift size)),
        (SpanMap.marksFrom src.settings src.text fresh i).2.map (s.shift size)) := by
  induction left : src.text.size - i using Nat.strongRecOn generalizing fresh i with
  | ind left ih =>
    by_cases inside : i < src.text.size
    · have there := edit.inside_shift reached inside
      have step := edit.piece reached inside
      cases met : src.text.piece src.settings fresh i with
      | blank =>
        have aside := edit.aside reached (by simp [met])
        have same := SpanMap.marksFrom_blank inside met
        rw [met] at step
        rw [SpanMap.marksFrom_blank there step, same, ← edit.shift_add (by omega),
          ih _ (by omega) (reached.next (congrArg Prod.fst same)) rfl]
      | span first =>
        obtain ⟨-, lower, -⟩ := Text.piece_span_bounds inside met
        rw [met] at step
        rw [SpanMap.marksFrom_span there step, SpanMap.marksFrom_span inside met,
          Span.moved_isComment, Span.moved, ih _ (by omega) (reached.span inside met).1 rfl]
        rfl
      | terminator =>
        have aside := edit.aside reached (by simp [met])
        have same := SpanMap.marksFrom_terminator inside met
        rw [met] at step
        rw [SpanMap.marksFrom_terminator there step, same, ← edit.shift_add (by omega),
          ih _ (by omega) (reached.next (by rw [same])) rfl]
        rfl
      | code =>
        have aside := edit.aside reached (by simp [met])
        have same := SpanMap.marksFrom_code inside met
        rw [met] at step
        rw [SpanMap.marksFrom_code there step, same, ← edit.shift_add (by omega),
          ih _ (by omega) (reached.next (congrArg Prod.fst same)) rfl]
    · have outside := Nat.le_of_not_lt inside
      rw [SpanMap.marksFrom_end (edit.past_shift outside), SpanMap.marksFrom_end outside]
      rfl

/-- The tokens but the comments are the same, moved. -/
theorem code_lexFrom (reached : src.Reaches s fresh i) :
    code (other.lexFrom fresh (s.shift size i)) =
      (code (src.lexFrom fresh i)).map (·.moved (s.shift size)) := by
  induction left : src.text.size - i using Nat.strongRecOn generalizing fresh i with
  | ind left ih =>
    by_cases inside : i < src.text.size
    · have there := edit.inside_shift reached inside
      have step := edit.piece reached inside
      cases met : src.text.piece src.settings fresh i with
      | blank =>
        have aside := edit.aside reached (by simp [met])
        have same := SpanMap.marksFrom_blank inside met
        rw [met] at step
        rw [lexFrom_blank there step, lexFrom_blank inside met, ← edit.shift_add (by omega),
          ih _ (by omega) (reached.next (by rw [same])) rfl]
      | span first =>
        obtain ⟨-, lower, -⟩ := Text.piece_span_bounds inside met
        obtain ⟨next, -⟩ := reached.span inside met
        rw [met] at step
        rw [lexFrom_span there step, lexFrom_span inside met, Span.moved_isComment]
        cases comment : first.isComment with
        | true =>
          rw [comment] at next
          rw [code_comment (spanToken_comment (s := first.moved _) comment),
            code_comment (spanToken_comment comment)]
          exact ih _ (by omega) next rfl
        | false =>
          rw [comment] at next
          rw [code_cons (spanToken_literal (s := first.moved _) comment),
            code_cons (spanToken_literal comment), List.map_cons,
            edit.spanToken reached inside met comment]
          exact congrArg _ (ih _ (by omega) next rfl)
      | terminator =>
        have aside := edit.aside reached (by simp [met])
        have same := SpanMap.marksFrom_terminator inside met
        have token := edit.tokenAt reached inside (by simp [met])
        rw [met] at step
        rw [lexFrom_terminator there step, lexFrom_terminator inside met,
          code_cons (tokenAt_code _ _), code_cons (tokenAt_code _ _), List.map_cons, token,
          ← edit.shift_add (by omega), ih _ (by omega) (reached.next (by rw [same])) rfl]
      | code =>
        have aside := edit.aside reached (by simp [met])
        have token := edit.tokenAt reached inside (by simp [met])
        have later := src.text.lt_tokenAt_stop i
        rw [met] at step
        rw [lexFrom_code there step, lexFrom_code inside met, code_cons (tokenAt_code _ _),
          code_cons (tokenAt_code _ _), List.map_cons, token]
        exact congrArg _ (ih _ (by omega) (reached.code inside met) rfl)
    · have outside := Nat.le_of_not_lt inside
      rw [lexFrom_end (edit.past_shift outside), lexFrom_end outside]
      rfl

end Run

theorem map : other.map = src.map.moved (s.shift size) := by
  have marks := edit.marksFrom (reaches_zero edit.listed)
  rw [Span.shift_before (by omega)] at marks
  have spans : other.map.spans = src.map.spans.map (·.moved (s.shift size)) := by
    apply Array.ext'
    rw [map_spans, marks, Array.toList_map, map_spans]
  have terminators : other.map.terminators = src.map.terminators.map (s.shift size) := by
    apply Array.ext'
    rw [map_terminators, marks, Array.toList_map, map_terminators]
  rw [SpanMap.moved, ← spans, ← terminators]

theorem code_tokens :
    code other.tokens.toList = (code src.tokens.toList).map (·.moved (s.shift size)) := by
  have tokens := edit.code_lexFrom (reaches_zero edit.listed)
  rw [Span.shift_before (by omega)] at tokens
  rw [toList_tokens, toList_tokens, tokens]

end Rewritten

theorem passes_moved (src other : Source) (f : Nat → Nat) :
    Passes src other (·.moved f) Token.outline where
  kind _ := rfl
  keyword _ _ := rfl
  equals _ := rfl
  identifier _ := rfl
  target _ _ := rfl

namespace Rewritten

variable {src other : Source} {s : Span} {size : Nat} (edit : Rewritten src other s size)

include edit

theorem logicalTokens :
    other.logicalTokens.map Token.outline =
      src.logicalTokens.map fun tok => (tok.moved (s.shift size)).outline := by
  apply Array.ext'
  rw [Array.toList_map, Array.toList_map, toList_logicalTokens, toList_logicalTokens,
    edit.code_tokens, (passes_moved src other _).rewriteBefore]

/-- No semicolon of the code stands in the comment. -/
theorem terminator_outside {i : Nat} (listed : i ∈ src.map.terminators) :
    i < src.text.size ∧ (i < s.start ∨ s.stop ≤ i) := by
  rw [← Array.mem_toList_iff, map_terminators, ← lexFrom_ends] at listed
  obtain ⟨tok, kept, rfl⟩ := List.mem_map.mp listed
  obtain ⟨member, ends⟩ := List.mem_filter.mp kept
  rw [decide_eq_true_eq] at ends
  have tiling := src.lexFrom_tiling
  have nonempty := tiling.nonempty tok member
  refine ⟨Nat.lt_of_lt_of_le nonempty (tiling.within tok member), ?_⟩
  by_contra covered
  have same := tiling.unique member (tiling.span_mem edit.listed) (i := tok.start)
    ⟨Nat.le_refl _, nonempty⟩ (by simp only [spanToken_start, spanToken_stop]; omega)
  have plain := src.spanToken_isSpan s
  rw [← same, ends] at plain
  cases plain

/-- The semicolons before an offset stay before it. -/
theorem leading {offset : Nat} (spared : offset < s.start + 2 ∨ s.stop - 2 ≤ offset) :
    Bisect.leading other.map.terminators (· < s.shift size offset) =
      Bisect.leading src.map.terminators (· < offset) := by
  rw [edit.map]
  refine Bisect.leading_map _ _ fun i listed => decide_eq_decide.mpr ?_
  have outside := (edit.terminator_outside listed).2
  exact Span.shift_lt_iff edit.wide.1 (by omega) spared

theorem previousTerminator? {offset : Nat} (spared : offset < s.start + 2 ∨ s.stop - 2 ≤ offset) :
    other.map.previousTerminator? (s.shift size offset) =
      (src.map.previousTerminator? offset).map (s.shift size) := by
  rw [SpanMap.previousTerminator?, SpanMap.previousTerminator?, edit.leading spared, edit.map]
  split
  · rfl
  · exact Array.getElem?_map ..

theorem nextTerminator? {offset : Nat} (spared : offset < s.start + 2 ∨ s.stop - 2 ≤ offset) :
    other.map.nextTerminator? (s.shift size offset) =
      (src.map.nextTerminator? offset).map (s.shift size) := by
  rw [SpanMap.nextTerminator?, SpanMap.nextTerminator?, edit.leading spared, edit.map]
  exact Array.getElem?_map ..

theorem seek {i : Nat} (outside : i ≤ s.start ∨ s.stop ≤ i) (within : i ≤ src.text.size) :
    other.text.seek (!Byte.isBlank ·) (s.shift size i) =
      s.shift size (src.text.seek (!Byte.isBlank ·) i) := by
  obtain ⟨n, window, reach⟩ := edit.window outside within
  have stops : src.text.byteIs (i + n) (!(!Byte.isBlank ·) ·) = false := by
    simpa using (edit.window_ends reach).2
  obtain ⟨m, bound, left, right⟩ := window.seek stops
  rw [left, right, edit.shift_window reach bound]

theorem statementStart {offset : Nat} (spared : offset < s.start + 2 ∨ s.stop - 2 ≤ offset) :
    other.statementStart (s.shift size offset) = s.shift size (src.statementStart offset) := by
  rw [Source.statementStart, Source.statementStart, Source.afterTerminator,
    Source.afterTerminator, edit.previousTerminator? spared]
  cases found : src.map.previousTerminator? offset with
  | none =>
    have start := edit.seek (i := 0) (Or.inl (Nat.zero_le _)) (Nat.zero_le _)
    rwa [Span.shift_before (by omega)] at start
  | some last =>
    have listed : last ∈ src.map.terminators := by
      rw [SpanMap.previousTerminator?] at found
      split at found
      · cases found
      · exact Array.mem_of_getElem? found
    obtain ⟨inside, aside⟩ := edit.terminator_outside listed
    have start := edit.seek (i := last + 1) (by omega) inside
    rwa [edit.shift_add (by omega)] at start

theorem statementStop {offset : Nat} (spared : offset < s.start + 2 ∨ s.stop - 2 ≤ offset) :
    other.statementStop (s.shift size offset) = s.shift size (src.statementStop offset) := by
  rw [Source.statementStop, Source.statementStop, edit.nextTerminator? spared]
  cases found : src.map.nextTerminator? offset with
  | none => exact edit.total
  | some last =>
    have listed : last ∈ src.map.terminators := Array.mem_of_getElem? found
    obtain ⟨-, aside⟩ := edit.terminator_outside listed
    exact (edit.shift_add (by omega)).symm

theorem byte? {i : Nat} (spared : i < s.start + 2 ∨ s.stop - 2 ≤ i) :
    other.text.byte? (s.shift size i) = src.text.byte? i := by
  rcases spared with before | behind
  · rw [Span.shift_before before, edit.before i before]
  · exact edit.behind i behind

theorem byteIs {i : Nat} (spared : i < s.start + 2 ∨ s.stop - 2 ≤ i) (p : UInt8 → Bool) :
    other.text.byteIs (s.shift size i) p = src.text.byteIs i p := by
  rw [Text.byteIs_eq_any, Text.byteIs_eq_any, edit.byte? spared]

theorem isBoundary {i : Nat} (spared : i < s.start + 2 ∨ s.stop - 2 ≤ i) :
    other.text.isBoundary (s.shift size i) = src.text.isBoundary i := by
  have ⟨wide, bound⟩ := edit.wide
  have first : (s.shift size i == 0) = (i == 0) := by
    rw [Bool.eq_iff_iff, beq_iff_eq, beq_iff_eq]
    unfold Span.shift
    split <;> omega
  have last : (s.shift size i == other.text.size) = (i == src.text.size) := by
    rw [edit.total, Bool.eq_iff_iff, beq_iff_eq, beq_iff_eq]
    unfold Span.shift
    split <;> split <;> omega
  rw [Text.isBoundary, Text.isBoundary, first, last, edit.byteIs spared]

theorem sign_boundary : src.text.isBoundary (s.stop - 2) = true := by
  have star := (Text.commentClose?_sign edit.ends).1
  refine Text.isBoundary_of_not_word (by have := edit.wide; omega) ?_
  refine Text.byteIs_apart star fun b same => ?_
  rw [eq_of_beq same]
  decide

/-- The characters before an offset stay; from behind the comment they end at its last sign. -/
theorem floor_back {i : Nat} (spared : i < s.start + 2 ∨ s.stop - 2 ≤ i) :
    Text.floor.back other.text (s.shift size i) = s.shift size (Text.floor.back src.text i) ∧
      (Text.floor.back src.text i < s.start + 2 ∨ s.stop - 2 ≤ Text.floor.back src.text i) := by
  have ⟨wide, bound⟩ := edit.wide
  induction i with
  | zero =>
    rw [Span.shift_before (by omega), Text.floor.back, Text.floor.back,
      Span.shift_before (by omega)]
    exact ⟨rfl, Or.inl (by omega)⟩
  | succ i ih =>
    have whole := edit.isBoundary spared
    cases here : src.text.isBoundary (i + 1) with
    | true =>
      rw [here] at whole
      have reached : Text.floor.back src.text (i + 1) = i + 1 := by
        rw [Text.floor.back, if_pos here]
      rw [reached]
      refine ⟨?_, spared⟩
      obtain ⟨k, shifted⟩ : ∃ k, s.shift size (i + 1) = k + 1 :=
        Nat.exists_eq_add_one.mpr (by unfold Span.shift; split <;> omega)
      rw [shifted] at whole ⊢
      rw [Text.floor.back, if_pos whole]
    | false =>
      have apart : i + 1 ≠ s.stop - 2 := by
        intro sign
        rw [sign, edit.sign_boundary] at here
        cases here
      have shifted : s.shift size (i + 1) = s.shift size i + 1 := edit.shift_add (by omega)
      rw [shifted, here] at whole
      rw [shifted, Text.floor.back, if_neg (by simp [whole]), Text.floor.back,
        if_neg (by simp [here])]
      exact ih (by omega)

theorem floor {i : Nat} (spared : i < s.start + 2 ∨ s.stop - 2 ≤ i) :
    other.text.floor (s.shift size i) = s.shift size (src.text.floor i) ∧
      (src.text.floor i < s.start + 2 ∨ s.stop - 2 ≤ src.text.floor i) := by
  have ⟨wide, bound⟩ := edit.wide
  have order : s.shift size i < s.shift size src.text.size ↔ i < src.text.size :=
    Span.shift_lt_iff wide spared (by omega)
  rw [Text.floor, Text.floor, edit.total]
  by_cases inside : i < src.text.size
  · rw [if_neg (by omega), if_neg (by omega)]
    exact edit.floor_back spared
  · rw [if_pos (by omega), if_pos (by omega)]
    exact ⟨rfl, by omega⟩

theorem checkOffset {offset : Nat} (spared : offset < s.start + 2 ∨ s.stop - 2 ≤ offset) :
    (src.checkOffset offset = .error ⟨offset, src.size⟩ ∧
      other.checkOffset (s.shift size offset) = .error (OutOfRange.moved (s.shift size)
        ⟨offset, src.size⟩)) ∨
    ∃ i, (i < s.start + 2 ∨ s.stop - 2 ≤ i) ∧ src.checkOffset offset = .ok i ∧
      other.checkOffset (s.shift size offset) = .ok (s.shift size i) := by
  have ⟨wide, bound⟩ := edit.wide
  have order : s.shift size src.text.size < s.shift size offset ↔ src.text.size < offset :=
    Span.shift_lt_iff wide (by omega) spared
  rw [Source.checkOffset, Source.checkOffset, Text.checkOffset, Text.checkOffset, edit.total]
  by_cases past : src.text.size < offset
  · rw [if_pos past, if_pos (order.mpr past)]
    exact Or.inl ⟨rfl, rfl⟩
  · obtain ⟨floor, still⟩ := edit.floor spared
    rw [if_neg past, if_neg (mt order.mp past), floor]
    exact Or.inr ⟨_, still, rfl, rfl⟩

/-- The statement around an offset that is not in the inside of the comment moves with it. -/
theorem statement {offset : Nat} (spared : offset < s.start + 2 ∨ s.stop - 2 ≤ offset) :
    other.beginningOfStatement (s.shift size offset) =
        ((src.beginningOfStatement offset).map (s.shift size)).mapError (·.moved (s.shift size)) ∧
      other.endOfStatement (s.shift size offset) =
        ((src.endOfStatement offset).map (s.shift size)).mapError (·.moved (s.shift size)) := by
  unfold beginningOfStatement endOfStatement
  rcases edit.checkOffset spared with ⟨here, there⟩ | ⟨i, still, here, there⟩
  · rw [here, there]
    exact ⟨rfl, rfl⟩
  · rw [here, there]
    exact ⟨congrArg Except.ok (edit.statementStart still),
      congrArg Except.ok (edit.statementStop still)⟩

end Rewritten

end Source

namespace Text

section

variable {t w : Text} {s : Span}

theorem toList_rewriteComment :
    (t.rewriteComment s w).toList =
      t.toList.take (s.start + 2) ++ (w.toList ++ t.toList.drop (s.stop - 2)) := by
  rw [rewriteComment, toList_append, toList_append, toList_slice, toList_slice, List.drop_zero,
    ← length_toList, List.take_length, List.append_assoc]

variable (wide : s.start + 4 ≤ s.stop) (within : s.stop ≤ t.size)

include wide within

theorem length_front : (t.toList.take (s.start + 2)).length = s.start + 2 := by
  rw [List.length_take, length_toList]
  omega

theorem byte?_rewriteComment_before {k : Nat} (before : k < s.start + 2) :
    (t.rewriteComment s w).byte? k = t.byte? k := by
  have front := length_front wide within
  rw [byte?_eq_getElem?, byte?_eq_getElem?, toList_rewriteComment,
    List.getElem?_append_left (by omega), List.getElem?_take_of_lt before]

theorem byte?_rewriteComment_inside {k : Nat} (inside : k < w.size) :
    (t.rewriteComment s w).byte? (s.start + 2 + k) = w.byte? k := by
  have front := length_front wide within
  rw [byte?_eq_getElem?, byte?_eq_getElem?, toList_rewriteComment,
    List.getElem?_append_right (by omega), front, Nat.add_sub_cancel_left,
    List.getElem?_append_left (by rwa [length_toList])]

theorem byte?_rewriteComment_behind {k : Nat} (behind : s.stop - 2 ≤ k) :
    (t.rewriteComment s w).byte? (s.shift w.size k) = t.byte? k := by
  have front := length_front wide within
  obtain ⟨m, rfl⟩ := Nat.exists_eq_add_of_le behind
  rw [Span.shift_behind (by omega), byte?_eq_getElem?, byte?_eq_getElem?, toList_rewriteComment,
    List.getElem?_append_right (by omega), front,
    List.getElem?_append_right (by rw [length_toList]; omega), length_toList, List.getElem?_drop]
  congr 1
  omega

theorem size_rewriteComment : (t.rewriteComment s w).size = s.shift w.size t.size := by
  rw [Span.shift_behind (by omega), ← length_toList, toList_rewriteComment, List.length_append,
    List.length_append, length_front wide within, List.length_drop, length_toList, length_toList]
  omega

/-- The comment ends where its closing sign has moved to. -/
theorem commentClose?_rewriteComment (free : w.ClosesNoComment)
    (ends : t.commentClose? (s.start + 2) = some s.stop) :
    (t.rewriteComment s w).commentClose? (s.start + 2) = some (s.shift w.size s.stop) := by
  obtain ⟨star, slash⟩ := commentClose?_sign ends
  have sign : ∀ k, s.stop - 2 ≤ k → ∀ p,
      (t.rewriteComment s w).byteIs (s.shift w.size k) p = t.byteIs k p := fun k behind p => by
    rw [byteIs_eq_any, byteIs_eq_any, byte?_rewriteComment_behind wide within behind]
  have inside : ∀ k < w.size, ∀ p,
      (t.rewriteComment s w).byteIs (s.start + 2 + k) p = w.byteIs k p := fun k bound p => by
    rw [byteIs_eq_any, byteIs_eq_any, byte?_rewriteComment_inside wide within bound]
  have first : s.shift w.size (s.stop - 2) = s.start + 2 + w.size := by
    rw [Span.shift_behind (by omega)]
    omega
  have second : s.shift w.size (s.stop - 1) = s.start + 2 + w.size + 1 := by
    rw [Span.shift_behind (by omega)]
    omega
  have third : s.shift w.size s.stop = s.start + 2 + w.size + 2 := by
    rw [Span.shift_behind (by omega)]
    omega
  rw [← sign _ (Nat.le_refl _), first] at star
  rw [← sign _ (by omega), second] at slash
  rw [third]
  refine commentClose?_eq_some (Nat.le_add_right _ _) ⟨star, slash⟩ fun k lower upper here => ?_
  obtain ⟨m, rfl⟩ := Nat.exists_eq_add_of_le lower
  rw [inside m (by omega)] at here
  rcases Nat.lt_or_ge (m + 1) w.size with more | last
  · rw [Nat.add_assoc, inside (m + 1) more, free m (by omega) here]
  · -- The byte after the last of `w` is the star of the closing sign.
    rw [show s.start + 2 + m + 1 = s.start + 2 + w.size by omega]
    exact byteIs_apart star fun b same => by rw [eq_of_beq same]; decide

end

end Text

namespace Source

/-- Writing other bytes into a comment, without a star and a slash after each other. -/
theorem rewritten_ofText {settings : LexicalSettings} {t w : Text} {s : Span}
    (listed : s ∈ (ofText settings t).map.spans) (kind : s.kind = .blockComment)
    (terminated : s.terminated = true) (free : w.ClosesNoComment) :
    Rewritten (ofText settings t) (ofText settings (t.rewriteComment s w)) s w.size := by
  obtain ⟨-, ends⟩ := blockComment_signs listed kind terminated
  obtain ⟨wide, within⟩ := Text.commentClose?_bounds ends
  exact {
    settings := rfl
    listed := listed
    kind := kind
    terminated := terminated
    before := fun k => Text.byte?_rewriteComment_before wide within
    behind := fun k => Text.byte?_rewriteComment_behind wide within
    closes := Text.commentClose?_rewriteComment wide within free ends
    total := Text.size_rewriteComment wide within }

/-- What stands inside a comment changes nothing outside it: the spans and the semicolons of the
code, the statement around an offset and the logical tokens are the same, moved with the bytes. -/
theorem rewriteComment_transparent (settings : LexicalSettings) (t w : Text) (s : Span)
    (listed : s ∈ (ofText settings t).map.spans) (kind : s.kind = .blockComment)
    (terminated : s.terminated = true) (free : w.ClosesNoComment) :
    let src := ofText settings t
    let edited := ofText settings (t.rewriteComment s w)
    let f := s.shift w.size
    edited.map = src.map.moved f ∧
    (∀ offset, offset < s.start + 2 ∨ s.stop - 2 ≤ offset →
      edited.beginningOfStatement (f offset) =
        ((src.beginningOfStatement offset).map f).mapError (·.moved f) ∧
      edited.endOfStatement (f offset) =
        ((src.endOfStatement offset).map f).mapError (·.moved f)) ∧
    edited.logicalTokens.map Token.outline =
      src.logicalTokens.map fun tok => (tok.moved f).outline := by
  intro src edited f
  have edit := rewritten_ofText listed kind terminated free
  exact ⟨edit.map, fun offset spared => edit.statement spared, edit.logicalTokens⟩

/-- A comment between the two halves of an assignment target, with an inside that would end the
statement, open a literal and another comment anywhere else. -/
theorem rewriteComment_transparent_target :
    let t := Text.ofString "data /* x */ = b; c = 1;"
    let w := Text.ofString "';/*run;*"
    let s : Span := ⟨5, 12, .blockComment, true⟩
    let src := ofText {} t
    let edited := ofText {} (t.rewriteComment s w)
    s ∈ src.map.spans ∧ w.ClosesNoComment ∧
      t.rewriteComment s w = Text.ofString "data /*';/*run;**/ = b; c = 1;" ∧
      edited.map.spans = #[⟨5, 18, .blockComment, true⟩] ∧ edited.map.terminators = #[22, 29] ∧
      edited.beginningOfStatement 26 = .ok 24 ∧ edited.endOfStatement 26 = .ok 30 ∧
      edited.logicalTokens.map Token.outline = #[(.assignmentTarget, "dataequal", 0, 20),
        (.identifier, "", 21, 22), (.statementEnd, ";", 22, 23), (.identifier, "", 24, 25),
        (.operator, "=", 26, 27), (.number, "", 28, 29), (.statementEnd, ";", 29, 30)] := by
  intro t w s src edited
  have listed : s ∈ src.map.spans := by decide +kernel
  have free : w.ClosesNoComment := by
    unfold Text.ClosesNoComment
    decide +kernel
  obtain ⟨map, statement, tokens⟩ := rewriteComment_transparent {} t w s listed rfl rfl free
  obtain ⟨first, last⟩ := statement 20 (Or.inr (by decide))
  refine ⟨listed, free, by decide +kernel, ?_, ?_, first.trans ?_, last.trans ?_, tokens.trans ?_⟩
  · exact (congrArg SpanMap.spans map).trans (by decide +kernel)
  · exact (congrArg SpanMap.terminators map).trans (by decide +kernel)
  all_goals decide +kernel

end Source
end SasLayout
