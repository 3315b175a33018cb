import Mathlib.Data.List.DropRight
import Mathlib.Data.List.Forall2
import SasLayout.Indent.Region
import SasLayout.Proofs.TokenLookup
import SasLayout.Proofs.Window

set_option autoImplicit false

/-!
Texts that differ in the indentation of some lines. As long as no such line starts inside a comment
or a literal, the two have the same tokens; only the blanks that end a statement comment may differ,
because its semicolon may stand on a line that moves.
-/
namespace SasLayout

namespace Token

/-- A comment that a semicolon ends: it opens with a star or a percent sign. -/
def isStatementComment (tok : Token) : Bool :=
  tok.isComment && !tok.lexeme.byteIs 0 (· == Byte.slash)

/-- The bytes of the token without the blanks at its end. -/
def trimmed (tok : Token) : List UInt8 :=
  tok.lexeme.toList.rdropWhile Byte.isBlank

/-- The same token, but for where it stands and for the blanks that end a statement comment. -/
structure Alike (a b : Token) : Prop where
  kind : a.kind = b.kind
  trimmed : a.trimmed = b.trimmed
  exact : a.isStatementComment = false → a.lexeme = b.lexeme

theorem Alike.of_lexeme {a b : Token} (kind : a.kind = b.kind) (lexeme : a.lexeme = b.lexeme) :
    Alike a b where
  kind := kind
  trimmed := by rw [Token.trimmed, Token.trimmed, lexeme]
  exact _ := lexeme

end Token

theorem Text.toList_spaces (n : Nat) : (spaces n).toList = List.replicate n Byte.space := by
  simp [spaces, toList]

namespace Source

/-- The indentation of a line, from `start` to its first visible byte at `first`, where no comment
and no literal that began before the line goes on. -/
structure Movable (src : Source) (start first : Nat) : Prop where
  begins : start = 0 ∨ src.text.byteIs (start - 1) Byte.isNewline = true
  ordered : start ≤ first
  within : first ≤ src.size
  indent : ∀ k, start ≤ k → k < first → src.text.byteIs k Byte.isIndent = true
  free : ∀ s ∈ src.map.spans, s.start < start → s.stop ≤ first ∧ s.stop < src.size

theorem Movable.newline {src : Source} {start first k : Nat} (movable : src.Movable start first)
    (later : k < start) : src.text.byteIs (start - 1) Byte.isNewline = true := by
  rcases movable.begins with rfl | newline
  · omega
  · exact newline

/-- No line that may move starts after `i` and up to `stop`. -/
def Unmoved (src : Source) (i stop : Nat) : Prop :=
  ∀ start first, src.Movable start first → i < start → stop < start

theorem Unmoved.mono {src : Source} {i short stop : Nat} (unmoved : src.Unmoved i stop)
    (within : short ≤ stop) : src.Unmoved i short := fun start first movable after =>
  Nat.lt_of_le_of_lt within (unmoved start first movable after)

/-- From `i` and from `j` on, the texts differ only in the indentation of lines that may move.
`meets` holds of the offsets of each byte that they share, of the offsets behind an indentation in
which they differ, and of their ends. -/
inductive Aligned (meets : Nat → Nat → Prop) (src other : Source) : Nat → Nat → Prop
  | done (here : meets src.size other.size) : Aligned meets src other src.size other.size
  | byte {i j : Nat} {b : UInt8} (here : meets i j) (left : src.text.byte? i = some b)
    (right : other.text.byte? j = some b) (rest : Aligned meets src other (i + 1) (j + 1)) :
    Aligned meets src other i j
  | line {i j first next : Nat} (movable : src.Movable i first) (ordered : j ≤ next)
    (indent : ∀ k, j ≤ k → k < next → other.text.byteIs k Byte.isIndent = true)
    (here : meets first next) (rest : Aligned meets src other first next) : Aligned meets src other i j

/-- The same without a condition on the offsets. -/
abbrev Matched (src other : Source) : Nat → Nat → Prop :=
  Aligned (fun _ _ => True) src other

section Pass

variable {meets : Nat → Nat → Prop} {src other : Source} {fresh : Bool} {i j : Nat}

theorem lexFrom_blanks {stop : Nat} (ordered : i ≤ stop)
    (blank : ∀ k, i ≤ k → k < stop → src.text.byteIs k Byte.isBlank = true) :
    src.lexFrom fresh i = src.lexFrom fresh stop := by
  induction left : stop - i generalizing i with
  | zero => rw [show i = stop by omega]
  | succ left ih =>
    have here := blank i (Nat.le_refl i) (by omega)
    rw [lexFrom_blank (Text.lt_size_of_byteIs here) (by rw [Text.piece, if_pos here]),
      ih (by omega) (fun k lower upper => blank k (by omega) upper) (by omega)]

/-- The pass meets a span at `j` that is like `s`, with texts that match behind the two. -/
def SpanMatched (meets : Nat → Nat → Prop) (src other : Source) (fresh : Bool) (j : Nat)
    (s : Span) : Prop :=
  ∃ s', other.text.piece other.settings fresh j = .span s' ∧ s'.isComment = s.isComment ∧
    (src.spanToken s).Alike (other.spanToken s') ∧ Aligned meets src other s.stop s'.stop

/-- Tokens that are alike, that start at offsets that meet, with texts that match behind them. -/
structure Twins (meets : Nat → Nat → Prop) (src other : Source) (a b : Token) : Prop where
  alike : a.Alike b
  starts : meets a.start b.start
  stops : Aligned meets src other a.stop b.stop

/-- Two offsets at the same visible byte, with texts that match behind it. -/
structure Faces (meets : Nat → Nat → Prop) (src other : Source) (i j : Nat) : Prop where
  here : meets i j
  same : src.text.byte? i = other.text.byte? j
  inside : i < src.size
  visible : src.text.byteIs i Byte.isBlank = false
  rest : Aligned meets src other (i + 1) (j + 1)

/-- Blanks are skipped on both sides until both texts end or the same visible byte is met. -/
theorem Aligned.skip (matched : Aligned meets src other i j) (fresh : Bool) :
    (src.lexFrom fresh i = [] ∧ other.lexFrom fresh j = []) ∨
      ∃ k l, i ≤ k ∧ Faces meets src other k l ∧ src.lexFrom fresh i = src.lexFrom fresh k ∧
        other.lexFrom fresh j = other.lexFrom fresh l := by
  induction matched with
  | done _ => exact Or.inl ⟨lexFrom_end (Nat.le_refl _), lexFrom_end (Nat.le_refl _)⟩
  | @byte i j b here left right rest ih =>
    cases blank : Byte.isBlank b with
    | false =>
      refine Or.inr ⟨i, j, Nat.le_refl i, ⟨here, ?_, ?_, ?_, rest⟩, rfl, rfl⟩
      · rw [left, right]
      · exact Text.lt_size_of_byte? left
      · rw [Text.byteIs_of_byte? left, blank]
    | true =>
      have first : src.lexFrom fresh i = src.lexFrom fresh (i + 1) :=
        lexFrom_blanks (Nat.le_succ i) fun k lower upper => by
          rw [show k = i by omega, Text.byteIs_of_byte? left, blank]
      have second : other.lexFrom fresh j = other.lexFrom fresh (j + 1) :=
        lexFrom_blanks (Nat.le_succ j) fun k lower upper => by
          rw [show k = j by omega, Text.byteIs_of_byte? right, blank]
      rw [first, second]
      rcases ih with ended | ⟨k, l, later, faces, reached⟩
      · exact Or.inl ended
      · exact Or.inr ⟨k, l, by omega, faces, reached⟩
  | line movable ordered indent _ rest ih =>
    rw [lexFrom_blanks movable.ordered fun k lower upper =>
        Text.byteIs_mono (movable.indent k lower upper) Byte.isBlank_of_isIndent,
      lexFrom_blanks ordered fun k lower upper =>
        Text.byteIs_mono (indent k lower upper) Byte.isBlank_of_isIndent]
    rcases ih with ended | ⟨k, l, later, faces, reached⟩
    · exact Or.inl ended
    · exact Or.inr ⟨k, l, Nat.le_trans movable.ordered later, faces, reached⟩

/-- Where no line may move, the texts match byte for byte. -/
theorem Aligned.window (matched : Aligned meets src other i j) {n : Nat} (within : i + n ≤ src.size)
    (fixed : ∀ start first, src.Movable start first → i ≤ start → i + n < start) :
    Text.Window src.text other.text i j n ∧ Aligned meets src other (i + n) (j + n) := by
  induction matched generalizing n with
  | done here =>
    obtain rfl : n = 0 := by omega
    refine ⟨⟨Nat.le_refl _, Nat.le_refl _, fun k _ => ?_⟩, .done here⟩
    have left : src.text.byte? (src.size + k) = none :=
      Text.byte?_eq_none_iff.mpr (Nat.le_add_right _ k)
    have right : other.text.byte? (other.size + k) = none :=
      Text.byte?_eq_none_iff.mpr (Nat.le_add_right _ k)
    rw [left, right]
  | @byte i j b here left right rest ih =>
    cases n with
    | zero =>
      refine ⟨⟨within, Nat.le_of_lt (Text.lt_size_of_byte? right), fun k first => ?_⟩,
        .byte here left right rest⟩
      rw [Nat.le_zero.mp first, Nat.add_zero, Nat.add_zero, left, right]
    | succ n =>
      obtain ⟨window, later⟩ := ih (n := n) (by omega) fun start first movable lower => by
        have := fixed start first movable (by omega)
        omega
      rw [Nat.add_right_comm, Nat.add_right_comm j] at later
      exact ⟨window.cons (left.trans right.symm), later⟩
  | line movable ordered indent _ rest ih =>
    have := fixed _ _ movable (Nat.le_refl _)
    omega

theorem rdropWhile_cons_congr {p : UInt8 → Bool} {front back : List UInt8} (b : UInt8)
    (same : front.rdropWhile p = back.rdropWhile p) :
    (b :: front).rdropWhile p = (b :: back).rdropWhile p := by
  rw [List.rdropWhile, List.rdropWhile, List.reverse_inj] at same
  rw [List.rdropWhile, List.rdropWhile, List.reverse_cons, List.reverse_cons,
    List.dropWhile_append, List.dropWhile_append, same]

/-- The semicolon that ends a comment, where the comment is not to be changed but for the blanks in
front of that semicolon. -/
theorem Aligned.semicolon (matched : Aligned meets src other i j) {stop : Nat} (lower : i ≤ stop)
    (here : src.text.byteIs stop Byte.isSemicolon = true)
    (before : ∀ k, i ≤ k → k < stop → src.text.byteIs k Byte.isSemicolon = false)
    (free : ∀ start first, src.Movable start first → i ≤ start → stop ≤ first) :
    ∃ last, other.text.semicolon? j = some last ∧ Aligned meets src other stop last ∧
      (src.text.slice i stop).toList.rdropWhile Byte.isBlank =
        (other.text.slice j last).toList.rdropWhile Byte.isBlank := by
  induction matched with
  | done _ =>
    have inside : stop < src.size := Text.lt_size_of_byteIs here
    omega
  | @byte i j b met left right rest ih =>
    have same : ∀ p, other.text.byteIs j p = src.text.byteIs i p := fun p => by
      rw [Text.byteIs_of_byte? right, Text.byteIs_of_byte? left]
    rcases Nat.eq_or_lt_of_le lower with rfl | later
    · refine ⟨j, Text.semicolon?_eq_some_iff.mpr ⟨Nat.le_refl j, ?_, by omega⟩,
        .byte met left right rest, ?_⟩
      · rwa [same]
      · simp [Text.toList_slice]
    · obtain ⟨last, found, reached, trimmed⟩ := ih later
        (fun k lower upper => before k (by omega) upper)
        (fun start first movable lower => free start first movable (by omega))
      obtain ⟨after, closes, between⟩ := Text.semicolon?_eq_some_iff.mp found
      refine ⟨last, Text.semicolon?_eq_some_iff.mpr ⟨by omega, closes, fun k lower upper => ?_⟩,
        reached, ?_⟩
      · rcases Nat.eq_or_lt_of_le lower with rfl | beyond
        · rw [same]
          exact before i (Nat.le_refl i) later
        · exact between k beyond upper
      · rw [Text.toList_slice_cons left later, Text.toList_slice_cons right after]
        exact rdropWhile_cons_congr b trimmed
  | @line i j first next movable ordered spaces _ rest ih =>
    -- The line moves the semicolon itself, and all before it on the line is blank.
    have reach := free i first movable (Nat.le_refl i)
    have blank : ∀ k, j ≤ k → k < next → other.text.byteIs k Byte.isBlank = true :=
      fun k lower upper => Text.byteIs_mono (spaces k lower upper) Byte.isBlank_of_isIndent
    have indent : ∀ k, i ≤ k → k < first → src.text.byteIs k Byte.isBlank = true :=
      fun k lower upper => Text.byteIs_mono (movable.indent k lower upper) Byte.isBlank_of_isIndent
    obtain rfl : first = stop := by
      apply Nat.le_antisymm _ reach
      apply Nat.le_of_not_lt
      intro short
      rw [Text.byteIs_apart (indent stop lower short) Byte.isSemicolon_of_isBlank] at here
      cases here
    obtain ⟨last, found, reached, trimmed⟩ := ih (Nat.le_refl _) (by omega)
      fun start first movable lower => free start first movable (by omega)
    obtain ⟨after, closes, between⟩ := Text.semicolon?_eq_some_iff.mp found
    refine ⟨last, Text.semicolon?_eq_some_iff.mpr ⟨by omega, closes, fun k lower upper => ?_⟩,
      reached, ?_⟩
    · by_cases early : k < next
      · exact Text.byteIs_apart (blank k lower early) Byte.isSemicolon_of_isBlank
      · exact between k (by omega) upper
    · have bare : ∀ b ∈ (other.text.slice next last).toList, Byte.isBlank b = true :=
        List.rdropWhile_eq_nil_iff.mp (by rw [← trimmed]; simp [Text.toList_slice])
      rw [List.rdropWhile_eq_nil_iff.mpr, List.rdropWhile_eq_nil_iff.mpr]
      · intro b listed
        obtain ⟨k, lower, upper, found⟩ := Text.mem_slice.mp listed
        by_cases early : k < next
        · rw [← Text.byteIs_of_byte? found Byte.isBlank]
          exact blank k lower early
        · exact bare b (Text.mem_slice.mpr ⟨k, by omega, upper, found⟩)
      · intro b listed
        obtain ⟨k, lower, upper, found⟩ := Text.mem_slice.mp listed
        rw [← Text.byteIs_of_byte? found Byte.isBlank]
        exact indent k lower upper

namespace Faces

variable (faces : Faces meets src other i j)

include faces

theorem window {stop : Nat} (lower : i < stop) (upper : stop ≤ src.size)
    (unmoved : src.Unmoved i stop) :
    Text.Window src.text other.text i j (stop - i) ∧
      Aligned meets src other stop (j + (stop - i)) := by
  obtain ⟨n, rfl⟩ := Nat.exists_eq_add_of_lt lower
  have still : ∀ start first, src.Movable start first → i + 1 ≤ start → i + 1 + n < start := by
    intro start first movable after
    have := unmoved start first movable after
    omega
  obtain ⟨window, later⟩ := faces.rest.window (by omega) still
  rw [Nat.add_assoc i, Nat.add_sub_cancel_left]
  rw [Nat.add_right_comm, Nat.add_assoc, Nat.add_right_comm j, Nat.add_assoc j] at later
  exact ⟨window.cons faces.same, later⟩

/-- No line starts within a code token or right behind it. -/
theorem unmoved_code : src.Unmoved i (src.text.seek (!Byte.isInner ·) (i + 1)) := by
  intro start first movable after
  apply Nat.lt_of_not_le
  intro within
  have newline := movable.newline after
  rcases Nat.eq_or_lt_of_le (Nat.le_sub_one_of_lt after) with rfl | later
  · rw [Text.byteIs_anti faces.visible Byte.isBlank_of_isNewline] at newline
    cases newline
  · have inner : src.text.byteIs (start - 1) (!Byte.isInner ·) = false :=
      Text.seek_before (show i + 1 ≤ start - 1 from later) (by omega)
    rw [Text.byteIs_mono newline fun b held => by
      rw [Byte.isInner_of_isBlank (Byte.isBlank_of_isNewline b held), Bool.not_false]] at inner
    cases inner

/-- No line starts right behind a visible byte, so the texts agree on the next byte too. -/
theorem near : Text.Window src.text other.text i j 1 := by
  have unmoved : src.Unmoved i (i + 1) :=
    faces.unmoved_code.mono (src.text.le_seek _ _ faces.inside)
  have near := (faces.window (Nat.lt_succ_self i) faces.inside unmoved).1
  rwa [Nat.succ_sub (Nat.le_refl i), Nat.sub_self] at near

/-- The pass reads the same code token in both texts. -/
theorem token : ∃ m, 0 < m ∧ (src.text.tokenAt i).stop = i + m ∧
    (other.text.tokenAt j).stop = j + m ∧ (src.text.tokenAt i).Alike (other.text.tokenAt j) ∧
    Aligned meets src other (i + m) (j + m) := by
  have unmoved := faces.unmoved_code
  have lower : i + 1 ≤ src.text.seek (!Byte.isInner ·) (i + 1) := src.text.le_seek _ _ faces.inside
  have upper : src.text.seek (!Byte.isInner ·) (i + 1) ≤ src.size := src.text.seek_le_size _ _
  have ends : src.text.byteIs (src.text.seek (!Byte.isInner ·) (i + 1)) Byte.isInner = false := by
    rcases Nat.eq_or_lt_of_le upper with last | inside
    · exact Text.byteIs_past (Nat.le_of_eq last.symm) _
    · exact (Text.byteIs_not_iff.mp (Text.seek_found inside)).2
  -- The window goes on to the first byte that stands in no token, since the lexer may look there.
  obtain ⟨window, -⟩ := faces.window lower upper unmoved
  obtain ⟨kind, m, bound, left, right⟩ := window.shapeAt
    (by rwa [Nat.add_sub_cancel' (by omega)]) (by omega)
  have positive : i < i + m := by
    have := src.text.lt_shapeAt_stop i
    rwa [left] at this
  have later := (faces.window positive (by omega) (unmoved.mono (by omega))).2
  rw [Nat.add_sub_cancel_left] at later
  refine ⟨m, by omega, by rw [tokenAt_stop, left], by rw [tokenAt_stop, right],
    .of_lexeme ?_ ?_, later⟩
  · rw [tokenAt_kind, tokenAt_kind, left, right]
  · rw [Text.tokenAt, Text.tokenAt, left, right]
    exact window.slice bound

/-- A span that no line may move into, or start right behind, is the same in both texts. -/
theorem span_exact (same : other.settings = src.settings) {s : Span}
    (opened : src.text.opening? src.settings fresh i = some s)
    (unmoved : src.Unmoved i s.stop) : SpanMatched meets src other fresh j s := by
  obtain ⟨rfl, lower, upper⟩ := Text.opening?_bounds faces.inside opened
  obtain ⟨window, later⟩ := faces.window lower upper unmoved
  have there := window.opening?_span (by omega) src.settings fresh opened (by omega)
  refine ⟨{ s with start := j, stop := j + (s.stop - s.start) }, ?_, rfl, .of_lexeme rfl ?_, later⟩
  · rw [same]
    exact Text.piece_eq_span (window.byteIs_first _ ▸ faces.visible) there
  · have slices := window.slice (Nat.le_refl _)
    rwa [Nat.add_sub_cancel' (Nat.le_of_lt lower)] at slices

/-- A statement comment keeps all but the blanks in front of its semicolon. -/
theorem span_comment (same : other.settings = src.settings) {s : Span}
    (opened : src.text.opening? src.settings fresh i = some s)
    (kind : s.kind = .statementComment)
    (semicolon : src.text.byteIs s.stop Byte.isSemicolon = true)
    (free : ∀ start first, src.Movable start first → i < start → s.stop ≤ first) :
    SpanMatched meets src other fresh j s := by
  obtain ⟨rfl, noBlock, statement⟩ := Text.opening?_statement opened kind
  rw [Text.opening?_eq_statement noBlock statement] at opened
  cases closes : src.text.semicolon? (i + 1) with
  | none =>
    rw [closes] at opened
    cases opened
    have inside : src.size < src.size := Text.lt_size_of_byteIs semicolon
    omega
  | some stop =>
    rw [closes] at opened
    cases opened
    obtain ⟨lower, here, before⟩ := Text.semicolon?_eq_some_iff.mp closes
    obtain ⟨last, found, reached, trimmed⟩ := faces.rest.semicolon lower here before free
    have after := (Text.semicolon?_eq_some_iff.mp found).1
    obtain ⟨b, left⟩ := Text.exists_byte faces.inside
    have right : other.text.byte? j = some b := faces.same.symm.trans left
    refine ⟨⟨j, last, .statementComment, true⟩, ?_, rfl, ⟨rfl, ?_, ?_⟩, reached⟩
    · rw [same]
      refine Text.piece_eq_span (faces.near.byteIs_first _ ▸ faces.visible) ?_
      rw [Text.opening?_eq_statement (faces.near.opensBlockComment Nat.one_pos ▸ noBlock)
        (faces.near.opensStatementComment Nat.one_pos _ ▸ statement), found]
      rfl
    · show (src.text.slice i stop).toList.rdropWhile _ =
        (other.text.slice j last).toList.rdropWhile _
      rw [Text.toList_slice_cons left lower, Text.toList_slice_cons right after]
      exact rdropWhile_cons_congr b trimmed
    · intro block
      have first : (src.text.slice i stop).byteIs 0 (· == Byte.slash) = false := by
        rw [Text.byteIs_slice_first lower, Text.opensStatementComment_first statement]
      have comment : (src.spanToken (.upTo src.text i .statementComment (some stop))
          ).isStatementComment = true := congrArg (!·) first
      rw [block] at comment
      cases comment

/-- A comment or a literal, where no line that may move lies inside it. -/
theorem span (same : other.settings = src.settings) {s : Span}
    (opened : src.text.opening? src.settings fresh i = some s)
    (free : ∀ start first, src.Movable start first → i < start →
      s.stop ≤ first ∧ s.stop < src.size) :
    SpanMatched meets src other fresh j s := by
  rcases Text.opening?_end opened with ⟨-, last⟩ | ⟨kind, semicolon⟩ | closer
  · refine faces.span_exact same opened fun start first movable after => ?_
    have inside : s.stop < src.text.size := (free start first movable after).2
    omega
  · exact faces.span_comment same opened kind semicolon fun start first movable after =>
      (free start first movable after).1
  · -- The closing sign is no blank and no newline, so no line starts before it or right behind it.
    refine faces.span_exact same opened fun start first movable after => ?_
    have reach := (free start first movable after).1
    have visible : src.text.byteIs (s.stop - 1) Byte.isBlank = false :=
      Text.byteIs_apart closer Text.isBlank_of_isCloser
    apply Nat.lt_of_not_le
    intro within
    rcases Nat.eq_or_lt_of_le within with rfl | early
    · have newline := movable.newline after
      rw [Text.byteIs_anti visible Byte.isBlank_of_isNewline] at newline
      cases newline
    · have indent := movable.indent (s.stop - 1) (by omega) (by omega)
      rw [Text.byteIs_anti visible Byte.isBlank_of_isIndent] at indent
      cases indent

/-- One step of the pass over both texts. -/
theorem step (same : other.settings = src.settings)
    (listed : src.lexFrom fresh i <:+ src.lexFrom true 0) :
    ∃ a b next, i < a.stop ∧ src.lexFrom fresh i = a :: src.lexFrom next a.stop ∧
      other.lexFrom fresh j = b :: other.lexFrom next b.stop ∧ Twins meets src other a b := by
  have inside : j < other.size := (faces.near.lt_size_iff (Nat.zero_le 1)).mp faces.inside
  have agrees : src.text.opening? src.settings fresh i = none →
      other.text.piece other.settings fresh j = src.text.piece src.settings fresh i := by
    rw [same]
    exact faces.near.piece_eq Nat.one_pos src.settings fresh
  cases met : src.text.piece src.settings fresh i with
  | blank =>
    cases Text.met_of_piece met with
    | blank here =>
      rw [faces.visible] at here
      cases here
  | span s =>
    have pass := lexFrom_span faces.inside met
    rw [pass] at listed
    obtain ⟨recorded, member, shown⟩ := src.lexFrom_tiling.exists_span
      (listed.subset List.mem_cons_self) (src.spanToken_isSpan s)
    have start : recorded.start = s.start := congrArg Token.start shown
    have stop : recorded.stop = s.stop := congrArg Token.stop shown
    obtain ⟨rfl, lower, -⟩ := Text.piece_span_bounds faces.inside met
    cases Text.met_of_piece met with
    | span _ opened =>
      obtain ⟨s', there, comment, alike, later⟩ := faces.span same opened
        fun line first movable after => stop ▸ movable.free recorded member (start ▸ after)
      have starts : meets s.start s'.start := by
        rw [(Text.piece_span_bounds inside there).1]
        exact faces.here
      refine ⟨src.spanToken s, other.spanToken s', _, lower, pass, ?_, alike, starts, later⟩
      rw [lexFrom_span inside there, comment]
      rfl
  | terminator =>
    cases Text.met_of_piece met with
    | terminator closed here =>
      obtain ⟨m, -, left, right, alike, later⟩ := faces.token
      obtain rfl : m = 1 := by
        rw [(tokenAt_semicolon here).2] at left
        omega
      refine ⟨src.text.tokenAt i, other.text.tokenAt j, true, by omega, ?_, ?_, alike, faces.here,
        by rwa [left, right]⟩
      · rw [lexFrom_terminator faces.inside met, left]
      · rw [lexFrom_terminator inside ((agrees closed).trans met), right]
  | code =>
    cases Text.met_of_piece met with
    | code _ closed _ =>
      obtain ⟨m, positive, left, right, alike, later⟩ := faces.token
      exact ⟨src.text.tokenAt i, other.text.tokenAt j, false, by omega,
        lexFrom_code faces.inside met, lexFrom_code inside ((agrees closed).trans met), alike,
        faces.here, by rwa [left, right]⟩

end Faces

/-- The whole pass: where the texts match, the tokens are twins one by one. -/
theorem Aligned.tokens (same : other.settings = src.settings)
    (matched : Aligned meets src other i j)
    (listed : src.lexFrom fresh i <:+ src.lexFrom true 0) :
    List.Forall₂ (Twins meets src other) (src.lexFrom fresh i) (other.lexFrom fresh j) := by
  induction left : src.size - i using Nat.strongRecOn generalizing fresh i j with
  | ind left ih =>
    rcases matched.skip fresh with ⟨first, second⟩ | ⟨k, l, lower, faces, first, second⟩
    · rw [first, second]
      exact .nil
    · rw [first] at listed
      obtain ⟨a, b, next, later, front, back, twins⟩ := faces.step same listed
      have inside := faces.inside
      rw [first, second, front, back]
      rw [front] at listed
      exact .cons twins (ih (src.size - a.stop) (by omega) twins.stops
        ((List.suffix_cons a _).trans listed) rfl)

theorem Matched.alike (same : other.settings = src.settings) (matched : Matched src other i j)
    (listed : src.lexFrom fresh i <:+ src.lexFrom true 0) :
    List.Forall₂ Token.Alike (src.lexFrom fresh i) (other.lexFrom fresh j) :=
  (Aligned.tokens same matched listed).imp fun _ _ twins => twins.alike

end Pass

section Move

variable {meets : Nat → Nat → Prop} {src other : Source} {i j : Nat}

theorem byte?_of_drop {t : Text} {bytes : List UInt8} (view : t.toList.drop i = bytes) (k : Nat) :
    t.byte? (i + k) = bytes[k]? := by
  rw [Text.byte?_eq_getElem?, ← view, List.getElem?_drop]

theorem length_copied {t : Text} {stop : Nat} (within : stop ≤ t.size) :
    ((t.toList.take stop).drop i).length = stop - i := by
  rw [List.length_drop, List.length_take, Text.length_toList, Nat.min_eq_left within]

/-- Bytes that are copied match. -/
theorem Aligned.copy {n : Nat} (same : ∀ k < n, meets (i + k) (j + k) ∧
      ∃ b, src.text.byte? (i + k) = some b ∧ other.text.byte? (j + k) = some b)
    (rest : Aligned meets src other (i + n) (j + n)) : Aligned meets src other i j := by
  induction n generalizing i j with
  | zero => exact rest
  | succ n ih =>
    obtain ⟨here, b, left, right⟩ := same 0 (Nat.succ_pos n)
    refine .byte here left right (ih (fun k bound => ?_) ?_)
    · rw [Nat.add_assoc, Nat.add_comm 1, Nat.add_assoc j, Nat.add_comm 1]
      exact same (k + 1) (by omega)
    · rwa [Nat.add_assoc, Nat.add_comm 1, Nat.add_assoc j, Nat.add_comm 1]

theorem Matched.suffix (within : i ≤ src.text.size) (inside : j ≤ other.text.size)
    (view : other.text.toList.drop j = src.text.toList.drop i) : Matched src other i j := by
  have lengths := congrArg List.length view
  simp only [List.length_drop, Text.length_toList] at lengths
  refine .copy (n := src.text.size - i) (fun k bound => ?_) ?_
  · obtain ⟨b, found⟩ := Text.exists_byte (t := src.text) (i := i + k) (by omega)
    refine ⟨trivial, b, found, ?_⟩
    rw [byte?_of_drop view, List.getElem?_drop, ← Text.byte?_eq_getElem?, found]
  · rw [Nat.add_sub_cancel' within, ← lengths, Nat.add_sub_cancel' inside]
    exact .done trivial

/-- The bytes up to a line that moves are copied, and spaces stand for its indentation. -/
theorem Matched.moved {start first n : Nat} {bytes : List UInt8} (movable : src.Movable start first)
    (within : i ≤ start)
    (view : other.text.toList.drop j =
      (src.text.toList.take start).drop i ++ (List.replicate n Byte.space ++ bytes))
    (rest : Matched src other first (j + (start - i) + n)) : Matched src other i j := by
  have inside : start ≤ src.text.size := Nat.le_trans movable.ordered movable.within
  have copied := length_copied (i := i) inside
  refine .copy (n := start - i) (fun k bound => ?_) ?_
  · obtain ⟨b, found⟩ := Text.exists_byte (t := src.text) (i := i + k) (by omega)
    refine ⟨trivial, b, found, ?_⟩
    rw [byte?_of_drop view, List.getElem?_append_left (by omega), List.getElem?_drop,
      List.getElem?_take_of_lt (by omega), ← Text.byte?_eq_getElem?, found]
  · rw [Nat.add_sub_cancel' within]
    refine .line movable (Nat.le_add_right _ n) (fun k lower upper => ?_) trivial rest
    obtain ⟨m, rfl⟩ := Nat.exists_eq_add_of_le lower
    have found : other.text.byte? (j + (start - i) + m) = some Byte.space := by
      rw [Nat.add_assoc, byte?_of_drop view, List.getElem?_append_right (by omega), copied,
        Nat.add_sub_cancel_left, List.getElem?_append_left (by rw [List.length_replicate]; omega),
        List.getElem?_replicate_of_lt (by omega)]
    rw [Text.byteIs_of_byte? found]
    rfl

/-- A text with moved lines matches the text, when each line that is moved may be moved. -/
theorem matched_moveFrom (lines : List PlacedLine)
    (movable : ∀ l ∈ lines, l.isMoved = true →
      src.Movable l.offset (src.text.firstNonBlank l.offset))
    (within : i ≤ src.text.size) (inside : j ≤ other.text.size)
    (view : other.text.toList.drop j = (src.text.moveFrom i lines).toList) :
    Matched src other i j := by
  induction lines generalizing i j with
  | nil =>
    rw [Text.moveFrom, Text.toList_slice, List.take_of_length_le (by simp)] at view
    exact .suffix within inside view
  | cons l rest ih =>
    have later := fun l listed => movable l (List.mem_cons_of_mem _ listed)
    rw [Text.moveFrom] at view
    split at view
    · rename_i guard
      rw [Bool.and_eq_true, decide_eq_true_eq] at guard
      have line := movable l List.mem_cons_self guard.1
      have bound : src.text.firstNonBlank l.offset ≤ src.text.size := line.within
      have ordered := line.ordered
      rw [Text.toList_append, Text.toList_append, Text.toList_slice, Text.toList_spaces,
        List.append_assoc] at view
      have copied := length_copied (t := src.text) (i := i) (show l.offset ≤ _ by omega)
      have lengths := congrArg List.length view
      simp only [List.length_append, copied, List.length_drop, Text.length_toList,
        List.length_replicate] at lengths
      refine .moved line guard.2 view (ih later bound (by omega) ?_)
      rw [← List.drop_drop, ← List.drop_drop, view, ← copied, List.drop_left,
        List.drop_left' (List.length_replicate ..)]
    · exact ih later within inside view

end Move

end Source
end SasLayout
