import SasLayout.Bisect
import SasLayout.Settings
import SasLayout.Text

set_option autoImplicit false

/-!
The span map of a text: its comments and string literals, and the semicolons that stand in neither.
One pass from the start builds it; every question afterwards is a bisection.
-/
namespace SasLayout

inductive Region where
  | code
  | comment
  | string
deriving DecidableEq, Repr, Inhabited

inductive Span.Kind where
  /-- From a slash and a star to the next star and slash. -/
  | blockComment
  /-- From a star at the start of a statement up to, and without, the next semicolon. -/
  | statementComment
  | stringLiteral
deriving DecidableEq, Repr, Inhabited

def Span.Kind.region : Span.Kind → Region
  | blockComment => .comment
  | statementComment => .comment
  | stringLiteral => .string

/-- A comment or a string literal with its delimiters. -/
structure Span where
  start : Nat
  stop : Nat
  kind : Span.Kind
  /-- False when the text ends before the span does. -/
  terminated : Bool
deriving DecidableEq, Repr, Inhabited

namespace Span

def region (s : Span) : Region :=
  s.kind.region

def isComment (s : Span) : Bool :=
  s.region = .comment

/-- The span from `start` to the place `stop?`, or to the end of the text when there is none. -/
def upTo (t : Text) (start : Nat) (kind : Kind) : Option Nat → Span
  | some stop => ⟨start, stop, kind, true⟩
  | none => ⟨start, t.size, kind, false⟩

end Span

namespace Text

/-- The offset after the first star and slash at `i` or later. -/
def commentClose? (t : Text) (i : Nat) : Option Nat :=
  if i < t.size then
    if t.byteIs i (· == Byte.star) && t.byteIs (i + 1) (· == Byte.slash) then
      some (i + 2)
    else t.commentClose? (i + 1)
  else none
termination_by t.size - i

/-- The offset of the first semicolon at `i` or later. -/
def semicolon? (t : Text) (i : Nat) : Option Nat :=
  if t.seek Byte.isSemicolon i < t.size then some (t.seek Byte.isSemicolon i) else none

/-- The offset after the quote that closes a literal whose inside goes on at `i`. Two quotes in a
row stand for one inside the literal. -/
def quoteClose? (t : Text) (quote : UInt8) (i : Nat) : Option Nat :=
  if i < t.size then
    if t.byteIs i (· == quote) then
      if t.byteIs (i + 1) (· == quote) then t.quoteClose? quote (i + 2) else some (i + 1)
    else t.quoteClose? quote (i + 1)
  else none
termination_by t.size - i

end Text

/-- What the pass over a text meets at an offset outside all spans before it. -/
inductive Piece where
  | blank
  | span (s : Span)
  | terminator
  | code
deriving DecidableEq, Repr

namespace Text

def opensBlockComment (t : Text) (i : Nat) : Bool :=
  t.byteIs i (· == Byte.slash) && t.byteIs (i + 1) (· == Byte.star)

/-- Whether the byte at `i` begins a comment when a statement starts there. -/
def opensStatementComment (t : Text) (settings : LexicalSettings) (i : Nat) : Bool :=
  t.byteIs i (· == Byte.star) ||
    (settings.macroComments && t.byteIs i (· == Byte.percent) &&
      t.byteIs (i + 1) (· == Byte.star))

def opensLiteral (t : Text) (settings : LexicalSettings) (i : Nat) : Bool :=
  t.byteIs i fun b => b == Byte.singleQuote || (settings.doubleQuotes && b == Byte.doubleQuote)

/-- The span that opens at `i`, where `fresh` says that the statement at hand has no code yet. -/
def opening? (t : Text) (settings : LexicalSettings) (fresh : Bool) (i : Nat) : Option Span :=
  if t.opensBlockComment i then
    some (.upTo t i .blockComment (t.commentClose? (i + 2)))
  else if fresh && t.opensStatementComment settings i then
    some (.upTo t i .statementComment (t.semicolon? (i + 1)))
  else if t.opensLiteral settings i then
    some (.upTo t i .stringLiteral ((t.byte? i).bind (t.quoteClose? · (i + 1))))
  else none

def piece (t : Text) (settings : LexicalSettings) (fresh : Bool) (i : Nat) : Piece :=
  if t.byteIs i Byte.isBlank then .blank
  else
    match t.opening? settings fresh i with
    | some s => .span s
    | none => if t.byteIs i Byte.isSemicolon then .terminator else .code

theorem commentClose?_bounds {t : Text} {i stop : Nat} (found : t.commentClose? i = some stop) :
    i + 2 ≤ stop ∧ stop ≤ t.size := by
  fun_induction commentClose? t i with
  | case1 i _ both =>
    cases found
    simp only [Bool.and_eq_true, byteIs] at both
    have inside : i + 1 < t.size := by
      apply Classical.byContradiction
      intro outside
      simp [show ¬ i + 1 < t.bytes.size from outside] at both
    omega
  | case2 i _ _ ih =>
    have bounds := ih found
    omega
  | case3 => simp at found

theorem semicolon?_bounds {t : Text} {i stop : Nat} (found : t.semicolon? i = some stop) :
    i ≤ stop ∧ stop < t.size := by
  unfold semicolon? at found
  split at found
  · rename_i inside
    cases found
    refine ⟨?_, inside⟩
    by_cases within : i ≤ t.size
    · exact t.le_seek _ i within
    · rw [seek, if_neg (by omega)] at inside
      omega
  · simp at found

theorem quoteClose?_bounds {t : Text} {quote : UInt8} {i stop : Nat}
    (found : t.quoteClose? quote i = some stop) : i < stop ∧ stop ≤ t.size := by
  fun_induction quoteClose? t quote i with
  | case1 i _ _ _ ih =>
    have bounds := ih found
    omega
  | case2 i _ _ _ =>
    cases found
    omega
  | case3 i _ _ ih =>
    have bounds := ih found
    omega
  | case4 => simp at found

/-- A span that opens at an offset of the text starts there, is not empty and stays within. -/
theorem opening?_bounds {t : Text} {settings : LexicalSettings} {fresh : Bool} {i : Nat} {s : Span}
    (inside : i < t.size) (opened : t.opening? settings fresh i = some s) :
    s.start = i ∧ i < s.stop ∧ s.stop ≤ t.size := by
  unfold opening? at opened
  split at opened
  · cases opened
    cases close : t.commentClose? (i + 2) with
    | none => exact ⟨rfl, inside, Nat.le_refl _⟩
    | some stop =>
      have bounds := commentClose?_bounds close
      exact ⟨rfl, Nat.lt_of_lt_of_le (by omega) bounds.1, bounds.2⟩
  · split at opened
    · cases opened
      cases close : t.semicolon? (i + 1) with
      | none => exact ⟨rfl, inside, Nat.le_refl _⟩
      | some stop =>
        have bounds := semicolon?_bounds close
        exact ⟨rfl, bounds.1, Nat.le_of_lt bounds.2⟩
    · split at opened
      · cases opened
        cases close : (t.byte? i).bind (t.quoteClose? · (i + 1)) with
        | none => exact ⟨rfl, inside, Nat.le_refl _⟩
        | some stop =>
          obtain ⟨quote, _, closed⟩ := Option.bind_eq_some_iff.mp close
          have bounds := quoteClose?_bounds closed
          exact ⟨rfl, Nat.lt_of_succ_lt bounds.1, bounds.2⟩
      · simp at opened

theorem piece_span_bounds {t : Text} {settings : LexicalSettings} {fresh : Bool} {i : Nat}
    {s : Span} (inside : i < t.size) (met : t.piece settings fresh i = .span s) :
    s.start = i ∧ i < s.stop ∧ s.stop ≤ t.size := by
  unfold piece at met
  split at met
  · cases met
  · split at met
    · rename_i opened
      cases met
      exact opening?_bounds inside opened
    · split at met <;> cases met

end Text

structure SpanMap where
  spans : Array Span
  /-- The semicolons outside all spans. -/
  terminators : Array Nat
deriving DecidableEq, Repr, Inhabited

/-- The lexical state of an offset. -/
structure Context where
  region : Region
  /-- How many brackets opened since the start of the statement are open. -/
  depth : Nat
deriving DecidableEq, Repr

namespace SpanMap

def empty : SpanMap :=
  ⟨#[], #[]⟩

/-- The pass from `i` on. A comment leaves the statement as fresh as it was; a literal and any
other code end its freshness, and a semicolon brings it back. -/
def scan (settings : LexicalSettings) (t : Text) (i : Nat) (fresh : Bool) (spans : Array Span)
    (terminators : Array Nat) : SpanMap :=
  if inside : i < t.size then
    match met : t.piece settings fresh i with
    | .blank => scan settings t (i + 1) fresh spans terminators
    | .span s =>
      have := (Text.piece_span_bounds inside met).2.1
      scan settings t s.stop (fresh && s.isComment) (spans.push s) terminators
    | .terminator => scan settings t (i + 1) true spans (terminators.push i)
    | .code => scan settings t (i + 1) false spans terminators
  else ⟨spans, terminators⟩
termination_by t.size - i

def build (settings : LexicalSettings) (t : Text) : SpanMap :=
  scan settings t 0 true #[] #[]

/-- The span that covers `offset`. -/
def spanAt? (m : SpanMap) (offset : Nat) : Option Span :=
  match Bisect.leading m.spans (·.start ≤ offset) with
  | 0 => none
  | k + 1 =>
    match m.spans[k]? with
    | some s => if offset < s.stop then some s else none
    | none => none

def regionAt (m : SpanMap) (offset : Nat) : Region :=
  match m.spanAt? offset with
  | some s => s.region
  | none => .code

def isCode (m : SpanMap) (offset : Nat) : Bool :=
  (m.spanAt? offset).isNone

/-- The last semicolon of the code before `offset`. -/
def previousTerminator? (m : SpanMap) (offset : Nat) : Option Nat :=
  match Bisect.leading m.terminators (· < offset) with
  | 0 => none
  | k + 1 => m.terminators[k]?

/-- The first semicolon of the code at or after `offset`. -/
def nextTerminator? (m : SpanMap) (offset : Nat) : Option Nat :=
  m.terminators[Bisect.leading m.terminators (· < offset)]?

theorem spanAt?_start_le {m : SpanMap} {offset : Nat} {s : Span}
    (found : m.spanAt? offset = some s) : s.start ≤ offset := by
  unfold spanAt? at found
  split at found
  · simp at found
  · rename_i k counted
    obtain ⟨bounded, before⟩ := Bisect.leading_last counted
    simp only [Array.getElem?_eq_getElem bounded] at found
    split at found
    · cases found
      simpa using before
    · simp at found

theorem spanAt?_lt {m : SpanMap} {offset : Nat} {s : Span} (found : m.spanAt? offset = some s) :
    offset < s.stop := by
  unfold spanAt? at found
  split at found
  · simp at found
  · split at found
    · split at found
      · cases found
        assumption
      · simp at found
    · simp at found

end SpanMap
end SasLayout
