import SasLayout.Settings
import SasLayout.SpanMap
import SasLayout.Text.Search
import SasLayout.Text.WhiteSpace
import SasLayout.Text.Word

set_option autoImplicit false

/-!
The patterns of block keywords. They know nothing of comments and literals: a match is a candidate
that the span map confirms or rejects. Their word edges and white space are those of every script,
not only the lexer's.
-/
namespace SasLayout.Text

def procWord : List UInt8 := (ofString "proc").toList
def dataWord : List UInt8 := (ofString "data").toList
def runWord : List UInt8 := (ofString "run").toList
def quitWord : List UInt8 := (ofString "quit").toList
def macroWord : List UInt8 := (ofString "%macro").toList
def mendWord : List UInt8 := (ofString "%mend").toList

/-- Whether `word` stands at `i` in any case between two word edges. -/
def wholeWordAt (t : Text) (word : List UInt8) (i : Nat) : Bool :=
  t.startsWithLower i word && t.isWordEdge i && t.isWordEdge (i + word.length)

/-- Whether `word` stands at `i` in any case and a word edge follows it. -/
def signWordAt (t : Text) (word : List UInt8) (i : Nat) : Bool :=
  t.startsWithLower i word && t.isWordEdge (i + word.length)

/-- The end of a closing statement whose keyword ends at `i`: white space, then a semicolon or
options that stay on one line and do not begin with an equals sign. -/
def closerStop? (t : Text) (i : Nat) : Option Nat :=
  let first := t.skipWhiteSpace i
  let last := t.seek (fun b => Byte.isSemicolon b || Byte.isNewline b) first
  if t.byteIs first (· != Byte.equals) && t.byteIs last Byte.isSemicolon then some (last + 1)
  else none

theorem lt_closerStop {t : Text} {i stop : Nat} (found : t.closerStop? i = some stop) :
    i < stop := by
  unfold closerStop? at found
  simp only at found
  split at found
  · rename_i both
    have inside := lt_size_of_byteIs (Bool.and_eq_true_iff.mp both).1
    have skipped := t.le_skipWhiteSpace i
    have sought := t.le_seek (fun b => Byte.isSemicolon b || Byte.isNewline b)
      (t.skipWhiteSpace i) (Nat.le_of_lt inside)
    cases found
    omega
  · simp at found

end SasLayout.Text

namespace SasLayout.Pattern

/-- The opening word of a step. -/
def stepOpener : Pattern := fun t i =>
  if t.wholeWordAt Text.procWord i || t.wholeWordAt Text.dataWord i then some 4 else none

/-- The statement that closes a step. -/
def stepCloser (quitCloses : Bool) : Pattern := fun t i =>
  if t.wholeWordAt Text.runWord i then (t.closerStop? (i + 3)).map (· - i)
  else if quitCloses && t.wholeWordAt Text.quitWord i then (t.closerStop? (i + 4)).map (· - i)
  else none

/-- The opening word of a macro definition, and the statement that closes one. -/
def macroKeyword : Pattern := fun t i =>
  if t.signWordAt Text.macroWord i then some 6
  else if t.signWordAt Text.mendWord i then (t.semicolon? (i + 5)).map (· + 1 - i)
  else none

/-- Every opening word and every closing statement. -/
def blockKeyword (quitCloses : Bool) : Pattern := fun t i =>
  match stepOpener t i with
  | some length => some length
  | none =>
    match macroKeyword t i with
    | some length => some length
    | none => stepCloser quitCloses t i

theorem stepOpener_positive : Positive stepOpener := by
  intro t i length found
  unfold stepOpener at found
  split at found
  · cases found
    exact Nat.zero_lt_succ 3
  · simp at found

theorem stepCloser_positive (quitCloses : Bool) : Positive (stepCloser quitCloses) := by
  intro t i length found
  unfold stepCloser at found
  split at found
  · obtain ⟨stop, closed, rfl⟩ := Option.map_eq_some_iff.mp found
    have further := Text.lt_closerStop closed
    omega
  · split at found
    · obtain ⟨stop, closed, rfl⟩ := Option.map_eq_some_iff.mp found
      have further := Text.lt_closerStop closed
      omega
    · simp at found

theorem macroKeyword_positive : Positive macroKeyword := by
  intro t i length found
  unfold macroKeyword at found
  split at found
  · cases found
    exact Nat.zero_lt_succ 5
  · split at found
    · obtain ⟨stop, closed, rfl⟩ := Option.map_eq_some_iff.mp found
      have further := (Text.semicolon?_bounds closed).1
      omega
    · simp at found

theorem blockKeyword_positive (quitCloses : Bool) : Positive (blockKeyword quitCloses) := by
  intro t i length found
  unfold blockKeyword at found
  split at found
  · cases found
    exact stepOpener_positive t i length (by assumption)
  · split at found
    · cases found
      exact macroKeyword_positive t i length (by assumption)
    · exact stepCloser_positive quitCloses t i length found

end SasLayout.Pattern
