import SasLayout.Indent

set_option autoImplicit false

/-!
Reindenting a region: the columns for its lines, which share what they compute, and the text with
its lines moved to them. Blank lines are left alone.
-/
namespace SasLayout

/-- A line with its present and its computed column. -/
structure PlacedLine where
  /-- The number of the line, counted from one. -/
  line : Nat
  /-- Where the line starts. -/
  offset : Nat
  current : Nat
  target : Nat
deriving DecidableEq, Repr, Inhabited

def PlacedLine.isMoved (l : PlacedLine) : Bool :=
  l.current != l.target

namespace Text

def spaces (n : Nat) : Text :=
  ⟨⟨Array.replicate n Byte.space⟩⟩

def isBlankLine (t : Text) (start : Nat) : Bool :=
  t.lineEnd start ≤ t.firstNonBlank start

/-- The text from `copied` on with the moved lines at their columns. -/
def moveFrom (t : Text) (copied : Nat) : List PlacedLine → Text
  | [] => t.slice copied t.size
  | l :: rest =>
    if l.isMoved && copied ≤ l.offset then
      ((t.slice copied l.offset).append (spaces l.target)).append
        (t.moveFrom (t.firstNonBlank l.offset) rest)
    else t.moveFrom copied rest

/-- The text with each moved line's indentation replaced by spaces. -/
def moveLines (t : Text) (lines : List PlacedLine) : Text :=
  t.moveFrom 0 lines

end Text

namespace Indenter

open Indent

/-- Adds the line that starts at `start` unless it is blank. -/
def placeLine (ix : Indenter) (start : Nat) (memo : Memo) (placed : Array PlacedLine) :
    Logged (Except IndentError (Memo × Array PlacedLine)) :=
  if ix.text.isBlankLine start then pure (.ok (memo, placed))
  else do
    match ← ix.runLine start memo with
    | .error cause => return .error cause
    | .ok (target, memo) =>
      return .ok (memo,
        placed.push ⟨ix.source.lineMap.index start + 1, start, ix.text.indentation start, target⟩)

/-- Adds the lines from the one that starts at `start` to the one that holds `stop`. -/
def placeLines (ix : Indenter) (stop start : Nat) (memo : Memo) (placed : Array PlacedLine)
    (events : Array Event) : Logged (Except IndentError (Array PlacedLine)) :=
  let next := ix.placeLine start memo placed
  match next.value with
  | .error cause => ⟨.error cause, events ++ next.events⟩
  | .ok (memo, placed) =>
    if more : ix.text.lineEnd start < stop ∧ ix.text.lineEnd start < ix.text.size then
      have := Text.le_lineEnd more.2
      ix.placeLines stop (ix.text.lineEnd start + 1) memo placed (events ++ next.events)
    else ⟨.ok placed, events ++ next.events⟩
termination_by ix.text.size - start

/-- The lines of a region that has been checked. -/
def placeRegion (ix : Indenter) (start stop : Nat) :
    Logged (Except IndentError (Array PlacedLine)) :=
  ix.placeLines (max start stop) (ix.text.lineStart start) [] #[] #[]

/-- The lines from `start` to `stop` that are not blank, with the columns for them. -/
def reindentRegion (ix : Indenter) (start stop : Nat) :
    Logged (Except IndentError (Array PlacedLine)) :=
  match ix.source.checkOffset start, ix.source.checkOffset stop with
  | .error cause, _ => pure (.error (.outOfRange cause))
  | .ok _, .error cause => pure (.error (.outOfRange cause))
  | .ok start, .ok stop => ix.placeRegion start stop

end Indenter
end SasLayout
