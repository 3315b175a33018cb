import SasLayout.Bisect
import SasLayout.Text

set_option autoImplicit false

/-!
A map of the lines of a text. It lists where they start, in order, and bisects that list for the
line of an offset. Lines are counted from zero, and a text that ends in a newline has an empty last
line.
-/
namespace SasLayout

structure LineMap where
  starts : Array Nat
  /-- The size of the text. -/
  size : Nat
deriving DecidableEq, Repr

/-- Adds the starts of the lines behind `i`. -/
def Text.addStarts (t : Text) (i : Nat) (starts : Array Nat) : Array Nat :=
  if i < t.size then
    if t.byteIs i Byte.isNewline then t.addStarts (i + 1) (starts.push (i + 1))
    else t.addStarts (i + 1) starts
  else starts
termination_by t.size - i

def Text.lineMap (t : Text) : LineMap :=
  ⟨t.addStarts 0 #[0], t.size⟩

namespace LineMap

def count (m : LineMap) : Nat :=
  m.starts.size

/-- The index of the line that starts at `offset`, or else where its start would be inserted. -/
def search (m : LineMap) (offset : Nat) : Except Nat Nat :=
  let next := Bisect.leading m.starts (· < offset)
  if m.starts[next]? = some offset then .ok next else .error next

/-- The number of the line that holds `offset`; an offset past the end is on the last line. -/
def index (m : LineMap) (offset : Nat) : Nat :=
  match m.search (min offset m.size) with
  | .ok line => line
  | .error next => next - 1

/-- Where a line starts, if there are so many lines. -/
def start? (m : LineMap) (line : Nat) : Option Nat :=
  m.starts[line]?

/-- Where a line ends, before its newline. -/
def stop? (m : LineMap) (line : Nat) : Option Nat :=
  if m.starts.size ≤ line then none
  else
    match m.starts[line + 1]? with
    | some next => some (next - 1)
    | none => some m.size

end LineMap
end SasLayout
