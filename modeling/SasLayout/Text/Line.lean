import SasLayout.Text.LineMap

set_option autoImplicit false

/-!
Lines and columns of a text. A line ends before its newline. The numbers of the lines are those of
the line map; where the line of an offset starts and ends is found by a scan from the offset, which
comes to what the map has.
-/
namespace SasLayout.Text

/-- The distance between tab stops. -/
def tabWidth : Nat := 8

def lineCount (t : Text) : Nat :=
  t.lineMap.count

/-- The number of the line that holds `offset`; an offset past the end is on the last line. -/
def lineIndex (t : Text) (offset : Nat) : Nat :=
  t.lineMap.index offset

def lineStart (t : Text) (offset : Nat) : Nat :=
  t.seekBack Byte.isNewline (min offset t.size)

def lineEnd (t : Text) (offset : Nat) : Nat :=
  t.seek Byte.isNewline offset

theorem le_lineEnd {t : Text} {start : Nat} (inside : t.lineEnd start < t.size) :
    start ≤ t.lineEnd start := by
  rcases Nat.lt_or_ge t.size start with past | within
  · unfold lineEnd seek at inside
    grind
  · exact t.le_seek _ start within

/-- The starts of all lines in order. -/
def lineStarts (t : Text) : List Nat :=
  t.lineMap.starts.toList

/-- Where line `line` starts, if there are so many lines. -/
def startOfLine? (t : Text) (line : Nat) : Option Nat :=
  t.lineMap.start? line

def endOfLine? (t : Text) (line : Nat) : Option Nat :=
  t.lineMap.stop? line

/-- The column after a byte written at `column`: a tab goes to the next tab stop and any other
character takes one column. -/
def advance (column : Nat) (b : UInt8) : Nat :=
  if Byte.isTab b then column + tabWidth - column % tabWidth
  else if Byte.isContinuation b then column
  else column + 1

/-- The columns that a text takes when written from column zero. -/
def width (t : Text) : Nat :=
  t.toList.foldl advance 0

/-- The column of the character at `offset`. -/
def columnOf (t : Text) (offset : Nat) : Nat :=
  (t.slice (t.lineStart (t.floor offset)) (t.floor offset)).width

/-- The first character other than space and tab on the line of `offset`, or the line's end. -/
def firstNonBlank (t : Text) (offset : Nat) : Nat :=
  t.seek (!Byte.isIndent ·) (t.lineStart offset)

/-- The column at which the line of `offset` begins to be written. -/
def indentation (t : Text) (offset : Nat) : Nat :=
  t.columnOf (t.firstNonBlank offset)

end SasLayout.Text
