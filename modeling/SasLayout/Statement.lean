import SasLayout.Source

set_option autoImplicit false

/-!
Statements end after a semicolon of the code. One starts at the first character that is not blank
after the semicolon before it; the ends of the text bound the first and the last.
-/
namespace SasLayout.Source

/-- The start of the statement that holds the boundary `offset`. -/
def statementStart (src : Source) (offset : Nat) : Nat :=
  src.text.seek (!Byte.isBlank ·) (src.afterTerminator offset)

/-- The end of the statement that holds the boundary `offset`. -/
def statementStop (src : Source) (offset : Nat) : Nat :=
  match src.map.nextTerminator? offset with
  | some t => t + 1
  | none => src.size

def beginningOfStatement (src : Source) (offset : Nat) : Except OutOfRange Nat :=
  return src.statementStart (← src.checkOffset offset)

def endOfStatement (src : Source) (offset : Nat) : Except OutOfRange Nat :=
  return src.statementStop (← src.checkOffset offset)

/-- The statement that holds `offset`; blanks between two statements belong to the second. -/
def statementAt (src : Source) (offset : Nat) : Except OutOfRange Extent := do
  let start ← src.beginningOfStatement offset
  let stop ← src.endOfStatement offset
  return ⟨min start stop, stop⟩

end SasLayout.Source
