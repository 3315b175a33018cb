import SasLayout.Configuration
import SasLayout.Text.Line
import SasLayout.Text.WhiteSpace

set_option autoImplicit false

/-! Positions on the command line: an offset, or a line and a column that are counted from one. -/
namespace SasLayout

inductive Position where
  | offset (n : Nat)
  | lineColumn (line column : Nat)
deriving DecidableEq, Repr, Inhabited

inductive PositionError where
  | invalid (written : String)
  | countedFromZero (written : String)
  | pastEnd (line : Nat)
  /-- The sum of a line's start and a column passes the largest number. -/
  | overflow (sum : Nat)
deriving DecidableEq, Repr

def PositionError.message : PositionError → String
  | invalid written => s!"invalid position '{written}'"
  | countedFromZero written => s!"line and column are 1-based in '{written}'"
  | pastEnd line => s!"line {line} is past the end of the file"
  | overflow _ => "attempt to add with overflow"

namespace Position

/-- A number between blanks. -/
def number? (cs : List Char) : Option Nat :=
  Read.number? (Text.trim (String.ofList cs))

/-- The parts before and after the first colon. -/
def splitColon? (cs : List Char) : Option (List Char × List Char) :=
  match cs.dropWhile (· != ':') with
  | [] => none
  | _ :: after => some (cs.takeWhile (· != ':'), after)

def parse (written : String) : Except PositionError Position :=
  match splitColon? written.toList with
  | none =>
    match number? written.toList with
    | some n => .ok (.offset n)
    | none => .error (.invalid written)
  | some (before, after) =>
    match number? before, number? after with
    | some line, some column =>
      if line = 0 || column = 0 then .error (.countedFromZero written)
      else .ok (.lineColumn line column)
    | _, _ => .error (.invalid written)

/-- The offset of a position in a text. A column past the end of its line means that end. -/
def resolve (p : Position) (t : Text) : Except PositionError Nat :=
  match p with
  | offset n => .ok n
  | lineColumn line column =>
    let lines := t.lineMap
    match lines.start? (line - 1) with
    | none => .error (.pastEnd line)
    | some start =>
      let stop := (lines.stop? (line - 1)).getD t.size
      if Limits.number < start + column then .error (.overflow (start + column))
      else .ok (min (start + column - 1) stop)

end Position
end SasLayout
