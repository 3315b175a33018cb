import SasLayout.Grammar.Builtin
import SasLayout.Indent.Rule
import SasLayout.Indent.Walk
import SasLayout.Statement
import SasLayout.Text.Line

set_option autoImplicit false

/-!
The indentation of a line. Its anchor is found by a walk backward: the opener that a closer pairs
with, the opener around a list of statements, the bracket around a list of arguments, or the start
of the statement that the line continues. The line of the anchor is indented in the same way, so the
result does not depend on the present indentation; only lines that start inside a comment or a
literal keep theirs.
-/
namespace SasLayout

inductive IndentError where
  | outOfRange (cause : OutOfRange)
  | grammar (cause : GrammarError String)
  | recursionLimit (offset limit : Nat)
  | walkLimit (offset limit : Nat)
  /-- A column passes the largest number. -/
  | overflow (column : Nat)
deriving DecidableEq, Repr

namespace IndentError

def message : IndentError → String
  | outOfRange cause => cause.message
  | grammar cause => cause.message
  | recursionLimit offset limit =>
    s!"Indentation depends on more than {limit} enclosing lines at offset {offset}"
  | walkLimit offset limit =>
    s!"Parser took more than {limit} steps scanning back from offset {offset}"
  | overflow _ => "attempt to add with overflow"

def code : IndentError → String
  | outOfRange cause => cause.code
  | grammar cause => cause.code
  | recursionLimit _ _ => Code.recursionLimit
  | walkLimit _ _ => Code.walkLimit
  | overflow _ => Code.internalError

end IndentError

namespace Indent

/-- The columns computed so far, under the starts of their lines. -/
abbrev Memo := List (Nat × Nat)

/-- Computations that know the columns computed so far. -/
abbrev Indenting := StateT Memo (ExceptT IndentError Logged)

end Indent

structure Indenter where
  source : Source
  settings : IndentSettings
  grammar : Grammar String

/-- Where the statement after a semicolon stands. -/
inductive ListContext where
  /-- It follows a statement on a line whose column is known. -/
  | sibling (column : Nat)
  | inside (pos : Nat) (token : String)
  | outermost
deriving DecidableEq, Repr

namespace Indenter

open Indent

def text (ix : Indenter) : Text :=
  ix.source.text

def walk (ix : Indenter) (pos : Nat) (name : String) : Except IndentError Stop :=
  match Indent.walk ix.grammar ix.source ix.settings.limits.steps pos (some name) with
  | some stop => .ok stop
  | none => .error (.walkLimit pos ix.settings.limits.steps)

/-- The known column of the statement after the semicolon at `separator`, when that statement
starts its line. -/
def sibling? (ix : Indenter) (memo : Memo) (separator : Nat) : Option Nat :=
  match ix.source.logicalToken? (separator + 1) .forward with
  | none => none
  | some next =>
    if ix.text.firstNonBlank next.start = next.start then
      memo.lookup (ix.text.lineStart next.start)
    else none

/-- The place of the statement after the semicolon at `separator`, searched from `pos` on. -/
def listContextFrom (ix : Indenter) (memo : Memo) (separator : Nat) :
    (steps pos : Nat) → Except IndentError ListContext
  | 0, _ => .error (.walkLimit separator ix.settings.limits.steps)
  | steps + 1, pos =>
    match ix.walk pos ";" with
    | .error cause => .error cause
    | .ok (.parent pos token _) =>
      if token = ";" then
        match ix.sibling? memo pos with
        | some column => .ok (.sibling column)
        | none => ix.listContextFrom memo separator steps pos
      else .ok (.inside pos token)
    | .ok (.opener pos _) => ix.listContextFrom memo separator steps pos
    | .ok (.skipped pos) => ix.listContextFrom memo separator steps pos
    | .ok .boundary => .ok .outermost

def listContext (ix : Indenter) (memo : Memo) (separator : Nat) :
    Except IndentError ListContext :=
  ix.listContextFrom memo separator ix.settings.limits.steps separator

/-- The bracket around the list with a comma at `separator`, searched from `pos` on. -/
def bracketFrom (ix : Indenter) (separator : Nat) :
    (steps pos : Nat) → Except IndentError (Option Extent)
  | 0, _ => .error (.walkLimit separator ix.settings.limits.steps)
  | steps + 1, pos =>
    match ix.walk pos "," with
    | .error cause => .error cause
    | .ok (.parent pos token _) =>
      if token = "," then ix.bracketFrom separator steps pos
      else if token = "(" then .ok (some ⟨pos, pos + 1⟩)
      else .ok none
    | .ok _ => .ok none

def bracketAround (ix : Indenter) (separator : Nat) : Except IndentError (Option Extent) :=
  ix.bracketFrom separator ix.settings.limits.steps separator

section

variable (ix : Indenter) (columnOfLine : Nat → Indenting Nat)

/-- The indentation of the line that holds `pos`. -/
def lineColumn (pos : Nat) : Indenting Nat :=
  columnOfLine (ix.text.lineStart pos)

/-- The column that `pos` gets once its line is indented. -/
def alignedColumn (pos : Nat) : Indenting Nat := do
  let column ← ix.lineColumn columnOfLine pos
  return column + (ix.text.columnOf pos - ix.text.indentation pos)

def place (anchor : Extent) : Action → Indenting Nat
  | .basic units => do
    return (← ix.lineColumn columnOfLine anchor.start) + units * ix.settings.width
  | .continuation => do
    return (← ix.lineColumn columnOfLine anchor.start) +
      ix.settings.continuationUnits * ix.settings.width
  | .inherit => ix.lineColumn columnOfLine anchor.start
  | .alignAnchor => ix.alignedColumn columnOfLine anchor.start
  | .alignNext =>
    match ix.source.logicalToken? anchor.stop .forward with
    | some next =>
      if ix.text.lineStart next.start = ix.text.lineStart anchor.start then
        ix.alignedColumn columnOfLine next.start
      else return (← ix.lineColumn columnOfLine anchor.start) + ix.settings.width
    | none => return (← ix.lineColumn columnOfLine anchor.start) + ix.settings.width

/-- The column of a line that continues the statement around `pos`. -/
def continuation (pos : Nat) : Indenting Nat :=
  let start := ix.source.statementStart pos
  ix.place columnOfLine ⟨start, start⟩ .continuation

/-- The opener that the token pairs with, for closers and operators. -/
def partner? (tok : Token) : Except IndentError (Option Nat) :=
  let name := tok.grammarName
  match ix.grammar.category name with
  | .closer | .binaryOperator =>
    match ix.walk tok.start name with
    | .error cause => .error cause
    | .ok (.opener pos _) => .ok (some pos)
    | .ok _ => .ok none
  | _ => .ok none

/-- The anchor and the action that the first token of a line asks for. -/
def leadingAnchor? (tok : Token) (lineStart : Nat) :
    Except IndentError (Option (Extent × Action)) :=
  let name := tok.grammarName
  let category := ix.grammar.category name
  let action (default : Action) := (action? .before name category).getD default
  match ix.partner? tok with
  | .error cause => .error cause
  | .ok (some pos) => .ok (some (⟨pos, pos⟩, action .inherit))
  | .ok none =>
    if category = .separator && name == "," then
      (ix.bracketAround tok.start).map (·.map fun bracket => (bracket, action .alignAnchor))
    else if category = .separator || category = .binaryOperator then
      let start := ix.source.statementStart tok.start
      if lineStart ≤ start then .ok none
      else .ok (some (⟨start, start⟩, action .continuation))
    else .ok none

/-- The column of a line after a semicolon. -/
def afterSemicolon (separator : Nat) : Indenting Nat := do
  match ← ix.listContext (← get) separator with
  | .sibling column => return column
  | .outermost => return 0
  | .inside pos token =>
    let action := (action? .after token (ix.grammar.category token)).getD (.basic 1)
    ix.place columnOfLine ⟨pos, pos + token.utf8ByteSize⟩ action

/-- The column of a line by the token that ends the code before it. -/
def afterToken (previous : Token) : Indenting Nat := do
  let name := previous.grammarName
  let category := ix.grammar.category name
  if name = ";" then ix.afterSemicolon columnOfLine previous.start
  else if name = "," then
    match ← ix.bracketAround previous.start with
    | some bracket =>
      ix.place columnOfLine bracket ((action? .element name category).getD .alignNext)
    | none => ix.continuation columnOfLine previous.start
  else
    match action? .after name category with
    | none => ix.continuation columnOfLine previous.start
    | some .continuation => ix.continuation columnOfLine previous.start
    | some action => ix.place columnOfLine ⟨previous.start, previous.stop⟩ action

/-- The first token of a line whose first character is at `first`, unless a comment opens it. -/
def leadingToken? (first : Nat) : Option Token :=
  match ix.source.tokenAfter? first with
  | none => none
  | some tok => if tok.isComment then none else ix.source.logicalAt? first

/-- The column of the line that starts at `lineStart`, given those of other lines. -/
def compute (lineStart : Nat) : Indenting Nat := do
  let first := ix.text.firstNonBlank lineStart
  if (ix.source.map.spanAt? first).any (·.start < lineStart) then
    return ix.text.indentation lineStart
  match ix.source.logicalToken? first .backward with
  | none => return 0
  | some previous =>
    match ix.leadingToken? first with
    | none => ix.afterToken columnOfLine previous
    | some tok =>
      match ← ix.leadingAnchor? tok lineStart with
      | some (anchor, action) => ix.place columnOfLine anchor action
      | none => ix.afterToken columnOfLine previous

end

/-- What is reported when the column of a line has been computed. -/
def columnEvent (ix : Indenter) (lineStart column : Nat) : Event :=
  ((Event.debug "Line indentation computed").attach "line"
    s!"{ix.source.lineMap.index lineStart + 1}").attach "column" s!"{column}"

/-- The column of the line that starts at `lineStart`; it may depend on other lines `room` deep. -/
def lineIndent (ix : Indenter) : (room lineStart : Nat) → Indenting Nat
  | 0, lineStart => do
    match (← get).lookup lineStart with
    | some column => return column
    | none => throw (.recursionLimit lineStart ix.settings.limits.recursion)
  | room + 1, lineStart => do
    match (← get).lookup lineStart with
    | some column => return column
    | none =>
      let column ← ix.compute (ix.lineIndent room) lineStart
      Logged.log (ix.columnEvent lineStart column)
      modify ((lineStart, column) :: ·)
      return column

/-- The column of a line that stands by itself, with the columns it depends on. -/
def runLine (ix : Indenter) (lineStart : Nat) (memo : Memo) :
    Logged (Except IndentError (Nat × Memo)) :=
  ix.lineIndent (ix.settings.limits.recursion + 1) lineStart memo

/-- The column for the line that holds `offset`. -/
def indentFor (ix : Indenter) (offset : Nat) : Logged (Except IndentError Nat) :=
  match ix.source.checkOffset offset with
  | .error cause => pure (.error (.outOfRange cause))
  | .ok offset => (·.map (·.1)) <$> ix.runLine (ix.text.lineStart offset) []

end Indenter
end SasLayout
