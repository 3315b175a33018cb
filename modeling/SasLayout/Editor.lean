import SasLayout.Block.Navigate
import SasLayout.Configuration
import SasLayout.Face
import SasLayout.Indent.Region
import SasLayout.Source.Report

set_option autoImplicit false

/-!
The operations that an editor binds to commands. An editor holds a text and scans it when it is
first asked about; the scan and the construction of the grammar are reported once, where they
happen.
-/
namespace SasLayout

/-- What to hand to an interpreter: a block, or a single line when there is no block around. -/
structure Submission where
  start : Nat
  stop : Nat
  block : Option Block
deriving DecidableEq

namespace Submission

def isLine (s : Submission) : Bool :=
  s.block.isNone

def extent (s : Submission) : Extent :=
  ⟨s.start, s.stop⟩

end Submission

structure Editor where
  lexical : LexicalSettings := {}
  scanning : ScanSettings := {}
  indentation : IndentSettings := {}
  text : Text
  /-- The scanned text, once something has asked for it. -/
  scanned : Option Source := none
  /-- Whether the construction of the grammar has been reported. -/
  grammarKnown : Bool := false

/-- Editor commands: they may change the editor and log events. -/
abbrev Command := StateT Editor Logged

namespace Editor

/-- An operation that logs, as a command. -/
def perform {α : Type} (x : Logged α) : Command α :=
  StateT.lift x

def log (e : Event) : Command Unit :=
  perform (Logged.log e)

/-- The scan of the text, whether or not it has been reported. -/
def peek (ed : Editor) : Source :=
  ed.scanned.getD (Source.ofText ed.lexical ed.text)

/-- The scanned text. The first command that needs it reports the scan. -/
def source : Command Source := do
  let ed ← get
  match ed.scanned with
  | some src => return src
  | none =>
    let src ← perform (Source.scan ed.lexical ed.text)
    set { ed with scanned := some src }
    return src

/-- The editor once its text has been scanned. -/
def refreshed (ed : Editor) : Editor :=
  { ed with scanned := some ed.peek }

@[simp] theorem refreshed_refreshed (ed : Editor) : ed.refreshed.refreshed = ed.refreshed := rfl

@[simp] theorem peek_refreshed (ed : Editor) : ed.refreshed.peek = ed.peek := rfl

@[simp] theorem scanning_refreshed (ed : Editor) : ed.refreshed.scanning = ed.scanning := rfl

@[simp] theorem text_refreshed (ed : Editor) : ed.refreshed.text = ed.text := rfl

@[simp] theorem source_value (ed : Editor) : (source.run ed).value = (ed.peek, ed.refreshed) := by
  cases ed with
  | mk lexical scanning indentation text scanned grammarKnown => cases scanned <;> rfl

theorem checkOffset_text {ed : Editor} {offset : Nat} (within : offset ≤ ed.text.size) :
    ed.text.checkOffset offset = .ok (ed.text.floor offset) :=
  if_neg (Nat.not_lt.mpr within)

/-- The scanned text, unless `offset` lies outside it. -/
def sourceAt (offset : Nat) : Command (Except OutOfRange Source) := do
  match (← get).text.checkOffset offset with
  | .error cause => return .error cause
  | .ok _ => return .ok (← source)

def scanner : Command Scanner := do
  return ⟨← source, (← get).scanning⟩

/-- The grammar of the language. The first command that needs it reports its construction. -/
def grammar : Command (Except (GrammarError String) (Grammar String)) := do
  let ed ← get
  if !ed.grammarKnown then
    perform ⟨(), Grammar.constructionEvents Grammar.standard⟩
    set { ed with grammarKnown := true }
  return Grammar.standard

/-- Puts another text in the place of the present one. -/
def replaceText (t : Text) : Command Unit :=
  modify fun ed => { ed with text := t, scanned := none }

/-- The token at or next to an offset. -/
def tokenAt (offset : Nat) (towards : Direction) : Command (Except OutOfRange (Option Token)) := do
  match ← sourceAt offset with
  | .error cause => return .error cause
  | .ok src => return src.classify offset towards

/-- The token at or after an offset. -/
def classify (offset : Nat) : Command (Except OutOfRange (Option Token)) := do
  let found ← tokenAt offset .forward
  if let .ok (some tok) := found then
    log ((((Event.debug "Classified token").attach "offset" s!"{offset}").attach "kind"
      tok.kind.name).attach "lexeme" tok.lexeme.toString)
  return found

/-- All tokens, without a report of their number. -/
def allTokens : Command (Array Token) := do
  if (← get).text.size = 0 then return #[]
  else return (← source).tokens

def tokens : Command (Array Token) := do
  let found ← allTokens
  log ((Event.success Code.classified "Buffer classified").attach "tokens" s!"{found.size}")
  return found

def tokensFrom (offset : Nat) : Command (Except OutOfRange (Array Token)) := do
  let t := (← get).text
  match t.checkOffset offset with
  | .error cause => return .error cause
  | .ok start => if t.size ≤ start then return .ok #[] else return (← source).tokensFrom offset

def logicalTokens : Command (Array Token) := do
  let found := (← source).logicalTokens
  log ((Event.success Code.classified "Buffer resolved").attach "tokens" s!"{found.size}")
  return found

/-- The logical token next to an offset, none when the offset lies outside the text. -/
def logicalToken (offset : Nat) (towards : Direction) : Command (Option Token) := do
  match ← sourceAt offset with
  | .error _ => return none
  | .ok src => return src.logicalToken? offset towards

/-- The logical token that covers an offset. -/
def logicalAt (offset : Nat) : Command (Option Token) := do
  match ← sourceAt offset with
  | .error _ => return none
  | .ok src => return src.logicalAt? offset

def statement (offset : Nat) : Command (Except OutOfRange Extent) := do
  match ← sourceAt offset with
  | .error cause => return .error cause
  | .ok src => return src.statementAt offset

/-- Runs a block search at an offset of the text. -/
def searchAt {α : Type} (offset : Nat)
    (search : Scanner → Nat → Logged (Except ScanError α)) : Command (Except ScanError α) := do
  match ← sourceAt offset with
  | .error cause => return .error (.outOfRange cause)
  | .ok _ => perform (search (← scanner) offset)

def blockBegin (offset : Nat) : Command (Except ScanError Block) :=
  searchAt offset Scanner.beginningOfBlock

def blockEnd (b : Block) : Command (Except ScanError Nat) := do
  if b.kind.isOpener then perform ((← scanner).endOfBlock b) else return .ok b.headerEnd

def blockExtent (b : Block) : Command (Except ScanError Extent) := do
  return (← blockEnd b).map fun stop => ⟨b.start, max stop b.start⟩

/-- The block around an offset; a failure is logged. -/
def locate (offset : Nat) : Command (Except ScanError Block) := do
  let found ← searchAt offset Scanner.locate
  if let .error cause := found then
    log (((Event.error cause.code "Block location failed").attach "offset"
      s!"{offset}").attach "error" cause.message)
  return found

def nextBlock (offset : Nat) : Command (Except ScanError (Option Block)) :=
  searchAt offset Scanner.nextBlock

def previousBlock (offset : Nat) : Command (Except ScanError (Option Block)) :=
  searchAt offset Scanner.previousBlock

/-- The line of an offset as a submission. -/
def lineSubmission (offset : Nat) : Command (Except ScanError Submission) := do
  let t := (← get).text
  match t.checkOffset offset with
  | .error cause => return .error (.outOfRange cause)
  | .ok offset => return .ok ⟨t.lineStart offset, t.lineEnd offset, none⟩

/-- What to submit at an offset. -/
def submission (offset : Nat) : Command (Except ScanError Submission) := do
  match ← searchAt offset Scanner.locate with
  | .error (.outOfRange cause) => return .error (.outOfRange cause)
  | .error (.retryLimit _ _) => lineSubmission offset
  | .ok b =>
    if b.kind.isOpener then return .ok ⟨b.start, b.stop, some b⟩
    else
      log (((Event.debug "Submitting line instead of block").attach "offset"
        s!"{offset}").attach "kind" b.kind.label)
      lineSubmission offset

/-- The column past the largest number that an event reports. -/
def overflow? (e : Event) : Option Nat :=
  ((e.context.find? "column").bind (Read.digits? ·.toList)).filter (Limits.number < ·)

/-- Stops at the first column that passes the largest number, with nothing logged from there on. -/
def withinNumbers {α : Type} (found : Logged (Except IndentError α)) :
    Logged (Except IndentError α) :=
  match found.events.findSome? overflow? with
  | none => found
  | some column => ⟨.error (.overflow column), found.events.takeWhile (overflow? · |>.isNone)⟩

/-- The column for the line of an offset, without a report. -/
def column (offset : Nat) : Command (Except IndentError Nat) := do
  let ed ← get
  match ed.text.checkOffset offset with
  | .error cause => return .error (.outOfRange cause)
  | .ok _ =>
    match ← grammar with
    | .error cause => return .error (.grammar cause)
    | .ok g =>
      let ix := Indenter.mk (← source) ed.indentation g
      perform (withinNumbers (ix.indentFor offset))

def indentFor (offset : Nat) : Command (Except IndentError Nat) := do
  let found ← column offset
  match found with
  | .ok column =>
    log (((Event.success Code.indentationComputed "Indentation computed").attach "offset"
      s!"{offset}").attach "column" s!"{column}")
  | .error (.overflow _) => pure ()
  | .error cause =>
    log (((Event.error cause.code "Indentation failed").attach "offset" s!"{offset}").attach
      "error" cause.message)
  return found

/-- Whether placing lines has looked at the tokens of the text: blank lines are left alone. -/
def looked : Except IndentError (Array PlacedLine) → Bool
  | .ok placed => !placed.isEmpty
  | .error _ => true

/-- The lines of a region with the columns for them, without a report. -/
def columns (start stop : Nat) : Command (Except IndentError (Array PlacedLine)) := do
  let ed ← get
  match ed.text.checkOffset start, ed.text.checkOffset stop with
  | .error cause, _ => return .error (.outOfRange cause)
  | .ok _, .error cause => return .error (.outOfRange cause)
  | .ok start, .ok stop =>
    match ← grammar with
    | .error cause => return .error (.grammar cause)
    | .ok g =>
      let placed := (Indenter.mk ed.peek ed.indentation g).placeRegion start stop
      if looked placed.value then discard source
      perform (withinNumbers placed)

def reindent (start stop : Nat) : Command (Except IndentError (Array PlacedLine)) := do
  let found ← columns start stop
  match found with
  | .ok placed =>
    log (((Event.success Code.regionReindented "Region reindented").attach "lines"
      s!"{placed.size}").attach "changed" s!"{(placed.filter PlacedLine.isMoved).size}")
  | .error (.overflow _) => pure ()
  | .error cause =>
    log ((((Event.error cause.code "Region reindent failed").attach "start" s!"{start}").attach
      "end" s!"{stop}").attach "error" cause.message)
  return found

/-- Moves the lines of a region to their columns. -/
def applyRegion (start stop : Nat) : Command (Except IndentError Text) := do
  match ← columns start stop with
  | .error cause => return .error cause
  | .ok placed =>
    let moved := (← get).text.moveLines placed.toList
    replaceText moved
    return .ok moved

/-- Puts `t` in the place of the bytes from `start` to `stop`. -/
def replace (start stop : Nat) (t : Text) : Command Nat := do
  let old := (← get).text
  let new := ((old.slice 0 start).append t).append (old.slice stop old.size)
  replaceText new
  return new.size

/-- The walk backward from an offset, within so many steps. -/
def walk (offset : Nat) (pending : Option String) (steps : Nat) :
    Command (Except IndentError Indent.Stop) := do
  match ← grammar with
  | .error cause => return .error (.grammar cause)
  | .ok g =>
    if steps = 0 then return .error (.walkLimit offset steps)
    else
      match ← sourceAt offset with
      | .error _ => return .ok .boundary
      | .ok src =>
        match Indent.walk g src steps offset pending with
        | some stop => return .ok stop
        | none => return .error (.walkLimit offset steps)

def highlight (face : Token → Face) : Command (Array StyledExtent) := do
  if (← get).text.size = 0 then return #[]
  else return (← source).highlight face

end Editor
end SasLayout
