import SasLayout.CommandLine.Arguments
import SasLayout.Configuration.Toml
import SasLayout.Editor
import SasLayout.Logging
import SasLayout.SourceFile
import SasLayout.Text.Escape

set_option autoImplicit false

/-! Running a request of the command line: what it prints, what it logs, and how it ends. -/
namespace SasLayout.CommandLine

/-- Why a request fails. -/
inductive Failure where
  | unreadableConfiguration (path reason : String)
  | configuration (cause : ConfigurationError)
  | unknownLevel (written : String)
  | load (cause : LoadError)
  | position (cause : PositionError)
  | outOfRange (cause : OutOfRange)
  | scan (cause : ScanError)
  | indent (cause : IndentError)
deriving DecidableEq, Repr

def Failure.message : Failure → String
  | unreadableConfiguration path reason => s!"cannot read config {path}: {reason}"
  | configuration cause => cause.message
  | unknownLevel written => s!"unknown log level '{written}'"
  | load cause => cause.message
  | position cause => cause.message
  | outOfRange cause => cause.message
  | scan cause => cause.message
  | indent cause => cause.message

/-- Whether the program stops in the middle of a computation. -/
def Failure.isCrash : Failure → Bool
  | position (.overflow _) | indent (.overflow _) | indent (.grammar .overflow) => true
  | _ => false

/-- What a request has come to. -/
structure Report where
  printed : String := ""
  log : Logging := {}
  failure : Option Failure := none

/-- What an action prints, in both forms. -/
structure Answer where
  json : Json
  lines : List String

def Answer.print (a : Answer) (json : Bool) : String :=
  if json then a.json.pretty "" ++ "\n" else String.join (a.lines.map (· ++ "\n"))

abbrev Execution := ExceptT Failure Command

/-- Turns the outcome of a command into that of a request. -/
def orFail {ε α : Type} (failure : ε → Failure) (x : Command (Except ε α)) : Execution α :=
  ExceptT.mk ((·.mapError failure) <$> x)

def place (p : Position) : Execution Nat := do
  match p.resolve (← get).text with
  | .ok offset => return offset
  | .error cause => throw (.position cause)

def tokenJson (tok : Token) : Json :=
  .object [("lexeme", .string tok.lexeme.toString), ("kind", .string tok.kind.name),
    ("start", .number tok.start), ("end", .number tok.stop)]

def tokenLine (tok : Token) : String :=
  s!"{tok.start}..{tok.stop}\t{tok.kind.name}\t{Text.escape tok.lexeme.toString}"

def blockJson (b : Block) : Json :=
  .object ([("kind", .string b.kind.label)] ++
    (b.kind.name?.map fun name => ("name", Json.string name.toString)).toList ++
    [("start", .number b.start), ("header_end", .number b.headerEnd), ("end", .number b.stop)])

def blockLine (b : Block) : String :=
  let name := (b.kind.name?.map Text.toString).getD "-"
  s!"{b.kind.label}\t{name}\t{b.start}..{b.stop}"

def lineJson (l : PlacedLine) : Json :=
  .object [("line", .number l.line), ("offset", .number l.offset), ("current", .number l.current),
    ("target", .number l.target)]

def styledJson (s : StyledExtent) : Json :=
  .object [("start", .number s.start), ("end", .number s.stop), ("face", .string s.face.name)]

def tokensAnswer (resolved : Bool) : Execution Answer := do
  let found ← if resolved then Editor.logicalTokens else Editor.tokens
  return ⟨.array (found.toList.map tokenJson), found.toList.map tokenLine⟩

def statementAnswer (p : Position) : Execution Answer := do
  let e ← orFail .outOfRange (Editor.statement (← place p))
  let text := ((← get).text.slice e.start e.stop).toString
  return ⟨.object [("start", .number e.start), ("end", .number e.stop), ("text", .string text)],
    [s!"{e.start}..{e.stop}\t{Text.escape text}"]⟩

def blockAnswer (found : Option Block) : Answer :=
  match found with
  | some b => ⟨blockJson b, [blockLine b]⟩
  | none => ⟨.null, ["none"]⟩

def submissionAnswer (s : Submission) : Answer :=
  let source := match s.block with
    | some b => b.kind.label
    | none => "line"
  ⟨.object [("start", .number s.start), ("end", .number s.stop),
      ("block", (s.block.map blockJson).getD .null)],
    [s!"{source}\t{s.start}..{s.stop}"]⟩

def blockQueryAnswer (p : Position) (query : BlockQuery) : Execution Answer := do
  let offset ← place p
  match query with
  | .submission => return submissionAnswer (← orFail .scan (Editor.submission offset))
  | .next => return blockAnswer (← orFail .scan (Editor.nextBlock offset))
  | .previous => return blockAnswer (← orFail .scan (Editor.previousBlock offset))
  | .enclosing => return blockAnswer (some (← orFail .scan (Editor.locate offset)))

def indentAnswer (p : Position) : Execution Answer := do
  let column ← orFail .indent (Editor.indentFor (← place p))
  return ⟨.number column, [s!"{column}"]⟩

def highlightAnswer : Execution Answer := do
  let t := (← get).text
  let styled ← Editor.highlight Token.face
  return ⟨.array (styled.toList.map styledJson), styled.toList.map fun s =>
    s!"{s.start}..{s.stop}\t{s.face.name}\t{Text.escape (t.slice s.start s.stop).toString}"⟩

/-- The lines of a region; both ends of the text stand in for ends that are not given. -/
def region (start stop : Option Position) : Execution (Array PlacedLine) := do
  let start ← match start with
    | some p => place p
    | none => pure 0
  let stop ← match stop with
    | some p => place p
    | none => pure (← get).text.size
  orFail .indent (Editor.reindent start stop)

def linesAnswer (lines : Array PlacedLine) : Answer :=
  ⟨.array (lines.toList.map lineJson), (lines.toList.filter (·.isMoved)).map fun l =>
    s!"{l.line}\t{l.current} -> {l.target}"⟩

/-- What an action prints. -/
def perform (json : Bool) : Action → Execution String
  | .tokens resolved => return (← tokensAnswer resolved).print json
  | .statement p => return (← statementAnswer p).print json
  | .block p query => return (← blockQueryAnswer p query).print json
  | .indent p => return (← indentAnswer p).print json
  | .reindent start stop true => do
    let lines ← region start stop
    return ((← get).text.moveLines lines.toList).toString
  | .reindent start stop false => return (linesAnswer (← region start stop)).print json
  | .highlight => return (← highlightAnswer).print json

/-- The settings for a request. -/
def configure (env : Environment) (path : Option String) (file : SourceFile) :
    Except Failure Configuration :=
  match path, file with
  | none, _ => .ok env.configuration
  | some path, .unreadable reason => .error (.unreadableConfiguration path reason)
  | some path, .contents bytes =>
    match String.fromUTF8? bytes with
    | none => .error (.unreadableConfiguration path "stream did not contain valid UTF-8")
    | some source => (Configuration.ofToml env source).mapError .configuration

/-- The level asked for, else that of a file with settings, else warnings. -/
def logThreshold (r : Request) (c : Configuration) : Except Failure Level :=
  match r.logLevel with
  | some written =>
    match Read.level? written with
    | some level => .ok level
    | none => .error (.unknownLevel written)
  | none => .ok (if r.config.isSome then c.logging.threshold else .warning)

/-- Runs an action on a text that has been loaded. -/
def runOn (r : Request) (c : Configuration) (log : Logging) (t : Text) : Report :=
  let log := { log with buffer := some r.file }.dispatch
    ((Event.info "Running command").attach "bytes" s!"{t.size}")
  let ed : Editor := {
    lexical := c.lexical, scanning := c.scanning, indentation := c.indentation, text := t }
  let ended := (perform r.json r.action).run.run ed
  let log := log.dispatchAll ended.events
  match ended.value.1 with
  | .ok printed => { printed, log }
  | .error failure => { log, failure := some failure }

/-- Runs a request; `config` is the file with settings and `source` the program text. -/
def run (env : Environment) (r : Request) (config source : SourceFile) : Report :=
  match configure env r.config config with
  | .error failure => { failure := some failure }
  | .ok c =>
    match logThreshold r c with
    | .error failure => { failure := some failure }
    | .ok threshold =>
      let log : Logging := {
        environment := env, fixed := some c.logging,
        service := some ⟨.tagged "sas_syntax", threshold⟩ }
      let loaded := source.load .development r.file
      let log := log.dispatchAll loaded.events
      match loaded.value with
      | .error cause => { log, failure := some (.load cause) }
      | .ok t => runOn r c log t

def Report.exitCode (r : Report) : Nat :=
  match r.failure with
  | none => 0
  | some f => if f.isCrash then 101 else 1

/-- What is written beside the output: the log, then the failure. -/
def Report.errorText (r : Report) : String :=
  String.join (r.log.lines.toList.map (·.render 0)) ++
    ((r.failure.map fun f =>
      if f.isCrash then s!"{f.message}\n" else s!"error: {f.message}\n").getD "")

/-- What the program calls itself. -/
def versionLine : String :=
  "sas-syntax 0.1.0"

def usageText : String :=
  "\n".intercalate [
    "Usage: sas-syntax [--json] [--config FILE] [--log-level LEVEL] COMMAND",
    "",
    "Commands:",
    "  tokens FILE [--resolved]",
    "  statement FILE POSITION",
    "  block FILE POSITION [--next | --previous | --submit]",
    "  indent FILE POSITION",
    "  reindent FILE [--start POSITION] [--end POSITION] [--apply]",
    "  highlight FILE",
    "",
    "A position is an offset in bytes, or LINE:COLUMN counted from one."]

end SasLayout.CommandLine
