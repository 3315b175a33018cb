import SasLayout.CommandLine.Position
import SasLayout.Terminal

set_option autoImplicit false

/-!
The arguments of the command line. They are read from left to right. The value of a parameter is
taken as written at first and settled when the next parameter begins, so a faulty value counts only
once all before the next parameter has been understood.
-/
namespace SasLayout.CommandLine

inductive Parameter where
  | json
  | config
  | logLevel
  | resolved
  | next
  | previous
  | submit
  | start
  | stop
  | apply
  | file
  | position
deriving DecidableEq, Repr, Inhabited

/-- What a parameter takes. -/
inductive Domain where
  | nothing
  | path
  | word
  | position
deriving DecidableEq, Repr

namespace Parameter

/-- The name of an option, without its dashes. -/
def spelling : Parameter → String
  | json => "json"
  | config => "config"
  | logLevel => "log-level"
  | resolved => "resolved"
  | next => "next"
  | previous => "previous"
  | submit => "submit"
  | start => "start"
  | stop => "end"
  | apply => "apply"
  | file => "file"
  | position => "position"

def domain : Parameter → Domain
  | config | file => .path
  | logLevel => .word
  | start | stop | position => .position
  | _ => .nothing

/-- How a parameter with a position is named in messages. -/
def usage : Parameter → String
  | start => "--start <START>"
  | stop => "--end <END>"
  | _ => "<POSITION>"

/-- The options that stand before or after the name of a command. -/
def shared : List Parameter :=
  [json, config, logLevel]

end Parameter

inductive Subcommand where
  | tokens
  | statement
  | block
  | indent
  | reindent
  | highlight
deriving DecidableEq, Repr, Inhabited

namespace Subcommand

def ofName? : String → Option Subcommand
  | "tokens" => some tokens
  | "statement" => some statement
  | "block" => some block
  | "indent" => some indent
  | "reindent" => some reindent
  | "highlight" => some highlight
  | _ => none

def options : Subcommand → List Parameter
  | tokens => [.resolved]
  | block => [.next, .previous, .submit]
  | reindent => [.start, .stop, .apply]
  | _ => []

/-- The parameters without a name, in their order. -/
def slots : Subcommand → List Parameter
  | statement | block | indent => [.file, .position]
  | _ => [.file]

/-- Options of which at most one can be given. -/
def exclusive : Subcommand → List Parameter
  | block => [.next, .previous, .submit]
  | _ => []

end Subcommand

/-- A settled value. -/
inductive Value where
  | given
  | text (s : String)
  | position (p : Position)
deriving DecidableEq, Repr

/-- Why no command is run. -/
inductive Interruption where
  | version
  | help
  /-- The arguments are refused, with what is wrong about a position if that is the reason. -/
  | rejected (position : Option String)
deriving DecidableEq, Repr

abbrev Reading := Except Interruption

def reject {α : Type} : Reading α :=
  .error (.rejected none)

/-- What is written about a value that is no position. -/
def Parameter.complaint (p : Parameter) (written : String) (e : PositionError) : String :=
  Terminal.strip (Terminal.highlight "error:" ++ " invalid value '" ++
    Terminal.highlight written ++ "' for '" ++ Terminal.highlight p.usage ++ "': " ++ e.message ++
    "\n\nFor more information, try '" ++ Terminal.highlight "--help" ++ "'.\n")

def Parameter.read (p : Parameter) (written : String) : Reading Value :=
  match p.domain with
  | .nothing => reject
  | .path => if written.isEmpty then reject else .ok (.text written)
  | .word => .ok (.text written)
  | .position =>
    match Position.parse written with
    | .ok place => .ok (.position place)
    | .error e => .error (.rejected (some (p.complaint written e)))

/-- The shape of an argument. -/
inductive Shape where
  /-- Two dashes alone: only parameters without a name follow. -/
  | escape
  | long (name : String) (attached : Option String)
  | short (letter : Char)
  | plain
deriving DecidableEq, Repr

def shape (arg : String) : Shape :=
  match arg.toList with
  | ['-', '-'] => .escape
  | '-' :: '-' :: rest =>
    match rest.dropWhile (· != '=') with
    | [] => .long (String.ofList rest) none
    | _ :: value => .long (String.ofList (rest.takeWhile (· != '='))) (some (String.ofList value))
  | '-' :: letter :: _ => .short letter
  | _ => .plain

/-- What has been read so far. -/
structure Progress where
  settled : List (Parameter × Value) := []
  /-- The parameters without a name that are still open. -/
  slots : List Parameter := []
  /-- A parameter that has begun, with its value once that has been read. -/
  pending : Option (Parameter × Option String) := none
  escaped : Bool := false

namespace Progress

def record (s : Progress) (p : Parameter) (v : Value) : Progress :=
  { s with settled := s.settled ++ [(p, v)], pending := none }

def has (s : Progress) (p : Parameter) : Bool :=
  (s.settled.lookup p).isSome

/-- Settles a parameter, which can be given only once. -/
def put (s : Progress) (p : Parameter) (written : String) : Reading Progress :=
  if s.has p then reject else (p.read written).map (s.record p)

/-- Settles the parameter that has begun. -/
def settle (s : Progress) : Reading Progress :=
  match s.pending with
  | none => .ok s
  | some (_, none) => reject
  | some (p, some written) => s.put p written

/-- Whether the next plain argument is the value of an option. -/
def isWaiting (s : Progress) : Bool :=
  match s.pending with
  | some (_, none) => !s.escaped
  | _ => false

/-- Begins an option. -/
def option (s : Progress) (p : Parameter) (attached : Option String) : Reading Progress :=
  match p.domain, attached with
  | .nothing, some _ => reject
  | .nothing, none => do
    let s ← s.settle
    if s.has p then reject else return s.record p .given
  | _, some written => do (← s.settle).put p written
  | _, none => do return { ← s.settle with pending := some (p, none) }

/-- Reads an argument that is not an option. -/
def plain (s : Progress) (arg : String) : Reading Progress :=
  match s.isWaiting, s.pending, s.slots with
  | true, some (p, _), _ => return { s with pending := some (p, some arg) }
  | _, _, slot :: rest => do
    return { ← s.settle with slots := rest, pending := some (slot, some arg) }
  | _, _, [] => reject

/-- Reads an option by its name among those known; the version can be asked for in front of a
command only. -/
def long (s : Progress) (known : List Parameter) (inFront : Bool) (name : String)
    (attached : Option String) : Reading Progress :=
  match known.find? (·.spelling == name) with
  | some p => s.option p attached
  | none =>
    if attached.isSome then reject
    else if name = "help" then s.settle.bind fun _ => .error .help
    else if name = "version" && inFront then s.settle.bind fun _ => .error .version
    else reject

def short (s : Progress) (inFront : Bool) (letter : Char) : Reading Progress :=
  if letter = 'h' then s.settle.bind fun _ => .error .help
  else if letter = 'V' && inFront then s.settle.bind fun _ => .error .version
  else reject

/-- Reads one argument. -/
def step (s : Progress) (known : List Parameter) (inFront : Bool) (arg : String) :
    Reading Progress :=
  if s.escaped then s.plain arg
  else
    match shape arg with
    | .escape => return { s with escaped := true }
    | .long name attached => s.long known inFront name attached
    | .short letter => s.short inFront letter
    | .plain => s.plain arg

end Progress

/-- Reads up to the name of a command: what stands before it, and what after. -/
def readFront (s : Progress) : List String → Reading (Progress × Subcommand × List String)
  | [] => s.settle.bind fun _ => reject
  | arg :: rest =>
    if shape arg = .plain && !s.escaped && !s.isWaiting then
      match Subcommand.ofName? arg with
      | some sub => .ok (s, sub, rest)
      | none => if arg = "help" then .error .help else reject
    else do readFront (← s.step Parameter.shared true arg) rest

/-- Reads the arguments of a command. -/
def readBehind (sub : Subcommand) (args : List String) : Reading Progress := do
  let s ← args.foldlM (fun s arg => Progress.step s (Parameter.shared ++ sub.options) false arg)
    { slots := sub.slots }
  let s ← s.settle
  if !s.slots.isEmpty || 1 < (sub.exclusive.filter s.has).length then reject else return s

/-- Which block is asked for. -/
inductive BlockQuery where
  | enclosing
  | next
  | previous
  | submission
deriving DecidableEq, Repr, Inhabited

inductive Action where
  | tokens (resolved : Bool)
  | statement (position : Position)
  | block (position : Position) (query : BlockQuery)
  | indent (position : Position)
  | reindent (start stop : Option Position) (apply : Bool)
  | highlight
deriving DecidableEq, Repr, Inhabited

structure Request where
  json : Bool
  config : Option String
  logLevel : Option String
  file : String
  action : Action
deriving DecidableEq, Repr, Inhabited

namespace Progress

def text? (s : Progress) (p : Parameter) : Option String :=
  match s.settled.lookup p with
  | some (.text t) => some t
  | _ => none

def position? (s : Progress) (p : Parameter) : Option Position :=
  match s.settled.lookup p with
  | some (.position place) => some place
  | _ => none

def query (s : Progress) : BlockQuery :=
  if s.has .submit then .submission
  else if s.has .next then .next
  else if s.has .previous then .previous
  else .enclosing

def action (s : Progress) (sub : Subcommand) : Action :=
  let position := (s.position? .position).getD default
  match sub with
  | .tokens => .tokens (s.has .resolved)
  | .statement => .statement position
  | .block => .block position s.query
  | .indent => .indent position
  | .reindent => .reindent (s.position? .start) (s.position? .stop) (s.has .apply)
  | .highlight => .highlight

end Progress

/-- What the arguments ask for. Of a shared option given on both sides of the command's name, the
one after it counts. -/
def parse (args : List String) : Reading Request := do
  let (front, sub, rest) ← readFront {} args
  let behind ← readBehind sub rest
  let front ← front.settle
  let text? (p : Parameter) := (behind.text? p).or (front.text? p)
  return {
    json := front.has .json || behind.has .json
    config := text? .config
    logLevel := text? .logLevel
    file := (behind.text? .file).getD ""
    action := behind.action sub }

end SasLayout.CommandLine
