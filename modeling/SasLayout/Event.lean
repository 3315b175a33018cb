import SasLayout.Dict
import SasLayout.Event.Code
import SasLayout.Limits
import SasLayout.Text

set_option autoImplicit false

/-! Log events: a level, a code, a message and a context of named values in the order of their
names. -/
namespace SasLayout

inductive Level where
  | error
  | warning
  | info
  | debug
deriving DecidableEq, Repr, Inhabited

namespace Level

def rank : Level → Nat
  | error => 0
  | warning => 1
  | info => 2
  | debug => 3

/-- Whether an event of level `l` is delivered to a log that keeps `threshold` and worse. -/
def passes (l threshold : Level) : Bool :=
  l.rank ≤ threshold.rank

/-- The name that events are printed with. -/
def label : Level → String
  | error => "ERROR"
  | warning => "WARN"
  | info => "INFO"
  | debug => "DEBUG"

/-- The name that settings are written with. -/
def name : Level → String
  | error => "error"
  | warning => "warning"
  | info => "info"
  | debug => "debug"

end Level

structure Event where
  level : Level
  code : String
  message : String
  context : Dict String String := .empty
deriving DecidableEq, Repr, Inhabited

namespace Event

/-- A message within the bound, or its longest such beginning and three points. -/
def shorten (message : String) : String :=
  if Limits.logMessage < message.utf8ByteSize then
    let t := Text.ofString message
    (t.slice 0 (t.floor Limits.logMessage)).toString ++ "..."
  else message

def make (level : Level) (code message : String) : Event :=
  { level, code, message := shorten message }

def error (code message : String) : Event :=
  make .error code message

def warning (message : String) : Event :=
  make .warning Code.plainWarning message

def warningWith (code message : String) : Event :=
  make .warning code message

def info (message : String) : Event :=
  make .info Code.plainInfo message

/-- Success is an info with a code of its own. -/
def success (code message : String) : Event :=
  make .info code message

def debug (message : String) : Event :=
  make .debug Code.plainDebug message

/-- The event with one more named value in its context. -/
def attach (e : Event) (name value : String) : Event :=
  { e with context := e.context.insert name value }

/-- The event with the name of the text at hand, if there is one. -/
def withBuffer (e : Event) : Option String → Event
  | some buffer => e.attach "buffer" buffer
  | none => e

def entry (e : Event) : CodeEntry :=
  Code.entry e.code

/-- The event on one line. -/
def format (e : Event) : String :=
  let pairs := ", ".intercalate (e.context.entries.map fun (k, v) => s!"{k}={v}")
  let suffix := if e.context.entries.isEmpty then "" else s!" ({pairs})"
  s!"[{e.level.label}] {e.code} - {e.message}{suffix}"

end Event
end SasLayout
