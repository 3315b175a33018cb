import SasLayout.Configuration
import SasLayout.Event.Json
import SasLayout.Terminal

set_option autoImplicit false

/-!
The log of a process. It has no service at first, and then events are lost; a service once set up
stays. Settings may be fixed once, and until then they are those of the environment.
-/
namespace SasLayout

/-- Where a service sends its events. -/
inductive Sink where
  /-- One line of text for each event. -/
  | console
  /-- One JSON object for each event. -/
  | structured
  | memory
  /-- Lines of text that name their level and their origin first. -/
  | tagged (origin : String)
deriving DecidableEq, Repr, Inhabited

structure LogService where
  sink : Sink
  threshold : Level
deriving DecidableEq, Repr, Inhabited

/-- What is written for one event. -/
inductive LogLine where
  | text (s : String)
  | record (e : Event)
  /-- Text with its line end, which it may have lost. -/
  | shown (s : String)
deriving DecidableEq, Repr

/-- The line as it is written `seconds` after the epoch. -/
def LogLine.render (seconds : Nat) : LogLine → String
  | text s => s ++ "\n"
  | record e => (e.toJson seconds).compact ++ "\n"
  | shown s => s

/-- An event on a line of its own, without what a terminal would not show; what it has after line
ends is moved to the right. -/
def taggedLine (origin : String) (e : Event) : String :=
  let level := e.level.label.pushn ' ' (5 - e.level.label.length)
  let text := "\n    ".intercalate (e.format.splitOn "\n")
  Terminal.strip s!"[{level} {origin}] {text}\n"

/-- Why the log could not be set up. -/
inductive LoggingError where
  | serviceExists
  | settingsExist
deriving DecidableEq, Repr

def LoggingError.message : LoggingError → String
  | serviceExists => "Global logger already initialized"
  | settingsExist => "Runtime logging preferences already initialized"

structure Logging where
  environment : Environment := []
  fixed : Option LoggingSettings := none
  service : Option LogService := none
  /-- The name of the text at hand. -/
  buffer : Option String := none
  /-- What has been written, the oldest line first. -/
  lines : Array LogLine := #[]

namespace Logging

def settings (log : Logging) : LoggingSettings :=
  log.fixed.getD log.environment.logging

/-- The level that can never be filtered out. -/
def securityLevel : Level :=
  match Limits.securityLevel with
  | 0 => .error
  | 1 => .warning
  | _ => .info

/-- The level of the settings, or the level that can never be filtered out if that is less
severe. -/
def threshold (log : Logging) : Level :=
  if log.settings.threshold.rank < securityLevel.rank then securityLevel
  else log.settings.threshold

def isReady (log : Logging) : Bool :=
  log.service.isSome

/-- Whether events of a level are taken. -/
def enabled (log : Logging) (level : Level) : Bool :=
  log.service.any fun service => level.passes service.threshold

def write (log : Logging) (line : LogLine) : Logging :=
  { log with lines := log.lines.push line }

/-- Hands an event to the service as it is. -/
def submit (log : Logging) (e : Event) : Logging :=
  match log.service with
  | none => log
  | some service =>
    if e.level.passes service.threshold then
      match service.sink with
      | .console => log.write (.text e.format)
      | .structured => log.write (.record e)
      | .memory => log
      | .tagged origin => log.write (.shown (taggedLine origin e))
    else log

/-- Hands an event to the service with the name of the text at hand. -/
def dispatch (log : Logging) (e : Event) : Logging :=
  log.submit (if log.settings.bufferContext then e.withBuffer log.buffer else e)

def dispatchAll (log : Logging) (events : Array Event) : Logging :=
  events.foldl dispatch log

/-- Sets up the service that the settings ask for. -/
def start (log : Logging) : Except LoggingError Logging :=
  if log.isReady then .error .serviceExists
  else
    let sink := if log.settings.structured then Sink.structured else .console
    .ok ({ log with service := some ⟨sink, log.threshold⟩ }.submit
      (Event.success Code.loggingReady "Global logging system initialized"))

/-- Sets up a given service. -/
def startWith (log : Logging) (service : LogService) : Except LoggingError Logging :=
  if log.isReady then .error .serviceExists else .ok { log with service := some service }

def fix (log : Logging) (settings : LoggingSettings) : Except LoggingError Logging :=
  if log.fixed.isSome then .error .settingsExist else .ok { log with fixed := some settings }

/-- Logs an error even when there is no service. -/
def submitError (log : Logging) (code message : String) : Logging :=
  if log.isReady then log.submit (Event.error code message)
  else log.write (.text s!"[ERROR] FALLBACK: [{code}] {message}")

def levelTitle : Level → String
  | .error => "Error"
  | .warning => "Warning"
  | .info => "Info"
  | .debug => "Debug"

/-- The limits and the settings in words. -/
def summary (log : Logging) : String :=
  let s := log.settings
  "\n".intercalate [
    "Logging Configuration:",
    "=== Compile-time ===",
    s!"- Log buffer size: {Limits.logEvents}",
    s!"- Max message length: {Limits.logMessage}",
    s!"- Security min level: {Limits.securityLevel}",
    "=== Runtime ===",
    s!"- Min log level: {levelTitle s.threshold}",
    s!"- Structured logging: {s.structured}",
    s!"- Console logging: {s.console}",
    s!"- Buffer context: {s.bufferContext}"]

end Logging
end SasLayout
