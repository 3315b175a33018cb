import SasLayout.Event

set_option autoImplicit false

/-! A log in memory, which keeps the latest events, and the level filter in front of it. -/
namespace SasLayout

structure EventLog where
  /-- The events kept, the oldest first. -/
  events : Array Event := #[]
deriving Inhabited

namespace EventLog

/-- Adds an event and forgets the oldest one when there are too many. -/
def add (log : EventLog) (e : Event) : EventLog :=
  let kept := if log.events.size < Limits.logEvents then log.events
    else log.events.extract (log.events.size - Limits.logEvents + 1) log.events.size
  ⟨kept.push e⟩

/-- The log after all of `events` have been added to an empty one. -/
def ofEvents (events : Array Event) : EventLog :=
  ⟨events.extract (events.size - Limits.logEvents) events.size⟩

def errors (log : EventLog) : Array Event :=
  log.events.filter (·.level = .error)

def hasCode (log : EventLog) (code : String) : Bool :=
  log.events.any (·.code == code)

def hasError (log : EventLog) (code : String) : Bool :=
  log.events.any fun e => e.level = .error && e.code == code

/-- Adds an event if its level passes the threshold. -/
def offer (log : EventLog) (threshold : Level) (e : Event) : EventLog :=
  if e.level.passes threshold then log.add e else log

end EventLog
end SasLayout
