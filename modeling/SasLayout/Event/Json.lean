import SasLayout.Event
import SasLayout.Json

set_option autoImplicit false

/-! Log events as JSON. -/
namespace SasLayout.Event

/-- What a reader needs to know of the failure behind an error. -/
def metadata (e : Event) : Json :=
  .object [("recoverable", .bool e.entry.recoverable),
    ("requires_halt", .bool e.entry.requiresHalt), ("description", .string e.entry.description),
    ("recommended_action", .string e.entry.action)]

/-- Everything about an event but its time. -/
def members (e : Event) : List (String × Json) :=
  [("level", .string e.level.label), ("code", .string e.code), ("message", .string e.message),
    ("category", .string e.entry.category), ("severity", .string e.entry.severity.name)] ++
  (if e.level = .error then [("error_metadata", e.metadata)] else []) ++
  (if e.context.entries.isEmpty then []
    else [("context", .object (e.context.entries.map fun (key, value) => (key, .string value)))])

/-- The event as it is written `seconds` after the epoch. -/
def toJson (e : Event) (seconds : Nat) : Json :=
  .object (("timestamp", .number seconds) :: e.members)

end SasLayout.Event
