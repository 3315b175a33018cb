import SasLayout.Limits
import SasLayout.Logged
import SasLayout.Text.Line

set_option autoImplicit false

/-! Reading a file as a text within the limits. -/
namespace SasLayout

inductive LoadError where
  | tooLarge (size limit : Nat)
  | lineTooLong (line length limit : Nat)
  | invalidEncoding (path : String)
  | unreadable (path reason : String)
deriving DecidableEq, Repr

namespace LoadError

def message : LoadError → String
  | tooLarge size limit => s!"Buffer too large: {size} bytes (max: {limit})"
  | lineTooLong line length limit => s!"Line {line} too long: {length} bytes (max: {limit})"
  | invalidEncoding path => s!"Invalid UTF-8 encoding in file: {path}"
  | unreadable path reason => s!"I/O error reading {path}: {reason}"

def code : LoadError → String
  | tooLarge _ _ => Code.bufferTooLarge
  | lineTooLong _ _ _ => Code.lineTooLong
  | invalidEncoding _ => Code.invalidEncoding
  | unreadable _ _ => Code.fileUnreadable

def requiresHalt (e : LoadError) : Bool :=
  (Code.entry e.code).requiresHalt

def isRecoverable (e : LoadError) : Bool :=
  (Code.entry e.code).recoverable

def event (e : LoadError) : Event :=
  Event.error e.code e.message

end LoadError

namespace Text

/-- The first line longer than `limit` among those from `start` on, the first of which has the
number `line`, with its length. -/
def longLineFrom? (t : Text) (limit line start : Nat) : Option (Nat × Nat) :=
  if limit < t.lineEnd start - start then some (line, t.lineEnd start - start)
  else if inside : t.lineEnd start < t.size then
    have := le_lineEnd inside
    t.longLineFrom? limit (line + 1) (t.lineEnd start + 1)
  else none
termination_by t.size - start

/-- Whether the text and each of its lines are within the limits. -/
def checkLimits (t : Text) (limits : TextLimits) : Except LoadError Unit :=
  if limits.size < t.size then .error (.tooLarge t.size limits.size)
  else
    match t.longLineFrom? limits.line 1 0 with
    | some (line, length) => .error (.lineTooLong line length limits.line)
    | none => .ok ()

end Text

/-- What stands under a path. -/
inductive SourceFile where
  /-- Nothing that can be read, for a reason. -/
  | unreadable (reason : String)
  | contents (bytes : ByteArray)

namespace SourceFile

/-- The text of a file's bytes, with the event that reports a failure. -/
def decode (limits : TextLimits) (path : String) (bytes : ByteArray) :
    Except (LoadError × Event) Text :=
  let located (e : LoadError) := (e, e.event.attach "path" path)
  if limits.size < bytes.size then .error (located (.tooLarge bytes.size limits.size))
  else if !bytes.validateUTF8 then
    .error (.invalidEncoding path, (LoadError.invalidEncoding path).event)
  else
    match (Text.mk bytes).checkLimits limits with
    | .error e => .error (located e)
    | .ok () => .ok ⟨bytes⟩

/-- The text of the file under `path`. -/
def load (limits : TextLimits) (path : String) (file : SourceFile) :
    Logged (Except LoadError Text) := do
  Logged.log ((Event.debug "Loading source file").attach "path" path)
  match file with
  | unreadable reason =>
    let e := LoadError.unreadable path reason
    Logged.log e.event
    return .error e
  | contents bytes =>
    match decode limits path bytes with
    | .error (e, event) =>
      Logged.log event
      return .error e
    | .ok t =>
      Logged.log (((Event.success Code.bufferLoaded "Source buffer loaded").attach "path"
        path).attach "bytes" s!"{t.size}")
      return .ok t

end SourceFile
end SasLayout
