import SasLayout.Logged
import SasLayout.Source

set_option autoImplicit false

/-! What is logged when a text is scanned: its unterminated spans, then the size of its map. -/
namespace SasLayout

def Span.unterminatedEvent (s : Span) : Event :=
  let event := match s.kind with
    | .stringLiteral => Event.warningWith Code.unterminatedString "Unterminated string literal"
    | _ => Event.warningWith Code.unterminatedComment "Unterminated comment"
  event.attach "start" s!"{s.start}"

namespace Source

def scanEvents (src : Source) : Array Event :=
  ((src.map.spans.filter (!·.terminated)).map Span.unterminatedEvent).push
    ((((Event.debug "Lexical map built").attach "bytes" s!"{src.size}").attach "spans"
      s!"{src.map.spans.size}").attach "terminators" s!"{src.map.terminators.size}")

/-- Scans a text and reports it. -/
def scan (settings : LexicalSettings) (t : Text) : Logged Source :=
  let src := ofText settings t
  ⟨src, src.scanEvents⟩

end Source
end SasLayout
