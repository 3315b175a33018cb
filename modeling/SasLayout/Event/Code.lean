set_option autoImplicit false

/-! The codes of log events and what each of them means to the reader of a log. -/
namespace SasLayout

inductive Severity where
  | critical
  | high
  | medium
  | low
deriving DecidableEq, Repr, Inhabited

def Severity.name : Severity → String
  | critical => "Critical"
  | high => "High"
  | medium => "Medium"
  | low => "Low"

/-- What is known of a code. -/
structure CodeEntry where
  code : String
  category : String
  severity : Severity
  recoverable : Bool
  requiresHalt : Bool
  description : String
  action : String
deriving DecidableEq, Repr, Inhabited

namespace Code

def internalError : String := "ERR001"
def bufferTooLarge : String := "E005"
def fileUnreadable : String := "E006"
def invalidEncoding : String := "E007"
def lineTooLong : String := "E008"
def offsetOutOfRange : String := "E020"
def unterminatedComment : String := "E021"
def unterminatedString : String := "E022"
def retryLimit : String := "E040"
def malformedHeader : String := "E041"
def ambiguousBlock : String := "E042"
def mismatchedMacroEnd : String := "E043"
def precedenceCycle : String := "E060"
def precedenceConflict : String := "E061"
def adjacentNonterminals : String := "E062"
def recursionLimit : String := "E080"
def walkLimit : String := "E081"
def loggingReady : String := "I004"
def bufferLoaded : String := "I006"
def classified : String := "I020"
def blockLocated : String := "I040"
def grammarConstructed : String := "I060"
def indentationComputed : String := "I080"
def regionReindented : String := "I081"

/-- The codes of events that carry none of their own. -/
def plainWarning : String := "W000"
def plainInfo : String := "I000"
def plainDebug : String := "D000"

def registry : List CodeEntry :=
  [⟨internalError, "System", .critical, false, true, "Internal engine invariant violated",
      "File a bug report with the buffer that triggered it"⟩,
    ⟨bufferTooLarge, "Buffer", .medium, false, true, "Buffer exceeds maximum size limit",
      "Split the source file or raise max_buffer_size"⟩,
    ⟨fileUnreadable, "Buffer", .medium, false, true, "Source file could not be read",
      "Check the path and file permissions"⟩,
    ⟨invalidEncoding, "Buffer", .medium, false, true, "Source file is not valid UTF-8",
      "Convert the file to UTF-8"⟩,
    ⟨lineTooLong, "Buffer", .low, true, false, "Line exceeds maximum line length",
      "Wrap the line or raise max_line_length"⟩,
    ⟨offsetOutOfRange, "Lexical", .high, false, true, "Offset lies outside the buffer",
      "Clamp caller offsets to the buffer length"⟩,
    ⟨unterminatedComment, "Lexical", .low, true, false, "Comment runs to end of buffer",
      "Close the comment with */ or ;"⟩,
    ⟨unterminatedString, "Lexical", .low, true, false, "String literal runs to end of buffer",
      "Close the literal with a matching quote"⟩,
    ⟨retryLimit, "Scanning", .high, true, false, "Keyword search exceeded its retry limit",
      "Report the buffer; the search anchor failed to progress"⟩,
    ⟨malformedHeader, "Scanning", .low, true, false, "Block header is missing its name",
      "Add the procedure or macro name after the keyword"⟩,
    ⟨ambiguousBlock, "Scanning", .low, true, false, "Block closer has no matching opener",
      "Remove the stray closer or add the missing opener"⟩,
    ⟨mismatchedMacroEnd, "Scanning", .low, true, false,
      "%mend names a different macro than the open definition",
      "Match the %mend name to the %macro name"⟩,
    ⟨precedenceCycle, "Grammar", .critical, false, true, "Precedence constraints form a cycle",
      "Add a precedence table entry that breaks the cycle"⟩,
    ⟨precedenceConflict, "Grammar", .medium, true, false,
      "Grammar rules give two tokens conflicting precedence",
      "Resolve the pair in the precedence table"⟩,
    ⟨adjacentNonterminals, "Grammar", .critical, false, true,
      "Rule places two nonterminals next to each other",
      "Separate the nonterminals with a terminal"⟩,
    ⟨recursionLimit, "Indentation", .medium, true, false,
      "Indentation anchors nested deeper than the recursion limit",
      "Raise max_indent_recursion or simplify the nesting"⟩,
    ⟨walkLimit, "Indentation", .medium, true, false, "Backward parse exceeded the step limit",
      "Raise max_sexp_steps"⟩,
    ⟨loggingReady, "System", .low, true, false, "Logging system initialized", "Continue"⟩,
    ⟨bufferLoaded, "Buffer", .low, true, false, "Buffer loaded", "Continue"⟩,
    ⟨classified, "Lexical", .low, true, false, "Classification pass completed", "Continue"⟩,
    ⟨blockLocated, "Scanning", .low, true, false, "Enclosing block located", "Continue"⟩,
    ⟨grammarConstructed, "Grammar", .low, true, false, "Precedence grammar constructed",
      "Continue"⟩,
    ⟨indentationComputed, "Indentation", .low, true, false, "Line indentation computed",
      "Continue"⟩,
    ⟨regionReindented, "Indentation", .low, true, false, "Region reindented", "Continue"⟩]

def registered? (code : String) : Option CodeEntry :=
  registry.find? (·.code == code)

/-- The entry of a code, or what is assumed of a code without one. -/
def entry (code : String) : CodeEntry :=
  (registered? code).getD
    ⟨code, "Unknown", .medium, true, false, "Unknown error", "No specific action available"⟩

end Code
end SasLayout
