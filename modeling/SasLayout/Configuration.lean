import SasLayout.Event
import SasLayout.Json
import SasLayout.Settings

set_option autoImplicit false

/-! The settings of a whole run. What is not written in a file comes from the environment, and
what the environment does not say has a default. -/
namespace SasLayout

/-- Environment variables with their values. -/
abbrev Environment := List (String × String)

structure LoggingSettings where
  /-- Whether events are written as JSON. -/
  structured : Bool := false
  console : Bool := false
  /-- The least severe level that is written. -/
  threshold : Level := .info
  /-- Whether events name the text at hand. -/
  bufferContext : Bool := true
deriving DecidableEq, Repr, Inhabited

structure Configuration where
  lexical : LexicalSettings := {}
  scanning : ScanSettings := {}
  indentation : IndentSettings := {}
  logging : LoggingSettings := {}
deriving DecidableEq, Repr, Inhabited

inductive ConfigurationError where
  /-- The file cannot be read as settings. -/
  | malformed
  | indentWidth (width limit : Nat)
deriving DecidableEq, Repr

def ConfigurationError.message : ConfigurationError → String
  | malformed => "Invalid configuration file"
  | indentWidth width limit => s!"Indent width {width} outside 1..={limit}"

namespace Read

/-- The value of decimal digits. -/
def digits? (cs : List Char) : Option Nat :=
  if cs.isEmpty || !cs.all Char.isDigit then none
  else some (cs.foldl (fun n c => 10 * n + (c.toNat - '0'.toNat)) 0)

theorem digits?_toDigits (n : Nat) : digits? (Nat.toDigits 10 n) = some n := by
  have digits : (Nat.toDigits 10 n).all Char.isDigit = true :=
    List.all_eq_true.mpr fun _ member =>
      Nat.isDigit_of_mem_toDigits (by decide) (by decide) member
  have some : (Nat.toDigits 10 n).isEmpty = false := by
    simp [Nat.toDigits_ne_nil]
  rw [digits?, some, digits]
  exact congrArg Option.some (Nat.ofDigitChars_toDigits (by decide) (by decide))

/-- A number in decimal digits, which may follow a plus sign. -/
def number? (s : String) : Option Nat :=
  let digits := match s.toList with
    | '+' :: rest => rest
    | cs => cs
  (digits? digits).filter (· ≤ Limits.number)

def boolean? (s : String) : Option Bool :=
  match s with
  | "true" => some true
  | "false" => some false
  | _ => none

/-- A level by its name or its rank. -/
def level? (s : String) : Option Level :=
  match s.map Char.toLower with
  | "error" | "0" => some .error
  | "warning" | "warn" | "1" => some .warning
  | "info" | "2" => some .info
  | "debug" | "3" => some .debug
  | _ => none

end Read

namespace Environment

/-- The variables that have a meaning. -/
def variableNames : List String :=
  ["SAS_SYNTAX_MACRO_COMMENTS", "SAS_SYNTAX_DOUBLE_QUOTED_STRINGS", "SAS_SYNTAX_ANCHOR_KEYWORDS",
    "SAS_SYNTAX_QUIT_CLOSES_STEPS", "SAS_SYNTAX_LOG_REJECTED_MATCHES", "SAS_SYNTAX_INDENT_WIDTH",
    "SAS_SYNTAX_CONTINUATION_UNITS", "SAS_SYNTAX_LOGGING_USE_STRUCTURED",
    "SAS_SYNTAX_LOGGING_ENABLE_CONSOLE", "SAS_SYNTAX_LOGGING_MIN_LEVEL",
    "SAS_SYNTAX_LOGGING_BUFFER_CONTEXT"]

/-- What a variable says, if it is set and can be read. -/
def read {α : Type} (env : Environment) (name : String) (read? : String → Option α)
    (default : α) : α :=
  ((env.lookup name).bind read?).getD default

def lexical (env : Environment) : LexicalSettings where
  macroComments := env.read "SAS_SYNTAX_MACRO_COMMENTS" Read.boolean? true
  doubleQuotes := env.read "SAS_SYNTAX_DOUBLE_QUOTED_STRINGS" Read.boolean? true

def scanning (env : Environment) : ScanSettings where
  anchorKeywords := env.read "SAS_SYNTAX_ANCHOR_KEYWORDS" Read.boolean? true
  quitCloses := env.read "SAS_SYNTAX_QUIT_CLOSES_STEPS" Read.boolean? true
  logRejected := env.read "SAS_SYNTAX_LOG_REJECTED_MATCHES" Read.boolean? false

def indentation (env : Environment) : IndentSettings where
  width := env.read "SAS_SYNTAX_INDENT_WIDTH" Read.number? 4
  continuationUnits := env.read "SAS_SYNTAX_CONTINUATION_UNITS" Read.number? 1

def logging (env : Environment) : LoggingSettings where
  structured := env.read "SAS_SYNTAX_LOGGING_USE_STRUCTURED" Read.boolean? false
  console := env.read "SAS_SYNTAX_LOGGING_ENABLE_CONSOLE" Read.boolean? false
  threshold := env.read "SAS_SYNTAX_LOGGING_MIN_LEVEL" Read.level? .info
  bufferContext := env.read "SAS_SYNTAX_LOGGING_BUFFER_CONTEXT" Read.boolean? true

def configuration (env : Environment) : Configuration where
  lexical := env.lexical
  scanning := env.scanning
  indentation := env.indentation
  logging := env.logging

end Environment

namespace Configuration

/-- Whether the settings can be used. -/
def validate (c : Configuration) : Except ConfigurationError Unit :=
  let width := c.indentation.width
  let widest := c.indentation.limits.width
  if width = 0 || widest < width then .error (.indentWidth width widest)
  else .ok ()

def toJson (c : Configuration) : Json :=
  .object [
    ("lexical", .object [
      ("recognize_macro_comments", .bool c.lexical.macroComments),
      ("double_quoted_strings", .bool c.lexical.doubleQuotes)]),
    ("scanning", .object [
      ("anchor_keywords_at_statement_start", .bool c.scanning.anchorKeywords),
      ("quit_closes_steps", .bool c.scanning.quitCloses),
      ("log_rejected_matches", .bool c.scanning.logRejected)]),
    ("indentation", .object [
      ("basic_offset", .number c.indentation.width),
      ("continuation_units", .number c.indentation.continuationUnits)]),
    ("logging", .object [
      ("use_structured_logging", .bool c.logging.structured),
      ("enable_console_logging", .bool c.logging.console),
      ("min_log_level", .string c.logging.threshold.name),
      ("include_buffer_context", .bool c.logging.bufferContext)])]

end Configuration
end SasLayout
