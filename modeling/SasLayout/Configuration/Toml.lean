import SasLayout.Configuration
import SasLayout.Toml.Reader

set_option autoImplicit false

/-! Settings in TOML. Each group of settings is a table; its values may also be listed in their
order, as an array. Keys without a meaning are passed over. -/
namespace SasLayout

namespace Toml.Value

def boolean? : Value → Option Bool
  | boolean b => some b
  | _ => none

def natural? : Value → Option Nat
  | integer (.ofNat n) => some n
  | _ => none

/-- A level by its full name. -/
def levelNamed? : String → Option Level
  | "error" => some .error
  | "warning" => some .warning
  | "info" => some .info
  | "debug" => some .debug
  | _ => none

def isEmpty : Value → Bool
  | array items => items.isEmpty
  | table _ entries => entries.isEmpty
  | tables items => items.isEmpty
  | _ => false

/-- A level as a string, or as the only key of a table with nothing under it. -/
def level? : Value → Option Level
  | string name => levelNamed? name
  | table _ [(name, v)] => if v.isEmpty then levelNamed? name else none
  | _ => none

/-- The values of a group whose settings have the given names. A date is a group without any. -/
def fields? (names : List String) : Value → Option Entries
  | table _ entries => some entries
  | array items => some (names.zip items)
  | tables items => some (names.zip (items.map (table .element)))
  | date => some []
  | _ => none

end Toml.Value

namespace Toml.Entries

/-- The setting `name` when it is written, else its default. -/
def setting? {α : Type} (entries : Entries) (name : String) (read? : Value → Option α)
    (default : α) : Option α :=
  match entries.lookup name with
  | none => some default
  | some v => read? v

/-- A group of settings when it is written, else its default. -/
def group? {α : Type} (entries : Entries) (name : String) (names : List String)
    (read? : Entries → Option α) (default : α) : Option α :=
  entries.setting? name (fun v => (v.fields? names).bind read?) default

def lexical? (d : LexicalSettings) (entries : Entries) : Option LexicalSettings := do
  return {
    macroComments := ← entries.setting? "recognize_macro_comments" Value.boolean? d.macroComments
    doubleQuotes := ← entries.setting? "double_quoted_strings" Value.boolean? d.doubleQuotes }

def scanning? (d : ScanSettings) (entries : Entries) : Option ScanSettings := do
  return {
    anchorKeywords :=
      ← entries.setting? "anchor_keywords_at_statement_start" Value.boolean? d.anchorKeywords
    quitCloses := ← entries.setting? "quit_closes_steps" Value.boolean? d.quitCloses
    logRejected := ← entries.setting? "log_rejected_matches" Value.boolean? d.logRejected }

def indentation? (d : IndentSettings) (entries : Entries) : Option IndentSettings := do
  return {
    width := ← entries.setting? "basic_offset" Value.natural? d.width
    continuationUnits :=
      ← entries.setting? "continuation_units" Value.natural? d.continuationUnits }

def logging? (d : LoggingSettings) (entries : Entries) : Option LoggingSettings := do
  return {
    structured := ← entries.setting? "use_structured_logging" Value.boolean? d.structured
    console := ← entries.setting? "enable_console_logging" Value.boolean? d.console
    threshold := ← entries.setting? "min_log_level" Value.level? d.threshold
    bufferContext := ← entries.setting? "include_buffer_context" Value.boolean? d.bufferContext }

/-- The settings of a document over defaults. -/
def configuration? (d : Configuration) (entries : Entries) : Option Configuration := do
  return {
    lexical := ← entries.group? "lexical" ["recognize_macro_comments", "double_quoted_strings"]
      (lexical? d.lexical) d.lexical
    scanning := ← entries.group? "scanning"
      ["anchor_keywords_at_statement_start", "quit_closes_steps", "log_rejected_matches"]
      (scanning? d.scanning) d.scanning
    indentation := ← entries.group? "indentation" ["basic_offset", "continuation_units"]
      (indentation? d.indentation) d.indentation
    logging := ← entries.group? "logging"
      ["use_structured_logging", "enable_console_logging", "min_log_level",
        "include_buffer_context"]
      (logging? d.logging) d.logging }

end Toml.Entries

/-- The settings that a TOML text gives in an environment. -/
def Configuration.ofToml (env : Environment) (source : String) :
    Except ConfigurationError Configuration :=
  match (Toml.read? source).bind (Toml.Entries.configuration? env.configuration) with
  | none => .error .malformed
  | some c => c.validate.map fun _ => c

end SasLayout
