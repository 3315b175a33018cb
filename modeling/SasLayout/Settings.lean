import SasLayout.Limits

set_option autoImplicit false

/-!
The choices that a user can make about lexing, block search and indentation, with the bounds that
the build puts on the last two.
-/
namespace SasLayout

structure LexicalSettings where
  /-- Whether a percent sign and a star begin a comment. -/
  macroComments : Bool := true
  /-- Whether double quotes delimit string literals. -/
  doubleQuotes : Bool := true
deriving DecidableEq, Repr, Inhabited

structure ScanSettings where
  /-- Whether a block keyword counts only where a statement starts. -/
  anchorKeywords : Bool := true
  /-- Whether `quit` closes a step as `run` does. -/
  quitCloses : Bool := true
  /-- Whether each rejected keyword is logged. -/
  logRejected : Bool := false
  limits : SearchLimits := .development
deriving DecidableEq, Repr, Inhabited

structure IndentSettings where
  /-- The columns of one level. -/
  width : Nat := 4
  /-- The levels by which a continued statement is shifted. -/
  continuationUnits : Nat := 1
  limits : IndentLimits := .development
deriving DecidableEq, Repr, Inhabited

end SasLayout
