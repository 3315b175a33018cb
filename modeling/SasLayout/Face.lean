import SasLayout.Token.Lookup

set_option autoImplicit false

/-! The faces in which tokens are shown. -/
namespace SasLayout

inductive Face where
  | plain
  | keyword
  | blockKeyword
  | macroKeyword
  | operator
  | comment
  | string
  | number
  | macroVariable
  | bracket
  | delimiter
deriving DecidableEq, Repr, Inhabited

def Face.name : Face → String
  | plain => "plain"
  | keyword => "keyword"
  | blockKeyword => "block-keyword"
  | macroKeyword => "macro-keyword"
  | operator => "operator"
  | comment => "comment"
  | string => "string"
  | number => "number"
  | macroVariable => "macro-variable"
  | bracket => "bracket"
  | delimiter => "delimiter"

def Token.Kind.face : Token.Kind → Face
  | identifier => .plain
  | keyword | assignmentTarget => .keyword
  | blockOpener | blockCloser => .blockKeyword
  | operator => .operator
  | statementEnd | punctuation => .delimiter
  | comment => .comment
  | stringLiteral => .string
  | number => .number
  | openParen | closeParen => .bracket
  | macroVariable => .macroVariable

/-- The face of a token: that of its kind, except that reserved words of the macro language have
their own. -/
def Token.face (tok : Token) : Face :=
  if tok.kind.isReserved && tok.lexeme.byteIs 0 (· == Byte.percent) then .macroKeyword
  else tok.kind.face

structure StyledExtent where
  start : Nat
  stop : Nat
  face : Face
deriving DecidableEq, Repr, Inhabited

/-- The tokens that are not plain, with their faces. -/
def Source.highlight (src : Source) (face : Token → Face) : Array StyledExtent :=
  src.tokens.filterMap fun tok =>
    if face tok = .plain then none else some ⟨tok.start, tok.stop, face tok⟩

end SasLayout
