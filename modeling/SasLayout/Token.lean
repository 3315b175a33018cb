import SasLayout.Keyword

set_option autoImplicit false

/-! Tokens: a kind, the bytes they are written with and the offsets where those stand. -/
namespace SasLayout

inductive Token.Kind where
  | identifier
  | keyword
  | operator
  | blockOpener
  | blockCloser
  | statementEnd
  | comment
  | stringLiteral
  | number
  | openParen
  | closeParen
  | punctuation
  /-- A reference to a macro variable, with its ampersands. -/
  | macroVariable
  /-- The word `data` merged with the equals sign after it. -/
  | assignmentTarget
deriving DecidableEq, Repr, Inhabited

namespace Token.Kind

def all : List Kind :=
  [identifier, keyword, operator, blockOpener, blockCloser, statementEnd, comment, stringLiteral,
    number, openParen, closeParen, punctuation, macroVariable, assignmentTarget]

def name : Kind → String
  | identifier => "identifier"
  | keyword => "keyword"
  | operator => "operator"
  | blockOpener => "block-opener"
  | blockCloser => "block-closer"
  | statementEnd => "statement-end"
  | comment => "comment"
  | stringLiteral => "string-literal"
  | number => "number"
  | openParen => "open-paren"
  | closeParen => "close-paren"
  | punctuation => "punctuation"
  | macroVariable => "macro-variable"
  | assignmentTarget => "assignment-target"

def ofName? (word : String) : Option Kind :=
  all.find? (·.name == word)

/-- The kinds whose lexeme spells a keyword. -/
def isReserved : Kind → Bool
  | keyword | blockOpener | blockCloser => true
  | _ => false

/-- The kind of a word, by what it spells in lower case. -/
def ofWord (word : Text) : Kind :=
  let spelled := word.lower.toString
  match Keyword.ofSpelling? spelled with
  | some k => if k.opensBlock then blockOpener else if k.closesBlock then blockCloser else keyword
  | none => if Operator.isWord spelled then operator else identifier

end Token.Kind

structure Token where
  lexeme : Text
  kind : Token.Kind
  start : Nat
  stop : Nat
deriving DecidableEq, Inhabited

namespace Token

def size (tok : Token) : Nat :=
  tok.stop - tok.start

def isEmpty (tok : Token) : Bool :=
  tok.start == tok.stop

def isComment (tok : Token) : Bool :=
  tok.kind = .comment

def keyword? (tok : Token) : Option Keyword :=
  if tok.kind.isReserved then Keyword.lookup? tok.lexeme else none

def isKeyword (tok : Token) (k : Keyword) : Bool :=
  tok.keyword? = some k

/-- Whether the token can name a procedure or a macro. -/
def isName (tok : Token) : Bool :=
  match tok.kind with
  | .identifier | .keyword | .blockOpener | .blockCloser | .macroVariable => true
  | .operator => tok.lexeme.toList.all Byte.isLetter
  | _ => false

def isEquals (tok : Token) : Bool :=
  tok.kind = .operator && tok.lexeme.toList == [Byte.equals]

/-- The token's name in the indentation grammar, empty for operands. -/
def grammarName (tok : Token) : String :=
  match tok.kind with
  | .assignmentTarget => "dataequal"
  | .keyword | .blockOpener | .blockCloser | .operator => tok.lexeme.lower.toString
  | .statementEnd => ";"
  | .openParen => "("
  | .closeParen => ")"
  | .punctuation => if tok.lexeme.toList == [Byte.comma] then "," else ""
  | _ => ""

/-- One line that describes the token. -/
def describe (tok : Token) : String :=
  s!"{tok.kind.name} '{tok.lexeme.toString}' {tok.start}..{tok.stop}"

end Token
end SasLayout
