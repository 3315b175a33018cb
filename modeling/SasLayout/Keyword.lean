import SasLayout.Text

set_option autoImplicit false

/-!
The reserved words of the step language and of its macro language, and their operators. Words are
recognised in any mixture of cases; the spelling of a keyword is in lower case, and it is also the
keyword's name in the indentation grammar.
-/
namespace SasLayout

inductive Keyword where
  | proc | data | run | quit
  | doGroup | endGroup | select | whenCase | otherwise
  | ifTest | thenBranch | elseBranch | output | toBound | byStep | whileTest | untilTest
  | macroBegin | macroEnd
  | macroDo | macroDoEnd | macroIf | macroThen | macroElse
  | macroTo | macroBy | macroWhile | macroUntil
  | macroLet | macroPut | macroGlobal | macroLocal | macroInclude | macroReturn | macroGoto
deriving DecidableEq, Repr, Inhabited

namespace Keyword

def all : List Keyword :=
  [proc, data, run, quit, doGroup, endGroup, select, whenCase, otherwise, ifTest, thenBranch,
    elseBranch, output, toBound, byStep, whileTest, untilTest, macroBegin, macroEnd, macroDo,
    macroDoEnd, macroIf, macroThen, macroElse, macroTo, macroBy, macroWhile, macroUntil, macroLet,
    macroPut, macroGlobal, macroLocal, macroInclude, macroReturn, macroGoto]

def spelling : Keyword → String
  | proc => "proc"
  | data => "data"
  | run => "run"
  | quit => "quit"
  | doGroup => "do"
  | endGroup => "end"
  | select => "select"
  | whenCase => "when"
  | otherwise => "otherwise"
  | ifTest => "if"
  | thenBranch => "then"
  | elseBranch => "else"
  | output => "output"
  | toBound => "to"
  | byStep => "by"
  | whileTest => "while"
  | untilTest => "until"
  | macroBegin => "%macro"
  | macroEnd => "%mend"
  | macroDo => "%do"
  | macroDoEnd => "%end"
  | macroIf => "%if"
  | macroThen => "%then"
  | macroElse => "%else"
  | macroTo => "%to"
  | macroBy => "%by"
  | macroWhile => "%while"
  | macroUntil => "%until"
  | macroLet => "%let"
  | macroPut => "%put"
  | macroGlobal => "%global"
  | macroLocal => "%local"
  | macroInclude => "%include"
  | macroReturn => "%return"
  | macroGoto => "%goto"

/-- Whether `word`, given in lower case, stands for `k`; one keyword has a short form. -/
def isSpelled (k : Keyword) (word : String) : Bool :=
  word == k.spelling || (k == macroInclude && word == "%inc")

/-- The keyword that a word in lower case spells. -/
def ofSpelling? (word : String) : Option Keyword :=
  all.find? (·.isSpelled word)

/-- The keyword that a word spells in any case. -/
def lookup? (word : Text) : Option Keyword :=
  ofSpelling? word.lower.toString

/-- The keyword that closes what this one opens. -/
def closer? : Keyword → Option Keyword
  | proc => some run
  | data => some run
  | macroBegin => some macroEnd
  | doGroup => some endGroup
  | select => some endGroup
  | macroDo => some macroDoEnd
  | _ => none

def opensBlock : Keyword → Bool
  | proc | data | macroBegin | doGroup | macroDo | select => true
  | _ => false

def closesBlock : Keyword → Bool
  | run | quit | macroEnd | endGroup | macroDoEnd => true
  | _ => false

/-- The words of steps and macro definitions, as opposed to those of groups. -/
def isTopLevel : Keyword → Bool
  | proc | data | macroBegin | run | quit | macroEnd => true
  | _ => false

/-- The words whose part in a statement depends on what follows them. -/
def isContextual : Keyword → Bool
  | data | output | select => true
  | _ => false

end Keyword

namespace Operator

/-- The operators that are written as words. -/
def words : List String :=
  ["eq", "ne", "lt", "le", "gt", "ge", "and", "or", "not", "in"]

def isWord (word : String) : Bool :=
  words.contains word

/-- The operators that are written as signs, each before those that it starts with. -/
def signs : List String :=
  ["**", "||", "!!", "<=", ">=", "~=", "^=", "<>", "><", "=:",
    "+", "-", "*", "/", "=", "<", ">", "^", "~", "|", "!", "&"]

/-- The bytes of each sign. -/
def signBytes : List (List UInt8) :=
  signs.map fun sign => (Text.ofString sign).toList

end Operator
end SasLayout
