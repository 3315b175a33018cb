import SasLayout.Grammar
import SasLayout.Logged

set_option autoImplicit false

/-! The grammar of the step language. The rules of its operators come from the precedence table, so
that the two agree. -/
namespace SasLayout.Grammar

def standardTable : PrecedenceTable String :=
  ⟨[⟨.both, [";"], false⟩,
    ⟨.both, [","], false⟩,
    ⟨.left, ["or", "|", "!"], false⟩,
    ⟨.left, ["and", "&"], false⟩,
    ⟨.none, ["not", "^", "~"], true⟩,
    ⟨.none, ["=", "eq", "ne", "^=", "~=", "<", "<=", ">", ">=", "lt", "le", "gt", "ge", "in",
      "=:"], false⟩,
    ⟨.left, ["||", "!!"], false⟩,
    ⟨.both, ["+", "-"], false⟩,
    ⟨.both, ["*", "/"], false⟩,
    ⟨.right, ["**", "<>", "><"], false⟩]⟩

/-- The words that enclose a list of statements. -/
def groupWords : List (String × String) :=
  [("proc", "run"), ("proc", "quit"), ("data", "run"), ("%macro", "%mend"), ("do", "end"),
    ("%do", "%end"), ("select", "end")]

def statementRules : List (Rule String) :=
  [⟨"insts", [.nonterminal "insts", .terminal ";", .nonterminal "insts"]⟩,
    ⟨"insts", [.nonterminal "inst"]⟩] ++
  groupWords.map (fun (opener, closer) =>
    ⟨"inst", [.terminal opener, .nonterminal "insts", .terminal closer]⟩) ++
  [⟨"inst", [.terminal "if", .nonterminal "exp", .terminal "then", .nonterminal "inst"]⟩,
    ⟨"inst", [.terminal "else", .nonterminal "inst"]⟩,
    ⟨"inst", [.terminal "%if", .nonterminal "exp", .terminal "%then", .nonterminal "inst"]⟩,
    ⟨"inst", [.terminal "%else", .nonterminal "inst"]⟩,
    ⟨"inst", [.terminal "output", .nonterminal "exp"]⟩,
    ⟨"inst", [.terminal "dataequal", .nonterminal "exp"]⟩,
    ⟨"inst", [.nonterminal "exp"]⟩]

/-- The rule of an operator: before its operand when it is unary, else between two. -/
def operatorRule (table : PrecedenceTable String) (level : PrecedenceLevel String)
    (operator : String) : Rule String :=
  if level.associativity = .none && table.isUnary operator then
    ⟨"exp", [.terminal operator, .nonterminal "exp"]⟩
  else ⟨"exp", [.nonterminal "exp", .terminal operator, .nonterminal "exp"]⟩

def operatorRules (table : PrecedenceTable String) : List (Rule String) :=
  table.levels.flatMap fun level =>
    (level.operators.filter fun op => op != ";" && op != ",").map (operatorRule table level)

def bracketRules : List (Rule String) :=
  [⟨"exp", [.terminal "(", .nonterminal "exps", .terminal ")"]⟩,
    ⟨"exps", [.nonterminal "exps", .terminal ",", .nonterminal "exps"]⟩,
    ⟨"exps", [.nonterminal "exp"]⟩]

/-- The rules of the language for the operators of a table. -/
def rulesFor (table : PrecedenceTable String) : List (Rule String) :=
  statementRules ++ operatorRules table ++ bracketRules

/-- The grammar of the language. -/
def standard : Except (GrammarError String) (Grammar String) :=
  build (rulesFor standardTable) standardTable

def conflictEvent (c : Conflict String) : Event :=
  (((Event.warningWith Code.precedenceConflict "Unresolved precedence conflict").attach "pair"
    s!"{c.left} {c.right}").attach "kept" c.kept.sign).attach "rejected" c.rejected.sign

/-- What is logged when the grammar is first asked for. -/
def constructionEvents : Except (GrammarError String) (Grammar String) → Array Event
  | .error _ => #[]
  | .ok g =>
    (g.conflicts.map conflictEvent).toArray.push
      ((Event.success Code.grammarConstructed "Precedence grammar constructed").attach "terminals"
        s!"{g.terminalCount}")

end SasLayout.Grammar
