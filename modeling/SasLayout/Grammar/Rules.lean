import SasLayout.Dict

set_option autoImplicit false

/-! Context-free rules, and the terminals that can stand at the edges of what a nonterminal
derives. -/
namespace SasLayout

variable {τ : Type}

inductive Symbol (τ : Type) where
  | terminal (name : τ)
  | nonterminal (name : τ)
deriving DecidableEq, Repr, Inhabited

def Symbol.terminal? : Symbol τ → Option τ
  | terminal name => some name
  | nonterminal _ => none

def Symbol.isTerminal (s : Symbol τ) : Bool :=
  s.terminal?.isSome

structure Rule (τ : Type) where
  head : τ
  body : List (Symbol τ)
deriving DecidableEq, Repr, Inhabited

def Rule.reverse (rule : Rule τ) : Rule τ :=
  ⟨rule.head, rule.body.reverse⟩

/-- Whether two nonterminals stand next to each other. -/
def Rule.hasAdjacent (rule : Rule τ) : Bool :=
  (rule.body.zip rule.body.tail).any fun (x, y) => !x.isTerminal && !y.isTerminal

namespace Rules

variable [DecidableEq τ] [LT τ] [DecidableLT τ]

/-- The terminals of the rules in ascending order. -/
def terminals (rules : List (Rule τ)) : List τ :=
  Ascending.ofList ((rules.flatMap (·.body)).filterMap Symbol.terminal?)

/-- Sets of terminals under nonterminals. -/
abbrev EdgeSets (τ : Type) := Dict τ (List τ)

/-- The terminals that a body puts first, given those known so far: a leading terminal, or those of
a leading nonterminal and the terminal right after it. -/
def leading (sets : EdgeSets τ) : List (Symbol τ) → List τ
  | .terminal t :: _ => [t]
  | .nonterminal n :: .terminal t :: _ => Ascending.insert t ((sets.find? n).getD [])
  | .nonterminal n :: _ => (sets.find? n).getD []
  | [] => []

def extend (sets : EdgeSets τ) (rule : Rule τ) : EdgeSets τ :=
  sets.insert rule.head
    (Ascending.union ((sets.find? rule.head).getD []) (leading sets rule.body))

/-- Extends the sets by the rules until nothing changes, `rounds` times at most. -/
def saturate (rules : List (Rule τ)) : (rounds : Nat) → EdgeSets τ → EdgeSets τ
  | 0, sets => sets
  | rounds + 1, sets =>
    if rules.foldl extend sets = sets then sets
    else saturate rules rounds (rules.foldl extend sets)

/-- The empty sets of the nonterminals that have rules. -/
def emptySets (rules : List (Rule τ)) : EdgeSets τ :=
  rules.foldl (fun sets rule => sets.insert rule.head []) .empty

/-- The terminals that can come first in what each nonterminal derives. Every round but the last
adds a terminal to some set, which bounds their number. -/
def firstSets (rules : List (Rule τ)) : EdgeSets τ :=
  saturate rules (rules.length * (terminals rules).length + 1) (emptySets rules)

/-- The terminals that can come last. -/
def lastSets (rules : List (Rule τ)) : EdgeSets τ :=
  firstSets (rules.map Rule.reverse)

end Rules
end SasLayout
