import SasLayout.Grammar.Levels
import SasLayout.Grammar.Rules
import SasLayout.Grammar.Table

set_option autoImplicit false

/-!
Operator precedence grammars, built from rules and a table. Terminals that open a rule have no left
level and those that close one have no right level, so that they pair like brackets.
-/
namespace SasLayout

/-- The levels of a terminal on its two sides. -/
structure TerminalLevels where
  /-- None for openers. -/
  left : Option Nat
  /-- None for closers. -/
  right : Option Nat
deriving DecidableEq, Repr, Inhabited

/-- The same level on both sides. -/
def TerminalLevels.isAssociative (levels : TerminalLevels) : Bool :=
  levels.left.isSome && levels.left = levels.right

inductive Category where
  | opener
  | closer
  | separator
  | binaryOperator
  | atom
deriving DecidableEq, Repr, Inhabited

/-- A pair that the rules relate in two ways and the table does not settle. -/
structure Conflict (τ : Type) where
  left : τ
  right : τ
  kept : Relation
  rejected : Relation
deriving DecidableEq, Repr

structure Grammar (τ : Type) where
  levels : Dict τ TerminalLevels
  conflicts : List (Conflict τ)
deriving DecidableEq, Repr

namespace Grammar

variable {τ : Type} [DecidableEq τ] [LT τ] [DecidableLT τ]

/-- A relation that a rule derives for a pair of terminals. -/
structure Derivation (τ : Type) where
  left : τ
  right : τ
  relation : Relation
deriving DecidableEq, Repr

/-- The relations that the symbols of a body derive, from left to right. -/
def derive (first last : Rules.EdgeSets τ) : List (Symbol τ) → List (Derivation τ)
  | .terminal a :: .terminal b :: rest =>
    ⟨a, b, .eq⟩ :: derive first last (.terminal b :: rest)
  | .terminal a :: .nonterminal n :: .terminal b :: rest =>
    ((first.find? n).getD []).map (⟨a, ·, .lt⟩) ++
      ⟨a, b, .eq⟩ :: derive first last (.nonterminal n :: .terminal b :: rest)
  | .terminal a :: .nonterminal n :: rest =>
    ((first.find? n).getD []).map (⟨a, ·, .lt⟩) ++ derive first last (.nonterminal n :: rest)
  | .nonterminal n :: .terminal b :: rest =>
    ((last.find? n).getD []).map (⟨·, b, .gt⟩) ++ derive first last (.terminal b :: rest)
  | _ :: rest => derive first last rest
  | [] => []

def derivations (rules : List (Rule τ)) : List (Derivation τ) :=
  let first := Rules.firstSets rules
  let last := Rules.lastSets rules
  rules.flatMap fun rule => derive first last rule.body

/-- The relations recorded so far and the conflicts met. -/
structure Record (τ : Type) where
  relations : Relations τ
  conflicts : List (Conflict τ)
deriving DecidableEq, Repr

/-- Records one derived relation. Where it differs from an earlier one the table decides, and
without an entry there the earlier one stays and the first difference is kept as a conflict. -/
def record (table : Relations τ) (known : Record τ) (d : Derivation τ) : Record τ :=
  match known.relations.find? d.left d.right with
  | none => { known with relations := known.relations.insert d.left d.right d.relation }
  | some existing =>
    if existing = d.relation then known
    else
      match table.find? d.left d.right with
      | some settled =>
        { known with relations := known.relations.insert d.left d.right settled }
      | none =>
        if known.conflicts.any fun c => c.left = d.left && c.right = d.right then known
        else
          { known with
            conflicts := known.conflicts ++ [⟨d.left, d.right, existing, d.relation⟩] }

def recordAll (table : Relations τ) (ds : List (Derivation τ)) : Record τ :=
  ds.foldl (record table) ⟨.empty, []⟩

/-- The terminals that open some rule. -/
def openers (rules : List (Rule τ)) : List τ :=
  rules.filterMap fun rule => rule.body.head?.bind Symbol.terminal?

/-- The terminals that close some rule. -/
def closers (rules : List (Rule τ)) : List τ :=
  rules.filterMap fun rule => rule.body.getLast?.bind Symbol.terminal?

/-- The levels of a terminal without those that openers and closers lack. -/
def exposed (openers closers : List τ) (t : τ) (s : Levels.Sides) : TerminalLevels :=
  ⟨if openers.contains t then none else some s.left,
    if closers.contains t then none else some s.right⟩

def build (rules : List (Rule τ)) (table : PrecedenceTable τ) :
    Except (GrammarError τ) (Grammar τ) :=
  match rules.find? Rule.hasAdjacent with
  | some rule => .error (.adjacentNonterminals rule.head)
  | none =>
    let recorded := recordAll table.relations (derivations rules)
    match Levels.solve (Rules.terminals rules) recorded.relations with
    | .error cause => .error cause
    | .ok solved =>
      .ok ⟨solved.mapValues (exposed (openers rules) (closers rules)), recorded.conflicts⟩

/-- The levels of a name; a name without levels, such as the empty one, is an operand. -/
def levels? (g : Grammar String) (name : String) : Option TerminalLevels :=
  if name.isEmpty then none else g.levels.find? name

def category (g : Grammar String) (name : String) : Category :=
  match g.levels? name with
  | none => .atom
  | some levels =>
    if levels.left.isNone then .opener
    else if levels.right.isNone then .closer
    else if name == ";" || name == "," then .separator
    else .binaryOperator

def terminalCount (g : Grammar τ) : Nat :=
  g.levels.size

end Grammar
end SasLayout
