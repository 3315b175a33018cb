import Mathlib.Data.Fintype.Basic
import SasLayout.Grammar.Builtin
import SasLayout.Proofs.Precedences
import SasLayout.Proofs.SolvedLevels

set_option autoImplicit false

/-!
The parts that names play in the rules of the language. Names with the same part have the same
levels, so what the rules derive is looked up among the parts, which are few.
-/
namespace SasLayout

/-! ### Renaming -/

section Renaming

variable {τ σ : Type}

def Symbol.map (f : τ → σ) : Symbol τ → Symbol σ
  | .terminal name => .terminal (f name)
  | .nonterminal name => .nonterminal (f name)

def Rule.map (f : τ → σ) (rule : Rule τ) : Rule σ :=
  ⟨f rule.head, rule.body.map (Symbol.map f)⟩

theorem Rule.map_reverse (f : τ → σ) (rule : Rule τ) :
    rule.reverse.map f = (rule.map f).reverse := by
  simp [Rule.map, Rule.reverse]

/-- What leads in some rules leads, under its new name, in rules that hold their images. -/
theorem Rules.Leads.map {f : τ → σ} {rules : List (Rule τ)} {images : List (Rule σ)}
    (sent : ∀ rule ∈ rules, rule.map f ∈ images) {n t : τ} (leads : Leads rules n t) :
    Leads images (f n) (f t) := by
  induction leads with
  | head rule => exact .head (sent _ rule)
  | second rule => exact .second (sent _ rule)
  | through rule _ ih => exact .through (sent _ rule) ih

theorem Grammar.Relates.map {f : τ → σ} {first last : τ → τ → Prop} {first' last' : σ → σ → Prop}
    (firsts : ∀ n t, first n t → first' (f n) (f t)) (lasts : ∀ n t, last n t → last' (f n) (f t))
    {body : List (Symbol τ)} {a b : τ} {r : Relation} (related : Relates first last body a b r) :
    Relates first' last' (body.map (Symbol.map f)) (f a) (f b) r := by
  cases related with
  | adjacent part => exact .adjacent (part.map (Symbol.map f))
  | around part => exact .around (part.map (Symbol.map f))
  | before part edge => exact .before (part.map (Symbol.map f)) (firsts _ _ edge)
  | after part edge => exact .after (part.map (Symbol.map f)) (lasts _ _ edge)

variable [DecidableEq τ] [LT τ] [DecidableLT τ] [DecidableEq σ] [LT σ] [DecidableLT σ]

/-- What some rules derive is derived, under its new name, by rules that hold their images, with
any sets that are closed under those. -/
theorem Grammar.mem_derive_map {f : τ → σ} {rules : List (Rule τ)} {images : List (Rule σ)}
    (sent : ∀ rule ∈ rules, rule.map f ∈ images) {first last : Rules.EdgeSets σ}
    (firsts : Rules.Closed images first) (lasts : Rules.Closed (images.map Rule.reverse) last)
    {a b : τ} {r : Relation} (derived : ⟨a, b, r⟩ ∈ derivations rules) :
    ⟨f a, f b, r⟩ ∈ images.flatMap fun rule => derive first last rule.body := by
  obtain ⟨rule, member, related⟩ := mem_derivations.mp derived
  refine List.mem_flatMap.mpr ⟨rule.map f, sent rule member, mem_derive.mpr (related.map ?_ ?_)⟩
  · exact fun n t leads => (leads.map sent).mem_held firsts
  · refine fun n t leads => (leads.map fun reversed inside => ?_).mem_held lasts
    obtain ⟨original, member, rfl⟩ := List.mem_map.mp inside
    exact Rule.map_reverse f original ▸ List.mem_map.mpr ⟨_, sent original member, rfl⟩

end Renaming

namespace Grammar

/-! ### Parts -/

/-- The part that a name plays in the rules of the language. -/
inductive Part where
  | statements
  | statement
  | expression
  | arguments
  | semicolon
  | comma
  | opener
  | closer
  | condition
  | consequence
  /-- A word before a statement or an expression. -/
  | lead
  | operator (rank : Fin 8)
  | bracket
  | bracketEnd
deriving DecidableEq, Ord

namespace Part

instance : LT Part := ltOfOrd

end Part

def partOfWord : List (String × Part) :=
  [("insts", .statements), ("inst", .statement), ("exp", .expression), ("exps", .arguments),
    ("proc", .opener), ("data", .opener), ("%macro", .opener), ("do", .opener), ("%do", .opener),
    ("select", .opener), ("run", .closer), ("quit", .closer), ("%mend", .closer), ("end", .closer),
    ("%end", .closer), ("if", .condition), ("%if", .condition), ("then", .consequence),
    ("%then", .consequence), ("else", .lead), ("%else", .lead), ("output", .lead),
    ("dataequal", .lead), ("(", .bracket), (")", .bracketEnd)]

/-- The part of a name: for an operator it is its place in the table. -/
def part (name : String) : Part :=
  match standardTable.levels.findIdx? (·.operators.contains name) with
  | some 0 => .semicolon
  | some 1 => .comma
  | some (rank + 2) => .operator (Fin.ofNat 8 rank)
  | none => (partOfWord.lookup name).getD .statements

/-- The rules between the parts. -/
def partRules : List (Rule Part) :=
  [⟨.statements, [.nonterminal .statements, .terminal .semicolon, .nonterminal .statements]⟩,
    ⟨.statements, [.nonterminal .statement]⟩,
    ⟨.statement, [.terminal .opener, .nonterminal .statements, .terminal .closer]⟩,
    ⟨.statement, [.terminal .condition, .nonterminal .expression, .terminal .consequence,
      .nonterminal .statement]⟩,
    ⟨.statement, [.terminal .lead, .nonterminal .statement]⟩,
    ⟨.statement, [.terminal .lead, .nonterminal .expression]⟩,
    ⟨.statement, [.nonterminal .expression]⟩,
    ⟨.expression, [.terminal (.operator 2), .nonterminal .expression]⟩,
    ⟨.expression, [.terminal .bracket, .nonterminal .arguments, .terminal .bracketEnd]⟩,
    ⟨.arguments, [.nonterminal .arguments, .terminal .comma, .nonterminal .arguments]⟩,
    ⟨.arguments, [.nonterminal .expression]⟩] ++
  ([0, 1, 3, 4, 5, 6, 7] : List (Fin 8)).map fun rank =>
    ⟨.expression, [.nonterminal .expression, .terminal (.operator rank), .nonterminal .expression]⟩

/-- Levels for the sides of the terminals that play a part. -/
def Part.sides : Part → Levels.Sides
  | semicolon | comma => ⟨10, 10⟩
  | opener | condition => ⟨30, 0⟩
  | closer | consequence => ⟨0, 20⟩
  | lead => ⟨30, 20⟩
  | bracket => ⟨140, 0⟩
  | bracketEnd => ⟨0, 150⟩
  | operator 0 => ⟨30, 40⟩
  | operator 1 => ⟨50, 60⟩
  | operator 2 => ⟨140, 60⟩
  | operator 3 => ⟨70, 80⟩
  | operator 4 => ⟨90, 100⟩
  | operator 5 => ⟨110, 110⟩
  | operator 6 => ⟨120, 120⟩
  | operator 7 => ⟨140, 130⟩
  | statements | statement | expression | arguments => ⟨0, 0⟩

theorem Part.sides_small (kind : Part) :
    kind.sides.left + Levels.step ≤ Limits.level ∧
      kind.sides.right + Levels.step ≤ Limits.level := by
  cases kind with
  | operator rank => revert rank; decide
  | _ => decide

/-- Whether the rules relate terminals of the two parts in two ways. -/
def Part.isOpen : Part → Part → Bool
  | semicolon, semicolon | comma, comma => true
  | operator _, operator rank => rank != 2
  | _, _ => false

def operatorParts : List Part :=
  [.operator 0, .operator 1, .operator 2, .operator 3, .operator 4, .operator 5, .operator 6,
    .operator 7]

/-- The parts that can come first in what each part derives. -/
def partFirst : Rules.EdgeSets Part :=
  ⟨[(.statements, .semicolon :: .opener :: .condition :: .lead :: .bracket :: operatorParts),
    (.statement, .opener :: .condition :: .lead :: .bracket :: operatorParts),
    (.arguments, .comma :: .bracket :: operatorParts), (.expression, .bracket :: operatorParts)]⟩

/-- The parts that can come last. -/
def partLast : Rules.EdgeSets Part :=
  ⟨[(.statements, .semicolon :: .closer :: .consequence :: .lead :: .bracketEnd :: operatorParts),
    (.statement, .closer :: .consequence :: .lead :: .bracketEnd :: operatorParts),
    (.arguments, .comma :: .bracketEnd :: operatorParts),
    (.expression, .bracketEnd :: operatorParts)]⟩

/-- The place of a part in the table. -/
def Part.rank? : Part → Option Nat
  | semicolon => some 0
  | comma => some 1
  | operator rank => some (rank + 2)
  | _ => none

/-- The relation that the table has for operators on two of its levels. -/
def tableRelation (i j : Nat) : Relation :=
  if i < j then .lt
  else if j < i then .gt
  else standardTable.levels[i]?.elim .eq fun level => level.associativity.within

/-- The body of the rule of an operator. -/
def operatorBody (rank : Fin 8) (name : String) : List (Symbol String) :=
  if rank = 2 then [.terminal name, .nonterminal "exp"]
  else [.nonterminal "exp", .terminal name, .nonterminal "exp"]

/-- The terminals of the language in ascending order. -/
def standardTerminals : List String :=
  ["!", "!!", "%do", "%else", "%end", "%if", "%macro", "%mend", "%then", "&", "(", ")", "*", "**",
    "+", ",", "-", "/", ";", "<", "<=", "<>", "=", "=:", ">", "><", ">=", "^", "^=", "and", "data",
    "dataequal", "do", "else", "end", "eq", "ge", "gt", "if", "in", "le", "lt", "ne", "not", "or",
    "output", "proc", "quit", "run", "select", "then", "|", "||", "~", "~="]

/-- Whether the rule of a statement ends with the name and a nonterminal. -/
def endsWithLead (name : String) (rule : Rule String) : Bool :=
  match rule.body.reverse with
  | .nonterminal _ :: .terminal t :: _ => rule.head = "inst" && t = name
  | _ => false

/-- The parts of the terminals that open a rule. -/
def Part.opens : Part → Bool
  | opener | condition | lead | bracket | operator 2 => true
  | _ => false

/-- The parts of the terminals that close a rule. -/
def Part.closes : Part → Bool
  | closer | bracketEnd => true
  | _ => false

/-- The levels of the terminals of the language. -/
def standardLevels : Dict String TerminalLevels :=
  ⟨[("!", ⟨some 30, some 40⟩), ("!!", ⟨some 90, some 100⟩), ("%do", ⟨none, some 0⟩),
    ("%else", ⟨none, some 20⟩), ("%end", ⟨some 0, none⟩), ("%if", ⟨none, some 0⟩),
    ("%macro", ⟨none, some 0⟩), ("%mend", ⟨some 0, none⟩), ("%then", ⟨some 0, some 20⟩),
    ("&", ⟨some 50, some 60⟩), ("(", ⟨none, some 0⟩), (")", ⟨some 0, none⟩),
    ("*", ⟨some 120, some 120⟩), ("**", ⟨some 140, some 130⟩), ("+", ⟨some 110, some 110⟩),
    (",", ⟨some 10, some 10⟩), ("-", ⟨some 110, some 110⟩), ("/", ⟨some 120, some 120⟩),
    (";", ⟨some 10, some 10⟩), ("<", ⟨some 70, some 80⟩), ("<=", ⟨some 70, some 80⟩),
    ("<>", ⟨some 140, some 130⟩), ("=", ⟨some 70, some 80⟩), ("=:", ⟨some 70, some 80⟩),
    (">", ⟨some 70, some 80⟩), ("><", ⟨some 140, some 130⟩), (">=", ⟨some 70, some 80⟩),
    ("^", ⟨none, some 60⟩), ("^=", ⟨some 70, some 80⟩), ("and", ⟨some 50, some 60⟩),
    ("data", ⟨none, some 0⟩), ("dataequal", ⟨none, some 20⟩), ("do", ⟨none, some 0⟩),
    ("else", ⟨none, some 20⟩), ("end", ⟨some 0, none⟩), ("eq", ⟨some 70, some 80⟩),
    ("ge", ⟨some 70, some 80⟩), ("gt", ⟨some 70, some 80⟩), ("if", ⟨none, some 0⟩),
    ("in", ⟨some 70, some 80⟩), ("le", ⟨some 70, some 80⟩), ("lt", ⟨some 70, some 80⟩),
    ("ne", ⟨some 70, some 80⟩), ("not", ⟨none, some 60⟩), ("or", ⟨some 30, some 40⟩),
    ("output", ⟨none, some 20⟩), ("proc", ⟨none, some 0⟩), ("quit", ⟨some 0, none⟩),
    ("run", ⟨some 0, none⟩), ("select", ⟨none, some 0⟩), ("then", ⟨some 0, some 20⟩),
    ("|", ⟨some 30, some 40⟩), ("||", ⟨some 90, some 100⟩), ("~", ⟨none, some 60⟩),
    ("~=", ⟨some 70, some 80⟩)]⟩

/-- The levels of a terminal by its part, without the sides that openers and closers lack. -/
def Part.levels (kind : Part) : TerminalLevels :=
  ⟨if kind.opens then none else some kind.sides.left,
    if kind.closes then none else some kind.sides.right⟩

/-- What evaluation shows of the rules, the table and the parts: all that the levels need. -/
class Checked : Prop where
  separate : (rulesFor standardTable).find? Rule.hasAdjacent = none
  terminals : Rules.terminals (rulesFor standardTable) = standardTerminals
  parts : ∀ rule ∈ rulesFor standardTable, rule.map part ∈ partRules
  firsts : Rules.Closed partRules partFirst
  lasts : Rules.Closed (partRules.map Rule.reverse) partLast
  /-- What the rules of the parts derive holds of their sides, unless the table decides. -/
  spaced : ∀ d ∈ partRules.flatMap fun rule => derive partFirst partLast rule.body,
    d.left.isOpen d.right ∨ d.relation.Spaced Levels.step d.left.sides.right d.right.sides.left
  /-- So does what the table says of operators. -/
  operators : ∀ i j : Fin 8, j ≠ 2 → (tableRelation (i + 2) (j + 2)).Spaced Levels.step
    (Part.operator i).sides.right (Part.operator j).sides.left
  apart : PrecedenceTable.Apart standardTable.levels
  words : ∀ entry ∈ partOfWord, entry.2.rank? = none
  bodies : ∀ rank : Fin 8, ∀ level ∈ standardTable.levels[rank.val + 2]?,
    ∀ name ∈ level.operators, (name != ";" && name != ",") ∧
      operatorRule standardTable level name = ⟨"exp", operatorBody rank name⟩
  leads : ∀ name ∈ standardTerminals, part name = .lead ∨ part name = .consequence →
    ∃ rule ∈ rulesFor standardTable, endsWithLead name rule
  edges : ∀ name ∈ standardTerminals,
    (openers (rulesFor standardTable)).contains name = (part name).opens ∧
      (closers (rulesFor standardTable)).contains name = (part name).closes
  levels : standardLevels.entries = standardTerminals.map fun name => (name, (part name).levels)
  names : [";", ",", "do", "(", "then", "or", "and", "=", "||", "+", "*"].map part =
    [.semicolon, .comma, .opener, .bracket, .consequence, .operator 0, .operator 1, .operator 3,
      .operator 4, .operator 5, .operator 6]

end Grammar
end SasLayout
