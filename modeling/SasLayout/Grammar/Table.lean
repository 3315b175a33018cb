import SasLayout.Grammar.Relation

set_option autoImplicit false

/-!
Precedence tables. Their levels go from the loosest binding to the tightest, and a table settles
only the pairs that the rules of a grammar leave open.
-/
namespace SasLayout

inductive Associativity where
  | left
  | right
  /-- Either grouping means the same. -/
  | both
  | none
deriving DecidableEq, Repr, Inhabited

/-- The relation between two operators of one level. Operators that do not chain are grouped as
those that associate to the left. -/
def Associativity.within : Associativity → Relation
  | left => .gt
  | none => .gt
  | right => .lt
  | both => .eq

structure PrecedenceLevel (τ : Type) where
  associativity : Associativity
  operators : List τ
  /-- Whether the operators stand before their only operand. -/
  unary : Bool := false
deriving DecidableEq, Repr, Inhabited

structure PrecedenceTable (τ : Type) where
  levels : List (PrecedenceLevel τ)
deriving DecidableEq, Repr, Inhabited

namespace PrecedenceTable

variable {τ : Type} [DecidableEq τ] [LT τ] [DecidableLT τ]

def isUnary (table : PrecedenceTable τ) (operator : τ) : Bool :=
  table.levels.any fun level => level.unary && level.operators.contains operator

def contains (table : PrecedenceTable τ) (operator : τ) : Bool :=
  table.levels.any (·.operators.contains operator)

/-- Relates each operator of `as` to each of `bs`. -/
def relateAll (r : Relation) (as bs : List τ) (rs : Relations τ) : Relations τ :=
  as.foldl (fun rs a => bs.foldl (fun rs b => rs.insert a b r) rs) rs

/-- Relates each operator to those of its own level. -/
def relateWithin (levels : List (PrecedenceLevel τ)) (rs : Relations τ) : Relations τ :=
  levels.foldl (fun rs level =>
    relateAll level.associativity.within level.operators level.operators rs) rs

/-- Relates the operators of two levels, of which the first binds more loosely. -/
def relateAcross (lower higher : PrecedenceLevel τ) (rs : Relations τ) : Relations τ :=
  lower.operators.foldl (fun rs a =>
    higher.operators.foldl (fun rs b => (rs.insert a b .lt).insert b a .gt) rs) rs

def relateBetween : List (PrecedenceLevel τ) → Relations τ → Relations τ
  | [], rs => rs
  | lower :: rest, rs =>
    relateBetween rest (rest.foldl (fun rs higher => relateAcross lower higher rs) rs)

/-- The relations that the table gives, where the last one counts if a pair has several. -/
def relations (table : PrecedenceTable τ) : Relations τ :=
  relateBetween table.levels (relateWithin table.levels .empty)

end PrecedenceTable
end SasLayout
