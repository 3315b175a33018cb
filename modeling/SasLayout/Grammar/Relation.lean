import SasLayout.Dict

set_option autoImplicit false

/-! Precedence relations between the right side of one terminal and the left side of the next. -/
namespace SasLayout

inductive Relation where
  | lt
  | eq
  | gt
deriving DecidableEq, Repr, Inhabited

def Relation.sign : Relation → String
  | lt => "<"
  | eq => "="
  | gt => ">"

/-- At most one relation for each pair of terminals. -/
structure Relations (τ : Type) where
  rows : Dict τ (Dict τ Relation)
deriving DecidableEq, Repr, Inhabited

namespace Relations

variable {τ : Type} [DecidableEq τ] [LT τ] [DecidableLT τ]

def empty : Relations τ :=
  ⟨.empty⟩

def find? (rs : Relations τ) (a b : τ) : Option Relation :=
  (rs.rows.find? a).bind (·.find? b)

/-- The relations with `r` for the pair, in place of what it had. -/
def insert (rs : Relations τ) (a b : τ) (r : Relation) : Relations τ :=
  ⟨rs.rows.insert a (((rs.rows.find? a).getD .empty).insert b r)⟩

/-- The pairs in ascending order with their relations. -/
def toList (rs : Relations τ) : List (τ × τ × Relation) :=
  rs.rows.entries.flatMap fun (a, row) => row.entries.map fun (b, r) => (a, b, r)

end Relations
end SasLayout
