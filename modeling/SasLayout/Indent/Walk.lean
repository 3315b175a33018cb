import SasLayout.Grammar
import SasLayout.LogicalToken

set_option autoImplicit false

/-!
The walk backward over logical tokens. It keeps the left levels of constructs that are still open
to the left, the innermost first. Operands are passed, closers add their level, and a token whose
right level is too low to stand inside the construct at hand ends the walk.
-/
namespace SasLayout.Indent

/-- Where a walk ends. -/
inductive Stop where
  /-- It passed one operand with nothing pending, which starts at `pos`. -/
  | skipped (pos : Nat)
  /-- It closed the pending construct at the opener at `pos`. -/
  | opener (pos : Nat) (token : String)
  /-- It could not pass the token at `pos`, whose left level is given unless it is an opener. -/
  | parent (pos : Nat) (token : String) (level : Option Nat)
  /-- It reached the start of the text. -/
  | boundary
deriving DecidableEq, Repr

/-- What a token does to a walk. -/
inductive Pass where
  | go (pending : List Nat)
  | skipped
  | opener
  | parent
deriving DecidableEq, Repr

/-- Meets an operator or an opener with right level `back` when `top` and `rest` are pending and
`top` is not above `back`. -/
def meet (levels : TerminalLevels) (back top : Nat) (rest : List Nat) : Pass :=
  match if top = back then rest else top :: rest with
  | next :: outer => .go (levels.left.toList ++ next :: outer)
  | [] =>
    match levels.left with
    | none => .opener
    | some left => if levels.isAssociative then .parent else .go [left]

/-- Meets a token with the given levels, or an operand when it has none. -/
def pass (levels? : Option TerminalLevels) (pending : List Nat) : Pass :=
  match levels? with
  | none => if pending.isEmpty then .skipped else .go pending
  | some levels =>
    match levels.right with
    | none => .go (levels.left.toList ++ pending)
    | some back =>
      match pending.dropWhile (back < ·) with
      | [] => .parent
      | top :: rest => meet levels back top rest

/-- The walk from `pos`, if it ends within so many steps. -/
def walkFrom (g : Grammar String) (src : Source) :
    (steps pos : Nat) → (pending : List Nat) → Option Stop
  | 0, _, _ => none
  | steps + 1, pos, pending =>
    match src.logicalToken? pos .backward with
    | none => some .boundary
    | some tok =>
      let name := tok.grammarName
      let levels? := g.levels? name
      match pass levels? pending with
      | .go pending => walkFrom g src steps tok.start pending
      | .skipped => some (.skipped tok.start)
      | .opener => some (.opener tok.start name)
      | .parent => some (.parent tok.start name (levels?.bind (·.left)))

/-- The levels pending when the token `name` has just been passed. -/
def pendingOf (g : Grammar String) (name? : Option String) : List Nat :=
  ((name?.bind g.levels?).bind (·.left)).toList

/-- The walk from `pos` as if the token `name?` had just been passed. -/
def walk (g : Grammar String) (src : Source) (steps pos : Nat) (name? : Option String) :
    Option Stop :=
  walkFrom g src steps pos (pendingOf g name?)

end SasLayout.Indent
