import SasLayout.Grammar

set_option autoImplicit false

/-!
Indentation rules. A rule says how a line is placed relative to an anchor: what the line's first
token pairs with, the token that ends the line before (or that encloses the statements around), or
the bracket around a list. The first rule that fits counts, and those for one token come before
those for a whole category.
-/
namespace SasLayout.Indent

inductive Transition where
  | before
  | after
  | element
deriving DecidableEq, Repr, Inhabited

inductive Matcher where
  | token (name : String)
  | category (c : Category)
deriving DecidableEq, Repr, Inhabited

def Matcher.fits (m : Matcher) (name : String) (c : Category) : Bool :=
  match m with
  | token wanted => wanted == name
  | category wanted => wanted = c

inductive Action where
  /-- The indentation of the anchor's line and so many units more. -/
  | basic (units : Nat)
  /-- The indentation of the anchor's line and the units of a continuation. -/
  | continuation
  /-- The indentation of the anchor's line. -/
  | inherit
  /-- The column of the anchor. -/
  | alignAnchor
  /-- The column of the token after the anchor when it is on the anchor's line, else one unit more
  than that line's indentation. -/
  | alignNext
deriving DecidableEq, Repr, Inhabited

structure Rule where
  transition : Transition
  matcher : Matcher
  action : Action
deriving DecidableEq, Repr, Inhabited

def rules : List Rule :=
  [⟨.before, .category .closer, .inherit⟩,
    ⟨.before, .token "then", .basic 1⟩,
    ⟨.before, .token "%then", .basic 1⟩,
    ⟨.before, .token ",", .alignAnchor⟩,
    ⟨.before, .token ";", .inherit⟩,
    ⟨.before, .category .binaryOperator, .continuation⟩,
    ⟨.after, .token "dataequal", .basic 0⟩,
    ⟨.after, .token "%macro", .basic 1⟩,
    ⟨.after, .token "proc", .basic 1⟩,
    ⟨.after, .token "data", .basic 1⟩,
    ⟨.after, .token "do", .basic 1⟩,
    ⟨.after, .token "%do", .basic 1⟩,
    ⟨.after, .token "select", .basic 1⟩,
    ⟨.after, .token "then", .basic 1⟩,
    ⟨.after, .token "else", .basic 1⟩,
    ⟨.after, .token "%then", .basic 1⟩,
    ⟨.after, .token "%else", .basic 1⟩,
    ⟨.after, .token "(", .basic 1⟩,
    ⟨.after, .category .opener, .basic 1⟩,
    ⟨.after, .category .binaryOperator, .continuation⟩,
    ⟨.after, .category .closer, .continuation⟩,
    ⟨.after, .category .atom, .continuation⟩,
    ⟨.element, .token ",", .alignNext⟩]

/-- The action of the first rule that fits. -/
def action? (transition : Transition) (name : String) (c : Category) : Option Action :=
  (rules.find? fun r => r.transition = transition && r.matcher.fits name c).map (·.action)

end SasLayout.Indent
