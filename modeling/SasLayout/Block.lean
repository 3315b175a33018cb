import SasLayout.Text

set_option autoImplicit false

/-! Blocks: the steps and macro definitions of a program, and what else a search for one can end
with. -/
namespace SasLayout

inductive Block.Kind where
  | proc (name : Text)
  | data
  /-- The option `data =`, which is no step. -/
  | dataAssignment
  | macroBlock (name : Text)
  /-- The statement `run` or `quit`. -/
  | closingRun
  | closingMacro
  | notFound
  /-- A header that lacks its name. -/
  | error
  /-- A closer without an opener, or a search that was given up. -/
  | ambiguous
deriving DecidableEq, Inhabited

namespace Block.Kind

def label : Kind → String
  | proc _ => "proc"
  | data => "data"
  | dataAssignment => "data-assignment"
  | macroBlock _ => "macro"
  | closingRun => "closing-run"
  | closingMacro => "closing-macro"
  | notFound => "not-found"
  | error => "error"
  | ambiguous => "ambiguous-error"

def name? : Kind → Option Text
  | proc name | macroBlock name => some name
  | _ => none

/-- The kinds that have a closer to look for. -/
def isOpener : Kind → Bool
  | proc _ | data | macroBlock _ => true
  | _ => false

def isCloser : Kind → Bool
  | closingRun | closingMacro => true
  | _ => false

def isFailure : Kind → Bool
  | notFound | error | ambiguous => true
  | _ => false

end Block.Kind

structure Block where
  kind : Block.Kind
  start : Nat
  /-- The end of the opening keyword and of the name after it. -/
  headerEnd : Nat
  stop : Nat
deriving DecidableEq, Inhabited

namespace Block

/-- A block of which only the header has been found. -/
def header (kind : Kind) (start headerEnd : Nat) : Block :=
  ⟨kind, start, headerEnd, headerEnd⟩

def notFound : Block :=
  header .notFound 0 0

def ambiguousAt (offset : Nat) : Block :=
  header .ambiguous offset offset

def extent (b : Block) : Extent :=
  ⟨b.start, b.stop⟩

end Block
end SasLayout
