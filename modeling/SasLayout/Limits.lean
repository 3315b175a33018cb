set_option autoImplicit false

/-!
The bounds on texts, searches and indentation, which are fixed when the program is built, and the
bounds on numbers and logs. A build may choose any positive bounds of the first kind, and no others;
the ones given here are those of development.
-/
namespace SasLayout

/-- The bounds on a text. -/
structure TextLimits where
  /-- The largest text in bytes. -/
  size : Nat
  /-- The longest line in bytes. -/
  line : Nat
  size_pos : 0 < size
  line_pos : 0 < line
deriving DecidableEq, Repr

/-- The bound on a search for block keywords. -/
structure SearchLimits where
  /-- How many rejected keywords one search passes. -/
  retries : Nat
  retries_pos : 0 < retries
deriving DecidableEq, Repr

/-- The bounds on the indentation of a line. -/
structure IndentLimits where
  /-- How many lines deep the indentation of one line may depend on others. -/
  recursion : Nat
  /-- How many tokens one walk backward reads. -/
  steps : Nat
  /-- The widest level in columns. -/
  width : Nat
  recursion_pos : 0 < recursion
  steps_pos : 0 < steps
  width_pos : 0 < width
deriving DecidableEq, Repr

def TextLimits.development : TextLimits :=
  ⟨67108864, 1048576, Nat.succ_pos _, Nat.succ_pos _⟩

def SearchLimits.development : SearchLimits :=
  ⟨1000000, Nat.succ_pos _⟩

def IndentLimits.development : IndentLimits :=
  ⟨256, 2000000, 16, Nat.succ_pos _, Nat.succ_pos _, Nat.succ_pos _⟩

instance : Inhabited TextLimits := ⟨.development⟩
instance : Inhabited SearchLimits := ⟨.development⟩
instance : Inhabited IndentLimits := ⟨.development⟩

namespace Limits

/-- The largest number, one of 64 bits. A computation that passes it stops the program. -/
def number : Nat := 18446744073709551615

/-- The largest level of a terminal, a number of 32 bits. -/
def level : Nat := 4294967295

/-- How many events a memory log keeps. -/
def logEvents : Nat := 1000

/-- The longest message of an event in bytes. -/
def logMessage : Nat := 4096

/-- The rank of the level that can never be filtered out. -/
def securityLevel : Nat := 1

/-- The name of this set of limits. -/
def profile : String := "development"

def directory : String := "config"

/-- Where the limits are written down. -/
def origin : String :=
  s!"Generated from {directory}/{profile}.toml"

end Limits
end SasLayout
