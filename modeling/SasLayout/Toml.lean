set_option autoImplicit false

/-!
TOML values and the rules on how a document builds its tables: a key is set once, a header opens a
table once, and dotted keys extend only tables that dotted keys have made.
-/
namespace SasLayout.Toml

/-- How a table came to be. -/
inductive Form where
  /-- On the way to a table with a header. -/
  | implied
  /-- By a header of its own. -/
  | headed
  /-- On the way to a dotted key. -/
  | dotted
  /-- Between braces. -/
  | inline
  /-- By a doubled header. -/
  | element
deriving DecidableEq, Repr

inductive Value where
  | string (s : String)
  | integer (n : Int)
  | boolean (b : Bool)
  | float
  | date
  | array (items : List Value)
  | table (form : Form) (entries : List (String × Value))
  /-- The tables of a doubled header, the last of which is open. -/
  | tables (items : List (List (String × Value)))

abbrev Entries := List (String × Value)

namespace Entries

/-- The entries with `value` under `key`, in place of what stood there. -/
def put (entries : Entries) (key : String) (value : Value) : Entries :=
  match entries with
  | [] => [(key, value)]
  | (k, v) :: rest => if k = key then (k, value) :: rest else (k, v) :: put rest key value

/-- The entries with one more key. -/
def add? (entries : Entries) (key : String) (value : Value) : Option Entries :=
  if (entries.lookup key).isSome then none else some (entries ++ [(key, value)])

/-- Changes the table under a path. Missing tables are made with the form `make`, and `enter`
says which tables may be entered, as the last of the path or on the way. -/
def change? (enter : (last : Bool) → Form → Bool) (make : Form)
    (change : Entries → Option Entries) : (path : List String) → Entries → Option Entries
  | [], entries => change entries
  | key :: rest, entries =>
    match entries.lookup key with
    | none =>
      (change? enter make change rest []).map fun inner => entries.put key (.table make inner)
    | some (.table form inner) =>
      if enter rest.isEmpty form then
        (change? enter make change rest inner).map fun inner =>
          entries.put key (.table form inner)
      else none
    | some (.tables items) =>
      match items.getLast?, enter rest.isEmpty .element with
      | some last, true =>
        (change? enter make change rest last).map fun inner =>
          entries.put key (.tables (items.dropLast ++ [inner]))
      | _, _ => none
    | some _ => none

/-- Sets a dotted key of a document. On the way it may pass through tables that headers have
implied and through the last table of a doubled header. -/
def setDotted? (entries : Entries) (path : List String) (key : String) (value : Value) :
    Option Entries :=
  entries.change?
    (fun last form => form = .dotted || ((form = .implied || form = .element) && !last)) .dotted
    (·.add? key value) path

/-- Sets a dotted key between braces. -/
def setInline? (entries : Entries) (path : List String) (key : String) (value : Value) :
    Option Entries :=
  entries.change? (fun _ form => form = .dotted) .dotted (·.add? key value) path

def open? (entries : Entries) (key : String) : Option Entries :=
  match entries.lookup key with
  | none => some (entries.put key (.table .headed []))
  | some (.table .implied inner) => some (entries.put key (.table .headed inner))
  | some _ => none

def openNext? (entries : Entries) (key : String) : Option Entries :=
  match entries.lookup key with
  | none => some (entries.put key (.tables [[]]))
  | some (.tables items) => some (entries.put key (.tables (items ++ [[]])))
  | some _ => none

/-- Changes the table under a path of headers. -/
def under? (entries : Entries) (path : List String) (change : Entries → Option Entries) :
    Option Entries :=
  entries.change? (fun _ form => form != .inline) .implied change path

end Entries

structure Document where
  entries : Entries := []
  /-- The path of the header that keys belong to. -/
  header : List String := []

namespace Document

/-- Opens the table under a path. -/
def openTable? (d : Document) (path : List String) (key : String) : Option Document :=
  (d.entries.under? path (·.open? key)).map (⟨·, path ++ [key]⟩)

/-- Opens one more table under a path. -/
def openElement? (d : Document) (path : List String) (key : String) : Option Document :=
  (d.entries.under? path (·.openNext? key)).map (⟨·, path ++ [key]⟩)

/-- Sets a key of the table that is open. -/
def set? (d : Document) (path : List String) (key : String) (value : Value) : Option Document :=
  (d.entries.under? d.header (·.setDotted? path key value)).map (⟨·, d.header⟩)

end Document
end SasLayout.Toml
