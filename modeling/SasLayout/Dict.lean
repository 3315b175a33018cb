set_option autoImplicit false

/-! Ordered dictionaries and sets. Names are ordered by their characters, which is also the order
of their UTF-8 bytes. -/
namespace SasLayout

/-- Values under keys, in ascending order of the keys. -/
structure Dict (κ α : Type) where
  entries : List (κ × α)
deriving DecidableEq, Repr, Inhabited

variable {κ α : Type} [DecidableEq κ] [LT κ] [DecidableLT κ]

namespace Dict

def empty : Dict κ α :=
  ⟨[]⟩

def find? (d : Dict κ α) (key : κ) : Option α :=
  d.entries.lookup key

def contains (d : Dict κ α) (key : κ) : Bool :=
  (d.find? key).isSome

def insertEntry (key : κ) (value : α) : List (κ × α) → List (κ × α)
  | [] => [(key, value)]
  | (k, v) :: rest =>
    if key = k then (key, value) :: rest
    else if key < k then (key, value) :: (k, v) :: rest
    else (k, v) :: insertEntry key value rest

/-- The dictionary with `value` under `key`, in place of what stood there. -/
def insert (d : Dict κ α) (key : κ) (value : α) : Dict κ α :=
  ⟨insertEntry key value d.entries⟩

def modifyEntry (key : κ) (f : α → α) : List (κ × α) → List (κ × α)
  | [] => []
  | (k, v) :: rest => if key = k then (k, f v) :: rest else (k, v) :: modifyEntry key f rest

/-- The dictionary with the value under `key`, if there is one, changed in its place. -/
def modify (d : Dict κ α) (key : κ) (f : α → α) : Dict κ α :=
  ⟨modifyEntry key f d.entries⟩

def size (d : Dict κ α) : Nat :=
  d.entries.length

def mapValues {β : Type} (f : κ → α → β) (d : Dict κ α) : Dict κ β :=
  ⟨d.entries.map fun (key, value) => (key, f key value)⟩

end Dict

namespace Ascending

/-- The ascending list with one more element, unless it is there. -/
def insert (x : κ) : List κ → List κ
  | [] => [x]
  | y :: rest =>
    if x = y then y :: rest
    else if x < y then x :: y :: rest
    else y :: insert x rest

/-- The elements of two ascending lists, each once. -/
def union : List κ → List κ → List κ
  | [], ys => ys
  | xs, [] => xs
  | x :: xs, y :: ys =>
    if x = y then x :: union xs ys
    else if x < y then x :: union xs (y :: ys)
    else y :: union (x :: xs) ys
termination_by xs ys => xs.length + ys.length

/-- The elements of a list, each once, in ascending order. -/
def ofList (xs : List κ) : List κ :=
  xs.foldl (fun found x => insert x found) []

end Ascending
end SasLayout
