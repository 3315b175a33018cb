set_option autoImplicit false

/-!
Dates and times of TOML: a date, a time, or both, then with an offset if there is one. Only their
form matters here, so each function returns what stands after what it recognises.
-/
namespace SasLayout.Toml.Date

/-- A number of two digits between bounds. -/
def pair? (low high : Nat) : List Char → Option (Nat × List Char)
  | a :: b :: rest =>
    let n := 10 * (a.toNat - '0'.toNat) + (b.toNat - '0'.toNat)
    if a.isDigit && b.isDigit && low ≤ n && n ≤ high then some (n, rest) else none
  | _ => none

def skip? (allowed : List Char) : List Char → Option (List Char)
  | c :: rest => if allowed.contains c then some rest else none
  | [] => none

def isLeap (year : Nat) : Bool :=
  year % 4 == 0 && (year % 100 != 0 || year % 400 == 0)

def daysIn (year month : Nat) : Nat :=
  match month with
  | 2 => if isLeap year then 29 else 28
  | 4 | 6 | 9 | 11 => 30
  | _ => 31

/-- After a year of four digits, a month and a day of that month. -/
def skipDay? (cs : List Char) : Option (List Char) := do
  let (century, cs) ← pair? 0 99 cs
  let (year, cs) ← pair? 0 99 cs
  let (month, cs) ← pair? 1 12 (← skip? ['-'] cs)
  let (_, cs) ← pair? 1 (daysIn (100 * century + year) month) (← skip? ['-'] cs)
  return cs

/-- After the fraction of a second, if there is one. -/
def skipFraction : List Char → List Char
  | '.' :: c :: rest => if c.isDigit then rest.dropWhile Char.isDigit else '.' :: c :: rest
  | cs => cs

/-- After hours, minutes and seconds; a minute may have a leap second. -/
def skipTime? (cs : List Char) : Option (List Char) := do
  let (_, cs) ← pair? 0 23 cs
  let (_, cs) ← pair? 0 59 (← skip? [':'] cs)
  let (_, cs) ← pair? 0 60 (← skip? [':'] cs)
  return skipFraction cs

def skipOffset? (cs : List Char) : Option (List Char) :=
  (skip? ['Z', 'z'] cs).or do
    let (_, cs) ← pair? 0 23 (← skip? ['+', '-'] cs)
    let (_, cs) ← pair? 0 59 (← skip? [':'] cs)
    return cs

/-- After a date, with its time and offset if it has them, or after a time. -/
def skipDate? (cs : List Char) : Option (List Char) :=
  match skipDay? cs with
  | none => skipTime? cs
  | some day =>
    match (skip? ['T', 't', ' '] day).bind skipTime? with
    | none => some day
    | some time => some ((skipOffset? time).getD time)

end SasLayout.Toml.Date
