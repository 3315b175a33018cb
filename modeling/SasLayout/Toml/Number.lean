set_option autoImplicit false

/-!
Numbers of TOML. Integers have 64 bits. A number with a fraction or an exponent is read exactly, and
refused when the nearest double is infinite.
-/
namespace SasLayout.Toml.Number

def hexValue? (c : Char) : Option Nat :=
  if c.isDigit then some (c.toNat - '0'.toNat)
  else if 'a' ≤ c && c ≤ 'f' then some (c.toNat - 'a'.toNat + 10)
  else if 'A' ≤ c && c ≤ 'F' then some (c.toNat - 'A'.toNat + 10)
  else none

/-- The number with some digits. -/
def inBase? (base : Nat) (digits : List Char) : Option Nat :=
  digits.foldlM (fun n c => (hexValue? c).map (base * n + ·)) 0

/-- The digits of a number, between which single underscores may stand. -/
def digitsOf? (isDigit : Char → Bool) : (cs : List Char) → Option (List Char)
  | [] => none
  | [c] => if isDigit c then some [c] else none
  | c :: '_' :: rest => if isDigit c then (digitsOf? isDigit rest).map (c :: ·) else none
  | c :: rest => if isDigit c then (digitsOf? isDigit rest).map (c :: ·) else none

def natural? (base : Nat) (isDigit : Char → Bool) (cs : List Char) : Option Nat :=
  (digitsOf? isDigit cs).bind (inBase? base)

/-- A decimal number without leading zeros. -/
def decimal? (cs : List Char) : Option Nat :=
  match cs with
  | '0' :: _ :: _ => none
  | _ => natural? 10 Char.isDigit cs

/-- The characters after a sign, and whether that is a minus. -/
def signed : List Char → Bool × List Char
  | '+' :: rest => (false, rest)
  | '-' :: rest => (true, rest)
  | cs => (false, cs)

def withSign (negative : Bool) (n : Nat) : Int :=
  if negative then -Int.ofNat n else Int.ofNat n

/-- One more than the largest integer. -/
def integerBound : Int := 9223372036854775808

def integer? (cs : List Char) : Option Int :=
  let n? := match cs with
    | '0' :: 'x' :: ds => (natural? 16 (hexValue? · |>.isSome) ds).map Int.ofNat
    | '0' :: 'o' :: ds => (natural? 8 (fun c => '0' ≤ c && c ≤ '7') ds).map Int.ofNat
    | '0' :: 'b' :: ds => (natural? 2 (fun c => c == '0' || c == '1') ds).map Int.ofNat
    | cs => (decimal? (signed cs).2).map (withSign (signed cs).1)
  n?.filter fun n => -integerBound ≤ n && n < integerBound

/-- The number `digits * 10 ^ exponent`. -/
structure Scientific where
  digits : Nat
  exponent : Int
deriving DecidableEq, Repr

namespace Scientific

/-- The least number whose nearest double is infinite: half a unit in the last place above the
largest double, where the tie goes to the even neighbour. -/
def infinite : Nat :=
  Nat.pow 2 1024 - Nat.pow 2 970

/-- Whether the nearest double is infinite. It is beyond 310 places, and with 308 places it is not,
so that powers are computed only in between. -/
def isInfinite (n : Scientific) : Bool :=
  let places := (Nat.toDigits 10 n.digits).length + n.exponent
  if n.digits = 0 || places < 309 then false
  else if 309 < places then true
  else infinite * Nat.pow 10 (-n.exponent).toNat ≤ n.digits * Nat.pow 10 n.exponent.toNat

end Scientific

def exponent? (cs : List Char) : Option Int :=
  (natural? 10 Char.isDigit (signed cs).2).map (withSign (signed cs).1)

def isExponentMark (c : Char) : Bool :=
  c == 'e' || c == 'E'

/-- A number without a sign that has a fraction or an exponent or both. -/
def scientific? (cs : List Char) : Option Scientific := do
  let whole := cs.takeWhile fun c => c != '.' && !isExponentMark c
  let n ← decimal? whole
  match cs.drop whole.length with
  | '.' :: rest =>
    let written := rest.takeWhile (!isExponentMark ·)
    let fraction ← digitsOf? Char.isDigit written
    let digits := n * Nat.pow 10 fraction.length + (← inBase? 10 fraction)
    match rest.drop written.length with
    | [] => return ⟨digits, -fraction.length⟩
    | _ :: exponent => return ⟨digits, (← exponent? exponent) - fraction.length⟩
  | _ :: exponent => return ⟨n, ← exponent? exponent⟩
  | [] => none

/-- Whether a number is a float. Only a number above zero is refused for its size. -/
def isFloat (cs : List Char) : Bool :=
  let (negative, body) := signed cs
  body == "inf".toList || body == "nan".toList ||
    (scientific? body).any fun n => negative || !n.isInfinite

end SasLayout.Toml.Number
