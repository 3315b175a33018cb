import SasLayout.Text

set_option autoImplicit false

/-! White space of every script, which is more than the blanks of the lexer. -/
namespace SasLayout.Text

def isWhiteSpace (c : Char) : Bool :=
  let n := c.toNat
  (9 ≤ n && n ≤ 13) || n == 32 || n == 0x85 || n == 0xa0 || n == 0x1680 ||
    (0x2000 ≤ n && n ≤ 0x200a) || n == 0x2028 || n == 0x2029 || n == 0x202f || n == 0x205f ||
    n == 0x3000

/-- The first offset from `i` on where no white space stands. -/
def skipWhiteSpace (t : Text) (i : Nat) : Nat :=
  if inside : i < t.size then
    if (t.char? i).any isWhiteSpace then
      have := t.lt_next i inside
      t.skipWhiteSpace (t.next i)
    else i
  else i
termination_by t.size - i

theorem le_skipWhiteSpace (t : Text) (i : Nat) : i ≤ t.skipWhiteSpace i := by
  fun_induction skipWhiteSpace t i <;> omega

/-- A text without the white space at its ends. -/
def trim (s : String) : String :=
  String.ofList ((s.toList.dropWhile isWhiteSpace).reverse.dropWhile isWhiteSpace).reverse

end SasLayout.Text
