import SasLayout.Token

set_option autoImplicit false

/-!
The token that stands at an offset of the code. Every token takes at least one byte, and none ends
inside a character, because bytes that are not ASCII are letters of words.
-/
namespace SasLayout.Text

def wordStop (t : Text) (i : Nat) : Nat :=
  t.seek (!Byte.isWord ·) i

/-- Whether the sign at `j` belongs to the exponent of a number that starts at `start`. -/
def isExponentSign (t : Text) (start j : Nat) : Bool :=
  t.byteIs j Byte.isSign && t.byteIs (j - 1) (Byte.lower · == 101) &&
    t.allBetween (fun b => Byte.isDigit b || Byte.isDot b) start (j - 1) &&
    t.byteIs (j + 1) Byte.isDigit

/-- The end of a number that starts at `start` and goes on at `j`: digits, points, letters and
signed exponents. -/
def numberStop (t : Text) (start j : Nat) : Nat :=
  if j < t.size then
    if t.byteIs j fun b => Byte.isWord b || Byte.isDot b then t.numberStop start (j + 1)
    else if t.isExponentSign start j then t.numberStop start (j + 2)
    else j
  else j
termination_by t.size - j

def startsNumber (t : Text) (i : Nat) : Bool :=
  t.byteIs i Byte.isDigit || (t.byteIs i Byte.isDot && t.byteIs (i + 1) Byte.isDigit)

/-- The end of a macro variable: its ampersands, its name and one point. -/
def macroVariableStop? (t : Text) (i : Nat) : Option Nat :=
  let name := t.seek (· != Byte.ampersand) i
  if t.byteIs i (· == Byte.ampersand) && t.byteIs name Byte.isWordStart then
    let stop := t.wordStop name
    some (if t.byteIs stop Byte.isDot then stop + 1 else stop)
  else none

/-- The length of the first sign of the list that stands at `i`. -/
def signLength? (t : Text) (i : Nat) : Option Nat :=
  (Operator.signBytes.find? (t.startsWith i)).map List.length

/-- The kind and the end of the token at `i`. -/
def shapeAt (t : Text) (i : Nat) : Token.Kind × Nat :=
  if t.startsNumber i then (.number, t.numberStop i (i + 1))
  else if t.byteIs i Byte.isWordStart then
    (.ofWord (t.slice i (t.wordStop i)), t.wordStop i)
  else if t.byteIs i (· == Byte.percent) && t.byteIs (i + 1) Byte.isWordStart then
    (.ofWord (t.slice i (t.wordStop (i + 1))), t.wordStop (i + 1))
  else
    match t.macroVariableStop? i with
    | some stop => (.macroVariable, stop)
    | none =>
      if t.byteIs i Byte.isSemicolon then (.statementEnd, i + 1)
      else if t.byteIs i Byte.isOpenBracket then (.openParen, i + 1)
      else if t.byteIs i Byte.isCloseBracket then (.closeParen, i + 1)
      else
        match t.signLength? i with
        | some length => (.operator, i + length)
        | none => (.punctuation, i + 1)

def tokenAt (t : Text) (i : Nat) : Token :=
  let shape := t.shapeAt i
  ⟨t.slice i shape.2, shape.1, i, shape.2⟩

/-- A seek for a failure of `p` passes a byte of which `p` holds. -/
theorem lt_seek_not {t : Text} {p : UInt8 → Bool} {i : Nat} (holds : t.byteIs i p = true) :
    i < t.seek (!p ·) i := by
  have inside := lt_size_of_byteIs holds
  rw [seek, if_pos inside, if_neg]
  · exact t.le_seek _ (i + 1) inside
  · unfold byteIs at holds ⊢
    split at holds <;> simp_all

theorem le_numberStop (t : Text) (start j : Nat) : j ≤ t.numberStop start j := by
  fun_induction numberStop t start j <;> omega

theorem lt_macroVariableStop {t : Text} {i stop : Nat}
    (found : t.macroVariableStop? i = some stop) : i < stop := by
  unfold macroVariableStop? at found
  simp only at found
  split at found
  · rename_i both
    have parts := Bool.and_eq_true_iff.mp both
    have inside := lt_size_of_byteIs parts.1
    have named := t.le_seek (· != Byte.ampersand) i (Nat.le_of_lt inside)
    have ended := lt_seek_not (p := Byte.isWord) (i := t.seek (· != Byte.ampersand) i) (t := t) (by
      have starts := parts.2
      unfold byteIs at starts ⊢
      split at starts <;> simp_all [Byte.isWord])
    cases found
    unfold wordStop
    split <;> omega
  · simp at found

theorem signBytes_positive : ∀ sign ∈ Operator.signBytes, 0 < sign.length := by
  decide

theorem signLength_positive {t : Text} {i length : Nat} (found : t.signLength? i = some length) :
    0 < length := by
  obtain ⟨sign, chosen, rfl⟩ := Option.map_eq_some_iff.mp found
  exact signBytes_positive sign (List.mem_of_find?_eq_some chosen)

/-- Every token takes at least one byte. -/
theorem lt_shapeAt_stop (t : Text) (i : Nat) : i < (t.shapeAt i).2 := by
  unfold shapeAt
  split
  · exact t.le_numberStop i (i + 1)
  · split
    · rename_i starts
      apply lt_seek_not (p := Byte.isWord)
      unfold byteIs at starts ⊢
      split at starts <;> simp_all [Byte.isWord]
    · split
      · rename_i both
        have inside := lt_size_of_byteIs (Bool.and_eq_true_iff.mp both).2
        exact t.le_seek _ (i + 1) (Nat.le_of_lt inside)
      · split
        · exact lt_macroVariableStop (by assumption)
        · repeat' split
          all_goals try exact Nat.lt_succ_self i
          rename_i found
          exact Nat.lt_add_of_pos_right (signLength_positive found)

theorem lt_tokenAt_stop (t : Text) (i : Nat) : i < (t.tokenAt i).stop :=
  t.lt_shapeAt_stop i

end SasLayout.Text
