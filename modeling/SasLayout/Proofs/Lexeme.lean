import SasLayout.Proofs.Bytes
import SasLayout.Token.Lexer

set_option autoImplicit false

/-!
The bytes of a code token. None after the first is a blank or opens or ends anything, and a token
does not end between two letters of a word.
-/
namespace SasLayout

namespace Byte

/-- The bytes that may stand in a token after its first. Blanks, semicolons, quotes and slashes
are left: with these, nothing opens a span or ends a statement inside a token. -/
def isInner (b : UInt8) : Bool :=
  !(isBlank b || isSemicolon b || b == slash || b == singleQuote || b == doubleQuote)

/-- The inner bytes that are no brackets. -/
def isTail (b : UInt8) : Bool :=
  isInner b && !(isOpenBracket b || isCloseBracket b)

theorem isTail_of_isNumber (b : UInt8) : (isWord b || isDot b) = true → isTail b = true :=
  forall_of_halves (p := fun b => (isWord b || isDot b) = true → isTail b = true) (by decide) b

theorem isTail_of_isWord (b : UInt8) (word : isWord b = true) : isTail b = true :=
  isTail_of_isNumber b (by rw [word, Bool.true_or])

theorem isTail_of_isSign (b : UInt8) : isSign b = true → isTail b = true :=
  forall_of_halves (p := fun b => isSign b = true → isTail b = true) (by decide) b

theorem isInner_of_isTail (b : UInt8) (tail : isTail b = true) : isInner b = true :=
  (Bool.and_eq_true_iff.mp tail).1

theorem isInner_of_isWord (b : UInt8) (word : isWord b = true) : isInner b = true :=
  isInner_of_isTail b (isTail_of_isWord b word)

theorem isInner_of_isNumber (b : UInt8) (number : (isWord b || isDot b) = true) :
    isInner b = true :=
  isInner_of_isTail b (isTail_of_isNumber b number)

theorem isInner_of_isSign (b : UInt8) (sign : isSign b = true) : isInner b = true :=
  isInner_of_isTail b (isTail_of_isSign b sign)

theorem isWord_of_isDigit {b : UInt8} (digit : isDigit b = true) : isWord b = true := by
  rw [isWord, digit, Bool.true_or]

theorem isWord_of_large {b : UInt8} (large : 128 ≤ b) : isWord b = true := by
  simp [isWord, isWordStart, large]

theorem lower_of_large (b : UInt8) : 128 ≤ b → lower b = b :=
  forall_of_halves (p := fun b => 128 ≤ b → lower b = b) (by decide) b

theorem isBlank_of_isInner {b : UInt8} (inner : isInner b = true) : isBlank b = false := by
  simp only [isInner, Bool.not_eq_true', Bool.or_eq_false_iff] at inner
  exact inner.1.1.1.1

theorem isInner_of_isBlank {b : UInt8} (blank : isBlank b = true) : isInner b = false := by
  simp [isInner, blank]

end Byte

namespace Token.Kind

/-- The kinds of the tokens that are spans of the text: comments and string literals. -/
def isSpan : Kind → Bool
  | comment | stringLiteral => true
  | _ => false

theorem ofWord_code (word : Text) :
    (ofWord word).isSpan = false ∧ ofWord word ≠ .statementEnd := by
  unfold ofWord
  simp only
  repeat' split
  all_goals simp [isSpan]

end Token.Kind

namespace Text

theorem isBoundary_of_not_word {t : Text} {i : Nat} (within : i ≤ t.size)
    (ends : t.byteIs i Byte.isWord = false) : t.isBoundary i = true := by
  rcases Nat.eq_or_lt_of_le within with rfl | inside
  · simp [isBoundary]
  · obtain ⟨b, found⟩ := exists_byte inside
    rw [byteIs_of_byte? found] at ends
    have short : ¬ 128 ≤ b := fun large => by
      rw [Byte.isWord_of_large large] at ends
      cases ends
    simp [isBoundary, byteIs_of_byte? found, Byte.isContinuation, short]

theorem wordStop_inside {t : Text} {i j : Nat} (lower : i ≤ j) (upper : j < t.wordStop i) :
    t.byteIs j Byte.isWord = true := by
  have inside := Nat.lt_of_lt_of_le upper (t.seek_le_size _ i)
  have fails := seek_before lower upper
  rw [byteIs_not inside] at fails
  simpa using fails

theorem wordStop_ends (t : Text) (i : Nat) : t.byteIs (t.wordStop i) Byte.isWord = false := by
  rcases Nat.eq_or_lt_of_le (t.seek_le_size (!Byte.isWord ·) i) with past | inside
  · exact byteIs_past (Nat.le_of_eq past.symm) _
  · exact (byteIs_not_iff.mp (seek_found inside)).2

theorem numberStop_inside {t : Text} {start j k : Nat} (lower : j ≤ k)
    (upper : k < t.numberStop start j) : t.byteIs k Byte.isTail = true := by
  fun_induction numberStop t start j with
  | case1 j inside letter ih =>
    rcases Nat.eq_or_lt_of_le lower with rfl | later
    · exact byteIs_mono letter Byte.isTail_of_isNumber
    · exact ih later upper
  | case2 j inside _ exponent ih =>
    simp only [isExponentSign, Bool.and_eq_true] at exponent
    obtain ⟨⟨⟨sign, _⟩, _⟩, digit⟩ := exponent
    rcases Nat.lt_trichotomy k (j + 1) with here | rfl | later
    · obtain rfl : k = j := by omega
      exact byteIs_mono sign Byte.isTail_of_isSign
    · exact byteIs_mono digit fun b held =>
        Byte.isTail_of_isWord b (Byte.isWord_of_isDigit held)
    · exact ih later upper
  | case3 j _ _ _ => omega
  | case4 j _ => omega

theorem numberStop_ends (t : Text) (start j : Nat) :
    t.byteIs (t.numberStop start j) Byte.isWord = false := by
  fun_induction numberStop t start j with
  | case1 j _ _ ih => exact ih
  | case2 j _ _ _ ih => exact ih
  | case3 j inside other _ =>
    obtain ⟨b, found⟩ := exists_byte inside
    rw [byteIs_of_byte? found] at other ⊢
    simp_all
  | case4 j outside => exact byteIs_past (by omega) _

theorem startsWith_getElem {t : Text} {i k : Nat} {word : List UInt8} {b : UInt8}
    (stands : t.startsWith i word = true) (found : word[k]? = some b) :
    t.byte? (i + k) = some b := by
  induction word generalizing i k with
  | nil => cases found
  | cons first rest ih =>
    simp only [startsWith, Bool.and_eq_true] at stands
    cases k with
    | zero =>
      cases found
      obtain ⟨c, here, same⟩ := byteIs_iff.mp stands.1
      rw [Nat.add_zero, here, eq_of_beq same]
    | succ k =>
      rw [List.getElem?_cons_succ] at found
      rw [← ih stands.2 found]
      congr 1
      omega

/-- The signs are ASCII, and none but the first byte of one can open or end anything. -/
theorem signBytes_tail :
    ∀ sign ∈ Operator.signBytes, (sign.drop 1).all Byte.isTail && sign.all (· < 128) := by
  decide

theorem sign_inside {t : Text} {i k : Nat} {sign : List UInt8}
    (listed : sign ∈ Operator.signBytes) (stands : t.startsWith i sign = true)
    (lower : 0 < k) (upper : k < sign.length) : t.byteIs (i + k) Byte.isTail = true := by
  obtain ⟨k, rfl⟩ := Nat.exists_eq_add_one.mpr lower
  have tail := (Bool.and_eq_true_iff.mp (signBytes_tail sign listed)).1
  rw [byteIs_of_byte? (startsWith_getElem stands (List.getElem?_eq_getElem upper))]
  refine List.all_eq_true.mp tail _ (List.mem_iff_getElem?.mpr ⟨k, ?_⟩)
  rw [List.getElem?_drop, Nat.add_comm, List.getElem?_eq_getElem upper]

theorem signLength?_le {t : Text} {i n length : Nat} (found : t.signLength? i = some length)
    (positive : 0 < n) (ends : t.byteIs (i + n) Byte.isInner = false) : length ≤ n := by
  obtain ⟨sign, chosen, rfl⟩ := Option.map_eq_some_iff.mp found
  apply Nat.le_of_not_lt
  intro longer
  have tail := sign_inside (List.mem_of_find?_eq_some chosen) (List.find?_some chosen) positive
    longer
  rw [byteIs_anti ends Byte.isInner_of_isTail] at tail
  cases tail

theorem signBytes_head : ∀ sign ∈ Operator.signBytes, sign.head? ≠ some Byte.semicolon := by
  decide

/-- The single bytes that are tokens by themselves, with their kinds. -/
inductive Lone (t : Text) (i : Nat) : Token.Kind → Prop
  | statementEnd (here : t.byteIs i Byte.isSemicolon = true) : Lone t i .statementEnd
  | openParen (here : t.byteIs i Byte.isOpenBracket = true) : Lone t i .openParen
  | closeParen (here : t.byteIs i Byte.isCloseBracket = true) : Lone t i .closeParen
  | punctuation (other : t.byteIs i Byte.isSemicolon = false) : Lone t i .punctuation

/-- What a token at `i` is, with its kind and its end. -/
inductive Shape (t : Text) (i : Nat) : Token.Kind × Nat → Prop
  | number (starts : t.startsNumber i = true) : Shape t i (.number, t.numberStop i (i + 1))
  | word (starts : t.byteIs i Byte.isWordStart = true) :
    Shape t i (.ofWord (t.slice i (t.wordStop i)), t.wordStop i)
  | macroWord (sign : t.byteIs i (· == Byte.percent) = true)
    (starts : t.byteIs (i + 1) Byte.isWordStart = true) :
    Shape t i (.ofWord (t.slice i (t.wordStop (i + 1))), t.wordStop (i + 1))
  | macroVariable {stop : Nat} (found : t.macroVariableStop? i = some stop) :
    Shape t i (.macroVariable, stop)
  | operator {sign : List UInt8} (listed : sign ∈ Operator.signBytes)
    (stands : t.startsWith i sign = true) : Shape t i (.operator, i + sign.length)
  | lone {kind : Token.Kind} (other : t.byteIs i Byte.isWordStart = false)
    (alone : Lone t i kind) : Shape t i (kind, i + 1)

theorem shape_shapeAt (t : Text) (i : Nat) : Shape t i (t.shapeAt i) := by
  unfold shapeAt
  split
  · exact .number ‹_›
  split
  · exact .word ‹_›
  rename_i other
  split
  · rename_i both
    exact .macroWord (Bool.and_eq_true_iff.mp both).1 (Bool.and_eq_true_iff.mp both).2
  split
  · exact .macroVariable ‹_›
  have notWord : t.byteIs i Byte.isWordStart = false := by simpa using other
  split
  · exact .lone notWord (.statementEnd ‹_›)
  rename_i notEnd
  split
  · exact .lone notWord (.openParen ‹_›)
  split
  · exact .lone notWord (.closeParen ‹_›)
  split
  · rename_i length found
    obtain ⟨sign, chosen, rfl⟩ := Option.map_eq_some_iff.mp found
    exact .operator (List.mem_of_find?_eq_some chosen) (List.find?_some chosen)
  · exact .lone notWord (.punctuation (by simpa using notEnd))

theorem macroVariableStop_inside {t : Text} {i j stop : Nat}
    (found : t.macroVariableStop? i = some stop) (lower : i < j) (upper : j < stop) :
    t.byteIs j Byte.isTail = true := by
  unfold macroVariableStop? at found
  simp only at found
  split at found
  · cases found
    by_cases sign : j < t.seek (· != Byte.ampersand) i
    · have inside := Nat.lt_of_lt_of_le sign (t.seek_le_size _ i)
      obtain ⟨b, here⟩ := exists_byte inside
      have same := seek_before (Nat.le_of_lt lower) sign
      rw [byteIs_of_byte? here] at same ⊢
      obtain rfl : b = Byte.ampersand := by simpa using same
      decide
    · by_cases letter : j < t.wordStop (t.seek (· != Byte.ampersand) i)
      · exact byteIs_mono (wordStop_inside (by omega) letter) Byte.isTail_of_isWord
      · split at upper
        · rename_i point
          obtain rfl : j = t.wordStop (t.seek (· != Byte.ampersand) i) := by omega
          exact byteIs_mono point fun b dot =>
            Byte.isTail_of_isNumber b (by rw [dot, Bool.or_true])
        · omega
  · cases found

theorem macroVariableStop_ends {t : Text} {i stop : Nat}
    (found : t.macroVariableStop? i = some stop) :
    t.byteIs stop Byte.isWord = false ∨ t.byteIs (stop - 1) (128 ≤ ·) = false := by
  unfold macroVariableStop? at found
  simp only at found
  split at found
  · cases found
    split
    · rename_i point
      refine Or.inr (byteIs_apart point fun b dot => ?_)
      rw [Byte.isDot, beq_iff_eq] at dot
      subst dot
      decide
    · exact Or.inl (t.wordStop_ends _)
  · cases found

/-- No byte of a token after the first is a bracket or could end the token before. -/
theorem shapeAt_tail {t : Text} {i j : Nat} (lower : i < j) (upper : j < (t.shapeAt i).2) :
    t.byteIs j Byte.isTail = true := by
  have shape := t.shape_shapeAt i
  revert upper shape
  generalize t.shapeAt i = result
  rintro upper (starts | starts | ⟨sign, starts⟩ | found | ⟨listed, stands⟩ | ⟨other, alone⟩)
  · exact numberStop_inside lower upper
  · exact byteIs_mono (wordStop_inside (Nat.le_of_lt lower) upper) Byte.isTail_of_isWord
  · exact byteIs_mono (wordStop_inside lower upper) Byte.isTail_of_isWord
  · exact macroVariableStop_inside found lower upper
  · obtain ⟨k, rfl⟩ := Nat.exists_eq_add_of_le (Nat.le_of_lt lower)
    exact sign_inside listed stands (by omega) (by simp only at upper; omega)
  · simp only at upper
    omega

theorem shapeAt_inside {t : Text} {i j : Nat} (lower : i < j) (upper : j < (t.shapeAt i).2) :
    t.byteIs j Byte.isInner = true :=
  byteIs_mono (shapeAt_tail lower upper) Byte.isInner_of_isTail

/-- A token ends before a byte that is no letter, or after one that is ASCII. -/
theorem shapeAt_ends (t : Text) (i : Nat) :
    t.byteIs (t.shapeAt i).2 Byte.isWord = false ∨
      t.byteIs ((t.shapeAt i).2 - 1) (128 ≤ ·) = false := by
  have shape := t.shape_shapeAt i
  revert shape
  generalize t.shapeAt i = result
  rintro (starts | starts | ⟨sign, starts⟩ | found | ⟨listed, stands⟩ | ⟨other, alone⟩)
  · exact Or.inl (t.numberStop_ends i (i + 1))
  · exact Or.inl (t.wordStop_ends i)
  · exact Or.inl (t.wordStop_ends (i + 1))
  · exact macroVariableStop_ends found
  · rename_i sign
    right
    obtain ⟨k, size⟩ : ∃ k, sign.length = k + 1 :=
      ⟨sign.length - 1, by have := signBytes_positive sign listed; omega⟩
    have ascii := (Bool.and_eq_true_iff.mp (signBytes_tail sign listed)).2
    have bound : k < sign.length := by omega
    have small := List.all_eq_true.mp ascii _ (List.getElem_mem bound)
    rw [size, show i + (k + 1) - 1 = i + k by omega,
      byteIs_of_byte? (startsWith_getElem stands (List.getElem?_eq_getElem bound))]
    simpa using small
  · right
    rw [Nat.add_sub_cancel]
    cases large : t.byteIs i (128 ≤ ·) with
    | false => rfl
    | true =>
      rw [byteIs_mono large fun b held => by simp_all [Byte.isWordStart]] at other
      cases other

/-- A semicolon is a token, and no other token ends a statement. -/
theorem shapeAt_semicolon {t : Text} {i : Nat} (here : t.byteIs i Byte.isSemicolon = true) :
    t.shapeAt i = (.statementEnd, i + 1) := by
  have byte : t.byte? i = some Byte.semicolon := by
    obtain ⟨b, found, same⟩ := byteIs_iff.mp here
    rw [found, eq_of_beq same]
  have read : ∀ p : UInt8 → Bool, t.byteIs i p = p Byte.semicolon := byteIs_of_byte? byte
  have shape := t.shape_shapeAt i
  revert shape
  generalize t.shapeAt i = result
  rintro (starts | starts | ⟨sign, starts⟩ | found | ⟨listed, stands⟩ | ⟨other, alone⟩)
  · rw [startsNumber, read, read] at starts
    cases starts
  · rw [read] at starts
    cases starts
  · rw [read] at sign
    cases sign
  · unfold macroVariableStop? at found
    rw [read] at found
    cases found
  · rename_i sign
    have positive := signBytes_positive sign listed
    have first := startsWith_getElem stands (List.getElem?_eq_getElem positive)
    rw [Nat.add_zero, byte] at first
    exact absurd (by rw [List.head?_eq_getElem?, List.getElem?_eq_getElem positive, first])
      (signBytes_head sign listed)
  · cases alone with
    | statementEnd => rfl
    | openParen wrong | closeParen wrong | punctuation wrong =>
      rw [read] at wrong
      cases wrong

theorem shapeAt_kind (t : Text) (i : Nat) :
    (t.shapeAt i).1.isSpan = false ∧
      ((t.shapeAt i).1 = .statementEnd ↔ t.byteIs i Byte.isSemicolon = true) := by
  cases here : t.byteIs i Byte.isSemicolon with
  | true => simp [shapeAt_semicolon here, Token.Kind.isSpan]
  | false =>
    simp only [Bool.false_eq_true, iff_false]
    have shape := t.shape_shapeAt i
    revert shape
    generalize t.shapeAt i = result
    rintro (starts | starts | ⟨sign, starts⟩ | found | ⟨listed, stands⟩ | ⟨other, alone⟩)
    · exact ⟨rfl, by simp⟩
    · exact Token.Kind.ofWord_code _
    · exact Token.Kind.ofWord_code _
    · exact ⟨rfl, by simp⟩
    · exact ⟨rfl, by simp⟩
    · cases alone with
      | statementEnd wrong =>
        rw [here] at wrong
        cases wrong
      | openParen | closeParen | punctuation => exact ⟨rfl, by simp⟩

theorem shapeAt_le_size {t : Text} {i : Nat} (inside : i < t.size) : (t.shapeAt i).2 ≤ t.size := by
  have longer := t.lt_shapeAt_stop i
  rcases Nat.eq_or_lt_of_le longer with single | more
  · omega
  · have last := lt_size_of_byteIs
      (shapeAt_inside (t := t) (i := i) (j := (t.shapeAt i).2 - 1) (by omega) (by omega))
    omega

/-- A token of the code of a text ends on a character boundary. -/
theorem Joined.shapeAt_boundary {t : Text} (joined : t.Joined) {i : Nat} (inside : i < t.size) :
    t.isBoundary (t.shapeAt i).2 = true := by
  have within := shapeAt_le_size inside
  rcases t.shapeAt_ends i with ends | ascii
  · exact isBoundary_of_not_word within ends
  · apply joined.boundary within
    intro j last
    rwa [last, Nat.add_sub_cancel] at ascii

end Text
end SasLayout
