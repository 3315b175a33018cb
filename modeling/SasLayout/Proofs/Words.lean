import SasLayout.Proofs.Names
import SasLayout.Proofs.Window

set_option autoImplicit false

/-!
The words of structured programs, and the shape that the lexer sees in each of them.
-/
namespace SasLayout

namespace Text

/-- The bytes `rest` are those of the text from `i` on. -/
def From (t : Text) (i : Nat) (rest : List UInt8) : Prop :=
  t.toList.drop i = rest

namespace From

variable {t : Text} {i : Nat} {b : UInt8} {front rest : List UInt8}

theorem byte? (stands : t.From i rest) (k : Nat) : t.byte? (i + k) = rest[k]? := by
  rw [← stands, List.getElem?_drop, byte?_eq_getElem?]

theorem first? (stands : t.From i rest) : t.byte? i = rest.head? := by
  rw [List.head?_eq_getElem?, ← stands.byte? 0, Nat.add_zero]

theorem byteIs (stands : t.From i rest) (p : UInt8 → Bool) : t.byteIs i p = rest.head?.any p := by
  rw [byteIs_eq_any, stands.first?]

theorem byteIs_cons (stands : t.From i (b :: rest)) (p : UInt8 → Bool) : t.byteIs i p = p b :=
  stands.byteIs p

theorem append (stands : t.From i (front ++ rest)) : t.From (i + front.length) rest := by
  rw [From, ← List.drop_drop, stands, List.drop_left]

theorem tail (stands : t.From i (b :: rest)) : t.From (i + 1) rest :=
  (show t.From i ([b] ++ rest) from stands).append

theorem inside (stands : t.From i (b :: rest)) : i < t.size :=
  lt_size_of_byte? stands.first?

theorem past (stands : t.From i []) : t.size ≤ i := by
  refine Nat.not_lt.mp fun inside => ?_
  obtain ⟨b, found⟩ := exists_byte inside
  rw [stands.first?] at found
  cases found

theorem within (stands : t.From i (b :: rest)) : i ≤ t.size :=
  Nat.le_of_lt stands.inside

theorem slice (stands : t.From i (front ++ rest)) :
    (t.slice i (i + front.length)).toList = front := by
  rw [toList_slice, ← List.take_drop, stands, List.take_left]

theorem startsWith (stands : t.From i rest) (word : List UInt8) :
    t.startsWith i word = word.isPrefixOf rest := by
  induction word generalizing i rest with
  | nil => rfl
  | cons c word ih =>
    cases rest with
    | nil => rw [Text.startsWith, stands.byteIs, List.head?_nil, Option.any_none]; rfl
    | cons b rest =>
      rw [Text.startsWith, stands.byteIs_cons, ih stands.tail, List.isPrefixOf, Bool.beq_comm]

/-- A search passes the bytes of which `p` fails. -/
theorem seek {p : UInt8 → Bool} (stands : t.From i (front ++ rest)) (fits : i ≤ t.size)
    (passed : ∀ b ∈ front, p b = false) (ends : rest.head?.all p = true) :
    t.seek p i = i + front.length := by
  induction front generalizing i with
  | nil =>
    rw [List.nil_append] at stands
    refine seek_eq_self fits ?_
    rw [stands.byteIs]
    cases rest with
    | nil => rfl
    | cons b rest => simpa using ends
  | cons b front ih =>
    have fails : t.byteIs i p = false := by
      rw [stands.byteIs_cons, passed b List.mem_cons_self]
    rw [Text.seek, if_pos stands.inside, if_neg (by simp [fails]),
      ih stands.tail stands.inside fun b listed => passed b (List.mem_cons_of_mem _ listed),
      List.length_cons]
    omega

end From

end Text

namespace Program

def bytes (s : String) : List UInt8 :=
  (Text.ofString s).toList

/-- What can stand behind a word. -/
def Stops (rest : List UInt8) : Prop :=
  ∀ b ∈ rest.head?, Byte.isBlank b = true ∨ b = Byte.semicolon

/-- The bytes that can carry a word on. -/
def isInner (b : UInt8) : Bool :=
  Byte.isWord b || Byte.isDot b || Byte.isSign b || b == Byte.ampersand || b == Byte.star ||
    b == Byte.singleQuote

theorem Stops.apart {rest : List UInt8} (stops : Stops rest) {p : UInt8 → Bool}
    (inner : ∀ b, p b = true → isInner b = true) : rest.head?.any p = false := by
  have outer : ∀ b, (Byte.isBlank b || Byte.isSemicolon b) = true → isInner b = false :=
    Byte.forall_of_halves (by decide)
  cases rest with
  | nil => rfl
  | cons b rest =>
    have stop : isInner b = false := by
      refine outer b ?_
      rcases stops b rfl with blank | rfl
      · rw [blank, Bool.true_or]
      · rfl
    rw [List.head?_cons, Option.any_some, ← Bool.not_eq_true]
    intro met
    rw [inner b met] at stop
    cases stop

theorem Stops.word {rest : List UInt8} (stops : Stops rest) :
    rest.head?.any Byte.isWord = false :=
  stops.apart fun b word => by simp [isInner, word]

def isPlainWord : List UInt8 → Bool
  | [] => false
  | b :: rest => Byte.isWordStart b && rest.all Byte.isWord

/-- A word of letters, digits and underscores that starts with no digit, or a percent sign and such
a word. -/
def isSpelled : List UInt8 → Bool
  | [] => false
  | b :: rest => if b = Byte.percent then isPlainWord rest else isPlainWord (b :: rest)

theorem ne_nil_of_isSpelled {word : List UInt8} (spelled : isSpelled word = true) : word ≠ [] := by
  rintro rfl
  cases spelled

/-- An identifier: a word that is neither reserved nor an operator. -/
structure Name where
  spelling : String
  spelled : isSpelled (bytes spelling) = true
  unnamed : Token.isNamed (Text.ofString spelling).lower.toString = false

/-- Whether a number can start with these bytes. -/
def startsNumber : List UInt8 → Bool
  | [] => false
  | b :: rest => Byte.isDigit b || (Byte.isDot b && rest.head?.any Byte.isDigit)

theorem startsNumber_append {front rest : List UInt8} (starts : startsNumber front = true) :
    startsNumber (front ++ rest) = true := by
  cases front with
  | nil => cases starts
  | cons b front =>
    rw [startsNumber, Bool.or_eq_true, Bool.and_eq_true] at starts
    rw [List.cons_append, startsNumber, Bool.or_eq_true, Bool.and_eq_true]
    refine starts.imp id fun ⟨dot, digit⟩ => ⟨dot, ?_⟩
    cases front with
    | nil => cases digit
    | cons c front => exact digit

/-- Digits, points and letters, or digits and points with a signed exponent. -/
inductive IsNumber : List UInt8 → Prop
  | plain {number : List UInt8} (starts : startsNumber number = true)
    (each : ∀ b ∈ number, (Byte.isWord b || Byte.isDot b) = true) : IsNumber number
  | signed {mantissa rest : List UInt8} {e sign digit : UInt8}
    (starts : startsNumber (mantissa ++ [e]) = true)
    (each : ∀ b ∈ mantissa, (Byte.isDigit b || Byte.isDot b) = true) (exponent : Byte.lower e = 101)
    (signs : Byte.isSign sign = true) (digits : Byte.isDigit digit = true)
    (later : ∀ b ∈ rest, (Byte.isWord b || Byte.isDot b) = true) :
    IsNumber (mantissa ++ e :: sign :: digit :: rest)

theorem IsNumber.starts {number : List UInt8} (valid : IsNumber number) :
    startsNumber number = true := by
  cases valid with
  | plain starts each => exact starts
  | @signed mantissa later e sign digit starts =>
    rw [← List.singleton_append, ← List.append_assoc]
    exact startsNumber_append starts

structure Numeral where
  spelling : String
  number : IsNumber (bytes spelling)

/-- The inside of a literal on one line: a quote stands for itself when it is written twice. -/
inductive Quoted : List UInt8 → Prop
  | nil : Quoted []
  | byte {b : UInt8} {rest : List UInt8} (plain : b ≠ Byte.singleQuote) (line : b ≠ Byte.newline)
    (later : Quoted rest) : Quoted (b :: rest)
  | quotes {rest : List UInt8} (later : Quoted rest) :
    Quoted (Byte.singleQuote :: Byte.singleQuote :: rest)

structure Literal where
  spelling : String
  inside : List UInt8
  quoted : Quoted inside
  spelled : bytes spelling = Byte.singleQuote :: (inside ++ [Byte.singleQuote])

structure Sign where
  spelling : String
  listed : spelling ∈ Operator.signs

/-- An operator that is written as a word, in any mixture of cases. -/
structure Mnemonic where
  spelling : String
  name : String
  listed : name ∈ Operator.words
  lower : (Text.ofString spelling).lower = Text.ofString name

inductive Bracket where
  | round
  | square
  | curly

inductive Word where
  | name (n : Name)
  | number (n : Numeral)
  | literal (l : Literal)
  | sign (s : Sign)
  | mnemonic (m : Mnemonic)
  | comma
  | opening (b : Bracket)
  | closing (b : Bracket)
  | keyword (k : Keyword)
  | semicolon

namespace Word

def spelling : Word → String
  | name n => n.spelling
  | number n => n.spelling
  | literal l => l.spelling
  | sign s => s.spelling
  | mnemonic m => m.spelling
  | comma => ","
  | opening .round => "("
  | opening .square => "["
  | opening .curly => "\x7b"
  | closing .round => ")"
  | closing .square => "]"
  | closing .curly => "\x7d"
  | keyword k => k.spelling
  | semicolon => ";"

def bytes (w : Word) : List UInt8 :=
  Program.bytes w.spelling

def kind : Word → Token.Kind
  | name _ => .identifier
  | number _ => .number
  | literal _ => .stringLiteral
  | sign _ => .operator
  | mnemonic _ => .operator
  | comma => .punctuation
  | opening _ => .openParen
  | closing _ => .closeParen
  | keyword k => .ofWord (Text.ofString k.spelling)
  | semicolon => .statementEnd

/-- The word's name in the indentation grammar. -/
def role : Word → String
  | name _ | number _ | literal _ => ""
  | sign s => s.spelling
  | mnemonic m => m.name
  | comma => ","
  | opening _ => "("
  | closing _ => ")"
  | keyword k => k.spelling
  | semicolon => ";"

/-- The token of the word when it starts at `i`. -/
def token (w : Word) (i : Nat) : Token :=
  ⟨Text.ofString w.spelling, w.kind, i, i + w.bytes.length⟩

end Word

/-! ### Reading one word -/

section Shapes

variable {t : Text} {i : Nat} {front rest : List UInt8}

theorem startsNumber_from (stands : t.From i front) : t.startsNumber i = startsNumber front := by
  cases front with
  | nil => simp [Text.startsNumber, stands.byteIs, startsNumber]
  | cons b front =>
    rw [Text.startsNumber, stands.byteIs_cons, stands.byteIs_cons, stands.tail.byteIs]
    rfl

theorem shapeAt_plain (stands : t.From i (front ++ rest)) (plain : isPlainWord front = true)
    (ends : rest.head?.any Byte.isWord = false) :
    t.shapeAt i = (.ofWord (t.slice i (i + front.length)), i + front.length) := by
  cases front with
  | nil => cases plain
  | cons b front =>
    rw [isPlainWord, Bool.and_eq_true, List.all_eq_true] at plain
    obtain ⟨starts, later⟩ := plain
    have letter : Byte.isDigit b = false ∧ Byte.isDot b = false ∧ Byte.isWord b = true :=
      Byte.forall_of_halves (p := fun b => Byte.isWordStart b = true →
        Byte.isDigit b = false ∧ Byte.isDot b = false ∧ Byte.isWord b = true)
        (by decide) b starts
    have number : t.startsNumber i = false := by
      rw [startsNumber_from stands, List.cons_append, startsNumber, letter.1, letter.2.1]
      rfl
    have stop : t.wordStop i = i + (b :: front).length := by
      refine stands.seek stands.within ?_ ?_
      · simpa [letter.2.2] using later
      · cases rest with
        | nil => rfl
        | cons c rest => simpa using ends
    rw [Text.shapeAt, number, if_neg Bool.false_ne_true, stands.byteIs_cons, if_pos starts, stop]

theorem shapeAt_percent (stands : t.From i (Byte.percent :: (front ++ rest)))
    (plain : isPlainWord front = true) (ends : rest.head?.any Byte.isWord = false) :
    t.shapeAt i = (.ofWord (t.slice i (i + 1 + front.length)), i + 1 + front.length) := by
  have word := stands.tail
  cases front with
  | nil => cases plain
  | cons b front =>
    rw [isPlainWord, Bool.and_eq_true, List.all_eq_true] at plain
    obtain ⟨starts, later⟩ := plain
    have letter : Byte.isWord b = true := by rw [Byte.isWord, starts, Bool.or_true]
    have number : t.startsNumber i = false := by
      rw [startsNumber_from stands, startsNumber]
      rfl
    have stop : t.wordStop (i + 1) = i + 1 + (b :: front).length := by
      refine word.seek word.within ?_ ?_
      · simpa [letter] using later
      · cases rest with
        | nil => rfl
        | cons c rest => simpa using ends
    rw [Text.shapeAt, number, if_neg Bool.false_ne_true, stands.byteIs_cons,
      if_neg (by decide), stands.byteIs_cons, word.byteIs_cons, starts, if_pos (by decide), stop]

theorem shapeAt_spelled (stands : t.From i (front ++ rest)) (spelled : isSpelled front = true)
    (ends : rest.head?.any Byte.isWord = false) :
    t.shapeAt i = (.ofWord (t.slice i (i + front.length)), i + front.length) := by
  cases front with
  | nil => cases spelled
  | cons b front =>
    rw [isSpelled] at spelled
    split at spelled
    · rename_i percent
      obtain rfl := percent
      rw [shapeAt_percent stands spelled ends, List.length_cons, Nat.add_assoc,
        Nat.add_comm 1]
    · exact shapeAt_plain stands spelled ends

theorem numberStop_pass (stands : t.From i (front ++ rest)) (start : Nat)
    (each : ∀ b ∈ front, (Byte.isWord b || Byte.isDot b) = true) :
    t.numberStop start i = t.numberStop start (i + front.length) := by
  induction front generalizing i with
  | nil => rfl
  | cons b front ih =>
    have letter := each b List.mem_cons_self
    rw [Text.numberStop, if_pos stands.inside, stands.byteIs_cons, if_pos letter,
      ih stands.tail fun b listed => each b (List.mem_cons_of_mem _ listed), List.length_cons]
    congr 1
    omega

theorem numberStop_stops (stands : t.From i rest) (start : Nat) (stops : Stops rest) :
    t.numberStop start i = i := by
  have other := stops.apart (p := fun b => Byte.isWord b || Byte.isDot b) fun b met => by
    simp only [isInner, met, Bool.true_or]
  have sign := stops.apart (p := Byte.isSign) fun b met => by simp [isInner, met]
  rw [Text.numberStop, stands.byteIs, other, Text.isExponentSign, stands.byteIs, sign]
  simp

theorem numberStop_exponent {mantissa later : List UInt8} {e sign digit : UInt8}
    (stands : t.From i (mantissa ++ e :: sign :: digit :: later))
    (each : ∀ b ∈ mantissa, (Byte.isDigit b || Byte.isDot b) = true) (exponent : Byte.lower e = 101)
    (signs : Byte.isSign sign = true) (digits : Byte.isDigit digit = true) :
    t.numberStop i (i + mantissa.length + 1) = t.numberStop i (i + mantissa.length + 3) := by
  have letter := stands.append
  have mark := letter.tail
  have plain : (Byte.isWord sign || Byte.isDot sign) = false :=
    Byte.forall_of_halves (p := fun b => Byte.isSign b = true →
      (Byte.isWord b || Byte.isDot b) = false) (by decide) sign signs
  have before : t.allBetween (fun b => Byte.isDigit b || Byte.isDot b) i (i + mantissa.length) =
      true := by
    rw [Text.allBetween, List.all_eq_true]
    intro k listed
    obtain ⟨lower, upper⟩ := List.mem_range'_1.mp listed
    obtain ⟨m, rfl⟩ := Nat.exists_eq_add_of_le lower
    have inside : m < mantissa.length := by omega
    rw [Text.byteIs_eq_any, stands.byte? m, List.getElem?_append_left inside,
      List.getElem?_eq_getElem inside, Option.any_some]
    exact each _ (List.getElem_mem inside)
  have found : t.isExponentSign i (i + mantissa.length + 1) = true := by
    rw [Text.isExponentSign, mark.byteIs_cons, signs, Nat.add_sub_cancel, letter.byteIs_cons,
      exponent, before, mark.tail.byteIs_cons, digits]
    rfl
  rw [Text.numberStop, if_pos mark.inside, mark.byteIs_cons, plain,
    if_neg Bool.false_ne_true, found, if_pos rfl]

theorem numberStop_number (stands : t.From i (front ++ rest)) (number : IsNumber front)
    (stops : Stops rest) : t.numberStop i (i + 1) = i + front.length := by
  have ended : t.numberStop i (i + front.length) = i + front.length :=
    numberStop_stops stands.append i stops
  cases number with
  | plain starts each =>
    cases front with
    | nil => cases starts
    | cons b front =>
      rw [numberStop_pass stands.tail i fun b listed => each b (List.mem_cons_of_mem _ listed),
        Nat.add_assoc, Nat.add_comm 1]
      exact ended
  | @signed mantissa later e sign digit starts each exponent signs digits others =>
    have letter : (Byte.isWord e || Byte.isDot e) = true ∧ startsNumber [e] = false :=
      Byte.forall_of_halves (p := fun e => Byte.lower e = 101 →
        (Byte.isWord e || Byte.isDot e) = true ∧ startsNumber [e] = false) (by decide) e
        exponent
    have front : ∀ b ∈ mantissa ++ [e], (Byte.isWord b || Byte.isDot b) = true := by
      intro b listed
      rcases List.mem_append.mp listed with early | last
      · have digits := each b early
        rw [Bool.or_eq_true] at digits ⊢
        exact digits.imp Byte.isWord_of_isDigit id
      · rw [List.mem_singleton.mp last]
        exact letter.1
    cases mantissa with
    | nil =>
      rw [List.nil_append, letter.2] at starts
      cases starts
    | cons b mantissa =>
      have whole : t.From i ((b :: mantissa) ++ e :: sign :: digit :: (later ++ rest)) := by
        simpa using stands
      have early : t.From (i + 1) ((mantissa ++ [e]) ++ (sign :: digit :: (later ++ rest))) := by
        simpa using stands.tail
      calc t.numberStop i (i + 1)
        _ = t.numberStop i (i + (b :: mantissa).length + 1) := by
          rw [numberStop_pass early i fun b listed => front b (List.mem_cons_of_mem _ listed),
            List.length_append, List.length_singleton, List.length_cons]
          congr 1
          omega
        _ = t.numberStop i (i + (b :: mantissa).length + 3) :=
          numberStop_exponent whole each exponent signs digits
        _ = t.numberStop i (i + (b :: mantissa).length + 3 + later.length) :=
          numberStop_pass whole.append.tail.tail.tail i others
        _ = i + ((b :: mantissa) ++ e :: sign :: digit :: later).length := by
          rw [← ended]
          congr 1
          simp only [List.length_append, List.length_cons]
          omega

theorem shapeAt_number (stands : t.From i (front ++ rest)) (number : IsNumber front)
    (stops : Stops rest) : t.shapeAt i = (.number, i + front.length) := by
  rw [Text.shapeAt, startsNumber_from stands, startsNumber_append number.starts, if_pos rfl,
    numberStop_number stands number stops]

theorem isPrefixOf_stops {sign : List UInt8} (apart : ∀ b ∈ rest.head?, b ∉ sign) :
    sign.isPrefixOf (front ++ rest) = sign.isPrefixOf front := by
  induction front generalizing sign with
  | nil =>
    cases sign with
    | nil => rfl
    | cons c sign =>
      cases rest with
      | nil => rfl
      | cons b rest =>
        have other : c ≠ b := fun same => apart b rfl (by simp [same])
        change (c == b && sign.isPrefixOf rest) = false
        rw [beq_eq_false_iff_ne.mpr other, Bool.false_and]
  | cons a front ih =>
    cases sign with
    | nil => rfl
    | cons c sign =>
      rw [List.cons_append, List.isPrefixOf, List.isPrefixOf,
        ih fun b first listed => apart b first (List.mem_cons_of_mem _ listed)]

theorem signBytes_plain : ∀ sign ∈ Operator.signBytes, ∀ b ∈ sign,
    (Byte.isBlank b || Byte.isSemicolon b) = false := by
  have each : (Operator.signBytes.all fun sign =>
      sign.all fun b => !(Byte.isBlank b || Byte.isSemicolon b)) = true := by decide
  simpa using each

/-- No sign goes on behind the end of a word. -/
theorem startsWith_stops (stands : t.From i (front ++ rest)) (stops : Stops rest)
    {sign : List UInt8} (listed : sign ∈ Operator.signBytes) :
    t.startsWith i sign = sign.isPrefixOf front := by
  rw [stands.startsWith, isPrefixOf_stops]
  intro b first member
  have plain := signBytes_plain sign listed b member
  rw [Bool.or_eq_false_iff] at plain
  rcases stops b first with blank | rfl
  · rw [blank] at plain
    cases plain.1
  · cases plain.2

theorem signLength?_stops (stands : t.From i (front ++ rest)) (stops : Stops rest) :
    t.signLength? i = (Operator.signBytes.find? (·.isPrefixOf front)).map List.length := by
  rw [Text.signLength?]
  congr 1
  exact List.find?_congr fun sign listed => startsWith_stops stands stops listed

/-- The bytes that start neither a number nor a word. -/
def isMark (b : UInt8) : Bool :=
  !(Byte.isDigit b || Byte.isDot b || Byte.isWordStart b || b == Byte.percent ||
    Byte.isSemicolon b)

theorem shapeAt_mark {b : UInt8} (stands : t.From i (b :: rest)) (mark : isMark b = true)
    (single : t.macroVariableStop? i = none) :
    t.shapeAt i =
      if Byte.isOpenBracket b then (.openParen, i + 1)
      else if Byte.isCloseBracket b then (.closeParen, i + 1)
      else
        match t.signLength? i with
        | some length => (.operator, i + length)
        | none => (.punctuation, i + 1) := by
  simp only [isMark, Bool.not_eq_true', Bool.or_eq_false_iff] at mark
  obtain ⟨⟨⟨⟨digit, dot⟩, letter⟩, percent⟩, semicolon⟩ := mark
  rw [Text.shapeAt, startsNumber_from stands, startsNumber, digit, dot, stands.byteIs_cons, letter,
    stands.byteIs_cons, percent, single, stands.byteIs_cons, semicolon, stands.byteIs_cons,
    stands.byteIs_cons]
  rfl

theorem macroVariableStop?_other {b : UInt8} (stands : t.From i (b :: rest))
    (other : b ≠ Byte.ampersand) : t.macroVariableStop? i = none := by
  rw [Text.macroVariableStop?, stands.byteIs_cons, beq_eq_false_iff_ne.mpr other]
  simp

theorem macroVariableStop?_sign (stands : t.From i (Byte.ampersand :: rest)) (stops : Stops rest) :
    t.macroVariableStop? i = none := by
  have next : t.seek (· != Byte.ampersand) i = i + 1 := by
    have first : t.From i ([Byte.ampersand] ++ rest) := stands
    refine first.seek stands.within (List.forall_mem_singleton.mpr rfl) ?_
    have other := stops.apart (p := (· == Byte.ampersand)) fun b met => by simp [isInner, met]
    cases rest with
    | nil => rfl
    | cons b rest => simpa using other
  have ends : t.byteIs (i + 1) Byte.isWordStart = false := by
    rw [stands.tail.byteIs]
    exact stops.apart fun b met => by simp [isInner, Byte.isWord, met]
  rw [Text.macroVariableStop?, next, ends]
  simp

theorem signBytes_first : ∀ sign ∈ Operator.signBytes, sign.head?.any (fun b => isMark b &&
    !Byte.isOpenBracket b && !Byte.isCloseBracket b) = true ∧
      (sign.head? = some Byte.ampersand → sign = [Byte.ampersand]) ∧
      Operator.signBytes.find? (·.isPrefixOf sign) = some sign := by
  decide

theorem shapeAt_sign (stands : t.From i (front ++ rest)) (listed : front ∈ Operator.signBytes)
    (stops : Stops rest) : t.shapeAt i = (.operator, i + front.length) := by
  obtain ⟨first, alone, found⟩ := signBytes_first front listed
  cases front with
  | nil => cases first
  | cons b sign =>
    simp only [List.head?_cons, Option.any_some, Bool.and_eq_true, Bool.not_eq_true'] at first
    have noVariable : t.macroVariableStop? i = none := by
      by_cases ampersand : b = Byte.ampersand
      · obtain ⟨rfl, rfl⟩ := List.cons.inj (alone (congrArg some ampersand))
        exact macroVariableStop?_sign stands stops
      · exact macroVariableStop?_other stands ampersand
    rw [shapeAt_mark stands first.1.1 noVariable, first.1.2, first.2,
      signLength?_stops stands stops, found]
    simp

theorem shapeAt_bracket {b : UInt8} (stands : t.From i (b :: rest)) :
    (Byte.isOpenBracket b = true → t.shapeAt i = (.openParen, i + 1)) ∧
      (Byte.isCloseBracket b = true → t.shapeAt i = (.closeParen, i + 1)) := by
  have facts : ∀ b, ((Byte.isOpenBracket b || Byte.isCloseBracket b) = true →
      isMark b = true ∧ b ≠ Byte.ampersand) ∧
      (Byte.isCloseBracket b = true → Byte.isOpenBracket b = false) :=
    Byte.forall_of_halves (by decide)
  constructor
  · intro opens
    obtain ⟨mark, other⟩ := (facts b).1 (by rw [opens, Bool.true_or])
    rw [shapeAt_mark stands mark (macroVariableStop?_other stands other), if_pos opens]
  · intro closes
    obtain ⟨mark, other⟩ := (facts b).1 (by rw [closes, Bool.or_true])
    rw [shapeAt_mark stands mark (macroVariableStop?_other stands other), (facts b).2 closes,
      if_neg Bool.false_ne_true, if_pos closes]

theorem shapeAt_comma (stands : t.From i (Byte.comma :: rest)) (stops : Stops rest) :
    t.shapeAt i = (.punctuation, i + 1) := by
  have absent : Operator.signBytes.find? (·.isPrefixOf [Byte.comma]) = none := by decide
  have first : t.From i ([Byte.comma] ++ rest) := stands
  rw [shapeAt_mark stands (by decide) (macroVariableStop?_other stands (by decide)),
    signLength?_stops first stops, absent]
  rfl

end Shapes

end Program
end SasLayout
