import SasLayout.Proofs.LetterCase
import SasLayout.Proofs.Words
import SasLayout.Proofs.Tiling

set_option autoImplicit false

/-!
Reading words. A word is one token whatever stands behind it, as long as that is a blank, a
semicolon or the end of the text.
-/
namespace SasLayout
namespace Program

theorem ofWord_unnamed {word : Text} (unnamed : Token.isNamed word.lower.toString = false) :
    Token.Kind.ofWord word = .identifier := by
  rw [Token.isNamed, Bool.or_eq_false_iff, Option.isSome_eq_false_iff] at unnamed
  rw [Token.Kind.ofWord]
  simp [Option.isNone_iff_eq_none.mp unnamed.1, unnamed.2]

theorem isPlainWord_lower (word : List UInt8) :
    isPlainWord (word.map Byte.lower) = isPlainWord word := by
  cases word with
  | nil => rfl
  | cons b rest => simp [isPlainWord, List.all_map, Function.comp_def]

theorem isSpelled_lower (word : List UInt8) :
    isSpelled (word.map Byte.lower) = isSpelled word := by
  have percent (b : UInt8) : Byte.lower b = Byte.percent ↔ b = Byte.percent := by
    rw [← beq_iff_eq, Byte.lower_beq_percent, beq_iff_eq]
  cases word with
  | nil => rfl
  | cons b rest =>
    rw [List.map_cons, isSpelled, isSpelled, isPlainWord_lower, ← List.map_cons, isPlainWord_lower]
    simp only [percent]

namespace Mnemonic

variable (m : Mnemonic)

theorem ofWord : Token.Kind.ofWord (Text.ofString m.spelling) = .operator := by
  have words : ∀ name ∈ Operator.words, Keyword.ofSpelling? name = none ∧
      Operator.isWord name = true := by decide
  obtain ⟨plain, operator⟩ := words m.name m.listed
  rw [Token.Kind.ofWord, m.lower, Text.toString_ofString]
  simp [plain, operator]

theorem spelled : isSpelled (bytes m.spelling) = true := by
  have words : ∀ name ∈ Operator.words, isSpelled (bytes name) = true := by decide
  rw [← isSpelled_lower, bytes, ← Text.toList_lower, m.lower]
  exact words m.name m.listed

end Mnemonic

namespace Word

variable {t : Text} {i : Nat} {rest : List UInt8} {w : Word}

theorem keyword_mem_all (k : Keyword) : k ∈ Keyword.all := by
  cases k <;> decide

theorem keyword_spelled (k : Keyword) : isSpelled (Program.bytes k.spelling) = true := by
  have spelled : ∀ k ∈ Keyword.all, isSpelled (Program.bytes k.spelling) = true := by
    decide
  exact spelled k (keyword_mem_all k)

theorem ofSpelling?_spelling (k : Keyword) : Keyword.ofSpelling? k.spelling = some k := by
  cases k <;> decide

/-- A word that is not a literal is one token. -/
theorem shapeAt_word (code : ∀ l, w ≠ .literal l) (stands : t.From i (w.bytes ++ rest))
    (stops : Stops rest) : t.shapeAt i = (w.kind, i + w.bytes.length) := by
  have slice : t.slice i (i + w.bytes.length) = Text.ofString w.spelling :=
    Text.ext_toList stands.slice
  cases w with
  | name n =>
    rw [shapeAt_spelled stands n.spelled stops.word, slice]
    exact congrArg (·, _) (ofWord_unnamed n.unnamed)
  | number n => exact shapeAt_number stands n.number stops
  | literal l => exact absurd rfl (code l)
  | sign s => exact shapeAt_sign stands (List.mem_map_of_mem s.listed) stops
  | mnemonic m =>
    rw [shapeAt_spelled stands m.spelled stops.word, slice]
    exact congrArg (·, _) m.ofWord
  | comma => exact shapeAt_comma stands stops
  | opening b => cases b <;> exact (shapeAt_bracket stands).1 rfl
  | closing b => cases b <;> exact (shapeAt_bracket stands).2 rfl
  | keyword k =>
    rw [shapeAt_spelled stands (keyword_spelled k) stops.word, slice]
    rfl
  | semicolon => exact Text.shapeAt_semicolon (stands.byteIs_cons _)

/-- The bytes that open no comment and no literal, end no statement and are seen. -/
def isCalm (b : UInt8) : Bool :=
  !(Byte.isBlank b || Byte.isSemicolon b || b == Byte.slash || b == Byte.star ||
    b == Byte.singleQuote || b == Byte.doubleQuote)

theorem piece_calm {b : UInt8} {settings : LexicalSettings} {fresh : Bool}
    (stands : t.From i (b :: rest)) (calm : isCalm b = true)
    (aside : b = Byte.percent → rest.head? ≠ some Byte.star) :
    t.piece settings fresh i = .code := by
  simp only [isCalm, Bool.not_eq_true', Bool.or_eq_false_iff] at calm
  obtain ⟨⟨⟨⟨⟨blank, semicolon⟩, slash⟩, star⟩, single⟩, double⟩ := calm
  refine Text.piece_eq_code (by rw [stands.byteIs_cons, blank]) ?_
    (by rw [stands.byteIs_cons, semicolon])
  have percent : (b == Byte.percent && rest.head?.any (· == Byte.star)) = false := by
    by_contra both
    rw [Bool.not_eq_false, Bool.and_eq_true, beq_iff_eq, Option.any_eq_true] at both
    obtain ⟨same, c, first, found⟩ := both
    rw [eq_of_beq found] at first
    exact aside same first
  have comment : t.opensStatementComment settings i = false := by
    rw [Text.opensStatementComment, stands.byteIs_cons, star, stands.byteIs_cons,
      stands.tail.byteIs, Bool.and_assoc, percent]
    simp
  rw [Text.opening?, Text.opensBlockComment, stands.byteIs_cons, slash, comment,
    Text.opensLiteral, stands.byteIs_cons, single, double]
  simp

theorem piece_spelled {front : List UInt8} {settings : LexicalSettings} {fresh : Bool}
    (stands : t.From i (front ++ rest)) (spelled : isSpelled front = true) :
    t.piece settings fresh i = .code := by
  have letters : ∀ b, (Byte.isWordStart b = true → isCalm b = true ∧ b ≠ Byte.star) :=
    Byte.forall_of_halves (by decide)
  cases front with
  | nil => cases spelled
  | cons b front =>
    rw [isSpelled] at spelled
    split at spelled
    · rename_i percent
      refine piece_calm stands (by rw [percent]; decide) fun _ first => ?_
      cases front with
      | nil => cases spelled
      | cons c front =>
        rw [isPlainWord, Bool.and_eq_true] at spelled
        exact (letters c spelled.1).2 (Option.some.inj first)
    · rename_i other
      rw [isPlainWord, Bool.and_eq_true] at spelled
      exact piece_calm stands (letters b spelled.1).1 fun percent => absurd percent other

theorem piece_number {front : List UInt8} {settings : LexicalSettings} {fresh : Bool}
    (stands : t.From i (front ++ rest)) (starts : startsNumber front = true) :
    t.piece settings fresh i = .code := by
  cases front with
  | nil => cases starts
  | cons b front =>
    have first : (Byte.isDigit b || Byte.isDot b) = true := by
      rw [startsNumber, Bool.or_eq_true, Bool.and_eq_true] at starts
      rw [Bool.or_eq_true]
      exact starts.imp id (·.1)
    have calm : isCalm b = true ∧ b ≠ Byte.percent :=
      Byte.forall_of_halves (p := fun b => (Byte.isDigit b || Byte.isDot b) = true →
        isCalm b = true ∧ b ≠ Byte.percent) (by decide) b first
    exact piece_calm stands calm.1 fun percent => absurd percent calm.2

theorem signBytes_opens : ∀ sign ∈ Operator.signBytes, sign.head?.any (fun b =>
    !(Byte.isBlank b || Byte.isSemicolon b || b == Byte.singleQuote || b == Byte.doubleQuote)) ∧
      (sign.head? = some Byte.slash → sign = [Byte.slash]) := by
  decide

/-- A slash opens no comment before a blank, and a star none inside a statement. -/
theorem piece_sign {front : List UInt8} {settings : LexicalSettings}
    (stands : t.From i (front ++ rest)) (listed : front ∈ Operator.signBytes)
    (stops : Stops rest) : t.piece settings false i = .code := by
  obtain ⟨first, alone⟩ := signBytes_opens front listed
  cases front with
  | nil => cases first
  | cons b sign =>
    simp only [List.head?_cons, Option.any_some, Bool.not_eq_true', Bool.or_eq_false_iff] at first
    obtain ⟨⟨⟨blank, semicolon⟩, single⟩, double⟩ := first
    refine Text.piece_eq_code (by rw [stands.byteIs_cons, blank]) ?_
      (by rw [stands.byteIs_cons, semicolon])
    have comment : t.opensBlockComment i = false := by
      rw [Text.opensBlockComment, stands.byteIs_cons, stands.tail.byteIs]
      by_cases slash : b = Byte.slash
      · obtain ⟨rfl, rfl⟩ := List.cons.inj (alone (congrArg some slash))
        have star := stops.apart (p := (· == Byte.star)) fun b met => by simp [isInner, met]
        change (_ && rest.head?.any (· == Byte.star)) = false
        rw [star, Bool.and_false]
      · rw [beq_eq_false_iff_ne.mpr slash, Bool.false_and]
    rw [Text.opening?, comment, Text.opensLiteral, stands.byteIs_cons, single, double]
    simp

theorem quoteClose?_quoted {inside : List UInt8} (quoted : Quoted inside)
    (stands : t.From i (inside ++ Byte.singleQuote :: rest))
    (alone : rest.head?.any (· == Byte.singleQuote) = false) :
    t.quoteClose? Byte.singleQuote i = some (i + inside.length + 1) := by
  induction quoted generalizing i with
  | nil =>
    rw [List.nil_append] at stands
    rw [Text.quoteClose?, if_pos stands.inside, stands.byteIs_cons, if_pos (by decide),
      stands.tail.byteIs, alone, if_neg Bool.false_ne_true]
    rfl
  | @byte b inside plain line later ih =>
    rw [Text.quoteClose?, if_pos stands.inside, stands.byteIs_cons,
      beq_eq_false_iff_ne.mpr plain, if_neg Bool.false_ne_true, ih stands.tail, List.length_cons]
    congr 1
    omega
  | @quotes inside later ih =>
    rw [Text.quoteClose?, if_pos stands.inside, stands.byteIs_cons, if_pos (by decide),
      stands.tail.byteIs_cons, if_pos (by decide), ih stands.tail.tail, List.length_cons,
      List.length_cons]
    congr 1
    omega

theorem piece_literal {l : Literal} {settings : LexicalSettings} {fresh : Bool}
    (stands : t.From i ((literal l).bytes ++ rest)) (stops : Stops rest) :
    t.piece settings fresh i =
      .span ⟨i, i + (literal l).bytes.length, .stringLiteral, true⟩ := by
  have spelled : (literal l).bytes = Byte.singleQuote :: (l.inside ++ [Byte.singleQuote]) :=
    l.spelled
  rw [spelled] at stands ⊢
  rw [List.cons_append, List.append_assoc, List.singleton_append] at stands
  have alone := stops.apart (p := (· == Byte.singleQuote)) fun b met => by simp [isInner, met]
  have quote : ∀ p : UInt8 → Bool, t.byteIs i p = p Byte.singleQuote := stands.byteIs_cons
  have block : t.opensBlockComment i = false := by
    rw [Text.opensBlockComment, quote]
    rfl
  have statement : t.opensStatementComment settings i = false := by
    rw [Text.opensStatementComment, quote, quote]
    cases settings.macroComments <;> rfl
  have opens : t.opensLiteral settings i = true := by
    rw [Text.opensLiteral, quote]
    rfl
  refine Text.piece_eq_span (by rw [quote]; rfl) ?_
  rw [Text.opening?, block, statement, opens, stands.first?, List.head?_cons, Option.bind_some,
    quoteClose?_quoted l.quoted stands.tail alone, Bool.and_false, if_neg Bool.false_ne_true,
    if_neg Bool.false_ne_true, if_pos rfl, Span.upTo, List.length_cons, List.length_append,
    List.length_singleton]
  congr 2
  omega

theorem piece_semicolon {settings : LexicalSettings} {fresh : Bool}
    (stands : t.From i (semicolon.bytes ++ rest)) :
    t.piece settings fresh i = .terminator :=
  Text.piece_eq_terminator (stands.byteIs_cons _)

theorem bytes_ne_nil (w : Word) : ∃ b rest, w.bytes = b :: rest := by
  refine List.exists_cons_of_ne_nil ?_
  cases w with
  | name n => exact ne_nil_of_isSpelled n.spelled
  | number n =>
    intro empty
    have starts := n.number.starts
    rw [show Program.bytes n.spelling = [] from empty] at starts
    cases starts
  | literal l =>
    change Program.bytes l.spelling ≠ []
    rw [l.spelled]
    exact List.cons_ne_nil _ _
  | sign s =>
    have positive := Text.signBytes_positive _ (List.mem_map_of_mem s.listed)
    exact List.ne_nil_of_length_pos positive
  | mnemonic m => exact ne_nil_of_isSpelled m.spelled
  | comma => decide
  | opening b => cases b <;> decide
  | closing b => cases b <;> decide
  | keyword k => exact ne_nil_of_isSpelled (keyword_spelled k)
  | semicolon => decide

theorem keyword_named (k : Keyword) :
    (Text.ofString k.spelling).lower = Text.ofString k.spelling ∧
      Token.isNamed k.spelling = true := by
  have named : ∀ k ∈ Keyword.all, (Text.ofString k.spelling).lower = Text.ofString k.spelling ∧
      Token.isNamed k.spelling = true := by
    decide +kernel
  exact named k (keyword_mem_all k)

theorem grammarName_token (w : Word) (i : Nat) : (w.token i).grammarName = w.role := by
  cases w with
  | name n => rfl
  | number n => rfl
  | literal l => rfl
  | sign s =>
    change (Text.ofString s.spelling).lower.toString = s.spelling
    rw [Operator.signs_lower _ s.listed, Text.toString_ofString]
  | mnemonic m =>
    change (Text.ofString m.spelling).lower.toString = m.name
    rw [m.lower, Text.toString_ofString]
  | comma =>
    change (if (Text.ofString ",").toList == [Byte.comma] then "," else "") = ","
    exact if_pos (by decide)
  | opening b => rfl
  | closing b => rfl
  | keyword k =>
    have kind : ((keyword k).token i).kind = .ofWord ((keyword k).token i).lexeme := rfl
    have lower : ((keyword k).token i).lexeme.lower.toString = k.spelling := by
      rw [show ((keyword k).token i).lexeme = Text.ofString k.spelling from rfl,
        (keyword_named k).1, Text.toString_ofString]
    rw [Token.grammarName_word kind, lower, (keyword_named k).2, if_pos rfl]
    rfl
  | semicolon => rfl

/-- No word goes on over the end of a line. -/
theorem newline_notMem (w : Word) : Byte.newline ∉ w.bytes := by
  have spelled : ∀ {word : List UInt8}, isSpelled word = true → Byte.newline ∉ word := by
    intro word valid listed
    cases word with
    | nil => cases valid
    | cons b rest =>
      have plain : ∀ {word : List UInt8}, isPlainWord word = true → Byte.newline ∉ word := by
        intro word valid listed
        cases word with
        | nil => cases valid
        | cons b rest =>
          rw [isPlainWord, Bool.and_eq_true, List.all_eq_true] at valid
          rcases List.mem_cons.mp listed with rfl | later
          · exact absurd valid.1 (by decide)
          · exact absurd (valid.2 _ later) (by decide)
      rw [isSpelled] at valid
      split at valid
      · rename_i percent
        rcases List.mem_cons.mp listed with same | later
        · exact absurd (percent.symm.trans same.symm) (by decide)
        · exact plain valid later
      · exact plain valid listed
  have numeral : ∀ {number : List UInt8}, IsNumber number → Byte.newline ∉ number := by
    intro number valid listed
    cases valid with
    | plain starts each => exact absurd (each _ listed) (by decide)
    | signed starts each exponent signs digits later =>
      simp only [List.mem_append, List.mem_cons] at listed
      rcases listed with early | rfl | rfl | rfl | last
      · exact absurd (each _ early) (by decide)
      · exact absurd exponent (by decide)
      · exact absurd signs (by decide)
      · exact absurd digits (by decide)
      · exact absurd (later _ last) (by decide)
  have quoted : ∀ {inside : List UInt8}, Quoted inside → Byte.newline ∉ inside := by
    intro inside valid
    induction valid with
    | nil => exact List.not_mem_nil
    | byte plain line later ih => simp [line.symm, ih]
    | quotes later ih =>
      simp only [List.mem_cons, ih, or_false]
      decide
  cases w with
  | name n => exact spelled n.spelled
  | number n => exact numeral n.number
  | literal l =>
    change Byte.newline ∉ Program.bytes l.spelling
    rw [l.spelled]
    simp only [List.mem_cons, List.mem_append, quoted l.quoted, List.not_mem_nil, or_false,
      false_or, or_self]
    decide
  | sign s =>
    have signs : ∀ sign ∈ Operator.signBytes, Byte.newline ∉ sign := by decide
    exact signs _ (List.mem_map_of_mem s.listed)
  | mnemonic m => exact spelled m.spelled
  | comma => decide
  | opening b => cases b <;> decide
  | closing b => cases b <;> decide
  | keyword k => exact spelled (keyword_spelled k)
  | semicolon => decide

end Word

section Layout

variable {src : Source} {i : Nat} {fresh : Bool} {w : Word} {gap rest : List UInt8}

theorem lexFrom_gap (stands : src.text.From i (gap ++ rest))
    (blank : ∀ b ∈ gap, Byte.isBlank b = true) :
    src.lexFrom fresh i = src.lexFrom fresh (i + gap.length) := by
  induction gap generalizing i with
  | nil => rfl
  | cons b gap ih =>
    have met : src.text.piece src.settings fresh i = .blank := by
      rw [Text.piece, stands.byteIs_cons, if_pos (blank b List.mem_cons_self)]
    rw [Source.lexFrom_blank stands.inside met,
      ih stands.tail fun b listed => blank b (List.mem_cons_of_mem _ listed), List.length_cons]
    congr 1
    omega

/-- One word is read as its token. -/
theorem lexFrom_word (stands : src.text.From i (w.bytes ++ rest)) (stops : Stops rest)
    (aside : fresh = true → ∀ s, w ≠ .sign s) :
    src.lexFrom fresh i =
      w.token i :: src.lexFrom (w.kind = .statementEnd) (i + w.bytes.length) := by
  have inside : i < src.size := by
    obtain ⟨b, more, spelled⟩ := w.bytes_ne_nil
    rw [spelled] at stands
    exact stands.inside
  have slice : src.text.slice i (i + w.bytes.length) = Text.ofString w.spelling :=
    Text.ext_toList stands.slice
  -- The code words share what the lexer makes of them.
  have code : (∀ l, w ≠ .literal l) → src.text.piece src.settings fresh i = .code →
      src.lexFrom fresh i = w.token i :: src.lexFrom false (i + w.bytes.length) := by
    intro plain met
    have shape := Word.shapeAt_word plain stands stops
    rw [Source.lexFrom_code inside met, Source.tokenAt_stop, shape, Text.tokenAt, shape, slice]
    rfl
  cases w with
  | literal l =>
    rw [Source.lexFrom_span inside (Word.piece_literal stands stops), Source.spanToken, slice]
    simp [Span.isComment, Span.region, Span.Kind.region, Word.token, Word.kind]
  | semicolon =>
    have shape := Word.shapeAt_word (w := .semicolon) nofun stands stops
    rw [Source.lexFrom_terminator inside (Word.piece_semicolon stands), Text.tokenAt, shape, slice]
    rfl
  | name n => exact code nofun (Word.piece_spelled stands n.spelled)
  | number n => exact code nofun (Word.piece_number stands n.number.starts)
  | sign s =>
    cases fresh with
    | true => exact absurd rfl (aside rfl s)
    | false => exact code nofun (Word.piece_sign stands (List.mem_map_of_mem s.listed) stops)
  | mnemonic m => exact code nofun (Word.piece_spelled stands m.spelled)
  | comma => exact code nofun (Word.piece_calm stands (by decide) nofun)
  | opening b => cases b <;> exact code nofun (Word.piece_calm stands (by decide) nofun)
  | closing b => cases b <;> exact code nofun (Word.piece_calm stands (by decide) nofun)
  | keyword k =>
    have other : ¬ (Word.keyword k).kind = .statementEnd := (Token.Kind.ofWord_code _).2
    rw [decide_eq_false other]
    exact code nofun (Word.piece_spelled stands (Word.keyword_spelled k))

end Layout

/-! ### Words in a row -/

/-- Words, each behind so many spaces. -/
abbrev Row := List (Nat × Word)

namespace Row

def bytes (row : Row) : List UInt8 :=
  row.flatMap fun piece => List.replicate piece.1 Byte.space ++ piece.2.bytes

def words (row : Row) : List Word :=
  row.map (·.2)

/-- The tokens of the words when the row starts at `i`. -/
def tokens : Nat → Row → List Token
  | _, [] => []
  | i, (gap, w) :: rest => w.token (i + gap) :: tokens (i + gap + w.bytes.length) rest

/-- Whether the words are read one by one: no sign starts a statement, and two words stand apart
unless the second is a semicolon. -/
def Legible : (fresh : Bool) → Row → Prop
  | _, [] => True
  | fresh, (_, w) :: rest =>
    (fresh = true → ∀ s, w ≠ .sign s) ∧
      (∀ next ∈ rest.head?, 0 < next.1 ∨ next.2 = .semicolon) ∧
      Legible (w.kind = .statementEnd) rest

/-- Whether a statement can start behind the row. -/
def endsStatement : (fresh : Bool) → Row → Bool
  | fresh, [] => fresh
  | _, (_, w) :: rest => endsStatement (w.kind = .statementEnd) rest

variable {src : Source} {i gap : Nat} {fresh : Bool} {w : Word} {row : Row} {rest : List UInt8}

@[simp] theorem bytes_nil : bytes [] = [] :=
  rfl

@[simp] theorem bytes_cons : bytes ((gap, w) :: row) =
    List.replicate gap Byte.space ++ (w.bytes ++ bytes row) := by
  rw [bytes, List.flatMap_cons, List.append_assoc]
  rfl

@[simp] theorem bytes_append (front back : Row) :
    bytes (front ++ back) = bytes front ++ bytes back :=
  List.flatMap_append

theorem newline_notMem (row : Row) : Byte.newline ∉ bytes row := by
  rw [bytes, List.mem_flatMap]
  rintro ⟨piece, -, listed⟩
  rcases List.mem_append.mp listed with space | inside
  · exact absurd (List.eq_of_mem_replicate space) (by decide)
  · exact piece.2.newline_notMem inside

theorem stops (apart : ∀ next ∈ row.head?, 0 < next.1 ∨ next.2 = .semicolon) (behind : Stops rest) :
    Stops (bytes row ++ rest) := by
  cases row with
  | nil => exact behind
  | cons next row =>
    obtain ⟨gap, w⟩ := next
    rw [bytes_cons]
    cases gap with
    | succ gap =>
      intro b first
      obtain rfl : Byte.space = b := Option.some.inj first
      exact Or.inl (by decide)
    | zero =>
      obtain rfl : w = .semicolon := (apart _ rfl).resolve_left (Nat.lt_irrefl 0)
      intro b first
      obtain rfl : Byte.semicolon = b := Option.some.inj first
      exact Or.inr rfl

/-- A row is read as its tokens. -/
theorem lexFrom_row (legible : Legible fresh row) (stands : src.text.From i (bytes row ++ rest))
    (behind : Stops rest) : src.lexFrom fresh i =
      tokens i row ++ src.lexFrom (endsStatement fresh row) (i + (bytes row).length) := by
  induction row generalizing fresh i with
  | nil => rfl
  | cons piece row ih =>
    obtain ⟨gap, w⟩ := piece
    obtain ⟨aside, apart, later⟩ := legible
    rw [bytes_cons, List.append_assoc, List.append_assoc] at stands
    have word : src.text.From (i + gap) (w.bytes ++ (bytes row ++ rest)) := by
      simpa using stands.append
    have blank : ∀ b ∈ List.replicate gap Byte.space, Byte.isBlank b = true := by
      intro b listed
      rw [List.eq_of_mem_replicate listed]
      decide
    calc src.lexFrom fresh i
      _ = src.lexFrom fresh (i + gap) := by rw [lexFrom_gap stands blank, List.length_replicate]
      _ = w.token (i + gap) :: src.lexFrom (w.kind = .statementEnd) (i + gap + w.bytes.length) :=
        lexFrom_word word (stops apart behind) aside
      _ = _ := by
        rw [ih later word.append, tokens, endsStatement, bytes_cons, List.cons_append,
          List.length_append, List.length_append, List.length_replicate]
        simp only [Nat.add_assoc]

end Row

end Program
end SasLayout
