import SasLayout.Block.Pattern
import SasLayout.Proofs.LogicalTokens
import SasLayout.Text.Line

set_option autoImplicit false

/-!
Letter case does not count. A text and the same text in lower case are told apart by nothing that
reads it: each function gives on the lower-case text what it gives on the text, with the bytes that
it hands on in lower case.
-/
namespace SasLayout

namespace Byte

/-- The classes of bytes that hold a letter in both cases or in none. -/
def classes : List (UInt8 → Bool) :=
  [isBlank, isNewline, isTab, isIndent, isDigit, isLetter, isContinuation, isWordStart,
    isOpenBracket, isCloseBracket]

/-- A statement about every capital letter is settled by the 26 of them. -/
theorem forall_of_upper {p : UInt8 → Prop} (each : ∀ n : Fin 26, p (65 + .ofNat n)) {b : UInt8}
    (upper : isUpper b = true) : p b := by
  simp only [isUpper, Bool.and_eq_true, decide_eq_true_eq, UInt8.le_iff_toNat_le,
    UInt8.reduceToNat] at upper
  have capital : 65 + UInt8.ofNat (b.toNat - 65) = b := by
    apply UInt8.toNat.inj
    simp only [UInt8.toNat_add, UInt8.toNat_ofNat', UInt8.reduceToNat]
    omega
  have found := each ⟨b.toNat - 65, by omega⟩
  rwa [capital] at found

/-- A function that takes each capital letter as the small one takes each byte as its lower case. -/
theorem lower_keeps {α : Type} {f : UInt8 → α}
    (each : ∀ n : Fin 26, f (65 + .ofNat n + 32) = f (65 + .ofNat n)) (b : UInt8) :
    f (lower b) = f b := by
  unfold lower
  split
  · rename_i upper
    exact forall_of_upper (p := fun b => f (b + 32) = f b) each upper
  · rfl

section

variable (b : UInt8)

theorem class_lower {p : UInt8 → Bool} (listed : p ∈ classes) : p (lower b) = p b :=
  List.map_inj_left.mp (lower_keeps (f := fun b => classes.map (· b)) (by decide) b)
    p listed

@[simp] theorem lower_lower : lower (lower b) = lower b :=
  lower_keeps (by decide) b

@[simp] theorem isBlank_lower : isBlank (lower b) = isBlank b :=
  class_lower b (by simp [classes])

@[simp] theorem isNewline_lower : isNewline (lower b) = isNewline b :=
  class_lower b (by simp [classes])

@[simp] theorem isTab_lower : isTab (lower b) = isTab b :=
  class_lower b (by simp [classes])

@[simp] theorem isIndent_lower : isIndent (lower b) = isIndent b :=
  class_lower b (by simp [classes])

@[simp] theorem isDigit_lower : isDigit (lower b) = isDigit b :=
  class_lower b (by simp [classes])

@[simp] theorem isLetter_lower : isLetter (lower b) = isLetter b :=
  class_lower b (by simp [classes])

@[simp] theorem isContinuation_lower : isContinuation (lower b) = isContinuation b :=
  class_lower b (by simp [classes])

@[simp] theorem isWordStart_lower : isWordStart (lower b) = isWordStart b :=
  class_lower b (by simp [classes])

@[simp] theorem isOpenBracket_lower : isOpenBracket (lower b) = isOpenBracket b :=
  class_lower b (by simp [classes])

@[simp] theorem isCloseBracket_lower : isCloseBracket (lower b) = isCloseBracket b :=
  class_lower b (by simp [classes])

@[simp] theorem isWord_lower : isWord (lower b) = isWord b := by
  rw [isWord, isWord, isDigit_lower, isWordStart_lower]

/-- A byte that is no letter is met in the lower-case text where it is met in the text. -/
theorem lower_beq {c : UInt8} (plain : isLetter c = false) : (lower b == c) = (b == c) := by
  unfold lower
  split
  · rename_i upper
    obtain ⟨first, second⟩ : isLetter (b + 32) = true ∧ isLetter b = true :=
      forall_of_upper (p := fun b => isLetter (b + 32) = true ∧ isLetter b = true)
        (by decide) upper
    rw [Bool.eq_iff_iff, beq_iff_eq, beq_iff_eq]
    constructor
    · rintro rfl
      rw [first] at plain
      cases plain
    · rintro rfl
      rw [second] at plain
      cases plain
  · rfl

@[simp] theorem lower_beq_star : (lower b == star) = (b == star) :=
  lower_beq b (by decide)

@[simp] theorem lower_beq_slash : (lower b == slash) = (b == slash) :=
  lower_beq b (by decide)

@[simp] theorem lower_beq_percent : (lower b == percent) = (b == percent) :=
  lower_beq b (by decide)

@[simp] theorem lower_beq_ampersand : (lower b == ampersand) = (b == ampersand) :=
  lower_beq b (by decide)

@[simp] theorem lower_bne_ampersand : (lower b != ampersand) = (b != ampersand) :=
  congrArg (!·) (lower_beq_ampersand b)

@[simp] theorem lower_bne_equals : (lower b != equals) = (b != equals) :=
  congrArg (!·) (lower_beq b (by decide))

@[simp] theorem lower_beq_singleQuote : (lower b == singleQuote) = (b == singleQuote) :=
  lower_beq b (by decide)

@[simp] theorem lower_beq_doubleQuote : (lower b == doubleQuote) = (b == doubleQuote) :=
  lower_beq b (by decide)

@[simp] theorem isDot_lower : isDot (lower b) = isDot b :=
  lower_beq b (by decide)

@[simp] theorem isSemicolon_lower : isSemicolon (lower b) = isSemicolon b :=
  lower_beq b (by decide)

@[simp] theorem isSign_lower : isSign (lower b) = isSign b := by
  rw [isSign, isSign, lower_beq b (by decide), lower_beq b (by decide)]

end

end Byte

namespace Text

variable (t : Text)

@[simp] theorem toList_lower : t.lower.toList = t.toList.map Byte.lower := by
  simp [lower, toList]

@[simp] theorem lower_lower : t.lower.lower = t.lower := by
  apply ext_toList
  simp [Function.comp_def]

@[simp] theorem size_lower : t.lower.size = t.size := by
  rw [← length_toList, toList_lower, List.length_map, length_toList]

@[simp] theorem byte?_lower (i : Nat) : t.lower.byte? i = (t.byte? i).map Byte.lower := by
  rw [byte?_eq_getElem?, byte?_eq_getElem?, toList_lower, List.getElem?_map]

@[simp] theorem byteIs_lower (i : Nat) (p : UInt8 → Bool) :
    t.lower.byteIs i p = t.byteIs i fun b => p (Byte.lower b) := by
  rw [byteIs_eq_any, byteIs_eq_any, byte?_lower, Option.any_map]

@[simp] theorem slice_lower (start stop : Nat) :
    t.lower.slice start stop = (t.slice start stop).lower := by
  apply ext_toList
  rw [toList_slice, toList_lower, toList_lower, toList_slice, List.map_drop, List.map_take]

@[simp] theorem seek_lower (p : UInt8 → Bool) (i : Nat) :
    t.lower.seek p i = t.seek (fun b => p (Byte.lower b)) i := by
  fun_induction seek t (fun b => p (Byte.lower b)) i with
  | case1 i inside here => rw [seek, if_pos (by simpa using inside), if_pos (by simpa using here)]
  | case2 i inside other ih =>
    rw [seek, if_pos (by simpa using inside), if_neg (by simpa using other), ih]
  | case3 i outside => rw [seek, if_neg (by simpa using outside), size_lower]

@[simp] theorem seekBack_lower (p : UInt8 → Bool) (i : Nat) :
    t.lower.seekBack p i = t.seekBack (fun b => p (Byte.lower b)) i := by
  induction i with
  | zero => rfl
  | succ i ih => rw [seekBack, seekBack, byteIs_lower, ih]

@[simp] theorem allBetween_lower (p : UInt8 → Bool) (start stop : Nat) :
    t.lower.allBetween p start stop = t.allBetween (fun b => p (Byte.lower b)) start stop := by
  simp [allBetween]

/-- Words without letters stand in both texts at the same places. -/
theorem startsWith_lower {word : List UInt8} (plain : ∀ c ∈ word, Byte.isLetter c = false)
    (i : Nat) : t.lower.startsWith i word = t.startsWith i word := by
  induction word generalizing i with
  | nil => rfl
  | cons c rest ih =>
    have first := plain c List.mem_cons_self
    rw [startsWith, startsWith, byteIs_lower,
      ih fun c listed => plain c (List.mem_cons_of_mem _ listed)]
    simp only [Byte.lower_beq _ first]

@[simp] theorem startsWithLower_lower (word : List UInt8) (i : Nat) :
    t.lower.startsWithLower i word = t.startsWithLower i word := by
  induction word generalizing i with
  | nil => rfl
  | cons c rest ih => simp [startsWithLower, ih]

@[simp] theorem isBoundary_lower (i : Nat) : t.lower.isBoundary i = t.isBoundary i := by
  simp [isBoundary]

@[simp] theorem floor_lower (i : Nat) : t.lower.floor i = t.floor i := by
  have back : floor.back t.lower i = floor.back t i := by
    induction i with
    | zero => rfl
    | succ i ih => rw [floor.back, floor.back, isBoundary_lower, ih]
  rw [floor, floor, size_lower, back]

@[simp] theorem next_lower (i : Nat) : t.lower.next i = t.next i := by
  simp [next]

@[simp] theorem checkOffset_lower (offset : Nat) :
    t.lower.checkOffset offset = t.checkOffset offset := by
  simp [checkOffset]

section Lines

@[simp] theorem addStarts_lower (i : Nat) (starts : Array Nat) :
    t.lower.addStarts i starts = t.addStarts i starts := by
  fun_induction addStarts t i starts with
  | case1 i starts inside newline ih =>
    rw [addStarts, size_lower, if_pos inside, if_pos (by simpa using newline), ih]
  | case2 i starts inside plain ih =>
    rw [addStarts, size_lower, if_pos inside, if_neg (by simpa using plain), ih]
  | case3 i starts outside => rw [addStarts, size_lower, if_neg outside]

@[simp] theorem lineMap_lower : t.lower.lineMap = t.lineMap := by
  simp [lineMap]

@[simp] theorem lineStart_lower (offset : Nat) : t.lower.lineStart offset = t.lineStart offset := by
  simp [lineStart]

@[simp] theorem firstNonBlank_lower (offset : Nat) :
    t.lower.firstNonBlank offset = t.firstNonBlank offset := by
  simp [firstNonBlank]

@[simp] theorem width_lower : t.lower.width = t.width := by
  have step : ∀ column b, advance column (Byte.lower b) = advance column b := by simp [advance]
  rw [width, width, toList_lower, List.foldl_map]
  simp only [step]

@[simp] theorem columnOf_lower (offset : Nat) : t.lower.columnOf offset = t.columnOf offset := by
  simp [columnOf]

@[simp] theorem indentation_lower (offset : Nat) :
    t.lower.indentation offset = t.indentation offset := by
  simp [indentation]

end Lines

section Characters

open ByteArray.utf8DecodeChar?

/-- The character of which `first` is the first byte, when the given bytes follow it. -/
def decode (first : UInt8) (second third fourth : Option UInt8) : Option Char :=
  match parseFirstByte first with
  | .invalid => none
  | .done => some (Char.ofUInt8 first)
  | .oneMore => second.bind (assemble₂ first ·)
  | .twoMore => third.bind fun c => second.bind (assemble₃ first · c)
  | .threeMore => fourth.bind fun d => third.bind fun c => second.bind (assemble₄ first · c d)

theorem char?_eq_decode {i : Nat} {b : UInt8} (here : t.byte? i = some b) :
    t.char? i = decode b (t.byte? (i + 1)) (t.byte? (i + 2)) (t.byte? (i + 3)) := by
  have inside : i < t.bytes.size := lt_size_of_byte? here
  have found : ∀ k (bound : k < t.bytes.size), t.byte? k = some t.bytes[k] := fun k bound =>
    dif_pos bound
  have missing : ∀ k, ¬ k < t.bytes.size → t.byte? k = none := fun k bound => dif_neg bound
  obtain rfl : t.bytes[i] = b := by
    rw [found i inside, Option.some.injEq] at here
    exact here
  rw [char?, ByteArray.utf8DecodeChar?, dif_pos inside, decode]
  split
  · rename_i kind
    simp only [kind]
  · rename_i kind
    simp only [kind]
    rfl
  · rename_i kind
    simp only [kind]
    split
    · rename_i bound
      rw [found _ bound, Option.bind_some]
    · rename_i bound
      rw [missing _ bound, Option.bind_none]
  · rename_i kind
    simp only [kind]
    split
    · rename_i bound
      rw [found _ bound, found (i + 1) (by omega), Option.bind_some, Option.bind_some]
    · rename_i bound
      rw [missing _ bound, Option.bind_none]
  · rename_i kind
    simp only [kind]
    split
    · rename_i bound
      rw [found _ bound, found (i + 2) (by omega), found (i + 1) (by omega), Option.bind_some,
        Option.bind_some, Option.bind_some]
    · rename_i bound
      rw [missing _ bound, Option.bind_none]

theorem char?_past {i : Nat} (outside : t.size ≤ i) : t.char? i = none := by
  rw [char?, ByteArray.utf8DecodeChar?, dif_neg (show ¬ i < t.bytes.size from
    Nat.not_lt.mpr outside)]

/-- A byte that lower case changes is a character of its own, and so is what it becomes. -/
theorem lower_eq_self_or (b : UInt8) : Byte.lower b = b ∨
    (isInvalidContinuationByte (Byte.lower b) = true ∧ isInvalidContinuationByte b = true) ∧
      (b &&& 128 == 0) = true ∧ (Byte.lower b &&& 128 == 0) = true := by
  unfold Byte.lower
  split
  · rename_i upper
    exact .inr (Byte.forall_of_upper (p := fun b =>
      (isInvalidContinuationByte (b + 32) = true ∧ isInvalidContinuationByte b = true) ∧
        (b &&& 128 == 0) = true ∧ (b + 32 &&& 128 == 0) = true) (by decide) upper)
  · exact .inl rfl

theorem decode_rest (first : UInt8) (second third fourth : Option UInt8) :
    decode first (second.map Byte.lower) (third.map Byte.lower) (fourth.map Byte.lower) =
      decode first second third fourth := by
  have two : ∀ x, assemble₂ first (Byte.lower x) = assemble₂ first x := by
    intro x
    rcases lower_eq_self_or x with same | ⟨⟨invalid, other⟩, -⟩
    · rw [same]
    · simp [assemble₂, invalid, other]
  have three : ∀ x y, assemble₃ first (Byte.lower x) (Byte.lower y) = assemble₃ first x y := by
    intro x y
    rcases lower_eq_self_or x with same | ⟨⟨invalid, other⟩, -⟩
    · rw [same]
      rcases lower_eq_self_or y with same | ⟨⟨invalid, other⟩, -⟩
      · rw [same]
      · simp [assemble₃, invalid, other]
    · simp [assemble₃, invalid, other]
  have four : ∀ x y z, assemble₄ first (Byte.lower x) (Byte.lower y) (Byte.lower z) =
      assemble₄ first x y z := by
    intro x y z
    rcases lower_eq_self_or x with same | ⟨⟨invalid, other⟩, -⟩
    · rw [same]
      rcases lower_eq_self_or y with same | ⟨⟨invalid, other⟩, -⟩
      · rw [same]
        rcases lower_eq_self_or z with same | ⟨⟨invalid, other⟩, -⟩
        · rw [same]
        · simp [assemble₄, invalid, other]
      · simp [assemble₄, invalid, other]
    · simp [assemble₄, invalid, other]
  unfold decode
  split
  · rfl
  · rfl
  · simp only [Option.bind_map, Function.comp_def, two]
  · simp only [Option.bind_map, Function.comp_def, three]
  · simp only [Option.bind_map, Function.comp_def, four]

theorem decode_ascii {first : UInt8} (ascii : (first &&& 128 == 0) = true)
    (second third fourth : Option UInt8) :
    decode first second third fourth = some (Char.ofUInt8 first) := by
  have done : parseFirstByte first = .done := if_pos ascii
  rw [decode, done]

/-- A predicate that tells no letter from its lower case holds of the same characters. -/
theorem any_char?_lower {p : Char → Bool}
    (blind : ∀ b, p (Char.ofUInt8 (Byte.lower b)) = p (Char.ofUInt8 b)) (i : Nat) :
    (t.lower.char? i).any p = (t.char? i).any p := by
  cases here : t.byte? i with
  | none =>
    have outside := byte?_eq_none_iff.mp here
    rw [char?_past t outside, char?_past t.lower (by rwa [size_lower])]
  | some b =>
    have there : t.lower.byte? i = some (Byte.lower b) := by rw [byte?_lower, here, Option.map_some]
    rw [char?_eq_decode t here, char?_eq_decode t.lower there, byte?_lower, byte?_lower,
      byte?_lower, decode_rest]
    rcases lower_eq_self_or b with same | ⟨-, ascii, lowered⟩
    · rw [same]
    · rw [decode_ascii ascii, decode_ascii lowered, Option.any_some, Option.any_some, blind b]

theorem any_charBefore?_lower {p : Char → Bool}
    (blind : ∀ b, p (Char.ofUInt8 (Byte.lower b)) = p (Char.ofUInt8 b)) (i : Nat) :
    (t.lower.charBefore? i).any p = (t.charBefore? i).any p := by
  rw [charBefore?, charBefore?, isBoundary_lower, floor_lower]
  split
  · rfl
  · exact t.any_char?_lower blind _

end Characters

theorem isWordChar_blind (b : UInt8) :
    isWordChar (Char.ofUInt8 (Byte.lower b)) = isWordChar (Char.ofUInt8 b) :=
  Byte.lower_keeps (f := fun b => isWordChar (Char.ofUInt8 b)) (by decide) b

theorem isWhiteSpace_blind (b : UInt8) :
    isWhiteSpace (Char.ofUInt8 (Byte.lower b)) = isWhiteSpace (Char.ofUInt8 b) :=
  Byte.lower_keeps (f := fun b => isWhiteSpace (Char.ofUInt8 b)) (by decide) b

@[simp] theorem isWordEdge_lower (i : Nat) : t.lower.isWordEdge i = t.isWordEdge i := by
  rw [isWordEdge, isWordEdge, t.any_char?_lower isWordChar_blind,
    t.any_charBefore?_lower isWordChar_blind]

@[simp] theorem skipWhiteSpace_lower (i : Nat) : t.lower.skipWhiteSpace i = t.skipWhiteSpace i := by
  fun_induction skipWhiteSpace t i with
  | case1 i inside blank _ ih =>
    rw [skipWhiteSpace, dif_pos (by simpa using inside),
      if_pos (by rwa [t.any_char?_lower isWhiteSpace_blind]), next_lower, ih]
  | case2 i inside visible =>
    rw [skipWhiteSpace, dif_pos (by simpa using inside),
      if_neg (by rwa [t.any_char?_lower isWhiteSpace_blind])]
  | case3 i outside => rw [skipWhiteSpace, dif_neg (by simpa using outside)]

@[simp] theorem commentClose?_lower (i : Nat) : t.lower.commentClose? i = t.commentClose? i := by
  fun_induction commentClose? t i with
  | case1 i inside both =>
    rw [commentClose?, if_pos (by simpa using inside), if_pos (by simpa using both)]
  | case2 i inside goes ih =>
    rw [commentClose?, if_pos (by simpa using inside), if_neg (by simpa using goes), ih]
  | case3 i outside => rw [commentClose?, if_neg (by simpa using outside)]

@[simp] theorem semicolon?_lower (i : Nat) : t.lower.semicolon? i = t.semicolon? i := by
  simp [semicolon?]

theorem quoteClose?_lower {quote : UInt8} (plain : Byte.isLetter quote = false) (i : Nat) :
    t.lower.quoteClose? quote i = t.quoteClose? quote i := by
  fun_induction quoteClose? t quote i with
  | case1 i inside here twice ih =>
    rw [quoteClose?, if_pos (by simpa using inside),
      if_pos (by simpa [Byte.lower_beq _ plain] using here),
      if_pos (by simpa [Byte.lower_beq _ plain] using twice), ih]
  | case2 i inside here single =>
    rw [quoteClose?, if_pos (by simpa using inside),
      if_pos (by simpa [Byte.lower_beq _ plain] using here),
      if_neg (by simpa [Byte.lower_beq _ plain] using single)]
  | case3 i inside other ih =>
    rw [quoteClose?, if_pos (by simpa using inside),
      if_neg (by simpa [Byte.lower_beq _ plain] using other), ih]
  | case4 i outside => rw [quoteClose?, if_neg (by simpa using outside)]

theorem upTo_lower (start : Nat) (kind : Span.Kind) (close? : Option Nat) :
    Span.upTo t.lower start kind close? = Span.upTo t start kind close? := by
  cases close? with
  | none => simp [Span.upTo]
  | some stop => rfl

@[simp] theorem opening?_lower (settings : LexicalSettings) (fresh : Bool) (i : Nat) :
    t.lower.opening? settings fresh i = t.opening? settings fresh i := by
  have block : t.lower.opensBlockComment i = t.opensBlockComment i := by simp [opensBlockComment]
  have statement : t.lower.opensStatementComment settings i =
      t.opensStatementComment settings i := by
    simp [opensStatementComment]
  have literal : t.lower.opensLiteral settings i = t.opensLiteral settings i := by
    simp [opensLiteral]
  rw [opening?, opening?, block, statement, literal, commentClose?_lower, semicolon?_lower,
    upTo_lower, upTo_lower, upTo_lower]
  split
  · rfl
  split
  · rfl
  split
  · rename_i quoted
    -- The byte that opens a literal is a quote, so it is the same in both texts.
    obtain ⟨quote, here, sign⟩ := byteIs_iff.mp quoted
    have plain : Byte.isLetter quote = false ∧ Byte.lower quote = quote := by
      simp only [Bool.or_eq_true, Bool.and_eq_true, beq_iff_eq] at sign
      rcases sign with rfl | ⟨-, rfl⟩ <;> decide
    rw [byte?_lower, here, Option.map_some, Option.bind_some, Option.bind_some, plain.2,
      quoteClose?_lower t plain.1]
  · rfl

@[simp] theorem piece_lower (settings : LexicalSettings) (fresh : Bool) (i : Nat) :
    t.lower.piece settings fresh i = t.piece settings fresh i := by
  simp [piece]

end Text

theorem SpanMap.marksFrom_lower (settings : LexicalSettings) (t : Text) (fresh : Bool) (i : Nat) :
    marksFrom settings t.lower fresh i = marksFrom settings t fresh i := by
  fun_induction marksFrom settings t fresh i with
  | case1 fresh i inside met ih =>
    rw [marksFrom_blank (by simpa using inside) (by simpa using met), ih]
  | case2 fresh i inside s met _ rest ih =>
    rw [marksFrom_span (by simpa using inside) (by simpa using met), ih]
  | case3 fresh i inside met rest ih =>
    rw [marksFrom_terminator (by simpa using inside) (by simpa using met), ih]
  | case4 fresh i inside met ih =>
    rw [marksFrom_code (by simpa using inside) (by simpa using met), ih]
  | case5 fresh i outside => rw [marksFrom_end (by simpa using outside)]

/-- The comments, the literals and the semicolons of the code are the same. -/
@[simp] theorem SpanMap.build_lower (settings : LexicalSettings) (t : Text) :
    build settings t.lower = build settings t := by
  rw [build, build, scan_eq, scan_eq, marksFrom_lower]

namespace Text

variable (t : Text)

section Lexer

@[simp] theorem wordStop_lower (i : Nat) : t.lower.wordStop i = t.wordStop i := by
  simp [wordStop]

@[simp] theorem isExponentSign_lower (start j : Nat) :
    t.lower.isExponentSign start j = t.isExponentSign start j := by
  simp [isExponentSign]

@[simp] theorem numberStop_lower (start j : Nat) :
    t.lower.numberStop start j = t.numberStop start j := by
  fun_induction numberStop t start j with
  | case1 j inside here ih =>
    rw [numberStop, if_pos (by simpa using inside), if_pos (by simpa using here), ih]
  | case2 j inside other sign ih =>
    rw [numberStop, if_pos (by simpa using inside), if_neg (by simpa using other),
      if_pos (by simpa using sign), ih]
  | case3 j inside other unsigned =>
    rw [numberStop, if_pos (by simpa using inside), if_neg (by simpa using other),
      if_neg (by simpa using unsigned)]
  | case4 j outside => rw [numberStop, if_neg (by simpa using outside)]

@[simp] theorem startsNumber_lower (i : Nat) : t.lower.startsNumber i = t.startsNumber i := by
  simp [startsNumber]

@[simp] theorem macroVariableStop?_lower (i : Nat) :
    t.lower.macroVariableStop? i = t.macroVariableStop? i := by
  simp [macroVariableStop?]

theorem signBytes_plain :
    ∀ sign ∈ Operator.signBytes, ∀ c ∈ sign, Byte.isLetter c = false := by
  have each : (Operator.signBytes.all fun sign => sign.all (!Byte.isLetter ·)) = true := by
    decide
  simpa using each

@[simp] theorem signLength?_lower (i : Nat) : t.lower.signLength? i = t.signLength? i := by
  rw [signLength?, signLength?]
  congr 1
  apply List.find?_congr
  intro sign listed
  exact t.startsWith_lower (signBytes_plain sign listed) i

@[simp] theorem ofWord_lower (word : Text) : Token.Kind.ofWord word.lower = .ofWord word := by
  simp [Token.Kind.ofWord]

@[simp] theorem shapeAt_lower (i : Nat) : t.lower.shapeAt i = t.shapeAt i := by
  simp [shapeAt]

end Lexer

section Search

@[simp] theorem wholeWordAt_lower (word : List UInt8) (i : Nat) :
    t.lower.wholeWordAt word i = t.wholeWordAt word i := by
  simp [wholeWordAt]

@[simp] theorem signWordAt_lower (word : List UInt8) (i : Nat) :
    t.lower.signWordAt word i = t.signWordAt word i := by
  simp [signWordAt]

@[simp] theorem closerStop?_lower (i : Nat) : t.lower.closerStop? i = t.closerStop? i := by
  simp [closerStop?]

end Search

end Text

namespace Pattern

/-- A pattern that matches the same in a text in lower case. -/
def Blind (pattern : Pattern) : Prop :=
  ∀ t i, pattern t.lower i = pattern t i

theorem stepOpener_blind : Blind stepOpener := by
  intro t i
  simp [stepOpener]

theorem stepCloser_blind (quitCloses : Bool) : Blind (stepCloser quitCloses) := by
  intro t i
  simp [stepCloser]

theorem macroKeyword_blind : Blind macroKeyword := by
  intro t i
  simp [macroKeyword]

theorem blockKeyword_blind (quitCloses : Bool) : Blind (blockKeyword quitCloses) := by
  intro t i
  rw [blockKeyword, blockKeyword, stepOpener_blind t i, macroKeyword_blind t i,
    stepCloser_blind quitCloses t i]

end Pattern

namespace Text

variable (t : Text) {pattern : Pattern} (blind : pattern.Blind)

include blind

theorem firstMatch_lower (i : Nat) : t.lower.firstMatch pattern i = t.firstMatch pattern i := by
  fun_induction firstMatch t pattern i with
  | case1 i within length here whole =>
    rw [firstMatch, if_pos (by simpa using within), blind t i, here]
    simp [whole]
  | case2 i within length here inner ih =>
    rw [firstMatch, if_pos (by simpa using within), blind t i, here]
    simp [inner, ih]
  | case3 i within absent ih =>
    rw [firstMatch, if_pos (by simpa using within), blind t i, absent, ih]
  | case4 i outside => rw [firstMatch, if_neg (by simpa using outside)]

omit blind in
theorem lastMatch_eq_match (anchor i : Nat) (last : Option Extent) :
    t.lastMatch pattern anchor i last = match t.firstMatch pattern i with
      | none => last
      | some found =>
        if anchor < found.stop then last
        else if found.start < found.stop then t.lastMatch pattern anchor found.stop (some found)
        else if found.stop < t.size then
          t.lastMatch pattern anchor (t.next found.stop) (some found)
        else some found := by
  rw [lastMatch]
  split <;> simp_all

theorem lastMatch_lower (anchor i : Nat) (last : Option Extent) :
    t.lower.lastMatch pattern anchor i last = t.lastMatch pattern anchor i last := by
  have same := t.firstMatch_lower blind
  fun_induction lastMatch t pattern anchor i last with
  | case1 i last absent => rw [lastMatch_eq_match, same, absent]
  | case2 i last found here beyond =>
    rw [lastMatch_eq_match, same, here]
    exact if_pos beyond
  | case3 i last found here within proper ih =>
    rw [lastMatch_eq_match, same, here, ← ih]
    simp only [if_neg within, if_pos proper]
  | case4 i last found here within empty inside ih =>
    rw [lastMatch_eq_match, same, here, ← ih]
    simp only [if_neg within, if_neg empty, size_lower, if_pos inside, next_lower]
  | case5 i last found here within empty outside =>
    rw [lastMatch_eq_match, same, here]
    simp only [if_neg within, if_neg empty, size_lower, if_neg outside]

theorem searchWindows_lower (anchor k : Nat) :
    t.lower.searchWindows pattern anchor k = t.searchWindows pattern anchor k := by
  have same := t.lastMatch_lower blind
  fun_induction searchWindows t pattern anchor k with
  | case1 k wide found here => rw [searchWindows, if_pos wide, floor_lower, same, here]
  | case2 k wide absent _ ih => rw [searchWindows, if_pos wide, floor_lower, same, absent, ih]
  | case3 k narrow => rw [searchWindows, if_neg narrow, same]

theorem searchBackward_lower (anchor : Nat) :
    t.lower.searchBackward pattern anchor = t.searchBackward pattern anchor := by
  rw [searchBackward, searchBackward, t.searchWindows_lower blind, floor_lower]

end Text
end SasLayout
