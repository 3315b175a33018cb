import SasLayout.Proofs.CaseBlind
import SasLayout.Proofs.WordTokens

set_option autoImplicit false

/-!
Block keywords against the tokens of the lexer. A keyword that counts stands at the start of a
statement, so a token starts there too. The two agree on the word unless a character above ASCII
touches the keyword from behind: for the lexer that is a further letter, and for a search it may be
a sign.
-/
namespace SasLayout

namespace Text

variable {t : Text} {i : Nat} {word other : List UInt8}

/-! ### Words in any case -/

theorem startsWithLower_eq (t : Text) (i : Nat) (word : List UInt8) :
    t.startsWithLower i word = t.lower.startsWith i word := by
  induction word generalizing i with
  | nil => rfl
  | cons b rest ih => rw [startsWithLower, startsWith, byteIs_lower, ih]

theorem slice_startsWithLower (stands : t.startsWithLower i word = true) :
    (t.slice i (i + word.length)).lower.toList = word := by
  rw [← slice_lower]
  exact slice_startsWith (t.startsWithLower_eq i word ▸ stands)

/-- Two words that stand at one place agree as far as both go. -/
theorem startsWithLower_zip (first : t.startsWithLower i word = true)
    (second : t.startsWithLower i other = true) :
    (word.zip other).all (fun p => p.1 == p.2) = true := by
  induction word generalizing i other with
  | nil => rfl
  | cons a rest ih =>
    cases other with
    | nil => rfl
    | cons b others =>
      rw [startsWithLower, Bool.and_eq_true] at first second
      rw [List.zip_cons_cons, List.all_cons, Bool.and_eq_true]
      refine ⟨?_, ih first.2 second.2⟩
      obtain ⟨c, here, left⟩ := byteIs_iff.mp first.1
      obtain ⟨d, there, right⟩ := byteIs_iff.mp second.1
      rw [here, Option.some.injEq] at there
      subst there
      exact beq_iff_eq.mpr ((eq_of_beq left).symm.trans (eq_of_beq right))

/-- A class of bytes that tells no letter from its lower case holds of a byte of the text when it
holds of the word's. -/
theorem byteIs_of_startsWithLower (stands : t.startsWithLower i word = true) {n : Nat}
    {p : UInt8 → Bool} (blind : ∀ b, p (Byte.lower b) = p b) (spelled : word[n]?.any p = true) :
    t.byteIs (i + n) p = true := by
  obtain ⟨c, letter, holds⟩ := (Option.any_eq_true _ _).mp spelled
  refine byteIs_mono (startsWithLower_getElem stands letter) fun b same => ?_
  rw [← blind b, eq_of_beq same, holds]

/-! ### Word edges -/

theorem isWordChar_ascii : ∀ b : UInt8, b < 128 →
    (b &&& 128 == 0) = true ∧ isWordChar (Char.ofUInt8 b) = Byte.isWord b :=
  Byte.forall_of_halves (p := fun b => b < 128 →
    (b &&& 128 == 0) = true ∧ isWordChar (Char.ofUInt8 b) = Byte.isWord b) (by decide)

/-- An ASCII byte is a word character of every script when the lexer takes it for one. -/
theorem any_char?_ascii {b : UInt8} (here : t.byte? i = some b) (ascii : b < 128) :
    (t.char? i).any isWordChar = Byte.isWord b := by
  obtain ⟨low, same⟩ := isWordChar_ascii b ascii
  rw [char?_eq_decode t here, decode_ascii low, Option.any_some, same]

/-- Behind an ASCII letter and a word edge the lexer's word ends, unless a character above ASCII
follows. -/
theorem isWord_behind_edge (joined : t.Joined) {b : UInt8} (last : t.byte? i = some b)
    (ascii : b < 128) (letter : Byte.isWord b = true) (edge : t.isWordEdge (i + 1) = true)
    (short : t.byteIs (i + 1) (128 ≤ ·) = false) : t.byteIs (i + 1) Byte.isWord = false := by
  have inside := lt_size_of_byte? last
  have first : t.isBoundary i = true := by
    have plain : ∀ b : UInt8, b < 128 → Byte.isContinuation b = false :=
      Byte.forall_of_halves (p := fun b => b < 128 → Byte.isContinuation b = false) (by decide)
    simp [isBoundary, byteIs_of_byte? last, plain b ascii]
  have next : t.isBoundary (i + 1) = true := by
    refine joined.boundary inside fun j same => ?_
    cases same
    rw [byteIs_of_byte? last]
    simpa using ascii
  have before : (t.charBefore? (i + 1)).any isWordChar = true := by
    rw [charBefore?, next, Nat.add_sub_cancel, floor_eq_self first]
    simpa [any_char?_ascii last ascii] using letter
  rw [isWordEdge, before, bne_iff_ne, ne_eq, eq_comm, Bool.not_eq_true] at edge
  cases behind : t.byte? (i + 1) with
  | none => rw [byteIs_past (byte?_eq_none_iff.mp behind)]
  | some c =>
    rw [byteIs_of_byte? behind] at short ⊢
    rwa [any_char?_ascii behind (by simpa using short)] at edge

end Text

/-! ### Tokens that begin with a keyword -/

namespace Program

theorem isPlainWord_append {word tail : List UInt8} (plain : isPlainWord word = true)
    (letters : ∀ b ∈ tail, Byte.isWord b = true) : isPlainWord (word ++ tail) = true := by
  cases word with
  | nil => cases plain
  | cons b rest =>
    rw [isPlainWord, Bool.and_eq_true] at plain
    rw [List.cons_append, isPlainWord, List.all_append, plain.1, plain.2, Bool.true_and,
      Bool.true_and, List.all_eq_true]
    exact letters

theorem isSpelled_append {word tail : List UInt8} (spelled : isSpelled word = true)
    (letters : ∀ b ∈ tail, Byte.isWord b = true) : isSpelled (word ++ tail) = true := by
  cases word with
  | nil => cases spelled
  | cons b rest =>
    rw [isSpelled] at spelled
    rw [List.cons_append, isSpelled]
    by_cases sign : b = Byte.percent
    · rw [if_pos sign] at spelled ⊢
      exact isPlainWord_append spelled letters
    · rw [if_neg sign] at spelled ⊢
      exact isPlainWord_append spelled letters

end Program

namespace Text

variable {t : Text} {i : Nat} {word : List UInt8}

theorem startsWithLower_within (stands : t.startsWithLower i word = true) (proper : word ≠ []) :
    i + word.length ≤ t.size := by
  have length := congrArg List.length (slice_startsWithLower stands)
  rw [toList_lower, List.length_map, toList_slice, List.length_drop, List.length_take,
    length_toList] at length
  have positive := List.length_pos_iff.mpr proper
  omega

theorem from_slice {stop : Nat} (lower : i ≤ stop) (upper : stop ≤ t.size) :
    t.From i ((t.slice i stop).toList ++ t.toList.drop stop) := by
  have rest (j : Nat) : (t.slice j t.size).toList = t.toList.drop j := by
    rw [toList_slice, List.take_of_length_le (Nat.le_of_eq t.length_toList)]
  rw [From, ← rest i, toList_slice_append lower upper, rest stop]

/-- A word in any case is read as one token together with the letters right behind it. -/
theorem shapeAt_stands (spelled : Program.isSpelled word = true)
    (stands : t.startsWithLower i word = true) :
    t.shapeAt i = (.ofWord (t.slice i (t.wordStop (i + word.length))),
      t.wordStop (i + word.length)) := by
  have within := startsWithLower_within stands (Program.ne_nil_of_isSpelled spelled)
  generalize ends : t.wordStop (i + word.length) = stop
  have later : i + word.length ≤ stop := ends ▸ t.le_seek _ _ within
  have inside : stop ≤ t.size := ends ▸ t.seek_le_size _ _
  have whole : Program.isSpelled (t.slice i stop).toList = true := by
    rw [toList_slice_append (Nat.le_add_right i _) later]
    apply Program.isSpelled_append
    · rw [← Program.isSpelled_lower, ← toList_lower, slice_startsWithLower stands, spelled]
    · intro b listed
      obtain ⟨k, lower, upper, here⟩ := mem_slice.mp listed
      have letter := wordStop_inside lower (ends ▸ upper)
      rwa [byteIs_of_byte? here] at letter
  have apart : (t.toList.drop stop).head?.any Byte.isWord = false := by
    rw [List.head?_drop, ← byte?_eq_getElem?, ← byteIs_eq_any, ← ends]
    exact t.wordStop_ends _
  have shape := Program.shapeAt_spelled (from_slice (by omega) inside) whole apart
  rwa [length_slice inside, Nat.add_sub_cancel' (by omega)] at shape

/-- A text that is read as a text of its own has the bytes of it. -/
theorem ofString_toString (proper : t.toString ≠ "") : ofString t.toString = t := by
  unfold toString at proper ⊢
  rw [String.fromUTF8?] at proper ⊢
  split at proper
  · rename_i valid
    rw [dif_pos valid]
    rfl
  · exact absurd rfl proper

end Text

namespace Token

/-- Reserved words and operators are written in ASCII. -/
theorem ascii_of_isNamed {s : String} (named : isNamed s = true) :
    (Text.ofString s).toList.all (· < 128) = true := by
  have keywords : ∀ k ∈ Keyword.all,
      (Text.ofString k.spelling).toList.all (· < 128) = true := by decide
  have operators : ∀ word ∈ Operator.words,
      (Text.ofString word).toList.all (· < 128) = true := by decide
  have short : (Text.ofString "%inc").toList.all (· < 128) = true := by decide
  rw [isNamed, Bool.or_eq_true] at named
  rcases named with reserved | operator
  · obtain ⟨k, found⟩ := Option.isSome_iff_exists.mp reserved
    have spelled := List.find?_some found
    rw [Keyword.isSpelled, Bool.or_eq_true, Bool.and_eq_true, beq_iff_eq, beq_iff_eq,
      beq_iff_eq] at spelled
    rcases spelled with rfl | ⟨-, rfl⟩
    · exact keywords k (List.mem_of_find?_eq_some found)
    · exact short
  · exact operators s (by simpa [Operator.isWord] using operator)

end Token

namespace Text

variable {t : Text} {i : Nat} {k : Keyword}

/-- A keyword that no letter follows is a token with its meaning. -/
theorem tokenAt_keyword (stands : t.startsWithLower i (Program.bytes k.spelling) = true)
    (ends : t.byteIs (i + (Program.bytes k.spelling).length) Byte.isWord = false)
    (block : k.opensBlock = true ∨ k.closesBlock = true) :
    (t.tokenAt i).keyword? = some k ∧
      (t.tokenAt i).kind = if k.opensBlock then .blockOpener else .blockCloser := by
  have spelled := Program.Word.keyword_spelled k
  have within := startsWithLower_within stands (Program.ne_nil_of_isSpelled spelled)
  have stop : t.wordStop (i + (Program.bytes k.spelling).length) =
      i + (Program.bytes k.spelling).length :=
    seek_eq_self within (by simpa using ends)
  have lowered : (t.slice i (i + (Program.bytes k.spelling).length)).lower =
      ofString k.spelling := ext_toList (slice_startsWithLower stands)
  have shape := shapeAt_stands spelled stands
  rw [stop] at shape
  have kind : (t.tokenAt i).kind = if k.opensBlock then .blockOpener else .blockCloser := by
    rw [Source.tokenAt_kind, shape, Token.Kind.ofWord, lowered, toString_ofString,
      Program.Word.ofSpelling?_spelling]
    rcases block with opens | closes
    · simp [opens]
    · simp [closes]
  refine ⟨?_, kind⟩
  have reserved : (t.tokenAt i).kind.isReserved = true := by
    rw [kind]
    split <;> rfl
  rw [Token.keyword?, if_pos reserved, tokenAt, Keyword.lookup?, shape, lowered, toString_ofString,
    Program.Word.ofSpelling?_spelling]

/-- A keyword that a character above ASCII follows is the beginning of another word. -/
theorem tokenAt_touched (stands : t.startsWithLower i (Program.bytes k.spelling) = true)
    (touched : t.byteIs (i + (Program.bytes k.spelling).length) (128 ≤ ·) = true) :
    (t.tokenAt i).kind = .identifier := by
  obtain ⟨b, here, large⟩ := byteIs_iff.mp touched
  have wide : 128 ≤ b := by simpa using large
  have letter : t.byteIs (i + (Program.bytes k.spelling).length) Byte.isWord = true := by
    rw [byteIs_of_byte? here]
    exact Byte.isWord_of_large wide
  rw [Source.tokenAt_kind, shapeAt_stands (Program.Word.keyword_spelled k) stands]
  apply Program.ofWord_unnamed
  rw [Bool.eq_false_iff]
  intro named
  generalize whole : t.slice i (t.wordStop (i + (Program.bytes k.spelling).length)) = lexeme
    at named
  have proper : lexeme.lower.toString ≠ "" := by
    intro empty
    rw [empty] at named
    revert named
    decide
  -- The byte that touches the keyword would belong to a reserved word.
  have listed : b ∈ lexeme.toList :=
    whole ▸ mem_slice.mpr ⟨_, Nat.le_add_right _ _, lt_seek_not letter, here⟩
  have lowered : Byte.lower b ∈ (ofString lexeme.lower.toString).toList := by
    rw [ofString_toString proper, toList_lower]
    exact List.mem_map_of_mem listed
  have short := List.all_eq_true.mp (Token.ascii_of_isNamed named) _ lowered
  rw [Byte.lower_of_large b wide] at short
  exact absurd wide (UInt8.not_le.mpr (of_decide_eq_true short))

end Text

/-! ### Tokens at the start of a statement -/

namespace Source

variable {src : Source} {i : Nat} {tok : Token}

/-- A token is what is found at its start. -/
theorem classify_start (joined : src.text.Joined) (listed : tok ∈ src.tokens.toList) :
    src.classify tok.start .forward = .ok (some tok) := by
  have tiling := src.tokens_tiling
  have proper := tiling.nonempty tok listed
  have within := tiling.within tok listed
  have first : Token.firstAfter? src.tokens.toList tok.start = some tok :=
    tiling.firstAfter?_eq listed proper fun a _ before => before
  rw [classify_eq, if_neg (by omega), Text.floor_eq_self (tokens_boundary joined tok listed).1,
    Token.lookup?, first]

/-- No code token reaches over the start of a statement. -/
theorem token_of_startsStatement (visible : src.text.byteIs i (!Byte.isBlank ·) = true)
    (free : src.map.spanAt? i = none) (starts : src.startsStatement i = true) :
    src.text.tokenAt i ∈ src.tokens.toList := by
  have tiling := src.tokens_tiling
  obtain ⟨inside, shown⟩ := Text.byteIs_not_iff.mp visible
  obtain ⟨tok, listed, code, lower, upper⟩ := tiling.code_covers inside shown free
  obtain ⟨lexed, each⟩ := tiling.lexed tok listed code
  have first : tok.start = i := by
    apply Nat.le_antisymm lower
    apply Nat.le_of_not_lt
    intro earlier
    obtain ⟨k, rfl⟩ : ∃ k, i = k + 1 := ⟨i - 1, by omega⟩
    -- The byte before would be one of the token, and a semicolon that ends a statement.
    have before : src.text.byteIs k (!Byte.isBlank ·) = true :=
      Text.byteIs_not_iff.mpr ⟨by omega, each k (by omega) (by omega)⟩
    have last : src.text.seekBack (!Byte.isBlank ·) (k + 1) = k + 1 := by
      rw [Text.seekBack, if_pos before]
    have ends : src.text.byteIs k Byte.isSemicolon = true := by
      rw [startsStatement_eq_match, last] at starts
      simpa only [tiling.code_free listed code (i := k) (by omega) (by omega)] using starts
    have start := tiling.start_of_semicolon listed code (by omega) (by omega) ends
    rw [lexed, tokenAt_stop, start, Text.shapeAt_semicolon ends] at upper
    exact absurd upper (Nat.lt_irrefl _)
  rw [first] at lexed
  exact lexed ▸ listed

end Source

/-! ### Keywords that a search finds -/

/-- The words that begin a match of a block keyword. -/
def Block.words : List Keyword :=
  [.proc, .data, .macroBegin, .macroEnd, .run, .quit]

/-- The words that a block of this kind can begin with, for the kinds that are read off one. -/
def Block.Kind.announcers : Block.Kind → List Keyword
  | .proc _ => [.proc]
  | .data => [.data]
  | .macroBlock _ => [.macroBegin]
  | .error => [.proc, .macroBegin]
  | .closingRun => [.run, .quit]
  | _ => []

/-- The words that a block of this kind can begin with. -/
def Block.Kind.words : Block.Kind → List Keyword
  | .dataAssignment => [.data]
  | .closingMacro => [.macroEnd]
  | kind => kind.announcers

/-- The words of openers open blocks, and those of closers close them. -/
theorem Block.Kind.announcers_role (kind : Block.Kind) : ∀ k ∈ kind.announcers,
    (k.opensBlock = true ∨ k.closesBlock = true) ∧
      (if k.opensBlock then Token.Kind.blockOpener else .blockCloser) =
        if kind = .closingRun then .blockCloser else .blockOpener := by
  cases kind <;> simp [announcers, Keyword.opensBlock, Keyword.closesBlock]

/-- The keyword stands at `i` in any case, and a word edge behind it. -/
structure Text.Announces (t : Text) (k : Keyword) (i : Nat) : Prop where
  listed : k ∈ Block.words
  stands : t.startsWithLower i (Program.bytes k.spelling) = true
  edge : t.isWordEdge (i + (Program.bytes k.spelling).length) = true

namespace Text

variable {t : Text} {i : Nat} {k other : Keyword} {place : Extent}

theorem announces_of_wholeWordAt (listed : k ∈ Block.words)
    (found : t.wholeWordAt (Program.bytes k.spelling) i = true) : t.Announces k i := by
  rw [wholeWordAt, Bool.and_eq_true, Bool.and_eq_true] at found
  exact ⟨listed, found.1.1, found.2⟩

theorem announces_of_signWordAt (listed : k ∈ Block.words)
    (found : t.signWordAt (Program.bytes k.spelling) i = true) : t.Announces k i := by
  rw [signWordAt, Bool.and_eq_true] at found
  exact ⟨listed, found.1, found.2⟩

theorem announces_of_stepOpener {length : Nat} (found : Pattern.stepOpener t i = some length) :
    ∃ k ∈ [Keyword.proc, .data], t.Announces k i := by
  unfold Pattern.stepOpener at found
  split at found
  · rename_i either
    rcases Bool.or_eq_true_iff.mp either with proc | data
    · exact ⟨.proc, by decide, announces_of_wholeWordAt (by decide) proc⟩
    · exact ⟨.data, by decide, announces_of_wholeWordAt (by decide) data⟩
  · cases found

theorem announces_of_macroKeyword {length : Nat}
    (found : Pattern.macroKeyword t i = some length) :
    ∃ k ∈ [Keyword.macroBegin, .macroEnd], t.Announces k i := by
  unfold Pattern.macroKeyword at found
  split at found
  · exact ⟨.macroBegin, by decide, announces_of_signWordAt (by decide) ‹_›⟩
  split at found
  · exact ⟨.macroEnd, by decide, announces_of_signWordAt (by decide) ‹_›⟩
  · cases found

theorem announces_of_stepCloser {quitCloses : Bool} {length : Nat}
    (found : Pattern.stepCloser quitCloses t i = some length) :
    ∃ k ∈ [Keyword.run, .quit], t.Announces k i := by
  unfold Pattern.stepCloser at found
  split at found
  · exact ⟨.run, by decide, announces_of_wholeWordAt (by decide) ‹_›⟩
  split at found
  · rename_i both
    exact ⟨.quit, by decide,
      announces_of_wholeWordAt (by decide) (Bool.and_eq_true_iff.mp both).2⟩
  · cases found

theorem exists_announces {quitCloses : Bool}
    (matched : t.Matches (Pattern.blockKeyword quitCloses) place) :
    ∃ k, t.Announces k place.start := by
  have here := matched.here
  unfold Pattern.blockKeyword at here
  split at here
  · obtain ⟨k, -, announces⟩ := announces_of_stepOpener ‹_›
    exact ⟨k, announces⟩
  split at here
  · obtain ⟨k, -, announces⟩ := announces_of_macroKeyword ‹_›
    exact ⟨k, announces⟩
  · obtain ⟨k, -, announces⟩ := announces_of_stepCloser here
    exact ⟨k, announces⟩

/-- At most one of the words stands at a place. -/
theorem Announces.unique (announces : t.Announces k i) (listed : other ∈ Block.words)
    (stands : t.startsWithLower i (Program.bytes other.spelling) = true) : k = other := by
  have apart : ∀ k ∈ Block.words, ∀ other ∈ Block.words,
      ((Program.bytes k.spelling).zip (Program.bytes other.spelling)).all
        (fun p => p.1 == p.2) = true → k = other := by decide
  exact apart k announces.listed other listed (startsWithLower_zip announces.stands stands)

theorem Announces.stepOpener_none (announces : t.Announces k i)
    (other : k ∉ [Keyword.proc, .data]) : Pattern.stepOpener t i = none := by
  rw [Option.eq_none_iff_forall_ne_some]
  intro length found
  obtain ⟨k', listed, announces'⟩ := announces_of_stepOpener found
  exact other (announces.unique announces'.listed announces'.stands ▸ listed)

theorem Announces.macroKeyword_none (announces : t.Announces k i)
    (other : k ∉ [Keyword.macroBegin, .macroEnd]) : Pattern.macroKeyword t i = none := by
  rw [Option.eq_none_iff_forall_ne_some]
  intro length found
  obtain ⟨k', listed, announces'⟩ := announces_of_macroKeyword found
  exact other (announces.unique announces'.listed announces'.stands ▸ listed)

/-- Where one of the other words stands, no step is closed. -/
theorem stepCloser_none {quitCloses : Bool} (listed : k ∈ Block.words)
    (other : k ∉ [Keyword.run, .quit])
    (stands : t.startsWithLower i (Program.bytes k.spelling) = true) :
    Pattern.stepCloser quitCloses t i = none := by
  rw [Option.eq_none_iff_forall_ne_some]
  intro length found
  obtain ⟨k', closes, announces⟩ := announces_of_stepCloser found
  exact other (announces.unique listed stands ▸ closes)

theorem Announces.byteIs (announces : t.Announces k i) {n : Nat} {p : UInt8 → Bool}
    (blind : ∀ b, p (Byte.lower b) = p b) (spelled : (Program.bytes k.spelling)[n]?.any p = true) :
    t.byteIs (i + n) p = true :=
  byteIs_of_startsWithLower announces.stands blind spelled

theorem Announces.visible (announces : t.Announces k i) :
    t.byteIs i (!Byte.isBlank ·) = true := by
  have first : ∀ k ∈ Block.words,
      (Program.bytes k.spelling)[0]?.any (!Byte.isBlank ·) = true := by decide
  exact announces.byteIs (fun b => by rw [Byte.isBlank_lower]) (first k announces.listed)

/-- Behind the keyword the lexer's word ends, unless a character above ASCII follows. -/
theorem Announces.ends (announces : t.Announces k i) (joined : t.Joined)
    (short : t.byteIs (i + (Program.bytes k.spelling).length) (128 ≤ ·) = false) :
    t.byteIs (i + (Program.bytes k.spelling).length) Byte.isWord = false := by
  have last : ∀ k ∈ Block.words, ∃ n < 6, (Program.bytes k.spelling).length = n + 1 ∧
      (Program.bytes k.spelling)[n]?.any (fun b => Byte.isWord b && b < 128) = true := by decide
  have blind : ∀ b, (Byte.isWord (Byte.lower b) && Byte.lower b < 128) =
      (Byte.isWord b && b < 128) := Byte.forall_of_halves (by decide)
  obtain ⟨n, -, length, spelled⟩ := last k announces.listed
  obtain ⟨b, here, letter⟩ := byteIs_iff.mp (announces.byteIs blind spelled)
  have edge := announces.edge
  rw [length, ← Nat.add_assoc] at short edge ⊢
  rw [Bool.and_eq_true, decide_eq_true_eq] at letter
  exact isWord_behind_edge joined here letter.2 letter.1 edge short

end Text

namespace Scanner

variable {sc : Scanner} {place : Extent} {k : Keyword}

theorem namedHeader_start (place : Extent) (kind : Text → Block.Kind) :
    (sc.namedHeader place kind).value.start = place.start := by
  unfold namedHeader
  split <;> rfl

theorem blockAt_start (place : Extent) : (sc.blockAt place).value.start = place.start := by
  unfold blockAt
  split
  · rfl
  split
  · split
    · split <;> rfl
    · rfl
  split
  · exact namedHeader_start place .proc
  split
  · exact namedHeader_start place .macroBlock
  · rfl

/-- A header is announced by its keyword or has no name. -/
theorem namedHeader_kind (place : Extent) (kind : Text → Block.Kind) :
    (∃ name, (sc.namedHeader place kind).value.kind = kind name) ∨
      (sc.namedHeader place kind).value.kind = .error := by
  unfold namedHeader
  split
  · exact Or.inl ⟨_, rfl⟩
  · exact Or.inr rfl

/-- A block is of a kind that begins with the keyword at its start. -/
theorem blockAt_words (announces : sc.text.Announces k place.start) :
    k ∈ (sc.blockAt place).value.kind.words := by
  unfold blockAt
  split
  · rename_i mend
    obtain rfl : k = .macroEnd := announces.unique (by decide) mend
    exact List.mem_singleton_self _
  rename_i mend
  split
  · rename_i data
    obtain rfl : k = .data := announces.unique (by decide) data
    split
    · split <;> exact List.mem_singleton_self _
    · exact List.mem_singleton_self _
  rename_i data
  split
  · rename_i proc
    obtain rfl : k = .proc := announces.unique (by decide) proc
    rcases sc.namedHeader_kind place .proc with ⟨name, kind⟩ | kind
    · rw [kind]
      exact List.mem_singleton_self _
    · rw [kind]
      exact List.mem_cons_self
  rename_i proc
  split
  · rename_i opens
    obtain rfl : k = .macroBegin := announces.unique (by decide) opens
    rcases sc.namedHeader_kind place .macroBlock with ⟨name, kind⟩ | kind
    · rw [kind]
      exact List.mem_singleton_self _
    · rw [kind]
      exact List.mem_cons_of_mem _ List.mem_cons_self
  · rename_i opens
    have stands := announces.stands
    have listed := announces.listed
    simp only [Block.words, List.mem_cons, List.not_mem_nil, or_false] at listed
    rcases listed with rfl | rfl | rfl | rfl | rfl | rfl
    · exact absurd stands proc
    · exact absurd stands data
    · exact absurd stands opens
    · exact absurd stands mend
    · exact List.mem_cons_self
    · exact List.mem_cons_of_mem _ List.mem_cons_self

/-- A block is of a kind that the keyword at its start announces. -/
theorem blockAt_announced (announces : sc.text.Announces k place.start) :
    (sc.blockAt place).value.kind.announcers = [] ∨
      k ∈ (sc.blockAt place).value.kind.announcers := by
  have listed := blockAt_words announces
  generalize (sc.blockAt place).value.kind = kind at listed ⊢
  cases kind with
  | dataAssignment => exact Or.inl rfl
  | closingMacro => exact Or.inl rfl
  | _ => exact Or.inr listed

/-- A keyword that counts stands in the code and, when keywords are anchored, at the start of a
statement. -/
theorem counts_of_rejection? (counts : sc.rejection? place = none) :
    sc.source.map.spanAt? place.start = none ∧
      (sc.settings.anchorKeywords = true → sc.source.isStatementStart place.start = true) := by
  unfold rejection? at counts
  split at counts
  · cases counts
  rename_i code
  split at counts
  · cases counts
  rename_i starts
  constructor
  · simpa [SpanMap.isCode] using code
  · intro anchored
    simpa [anchored] using starts

/-- A block that begins with one of the words was read off a keyword that counts. -/
theorem beginningOfBlock_announced {offset : Nat} {b : Block}
    (found : (sc.beginningOfBlock offset).value = .ok b) (known : b.kind.announcers ≠ []) :
    ∃ k ∈ b.kind.announcers, sc.text.Announces k b.start ∧
      sc.source.map.spanAt? b.start = none ∧
      (sc.settings.anchorKeywords = true → sc.source.isStatementStart b.start = true) := by
  unfold beginningOfBlock at found
  split at found
  · cases found
  rw [Logged.value_map, Except.ok.injEq, blockBefore, Logged.value_bind] at found
  subst found
  split at known
  · rename_i place searched
    obtain ⟨matched, counts⟩ := search_matches searched
    obtain ⟨k, announces⟩ := Text.exists_announces matched
    rcases blockAt_announced announces with none | listed
    · exact absurd none known
    · rw [blockAt_start]
      exact ⟨k, listed, announces, counts_of_rejection? counts⟩
  · exact absurd rfl known
  · exact absurd rfl known

/-- Block keywords and tokens agree on where words begin, and on which words they are unless a
character above ASCII touches one from behind. A token starts where a block begins. When no such
character follows the keyword there, the token is that keyword as opener or closer of a block;
when one does, the token is an identifier. -/
theorem beginningOfBlock_token (lexical : LexicalSettings) (scanning : ScanSettings) (s : String)
    (anchored : scanning.anchorKeywords = true) (offset : Nat) (b : Block)
    (found : (beginningOfBlock ⟨.ofText lexical (.ofString s), scanning⟩ offset).value = .ok b)
    (known : b.kind.announcers ≠ []) :
    let src := Source.ofText lexical (.ofString s)
    ∃ k ∈ b.kind.announcers, ∃ tok, src.classify b.start .forward = .ok (some tok) ∧
      tok.start = b.start ∧
      src.text.startsWithLower b.start (Program.bytes k.spelling) = true ∧
      if src.text.byteIs (b.start + (Program.bytes k.spelling).length) (128 ≤ ·) then
        tok.kind = .identifier
      else tok.keyword? = some k ∧
        tok.kind = if b.kind = .closingRun then .blockCloser else .blockOpener := by
  intro src
  have joined : src.text.Joined := Text.joined_ofString s
  obtain ⟨k, listed, announces, free, starts⟩ := beginningOfBlock_announced found known
  have visible : src.text.byteIs b.start (!Byte.isBlank ·) = true := announces.visible
  have starting : src.startsStatement b.start = true := by
    have statement : src.isStatementStart b.start = true := starts anchored
    have inside : b.start ≤ src.size := Nat.le_of_lt (Text.lt_size_of_byteIs visible)
    rwa [Source.isStatementStart, Nat.min_eq_left inside] at statement
  have member := Source.token_of_startsStatement visible free starting
  refine ⟨k, listed, _, Source.classify_start joined member, rfl, announces.stands, ?_⟩
  split
  · rename_i touched
    exact Text.tokenAt_touched announces.stands touched
  · rename_i short
    have ends := announces.ends joined (Bool.eq_false_iff.mpr short)
    obtain ⟨block, role⟩ := b.kind.announcers_role k listed
    rw [← role]
    exact Text.tokenAt_keyword announces.stands ends block

/-- A search sees a step at a word that is an identifier for the lexer. -/
theorem beginningOfBlock_touched :
    let src := Source.ofText {} (.ofString "data™;")
    (beginningOfBlock ⟨src, {}⟩ 0).value = .ok ⟨.data, 0, 4, 4⟩ ∧
      src.classify 0 .forward = .ok (some ⟨.ofString "data™", .identifier, 0, 7⟩) := by
  decide +kernel

/-- A procedure in mixed case behind a comment, with a name of letters above ASCII. -/
theorem beginningOfBlock_token_proc :
    let src := Source.ofText {} (.ofString "x; /* é */ Proc é; run;")
    (beginningOfBlock ⟨src, {}⟩ 14).value = .ok ⟨.proc (.ofString "é"), 12, 19, 19⟩ ∧
      ∃ tok, src.classify 12 .forward = .ok (some tok) ∧ tok.start = 12 ∧
        tok.keyword? = some .proc ∧ tok.kind = .blockOpener := by
  intro src
  have found : (beginningOfBlock ⟨src, {}⟩ 14).value =
      .ok ⟨.proc (.ofString "é"), 12, 19, 19⟩ := by decide +kernel
  have short : src.text.byteIs (12 + (Program.bytes Keyword.proc.spelling).length)
      (128 ≤ ·) = false := by decide +kernel
  obtain ⟨k, listed, tok, here, start, -, role⟩ :=
    beginningOfBlock_token {} {} "x; /* é */ Proc é; run;" rfl 14 _ found
      (by simp [Block.Kind.announcers])
  obtain rfl : k = .proc := List.mem_singleton.mp listed
  rw [if_neg (Bool.eq_false_iff.mp short)] at role
  exact ⟨found, tok, here, start, role⟩

end Scanner

end SasLayout
