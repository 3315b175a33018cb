import SasLayout.Proofs.KeywordTokens
import SasLayout.Proofs.Statements

set_option autoImplicit false

/-!
Texts of plain code: ASCII without comments and string literals. In them a character is a byte and
every semicolon ends a statement, so a statement starts where only blanks stand between it and the
semicolon before.
-/
namespace SasLayout

namespace Text

/-- Every byte of the text is a character of its own. -/
def Ascii (t : Text) : Prop :=
  ∀ b ∈ t.toList, b < 128

variable {t : Text} {i : Nat}

theorem ascii_of_all (each : t.toList.all (· < 128) = true) : t.Ascii := by
  intro b listed
  exact of_decide_eq_true (List.all_eq_true.mp each b listed)

namespace Ascii

theorem byte (ascii : t.Ascii) {b : UInt8} (here : t.byte? i = some b) : b < 128 := by
  rw [byte?_eq_getElem?] at here
  exact ascii b (List.mem_of_getElem? here)

theorem isContinuation (ascii : t.Ascii) {b : UInt8} (here : t.byte? i = some b) :
    Byte.isContinuation b = false := by
  have plain : ∀ b : UInt8, b < 128 → Byte.isContinuation b = false :=
    Byte.forall_of_halves (p := fun b => b < 128 → Byte.isContinuation b = false) (by decide)
  exact plain b (ascii.byte here)

theorem joined (ascii : t.Ascii) : t.Joined := by
  intro i b here continues
  rw [ascii.isContinuation (t.byte?_eq_getElem? i ▸ here)] at continues
  cases continues

theorem boundary (ascii : t.Ascii) (within : i ≤ t.size) : t.isBoundary i = true := by
  by_cases last : i = t.size
  · simp [isBoundary, last]
  · obtain ⟨b, here⟩ := exists_byte (show i < t.size by omega)
    simp [isBoundary, byteIs_of_byte? here, ascii.isContinuation here]

theorem floor (ascii : t.Ascii) (within : i ≤ t.size) : t.floor i = i :=
  floor_eq_self (ascii.boundary within)

theorem next (ascii : t.Ascii) (inside : i < t.size) : t.next i = i + 1 := by
  apply seek_eq (Nat.le_refl _) (by omega)
  by_cases last : i + 1 = t.size
  · exact Or.inr last
  · have boundary := ascii.boundary inside
    simp only [isBoundary, Bool.or_eq_true, beq_iff_eq] at boundary
    exact Or.inl (boundary.resolve_left (by omega))

theorem any_char? (ascii : t.Ascii) (p : Char → Bool) (i : Nat) :
    (t.char? i).any p = t.byteIs i (fun b => p (Char.ofUInt8 b)) := by
  cases here : t.byte? i with
  | none =>
    have outside := byte?_eq_none_iff.mp here
    rw [byteIs_past outside, char?, ByteArray.utf8DecodeChar?,
      dif_neg (show ¬ i < t.bytes.size from Nat.not_lt.mpr outside)]
    rfl
  | some b =>
    have low := (isWordChar_ascii b (ascii.byte here)).1
    rw [char?_eq_decode t here, decode_ascii low, Option.any_some, byteIs_of_byte? here]

theorem isWordChar (ascii : t.Ascii) (i : Nat) :
    (t.char? i).any isWordChar = t.byteIs i Byte.isWord := by
  rw [ascii.any_char?]
  cases here : t.byte? i with
  | none => rw [byteIs_past (byte?_eq_none_iff.mp here), byteIs_past (byte?_eq_none_iff.mp here)]
  | some b =>
    rw [byteIs_of_byte? here, byteIs_of_byte? here, (isWordChar_ascii b (ascii.byte here)).2]

/-- A word edge lies between a letter and something else, in either order. -/
theorem isWordEdge_zero (ascii : t.Ascii) : t.isWordEdge 0 = t.byteIs 0 Byte.isWord := by
  rw [isWordEdge, ascii.isWordChar]
  simp [charBefore?]

theorem isWordEdge_succ (ascii : t.Ascii) (inside : i < t.size) :
    t.isWordEdge (i + 1) = (t.byteIs i Byte.isWord != t.byteIs (i + 1) Byte.isWord) := by
  have before : t.charBefore? (i + 1) = t.char? i := by
    rw [charBefore?, ascii.boundary inside, Nat.add_sub_cancel,
      ascii.floor (Nat.le_of_lt inside)]
    simp
  rw [isWordEdge, before, ascii.isWordChar, ascii.isWordChar]

theorem skipWhiteSpace (ascii : t.Ascii) (within : i ≤ t.size) :
    t.skipWhiteSpace i = t.seek (fun b => !isWhiteSpace (Char.ofUInt8 b)) i := by
  fun_induction Text.skipWhiteSpace t i with
  | case1 i inside space _ ih =>
    rw [ascii.any_char?] at space
    rw [ascii.next inside] at ih ⊢
    rw [ih inside, seek.eq_def t _ i, if_pos inside, if_neg]
    rw [byteIs_not inside (fun b => isWhiteSpace (Char.ofUInt8 b)), space]
    decide
  | case2 i inside visible =>
    rw [ascii.any_char?] at visible
    symm
    apply seek_eq_self within
    simpa using visible
  | case3 i outside =>
    symm
    exact seek_eq (Nat.le_refl i) (by omega) (Or.inr (by omega))

end Ascii
end Text

/-- No semicolon follows an offset from which none is found. -/
theorem Text.semicolon?_none {t : Text} {i k : Nat} (none : t.semicolon? i = none)
    (lower : i ≤ k) : t.byteIs k Byte.isSemicolon = false := by
  unfold semicolon? at none
  split at none
  · cases none
  · rename_i outside
    by_cases inside : k < t.size
    · exact seek_before lower (by omega)
    · exact byteIs_past (by omega) _

namespace Source

variable {src : Source} {i : Nat}

/-- An ascending list falls into what lies before an offset and the rest. -/
theorem exists_ascending_split {α : Type} {f : α → Nat} {xs : List α}
    (ascend : xs.Pairwise fun a b => f a ≤ f b) (offset : Nat) :
    ∃ front back, xs = front ++ back ∧ (∀ a ∈ front, f a < offset) ∧ ∀ b ∈ back, offset ≤ f b := by
  induction xs with
  | nil => exact ⟨[], [], rfl, by simp, by simp⟩
  | cons first rest ih =>
    by_cases early : f first < offset
    · obtain ⟨front, back, rfl, before, after⟩ := ih ascend.of_cons
      exact ⟨first :: front, back, rfl, List.forall_mem_cons.mpr ⟨early, before⟩, after⟩
    · refine ⟨[], first :: rest, rfl, by simp, ?_⟩
      intro b listed
      rcases List.mem_cons.mp listed with rfl | later
      · omega
      · have := List.rel_of_pairwise_cons ascend later
        omega

theorem nextTerminator?_eq_find? (offset : Nat) :
    src.map.nextTerminator? offset = src.map.terminators.toList.find? (offset ≤ ·) := by
  obtain ⟨front, back, whole, before, after⟩ :=
    exists_ascending_split (f := id) (src.terminators_ascend.imp Nat.le_of_lt) offset
  have count := Bisect.leading_eq (p := (· < offset)) whole
    (fun k listed => by simpa using before k listed)
    (fun k listed => by simpa using after k listed)
  have none : front.find? (offset ≤ ·) = none :=
    List.find?_eq_none.mpr fun k listed => by simpa using before k listed
  rw [SpanMap.nextTerminator?, count, ← Array.getElem?_toList, whole,
    List.getElem?_append_right (Nat.le_refl _), Nat.sub_self, List.find?_append, none,
    Option.none_or]
  cases back with
  | nil => rfl
  | cons first rest =>
    rw [List.find?_cons_of_pos (by simpa using after first List.mem_cons_self)]
    rfl

/-- Code alone: ASCII without comments and string literals. -/
structure Plain (src : Source) : Prop where
  ascii : src.text.Ascii
  bare : src.map.spans = #[]

/-- A statement can start at `i`: the text does, or a semicolon stands right before. -/
def Fresh (src : Source) (i : Nat) : Prop :=
  ∀ k, i = k + 1 → src.text.byteIs k Byte.isSemicolon = true

theorem fresh_zero : src.Fresh 0 := by
  intro k impossible
  omega

theorem fresh_succ (here : src.text.byteIs i Byte.isSemicolon = true) : src.Fresh (i + 1) := by
  intro k same
  rwa [← Nat.succ.inj same]

theorem visible_of_semicolon (here : src.text.byteIs i Byte.isSemicolon = true) :
    src.text.byteIs i (!Byte.isBlank ·) = true := by
  apply Text.byteIs_mono here
  intro b semicolon
  cases blank : Byte.isBlank b with
  | false => rfl
  | true =>
    rw [Byte.isSemicolon_of_isBlank b blank] at semicolon
    cases semicolon

namespace Plain

theorem spanAt? (plain : src.Plain) (i : Nat) : src.map.spanAt? i = none := by
  rw [spanAt?_eq_none_iff, plain.bare]
  simp

theorem mem_terminators_iff (plain : src.Plain) :
    i ∈ src.map.terminators ↔ src.text.byteIs i Byte.isSemicolon = true :=
  ⟨terminators_semicolon, fun here => mem_terminators here (plain.spanAt? i)⟩

theorem nextTerminator? (plain : src.Plain) (i : Nat) :
    src.map.nextTerminator? i = src.text.semicolon? i := by
  rw [nextTerminator?_eq_find?]
  cases found : src.map.terminators.toList.find? (i ≤ ·) with
  | none =>
    symm
    rw [Option.eq_none_iff_forall_ne_some]
    intro k next
    obtain ⟨later, here, -⟩ := Text.semicolon?_eq_some_iff.mp next
    have listed := Array.mem_toList_iff.mpr (plain.mem_terminators_iff.mpr here)
    exact absurd later (by simpa using List.find?_eq_none.mp found k listed)
  | some k =>
    obtain ⟨later, front, back, whole, before⟩ := List.find?_eq_some_iff_append.mp found
    have ascend := src.terminators_ascend
    rw [whole] at ascend
    symm
    apply Text.semicolon?_eq_some_iff.mpr
    refine ⟨by simpa using later, ?_, fun j lower upper => ?_⟩
    · apply plain.mem_terminators_iff.mp
      rw [← Array.mem_toList_iff, whole]
      simp
    · rw [Bool.eq_false_iff]
      intro here
      have listed := Array.mem_toList_iff.mpr (plain.mem_terminators_iff.mpr here)
      rw [whole, List.mem_append, List.mem_cons] at listed
      rcases listed with earlier | rfl | beyond
      · exact absurd lower (by simpa using before j earlier)
      · omega
      · have := List.rel_of_pairwise_cons (List.pairwise_append.mp ascend).2.1 beyond
        omega

/-- In plain code a statement starts where only blanks part it from a semicolon or from the start
of the text. -/
theorem startsStatement_iff (plain : src.Plain) :
    src.startsStatement i = true ↔
      ∃ j ≤ i, src.Fresh j ∧ ∀ k, j ≤ k → k < i → src.text.byteIs k (!Byte.isBlank ·) = false := by
  rw [startsStatement_eq_match]
  constructor
  · intro starts
    refine ⟨_, src.text.seekBack_le _ i, ?_, fun k => Text.seekBack_after⟩
    intro k last
    rw [last] at starts
    simpa only [plain.spanAt? k] using starts
  · rintro ⟨j, lower, fresh, blank⟩
    split
    · rfl
    · rename_i k last
      have visible := Text.seekBack_found last
      have earlier := src.text.seekBack_le (!Byte.isBlank ·) i
      have before : k < j := by
        apply Nat.lt_of_not_le
        intro between
        rw [blank k between (by omega)] at visible
        cases visible
      have same : j = k + 1 := by
        obtain ⟨m, rfl⟩ : ∃ m, j = m + 1 := ⟨j - 1, by omega⟩
        apply Nat.le_antisymm _ before
        apply Nat.le_of_not_lt
        intro between
        have hidden := Text.seekBack_after (t := src.text) (p := (!Byte.isBlank ·)) (i := i)
          (j := m) (by omega) (by omega)
        rw [visible_of_semicolon (fresh m rfl)] at hidden
        cases hidden
      simpa only [plain.spanAt? k] using fresh k same

/-- A semicolon stands between a visible byte and the start of a later statement. -/
theorem semicolon_between (plain : src.Plain) {v : Nat}
    (visible : src.text.byteIs v (!Byte.isBlank ·) = true) (later : v < i)
    (starts : src.startsStatement i = true) :
    ∃ k, v ≤ k ∧ k < i ∧ src.text.byteIs k Byte.isSemicolon = true := by
  obtain ⟨j, lower, fresh, blank⟩ := plain.startsStatement_iff.mp starts
  have before : v < j := by
    apply Nat.lt_of_not_le
    intro between
    rw [blank v between later] at visible
    cases visible
  obtain ⟨k, rfl⟩ : ∃ k, j = k + 1 := ⟨j - 1, by omega⟩
  exact ⟨k, by omega, by omega, fresh k rfl⟩

theorem statementStop_some (plain : src.Plain) {k : Nat} (next : src.text.semicolon? i = some k) :
    src.statementStop i = k + 1 := by
  rw [statementStop, plain.nextTerminator?, next]

theorem statementStop_none (plain : src.Plain) (none : src.text.semicolon? i = none) :
    src.statementStop i = src.size := by
  rw [statementStop, plain.nextTerminator?, none]

end Plain

/-! ### The statements of a text -/

theorem lt_statementStop (inside : i < src.size) : i < src.statementStop i := by
  rcases src.statementStop_cases i with whole | ⟨last, -, later, stop⟩
  · omega
  · omega

theorem statementStop_le (src : Source) (i : Nat) : src.statementStop i ≤ src.size := by
  rcases src.statementStop_cases i with whole | ⟨last, listed, -, stop⟩
  · omega
  · have inside := Text.lt_size_of_byteIs (terminators_semicolon listed)
    rw [stop]
    exact inside

/-- The first visible byte from `i` on. -/
def visibleFrom (src : Source) (i : Nat) : Nat :=
  src.text.seek (!Byte.isBlank ·) i

theorem le_visibleFrom (inside : src.visibleFrom i < src.size) : i ≤ src.visibleFrom i := by
  by_cases within : i ≤ src.size
  · exact src.text.le_seek _ i within
  · have past : src.visibleFrom i = src.size := by
      rw [visibleFrom, Text.seek, if_neg]
      · rfl
      · exact fun inside => within (Nat.le_of_lt inside)
    omega

/-- The statements from `i` on, each from its first visible byte to its end. -/
def statementsFrom (src : Source) (i : Nat) : List Extent :=
  if inside : src.visibleFrom i < src.size then
    have := src.le_visibleFrom inside
    have := src.lt_statementStop inside
    ⟨src.visibleFrom i, src.statementStop (src.visibleFrom i)⟩ ::
      src.statementsFrom (src.statementStop (src.visibleFrom i))
  else []
termination_by src.size - i

/-- The statements of the text, in order. -/
def statements (src : Source) : List Extent :=
  src.statementsFrom 0

theorem statementsFrom_size (src : Source) : src.statementsFrom src.size = [] := by
  have outside : ¬ src.visibleFrom src.size < src.size := by
    intro inside
    have later := src.le_visibleFrom inside
    omega
  rw [statementsFrom, dif_neg outside]

theorem mem_statementsFrom :
    ∀ st ∈ src.statementsFrom i, i ≤ st.start ∧ st.start < src.size ∧
      st.stop = src.statementStop st.start := by
  fun_induction statementsFrom src i with
  | case1 i inside later further ih =>
    intro st listed
    rcases List.mem_cons.mp listed with rfl | listed
    · exact ⟨later, inside, rfl⟩
    · obtain ⟨lower, rest⟩ := ih st listed
      exact ⟨by omega, rest⟩
  | case2 i outside => simp

/-- Each statement ends before the next one starts. -/
theorem statementsFrom_apart (src : Source) (i : Nat) :
    (src.statementsFrom i).Pairwise fun a b => a.stop ≤ b.start := by
  fun_induction statementsFrom src i with
  | case1 i inside later further ih =>
    refine List.pairwise_cons.mpr ⟨fun st listed => ?_, ih⟩
    exact (mem_statementsFrom st listed).1
  | case2 i outside => exact List.Pairwise.nil

/-- In plain code the statements start at the visible bytes that a statement can start with. -/
theorem Plain.starts_iff (plain : src.Plain) (fresh : src.Fresh i) (p : Nat) :
    (∃ st ∈ src.statementsFrom i, st.start = p) ↔
      i ≤ p ∧ src.text.byteIs p (!Byte.isBlank ·) = true ∧ src.startsStatement p = true := by
  fun_induction statementsFrom src i with
  | case1 i inside later further ih =>
    have visible : src.text.byteIs (src.visibleFrom i) (!Byte.isBlank ·) = true :=
      Text.seek_found inside
    have blank : ∀ k, i ≤ k → k < src.visibleFrom i →
        src.text.byteIs k (!Byte.isBlank ·) = false := fun k => Text.seek_before
    have rest : (∃ st ∈ src.statementsFrom (src.statementStop (src.visibleFrom i)),
        st.start = p) ↔ src.visibleFrom i < p ∧
          src.text.byteIs p (!Byte.isBlank ·) = true ∧ src.startsStatement p = true := by
      cases next : src.text.semicolon? (src.visibleFrom i) with
      | some k =>
        obtain ⟨lower, here, before⟩ := Text.semicolon?_eq_some_iff.mp next
        rw [plain.statementStop_some next] at ih ⊢
        rw [ih (fresh_succ here)]
        refine ⟨fun ⟨behind, shown, starts⟩ => ⟨by omega, shown, starts⟩, ?_⟩
        rintro ⟨behind, shown, starts⟩
        obtain ⟨m, above, below, semicolon⟩ := plain.semicolon_between visible behind starts
        refine ⟨?_, shown, starts⟩
        apply Nat.le_trans _ below
        apply Nat.succ_le_succ
        apply Nat.le_of_not_lt
        intro early
        rw [before m above early] at semicolon
        cases semicolon
      | none =>
        rw [plain.statementStop_none next, statementsFrom_size]
        simp only [List.not_mem_nil, false_and, exists_false, false_iff]
        rintro ⟨behind, shown, starts⟩
        obtain ⟨m, above, below, semicolon⟩ := plain.semicolon_between visible behind starts
        rw [Text.semicolon?_none next above] at semicolon
        cases semicolon
    constructor
    · rintro ⟨st, listed, rfl⟩
      rcases List.mem_cons.mp listed with rfl | listed
      · exact ⟨later, visible, plain.startsStatement_iff.mpr ⟨i, later, fresh, blank⟩⟩
      · obtain ⟨behind, shown⟩ := rest.mp ⟨st, listed, rfl⟩
        exact ⟨by omega, shown⟩
    · rintro ⟨lower, shown, starts⟩
      rcases Nat.lt_trichotomy p (src.visibleFrom i) with early | rfl | behind
      · rw [blank p lower early] at shown
        cases shown
      · exact ⟨_, List.mem_cons_self, rfl⟩
      · obtain ⟨st, listed, start⟩ := rest.mpr ⟨behind, shown, starts⟩
        exact ⟨st, List.mem_cons_of_mem _ listed, start⟩
  | case2 i outside =>
    simp only [List.not_mem_nil, false_and, exists_false, false_iff]
    rintro ⟨lower, shown, starts⟩
    have inside := Text.lt_size_of_byteIs shown
    have hidden : src.text.byteIs p (!Byte.isBlank ·) = false :=
      Text.seek_before lower (Nat.lt_of_lt_of_le inside (Nat.le_of_not_lt outside))
    rw [hidden] at shown
    cases shown

end Source

/-! ### The words that statements begin with -/

namespace Text

variable {t : Text} {i : Nat}

/-- A word stands where each of its bytes does. -/
theorem startsWithLower_of_getElem {word : List UInt8}
    (each : ∀ n b, word[n]? = some b → t.byteIs (i + n) (Byte.lower · == b) = true) :
    t.startsWithLower i word = true := by
  induction word generalizing i with
  | nil => rfl
  | cons first rest ih =>
    rw [startsWithLower, Bool.and_eq_true]
    refine ⟨each 0 first rfl, ih fun n b listed => ?_⟩
    rw [Nat.add_assoc, Nat.add_comm 1]
    exact each (n + 1) b (by simpa using listed)

theorem startsWithLower_of_slice {word : List UInt8} {stop : Nat}
    (spells : (t.slice i stop).lower.toList = word) : t.startsWithLower i word = true := by
  apply startsWithLower_of_getElem
  intro n b listed
  rw [← spells, toList_lower, List.getElem?_map, Option.map_eq_some_iff] at listed
  obtain ⟨c, here, rfl⟩ := listed
  rw [toList_slice, List.getElem?_drop, List.getElem?_take] at here
  split at here
  · rw [← byte?_eq_getElem?] at here
    rw [byteIs_of_byte? here, beq_self_eq_true]
  · cases here

/-- A token that spells a keyword is a word and ends where its letters do. -/
theorem ends_of_keyword? {k : Keyword} (found : (t.tokenAt i).keyword? = some k) :
    i < t.size ∧ t.byteIs (t.tokenAt i).stop Byte.isWord = false := by
  have reserved : (t.tokenAt i).kind.isReserved = true := by
    unfold Token.keyword? at found
    split at found
    · assumption
    · cases found
  rw [Source.tokenAt_stop]
  rw [Source.tokenAt_kind] at reserved
  have shape := t.shape_shapeAt i
  revert shape reserved
  generalize t.shapeAt i = result
  rintro reserved (starts | starts | ⟨sign, starts⟩ | found | ⟨listed, stands⟩ | ⟨other, alone⟩)
  · cases reserved
  · exact ⟨lt_size_of_byteIs starts, t.wordStop_ends i⟩
  · exact ⟨lt_size_of_byteIs sign, t.wordStop_ends (i + 1)⟩
  · cases reserved
  · cases reserved
  · cases alone <;> cases reserved

/-- A token that is one of the words of blocks holds the letters of that word. -/
theorem lexeme_of_keyword? {k : Keyword} (listed : k ∈ Block.words)
    (found : (t.tokenAt i).keyword? = some k) :
    (t.slice i (t.tokenAt i).stop).lower.toList = Program.bytes k.spelling := by
  unfold Token.keyword? at found
  split at found
  · have spelled := List.find?_some found
    have single : ∀ k ∈ Block.words, (k == .macroInclude) = false := by decide
    rw [Keyword.isSpelled, single k listed, Bool.false_and, Bool.or_false, beq_iff_eq] at spelled
    have proper : (t.tokenAt i).lexeme.lower.toString ≠ "" := by
      rw [spelled]
      have nonempty : ∀ k ∈ Block.words, k.spelling ≠ "" := by decide
      exact nonempty k listed
    rw [Program.bytes, ← spelled, ofString_toString proper]
    rfl
  · cases found

theorem stop_of_keyword? {k : Keyword} (listed : k ∈ Block.words)
    (found : (t.tokenAt i).keyword? = some k) :
    (t.tokenAt i).stop = i + (Program.bytes k.spelling).length := by
  have within : (t.tokenAt i).stop ≤ t.size := shapeAt_le_size (ends_of_keyword? found).1
  have length := congrArg List.length (lexeme_of_keyword? listed found)
  rw [toList_lower, List.length_map, length_slice within] at length
  rw [← length, Nat.add_sub_cancel' (Nat.le_of_lt (t.lt_tokenAt_stop i))]

/-- A token is one of the words of blocks exactly when that word stands there and its letters end
with it. -/
theorem keyword?_tokenAt_iff {k : Keyword} (listed : k ∈ Block.words) :
    (t.tokenAt i).keyword? = some k ↔
      t.startsWithLower i (Program.bytes k.spelling) = true ∧
        t.byteIs (i + (Program.bytes k.spelling).length) Byte.isWord = false := by
  constructor
  · intro found
    refine ⟨startsWithLower_of_slice (lexeme_of_keyword? listed found), ?_⟩
    rw [← stop_of_keyword? listed found]
    exact (ends_of_keyword? found).2
  · rintro ⟨stands, ends⟩
    have block : ∀ k ∈ Block.words, k.opensBlock = true ∨ k.closesBlock = true := by decide
    exact (tokenAt_keyword stands ends (block k listed)).1

/-- Behind a word of ASCII letters the word edge says that its letters end. -/
theorem Ascii.edge_behind (ascii : t.Ascii) {k : Keyword} (listed : k ∈ Block.words)
    (stands : t.startsWithLower i (Program.bytes k.spelling) = true) :
    t.isWordEdge (i + (Program.bytes k.spelling).length) =
      !t.byteIs (i + (Program.bytes k.spelling).length) Byte.isWord := by
  have last : ∀ k ∈ Block.words, ∃ n < 6, (Program.bytes k.spelling).length = n + 1 ∧
      (Program.bytes k.spelling)[n]?.any Byte.isWord = true := by decide
  obtain ⟨n, -, length, spelled⟩ := last k listed
  have here : t.byteIs (i + n) Byte.isWord = true :=
    byteIs_of_startsWithLower stands Byte.isWord_lower spelled
  rw [length, ← Nat.add_assoc, ascii.isWordEdge_succ (lt_size_of_byteIs here), here,
    Bool.true_bne]

theorem Ascii.signWordAt_iff (ascii : t.Ascii) {k : Keyword} (listed : k ∈ Block.words) :
    t.signWordAt (Program.bytes k.spelling) i = true ↔ (t.tokenAt i).keyword? = some k := by
  rw [keyword?_tokenAt_iff listed, signWordAt, Bool.and_eq_true]
  apply and_congr_right
  intro stands
  rw [ascii.edge_behind listed stands, Bool.not_eq_true']

theorem Ascii.announces_iff (ascii : t.Ascii) {k : Keyword} (listed : k ∈ Block.words) :
    t.Announces k i ↔ (t.tokenAt i).keyword? = some k := by
  rw [← ascii.signWordAt_iff listed, signWordAt, Bool.and_eq_true]
  constructor
  · intro announces
    exact ⟨announces.stands, announces.edge⟩
  · rintro ⟨stands, edge⟩
    exact ⟨listed, stands, edge⟩

end Text

namespace Source

variable {src : Source} {i : Nat}

/-- Before the start of a statement no letter stands, so a word edge is there. -/
theorem Plain.edge_before (plain : src.Plain) (starts : src.startsStatement i = true)
    (letter : src.text.byteIs i Byte.isWord = true) : src.text.isWordEdge i = true := by
  cases i with
  | zero => rw [plain.ascii.isWordEdge_zero, letter]
  | succ j =>
    have inside : j < src.text.size := Nat.lt_of_succ_lt (Text.lt_size_of_byteIs letter)
    have apart : ∀ b : UInt8, (Byte.isBlank b || Byte.isSemicolon b) = true →
        Byte.isWord b = false :=
      Byte.forall_of_halves (p := fun b => (Byte.isBlank b || Byte.isSemicolon b) = true →
        Byte.isWord b = false) (by decide)
    obtain ⟨first, lower, fresh, blank⟩ := plain.startsStatement_iff.mp starts
    have before : src.text.byteIs j (fun b => Byte.isBlank b || Byte.isSemicolon b) = true := by
      by_cases between : first ≤ j
      · have hidden := blank j between (Nat.lt_succ_self j)
        rw [Text.byteIs_not inside, Bool.not_eq_false'] at hidden
        exact Text.byteIs_mono hidden fun b held => by rw [held, Bool.true_or]
      · exact Text.byteIs_mono (fresh j (by omega)) fun b held => by rw [held, Bool.or_true]
    rw [plain.ascii.isWordEdge_succ inside, Text.byteIs_apart before apart, letter]
    rfl

theorem Plain.wholeWordAt_iff (plain : src.Plain) (starts : src.startsStatement i = true)
    {k : Keyword} (listed : k ∈ [Keyword.proc, .data, .run, .quit]) :
    src.text.wholeWordAt (Program.bytes k.spelling) i = true ↔
      (src.text.tokenAt i).keyword? = some k := by
  have known : k ∈ Block.words := by
    have part : ∀ k ∈ [Keyword.proc, .data, .run, .quit], k ∈ Block.words := by decide
    exact part k listed
  rw [← plain.ascii.signWordAt_iff known, Text.wholeWordAt, Text.signWordAt, Bool.and_eq_true,
    Bool.and_eq_true, Bool.and_eq_true]
  have first : ∀ k ∈ [Keyword.proc, .data, .run, .quit],
      (Program.bytes k.spelling)[0]?.any Byte.isWord = true := by decide
  constructor
  · rintro ⟨⟨stands, _⟩, edge⟩
    exact ⟨stands, edge⟩
  · rintro ⟨stands, edge⟩
    refine ⟨⟨stands, ?_⟩, edge⟩
    apply plain.edge_before starts
    exact Text.byteIs_of_startsWithLower stands Byte.isWord_lower (first k listed)

/-- The keyword that a statement begins with, if its first token is one. -/
def leader? (src : Source) (st : Extent) : Option Keyword :=
  (src.tokenAfter? st.start).bind Token.keyword?

theorem Plain.tokenAfter?_start (plain : src.Plain) {st : Extent} (listed : st ∈ src.statements) :
    src.tokenAfter? st.start = some (src.text.tokenAt st.start) := by
  obtain ⟨-, visible, starts⟩ := (plain.starts_iff fresh_zero st.start).mp ⟨st, listed, rfl⟩
  have member := token_of_startsStatement visible (plain.spanAt? _) starts
  have tiling := src.tokens_tiling
  rw [tiling.tokenAfter?_eq]
  exact tiling.firstAfter?_eq member (src.text.lt_tokenAt_stop _) fun a _ before => before

theorem Plain.leader?_eq (plain : src.Plain) {st : Extent} (listed : st ∈ src.statements) :
    src.leader? st = (src.text.tokenAt st.start).keyword? := by
  rw [leader?, plain.tokenAfter?_start listed, Option.bind_some]

theorem Plain.announces_iff (plain : src.Plain) {st : Extent} (listed : st ∈ src.statements)
    {k : Keyword} (known : k ∈ Block.words) :
    src.text.Announces k st.start ↔ src.leader? st = some k := by
  rw [plain.leader?_eq listed]
  exact plain.ascii.announces_iff known

end Source
end SasLayout
