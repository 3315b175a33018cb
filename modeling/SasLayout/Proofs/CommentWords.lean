import SasLayout.Proofs.CaseBlind
import SasLayout.Proofs.CommentEdit

set_option autoImplicit false

/-!
Words beside a comment whose inside is rewritten. No character and no word reaches into a comment
from either side, so the edges of words, the starts of statements and the tokens of the code are the
same, moved with the bytes. What a closing statement before the comment ends with is not: it may be
a semicolon of the inside.
-/
namespace SasLayout

namespace Text

section Characters

open ByteArray.utf8DecodeChar?

variable {first : UInt8} {second third : Option UInt8}

theorem invalid_of_not_continuation : ∀ b, Byte.isContinuation b = false →
    isInvalidContinuationByte b = true :=
  Byte.forall_of_halves (p := fun b => Byte.isContinuation b = false →
    isInvalidContinuationByte b = true) (by decide)

/-- What stands behind a byte that goes on with no character is not looked at. -/
theorem decode_second (stops : second.any Byte.isContinuation = false)
    (third fourth : Option UInt8) :
    decode first second third fourth = decode first second none none := by
  have three (c : UInt8) : second.bind (assemble₃ first · c) = none := by
    cases second with
    | none => rfl
    | some b => simp [assemble₃, invalid_of_not_continuation b stops]
  have four (c d : UInt8) : second.bind (assemble₄ first · c d) = none := by
    cases second with
    | none => rfl
    | some b => simp [assemble₄, invalid_of_not_continuation b stops]
  unfold decode
  split
  · rfl
  · rfl
  · rfl
  · simp [three]
  · simp [four]

theorem decode_third (stops : third.any Byte.isContinuation = false) (fourth : Option UInt8) :
    decode first second third fourth = decode first second third none := by
  have four (d : UInt8) :
      (third.bind fun c => second.bind (assemble₄ first · c d)) = none := by
    cases third with
    | none => rfl
    | some c => simp [assemble₄, invalid_of_not_continuation c stops]
  unfold decode
  split
  · rfl
  · rfl
  · rfl
  · rfl
  · simp [four]

end Characters

/-- The character at the start of a window, when none goes on over its end. -/
theorem Window.char? {t u : Text} {i j n : Nat} (window : Window t u i j n) (positive : 0 < n)
    (stops : t.byteIs (i + n) Byte.isContinuation = false) : u.char? j = t.char? i := by
  obtain ⟨b, here⟩ := exists_byte (Nat.lt_of_lt_of_le (Nat.lt_add_of_pos_right positive)
    window.left)
  have there : u.byte? j = some b := (window.same 0 (Nat.zero_le n)).symm.trans here
  rw [char?_eq_decode u there, char?_eq_decode t here]
  rw [byteIs_eq_any] at stops
  rcases Nat.lt_or_ge n 3 with short | long
  · obtain rfl | rfl : n = 1 ∨ n = 2 := by omega
    · rw [← window.same 1 (Nat.le_refl 1)]
      exact (decode_second stops _ _).trans (decode_second stops _ _).symm
    · rw [← window.same 1 (by omega), ← window.same 2 (Nat.le_refl 2)]
      exact (decode_third stops _).trans (decode_third stops _).symm
  · rw [window.same 1 (by omega), window.same 2 (by omega), window.same 3 long]

theorem semicolon?_of_found {t : Text} {i k : Nat} (lower : i ≤ k)
    (here : t.byteIs k Byte.isSemicolon = true) : ∃ last ≤ k, t.semicolon? i = some last := by
  have early := seek_le_of_found lower here
  refine ⟨_, early, ?_⟩
  rw [semicolon?, if_pos (Nat.lt_of_le_of_lt early (lt_size_of_byteIs here))]

theorem skipWhiteSpace_le {t : Text} {i : Nat} (within : i ≤ t.size) :
    t.skipWhiteSpace i ≤ t.size := by
  fun_induction skipWhiteSpace t i with
  | case1 i inside white _ ih => exact ih (t.seek_le_size _ _)
  | case2 i inside visible => exact within
  | case3 i outside => exact within

end Text

/-- The same token where `f` has moved it; how an assignment target is written may differ. -/
structure Token.Follows (f : Nat → Nat) (tok other : Token) : Prop where
  kind : other.kind = tok.kind
  start : other.start = f tok.start
  stop : other.stop = f tok.stop
  lexeme : tok.kind ≠ .assignmentTarget → other.lexeme = tok.lexeme

theorem Token.follows_moved (f : Nat → Nat) (tok : Token) : tok.Follows f (tok.moved f) :=
  ⟨rfl, rfl, rfl, fun _ => rfl⟩

theorem Token.Follows.isName {f : Nat → Nat} {tok other : Token} (follows : tok.Follows f other) :
    other.isName = tok.isName := by
  unfold Token.isName
  rw [follows.kind]
  cases kind : tok.kind with
  | operator => rw [follows.lexeme (by rw [kind]; simp)]
  | _ => rfl

namespace Source

open Token

/-- The code token after an offset is the first that ends behind it. -/
theorem codeAfter?_eq_find (src : Source) (offset : Nat) :
    src.codeAfter? offset = (code src.tokens.toList).find? (offset < ·.stop) := by
  have tiling := src.tokens_tiling
  fun_induction codeAfter? src offset with
  | case1 offset absent =>
    rw [tiling.tokenAfter?_eq, firstAfter?, List.find?_eq_none] at absent
    exact (List.find?_eq_none.mpr fun tok listed => absent tok (mem_of_mem_code listed)).symm
  | case2 offset tok found bounds comment ih =>
    rw [tiling.tokenAfter?_eq, firstAfter?, List.find?_eq_some_iff_append] at found
    obtain ⟨-, front, back, whole, before⟩ := found
    rw [ih]
    refine (List.find?_congr fun other listed => decide_eq_decide.mpr ?_).symm
    obtain ⟨member, visible⟩ := List.mem_filter.mp listed
    have nonempty := tiling.nonempty other member
    rw [whole] at tiling member
    obtain ⟨-, rest, across⟩ := List.pairwise_append.mp tiling.apart
    rcases List.mem_append.mp member with earlier | later
    · have ends := across other earlier tok List.mem_cons_self
      have short : ¬ offset < other.stop := by simpa using before other earlier
      have proper := tiling.nonempty tok (by simp)
      omega
    · rcases List.mem_cons.mp later with rfl | later
      · rw [comment] at visible
        cases visible
      · have := List.rel_of_pairwise_cons rest later
        omega
  | case3 offset tok found bounds other =>
    rw [tiling.tokenAfter?_eq, firstAfter?, List.find?_eq_some_iff_append] at found
    obtain ⟨later, front, back, whole, before⟩ := found
    have passed : (code front).find? (offset < ·.stop) = none :=
      List.find?_eq_none.mpr fun a listed => by simpa using before a (mem_of_mem_code listed)
    rw [whole, code_append, code_cons (Bool.eq_false_iff.mpr other), List.find?_append, passed,
      Option.none_or]
    exact (List.find?_cons_of_pos (p := fun a : Token => decide (offset < a.stop)) later).symm

namespace Rewritten

variable {src other : Source} {s : Span} {size : Nat} (edit : Rewritten src other s size)

include edit

theorem first_slash : src.text.byteIs s.start (· == Byte.slash) = true :=
  (Bool.and_eq_true_iff.mp edit.opens).1

/-! ### Spans and the starts of statements -/

/-- A span is the comment itself, or ends before it, or stands behind it. -/
theorem span_outside {u : Span} (listed : u ∈ src.map.spans) :
    u = s ∨ u.stop ≤ s.start ∨ s.stop ≤ u.start := by
  have wide := edit.wide
  have proper := (span_fits listed).nonempty
  by_cases same : u = s
  · exact Or.inl same
  have first : ¬ (u.start ≤ s.start ∧ s.start < u.stop) := fun covers => by
    have found := spanAt?_eq_some_iff.mpr ⟨listed, covers⟩
    have own := spanAt?_eq_some_iff.mpr ⟨edit.listed, Nat.le_refl s.start, by omega⟩
    exact same (Option.some.inj (found.symm.trans own))
  have second : ¬ (s.start ≤ u.start ∧ u.start < s.stop) := fun covers => by
    have found := spanAt?_eq_some_iff.mpr ⟨edit.listed, covers⟩
    have own := spanAt?_eq_some_iff.mpr ⟨listed, Nat.le_refl u.start, proper⟩
    exact same (Option.some.inj (own.symm.trans found))
  omega

theorem spanAt? {i : Nat} (spared : i < s.start + 2 ∨ s.stop - 2 ≤ i) :
    other.map.spanAt? (s.shift size i) = (src.map.spanAt? i).map (·.moved (s.shift size)) := by
  obtain ⟨wide, -⟩ := edit.wide
  have covers {u : Span} (listed : u ∈ src.map.spans) :
      ((u.moved (s.shift size)).start ≤ s.shift size i ∧
        s.shift size i < (u.moved (s.shift size)).stop) ↔ u.start ≤ i ∧ i < u.stop := by
    have outside := edit.span_outside listed
    have proper := (span_fits listed).nonempty
    have first : s.shift size i < s.shift size u.start ↔ i < u.start :=
      Span.shift_lt_iff wide spared (by rcases outside with rfl | outside <;> omega)
    have second : s.shift size i < s.shift size u.stop ↔ i < u.stop :=
      Span.shift_lt_iff wide spared (by rcases outside with rfl | outside <;> omega)
    simp only [Span.moved]
    omega
  cases found : src.map.spanAt? i with
  | some u =>
    obtain ⟨listed, inside⟩ := spanAt?_eq_some_iff.mp found
    refine spanAt?_eq_some_iff.mpr ⟨?_, (covers listed).mpr inside⟩
    rw [edit.map]
    exact Array.mem_map_of_mem listed
  | none =>
    refine spanAt?_eq_none_iff.mpr fun u listed inside => ?_
    rw [edit.map] at listed
    obtain ⟨v, member, rfl⟩ := Array.mem_map.mp listed
    exact spanAt?_eq_none_iff.mp found v member ((covers member).mp inside)

/-- The way back over blanks does not reach into the comment. -/
theorem seekBack {i : Nat} (outside : i ≤ s.start ∨ s.stop ≤ i) :
    other.text.seekBack (!Byte.isBlank ·) (s.shift size i) =
        s.shift size (src.text.seekBack (!Byte.isBlank ·) i) ∧
      (src.text.seekBack (!Byte.isBlank ·) i ≤ s.start ∨
        s.stop ≤ src.text.seekBack (!Byte.isBlank ·) i) := by
  have ⟨wide, bound⟩ := edit.wide
  induction i with
  | zero =>
    rw [Span.shift_before (by omega), Text.seekBack, Text.seekBack, Span.shift_before (by omega)]
    exact ⟨rfl, Or.inl (Nat.zero_le _)⟩
  | succ i ih =>
    have moves : s.shift size (i + 1) = s.shift size i + 1 := edit.shift_add (by omega)
    have same := edit.byteIs (i := i) (by omega) (!Byte.isBlank ·)
    rw [moves, Text.seekBack, Text.seekBack, same]
    split
    · exact ⟨moves.symm, outside⟩
    · rename_i blank
      apply ih
      -- the last sign of the comment is visible
      have apart : i + 1 ≠ s.stop := by
        intro last
        apply blank
        have slash := (Text.commentClose?_sign edit.ends).2
        rw [← last, Nat.add_sub_cancel] at slash
        refine Text.byteIs_mono slash fun b held => ?_
        rw [eq_of_beq held]
        decide
      omega

theorem startsStatement {i : Nat} (outside : i ≤ s.start ∨ s.stop ≤ i) :
    other.startsStatement (s.shift size i) = src.startsStatement i := by
  have ⟨wide, bound⟩ := edit.wide
  induction i using Nat.strongRecOn with
  | ind i ih =>
    obtain ⟨back, still⟩ := edit.seekBack outside
    rw [startsStatement_eq_match, startsStatement_eq_match, back]
    have earlier := src.text.seekBack_le (!Byte.isBlank ·) i
    cases last : src.text.seekBack (!Byte.isBlank ·) i with
    | zero => rw [Span.shift_before (by omega)]
    | succ k =>
      rw [last] at still earlier
      have spared : k < s.start + 2 ∨ s.stop - 2 ≤ k := by omega
      rw [edit.shift_add (i := k) (n := 1) (by omega)]
      simp only [edit.spanAt? spared, edit.byteIs spared]
      cases covered : src.map.spanAt? k with
      | none => rfl
      | some u =>
        obtain ⟨listed, lower, upper⟩ := spanAt?_eq_some_iff.mp covered
        have aside := edit.span_outside listed
        have next := ih u.start (by omega) (by rcases aside with rfl | aside <;> omega)
        simp only [Option.map_some, Span.moved_isComment]
        rw [show (u.moved (s.shift size)).start = s.shift size u.start from rfl, next]
        rfl

theorem isStatementStart {i : Nat} (outside : i ≤ s.start ∨ s.stop ≤ i)
    (within : i ≤ src.text.size) :
    other.isStatementStart (s.shift size i) = src.isStatementStart i := by
  have ⟨wide, bound⟩ := edit.wide
  have order : s.shift size src.text.size < s.shift size i ↔ src.text.size < i :=
    Span.shift_lt_iff wide (by omega) (by omega)
  have there : s.shift size i ≤ other.size := by
    rw [Source.size, edit.total]
    omega
  rw [Source.isStatementStart, Source.isStatementStart, Nat.min_eq_left there,
    Nat.min_eq_left (show i ≤ src.size from within), edit.startsStatement outside]

/-! ### Characters and words -/

theorem char? {i : Nat} (spared : i < s.start + 2 ∨ s.stop - 2 ≤ i) :
    other.text.char? (s.shift size i) = src.text.char? i := by
  obtain ⟨wide, bound⟩ := edit.wide
  have same := edit.byte? spared
  cases here : src.text.byte? i with
  | none =>
    rw [here] at same
    rw [Text.char?_past _ (Text.byte?_eq_none_iff.mp here),
      Text.char?_past _ (Text.byte?_eq_none_iff.mp same)]
  | some b =>
    rw [here] at same
    have inside := Text.lt_size_of_byte? here
    have sign {c : UInt8} (held : src.text.byteIs i (· == c) = true)
        (ascii : (c &&& 128 == 0) = true) :
        other.text.char? (s.shift size i) = src.text.char? i := by
      obtain rfl : b = c := by
        rw [Text.byteIs_of_byte? here] at held
        exact eq_of_beq held
      rw [Text.char?_eq_decode _ here, Text.char?_eq_decode _ same, Text.decode_ascii ascii,
        Text.decode_ascii ascii]
    by_cases outside : i < s.start ∨ s.stop ≤ i
    · obtain ⟨n, window, reach⟩ := edit.window (by omega) (Nat.le_of_lt inside)
      refine window.char? (by omega) ?_
      exact Text.byteIs_anti (edit.window_ends reach).1 (Byte.forall_of_halves
        (p := fun b => Byte.isContinuation b = true → Byte.isInner b = true) (by decide))
    · -- the byte is one of the four signs of the comment
      obtain ⟨star, slash⟩ := Text.commentClose?_sign edit.ends
      obtain ⟨slash', star'⟩ := Bool.and_eq_true_iff.mp edit.opens
      obtain rfl | rfl | last | last :
          i = s.start ∨ i = s.start + 1 ∨ i = s.stop - 2 ∨ i = s.stop - 1 := by omega
      · exact sign slash' (by decide)
      · exact sign star' (by decide)
      · exact sign (last ▸ star) (by decide)
      · exact sign (last ▸ slash) (by decide)

theorem charBefore? {i : Nat} (outside : i ≤ s.start ∨ s.stop ≤ i) :
    other.text.charBefore? (s.shift size i) = src.text.charBefore? i := by
  obtain ⟨wide, bound⟩ := edit.wide
  cases i with
  | zero => rw [Span.shift_before (by omega)]; rfl
  | succ i =>
    have moves : s.shift size (i + 1) = s.shift size i + 1 := edit.shift_add (by omega)
    have whole := edit.isBoundary (i := i + 1) (by omega)
    obtain ⟨floor, still⟩ := edit.floor (i := i) (by omega)
    rw [moves] at whole ⊢
    simp only [Text.charBefore?, whole, Nat.add_sub_cancel, floor, edit.char? still,
      Nat.add_one_ne_zero]

theorem isWordEdge {i : Nat} (outside : i ≤ s.start ∨ s.stop ≤ i) :
    other.text.isWordEdge (s.shift size i) = src.text.isWordEdge i := by
  have wide := edit.wide
  rw [Text.isWordEdge, Text.isWordEdge, edit.charBefore? outside, edit.char? (by omega)]

/-- No letter but a slash stands where the comment starts. -/
theorem first_letter {b : UInt8} (letter : (b != Byte.slash) = true) :
    src.text.byteIs s.start (Byte.lower · == b) = false := by
  refine Text.byteIs_apart edit.first_slash fun c same => ?_
  rw [eq_of_beq same, beq_eq_false_iff_ne]
  exact (bne_iff_ne.mp letter).symm

variable {word : List UInt8} (bare : word.all (· != Byte.slash) = true)

include bare

theorem startsWithLower {i : Nat} (outside : i ≤ s.start ∨ s.stop ≤ i) :
    other.text.startsWithLower (s.shift size i) word = src.text.startsWithLower i word := by
  have wide := edit.wide
  induction word generalizing i with
  | nil => rfl
  | cons b rest ih =>
    rw [List.all_cons, Bool.and_eq_true] at bare
    rw [Text.startsWithLower, Text.startsWithLower, edit.byteIs (by omega)]
    by_cases sign : i = s.start
    · -- no letter of the word is the first sign of the comment
      rw [sign, edit.first_letter bare.1, Bool.false_and, Bool.false_and]
    · rw [← edit.shift_add (by omega), ih bare.2 (by omega)]

/-- A word that stands before the comment ends before it. -/
theorem word_outside {i : Nat} (outside : i < s.start ∨ s.stop ≤ i)
    (stands : src.text.startsWithLower i word = true) :
    i + word.length ≤ s.start ∨ s.stop ≤ i := by
  by_contra longer
  have inside : s.start - i < word.length := by omega
  have here := Text.startsWithLower_getElem stands (List.getElem?_eq_getElem inside)
  have letter := List.all_eq_true.mp bare _ (List.getElem_mem inside)
  rw [Nat.add_sub_cancel' (by omega), edit.first_letter letter] at here
  cases here

theorem signWordAt {i : Nat} (outside : i < s.start ∨ s.stop ≤ i) :
    other.text.signWordAt word (s.shift size i) = src.text.signWordAt word i := by
  rw [Text.signWordAt, Text.signWordAt, edit.startsWithLower bare (by omega)]
  cases stands : src.text.startsWithLower i word with
  | false => rfl
  | true =>
    have ends := edit.word_outside bare outside stands
    rw [← edit.shift_add (by omega), edit.isWordEdge (by omega)]

theorem wholeWordAt {i : Nat} (outside : i < s.start ∨ s.stop ≤ i) :
    other.text.wholeWordAt word (s.shift size i) = src.text.wholeWordAt word i := by
  have behind := edit.signWordAt bare outside
  rw [Text.signWordAt, Text.signWordAt] at behind
  rw [Text.wholeWordAt, Text.wholeWordAt, Bool.and_right_comm, behind, Bool.and_right_comm,
    edit.isWordEdge (by omega)]

omit bare

/-! ### What follows a word -/

/-- An offset of the other text that is outside the comment is where another one went. -/
theorem exists_shift {j : Nat} (outside : j < s.start ∨ s.shift size s.stop ≤ j) :
    ∃ i, (i < s.start ∨ s.stop ≤ i) ∧ s.shift size i = j := by
  obtain ⟨wide, -⟩ := edit.wide
  rcases outside with before | behind
  · exact ⟨j, Or.inl before, Span.shift_before (by omega)⟩
  · obtain ⟨n, rfl⟩ := Nat.exists_eq_add_of_le behind
    exact ⟨s.stop + n, Or.inr (Nat.le_add_right _ _), edit.shift_add (Or.inr (by omega))⟩

/-- The first semicolon is the same in both texts if in neither it stands in the comment. -/
theorem semicolon? {i : Nat} (spared : i < s.start + 2 ∨ s.stop - 2 ≤ i)
    (here : ∀ last ∈ src.text.semicolon? i, last < s.start ∨ s.stop ≤ last)
    (there : ∀ last ∈ other.text.semicolon? (s.shift size i),
      last < s.start ∨ s.shift size s.stop ≤ last) :
    other.text.semicolon? (s.shift size i) = (src.text.semicolon? i).map (s.shift size) := by
  obtain ⟨wide, -⟩ := edit.wide
  have order {j k : Nat} (first : j < s.start + 2 ∨ s.stop - 2 ≤ j)
      (second : k < s.start ∨ s.stop ≤ k) : s.shift size k < s.shift size j ↔ k < j :=
    Span.shift_lt_iff wide (by omega) first
  have onward {last : Nat} (found : src.text.semicolon? i = some last) :
      ∃ last' ≤ s.shift size last, other.text.semicolon? (s.shift size i) = some last' := by
    obtain ⟨later, semicolon, -⟩ := Text.semicolon?_eq_some_iff.mp found
    have outside := here last found
    have ahead := order spared outside
    rw [← edit.byteIs (by omega)] at semicolon
    exact Text.semicolon?_of_found (by omega) semicolon
  have back {last : Nat} (outside : last < s.start ∨ s.stop ≤ last)
      (found : other.text.semicolon? (s.shift size i) = some (s.shift size last)) :
      ∃ first ≤ last, src.text.semicolon? i = some first := by
    obtain ⟨later, semicolon, -⟩ := Text.semicolon?_eq_some_iff.mp found
    have ahead := order spared outside
    rw [edit.byteIs (by omega)] at semicolon
    exact Text.semicolon?_of_found (by omega) semicolon
  cases found : src.text.semicolon? i with
  | none =>
    cases found' : other.text.semicolon? (s.shift size i) with
    | none => rfl
    | some last' =>
      obtain ⟨last, outside, rfl⟩ := edit.exists_shift (there last' found')
      obtain ⟨first, -, same⟩ := back outside found'
      cases found.symm.trans same
  | some last =>
    obtain ⟨last', early, found'⟩ := onward found
    obtain ⟨next, outside, rfl⟩ := edit.exists_shift (there last' found')
    obtain ⟨first, late, same⟩ := back outside found'
    cases found.symm.trans same
    have ahead := order (j := next) (by omega) (here last found)
    obtain rfl : next = last := by omega
    exact found'

section Behind

-- From the end of the comment on the two texts are the same up to their ends.
variable {i : Nat} (behind : s.stop ≤ i) (within : i ≤ src.text.size)

include behind within

theorem seek_behind (p : UInt8 → Bool) :
    other.text.seek p (s.shift size i) = s.shift size (src.text.seek p i) := by
  have wide := edit.wide
  obtain ⟨n, window, reach⟩ := edit.window (Or.inr behind) within
  have past : src.text.byteIs (i + n) (!p ·) = false := Text.byteIs_past (by omega) _
  obtain ⟨m, bound, left, right⟩ := window.seek past
  rw [left, right, edit.shift_window reach bound]

theorem skipWhiteSpace :
    other.text.skipWhiteSpace (s.shift size i) = s.shift size (src.text.skipWhiteSpace i) := by
  have wide := edit.wide
  fun_induction Text.skipWhiteSpace src.text i with
  | case1 i inside white _ ih =>
    have later := src.text.lt_next i inside
    have there : s.shift size i < other.text.size := by
      rw [edit.total]
      exact (Span.shift_lt_iff wide.1 (by omega) (by omega)).mpr inside
    have next : other.text.next (s.shift size i) = s.shift size (src.text.next i) := by
      rw [Text.next, ← edit.shift_add (by omega)]
      exact edit.seek_behind (by omega) inside _
    rw [Text.skipWhiteSpace, dif_pos there, edit.char? (by omega), if_pos white, next]
    exact ih (by omega) (src.text.seek_le_size _ _)
  | case2 i inside visible =>
    have there : s.shift size i < other.text.size := by
      rw [edit.total]
      exact (Span.shift_lt_iff wide.1 (by omega) (by omega)).mpr inside
    rw [Text.skipWhiteSpace, dif_pos there, edit.char? (by omega), if_neg visible]
  | case3 i outside =>
    rw [Text.skipWhiteSpace, dif_neg]
    have past := edit.past_shift (Nat.le_of_not_lt outside)
    omega

theorem closerStop? :
    other.text.closerStop? (s.shift size i) =
      (src.text.closerStop? i).map (s.shift size) := by
  have wide := edit.wide
  have skipped := src.text.le_skipWhiteSpace i
  have inside := Text.skipWhiteSpace_le within
  have sought := src.text.le_seek (fun b => Byte.isSemicolon b || Byte.isNewline b)
    (src.text.skipWhiteSpace i) inside
  simp only [Text.closerStop?, edit.skipWhiteSpace behind within,
    edit.seek_behind (Nat.le_trans behind skipped) inside]
  rw [edit.byteIs (by omega), edit.byteIs (by omega)]
  split
  · rw [Option.map_some, edit.shift_add (by omega)]
  · rfl

end Behind

/-! ### Tokens -/

/-- A token of the code ends before the comment or stands behind it. -/
theorem code_outside {tok : Token} (listed : tok ∈ code src.tokens.toList) :
    tok.stop ≤ s.start ∨ s.stop ≤ tok.start := by
  obtain ⟨member, visible⟩ := List.mem_filter.mp listed
  have span := src.tokens_tiling.span_mem edit.listed
  obtain ⟨front, back, whole, before, after⟩ := src.tokens_tiling.split member
  rw [whole] at span
  rcases List.mem_append.mp span with earlier | later
  · exact Or.inr (before _ earlier)
  rcases List.mem_cons.mp later with same | later
  · have comment : s.isComment = true := by
      rw [Span.isComment, Span.region, edit.kind]
      rfl
    rw [← same, spanToken_comment comment] at visible
    cases visible
  · exact Or.inl (after _ later)

theorem codeAfter? {offset : Nat} (spared : offset < s.start + 2 ∨ s.stop - 2 ≤ offset) :
    other.codeAfter? (s.shift size offset) =
      (src.codeAfter? offset).map (·.moved (s.shift size)) := by
  obtain ⟨wide, -⟩ := edit.wide
  rw [codeAfter?_eq_find, codeAfter?_eq_find, edit.code_tokens, List.find?_map]
  congr 1
  refine List.find?_congr fun tok listed => decide_eq_decide.mpr ?_
  have outside := edit.code_outside listed
  have proper := src.tokens_tiling.nonempty tok (mem_of_mem_code listed)
  exact Span.shift_lt_iff wide spared (by omega)

/-- The logical token that begins with a token of the code. -/
theorem resolve {tok : Token} (listed : tok ∈ code src.tokens.toList) :
    (src.resolve tok).Follows (s.shift size) (other.resolve (tok.moved (s.shift size))) ∧
      ((src.resolve tok).stop ≤ s.start ∨ s.stop ≤ (src.resolve tok).stop) := by
  have outside {tok : Token} (listed : tok ∈ code src.tokens.toList) :
      tok.stop ≤ s.start ∨ s.stop ≤ tok.stop :=
    (edit.code_outside listed).imp_right fun behind => Nat.le_trans behind
      (Nat.le_of_lt (src.tokens_tiling.nonempty tok (mem_of_mem_code listed)))
  have ends := outside listed
  have next : other.codeAfter? (s.shift size tok.stop) = _ :=
    edit.codeAfter? (by have := edit.wide; omega)
  have following (p : Token.Kind → Bool) :
      (other.codeAfter? (s.shift size tok.stop)).any (fun next => p next.kind) =
        (src.codeAfter? tok.stop).any fun next => p next.kind := by
    rw [next, Option.any_map]
    rfl
  unfold Source.resolve
  rw [show (tok.moved (s.shift size)).keyword? = tok.keyword? from rfl,
    show (tok.moved (s.shift size)).stop = s.shift size tok.stop from rfl]
  split
  · rw [next]
    cases found : src.codeAfter? tok.stop with
    | none => exact ⟨follows_moved _ _, ends⟩
    | some after =>
      simp only [Option.map_some]
      rw [show (after.moved (s.shift size)).isEquals = after.isEquals from rfl]
      have both := outside (mem_code_of_codeAfter? found)
      split
      · exact ⟨⟨rfl, rfl, rfl, fun other => absurd rfl other⟩, both⟩
      · exact ⟨follows_moved _ _, ends⟩
  · rw [following (· = .statementEnd)]
    split
    · exact ⟨⟨rfl, rfl, rfl, fun _ => rfl⟩, ends⟩
    · exact ⟨follows_moved _ _, ends⟩
  · rw [following fun kind => kind = .statementEnd || kind = .openParen]
    split
    · exact ⟨follows_moved _ _, ends⟩
    · exact ⟨⟨rfl, rfl, rfl, fun _ => rfl⟩, ends⟩
  · exact ⟨follows_moved _ _, ends⟩

/-- There is a logical token after an offset in both texts or in neither. -/
theorem logicalToken? {offset : Nat} (spared : offset < s.start + 2 ∨ s.stop - 2 ≤ offset) :
    (src.logicalToken? offset .forward = none ∧
      other.logicalToken? (s.shift size offset) .forward = none) ∨
    ∃ tok next, src.logicalToken? offset .forward = some tok ∧
      other.logicalToken? (s.shift size offset) .forward = some next ∧
      tok.Follows (s.shift size) next ∧ (tok.start < s.start ∨ s.stop ≤ tok.start) ∧
      (tok.stop ≤ s.start ∨ s.stop ≤ tok.stop) := by
  have ⟨wide, bound⟩ := edit.wide
  have order : s.shift size src.text.size < s.shift size offset ↔ src.text.size < offset :=
    Span.shift_lt_iff wide (by omega) spared
  obtain ⟨floor, still⟩ := edit.floor spared
  rw [Source.logicalToken?, Source.logicalToken?, Source.size, Source.size, edit.total]
  by_cases past : src.text.size < offset
  · rw [if_pos past, if_pos (order.mpr past)]
    exact Or.inl ⟨rfl, rfl⟩
  rw [if_neg past, if_neg (mt order.mp past), logicalAfter?, logicalAfter?, floor,
    edit.codeAfter? still]
  cases found : src.codeAfter? (src.text.floor offset) with
  | none => exact Or.inl ⟨rfl, rfl⟩
  | some tok =>
    have listed := mem_code_of_codeAfter? found
    obtain ⟨follows, ends⟩ := edit.resolve listed
    refine Or.inr ⟨_, _, rfl, rfl, follows, ?_, ends⟩
    rw [resolve_start]
    have outside := edit.code_outside listed
    have proper := src.tokens_tiling.nonempty tok (mem_of_mem_code listed)
    omega

/-- A logical token starts at an offset in both texts or in neither. -/
theorem logicalAt? {offset : Nat} (spared : offset < s.start + 2 ∨ s.stop - 2 ≤ offset) :
    (src.logicalAt? offset = none ∧ other.logicalAt? (s.shift size offset) = none) ∨
    ∃ tok next, src.logicalAt? offset = some tok ∧
      other.logicalAt? (s.shift size offset) = some next ∧
      tok.Follows (s.shift size) next ∧ (tok.stop ≤ s.start ∨ s.stop ≤ tok.stop) := by
  rw [Source.logicalAt?, Source.logicalAt?]
  rcases edit.logicalToken? spared with
    ⟨here, there⟩ | ⟨tok, next, here, there, follows, starts, ends⟩
  · rw [here, there]
    exact Or.inl ⟨rfl, rfl⟩
  have start : next.start = s.shift size offset ↔ tok.start = offset := by
    rw [follows.start]
    have less : s.shift size tok.start < s.shift size offset ↔ tok.start < offset :=
      Span.shift_lt_iff edit.wide.1 (by omega) spared
    have more : s.shift size offset < s.shift size tok.start ↔ offset < tok.start :=
      Span.shift_lt_iff edit.wide.1 spared (by omega)
    omega
  rw [here, there]
  by_cases same : tok.start = offset
  · exact Or.inr ⟨tok, next, Option.filter_some_pos (by simpa using same),
      Option.filter_some_pos (by simpa using start.mpr same), follows, ends⟩
  · exact Or.inl ⟨Option.filter_some_neg (by simpa using same),
      Option.filter_some_neg (by simpa using mt start.mp same)⟩

end Rewritten

end Source

end SasLayout
