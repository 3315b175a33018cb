import Mathlib.Data.List.Find
import SasLayout.Proofs.Lexeme
import SasLayout.Proofs.SpanPass

set_option autoImplicit false

/-!
What the lexer looks at. Where two texts show the same bytes over a window, a search, a span and a
code token that end within it come out the same in both, each counted from the window's start.
-/
namespace SasLayout.Text

/-- The texts show the same bytes from `i` and from `j` on, up to and with the one `n` further; a
window may end where both texts end. -/
structure Window (t u : Text) (i j n : Nat) : Prop where
  left : i + n ≤ t.size
  right : j + n ≤ u.size
  same : ∀ k ≤ n, t.byte? (i + k) = u.byte? (j + k)

namespace Window

variable {t u : Text} {i j n : Nat}

theorem byteIs (window : Window t u i j n) {k : Nat} (within : k ≤ n) (p : UInt8 → Bool) :
    t.byteIs (i + k) p = u.byteIs (j + k) p := by
  rw [byteIs_eq_any, byteIs_eq_any, window.same k within]

theorem byteIs_first (window : Window t u i j n) (p : UInt8 → Bool) :
    t.byteIs i p = u.byteIs j p :=
  window.byteIs (Nat.zero_le n) p

theorem lt_size_iff (window : Window t u i j n) {k : Nat} (within : k ≤ n) :
    i + k < t.size ↔ j + k < u.size := by
  rw [← Nat.not_le, ← Nat.not_le, ← byte?_eq_none_iff, ← byte?_eq_none_iff, window.same k within]

theorem drop (window : Window t u i j n) {k : Nat} (within : k ≤ n) :
    Window t u (i + k) (j + k) (n - k) where
  left := by have := window.left; omega
  right := by have := window.right; omega
  same m bound := by
    rw [Nat.add_assoc, Nat.add_assoc]
    exact window.same (k + m) (by omega)

theorem cons (same : t.byte? i = u.byte? j) (rest : Window t u (i + 1) (j + 1) n) :
    Window t u i j (n + 1) where
  left := by have := rest.left; omega
  right := by have := rest.right; omega
  same k within := by
    cases k with
    | zero => exact same
    | succ k =>
      rw [Nat.add_comm k, ← Nat.add_assoc, ← Nat.add_assoc]
      exact rest.same k (by omega)

theorem tail (window : Window t u i j (n + 1)) : Window t u (i + 1) (j + 1) n :=
  window.drop (k := 1) (by omega)

theorem slice (window : Window t u i j n) {m : Nat} (within : m ≤ n) :
    t.slice i (i + m) = u.slice j (j + m) := by
  apply ext_toList
  rw [toList_slice, toList_slice]
  apply List.ext_getElem?
  intro k
  rw [List.getElem?_drop, List.getElem?_drop, List.getElem?_take, List.getElem?_take]
  by_cases short : k < m
  · rw [if_pos (by omega), if_pos (by omega), ← byte?_eq_getElem?, ← byte?_eq_getElem?]
    exact window.same k (by omega)
  · rw [if_neg (by omega), if_neg (by omega)]

/-- A search that must end within the window. -/
theorem seek {p : UInt8 → Bool} (window : Window t u i j n)
    (ends : t.byteIs (i + n) (!p ·) = false) :
    ∃ m ≤ n, t.seek p i = i + m ∧ u.seek p j = j + m := by
  induction n generalizing i j with
  | zero =>
    refine ⟨0, Nat.le_refl 0, seek_eq_self window.left ends, ?_⟩
    rw [window.byteIs (Nat.le_refl 0)] at ends
    exact seek_eq_self window.right ends
  | succ n ih =>
    have first := window.byteIs_first p
    have left := window.left
    have right := window.right
    cases here : t.byteIs i p with
    | true =>
      refine ⟨0, Nat.zero_le _, ?_, ?_⟩
      · rw [Text.seek, if_pos (by omega), if_pos here, Nat.add_zero]
      · rw [Text.seek, if_pos (by omega), if_pos (first ▸ here), Nat.add_zero]
    | false =>
      obtain ⟨m, bound, found, other⟩ := ih window.tail (by rwa [Nat.add_right_comm])
      refine ⟨m + 1, by omega, ?_, ?_⟩
      · rw [Text.seek, if_pos (by omega), if_neg (by simp [here]), found]
        omega
      · rw [Text.seek, if_pos (by omega), if_neg (by simp [← first, here]), other]
        omega

theorem startsNumber (window : Window t u i j n) (positive : 0 < n) :
    t.startsNumber i = u.startsNumber j := by
  rw [Text.startsNumber, Text.startsNumber, window.byteIs_first, window.byteIs_first,
    window.byteIs positive]

theorem allBetween (window : Window t u i j n) {m : Nat} (within : m ≤ n) (p : UInt8 → Bool) :
    t.allBetween p i (i + m) = u.allBetween p j (j + m) := by
  rw [Text.allBetween, Text.allBetween, Nat.add_sub_cancel_left, Nat.add_sub_cancel_left,
    List.range'_eq_map_range, List.range'_eq_map_range, List.all_map, List.all_map,
    Bool.eq_iff_iff, List.all_eq_true, List.all_eq_true]
  refine forall₂_congr fun k listed => ?_
  rw [Function.comp_apply, Function.comp_apply,
    window.byteIs (by have := List.mem_range.mp listed; omega)]

/-- An offset where a byte of a token may stand lies before one where none does. -/
theorem lt_of_inner {p : UInt8 → Bool} {k : Nat} (ends : t.byteIs (i + n) Byte.isInner = false)
    (within : k ≤ n) (here : t.byteIs (i + k) p = true)
    (inner : ∀ b, p b = true → Byte.isInner b = true) : k < n := by
  apply Nat.lt_of_le_of_ne within
  rintro rfl
  rw [byteIs_mono here inner] at ends
  cases ends

section Code

-- A window over all that the lexer sees of a code token: it reaches up to a byte that stands in no
-- token but as the first.
variable (window : Window t u i j n) (ends : t.byteIs (i + n) Byte.isInner = false)

include window ends

theorem wordStop {k : Nat} (within : k ≤ n) :
    ∃ m ≤ n, t.wordStop (i + k) = i + m ∧ u.wordStop (j + k) = j + m := by
  have stops : t.byteIs (i + k + (n - k)) (!(!Byte.isWord ·) ·) = false := by
    rw [show i + k + (n - k) = i + n by omega]
    simpa using byteIs_anti ends Byte.isInner_of_isWord
  obtain ⟨m, bound, found, other⟩ := (window.drop within).seek stops
  refine ⟨k + m, by omega, ?_, ?_⟩
  · rw [Text.wordStop, found, Nat.add_assoc]
  · rw [Text.wordStop, other, Nat.add_assoc]

theorem startsWith_inner {word : List UInt8} (inner : word.all Byte.isInner = true) :
    t.startsWith i word = u.startsWith j word := by
  induction word generalizing i j n with
  | nil => rfl
  | cons b rest ih =>
    rw [List.all_cons, Bool.and_eq_true] at inner
    rw [startsWith, startsWith, window.byteIs_first]
    cases n with
    | zero =>
      have fails : t.byteIs i (· == b) = false :=
        byteIs_anti ends fun c same => eq_of_beq same ▸ inner.1
      rw [window.byteIs_first] at fails
      rw [fails, Bool.false_and, Bool.false_and]
    | succ n => rw [ih window.tail (by rwa [Nat.add_right_comm]) inner.2]

theorem signLength? (positive : 0 < n) : t.signLength? i = u.signLength? j := by
  rw [Text.signLength?, Text.signLength?]
  congr 1
  apply List.find?_congr
  intro sign listed
  cases sign with
  | nil => rfl
  | cons b rest =>
    obtain ⟨n, rfl⟩ := Nat.exists_eq_add_one.mpr positive
    have inner : rest.all Byte.isInner = true := by
      have tail := List.all_eq_true.mp (Bool.and_eq_true_iff.mp (signBytes_tail _ listed)).1
      exact List.all_eq_true.mpr fun b later => Byte.isInner_of_isTail b (tail b later)
    rw [startsWith, startsWith, window.byteIs_first,
      window.tail.startsWith_inner (by rwa [Nat.add_right_comm]) inner]

theorem isExponentSign {k : Nat} (positive : 0 < k) (within : k ≤ n) :
    t.isExponentSign i (i + k) = u.isExponentSign j (j + k) := by
  rcases Nat.eq_or_lt_of_le within with rfl | more
  · have other : t.byteIs (i + k) Byte.isSign = false :=
      byteIs_anti ends Byte.isInner_of_isSign
    simp only [Text.isExponentSign, ← window.byteIs within, other, Bool.false_and]
  · obtain ⟨k, rfl⟩ := Nat.exists_eq_add_one.mpr positive
    simp only [Text.isExponentSign, ← Nat.add_assoc, Nat.add_sub_cancel]
    rw [window.allBetween (by omega), window.byteIs (k := k) (by omega), Nat.add_assoc i,
      Nat.add_assoc j, window.byteIs within, Nat.add_assoc i, Nat.add_assoc j, window.byteIs more]

theorem numberStop {k : Nat} (positive : 0 < k) (within : k ≤ n) :
    ∃ m ≤ n, t.numberStop i (i + k) = i + m ∧ u.numberStop j (j + k) = j + m := by
  induction left : n - k using Nat.strongRecOn generalizing k with
  | ind left ih =>
    rw [numberStop.eq_def t i (i + k), numberStop.eq_def u j (j + k),
      ← window.byteIs within, ← window.isExponentSign ends positive within]
    simp only [← window.lt_size_iff within]
    split
    · split
      · rename_i letter
        have more := lt_of_inner ends within letter Byte.isInner_of_isNumber
        exact ih (n - (k + 1)) (by omega) (by omega) (by omega) rfl
      · split
        · rename_i exponent
          simp only [Text.isExponentSign, Bool.and_eq_true] at exponent
          obtain ⟨⟨⟨sign, -⟩, -⟩, digit⟩ := exponent
          have more := lt_of_inner ends within sign Byte.isInner_of_isSign
          have still := lt_of_inner ends (k := k + 1) more digit
            fun b held => Byte.isInner_of_isWord b (Byte.isWord_of_isDigit held)
          exact ih (n - (k + 2)) (by omega) (by omega) (by omega) rfl
        · exact ⟨k, within, rfl, rfl⟩
    · exact ⟨k, within, rfl, rfl⟩

theorem macroVariableStop? :
    (t.macroVariableStop? i = none ∧ u.macroVariableStop? j = none) ∨
      ∃ m ≤ n, t.macroVariableStop? i = some (i + m) ∧ u.macroVariableStop? j = some (j + m) := by
  have stops : t.byteIs (i + n) (!(· != Byte.ampersand) ·) = false :=
    byteIs_anti ends fun b same => by
      obtain rfl : b = Byte.ampersand := by simpa using same
      decide
  obtain ⟨a, named, found, other⟩ := window.seek stops
  obtain ⟨m, bound, ended, otherEnded⟩ := window.wordStop ends named
  simp only [Text.macroVariableStop?, found, other, ended, otherEnded, ← window.byteIs_first,
    ← window.byteIs named, ← window.byteIs bound]
  split
  · right
    split
    · rename_i dot
      have more := lt_of_inner ends bound dot
        fun b held => Byte.isInner_of_isNumber b (by rw [held, Bool.or_true])
      exact ⟨m + 1, more, rfl, rfl⟩
    · exact ⟨m, bound, rfl, rfl⟩
  · exact Or.inl ⟨rfl, rfl⟩

/-- The token is the same in both texts. -/
theorem shapeAt (positive : 0 < n) :
    ∃ kind, ∃ m ≤ n, t.shapeAt i = (kind, i + m) ∧ u.shapeAt j = (kind, j + m) := by
  rw [Text.shapeAt, Text.shapeAt, ← window.startsNumber positive,
    ← window.signLength? ends positive]
  simp only [← window.byteIs_first, ← window.byteIs (k := 1) positive]
  split
  · obtain ⟨m, bound, found, other⟩ := window.numberStop ends (k := 1) (by omega) positive
    exact ⟨_, m, bound, by rw [found], by rw [other]⟩
  split
  · obtain ⟨m, bound, found, other⟩ := window.wordStop ends (k := 0) (Nat.zero_le n)
    rw [Nat.add_zero] at found other
    exact ⟨_, m, bound, by rw [found], by rw [other, window.slice bound]⟩
  split
  · obtain ⟨m, bound, found, other⟩ := window.wordStop ends (k := 1) positive
    exact ⟨_, m, bound, by rw [found], by rw [other, window.slice bound]⟩
  rcases window.macroVariableStop? ends with ⟨absent, other⟩ | ⟨m, bound, found, other⟩
  · rw [absent, other]
    simp only
    split
    · exact ⟨_, 1, positive, rfl, rfl⟩
    split
    · exact ⟨_, 1, positive, rfl, rfl⟩
    split
    · exact ⟨_, 1, positive, rfl, rfl⟩
    split
    · exact ⟨_, _, signLength?_le ‹_› positive ends, rfl, rfl⟩
    · exact ⟨_, 1, positive, rfl, rfl⟩
  · rw [found, other]
    exact ⟨_, m, bound, rfl, rfl⟩

end Code

section Closing

theorem le_commentClose {k : Nat} (within : k ≤ t.size) :
    k ≤ (t.commentClose? k).getD t.size := by
  cases found : t.commentClose? k with
  | none => exact within
  | some stop => exact Nat.le_trans (by omega) (commentClose?_bounds found).1

theorem le_quoteClose (quote : UInt8) {k : Nat} (within : k ≤ t.size) :
    k ≤ (t.quoteClose? quote k).getD t.size := by
  cases found : t.quoteClose? quote k with
  | none => exact within
  | some stop => exact Nat.le_of_lt (quoteClose?_bounds found).1

variable (window : Window t u i j n)

include window

theorem first_inside (inside : i < t.size) : j < u.size :=
  (window.lt_size_iff (Nat.zero_le n)).mp inside

theorem first_outside (outside : ¬ i < t.size) : ¬ j < u.size :=
  mt (window.lt_size_iff (Nat.zero_le n)).mpr outside

/-- A comment that closes at the end of the window, or not at all when the text ends there. -/
theorem commentClose? (reach : (t.commentClose? i).getD t.size = i + n) :
    u.commentClose? j = (t.commentClose? i).map fun _ => j + n := by
  fun_induction Text.commentClose? t i generalizing j n with
  | case1 i inside both =>
    obtain rfl : n = 2 := by simpa using reach.symm
    rw [window.byteIs_first, window.byteIs (k := 1) (by omega)] at both
    rw [Text.commentClose?, if_pos (window.first_inside inside), if_pos both, Option.map_some]
  | case2 i inside goes ih =>
    have more := le_commentClose (t := t) (k := i + 1) inside
    obtain ⟨n, rfl⟩ := Nat.exists_eq_add_one.mpr (show 0 < n by omega)
    rw [window.byteIs_first, window.byteIs (k := 1) (by omega)] at goes
    rw [Text.commentClose?, if_pos (window.first_inside inside), if_neg goes,
      ih window.tail (by omega), Nat.add_right_comm, Nat.add_assoc]
  | case3 i outside =>
    rw [Text.commentClose?, if_neg (window.first_outside outside), Option.map_none]

theorem quoteClose? {quote : UInt8} (reach : (t.quoteClose? quote i).getD t.size = i + n) :
    u.quoteClose? quote j = (t.quoteClose? quote i).map fun _ => j + n := by
  fun_induction Text.quoteClose? t quote i generalizing j n with
  | case1 i inside here twice ih =>
    have more := le_quoteClose (t := t) quote (k := i + 2) (lt_size_of_byteIs twice)
    have shorter := window.drop (k := 2) (by omega)
    rw [window.byteIs_first] at here
    rw [window.byteIs (k := 1) (by omega)] at twice
    rw [Text.quoteClose?, if_pos (window.first_inside inside), if_pos here, if_pos twice,
      ih shorter (by omega), show j + 2 + (n - 2) = j + n by omega]
  | case2 i inside here single =>
    obtain rfl : n = 1 := by simpa using reach.symm
    rw [window.byteIs_first] at here
    rw [window.byteIs (k := 1) (by omega)] at single
    rw [Text.quoteClose?, if_pos (window.first_inside inside), if_pos here, if_neg single,
      Option.map_some]
  | case3 i inside other ih =>
    have more := le_quoteClose (t := t) quote (k := i + 1) inside
    obtain ⟨n, rfl⟩ := Nat.exists_eq_add_one.mpr (show 0 < n by omega)
    rw [window.byteIs_first] at other
    rw [Text.quoteClose?, if_pos (window.first_inside inside), if_neg other,
      ih window.tail (by omega), Nat.add_right_comm, Nat.add_assoc]
  | case4 i outside =>
    rw [Text.quoteClose?, if_neg (window.first_outside outside), Option.map_none]

theorem semicolon? (reach : (t.semicolon? i).getD t.size = i + n) :
    u.semicolon? j = (t.semicolon? i).map fun _ => j + n := by
  have sought : t.seek Byte.isSemicolon i = i + n := by
    rw [← reach, Text.semicolon?]
    split
    · rfl
    · rw [Option.getD_none]
      have := t.seek_le_size Byte.isSemicolon i
      omega
  have stops : t.byteIs (i + n) (!Byte.isSemicolon ·) = false := by
    cases fails : t.byteIs (i + n) (!Byte.isSemicolon ·) with
    | false => rfl
    | true =>
      obtain ⟨inside, other⟩ := byteIs_not_iff.mp fails
      rw [← sought, seek_found (by omega)] at other
      cases other
  obtain ⟨m, bound, found, other⟩ := window.seek stops
  obtain rfl : m = n := by omega
  rw [Text.semicolon?, Text.semicolon?, found, other]
  simp only [← window.lt_size_iff (Nat.le_refl m)]
  split <;> rfl

/-- A span that ends with the window is the same in both texts. -/
theorem upTo {close? : Option Nat} (reach : close?.getD t.size = i + n) (kind : Span.Kind) :
    Span.upTo u j kind (close?.map fun _ => j + n) =
      { Span.upTo t i kind close? with start := j, stop := j + n } := by
  cases close? with
  | none =>
    have left := window.lt_size_iff (Nat.le_refl n)
    have right := window.right
    rw [Option.getD_none] at reach
    rw [Option.map_none, Span.upTo, Span.upTo, show u.size = j + n by omega]
  | some stop => rfl

end Closing

section Opening

variable (window : Window t u i j n) (positive : 0 < n) (settings : LexicalSettings) (fresh : Bool)

include window positive

theorem opensBlockComment : t.opensBlockComment i = u.opensBlockComment j := by
  rw [Text.opensBlockComment, Text.opensBlockComment, window.byteIs_first, window.byteIs positive]

theorem opensStatementComment :
    t.opensStatementComment settings i = u.opensStatementComment settings j := by
  rw [Text.opensStatementComment, Text.opensStatementComment, window.byteIs_first,
    window.byteIs_first, window.byteIs positive]

omit positive in
theorem opensLiteral : t.opensLiteral settings i = u.opensLiteral settings j :=
  window.byteIs_first _

theorem opening?_none (closed : t.opening? settings fresh i = none) :
    u.opening? settings fresh j = none := by
  rw [Text.opening?, ← window.opensBlockComment positive,
    ← window.opensStatementComment positive, ← window.opensLiteral]
  simp only [Text.opening?] at closed
  split at closed
  · cases closed
  split at closed
  · cases closed
  split at closed
  · cases closed
  · simp_all

/-- So is what opens a span at the start of a window up to the span's end. -/
theorem opening?_span {s : Span} (opened : t.opening? settings fresh i = some s)
    (stop : s.stop = i + n) :
    u.opening? settings fresh j = some { s with start := j, stop := j + n } := by
  rw [Text.opening?, ← window.opensBlockComment positive,
    ← window.opensStatementComment positive, ← window.opensLiteral]
  simp only [Text.opening?] at opened
  split at opened
  · rename_i block
    cases opened
    rw [Span.upTo_stop] at stop
    have second := lt_size_of_byteIs (Bool.and_eq_true_iff.mp block).2
    have more := le_commentClose (t := t) (k := i + 2) second
    rw [if_pos block, (window.drop (k := 2) (by omega)).commentClose? (by omega),
      show j + 2 + (n - 2) = j + n by omega, window.upTo stop]
  rename_i block
  rw [if_neg block]
  split at opened
  · rename_i statement
    cases opened
    rw [Span.upTo_stop] at stop
    rw [if_pos statement, (window.drop (k := 1) (by omega)).semicolon? (by omega),
      show j + 1 + (n - 1) = j + n by omega, window.upTo stop]
  rename_i statement
  rw [if_neg statement]
  split at opened
  · rename_i literal
    cases opened
    rw [Span.upTo_stop] at stop
    obtain ⟨quote, here, -⟩ := byteIs_iff.mp literal
    have there : u.byte? j = some quote := (window.same 0 (Nat.zero_le n)).symm.trans here
    rw [here, Option.bind_some] at stop ⊢
    rw [if_pos literal, there, Option.bind_some,
      (window.drop (k := 1) (by omega)).quoteClose? (by omega),
      show j + 1 + (n - 1) = j + n by omega, window.upTo stop]
  · cases opened

/-- Away from spans, the pass meets the same in both texts. -/
theorem piece_eq (closed : t.opening? settings fresh i = none) :
    u.piece settings fresh j = t.piece settings fresh i := by
  rw [piece, piece, window.opening?_none positive settings fresh closed, closed,
    window.byteIs_first, window.byteIs_first]

end Opening

end Window

end SasLayout.Text
