import SasLayout.Proofs.Lines
import SasLayout.Proofs.MovedLines

set_option autoImplicit false

/-!
Texts that have the same lines but for their indentation. Where no line that starts inside a comment
or a literal differs, the two have the same tokens, on the same lines and at the same distances from
the first visible characters of these lines.
-/
namespace SasLayout

namespace Text

variable {t : Text} {i j k : Nat}

/-- A line without its indentation. -/
def unindented (line : List UInt8) : List UInt8 :=
  line.dropWhile Byte.isIndent

/-- The line of an offset without its indentation. -/
def body (t : Text) (i : Nat) : List UInt8 :=
  (t.slice (t.firstNonBlank i) (t.lineEnd i)).toList

theorem length_body (t : Text) (i : Nat) :
    (t.body i).length = t.lineEnd i - t.firstNonBlank i :=
  length_slice (t.lineEnd_le_size i)

theorem getElem?_body (inside : t.firstNonBlank i + k < t.lineEnd i) :
    (t.body i)[k]? = t.byte? (t.firstNonBlank i + k) :=
  getElem?_slice inside

theorem unindented_line (within : i ≤ t.size) :
    unindented (t.line i) = t.body i := by
  rw [line, toList_slice_append (t.lineStart_le_firstNonBlank i) (firstNonBlank_le_lineEnd within),
    unindented, List.dropWhile_append_of_pos]
  · rcases Nat.eq_or_lt_of_le (firstNonBlank_le_lineEnd within) with blank | shown
    · rw [← blank, toList_slice, List.drop_of_length_le (by simp)]
      rw [body, ← blank, toList_slice, List.drop_of_length_le (by simp)]
      rfl
    · have inside := Nat.lt_of_lt_of_le shown (t.lineEnd_le_size i)
      obtain ⟨b, found⟩ := exists_byte inside
      have visible := firstNonBlank_visible inside
      rw [byteIs_of_byte? found] at visible
      rw [body, toList_slice_cons found shown, List.dropWhile_cons_of_neg (by simp [visible])]
  · intro b listed
    obtain ⟨k, lower, upper, found⟩ := mem_slice.mp listed
    rw [← byteIs_of_byte? found Byte.isIndent]
    exact firstNonBlank_indent lower upper

end Text

namespace Source

/-- The line of `i` starts inside a comment or a literal: one that began before the line goes on at
its first visible character, or does not end at all. -/
def OpensInside (src : Source) (i : Nat) : Prop :=
  ∃ s ∈ src.map.spans, s.start < src.text.lineStart i ∧
    (src.text.firstNonBlank i < s.stop ∨ s.terminated = false)

/-- `other` has the lines of `src` but for their indentation, and the same indentation too where a
line starts inside a comment or a literal. -/
structure Relaid (src other : Source) : Prop where
  settings : other.settings = src.settings
  bodies : other.text.lines.map Text.unindented = src.text.lines.map Text.unindented
  kept : ∀ i ≤ src.size, src.OpensInside i →
    other.text.lines[src.text.lineIndex i]? = src.text.lines[src.text.lineIndex i]?

/-- Offsets on lines of the same number, at the same distance from the first visible characters. -/
structure Abreast (src other : Source) (i j : Nat) : Prop where
  left : i ≤ src.size
  right : j ≤ other.size
  line : src.text.lineIndex i = other.text.lineIndex j
  column : i + other.text.firstNonBlank j = j + src.text.firstNonBlank i

namespace Abreast

variable {src other : Source} {i j k l : Nat}

/-- Offsets on two lines of the same number. -/
theorem within (left : i ≤ src.size) (right : j ≤ other.size)
    (line : src.text.lineIndex i = other.text.lineIndex j)
    (here : src.text.lineStart i ≤ k ∧ k ≤ src.text.lineEnd i)
    (there : other.text.lineStart j ≤ l ∧ l ≤ other.text.lineEnd j)
    (column : k + other.text.firstNonBlank j = l + src.text.firstNonBlank i) :
    Abreast src other k l := by
  have inside : k ≤ src.text.size := Nat.le_trans here.2 (src.text.lineEnd_le_size i)
  have bound : l ≤ other.text.size := Nat.le_trans there.2 (other.text.lineEnd_le_size j)
  have first := Text.lineIndex_within left here.1 here.2
  have second := Text.lineIndex_within right there.1 there.2
  refine ⟨inside, bound, by rw [first, second, line], ?_⟩
  rwa [Text.firstNonBlank_congr inside left first, Text.firstNonBlank_congr bound right second]

theorem first (left : i ≤ src.size) (right : j ≤ other.size)
    (line : src.text.lineIndex i = other.text.lineIndex j) :
    Abreast src other (src.text.firstNonBlank i) (other.text.firstNonBlank j) :=
  within left right line
    ⟨src.text.lineStart_le_firstNonBlank i, Text.firstNonBlank_le_lineEnd left⟩
    ⟨other.text.lineStart_le_firstNonBlank j, Text.firstNonBlank_le_lineEnd right⟩
    (Nat.add_comm _ _)

/-- The order of offsets is the same in both texts. -/
theorem lt_of_lt (here : Abreast src other i j) (there : Abreast src other k l)
    (before : i < k) : j < l := by
  rcases Nat.eq_or_lt_of_le (src.text.lineIndex_mono (Nat.le_of_lt before)) with same | earlier
  · have other_same : other.text.lineIndex j = other.text.lineIndex l := by
      rw [← here.line, ← there.line, same]
    have first := Text.firstNonBlank_congr here.left there.left same
    have second := Text.firstNonBlank_congr here.right there.right other_same
    have := here.column
    have := there.column
    omega
  · rw [here.line, there.line] at earlier
    exact Text.lt_of_lineIndex_lt earlier

theorem symm (here : Abreast src other i j) : Abreast other src j i where
  left := here.right
  right := here.left
  line := here.line.symm
  column := here.column.symm

theorem lt_iff (here : Abreast src other i j) (there : Abreast src other k l) :
    i < k ↔ j < l :=
  ⟨here.lt_of_lt there, here.symm.lt_of_lt there.symm⟩

theorem eq_iff (here : Abreast src other i j) (there : Abreast src other k l) :
    i = k ↔ j = l := by
  have := here.lt_iff there
  have := there.lt_iff here
  omega

end Abreast

namespace Relaid

variable {src other : Source} {i j : Nat}

theorem lineCount (relaid : Relaid src other) : other.text.lineCount = src.text.lineCount := by
  have lengths := congrArg List.length relaid.bodies
  simpa [Text.length_lines] using lengths

section Line

variable (relaid : Relaid src other) (left : i ≤ src.size) (right : j ≤ other.size)
  (line : src.text.lineIndex i = other.text.lineIndex j)

include relaid left right line

theorem body : other.text.body j = src.text.body i := by
  have same := congrArg (·[src.text.lineIndex i]?) relaid.bodies
  simp only [List.getElem?_map] at same
  rw [Text.lines_lineIndex left, line, Text.lines_lineIndex right, Option.map_some,
    Option.map_some, Text.unindented_line left, Text.unindented_line right] at same
  exact Option.some.inj same

theorem lineEnd : src.text.lineEnd i + other.text.firstNonBlank j =
    other.text.lineEnd j + src.text.firstNonBlank i := by
  have lengths := congrArg List.length (relaid.body left right line)
  rw [Text.length_body, Text.length_body] at lengths
  have := Text.firstNonBlank_le_lineEnd left
  have := Text.firstNonBlank_le_lineEnd right
  omega

theorem last : src.text.lineEnd i = src.size ↔ other.text.lineEnd j = other.size := by
  have first := Text.lineEnd_eq_size_iff left
  have second := Text.lineEnd_eq_size_iff right
  rw [line] at first
  rw [relaid.lineCount] at second
  exact first.trans second.symm

/-- The bytes of a line from the first visible one on are the same. -/
theorem shared {k : Nat} (inside : src.text.firstNonBlank i + k < src.text.lineEnd i) :
    ∃ b, src.text.byte? (src.text.firstNonBlank i + k) = some b ∧
      other.text.byte? (other.text.firstNonBlank j + k) = some b := by
  have ends := relaid.lineEnd left right line
  obtain ⟨b, found⟩ := Text.exists_byte (Nat.lt_of_lt_of_le inside (src.text.lineEnd_le_size i))
  refine ⟨b, found, ?_⟩
  rw [← Text.getElem?_body (by omega), relaid.body left right line, Text.getElem?_body inside,
    found]

theorem abreast {k : Nat} (within : src.text.firstNonBlank i + k ≤ src.text.lineEnd i) :
    Abreast src other (src.text.firstNonBlank i + k) (other.text.firstNonBlank j + k) := by
  have ends := relaid.lineEnd left right line
  have first := src.text.lineStart_le_firstNonBlank i
  have second := other.text.lineStart_le_firstNonBlank j
  exact .within left right line ⟨by omega, within⟩ ⟨by omega, by omega⟩ (by omega)

/-- A line that starts inside a comment or a literal is the same as a whole. -/
theorem same_line (inside : src.OpensInside i) :
    src.text.line i = other.text.line j := by
  have kept := relaid.kept i left inside
  rw [Text.lines_lineIndex left, line, Text.lines_lineIndex right] at kept
  exact (Option.some.inj kept).symm

theorem same_indent (inside : src.OpensInside i) :
    src.text.firstNonBlank i + other.text.lineStart j =
      other.text.firstNonBlank j + src.text.lineStart i := by
  have lengths := congrArg List.length (relaid.same_line left right line inside)
  rw [Text.line, Text.line, Text.length_slice (src.text.lineEnd_le_size i),
    Text.length_slice (other.text.lineEnd_le_size j)] at lengths
  have := relaid.lineEnd left right line
  have := Text.firstNonBlank_le_lineEnd left
  have := Text.firstNonBlank_le_lineEnd right
  have := src.text.lineStart_le_firstNonBlank i
  have := other.text.lineStart_le_firstNonBlank j
  omega

end Line

/-- A span with a stop of its own stands before a visible byte of its last line. -/
theorem stop_lt_size {s : Span} (listed : s ∈ src.map.spans) (closed : s.terminated = true)
    (early : s.start < src.text.lineStart i)
    (ends : s.stop ≤ src.text.firstNonBlank i) : s.stop < src.size := by
  obtain ⟨fresh, opened⟩ := (span_fits listed).opened
  rcases Text.opening?_end opened with ⟨open_, -⟩ | ⟨-, semicolon⟩ | closer
  · rw [closed] at open_
    cases open_
  · exact Text.lt_size_of_byteIs semicolon
  · refine Nat.lt_of_le_of_ne (span_fits listed).within fun last => ?_
    have first : src.text.firstNonBlank i = src.size :=
      Nat.le_antisymm (src.text.firstNonBlank_le_size i) (last ▸ ends)
    have nonempty := (span_fits listed).nonempty
    have blank : src.text.byteIs (s.stop - 1) Byte.isBlank = true := by
      rcases Nat.lt_or_ge (s.stop - 1) (src.text.lineStart i) with before | after
      · rcases src.text.lineStart_begins i with zero | newline
        · omega
        · have within := src.text.lineStart_le_size i
          rw [show s.stop - 1 = src.text.lineStart i - 1 by
            have : src.size = src.text.size := rfl
            omega]
          exact Text.byteIs_mono newline Byte.isBlank_of_isNewline
      · exact Text.byteIs_mono (Text.firstNonBlank_indent after (by omega)) Byte.isBlank_of_isIndent
    rw [Text.byteIs_apart closer Text.isBlank_of_isCloser] at blank
    cases blank

theorem movable (outside : ¬ src.OpensInside i) :
    src.Movable (src.text.lineStart i) (src.text.firstNonBlank i) where
  begins := src.text.lineStart_begins i
  ordered := src.text.lineStart_le_firstNonBlank i
  within := src.text.firstNonBlank_le_size i
  indent k lower upper := Text.firstNonBlank_indent lower upper
  free s listed early := by
    have ends : s.stop ≤ src.text.firstNonBlank i := Nat.le_of_not_lt fun beyond =>
      outside ⟨s, listed, early, Or.inl beyond⟩
    refine ⟨ends, stop_lt_size listed ?_ early ends⟩
    cases closed : s.terminated with
    | true => rfl
    | false => exact absurd ⟨s, listed, early, Or.inr closed⟩ outside

variable (relaid : Relaid src other)

include relaid

/-- From their first visible characters on, two lines match when the texts behind them do. -/
theorem aligned_body (left : i ≤ src.size) (right : j ≤ other.size)
    (line : src.text.lineIndex i = other.text.lineIndex j)
    (later : src.text.lineEnd i < src.size → other.text.lineEnd j < other.size →
      Aligned (Abreast src other) src other (src.text.lineEnd i + 1) (other.text.lineEnd j + 1)) :
    Aligned (Abreast src other) src other (src.text.firstNonBlank i)
      (other.text.firstNonBlank j) := by
  have ends := relaid.lineEnd left right line
  have shown := Text.firstNonBlank_le_lineEnd left
  have size : ∀ u : Source, u.size = u.text.size := fun _ => rfl
  have meets : Abreast src other (src.text.lineEnd i) (other.text.lineEnd j) := by
    have reached := relaid.abreast left right line
      (k := src.text.lineEnd i - src.text.firstNonBlank i) (by omega)
    rwa [show src.text.firstNonBlank i + (src.text.lineEnd i - src.text.firstNonBlank i) =
        src.text.lineEnd i by omega,
      show other.text.firstNonBlank j + (src.text.lineEnd i - src.text.firstNonBlank i) =
        other.text.lineEnd j by omega] at reached
  refine .copy (n := src.text.lineEnd i - src.text.firstNonBlank i) (fun k bound => ?_) ?_
  · exact ⟨relaid.abreast left right line (by omega), relaid.shared left right line (by omega)⟩
  · rw [show src.text.firstNonBlank i + (src.text.lineEnd i - src.text.firstNonBlank i) =
        src.text.lineEnd i by omega,
      show other.text.firstNonBlank j + (src.text.lineEnd i - src.text.firstNonBlank i) =
        other.text.lineEnd j by omega]
    have lasts := relaid.last left right line
    rcases Nat.eq_or_lt_of_le (src.text.lineEnd_le_size i) with last | more
    · have final := lasts.mp last
      rw [show src.text.lineEnd i = src.size from last, final] at meets ⊢
      exact .done meets
    · have onward : other.text.lineEnd j < other.size :=
        Nat.lt_of_le_of_ne (other.text.lineEnd_le_size j) fun final =>
          absurd (lasts.mpr final) (Nat.ne_of_lt more)
      exact .byte meets (Text.byte?_newline (Text.seek_found more))
        (Text.byte?_newline (Text.seek_found onward)) (later more onward)

/-- Lines of the same number match from their starts on. -/
theorem aligned_line (left : i ≤ src.size) (right : j ≤ other.size)
    (line : src.text.lineIndex i = other.text.lineIndex j) :
    Aligned (Abreast src other) src other (src.text.lineStart i) (other.text.lineStart j) := by
  induction rest : src.size - src.text.lineEnd i using Nat.strongRecOn generalizing i j with
  | ind rest ih =>
    have body := relaid.aligned_body left right line fun more onward => by
      have next := ih (src.size - src.text.lineEnd (src.text.lineEnd i + 1)) (by
        have := Text.le_lineEnd_self (t := src.text) (i := src.text.lineEnd i + 1) more
        have : src.size = src.text.size := rfl
        omega) more onward
        (by rw [Text.lineIndex_next left more, Text.lineIndex_next right onward, line]) rfl
      rwa [Text.lineStart_next more, Text.lineStart_next onward] at next
    by_cases inside : src.OpensInside i
    · -- The indentation is the same, byte for byte.
      have indent := relaid.same_indent left right line inside
      have same := relaid.same_line left right line inside
      have lower := src.text.lineStart_le_firstNonBlank i
      have first := Text.firstNonBlank_le_lineEnd left
      have second := Text.firstNonBlank_le_lineEnd right
      refine .copy (n := src.text.firstNonBlank i - src.text.lineStart i) (fun k bound => ?_) ?_
      · have starts := other.text.lineStart_le_firstNonBlank j
        have inside := Nat.lt_of_lt_of_le (show src.text.lineStart i + k < src.text.lineEnd i by
          omega) (src.text.lineEnd_le_size i)
        obtain ⟨b, found⟩ := Text.exists_byte inside
        refine ⟨.within left right line (by omega) (by omega) (by omega), b, found, ?_⟩
        have short : other.text.lineStart j + k < other.text.lineEnd j := by omega
        rw [← Text.getElem?_slice short, ← Text.line, ← same, Text.line,
          Text.getElem?_slice (by omega), found]
      · rwa [show src.text.lineStart i + (src.text.firstNonBlank i - src.text.lineStart i) =
            src.text.firstNonBlank i by omega,
          show other.text.lineStart j + (src.text.firstNonBlank i - src.text.lineStart i) =
            other.text.firstNonBlank j by omega]
    · exact .line (movable inside) (other.text.lineStart_le_firstNonBlank j)
        (fun k lower upper => Text.firstNonBlank_indent lower upper)
        (Abreast.first left right line) body

theorem aligned : Aligned (Abreast src other) src other 0 0 := by
  have whole := relaid.aligned_line (Nat.zero_le _) (Nat.zero_le _)
    ((src.text.lineIndex_zero).trans (other.text.lineIndex_zero).symm)
  rwa [Text.lineStart_zero, Text.lineStart_zero] at whole

/-- The tokens of the two texts are twins one by one. -/
theorem twins : List.Forall₂ (Twins (Abreast src other) src other) src.tokens.toList
    other.tokens.toList := by
  rw [toList_tokens, toList_tokens]
  exact relaid.aligned.tokens relaid.settings List.suffix_rfl

/-- Every line of the other text is a line of the text. -/
theorem exists_line (right : j ≤ other.size) :
    ∃ i ≤ src.size, src.text.lineIndex i = other.text.lineIndex j :=
  Text.exists_lineIndex (relaid.lineCount ▸ Text.lineIndex_lt_lineCount right)

theorem ends : Abreast src other src.size other.size := by
  have counts := relaid.lineCount
  rw [Text.lineCount_eq, Text.lineCount_eq] at counts
  have line : src.text.lineIndex src.size = other.text.lineIndex other.size :=
    (Nat.succ.inj counts).symm
  have last := relaid.lineEnd (Nat.le_refl _) (Nat.le_refl _) line
  have size : ∀ u : Source, u.text.lineEnd u.size = u.size := fun u => u.text.lineEnd_size
  rw [size, size] at last
  exact ⟨Nat.le_refl _, Nat.le_refl _, line, last⟩

theorem joined (whole : src.text.Joined) : other.text.Joined := by
  intro k b found continues
  rw [← Text.byte?_eq_getElem?] at found
  obtain ⟨noIndent, noNewline⟩ := Byte.plain_of_isContinuation b continues
  have right : k < other.size := Text.lt_size_of_byte? found
  obtain ⟨i, left, line⟩ := relaid.exists_line (Nat.le_of_lt right)
  have first : other.text.firstNonBlank k ≤ k :=
    Text.firstNonBlank_le right (by rwa [Text.byteIs_of_byte? found])
  have last : k < other.text.lineEnd k := by
    refine Nat.lt_of_le_of_ne (Text.le_lineEnd_self (Nat.le_of_lt right)) fun ends => ?_
    have newline : other.text.byteIs (other.text.lineEnd k) Byte.isNewline = true :=
      Text.seek_found (show other.text.lineEnd k < _ from ends ▸ right)
    rw [← ends, Text.byteIs_of_byte? found, noNewline] at newline
    cases newline
  have lengths := relaid.lineEnd left (Nat.le_of_lt right) line
  obtain ⟨m, distance⟩ := Nat.exists_eq_add_of_le first
  obtain ⟨c, here, there⟩ := relaid.shared left (Nat.le_of_lt right) line (k := m) (by omega)
  rw [← distance, found, Option.some.injEq] at there
  subst there
  obtain ⟨j, d, next, before, large⟩ :=
    whole _ b (by rw [← Text.byte?_eq_getElem?, here]) continues
  cases m with
  | zero =>
    -- The indentation of the line is not part of a longer character.
    have boundary := whole.firstNonBlank i
    rw [Nat.add_zero] at here next
    have size := Text.lt_size_of_byte? here
    rw [Text.isBoundary, Text.byteIs_of_byte? here, continues, Bool.not_true, Bool.or_false,
      Bool.or_eq_true, beq_iff_eq, beq_iff_eq] at boundary
    omega
  | succ m =>
    obtain ⟨e, left', right'⟩ := relaid.shared left (Nat.le_of_lt right) line (k := m) (by omega)
    rw [← Text.byte?_eq_getElem?, show j = src.text.firstNonBlank i + m by omega, left',
      Option.some.injEq] at before
    refine ⟨other.text.firstNonBlank k + m, d, by omega, ?_, large⟩
    rw [← Text.byte?_eq_getElem?, right', before]

end Relaid

namespace Aligned

variable {src other : Source} {i j k l : Nat}

theorem lineIndex (aligned : Aligned (Abreast src other) src other k l) :
    src.text.lineIndex k = other.text.lineIndex l := by
  cases aligned with
  | done here => exact here.line
  | byte here => exact here.line
  | line movable ordered indent here =>
    have plain : ∀ {t : Text} {start stop : Nat}, start ≤ stop → stop ≤ t.size →
        (∀ k, start ≤ k → k < stop → t.byteIs k Byte.isIndent = true) →
        t.lineIndex start = t.lineIndex stop := by
      intro t start stop ordered within indent
      refine (Text.lineIndex_plain ordered within fun k lower upper => ?_).symm
      exact Text.byteIs_apart (indent k lower upper) Byte.isNewline_of_isIndent
    rw [plain movable.ordered here.left movable.indent, plain ordered here.right indent, here.line]

/-- Whether offsets lie beyond the first visible characters of two lines is the same for both. -/
theorem le_first_iff (aligned : Aligned (Abreast src other) src other k l) (left : i ≤ src.size)
    (right : j ≤ other.size) (line : src.text.lineIndex i = other.text.lineIndex j) :
    k ≤ src.text.firstNonBlank i ↔ l ≤ other.text.firstNonBlank j := by
  have first := Abreast.first left right line
  have lines := aligned.lineIndex
  cases aligned with
  | done here =>
    have := first.lt_iff here
    omega
  | byte here =>
    have := first.lt_iff here
    omega
  | @line _ _ reach next movable ordered indent here =>
    have inside : k ≤ src.text.size := Nat.le_trans movable.ordered movable.within
    have start : src.text.lineStart k = k := Text.lineStart_eq_self inside movable.begins
    have beyond := first.lt_iff here
    rcases Nat.lt_trichotomy (src.text.lineIndex k) (src.text.lineIndex i) with before | same | after
    · have earlier : k < src.text.firstNonBlank i :=
        Text.lt_of_lineIndex_lt (by rwa [Text.lineIndex_firstNonBlank left])
      have there : l < other.text.firstNonBlank j :=
        Text.lt_of_lineIndex_lt (by rwa [Text.lineIndex_firstNonBlank right, ← lines, ← line])
      omega
    · -- Both offsets lie in the indentation of the line.
      have shown : reach ≤ src.text.firstNonBlank i := by
        apply Nat.le_of_not_lt
        intro short
        have lower := src.text.lineStart_le_firstNonBlank i
        rw [← Text.lineStart_congr inside left same, start] at lower
        have blank := movable.indent _ lower short
        rw [Text.firstNonBlank_visible (Nat.lt_of_lt_of_le short movable.within)] at blank
        cases blank
      have := movable.ordered
      omega
    · have later : src.text.firstNonBlank i < k :=
        Text.lt_of_lineIndex_lt (by rwa [Text.lineIndex_firstNonBlank left])
      have there : other.text.firstNonBlank j < l :=
        Text.lt_of_lineIndex_lt (by rwa [Text.lineIndex_firstNonBlank right, ← lines, ← line])
      omega

end Aligned

end Source
end SasLayout
