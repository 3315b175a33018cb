import SasLayout.Proofs.Bisection
import SasLayout.Proofs.Bytes
import SasLayout.Source

set_option autoImplicit false

/-!
The pass that builds a span map. The spans it meets are not empty, stand in order and do not
overlap, so that the bisection for an offset finds the one span that covers it.
-/
namespace SasLayout

theorem Span.upTo_stop (t : Text) (start : Nat) (kind : Kind) (close? : Option Nat) :
    (upTo t start kind close?).stop = close?.getD t.size := by
  cases close? <;> rfl

namespace Text

/-- The last bytes of a span that closes itself. -/
def isCloser (b : UInt8) : Bool :=
  b == Byte.slash || b == Byte.singleQuote || b == Byte.doubleQuote

theorem isBlank_of_isCloser (b : UInt8) : isCloser b = true → Byte.isBlank b = false :=
  Byte.forall_of_halves (p := fun b => isCloser b = true → Byte.isBlank b = false)
    (by decide) b

theorem commentClose?_closer {t : Text} {i stop : Nat} (found : t.commentClose? i = some stop) :
    t.byteIs (stop - 1) isCloser = true := by
  fun_induction commentClose? t i with
  | case1 i _ both =>
    cases found
    exact byteIs_mono (Bool.and_eq_true_iff.mp both).2 fun b slash => by
      rw [isCloser, slash, Bool.true_or, Bool.true_or]
  | case2 i _ _ ih => exact ih found
  | case3 => cases found

theorem semicolon?_found {t : Text} {i stop : Nat} (found : t.semicolon? i = some stop) :
    t.byteIs stop Byte.isSemicolon = true := by
  unfold semicolon? at found
  split at found
  · cases found
    exact seek_found ‹_›
  · cases found

theorem semicolon?_eq_some_iff {t : Text} {i stop : Nat} :
    t.semicolon? i = some stop ↔ i ≤ stop ∧ t.byteIs stop Byte.isSemicolon = true ∧
      ∀ k, i ≤ k → k < stop → t.byteIs k Byte.isSemicolon = false := by
  constructor
  · intro found
    refine ⟨(semicolon?_bounds found).1, semicolon?_found found, fun k lower upper => ?_⟩
    unfold semicolon? at found
    split at found <;> cases found
    exact seek_before lower upper
  · rintro ⟨lower, here, before⟩
    rw [semicolon?, seek_eq lower before (Or.inl here), if_pos (lt_size_of_byteIs here)]

theorem quoteClose?_quote {t : Text} {quote : UInt8} {i stop : Nat}
    (found : t.quoteClose? quote i = some stop) : t.byteIs (stop - 1) (· == quote) = true := by
  fun_induction quoteClose? t quote i with
  | case1 i _ _ _ ih => exact ih found
  | case2 i _ here _ =>
    cases found
    exact here
  | case3 i _ _ ih => exact ih found
  | case4 => cases found

/-- A span does not end before the text does, or a semicolon follows it, or it ends in its own closing
sign. -/
theorem opening?_end {t : Text} {settings : LexicalSettings} {fresh : Bool} {i : Nat} {s : Span}
    (opened : t.opening? settings fresh i = some s) :
    (s.terminated = false ∧ s.stop = t.size) ∨
      (s.kind = .statementComment ∧ t.byteIs s.stop Byte.isSemicolon = true) ∨
      t.byteIs (s.stop - 1) isCloser = true := by
  unfold opening? at opened
  split at opened
  · cases opened
    cases close : t.commentClose? (i + 2) with
    | none => exact Or.inl ⟨rfl, rfl⟩
    | some stop => exact Or.inr (Or.inr (commentClose?_closer close))
  split at opened
  · cases opened
    cases close : t.semicolon? (i + 1) with
    | none => exact Or.inl ⟨rfl, rfl⟩
    | some stop => exact Or.inr (Or.inl ⟨rfl, semicolon?_found close⟩)
  split at opened
  · rename_i literal
    cases opened
    cases close : (t.byte? i).bind (t.quoteClose? · (i + 1)) with
    | none => exact Or.inl ⟨rfl, rfl⟩
    | some stop =>
      obtain ⟨quote, here, closed⟩ := Option.bind_eq_some_iff.mp close
      refine Or.inr (Or.inr (byteIs_mono (quoteClose?_quote closed) fun b same => ?_))
      rw [opensLiteral, byteIs_of_byte? here] at literal
      obtain rfl := eq_of_beq same
      simp only [isCloser, Bool.or_eq_true, Bool.and_eq_true] at literal ⊢
      tauto
  · cases opened

/-- A span that has no end of its own goes on to the end of the text. -/
theorem opening?_open {t : Text} {settings : LexicalSettings} {fresh : Bool} {i : Nat} {s : Span}
    (opened : t.opening? settings fresh i = some s) (unclosed : s.terminated = false) :
    s.stop = t.size := by
  have upTo : ∀ kind close?, (Span.upTo t i kind close?).terminated = false →
      (Span.upTo t i kind close?).stop = t.size := by
    intro kind close? unclosed
    cases close? with
    | none => rfl
    | some stop => cases unclosed
  unfold opening? at opened
  repeat' split at opened
  all_goals cases opened
  all_goals exact upTo _ _ unclosed

theorem opening?_eq_statement {t : Text} {settings : LexicalSettings} {i : Nat}
    (other : t.opensBlockComment i = false) (here : t.opensStatementComment settings i = true) :
    t.opening? settings true i = some (.upTo t i .statementComment (t.semicolon? (i + 1))) := by
  simp [opening?, other, here]

theorem opening?_statement {t : Text} {settings : LexicalSettings} {fresh : Bool} {i : Nat}
    {s : Span} (opened : t.opening? settings fresh i = some s) (kind : s.kind = .statementComment) :
    fresh = true ∧ t.opensBlockComment i = false ∧ t.opensStatementComment settings i = true := by
  have upTo_kind : ∀ kind close?, (Span.upTo t i kind close?).kind = kind := by
    intro kind close?
    cases close? <;> rfl
  unfold opening? at opened
  split at opened
  · cases opened
    rw [upTo_kind] at kind
    cases kind
  rename_i other
  split at opened
  · rename_i both
    rw [Bool.and_eq_true] at both
    exact ⟨both.1, by simpa using other, both.2⟩
  split at opened
  · cases opened
    rw [upTo_kind] at kind
    cases kind
  · cases opened

theorem opensStatementComment_first {t : Text} {settings : LexicalSettings} {i : Nat}
    (here : t.opensStatementComment settings i = true) : t.byteIs i (· == Byte.slash) = false := by
  simp only [opensStatementComment, Bool.or_eq_true, Bool.and_eq_true] at here
  rcases here with star | ⟨⟨-, percent⟩, -⟩
  · exact byteIs_apart star fun b same => by rw [eq_of_beq same]; decide
  · exact byteIs_apart percent fun b same => by rw [eq_of_beq same]; decide

/-- What the pass meets at `i`, with what it has looked at. -/
inductive Met (t : Text) (settings : LexicalSettings) (fresh : Bool) (i : Nat) : Piece → Prop
  | blank (here : t.byteIs i Byte.isBlank = true) : Met t settings fresh i .blank
  | span {s : Span} (visible : t.byteIs i Byte.isBlank = false)
    (opened : t.opening? settings fresh i = some s) : Met t settings fresh i (.span s)
  | terminator (closed : t.opening? settings fresh i = none)
    (here : t.byteIs i Byte.isSemicolon = true) : Met t settings fresh i .terminator
  | code (visible : t.byteIs i Byte.isBlank = false)
    (closed : t.opening? settings fresh i = none)
    (other : t.byteIs i Byte.isSemicolon = false) : Met t settings fresh i .code

theorem met_piece (t : Text) (settings : LexicalSettings) (fresh : Bool) (i : Nat) :
    Met t settings fresh i (t.piece settings fresh i) := by
  unfold piece
  split
  · exact .blank ‹_›
  rename_i visible
  rw [Bool.not_eq_true] at visible
  split
  · exact .span visible ‹_›
  rename_i closed
  split
  · exact .terminator closed ‹_›
  · rename_i other
    exact .code visible closed (by simpa using other)

variable {t : Text} {settings : LexicalSettings} {fresh : Bool} {i : Nat}

theorem met_of_piece {met : Piece} (here : t.piece settings fresh i = met) :
    Met t settings fresh i met :=
  here ▸ t.met_piece settings fresh i

theorem piece_eq_span {s : Span} (visible : t.byteIs i Byte.isBlank = false)
    (opened : t.opening? settings fresh i = some s) : t.piece settings fresh i = .span s := by
  simp [piece, visible, opened]

theorem piece_eq_code (visible : t.byteIs i Byte.isBlank = false)
    (closed : t.opening? settings fresh i = none)
    (other : t.byteIs i Byte.isSemicolon = false) : t.piece settings fresh i = .code := by
  simp [piece, visible, closed, other]

/-- No span starts with a semicolon. -/
theorem piece_eq_terminator (here : t.byteIs i Byte.isSemicolon = true) :
    t.piece settings fresh i = .terminator := by
  obtain ⟨b, found, same⟩ := byteIs_iff.mp here
  obtain rfl : b = Byte.semicolon := eq_of_beq same
  have read : ∀ p : UInt8 → Bool, t.byteIs i p = p Byte.semicolon := byteIs_of_byte? found
  have block : t.opensBlockComment i = false := by
    rw [opensBlockComment, read]
    rfl
  have statement : t.opensStatementComment settings i = false := by
    rw [opensStatementComment, read, read]
    cases settings.macroComments <;> rfl
  have literal : t.opensLiteral settings i = false := by
    rw [opensLiteral, read]
    cases settings.doubleQuotes <;> rfl
  have visible : t.byteIs i Byte.isBlank = false := read _
  simp [piece, opening?, visible, block, statement, literal, here]

end Text

namespace SpanMap

/-- The spans and the semicolons of the code that the pass meets from `i` on. -/
def marksFrom (settings : LexicalSettings) (t : Text) (fresh : Bool) (i : Nat) :
    List Span × List Nat :=
  if inside : i < t.size then
    match met : t.piece settings fresh i with
    | .blank => marksFrom settings t fresh (i + 1)
    | .span s =>
      have := (Text.piece_span_bounds inside met).2.1
      let rest := marksFrom settings t (fresh && s.isComment) s.stop
      (s :: rest.1, rest.2)
    | .terminator =>
      let rest := marksFrom settings t true (i + 1)
      (rest.1, i :: rest.2)
    | .code => marksFrom settings t false (i + 1)
  else ([], [])
termination_by t.size - i

theorem scan_eq (settings : LexicalSettings) (t : Text) (fresh : Bool) (i : Nat)
    (spans : Array Span) (terminators : Array Nat) :
    scan settings t i fresh spans terminators =
      ⟨spans ++ (marksFrom settings t fresh i).1.toArray,
        terminators ++ (marksFrom settings t fresh i).2.toArray⟩ := by
  fun_induction marksFrom settings t fresh i generalizing spans terminators with
  | case1 fresh i inside met ih =>
    rw [scan, dif_pos inside]
    split <;> simp_all
  | case2 fresh i inside s met _ rest ih =>
    rw [scan, dif_pos inside]
    split <;> simp_all
    simp [rest]
  | case3 fresh i inside met rest ih =>
    rw [scan, dif_pos inside]
    split <;> simp_all
    simp [rest]
  | case4 fresh i inside met ih =>
    rw [scan, dif_pos inside]
    split <;> simp_all
  | case5 fresh i outside => simp [scan, outside]

section

variable {settings : LexicalSettings} {t : Text} {fresh : Bool} {i : Nat}

theorem marksFrom_blank (inside : i < t.size) (met : t.piece settings fresh i = .blank) :
    marksFrom settings t fresh i = marksFrom settings t fresh (i + 1) := by
  rw [marksFrom, dif_pos inside]
  split <;> simp_all

theorem marksFrom_span {s : Span} (inside : i < t.size)
    (met : t.piece settings fresh i = .span s) :
    marksFrom settings t fresh i =
      (s :: (marksFrom settings t (fresh && s.isComment) s.stop).1,
        (marksFrom settings t (fresh && s.isComment) s.stop).2) := by
  rw [marksFrom, dif_pos inside]
  split <;> simp_all

theorem marksFrom_terminator (inside : i < t.size)
    (met : t.piece settings fresh i = .terminator) :
    marksFrom settings t fresh i =
      ((marksFrom settings t true (i + 1)).1, i :: (marksFrom settings t true (i + 1)).2) := by
  rw [marksFrom, dif_pos inside]
  split <;> simp_all

theorem marksFrom_code (inside : i < t.size) (met : t.piece settings fresh i = .code) :
    marksFrom settings t fresh i = marksFrom settings t false (i + 1) := by
  rw [marksFrom, dif_pos inside]
  split <;> simp_all

theorem marksFrom_end (outside : t.size ≤ i) : marksFrom settings t fresh i = ([], []) := by
  rw [marksFrom, dif_neg (by omega)]

end

/-- What is known of a span that the pass has met. -/
structure Fits (settings : LexicalSettings) (t : Text) (s : Span) : Prop where
  nonempty : s.start < s.stop
  within : s.stop ≤ t.size
  visible : t.byteIs s.start Byte.isBlank = false
  opened : ∃ fresh, t.opening? settings fresh s.start = some s

theorem fits_of_piece {settings : LexicalSettings} {t : Text} {fresh : Bool} {i : Nat} {s : Span}
    (inside : i < t.size) (met : t.piece settings fresh i = .span s) :
    s.start = i ∧ Fits settings t s := by
  obtain ⟨rfl, nonempty, within⟩ := Text.piece_span_bounds inside met
  cases Text.met_of_piece met with
  | span visible opened => exact ⟨rfl, nonempty, within, visible, fresh, opened⟩

theorem marksFrom_fits (settings : LexicalSettings) (t : Text) (fresh : Bool) (i : Nat) :
    ∀ s ∈ (marksFrom settings t fresh i).1, i ≤ s.start ∧ Fits settings t s := by
  fun_induction marksFrom settings t fresh i with
  | case1 fresh i inside met ih =>
    intro s listed
    exact ⟨by have := (ih s listed).1; omega, (ih s listed).2⟩
  | case2 fresh i inside first met _ rest ih =>
    have fits := fits_of_piece inside met
    intro s listed
    rcases List.mem_cons.mp listed with rfl | later
    · exact ⟨Nat.le_of_eq fits.1.symm, fits.2⟩
    · exact ⟨by have := (ih s later).1; omega, (ih s later).2⟩
  | case3 fresh i inside met rest ih =>
    intro s listed
    exact ⟨by have := (ih s listed).1; omega, (ih s listed).2⟩
  | case4 fresh i inside met ih =>
    intro s listed
    exact ⟨by have := (ih s listed).1; omega, (ih s listed).2⟩
  | case5 fresh i outside =>
    intro s listed
    cases listed

theorem marksFrom_ordered (settings : LexicalSettings) (t : Text) (fresh : Bool) (i : Nat) :
    (marksFrom settings t fresh i).1.Pairwise (·.stop ≤ ·.start) := by
  fun_induction marksFrom settings t fresh i with
  | case1 fresh i inside met ih => exact ih
  | case2 fresh i inside first met _ rest ih =>
    refine List.pairwise_cons.mpr ⟨?_, ih⟩
    intro s listed
    exact (marksFrom_fits settings t _ first.stop s listed).1
  | case3 fresh i inside met rest ih => exact ih
  | case4 fresh i inside met ih => exact ih
  | case5 fresh i outside => exact List.Pairwise.nil

/-- The spans are not empty, stand in order and do not overlap. -/
structure Ordered (m : SpanMap) : Prop where
  nonempty : ∀ s ∈ m.spans, s.start < s.stop
  apart : m.spans.toList.Pairwise (·.stop ≤ ·.start)

theorem Ordered.stop_le_start {m : SpanMap} (ordered : m.Ordered) {j k : Nat} (later : j < k)
    (bound : k < m.spans.size) : m.spans[j].stop ≤ m.spans[k].start := by
  have apart := List.pairwise_iff_getElem.mp ordered.apart j k (by simpa using by omega)
    (by simpa using bound) later
  simpa using apart

theorem Ordered.splits {m : SpanMap} (ordered : m.Ordered) (offset : Nat) :
    Bisect.Splits m.spans (·.start ≤ offset) := by
  intro j k first second below holds
  rcases Nat.eq_or_lt_of_le below with rfl | later
  · exact holds
  · have between := ordered.stop_le_start later second
    have nonempty := ordered.nonempty m.spans[j] (Array.getElem_mem first)
    simp only [decide_eq_true_eq] at holds ⊢
    omega

/-- Of ordered spans the bisection finds the one that covers an offset. -/
theorem Ordered.spanAt?_eq_some_iff {m : SpanMap} (ordered : m.Ordered) {offset : Nat} {s : Span} :
    m.spanAt? offset = some s ↔ s ∈ m.spans ∧ s.start ≤ offset ∧ offset < s.stop := by
  constructor
  · intro found
    refine ⟨?_, spanAt?_start_le found, spanAt?_lt found⟩
    unfold spanAt? at found
    split at found
    · cases found
    · split at found
      · rename_i here
        split at found
        · cases found
          exact Array.mem_of_getElem? here
        · cases found
      · cases found
  · rintro ⟨listed, lower, upper⟩
    obtain ⟨k, bound, rfl⟩ := Array.mem_iff_getElem.mp listed
    have spec := Bisect.leading_spec (ordered.splits offset)
    have counted : Bisect.leading m.spans (·.start ≤ offset) = k + 1 := by
      have passed := (spec k bound).mp (by simpa using lower)
      apply Nat.le_antisymm _ passed
      apply Nat.le_of_not_lt
      intro more
      obtain ⟨n, same⟩ : ∃ n, Bisect.leading m.spans (·.start ≤ offset) = n + 1 :=
        ⟨_, (Nat.succ_pred_eq_of_pos (by omega)).symm⟩
      obtain ⟨inside, last⟩ := Bisect.leading_last same
      have apart := ordered.stop_le_start (j := k) (k := n) (by omega) inside
      simp only [decide_eq_true_eq] at last
      omega
    simp [spanAt?, counted, Array.getElem?_eq_getElem bound, upper]

end SpanMap

namespace Source

theorem map_spans (src : Source) :
    src.map.spans.toList = (SpanMap.marksFrom src.settings src.text true 0).1 := by
  rw [src.map_eq, SpanMap.build, SpanMap.scan_eq]
  simp

theorem map_terminators (src : Source) :
    src.map.terminators.toList = (SpanMap.marksFrom src.settings src.text true 0).2 := by
  rw [src.map_eq, SpanMap.build, SpanMap.scan_eq]
  simp

theorem span_fits {src : Source} {s : Span} (listed : s ∈ src.map.spans) :
    SpanMap.Fits src.settings src.text s := by
  rw [← Array.mem_toList_iff, map_spans] at listed
  exact (SpanMap.marksFrom_fits _ _ _ _ s listed).2

theorem map_ordered (src : Source) : src.map.Ordered where
  nonempty _ listed := (span_fits listed).nonempty
  apart := by
    rw [map_spans]
    exact SpanMap.marksFrom_ordered _ _ _ _

theorem spanAt?_eq_some_iff {src : Source} {offset : Nat} {s : Span} :
    src.map.spanAt? offset = some s ↔ s ∈ src.map.spans ∧ s.start ≤ offset ∧ offset < s.stop :=
  src.map_ordered.spanAt?_eq_some_iff

theorem spanAt?_eq_none_iff {src : Source} {offset : Nat} :
    src.map.spanAt? offset = none ↔
      ∀ s ∈ src.map.spans, ¬ (s.start ≤ offset ∧ offset < s.stop) := by
  rw [Option.eq_none_iff_forall_ne_some]
  constructor
  · intro free s listed covers
    exact free s (spanAt?_eq_some_iff.mpr ⟨listed, covers⟩)
  · intro free s found
    have covers := spanAt?_eq_some_iff.mp found
    exact free s covers.1 covers.2

end Source
end SasLayout
