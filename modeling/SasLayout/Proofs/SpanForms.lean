import SasLayout.Proofs.BracketDepth
import SasLayout.Proofs.CommentEdit

set_option autoImplicit false

/-!
The form of the spans of a map. A span that has an end of its own begins and ends with the signs of
its kind, and what stands between them does not close it. Together with the order of the spans and
the semicolons outside of them this is all that the searches in a map rely on.
-/
namespace SasLayout

/-- Bytes in which a quote stands only next to another one: read from the left, each quote has its
partner right behind it. -/
inductive Paired (quote : UInt8) : List UInt8 → Prop
  | nil : Paired quote []
  | byte {b : UInt8} {rest : List UInt8} (other : b ≠ quote) (later : Paired quote rest) :
    Paired quote (b :: rest)
  | pair {rest : List UInt8} (later : Paired quote rest) : Paired quote (quote :: quote :: rest)

namespace Text

variable {t : Text} {i stop : Nat} {quote : UInt8}

/-- A star and a slash stand at `i`. -/
def closesComment (t : Text) (i : Nat) : Bool :=
  t.byteIs i (· == Byte.star) && t.byteIs (i + 1) (· == Byte.slash)

theorem commentClose?_first (found : t.commentClose? i = some stop) :
    t.closesComment (stop - 2) = true ∧
      ∀ k, i ≤ k → k + 2 < stop → t.closesComment k = false := by
  fun_induction commentClose? t i with
  | case1 i _ both =>
    cases found
    exact ⟨both, fun k lower upper => by omega⟩
  | case2 i _ goes ih =>
    obtain ⟨sign, before⟩ := ih found
    refine ⟨sign, fun k lower upper => ?_⟩
    rcases Nat.eq_or_lt_of_le lower with rfl | later
    · simpa [closesComment] using goes
    · exact before k later upper
  | case3 => cases found

/-- A literal ends at the first quote that has no partner. -/
theorem quoteClose?_paired (found : t.quoteClose? quote i = some stop) :
    Paired quote (t.slice i (stop - 1)).toList ∧ t.byteIs stop (· == quote) = false := by
  fun_induction quoteClose? t quote i with
  | case1 i _ here next ih =>
    obtain ⟨inside, alone⟩ := ih found
    have bounds := quoteClose?_bounds found
    have quotes : ∀ {k}, t.byteIs k (· == quote) = true → t.byte? k = some quote := by
      intro k holds
      obtain ⟨b, read, same⟩ := byteIs_iff.mp holds
      rw [read, eq_of_beq same]
    rw [toList_slice_cons (quotes here) (by omega), toList_slice_cons (quotes next) (by omega)]
    exact ⟨.pair inside, alone⟩
  | case2 i _ _ alone =>
    cases found
    rw [Nat.add_sub_cancel, toList_slice_self]
    exact ⟨.nil, by simpa using alone⟩
  | case3 i within other ih =>
    obtain ⟨inside, alone⟩ := ih found
    have bounds := quoteClose?_bounds found
    obtain ⟨b, read⟩ := exists_byte within
    rw [byteIs_of_byte? read, beq_iff_eq] at other
    rw [toList_slice_cons read (by omega)]
    exact ⟨.byte other inside, alone⟩
  | case4 => cases found

end Text

namespace Span

variable {t : Text} {start : Nat} {kind : Kind} {close? : Option Nat}

/-- A span with an end of its own has the end that was found for it. -/
theorem upTo_closed {s : Span} (made : some (upTo t start kind close?) = some s)
    (closed : s.terminated = true) :
    close? = some s.stop ∧ s = ⟨start, s.stop, kind, true⟩ := by
  cases made
  cases close? with
  | none => cases closed
  | some stop => exact ⟨rfl, rfl⟩

/-- A comment between its two signs. The second is the first one behind the opening: in a slash, a
star and a slash the star belongs to the opening alone. -/
structure Commented (t : Text) (s : Span) : Prop where
  opens : t.opensBlockComment s.start = true
  wide : s.start + 4 ≤ s.stop
  closes : t.closesComment (s.stop - 2) = true
  first : ∀ k, s.start + 2 ≤ k → k + 2 < s.stop → t.closesComment k = false

/-- A comment up to the first semicolon behind it. -/
structure Remarked (t : Text) (settings : LexicalSettings) (s : Span) : Prop where
  opens : t.opensStatementComment settings s.start = true
  closes : t.byteIs s.stop Byte.isSemicolon = true
  first : ∀ k, s.start ≤ k → k < s.stop → t.byteIs k Byte.isSemicolon = false

/-- A literal between two quotes, with those inside in pairs and no other one behind it. -/
structure Quoted (t : Text) (settings : LexicalSettings) (quote : UInt8) (s : Span) : Prop where
  sign : quote = Byte.singleQuote ∨ settings.doubleQuotes = true ∧ quote = Byte.doubleQuote
  wide : s.start + 2 ≤ s.stop
  opens : t.byte? s.start = some quote
  closes : t.byte? (s.stop - 1) = some quote
  inside : Paired quote (t.slice (s.start + 1) (s.stop - 1)).toList
  alone : t.byte? s.stop ≠ some quote

/-- The form of a span by its kind. -/
def HasForm (t : Text) (settings : LexicalSettings) (s : Span) : Prop :=
  match s.kind with
  | .blockComment => s.Commented t
  | .statementComment => s.Remarked t settings
  | .stringLiteral => ∃ quote, s.Quoted t settings quote

end Span

namespace Text

variable {t : Text} {settings : LexicalSettings} {fresh : Bool} {i : Nat} {s : Span}

theorem commented_of_close {stop : Nat} (opens : t.opensBlockComment i = true)
    (close : t.commentClose? (i + 2) = some stop) :
    Span.Commented t ⟨i, stop, .blockComment, true⟩ := by
  obtain ⟨sign, before⟩ := commentClose?_first close
  have bounds := commentClose?_bounds close
  exact ⟨opens, by dsimp only; omega, sign, before⟩

theorem remarked_of_close {stop : Nat} (opens : t.opensStatementComment settings i = true)
    (close : t.semicolon? (i + 1) = some stop) :
    Span.Remarked t settings ⟨i, stop, .statementComment, true⟩ := by
  obtain ⟨-, here, before⟩ := semicolon?_eq_some_iff.mp close
  refine ⟨opens, here, fun k lower upper => ?_⟩
  rcases Nat.eq_or_lt_of_le lower with rfl | later
  · simp only [opensStatementComment, Bool.or_eq_true, Bool.and_eq_true] at opens
    rcases opens with star | ⟨⟨-, percent⟩, -⟩
    · exact byteIs_apart star fun b same => by rw [eq_of_beq same]; decide
    · exact byteIs_apart percent fun b same => by rw [eq_of_beq same]; decide
  · exact before k later upper

theorem quoted_of_close {stop : Nat} {quote : UInt8} (opens : t.opensLiteral settings i = true)
    (here : t.byte? i = some quote) (close : t.quoteClose? quote (i + 1) = some stop) :
    Span.Quoted t settings quote ⟨i, stop, .stringLiteral, true⟩ := by
  obtain ⟨inside, alone⟩ := quoteClose?_paired close
  have bounds := quoteClose?_bounds close
  have last := quoteClose?_quote close
  refine ⟨?_, by dsimp only; omega, here, ?_, inside, ?_⟩
  · rw [opensLiteral, byteIs_of_byte? here] at opens
    simpa using opens
  · obtain ⟨b, read, same⟩ := byteIs_iff.mp last
    rw [read, eq_of_beq same]
  · intro again
    rw [byteIs_of_byte? again, beq_self_eq_true] at alone
    cases alone

/-- A span that opens at `i` and has an end of its own has the form of its kind. -/
theorem opening?_hasForm (opened : t.opening? settings fresh i = some s)
    (closed : s.terminated = true) : s.HasForm t settings := by
  unfold opening? at opened
  split at opened
  · rename_i opens
    obtain ⟨close, form⟩ := Span.upTo_closed opened closed
    rw [form]
    exact commented_of_close opens close
  split at opened
  · rename_i opens
    obtain ⟨close, form⟩ := Span.upTo_closed opened closed
    rw [form]
    exact remarked_of_close (Bool.and_eq_true_iff.mp opens).2 close
  split at opened
  · rename_i opens
    obtain ⟨close, form⟩ := Span.upTo_closed opened closed
    obtain ⟨quote, here, close⟩ := Option.bind_eq_some_iff.mp close
    rw [form]
    exact ⟨quote, quoted_of_close opens here close⟩
  · cases opened

end Text

namespace SpanMap

/-- What the searches in the map of a text rely on. -/
structure Lawful (settings : LexicalSettings) (t : Text) (m : SpanMap) : Prop where
  nonempty : ∀ s ∈ m.spans, s.start < s.stop
  within : ∀ s ∈ m.spans, s.stop ≤ t.size
  boundaries : ∀ s ∈ m.spans, t.isBoundary s.start = true ∧ t.isBoundary s.stop = true
  apart : m.spans.toList.Pairwise fun a b => a.start < b.start ∧ a.stop ≤ b.start
  /-- Only the last span may lack an end of its own, and then it goes on to the end of the text. -/
  unclosed : ∀ s ∈ m.spans, s.terminated = false → m.spans.back? = some s ∧ s.stop = t.size
  closed : ∀ s ∈ m.spans, s.terminated = true → s.HasForm t settings
  terminators : ∀ i, i ∈ m.terminators ↔ t.byteIs i Byte.isSemicolon = true ∧
    ∀ s ∈ m.spans, ¬ (s.start ≤ i ∧ i < s.stop)
  ascending : m.terminators.toList.Pairwise (· < ·)
  found : ∀ offset s, m.spanAt? offset = some s ↔
    s ∈ m.spans ∧ s.start ≤ offset ∧ offset < s.stop

end SpanMap

namespace Source

variable {src : Source} {s : Span}

theorem span_unclosed (listed : s ∈ src.map.spans) (unclosed : s.terminated = false) :
    src.map.spans.back? = some s ∧ s.stop = src.text.size := by
  obtain ⟨fresh, opened⟩ := (span_fits listed).opened
  have last : s.stop = src.text.size := Text.opening?_open opened unclosed
  refine ⟨?_, last⟩
  obtain ⟨k, bound, rfl⟩ := Array.mem_iff_getElem.mp listed
  -- A span behind it would start at the end of the text.
  have final : k = src.map.spans.size - 1 := by
    apply Classical.byContradiction
    intro other
    have next : k + 1 < src.map.spans.size := by omega
    have fits := span_fits (Array.getElem_mem next)
    have apart := src.map_ordered.stop_le_start (j := k) (k := k + 1) (by omega) next
    have nonempty := fits.nonempty
    have within := fits.within
    omega
  rw [Array.back?, ← final, Array.getElem?_eq_getElem bound]

theorem spans_apart (src : Source) :
    src.map.spans.toList.Pairwise fun a b => a.start < b.start ∧ a.stop ≤ b.start := by
  refine src.map_ordered.apart.imp_of_mem fun first _ apart => ⟨?_, apart⟩
  exact Nat.lt_of_lt_of_le (src.map_ordered.nonempty _ (Array.mem_toList_iff.mp first)) apart

theorem mem_terminators_iff_free {i : Nat} :
    i ∈ src.map.terminators ↔ src.text.byteIs i Byte.isSemicolon = true ∧
      ∀ s ∈ src.map.spans, ¬ (s.start ≤ i ∧ i < s.stop) := by
  rw [← spanAt?_eq_none_iff]
  constructor
  · intro listed
    exact ⟨terminators_semicolon listed, terminators_free listed⟩
  · rintro ⟨here, free⟩
    exact mem_terminators here free

theorem map_lawful (src : Source) (joined : src.text.Joined) :
    src.map.Lawful src.settings src.text where
  nonempty _ listed := (span_fits listed).nonempty
  within _ listed := (span_fits listed).within
  boundaries _ listed := tokens_boundary joined _ (src.tokens_tiling.span_mem listed)
  apart := src.spans_apart
  unclosed _ := span_unclosed
  closed _ listed closed := by
    obtain ⟨fresh, opened⟩ := (span_fits listed).opened
    exact Text.opening?_hasForm opened closed
  terminators _ := mem_terminators_iff_free
  ascending := src.terminators_ascend
  found _ _ := spanAt?_eq_some_iff

end Source

/-- The pass over a text builds a lawful map. Its spans are not empty, stand in order without
overlap, within the text and on character boundaries. Only the last one can lack an end of its own;
all others have the form of their kind. A semicolon is listed if and only if no span covers it, and
the bisection for an offset finds the one span that covers it. -/
theorem SpanMap.build_lawful (settings : LexicalSettings) (s : String) :
    (build settings (Text.ofString s)).Lawful settings (Text.ofString s) :=
  (Source.ofText settings (Text.ofString s)).map_lawful (Text.joined_ofString s)

/-- A quote written twice, a slash that closes nothing, and a literal that does not end. -/
example : SpanMap.build {} (.ofString "x = 'it''s;'; /*/ ; */ * c; y = \"") =
    ⟨#[⟨4, 12, .stringLiteral, true⟩, ⟨14, 22, .blockComment, true⟩,
      ⟨23, 26, .statementComment, true⟩, ⟨32, 33, .stringLiteral, false⟩], #[12, 26]⟩ := by
  decide +kernel

end SasLayout
