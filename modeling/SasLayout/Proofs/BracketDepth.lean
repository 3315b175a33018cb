import SasLayout.Proofs.StatementStarts

set_option autoImplicit false

/-!
The brackets that are open at an offset, counted over tokens. The count in the text goes byte by
byte and leaps over spans with an index that runs along them; that index always stands at the first
span that has not ended, so that it finds the span over each byte. A bracket of the code is a token
by itself and no other token has one inside, so a fold over the tokens of the statement before the
offset gives the same number.
-/
namespace SasLayout

namespace Token

/-- The brackets that are open behind a token when `depth` are open before it. A closing bracket
without an open one changes nothing. -/
def openBehind (depth : Nat) (tok : Token) : Nat :=
  match tok.kind with
  | .openParen => depth + 1
  | .closeParen => depth - 1
  | _ => depth

/-- The tokens that start at `start` or later and before `limit`. -/
def startingIn (tokens : List Token) (start limit : Nat) : List Token :=
  tokens.filter fun tok => start ≤ tok.start && tok.start < limit

theorem openBehind_span {tok : Token} (covered : tok.kind.isSpan = true) (depth : Nat) :
    openBehind depth tok = depth := by
  unfold openBehind
  split
  · rename_i kind
    rw [kind] at covered
    cases covered
  · rename_i kind
    rw [kind] at covered
    cases covered
  · rfl

theorem Kind.ofWord_not_bracket (word : Text) :
    ofWord word ≠ .openParen ∧ ofWord word ≠ .closeParen := by
  unfold ofWord
  simp only
  repeat' split
  all_goals simp

end Token

namespace Text

variable {t : Text} {i : Nat}

/-- A bracket of either kind is a token of one byte. -/
theorem shapeAt_of_bracket {b : UInt8} (here : t.byte? i = some b) :
    (Byte.isOpenBracket b = true → t.shapeAt i = (.openParen, i + 1)) ∧
      (Byte.isCloseBracket b = true → t.shapeAt i = (.closeParen, i + 1)) := by
  have stands : t.From i (b :: t.toList.drop (i + 1)) := by
    rw [byte?_eq_getElem?] at here
    rw [From, List.drop_eq_getElem?_toList_append, here]
    rfl
  exact Program.shapeAt_bracket stands

/-- No other token is taken for a bracket. -/
theorem bracket_of_shapeAt :
    ((t.shapeAt i).1 = .openParen → t.byteIs i Byte.isOpenBracket = true) ∧
      ((t.shapeAt i).1 = .closeParen → t.byteIs i Byte.isCloseBracket = true) := by
  have shape := t.shape_shapeAt i
  revert shape
  generalize t.shapeAt i = result
  rintro (starts | starts | ⟨sign, starts⟩ | found | ⟨listed, stands⟩ | ⟨other, alone⟩)
  · exact ⟨by simp, by simp⟩
  · exact ⟨fun kind => absurd kind (Token.Kind.ofWord_not_bracket _).1,
      fun kind => absurd kind (Token.Kind.ofWord_not_bracket _).2⟩
  · exact ⟨fun kind => absurd kind (Token.Kind.ofWord_not_bracket _).1,
      fun kind => absurd kind (Token.Kind.ofWord_not_bracket _).2⟩
  · exact ⟨by simp, by simp⟩
  · exact ⟨by simp, by simp⟩
  · cases alone with
    | openParen here => exact ⟨fun _ => here, by simp⟩
    | closeParen here => exact ⟨by simp, fun _ => here⟩
    | statementEnd | punctuation => exact ⟨by simp, by simp⟩

theorem shapeAt_openParen_iff :
    (t.shapeAt i).1 = .openParen ↔ t.byteIs i Byte.isOpenBracket = true := by
  apply Iff.intro bracket_of_shapeAt.1
  intro opens
  obtain ⟨b, here, held⟩ := byteIs_iff.mp opens
  rw [(shapeAt_of_bracket here).1 held]

theorem shapeAt_closeParen_iff :
    (t.shapeAt i).1 = .closeParen ↔ t.byteIs i Byte.isCloseBracket = true := by
  apply Iff.intro bracket_of_shapeAt.2
  intro closes
  obtain ⟨b, here, held⟩ := byteIs_iff.mp closes
  rw [(shapeAt_of_bracket here).2 held]

end Text

namespace Source

open Token

variable {src : Source} {tokens : List Token} {i j limit : Nat}

/-! ### Bytes and tokens -/

/-- What a code token does to the brackets is what its first byte does. -/
theorem openBehind_tokenAt (src : Source) (i depth : Nat) :
    openBehind depth (src.text.tokenAt i) = src.openPast i depth := by
  unfold openPast
  by_cases opens : src.text.byteIs i Byte.isOpenBracket = true
  · rw [if_pos opens, openBehind, tokenAt_kind, Text.shapeAt_openParen_iff.mpr opens]
  rw [if_neg opens]
  by_cases closes : src.text.byteIs i Byte.isCloseBracket = true
  · rw [if_pos closes, openBehind, tokenAt_kind, Text.shapeAt_closeParen_iff.mpr closes]
  rw [if_neg closes]
  unfold openBehind
  split
  · rename_i kind
    exact absurd (Text.shapeAt_openParen_iff.mp kind) opens
  · rename_i kind
    exact absurd (Text.shapeAt_closeParen_iff.mp kind) closes
  · rfl

namespace Tiling

/-- The tokens from the start of one of them on are that token and those from any later offset up to
its end. -/
theorem startingIn_token (tiling : src.Tiling tokens) {tok : Token} (listed : tok ∈ tokens)
    (before : tok.start < limit) (lower : tok.start < j) (upper : j ≤ tok.stop) :
    startingIn tokens tok.start limit = tok :: startingIn tokens j limit := by
  obtain ⟨front, back, rfl, behind, ahead⟩ := tiling.split listed
  have earlier : ∀ k, tok.start ≤ k → startingIn front k limit = [] := by
    intro k later
    apply List.filter_eq_nil_iff.mpr
    intro a member
    have := behind a member
    have := tiling.nonempty a (List.mem_append_left _ member)
    simp only [Bool.and_eq_true, decide_eq_true_eq]
    omega
  have same : startingIn back tok.start limit = startingIn back j limit := by
    apply List.filter_congr
    intro b member
    have := ahead b member
    rw [decide_eq_true (show tok.start ≤ b.start by omega),
      decide_eq_true (show j ≤ b.start by omega)]
  have first : startingIn [tok] tok.start limit = [tok] := by simp [startingIn, before]
  have passed : startingIn [tok] j limit = [] := by simp [startingIn, lower]
  have parts : ∀ k, startingIn (front ++ tok :: back) k limit =
      startingIn front k limit ++ (startingIn [tok] k limit ++ startingIn back k limit) := by
    intro k
    simp only [startingIn, ← List.filter_append, List.singleton_append]
  rw [parts, parts, earlier _ (Nat.le_refl _), earlier j (Nat.le_of_lt lower), first, passed, same]
  rfl

theorem startingIn_next (absent : ∀ tok ∈ tokens, tok.start ≠ i) :
    startingIn tokens i limit = startingIn tokens (i + 1) limit := by
  apply List.filter_congr
  intro tok listed
  have := absent tok listed
  congr 1
  apply decide_eq_decide.mpr
  omega

/-- A bracket of the code starts a token: inside a token there is none. -/
theorem exists_start (tiling : src.Tiling tokens) (inside : i < src.size)
    (free : src.map.spanAt? i = none)
    (bracket : src.text.byteIs i (fun b => Byte.isOpenBracket b || Byte.isCloseBracket b) = true) :
    ∃ tok ∈ tokens, tok.start = i := by
  have visible : src.text.byteIs i Byte.isBlank = false := by
    apply Text.byteIs_apart bracket
    exact Byte.forall_of_halves (p := fun b => (Byte.isOpenBracket b || Byte.isCloseBracket b) = true →
      Byte.isBlank b = false) (by decide)
  obtain ⟨tok, listed, code, lower, upper⟩ := tiling.code_covers inside visible free
  refine ⟨tok, listed, Nat.le_antisymm lower (Nat.le_of_not_lt fun later => ?_)⟩
  have lexed := (tiling.lexed tok listed code).1
  rw [lexed, tokenAt_stop] at upper
  have other : src.text.byteIs i (fun b => Byte.isOpenBracket b || Byte.isCloseBracket b) = false := by
    apply Text.byteIs_apart (Text.shapeAt_tail later upper)
    intro b held
    simpa [Byte.isTail] using (Bool.and_eq_true_iff.mp held).2
  rw [other] at bracket
  cases bracket

/-- The fold over the tokens passes a byte of the code as the count does. -/
theorem foldl_code (tiling : src.Tiling tokens) (inside : i < src.size) (before : i < limit)
    (free : src.map.spanAt? i = none) (depth : Nat) :
    (startingIn tokens i limit).foldl openBehind depth =
      (startingIn tokens (i + 1) limit).foldl openBehind (src.openPast i depth) := by
  by_cases starts : ∃ tok ∈ tokens, tok.start = i
  · obtain ⟨tok, listed, rfl⟩ := starts
    have code : tok.kind.isSpan = false := by
      cases covered : tok.kind.isSpan with
      | false => rfl
      | true =>
        obtain ⟨s, member, rfl⟩ := tiling.exists_span listed covered
        exact absurd ⟨Nat.le_refl _, tiling.nonempty _ listed⟩ (spanAt?_eq_none_iff.mp free s member)
    have nonempty := tiling.nonempty tok listed
    rw [tiling.startingIn_token listed before (Nat.lt_succ_self _) nonempty, List.foldl_cons,
      ← src.openBehind_tokenAt, ← (tiling.lexed tok listed code).1]
  · have plain : src.openPast i depth = depth := by
      unfold openPast
      rw [if_neg, if_neg]
      · intro closes
        exact starts (tiling.exists_start inside free
          (Text.byteIs_mono closes fun b held => by rw [held, Bool.or_true]))
      · intro opens
        exact starts (tiling.exists_start inside free
          (Text.byteIs_mono opens fun b held => by rw [held, Bool.true_or]))
    rw [startingIn_next fun tok listed same => starts ⟨tok, listed, same⟩, plain]

theorem clear_zero : Clear src 0 := by
  intro s listed across
  omega

theorem clear_succ (free : src.map.spanAt? i = none) : Clear src (i + 1) := by
  intro s listed across
  exact spanAt?_eq_none_iff.mp free s listed ⟨by omega, by omega⟩

theorem clear_stop {s : Span} (listed : s ∈ src.map.spans) : Clear src s.stop := by
  intro other member across
  have nonempty := (span_fits listed).nonempty
  -- both would cover the last byte of `s`
  have first := spanAt?_eq_some_iff.mpr
    ⟨listed, show s.start ≤ s.stop - 1 by omega, show s.stop - 1 < s.stop by omega⟩
  have second := spanAt?_eq_some_iff.mpr
    ⟨member, show other.start ≤ s.stop - 1 by omega, show s.stop - 1 < other.stop by omega⟩
  rw [first, Option.some.injEq] at second
  subst second
  omega

/-- The spans up to index `next` end by `i`, and no other. -/
def Pointing (src : Source) (next i : Nat) : Prop :=
  ∀ k s, src.map.spans[k]? = some s → (k < next ↔ s.stop ≤ i)

theorem spans_apart_get {k n : Nat} {s other : Span} (first : src.map.spans[k]? = some s)
    (second : src.map.spans[n]? = some other) (below : k < n) : s.stop ≤ other.start := by
  obtain ⟨inside, rfl⟩ := Array.getElem?_eq_some_iff.mp first
  obtain ⟨bound, rfl⟩ := Array.getElem?_eq_some_iff.mp second
  exact src.map_ordered.stop_le_start below bound

theorem span_nonempty {k : Nat} {s : Span} (found : src.map.spans[k]? = some s) :
    s.start < s.stop :=
  src.map_ordered.nonempty s (Array.mem_of_getElem? found)

/-- Bisection by the ends of the spans finds the index to begin with. -/
theorem pointing_leading (src : Source) (start : Nat) :
    Pointing src (Bisect.leading src.map.spans (·.stop ≤ start)) start := by
  have splits : Bisect.Splits src.map.spans (·.stop ≤ start) := by
    intro j k first second below held
    rcases Nat.eq_or_lt_of_le below with rfl | later
    · exact held
    · have apart := spans_apart_get (Array.getElem?_eq_getElem first)
        (Array.getElem?_eq_getElem second) later
      have nonempty := span_nonempty (Array.getElem?_eq_getElem second)
      simp only [decide_eq_true_eq] at held ⊢
      omega
  intro k s found
  obtain ⟨bound, rfl⟩ := Array.getElem?_eq_some_iff.mp found
  rw [← Bisect.leading_spec splits k bound, decide_eq_true_eq]

/-- The span that is waited for is the one that covers an offset, once it has started. -/
theorem Pointing.spanAt? {next : Nat} (pointing : Pointing src next i) :
    src.map.spanAt? i = (src.map.spans[next]?).filter (·.start ≤ i) := by
  cases found : src.map.spans[next]? with
  | none =>
    rw [Option.filter_none, spanAt?_eq_none_iff]
    rintro s listed ⟨-, upper⟩
    obtain ⟨k, bound, rfl⟩ := Array.mem_iff_getElem.mp listed
    have later : ¬ k < next := fun below =>
      absurd ((pointing k _ (Array.getElem?_eq_getElem bound)).mp below) (by omega)
    rw [Array.getElem?_eq_none_iff] at found
    omega
  | some s =>
    have ahead : ¬ s.stop ≤ i := fun ended =>
      absurd ((pointing next s found).mpr ended) (Nat.lt_irrefl _)
    by_cases begun : s.start ≤ i
    · rw [Option.filter_some, if_pos (by simpa using begun), spanAt?_eq_some_iff]
      exact ⟨Array.mem_of_getElem? found, begun, by omega⟩
    · rw [Option.filter_some, if_neg (by simpa using begun), spanAt?_eq_none_iff]
      rintro other listed ⟨lower, upper⟩
      obtain ⟨k, bound, rfl⟩ := Array.mem_iff_getElem.mp listed
      have here := Array.getElem?_eq_getElem bound
      have later : ¬ k < next := fun below => absurd ((pointing k _ here).mp below) (by omega)
      rcases Nat.eq_or_lt_of_le (Nat.le_of_not_lt later) with rfl | beyond
      · rw [here] at found
        obtain rfl := Option.some.inj found
        exact begun lower
      · have := spans_apart_get found here beyond
        have := span_nonempty found
        omega

theorem Pointing.succ {next : Nat} (pointing : Pointing src next i)
    (free : src.map.spanAt? i = none) : Pointing src next (i + 1) := by
  intro k s found
  rw [pointing k s found]
  have nonempty := span_nonempty found
  have apart := spanAt?_eq_none_iff.mp free s (Array.mem_of_getElem? found)
  omega

theorem Pointing.leap {next : Nat} (pointing : Pointing src next i) {s : Span}
    (found : src.map.spans[next]? = some s) : Pointing src (next + 1) s.stop := by
  intro k other here
  rcases Nat.lt_trichotomy k next with below | rfl | beyond
  · have := spans_apart_get here found below
    have := span_nonempty found
    omega
  · rw [here] at found
    obtain rfl := Option.some.inj found
    omega
  · have := spans_apart_get found here beyond
    have := span_nonempty here
    omega

/-- The count from an offset that is not inside a span on is a fold over the tokens. -/
theorem depthFrom_eq (tiling : src.Tiling tokens) (bounded : limit ≤ src.size) {next : Nat}
    (depth : Nat) (clear : Clear src i) (pointing : Pointing src next i) :
    src.depthFrom limit next i depth = (startingIn tokens i limit).foldl openBehind depth := by
  fun_induction depthFrom src limit next i depth with
  | case1 next i depth before s met _ begun ih =>
    have covered : src.map.spanAt? i = some s := by
      rw [pointing.spanAt?, met, Option.filter_some, if_pos (by simpa using begun)]
    obtain ⟨listed, lower, upper⟩ := spanAt?_eq_some_iff.mp covered
    obtain rfl : (src.spanToken s).start = i := by
      have := clear s listed
      rw [spanToken_start]
      omega
    rw [ih (clear_stop listed) (pointing.leap met),
      tiling.startingIn_token (tiling.span_mem listed) before upper (Nat.le_refl _),
      List.foldl_cons, openBehind_span (src.spanToken_isSpan s)]
  | case2 next i depth before s met _ waiting ih =>
    have free : src.map.spanAt? i = none := by
      rw [pointing.spanAt?, met, Option.filter_some, if_neg (by simpa using waiting)]
    rw [ih (clear_succ free) (pointing.succ free),
      tiling.foldl_code (Nat.lt_of_lt_of_le before bounded) before free]
  | case3 next i depth before met ih =>
    have free : src.map.spanAt? i = none := by
      rw [pointing.spanAt?, met, Option.filter_none]
    rw [ih (clear_succ free) (pointing.succ free),
      tiling.foldl_code (Nat.lt_of_lt_of_le before bounded) before free]
  | case4 next i depth past =>
    have none : startingIn tokens i limit = [] := by
      apply List.filter_eq_nil_iff.mpr
      intro tok listed
      simp only [Bool.and_eq_true, decide_eq_true_eq]
      omega
    rw [none, List.foldl_nil]

theorem depthBetween_eq (tiling : src.Tiling tokens) (bounded : limit ≤ src.size)
    (clear : Clear src i) :
    src.depthBetween i limit = (startingIn tokens i limit).foldl openBehind 0 :=
  tiling.depthFrom_eq bounded 0 clear (pointing_leading src i)

/-- The tokens of a span's kind over an offset are those of the span that the map has there. -/
theorem covers_iff (tiling : src.Tiling tokens) {kind : Token.Kind} (covered : kind.isSpan = true) :
    (∃ tok ∈ tokens, tok.kind = kind ∧ tok.start ≤ i ∧ i < tok.stop) ↔
      ∃ s, src.map.spanAt? i = some s ∧ (src.spanToken s).kind = kind := by
  constructor
  · rintro ⟨tok, listed, rfl, covers⟩
    obtain ⟨s, member, rfl⟩ := tiling.exists_span listed covered
    exact ⟨s, spanAt?_eq_some_iff.mpr ⟨member, covers⟩, rfl⟩
  · rintro ⟨s, found, rfl⟩
    obtain ⟨listed, covers⟩ := spanAt?_eq_some_iff.mp found
    exact ⟨src.spanToken s, tiling.span_mem listed, rfl, covers⟩

end Tiling

/-! ### The context of an offset -/

theorem previousTerminator?_eq_getLast? (src : Source) (offset : Nat) :
    src.map.previousTerminator? offset =
      (src.map.terminators.toList.filter (· < offset)).getLast? := by
  obtain ⟨front, back, view, early, late⟩ :=
    exists_ascending_split (f := id) (src.terminators_ascend.imp Nat.le_of_lt) offset
  have count := Bisect.leading_eq (p := (· < offset)) view
    (fun last listed => by simpa using early last listed)
    (fun last listed => by simpa using late last listed)
  have kept : src.map.terminators.toList.filter (· < offset) = front := by
    rw [view, List.filter_append, List.filter_eq_self.mpr, List.filter_eq_nil_iff.mpr,
      List.append_nil]
    · exact fun last listed => by simpa using late last listed
    · exact fun last listed => by simpa using early last listed
  rw [kept, SpanMap.previousTerminator?, count, List.getLast?_eq_getElem?]
  split
  · rename_i none
    rw [none, List.getElem?_eq_none (by omega)]
  · rename_i k some
    rw [some, Nat.succ_sub_one, ← Array.getElem?_toList, view,
      List.getElem?_append_left (by omega)]

/-- No span covers a semicolon of the code. -/
theorem terminators_free (listed : i ∈ src.map.terminators) : src.map.spanAt? i = none := by
  rw [← Array.mem_toList_iff, map_terminators, ← lexFrom_ends] at listed
  obtain ⟨tok, kept, rfl⟩ := List.mem_map.mp listed
  obtain ⟨member, ends⟩ := List.mem_filter.mp kept
  rw [decide_eq_true_eq] at ends
  have tiling := src.lexFrom_tiling
  exact tiling.code_free member (by rw [ends]; rfl) (Nat.le_refl _) (tiling.nonempty tok member)

/-- A statement starts at the start of the text or behind a byte of the code. -/
theorem clear_afterTerminator (src : Source) (offset : Nat) :
    Tiling.Clear src (src.afterTerminator offset) := by
  unfold afterTerminator
  rw [previousTerminator?_eq_getLast?]
  split
  · rename_i last found
    have listed := (List.mem_filter.mp (List.mem_of_getLast? found)).1
    exact Tiling.clear_succ (terminators_free (Array.mem_toList_iff.mp listed))
  · exact Tiling.clear_zero

/-- The offset up to which brackets count: the start of the comment or literal over `offset`, or
`offset` itself. -/
def bracketLimit (src : Source) (offset : Nat) : Nat :=
  ((spanAround? src.tokens.toList (offset + 1)).map (·.start)).getD offset

/-- The end of the last semicolon of the code before `limit`, or the start of the text. -/
def lastTerminatorStop (src : Source) (limit : Nat) : Nat :=
  ((src.map.terminators.toList.filter (· < limit)).getLast?.map (· + 1)).getD 0

theorem afterTerminator_eq (src : Source) (limit : Nat) :
    src.afterTerminator limit = src.lastTerminatorStop limit := by
  rw [afterTerminator, previousTerminator?_eq_getLast?, lastTerminatorStop]
  cases (src.map.terminators.toList.filter (· < limit)).getLast? <;> rfl

theorem bracketLimit_span {offset : Nat} {s : Span} (found : src.map.spanAt? offset = some s) :
    src.bracketLimit offset = s.start := by
  rw [bracketLimit, src.tokens_tiling.spanAround?_eq found]
  rfl

theorem bracketLimit_code {offset : Nat} (free : src.map.spanAt? offset = none) :
    src.bracketLimit offset = offset := by
  rw [bracketLimit, src.tokens_tiling.spanAround?_free free]
  rfl

theorem bracketLimit_le (src : Source) (offset : Nat) : src.bracketLimit offset ≤ offset := by
  cases found : src.map.spanAt? offset with
  | none => rw [bracketLimit_code found]
  | some s =>
    rw [bracketLimit_span found]
    exact SpanMap.spanAt?_start_le found

theorem contextAt_eq {offset : Nat} (within : offset ≤ src.size) :
    src.contextAt offset = ⟨src.map.regionAt offset, src.depthBetween
      (src.afterTerminator (src.bracketLimit offset)) (src.bracketLimit offset)⟩ := by
  simp only [contextAt, SpanMap.regionAt, Nat.min_eq_left within]
  cases found : src.map.spanAt? offset with
  | none => rw [bracketLimit_code found]
  | some s => rw [bracketLimit_span found]

theorem regionAt_iff {offset : Nat} {region : Region} (covered : region ≠ .code) :
    src.map.regionAt offset = region ↔ ∃ s, src.map.spanAt? offset = some s ∧ s.region = region := by
  unfold SpanMap.regionAt
  split
  · rename_i s found
    simp [found]
  · rename_i free
    simp [free, covered.symm]

theorem spanToken_kind_iff (src : Source) (s : Span) :
    ((src.spanToken s).kind = .comment ↔ s.region = .comment) ∧
      ((src.spanToken s).kind = .stringLiteral ↔ s.region = .string) := by
  obtain ⟨start, stop, kind, terminated⟩ := s
  cases kind <;> simp [spanToken, Span.isComment, Span.region, Span.Kind.region]

/-- The brackets that are open at an offset are those of the tokens of its statement before it, and
it is in a comment or a literal exactly when a token of that kind lies over it. -/
theorem contextAt_by_tokens (settings : LexicalSettings) (t : Text) (offset : Nat)
    (within : offset ≤ t.size) :
    let src := Source.ofText settings t
    let tokens := src.tokens.toList
    let limit := src.bracketLimit offset
    (src.contextAt offset).depth =
      (startingIn tokens (src.lastTerminatorStop limit) limit).foldl openBehind 0 ∧
    ((src.contextAt offset).region = .comment ↔
      ∃ tok ∈ tokens, tok.kind = .comment ∧ tok.start ≤ offset ∧ offset < tok.stop) ∧
    ((src.contextAt offset).region = .string ↔
      ∃ tok ∈ tokens, tok.kind = .stringLiteral ∧ tok.start ≤ offset ∧ offset < tok.stop) := by
  intro src tokens limit
  have tiling : src.Tiling tokens := src.tokens_tiling
  have bounded : limit ≤ src.size := Nat.le_trans (src.bracketLimit_le offset) within
  rw [contextAt_eq within]
  refine ⟨?_, ?_, ?_⟩
  · rw [tiling.depthBetween_eq bounded (src.clear_afterTerminator limit), afterTerminator_eq]
  · rw [regionAt_iff (by decide), tiling.covers_iff rfl]
    simp only [(src.spanToken_kind_iff _).1]
  · rw [regionAt_iff (by decide), tiling.covers_iff rfl]
    simp only [(src.spanToken_kind_iff _).2]

theorem contextAt_by_tokens_covered :
    let src := Source.ofText {} (.ofString "(; f(a, ')' /* ( */ [x")
    src.bracketLimit 15 = 12 ∧ src.lastTerminatorStop 12 = 2 ∧
      (src.contextAt 15).depth = (startingIn src.tokens.toList 2 12).foldl openBehind 0 ∧
      (src.contextAt 15).region = .comment ∧
      (src.contextAt 22).depth = (startingIn src.tokens.toList 2 22).foldl openBehind 0 ∧
      src.contextAt 22 = ⟨.code, 2⟩ := by
  intro src
  have limit : src.bracketLimit 15 = 12 := by decide +kernel
  have last : src.bracketLimit 22 = 22 := by decide +kernel
  have start : src.lastTerminatorStop 12 = 2 := by decide +kernel
  have same : src.lastTerminatorStop 22 = 2 := by decide +kernel
  have comment : ∃ tok ∈ src.tokens.toList, tok.kind = .comment ∧ tok.start ≤ 15 ∧ 15 < tok.stop := by
    decide +kernel
  have covered := contextAt_by_tokens {} (.ofString "(; f(a, ')' /* ( */ [x") 15 (by decide +kernel)
  have ended := contextAt_by_tokens {} (.ofString "(; f(a, ')' /* ( */ [x") 22 (by decide +kernel)
  refine ⟨limit, start, ?_, covered.2.1.mpr comment, ?_, by decide +kernel⟩
  · rw [covered.1, limit, start]
  · rw [ended.1, last, same]

end Source
end SasLayout
