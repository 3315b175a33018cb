import SasLayout.Proofs.CommentWords
import SasLayout.Proofs.SearchReach

set_option autoImplicit false

/-!
Blocks beside a comment whose inside is rewritten. The patterns of keywords know nothing of
comments, so a match that begins inside one can swallow the code behind it, and a closing statement
before one can end with a semicolon inside. Where neither happens, in the one text or in the other,
the keywords that count are the same, and so are the blocks that they lead to.
-/
namespace SasLayout

/-- The block with its ends moved by `f`. -/
def Block.moved (f : Nat → Nat) (b : Block) : Block :=
  { b with start := f b.start, headerEnd := f b.headerEnd, stop := f b.stop }

def ScanError.moved (f : Nat → Nat) : ScanError → ScanError
  | outOfRange cause => .outOfRange (cause.moved f)
  | retryLimit offset limit => .retryLimit (f offset) limit

namespace Pattern

/-- The pattern matches at `i` and where `i` has gone, up to ends that correspond and are not in the
comment, or at neither place. -/
def MatchesAlike (pattern : Pattern) (t u : Text) (s : Span) (size i : Nat) : Prop :=
  (pattern t i = none ∧ pattern u (s.shift size i) = none) ∨
    ∃ stop, (stop ≤ s.start ∨ s.stop ≤ stop) ∧ i ≤ stop ∧ pattern t i = some (stop - i) ∧
      pattern u (s.shift size i) = some (s.shift size stop - s.shift size i)

theorem MatchesAlike.isSome {pattern : Pattern} {t u : Text} {s : Span} {size i : Nat}
    (alike : pattern.MatchesAlike t u s size i) :
    (pattern u (s.shift size i)).isSome = (pattern t i).isSome := by
  rcases alike with ⟨left, right⟩ | ⟨stop, -, -, left, right⟩
  · rw [left, right]
  · rw [left, right]
    rfl

theorem isSome_blockKeyword (quitCloses : Bool) (t : Text) (i : Nat) :
    (blockKeyword quitCloses t i).isSome =
      ((stepOpener t i).isSome || (macroKeyword t i).isSome ||
        (stepCloser quitCloses t i).isSome) := by
  unfold blockKeyword
  cases stepOpener t i with
  | some length => rfl
  | none => cases macroKeyword t i <;> rfl

end Pattern

namespace Scanner

/-- The comment `s` is no obstacle to a search: the text is shorter than the limit on rejected
keywords, no keyword that counts overlaps another match, and no `%mend` that counts before the
comment ends inside it. -/
structure Clear (sc : Scanner) (s : Span) : Prop where
  short : sc.text.size < sc.settings.limits.retries
  apart : sc.KeywordsApart
  mends : ∀ i < s.start, sc.rejection? ⟨i, i⟩ = none →
    sc.text.signWordAt Text.mendWord i = true →
    ∀ last ∈ sc.text.semicolon? (i + 5), last < s.start ∨ s.stop ≤ last

/-- Before the comment `s` the same words begin a closing statement of a step. -/
def SameClosers (sc other : Scanner) (s : Span) : Prop :=
  ∀ i < s.start, sc.rejection? ⟨i, i⟩ = none →
    (Pattern.stepCloser sc.settings.quitCloses other.text i).isSome =
      (Pattern.stepCloser sc.settings.quitCloses sc.text i).isSome

/-- `other` reads the text of `sc` with `size` bytes inside the comment `s`, which is no obstacle to
either. -/
structure Beside (sc other : Scanner) (s : Span) (size : Nat) : Prop where
  edit : sc.source.Rewritten other.source s size
  settings : other.settings = sc.settings
  joined : sc.text.Joined
  here : sc.Clear s
  there : other.Clear (s.moved (s.shift size))
  closers : sc.SameClosers other s

/-- Both searches end at a keyword, which is the same one, or neither does. -/
def SearchesAlike (sc other : Scanner) (s : Span) (size : Nat) (pattern : Pattern) (anchor : Nat)
    (towards : Direction) : Prop :=
  ((sc.search pattern anchor towards).value = .absent ∧
      (other.search pattern (s.shift size anchor) towards).value = .absent) ∨
    ∃ q r, (sc.search pattern anchor towards).value = .found q ∧
      (other.search pattern (s.shift size anchor) towards).value = .found r ∧
      sc.Admits pattern q ∧ other.Admits pattern r ∧ r.start = s.shift size q.start

/-- An offset from which a search backward has the same keywords before it in both texts. -/
structure Anchor (sc other : Scanner) (s : Span) (size anchor : Nat) : Prop where
  clean : sc.Clean anchor
  clean_moved : other.Clean (s.shift size anchor)
  spared : anchor < s.start + 2 ∨ s.stop - 2 ≤ anchor

/-- The block `next` is `b` where it has gone, and searches can go on from both ends of its
header. -/
structure Follows (sc other : Scanner) (s : Span) (size : Nat) (b next : Block) : Prop where
  moved : next = b.moved (s.shift size)
  anchor : sc.Anchor other s size b.start
  spared : b.headerEnd < s.start + 2 ∨ s.stop - 2 ≤ b.headerEnd

theorem Anchor.header {sc other : Scanner} {s : Span} {size start stop : Nat}
    (anchor : sc.Anchor other s size start) (kind : Block.Kind)
    (spared : stop < s.start + 2 ∨ s.stop - 2 ≤ stop) :
    sc.Follows other s size (.header kind start stop)
      (.header kind (s.shift size start) (s.shift size stop)) :=
  ⟨rfl, anchor, spared⟩

theorem rejection?_start {sc : Scanner} {p q : Extent} (same : p.start = q.start) :
    sc.rejection? p = sc.rejection? q := by
  rw [rejection?, rejection?, same]

/-- A keyword that counts stands in no span. -/
theorem outside_of_counts {sc : Scanner} {s : Span} {p : Extent} (listed : s ∈ sc.source.map.spans)
    (counts : sc.rejection? p = none) : p.start < s.start ∨ s.stop ≤ p.start := by
  have free := Source.spanAt?_eq_none_iff.mp (counts_of_rejection? counts).1 s listed
  omega

namespace Beside

variable {sc other : Scanner} {s : Span} {size : Nat} (beside : Beside sc other s size)

include beside

theorem same_keywords : other.keywords = sc.keywords := by
  rw [Scanner.keywords, Scanner.keywords, beside.settings]

theorem patterns : other.patterns = sc.patterns := by
  rw [Scanner.patterns, Scanner.patterns, beside.same_keywords, beside.settings]

theorem listed_moved : s.moved (s.shift size) ∈ other.source.map.spans := by
  rw [beside.edit.map]
  exact Array.mem_map_of_mem beside.edit.listed

theorem rejection? {p q : Extent} (start : q.start = s.shift size p.start)
    (outside : p.start < s.start ∨ s.stop ≤ p.start) (within : p.start ≤ sc.text.size) :
    other.rejection? q = sc.rejection? p := by
  have wide := beside.edit.wide
  rw [Scanner.rejection?, Scanner.rejection?, start, beside.settings, SpanMap.isCode,
    SpanMap.isCode, beside.edit.spanAt? (by omega), Option.isNone_map,
    beside.edit.isStatementStart (by omega) within]

/-! ### The patterns -/

section At

variable {i : Nat} (outside : i < s.start ∨ s.stop ≤ i)

include outside

/-- A word that stands outside the comment ends outside it. -/
theorem word_stop {word : List UInt8} (bare : word.all (· != Byte.slash) = true)
    (stands : sc.text.startsWithLower i word = true) :
    s.shift size (i + word.length) = s.shift size i + word.length ∧
      (i + word.length ≤ s.start ∨ s.stop ≤ i + word.length) := by
  have wide := beside.edit.wide
  have ends := beside.edit.word_outside bare outside stands
  exact ⟨beside.edit.shift_add (by omega), by omega⟩

theorem stepOpener : Pattern.MatchesAlike Pattern.stepOpener sc.text other.text s size i := by
  have words (word : List UInt8) (bare : word.all (· != Byte.slash) = true) :
      other.text.wholeWordAt word (s.shift size i) = sc.text.wholeWordAt word i :=
    beside.edit.wholeWordAt bare outside
  unfold Pattern.MatchesAlike Pattern.stepOpener
  rw [words _ (by decide), words _ (by decide)]
  split
  · rename_i either
    have ends : s.shift size (i + 4) = s.shift size i + 4 ∧
        (i + 4 ≤ s.start ∨ s.stop ≤ i + 4) := by
      simp only [Bool.or_eq_true, Text.wholeWordAt, Bool.and_eq_true] at either
      rcases either with ⟨⟨stands, -⟩, -⟩ | ⟨⟨stands, -⟩, -⟩
      · exact beside.word_stop outside (by decide) stands
      · exact beside.word_stop outside (by decide) stands
    refine Or.inr ⟨i + 4, ends.2, Nat.le_add_right _ _, ?_, ?_⟩
    · rw [Nat.add_sub_cancel_left]
    · rw [ends.1, Nat.add_sub_cancel_left]
  · exact Or.inl ⟨rfl, rfl⟩

/-- The first semicolon behind a `%mend` that counts. -/
theorem mend_semicolon (within : i ≤ sc.text.size) (counts : sc.rejection? ⟨i, i⟩ = none)
    (closes : sc.text.signWordAt Text.mendWord i = true) :
    other.text.semicolon? (s.shift size i + 5) =
        (sc.text.semicolon? (i + 5)).map (s.shift size) ∧
      ∀ last ∈ sc.text.semicolon? (i + 5), last < s.start ∨ s.stop ≤ last := by
  have wide := beside.edit.wide
  have stands := (Bool.and_eq_true_iff.mp closes).1
  obtain ⟨moves, ends⟩ := beside.word_stop outside (by decide) stands
  rw [show Text.mendWord.length = 5 from rfl] at moves ends
  have here : ∀ last ∈ sc.text.semicolon? (i + 5), last < s.start ∨ s.stop ≤ last := by
    intro last found
    rcases outside with before | behind
    · exact beside.here.mends i before counts closes last found
    · have later := (Text.semicolon?_bounds found).1
      omega
  refine ⟨?_, here⟩
  rw [← moves]
  refine beside.edit.semicolon? (by omega) here fun last found => ?_
  rcases outside with before | behind
  · have start : s.shift size i = i := Span.shift_before (by omega)
    have first : (s.moved (s.shift size)).start = s.start := Span.shift_before (by omega)
    rw [moves, start] at found
    have counts' : other.rejection? ⟨i, i⟩ = none :=
      (beside.rejection? start.symm (Or.inl before) within).trans counts
    have closes' : other.text.signWordAt Text.mendWord i = true := by
      have same : other.text.signWordAt Text.mendWord (s.shift size i) = _ :=
        beside.edit.signWordAt (by decide) (Or.inl before)
      rw [start] at same
      exact same.trans closes
    have aside := beside.there.mends i (first ▸ before) counts' closes' last found
    rwa [first] at aside
  · have later := (Text.semicolon?_bounds found).1
    have order : s.shift size (i + 5) < s.shift size s.stop ↔ i + 5 < s.stop :=
      Span.shift_lt_iff wide.1 (by omega) (by omega)
    omega

theorem macroKeyword (within : i ≤ sc.text.size) (counts : sc.rejection? ⟨i, i⟩ = none) :
    Pattern.MatchesAlike Pattern.macroKeyword sc.text other.text s size i := by
  have opens : other.text.signWordAt Text.macroWord (s.shift size i) =
    sc.text.signWordAt Text.macroWord i := beside.edit.signWordAt (by decide) outside
  have closes : other.text.signWordAt Text.mendWord (s.shift size i) =
    sc.text.signWordAt Text.mendWord i := beside.edit.signWordAt (by decide) outside
  unfold Pattern.MatchesAlike Pattern.macroKeyword
  rw [opens, closes]
  split
  · rename_i stands
    obtain ⟨moves, ends⟩ := beside.word_stop outside (by decide) (Bool.and_eq_true_iff.mp stands).1
    rw [show Text.macroWord.length = 6 from rfl] at moves ends
    refine Or.inr ⟨i + 6, ends, Nat.le_add_right _ _, ?_, ?_⟩
    · rw [Nat.add_sub_cancel_left]
    · rw [moves, Nat.add_sub_cancel_left]
  split
  · rename_i stands
    obtain ⟨moves, spares⟩ := beside.mend_semicolon outside within counts stands
    rw [moves]
    cases found : sc.text.semicolon? (i + 5) with
    | none => exact Or.inl ⟨rfl, rfl⟩
    | some last =>
      have aside := spares last found
      have later := (Text.semicolon?_bounds found).1
      refine Or.inr ⟨last + 1, by omega, by omega, rfl, ?_⟩
      rw [beside.edit.shift_add (by omega)]
      rfl
  · exact Or.inl ⟨rfl, rfl⟩

theorem isSome_stepCloser (counts : sc.rejection? ⟨i, i⟩ = none) :
    (Pattern.stepCloser sc.settings.quitCloses other.text (s.shift size i)).isSome =
      (Pattern.stepCloser sc.settings.quitCloses sc.text i).isSome := by
  rcases outside with before | behind
  · rw [Span.shift_before (by omega)]
    exact beside.closers i before counts
  have wide := beside.edit.wide
  have words (word : List UInt8) (bare : word.all (· != Byte.slash) = true) :
      other.text.wholeWordAt word (s.shift size i) = sc.text.wholeWordAt word i :=
    beside.edit.wholeWordAt bare (Or.inr behind)
  have closer (word : List UInt8) (proper : word ≠ [])
      (whole : sc.text.wholeWordAt word i = true) :
      ((other.text.closerStop? (s.shift size i + word.length)).map (· - s.shift size i)).isSome =
        ((sc.text.closerStop? (i + word.length)).map (· - i)).isSome := by
    simp only [Text.wholeWordAt, Bool.and_eq_true] at whole
    have within := Text.startsWithLower_within whole.1.1 proper
    have same : other.text.closerStop? (s.shift size (i + word.length)) = _ :=
      beside.edit.closerStop? (by omega) within
    rw [beside.edit.shift_add (by omega)] at same
    rw [same, Option.isSome_map, Option.isSome_map, Option.isSome_map]
    rfl
  unfold Pattern.stepCloser
  rw [words _ (by decide), words _ (by decide)]
  split
  · exact closer Text.runWord (by decide) ‹_›
  split
  · exact closer Text.quitWord (by decide) (Bool.and_eq_true_iff.mp ‹_›).2
  · rfl

theorem isSome_pattern {pattern : Pattern} (listed : pattern ∈ sc.patterns)
    (within : i ≤ sc.text.size) (counts : sc.rejection? ⟨i, i⟩ = none) :
    (pattern other.text (s.shift size i)).isSome = (pattern sc.text i).isSome := by
  have opens := (beside.stepOpener outside).isSome
  have defines := (beside.macroKeyword outside within counts).isSome
  have closes := beside.isSome_stepCloser outside counts
  simp only [Scanner.patterns, List.mem_cons, List.not_mem_nil, or_false] at listed
  rcases listed with rfl | rfl | rfl
  · rw [keywords, Pattern.isSome_blockKeyword, Pattern.isSome_blockKeyword, opens, defines, closes]
  · exact closes
  · exact defines

/-- A keyword that closes no step ends at the same place, moved. -/
theorem keywords (within : i ≤ sc.text.size) (counts : sc.rejection? ⟨i, i⟩ = none)
    (unclosed : Pattern.stepCloser sc.settings.quitCloses sc.text i = none) :
    sc.keywords.MatchesAlike sc.text other.text s size i := by
  have closes := beside.isSome_stepCloser outside counts
  rw [unclosed, Option.isSome_none, Option.isSome_eq_false_iff, Option.isNone_iff_eq_none] at closes
  unfold Pattern.MatchesAlike Scanner.keywords Pattern.blockKeyword
  rcases beside.stepOpener outside with ⟨left, right⟩ | ⟨stop, aside, ordered, left, right⟩
  · rw [left, right]
    rcases beside.macroKeyword outside within counts with
      ⟨left, right⟩ | ⟨stop, aside, ordered, left, right⟩
    · rw [left, right, unclosed, closes]
      exact Or.inl ⟨rfl, rfl⟩
    · rw [left, right]
      exact Or.inr ⟨stop, aside, ordered, rfl, rfl⟩
  · rw [left, right]
    exact Or.inr ⟨stop, aside, ordered, rfl, rfl⟩

end At

/-! ### The keywords that count -/

section Admitted

variable {pattern : Pattern} (listed : pattern ∈ sc.patterns) {q r : Extent}

include listed

theorem image (admits : sc.Admits pattern q) :
    ∃ r, other.Admits pattern r ∧ r.start = s.shift size q.start := by
  have wide := beside.edit.wide
  have outside := outside_of_counts beside.edit.listed admits.counts
  have within := Text.le_size_of_boundary admits.matched.starts
  have counts : sc.rejection? ⟨q.start, q.start⟩ = none :=
    (rejection?_start rfl).trans admits.counts
  have same := beside.isSome_pattern outside listed within counts
  rw [admits.matched.here, Option.isSome_some] at same
  obtain ⟨n, found⟩ := Option.isSome_iff_exists.mp same
  refine ⟨⟨s.shift size q.start, s.shift size q.start + n⟩, ⟨⟨?_, ?_, ?_⟩, ?_⟩, rfl⟩
  · exact (beside.edit.isBoundary (by omega)).trans admits.matched.starts
  · exact Nat.le_add_right _ _
  · rw [Nat.add_sub_cancel_left]
    exact found
  · exact (beside.rejection? rfl outside within).trans admits.counts

theorem preimage (admits : other.Admits pattern r) :
    ∃ q, sc.Admits pattern q ∧ r.start = s.shift size q.start := by
  have wide := beside.edit.wide
  have aside := outside_of_counts beside.listed_moved admits.counts
  have first : (s.moved (s.shift size)).start = s.start := Span.shift_before (by omega)
  rw [first] at aside
  obtain ⟨i, outside, start⟩ := beside.edit.exists_shift aside
  have boundary : sc.text.isBoundary i = true := by
    have same := beside.edit.isBoundary (i := i) (by omega)
    rw [start] at same
    exact same.symm.trans admits.matched.starts
  have within := Text.le_size_of_boundary boundary
  have counts : sc.rejection? ⟨i, i⟩ = none :=
    (beside.rejection? start.symm outside within).symm.trans admits.counts
  have same := beside.isSome_pattern outside listed within counts
  rw [start, admits.matched.here, Option.isSome_some] at same
  obtain ⟨n, found⟩ := Option.isSome_iff_exists.mp same.symm
  refine ⟨⟨i, i + n⟩, ⟨⟨boundary, Nat.le_add_right _ _, ?_⟩, ?_⟩, start.symm⟩
  · rw [Nat.add_sub_cancel_left]
    exact found
  · exact (rejection?_start rfl).trans counts

end Admitted

/-! ### Searches -/

theorem shift_lt_iff {i j : Nat} (first : i < s.start + 2 ∨ s.stop - 2 ≤ i)
    (second : j < s.start + 2 ∨ s.stop - 2 ≤ j) : s.shift size i < s.shift size j ↔ i < j :=
  Span.shift_lt_iff beside.edit.wide.1 first second

theorem spared_start {pattern : Pattern} {q : Extent} (admits : sc.Admits pattern q) :
    q.start < s.start + 2 ∨ s.stop - 2 ≤ q.start := by
  have outside := outside_of_counts beside.edit.listed admits.counts
  omega

theorem anchor_zero : sc.Anchor other s size 0 := by
  have wide := beside.edit.wide
  refine ⟨sc.clean_zero, ?_, by omega⟩
  rw [Span.shift_before (by omega)]
  exact other.clean_zero

theorem anchor_start {pattern : Pattern} (listed : pattern ∈ sc.patterns) {q : Extent}
    (admits : sc.Admits pattern q) : sc.Anchor other s size q.start := by
  obtain ⟨r, admits', start⟩ := beside.image listed admits
  have clean := beside.there.apart.clean (admits'.keyword (beside.patterns ▸ listed))
  rw [start] at clean
  exact ⟨beside.here.apart.clean (admits.keyword listed), clean, beside.spared_start admits⟩

theorem statementStop {offset : Nat} (spared : offset < s.start + 2 ∨ s.stop - 2 ≤ offset) :
    other.source.statementStop (s.shift size offset) =
        s.shift size (sc.source.statementStop offset) ∧
      sc.Anchor other s size (sc.source.statementStop offset) := by
  have wide := beside.edit.wide
  have moves := beside.edit.statementStop spared
  have boundary := Source.statementStop_boundary beside.joined offset
  have still : sc.source.statementStop offset < s.start + 2 ∨
      s.stop - 2 ≤ sc.source.statementStop offset := by
    rcases sc.source.statementStop_cases offset with whole | ⟨last, terminator, -, stop⟩
    · rw [whole, Source.size]
      omega
    · have aside := (beside.edit.terminator_outside terminator).2
      omega
  have boundary' := (beside.edit.isBoundary still).trans boundary
  rw [← moves] at boundary'
  have clean := clean_statementStop boundary'
  rw [moves] at clean
  exact ⟨moves, clean_statementStop boundary, clean, still⟩

/-- A search ends at the same keyword in both texts, if it has the same keywords before it. -/
theorem search {pattern : Pattern} (listed : pattern ∈ sc.patterns) {anchor : Nat}
    {towards : Direction}
    (ahead : ∀ q r, sc.Admits pattern q → other.Admits pattern r → r.start = s.shift size q.start →
      (r.Ahead (s.shift size anchor) towards ↔ q.Ahead anchor towards))
    (boundary : towards = .backward → sc.text.isBoundary anchor = true ∧
      other.text.isBoundary (s.shift size anchor) = true) :
    sc.SearchesAlike other s size pattern anchor towards := by
  have near : sc.Nearest pattern anchor towards _ :=
    beside.here.apart.search_nearest beside.here.short listed fun back => (boundary back).1
  have near' := beside.there.apart.search_nearest beside.there.short (beside.patterns ▸ listed)
    fun back => (boundary back).2
  cases found : (sc.search pattern anchor towards).value with
  | gaveUp limit =>
    rw [found] at near
    cases near
  | absent =>
    rw [found] at near
    cases found' : (other.search pattern (s.shift size anchor) towards).value with
    | gaveUp limit =>
      rw [found'] at near'
      cases near'
    | absent => exact Or.inl ⟨found, found'⟩
    | found r =>
      rw [found'] at near'
      obtain ⟨q, admits, start⟩ := beside.preimage listed near'.1
      exact absurd ((ahead q r admits near'.1 start).mp near'.2.1) (near q admits)
  | found q =>
    rw [found] at near
    obtain ⟨admits, further, first⟩ := near
    obtain ⟨r', admits', start'⟩ := beside.image listed admits
    have further' := (ahead q r' admits admits' start').mpr further
    cases found' : (other.search pattern (s.shift size anchor) towards).value with
    | gaveUp limit =>
      rw [found'] at near'
      cases near'
    | absent =>
      rw [found'] at near'
      exact absurd further' (near' r' admits')
    | found r =>
      rw [found'] at near'
      -- each of the two is met no later than where the other one is in its text
      obtain ⟨p, known, start⟩ := beside.preimage listed near'.1
      have early := near'.2.2 r' admits' further'
      have late := first p known ((ahead p r known near'.1 start).mp near'.2.1)
      have order := beside.shift_lt_iff (beside.spared_start known) (beside.spared_start admits)
      have order' := beside.shift_lt_iff (beside.spared_start admits) (beside.spared_start known)
      refine Or.inr ⟨q, r, found, found', admits, near'.1, ?_⟩
      rw [start'] at early
      cases towards <;> simp only [Direction.Meets] at early late <;> omega

theorem search_forward {pattern : Pattern} (listed : pattern ∈ sc.patterns) {anchor : Nat}
    (spared : anchor < s.start + 2 ∨ s.stop - 2 ≤ anchor) :
    sc.SearchesAlike other s size pattern anchor .forward := by
  refine beside.search listed (fun q r admits _ start => ?_) (fun back => by cases back)
  have order := beside.shift_lt_iff (beside.spared_start admits) spared
  simp only [Extent.Ahead, start]
  omega

theorem search_backward {pattern : Pattern} (listed : pattern ∈ sc.patterns) {anchor : Nat}
    (anchors : sc.Anchor other s size anchor) :
    sc.SearchesAlike other s size pattern anchor .backward := by
  refine beside.search listed (fun q r admits admits' start => ?_)
    (fun _ => ⟨anchors.clean.boundary, anchors.clean_moved.boundary⟩)
  have positive := (patterns_end pattern listed).positive
  have proper := positive _ _ _ admits.matched.here
  have proper' := positive _ _ _ admits'.matched.here
  have whole := anchors.clean.whole q (admits.keyword listed).matched
  have whole' := anchors.clean_moved.whole r (admits'.keyword (beside.patterns ▸ listed)).matched
  have order := beside.shift_lt_iff (beside.spared_start admits) anchors.spared
  simp only [Extent.Ahead]
  omega

/-! ### Headers -/

theorem follows_notFound : sc.Follows other s size .notFound .notFound := by
  have header := beside.anchor_zero.header .notFound beside.anchor_zero.spared
  rwa [Span.shift_before (by omega)] at header

section Keyword

variable {q r : Extent} (admits : sc.Admits sc.keywords q) (admits' : other.Admits sc.keywords r)
  (start : r.start = s.shift size q.start)

include admits admits' start

/-- A keyword that closes no step ends outside the comment. -/
theorem keyword_stop
    (unclosed : Pattern.stepCloser sc.settings.quitCloses sc.text q.start = none) :
    r.stop = s.shift size q.stop ∧ (q.stop ≤ s.start ∨ s.stop ≤ q.stop) := by
  have wide := beside.edit.wide
  have outside := outside_of_counts beside.edit.listed admits.counts
  have within := Text.le_size_of_boundary admits.matched.starts
  have counts : sc.rejection? ⟨q.start, q.start⟩ = none :=
    (rejection?_start rfl).trans admits.counts
  have here := admits.matched.here
  have there := admits'.matched.here
  have ordered := admits.matched.ordered
  have ordered' := admits'.matched.ordered
  rcases beside.keywords outside within counts unclosed with
    ⟨left, -⟩ | ⟨stop, aside, later, left, right⟩
  · rw [left] at here
    cases here
  rw [start, right, Option.some.injEq] at there
  rw [left, Option.some.injEq] at here
  obtain rfl : stop = q.stop := by omega
  have order : s.shift size q.stop < s.shift size q.start ↔ q.stop < q.start :=
    beside.shift_lt_iff (by omega) (by omega)
  exact ⟨by omega, aside⟩

omit admits' in
theorem closerEnd :
    other.closerEnd r = s.shift size (sc.closerEnd q) ∧
      sc.Anchor other s size (sc.closerEnd q) := by
  obtain ⟨floor, still⟩ := beside.edit.floor (beside.spared_start admits)
  rw [Scanner.closerEnd, Scanner.closerEnd, start, Scanner.text, floor]
  exact beside.statementStop still

theorem namedHeader (kind : Text → Block.Kind)
    (unclosed : Pattern.stepCloser sc.settings.quitCloses sc.text q.start = none) :
    sc.Follows other s size (sc.namedHeader q kind).value (other.namedHeader r kind).value := by
  have wide := beside.edit.wide
  have anchor := beside.anchor_start List.mem_cons_self admits
  obtain ⟨stop, aside⟩ := beside.keyword_stop admits admits' start unclosed
  have spared : q.stop < s.start + 2 ∨ s.stop - 2 ≤ q.stop := by omega
  rw [Scanner.namedHeader, Scanner.namedHeader, start, stop]
  rcases beside.edit.logicalToken? spared with
    ⟨here, there⟩ | ⟨tok, next, here, there, follows, -, ends⟩
  · rw [here, there]
    exact anchor.header .error spared
  rw [here, there]
  cases name : tok.isName with
  | true =>
    have lexeme : next.lexeme = tok.lexeme := follows.lexeme fun target => by
      rw [Token.isName, target] at name
      cases name
    rw [Option.filter_some_pos name, Option.filter_some_pos (follows.isName.trans name)]
    simp only [lexeme, follows.stop]
    exact anchor.header (kind tok.lexeme) (by omega)
  | false =>
    rw [Option.filter_some_neg name, Option.filter_some_neg (follows.isName.trans name)]
    exact anchor.header .error spared

/-- The block that a keyword begins. -/
theorem blockAt : sc.Follows other s size (sc.blockAt q).value (other.blockAt r).value := by
  have wide := beside.edit.wide
  have outside := outside_of_counts beside.edit.listed admits.counts
  have anchor := beside.anchor_start List.mem_cons_self admits
  have words (word : List UInt8) (bare : word.all (· != Byte.slash) = true) :
      other.text.startsWithLower r.start word = sc.text.startsWithLower q.start word := by
    rw [start]
    exact beside.edit.startsWithLower bare (by omega)
  have header (kind : Block.Kind)
      (unclosed : Pattern.stepCloser sc.settings.quitCloses sc.text q.start = none) :
      sc.Follows other s size (.header kind q.start q.stop) (.header kind r.start r.stop) := by
    obtain ⟨stop, aside⟩ := beside.keyword_stop admits admits' start unclosed
    rw [start, stop]
    exact anchor.header kind (by omega)
  unfold Scanner.blockAt Scanner.isMacroEnd
  rw [words _ (by decide), words _ (by decide), words _ (by decide), words _ (by decide)]
  split
  · exact header .closingMacro (Text.stepCloser_none (k := .macroEnd) (by decide) (by decide) ‹_›)
  split
  · have data := header .data (Text.stepCloser_none (k := .data) (by decide) (by decide) ‹_›)
    rw [start] at data ⊢
    rcases beside.edit.logicalAt? (beside.spared_start admits) with
      ⟨here, there⟩ | ⟨tok, next, here, there, follows, ends⟩
    · rw [here, there]
      exact data
    · simp only [here, there, follows.kind]
      split
      · simp only [follows.stop]
        exact anchor.header .dataAssignment (by omega)
      · exact data
  split
  · exact beside.namedHeader admits admits' start .proc
      (Text.stepCloser_none (k := .proc) (by decide) (by decide) ‹_›)
  split
  · exact beside.namedHeader admits admits' start .macroBlock
      (Text.stepCloser_none (k := .macroBegin) (by decide) (by decide) ‹_›)
  · obtain ⟨stop, reached⟩ := beside.closerEnd admits start
    rw [stop, start]
    exact anchor.header .closingRun reached.spared

end Keyword

theorem blockBefore {anchor : Nat} (anchors : sc.Anchor other s size anchor) :
    sc.Follows other s size (sc.blockBefore anchor).value
      (other.blockBefore (s.shift size anchor)).value := by
  rw [Scanner.blockBefore, Scanner.blockBefore, Logged.value_bind, Logged.value_bind,
    beside.same_keywords]
  rcases beside.search_backward List.mem_cons_self anchors with
    ⟨here, there⟩ | ⟨q, r, here, there, admits, admits', start⟩
  · rw [here, there]
    exact beside.follows_notFound
  · rw [here, there]
    exact beside.blockAt admits admits' start

/-! ### Keywords that lead back -/

theorem stepOpenerFrom {closer : Nat} (closes : sc.Anchor other s size closer) (retries : Nat)
    {anchor : Nat} (anchors : sc.Anchor other s size anchor) (events logged : Array Event) :
    sc.Follows other s size (sc.stepOpenerFrom closer retries anchor events).value
      (other.stepOpenerFrom (s.shift size closer) retries (s.shift size anchor) logged).value := by
  have unmatched := closes.header .ambiguous closes.spared
  induction retries generalizing anchor events logged with
  | zero => exact unmatched
  | succ retries ih =>
    have before := beside.blockBefore anchors
    have kind : (other.blockBefore (s.shift size anchor)).value.kind =
      (sc.blockBefore anchor).value.kind := by rw [before.moved, Block.moved]
    have start : (other.blockBefore (s.shift size anchor)).value.start =
      s.shift size (sc.blockBefore anchor).value.start := by rw [before.moved, Block.moved]
    rw [Scanner.stepOpenerFrom, Scanner.stepOpenerFrom]
    simp only [kind, start]
    cases (sc.blockBefore anchor).value.kind with
    | dataAssignment => exact ih before.anchor _ _
    | closingRun => exact ih before.anchor _ _
    | notFound => exact unmatched
    | closingMacro => exact unmatched
    | _ => exact before

theorem isMacroEnd {pattern : Pattern} {q r : Extent} (admits : sc.Admits pattern q)
    (start : r.start = s.shift size q.start) : other.isMacroEnd r = sc.isMacroEnd q := by
  have outside := outside_of_counts beside.edit.listed admits.counts
  rw [Scanner.isMacroEnd, Scanner.isMacroEnd, start]
  exact beside.edit.startsWithLower (by decide) (by omega)

theorem macroOpenerFrom {closer : Nat} (closes : sc.Anchor other s size closer) (nested : Nat)
    {anchor : Nat} (anchors : sc.Anchor other s size anchor) :
    sc.Follows other s size (sc.macroOpenerFrom closer nested anchor #[]).value
      (other.macroOpenerFrom (s.shift size closer) nested (s.shift size anchor) #[]).value := by
  have listed : Pattern.macroKeyword ∈ sc.patterns := by simp [Scanner.patterns]
  induction anchor using Nat.strongRecOn generalizing nested with
  | ind anchor ih =>
    rw [macroOpenerFrom_value, macroOpenerFrom_value]
    rcases beside.search_backward listed anchors with
      ⟨here, there⟩ | ⟨q, r, here, there, admits, admits', start⟩
    · rw [here, there]
      exact closes.header .ambiguous closes.spared
    have bounds := search_backward_bounds Pattern.macroKeyword_positive here
    have further := beside.anchor_start listed admits
    rw [here, there]
    simp only [beside.isMacroEnd admits start, start]
    split
    · exact ih q.start (by omega) (nested + 1) further
    · cases nested with
      | zero =>
        exact beside.blockAt (admits.keyword listed)
          (beside.same_keywords ▸ admits'.keyword (beside.patterns ▸ listed)) start
      | succ inner => exact ih q.start (by omega) inner further

/-- What a keyword leads back to. -/
theorem leadsTo? {b next : Block} (follows : sc.Follows other s size b next) :
    (sc.leadsTo? b = none ∧ other.leadsTo? next = none) ∨
    ∃ back back', sc.leadsTo? b = some back ∧ other.leadsTo? next = some back' ∧
      sc.Follows other s size back.value back'.value := by
  obtain ⟨rfl, anchor, -⟩ := follows
  obtain ⟨kind, start, headerEnd, stop⟩ := b
  cases kind with
  | dataAssignment => exact Or.inr ⟨_, _, rfl, rfl, beside.blockBefore anchor⟩
  | closingRun =>
    refine Or.inr ⟨_, _, rfl, rfl, ?_⟩
    rw [openerOfStep, openerOfStep, beside.settings]
    exact beside.stepOpenerFrom anchor _ anchor _ _
  | closingMacro => exact Or.inr ⟨_, _, rfl, rfl, beside.macroOpenerFrom anchor 0 anchor⟩
  | _ => exact Or.inl ⟨rfl, rfl⟩

theorem settle (offset offset' retries : Nat) {b next : Block}
    (follows : sc.Follows other s size b next) (events logged : Array Event) :
    sc.Follows other s size (sc.settle offset retries b events).value
      (other.settle offset' retries next logged).value := by
  induction retries generalizing b next events logged with
  | zero =>
    obtain ⟨rfl, anchor, -⟩ := follows
    exact anchor.header .ambiguous anchor.spared
  | succ retries ih =>
    rw [Scanner.settle, Scanner.settle]
    rcases beside.leadsTo? follows with ⟨here, there⟩ | ⟨back, back', here, there, goes⟩
    · rw [here, there]
      exact follows
    · rw [here, there]
      exact ih goes _ _

/-! ### Ends of blocks -/

section From

variable {anchor : Nat} (spared : anchor < s.start + 2 ∨ s.stop - 2 ≤ anchor)

include spared

theorem stepEnd : ∃ stop, (sc.stepEnd anchor).value = .ok stop ∧
    (other.stepEnd (s.shift size anchor)).value = .ok (s.shift size stop) := by
  have listed : Pattern.stepCloser sc.settings.quitCloses ∈ sc.patterns := by
    simp [Scanner.patterns]
  rw [Scanner.stepEnd, Scanner.stepEnd, Logged.value_bind, Logged.value_bind, beside.settings]
  rcases beside.search_forward listed spared with
    ⟨here, there⟩ | ⟨q, r, here, there, admits, -, start⟩
  · rw [here, there]
    exact ⟨_, rfl, congrArg Except.ok beside.edit.total⟩
  · rw [here, there]
    exact ⟨_, rfl, congrArg Except.ok (beside.closerEnd (admits.keyword listed) start).1⟩

theorem macroEndFrom (name : Text) (nested : Nat) :
    ∃ stop, (sc.macroEndFrom name nested anchor #[]).value = .ok stop ∧
      (other.macroEndFrom name nested (s.shift size anchor) #[]).value =
        .ok (s.shift size stop) := by
  have listed : Pattern.macroKeyword ∈ sc.patterns := by simp [Scanner.patterns]
  induction left : sc.text.size + 1 - anchor using Nat.strongRecOn generalizing nested anchor with
  | ind left ih =>
    rw [macroEndFrom_value, macroEndFrom_value]
    rcases beside.search_forward listed spared with
      ⟨here, there⟩ | ⟨q, r, here, there, admits, admits', start⟩
    · rw [here, there]
      exact ⟨_, rfl, congrArg Except.ok beside.edit.total⟩
    have bounds := search_forward_bounds Pattern.macroKeyword_positive here
    obtain ⟨k, signs, announces⟩ := Text.announces_of_macroKeyword admits.matched.here
    have opens : ∀ k ∈ [Keyword.macroBegin, .macroEnd], k ∉ [Keyword.run, .quit] := by decide
    obtain ⟨stop, aside⟩ := beside.keyword_stop (admits.keyword listed)
      (beside.same_keywords ▸ admits'.keyword (beside.patterns ▸ listed)) start
      (Text.stepCloser_none announces.listed (opens k signs) announces.stands)
    have wide := beside.edit.wide
    have still : q.stop < s.start + 2 ∨ s.stop - 2 ≤ q.stop := by omega
    have further (nested : Nat) := ih _ (by omega) still nested rfl
    rw [here, there]
    simp only [beside.isMacroEnd admits start, stop]
    split
    · cases nested with
      | zero => exact ⟨_, rfl, rfl⟩
      | succ outer => exact further outer
    · exact further (nested + 1)

end From

theorem endOfBlock {b : Block} (spared : b.headerEnd < s.start + 2 ∨ s.stop - 2 ≤ b.headerEnd) :
    ∃ stop, (sc.endOfBlock b).value = .ok stop ∧
      (other.endOfBlock (b.moved (s.shift size))).value = .ok (s.shift size stop) := by
  obtain ⟨kind, start, headerEnd, stop⟩ := b
  obtain ⟨floor, still⟩ := beside.edit.floor spared
  have step := beside.stepEnd still
  have definition (name : Text) := beside.macroEndFrom still name 0
  rw [← floor] at step definition
  cases kind with
  | proc name => exact step
  | data => exact step
  | macroBlock name => exact definition name
  | _ => exact ⟨_, rfl, rfl⟩

theorem withEnd {b next : Block} (follows : sc.Follows other s size b next) :
    ∃ whole, (sc.withEnd b).value = .ok whole ∧
      (other.withEnd next).value = .ok (whole.moved (s.shift size)) := by
  obtain ⟨rfl, -, spared⟩ := follows
  rw [Scanner.withEnd, Scanner.withEnd, show (b.moved (s.shift size)).kind = b.kind from rfl]
  split
  · obtain ⟨stop, here, there⟩ := beside.endOfBlock spared
    rw [Logged.value_map, Logged.value_map, here, there]
    exact ⟨_, rfl, rfl⟩
  · exact ⟨_, rfl, rfl⟩

/-- The block around an offset of the text. -/
theorem locate_within {offset : Nat} (spared : offset < s.start + 2 ∨ s.stop - 2 ≤ offset)
    (within : offset ≤ sc.source.size) :
    ∃ b, (sc.locate offset).value = .ok b ∧
      (other.locate (s.shift size offset)).value = .ok (b.moved (s.shift size)) := by
  have ⟨_, bound⟩ := beside.edit.wide
  have order : s.shift size sc.source.text.size < s.shift size offset ↔ _ :=
    beside.shift_lt_iff (by omega) spared
  have within' : s.shift size offset ≤ other.source.size := by
    rw [Source.size, beside.edit.total]
    exact Nat.le_of_not_lt (mt order.mp (Nat.not_lt_of_le within))
  obtain ⟨floor, still⟩ := beside.edit.floor spared
  obtain ⟨stop, anchor⟩ := beside.statementStop still
  rw [locate_value within, locate_value within', floor, stop, beside.settings]
  exact beside.withEnd (beside.settle _ _ _ (beside.blockBefore anchor) _ _)

theorem locate {offset : Nat} (spared : offset < s.start + 2 ∨ s.stop - 2 ≤ offset) :
    (other.locate (s.shift size offset)).value =
      ((sc.locate offset).value.map (·.moved (s.shift size))).mapError
        (·.moved (s.shift size)) := by
  rcases beside.edit.checkOffset spared with ⟨here, there⟩ | ⟨i, -, here, -⟩
  · rw [Scanner.locate, Scanner.locate, beginningOfBlock, beginningOfBlock, here, there]
    rfl
  · have within : offset ≤ sc.source.size := by
      refine Nat.le_of_not_lt fun past => ?_
      have outside : sc.source.checkOffset offset = .error ⟨offset, sc.source.size⟩ := if_pos past
      rw [outside] at here
      cases here
    obtain ⟨b, located, moved⟩ := beside.locate_within spared within
    rw [located, moved]
    rfl

end Beside

/-- What is written in a block comment changes no block, where the comment is no obstacle to the
search before and after and the same words close a step before it. For every offset outside the
inside of the comment, and whether keywords are anchored or not, the block around it is the same,
moved with the bytes, and so is the error for an offset that is out of range; there is a block
around every offset of the text; and the block of a header that ends at the offset has the same end,
moved. -/
theorem rewriteComment_blocks (lexical : LexicalSettings) (scanning : ScanSettings)
    (text : String) (w : Text) (s : Span)
    (listed : s ∈ (Source.ofText lexical (.ofString text)).map.spans)
    (kind : s.kind = .blockComment) (terminated : s.terminated = true)
    (free : w.ClosesNoComment) :
    let sc : Scanner := ⟨.ofText lexical (.ofString text), scanning⟩
    let edited : Scanner :=
      ⟨.ofText lexical ((Text.ofString text).rewriteComment s w), scanning⟩
    let f := s.shift w.size
    sc.Clear s → edited.Clear (s.moved f) → sc.SameClosers edited s →
    ∀ offset, offset < s.start + 2 ∨ s.stop - 2 ≤ offset →
      (edited.locate (f offset)).value =
          ((sc.locate offset).value.map (·.moved f)).mapError (·.moved f) ∧
        (offset ≤ sc.source.size → ∃ b, (sc.locate offset).value = .ok b) ∧
        ∀ b : Block, b.headerEnd = offset → ∃ stop, (sc.endOfBlock b).value = .ok stop ∧
          (edited.endOfBlock (b.moved f)).value = .ok (f stop) := by
  intro sc edited f here there closers offset spared
  have beside : Beside sc edited s w.size :=
    ⟨Source.rewritten_ofText listed kind terminated free, rfl, Text.joined_ofString text, here,
      there, closers⟩
  refine ⟨beside.locate spared, fun within => ?_, fun b ends => ?_⟩
  · obtain ⟨b, located, -⟩ := beside.locate_within spared within
    exact ⟨b, located⟩
  · exact beside.endOfBlock (ends ▸ spared)

/-- A comment in a step, with an inside that would open a step and close it anywhere else, and whose
last word takes the statement behind the comment with it. -/
theorem rewriteComment_blocks_step :
    let text := "data a; /* x */ y = 1; run; z;"
    let w := Text.ofString " proc b; run"
    let s : Span := ⟨8, 15, .blockComment, true⟩
    let sc : Scanner := ⟨.ofText {} (.ofString text), {}⟩
    let edited : Scanner := ⟨.ofText {} ((Text.ofString text).rewriteComment s w), {}⟩
    s ∈ sc.source.map.spans ∧ w.ClosesNoComment ∧ sc.Clear s ∧
      edited.Clear (s.moved (s.shift w.size)) ∧ sc.SameClosers edited s ∧
      (sc.locate 0).value = .ok ⟨.data, 0, 4, 27⟩ ∧
      (edited.locate (s.shift w.size 0)).value =
        ((sc.locate 0).value.map (·.moved (s.shift w.size))).mapError
          (·.moved (s.shift w.size)) ∧
      ∃ stop, (sc.endOfBlock ⟨.data, 0, 4, 4⟩).value = .ok stop ∧
        (edited.endOfBlock (Block.moved (s.shift w.size) ⟨.data, 0, 4, 4⟩)).value =
          .ok (s.shift w.size stop) := by
  intro text w s sc edited
  have listed : s ∈ sc.source.map.spans := by decide +kernel
  have free : w.ClosesNoComment := by
    unfold Text.ClosesNoComment
    decide +kernel
  have here : sc.Clear s := ⟨by decide +kernel, by decide +kernel, by decide +kernel⟩
  have there : edited.Clear (s.moved (s.shift w.size)) :=
    ⟨by decide +kernel, by decide +kernel, by decide +kernel⟩
  have closers : sc.SameClosers edited s := by
    unfold SameClosers
    decide +kernel
  have blocks := rewriteComment_blocks {} {} text w s listed rfl rfl free here there closers
  exact ⟨listed, free, here, there, closers, by decide +kernel, (blocks 0 (Or.inl (by decide))).1,
    (blocks 4 (Or.inl (by decide))).2.2 _ rfl⟩

/-- A `run` inside the comment takes the `run` behind it as the rest of its own statement, so the
step loses its end. -/
theorem rewriteComment_swallows_closer :
    let t := Text.ofString "data a; /* x */ run; y = 1;"
    let w := Text.ofString " run "
    let s : Span := ⟨8, 15, .blockComment, true⟩
    let sc : Scanner := ⟨.ofText {} t, {}⟩
    let edited : Scanner := ⟨.ofText {} (t.rewriteComment s w), {}⟩
    s ∈ sc.source.map.spans ∧ w.ClosesNoComment ∧ sc.settings.anchorKeywords = true ∧
      s.shift w.size 20 = 22 ∧
      (sc.locate 0).value = .ok ⟨.data, 0, 4, 20⟩ ∧
      (edited.locate 0).value = .ok ⟨.data, 0, 4, 29⟩ ∧
      (sc.endOfBlock ⟨.data, 0, 4, 4⟩).value = .ok 20 ∧
      (edited.endOfBlock ⟨.data, 0, 4, 4⟩).value = .ok 29 ∧ ¬ edited.KeywordsApart := by
  unfold Text.ClosesNoComment
  decide +kernel

/-- A newline inside a comment of the closing statement ends the line that its options must stay on,
so the step loses its end, although the comment is no obstacle to either search. -/
theorem rewriteComment_breaks_closer :
    let t := Text.ofString "data a; run /* x */; y = 1;"
    let w := Text.ofString "\n"
    let s : Span := ⟨12, 19, .blockComment, true⟩
    let sc : Scanner := ⟨.ofText {} t, {}⟩
    let edited : Scanner := ⟨.ofText {} (t.rewriteComment s w), {}⟩
    s ∈ sc.source.map.spans ∧ w.ClosesNoComment ∧ sc.Clear s ∧
      edited.Clear (s.moved (s.shift w.size)) ∧ ¬ sc.SameClosers edited s ∧
      s.shift w.size 20 = 18 ∧
      (sc.locate 0).value = .ok ⟨.data, 0, 4, 20⟩ ∧
      (edited.locate 0).value = .ok ⟨.data, 0, 4, 25⟩ := by
  intro t w s sc edited
  have free : w.ClosesNoComment := by
    unfold Text.ClosesNoComment
    decide +kernel
  have closers : ¬ sc.SameClosers edited s := by
    unfold SameClosers
    decide +kernel
  exact ⟨by decide +kernel, free, ⟨by decide +kernel, by decide +kernel, by decide +kernel⟩,
    ⟨by decide +kernel, by decide +kernel, by decide +kernel⟩, closers, by decide +kernel,
    by decide +kernel, by decide +kernel⟩

/-- A semicolon inside a comment of the `%mend` statement ends that statement, and the definition
with it, inside the comment. -/
theorem rewriteComment_ends_mend :
    let t := Text.ofString "%macro m; x; %mend /* x */; y;"
    let w := Text.ofString " ; "
    let s : Span := ⟨19, 26, .blockComment, true⟩
    let sc : Scanner := ⟨.ofText {} t, {}⟩
    let edited : Scanner := ⟨.ofText {} (t.rewriteComment s w), {}⟩
    s ∈ sc.source.map.spans ∧ w.ClosesNoComment ∧ sc.Clear s ∧
      edited.text.size < edited.settings.limits.retries ∧ edited.KeywordsApart ∧
      ¬ edited.Clear (s.moved (s.shift w.size)) ∧ sc.SameClosers edited s ∧
      s.shift w.size 27 = 27 ∧
      (sc.locate 0).value = .ok ⟨.macroBlock (.ofString "m"), 0, 8, 27⟩ ∧
      (edited.locate 0).value = .ok ⟨.macroBlock (.ofString "m"), 0, 8, 23⟩ := by
  intro t w s sc edited
  have free : w.ClosesNoComment := by
    unfold Text.ClosesNoComment
    decide +kernel
  have closers : sc.SameClosers edited s := by
    unfold SameClosers
    decide +kernel
  have ends : ¬ edited.Clear (s.moved (s.shift w.size)) := by
    rintro ⟨-, -, mends⟩
    have inside : ¬ (22 < 19 ∨ 26 ≤ 22) := by decide
    exact inside (mends 13 (by decide +kernel) (by decide +kernel) (by decide +kernel) 22
      (by decide +kernel))
  exact ⟨by decide +kernel, free, ⟨by decide +kernel, by decide +kernel, by decide +kernel⟩,
    by decide +kernel, by decide +kernel, ends, closers, by decide +kernel, by decide +kernel,
    by decide +kernel⟩

end Scanner
end SasLayout
