import SasLayout.Proofs.PlainCode
import SasLayout.Proofs.SearchReach

set_option autoImplicit false

/-!
Searches over plain code. A match never reaches over the semicolon that ends its statement, so none
that begins before a statement can hide the keyword that the statement begins with. The keywords
that count are therefore those at the starts of statements, and a search forward looks up the first
of them. A search backward passes over none of them that has no further match inside it.
-/
namespace SasLayout

/-! ### Closing statements -/

namespace Text

variable {t : Text} {i : Nat}

/-- What may stand between a closing word and its semicolon: behind white space nothing, or options
that stay on one line and do not begin with an equals sign. -/
def isOptions (bytes : List UInt8) : Bool :=
  let rest := bytes.dropWhile fun b => isWhiteSpace (Char.ofUInt8 b)
  rest.head? != some Byte.equals && rest.all (!Byte.isNewline ·)

theorem head?_slice {stop : Nat} (inside : i < stop) :
    (t.slice i stop).toList.head? = t.byte? i := by
  rw [List.head?_eq_getElem?, getElem?_slice (k := 0) inside]
  rfl

/-- The bytes up to `stop` without the white space that they begin with. -/
theorem dropWhile_slice {p : UInt8 → Bool} {stop : Nat} (lower : i ≤ t.seek (!p ·) i)
    (upper : t.seek (!p ·) i ≤ stop) :
    (t.slice i stop).toList.dropWhile p = (t.slice (t.seek (!p ·) i) stop).toList := by
  rw [toList_slice_append lower upper, List.dropWhile_append_of_pos]
  · cases found : (t.slice (t.seek (!p ·) i) stop).toList with
    | nil => rfl
    | cons first rest =>
      have here : t.byte? (t.seek (!p ·) i) = some first := by
        obtain ⟨k, above, below, -⟩ := mem_slice.mp (found ▸ List.mem_cons_self)
        rw [← head?_slice (Nat.lt_of_le_of_lt above below), found, List.head?_cons]
      have other := seek_found (lt_size_of_byte? here)
      rw [byteIs_of_byte? here, Bool.not_eq_true'] at other
      rw [List.dropWhile_cons_of_neg (by rw [other]; decide)]
  · intro b listed
    obtain ⟨k, above, below, here⟩ := mem_slice.mp listed
    have hidden := seek_before above below
    rwa [byteIs_of_byte? here, Bool.not_eq_false'] at hidden

/-- The search for a semicolon on the same line stops before it exactly if a line ends there. -/
theorem seek_line {last : Nat} (lower : i ≤ last) (here : t.byteIs last Byte.isSemicolon = true)
    (before : ∀ k, i ≤ k → k < last → t.byteIs k Byte.isSemicolon = false) :
    let stop := t.seek (fun b => Byte.isSemicolon b || Byte.isNewline b) i
    if (t.slice i last).toList.all (!Byte.isNewline ·) then stop = last
    else t.byteIs stop Byte.isSemicolon = false := by
  intro stop
  have within : i ≤ t.size := Nat.le_of_lt (Nat.lt_of_le_of_lt lower (lt_size_of_byteIs here))
  split
  · rename_i line
    apply seek_eq lower
    · intro k above below
      rw [byteIs_eq_any]
      cases found : t.byte? k with
      | none => rfl
      | some b =>
        have other := List.all_eq_true.mp line b (mem_slice.mpr ⟨k, above, below, found⟩)
        have plain := before k above below
        rw [byteIs_of_byte? found] at plain
        rw [Option.any_some, plain, Bool.false_or]
        simpa using other
    · exact Or.inl (byteIs_mono here fun b same => by rw [same, Bool.true_or])
  · rename_i broken
    obtain ⟨b, listed, newline⟩ : ∃ b ∈ (t.slice i last).toList, Byte.isNewline b = true := by
      simpa using broken
    obtain ⟨k, above, below, found⟩ := mem_slice.mp listed
    apply before stop (t.le_seek _ i within)
    apply Nat.lt_of_le_of_lt _ below
    apply Nat.le_of_not_lt
    intro later
    have missed := seek_before above later
    rw [byteIs_of_byte? found, newline, Bool.or_true] at missed
    cases missed

/-- An equals sign that stands before a semicolon begins the text up to it. -/
theorem ne_equals_slice {last : Nat} (reach : i ≤ last)
    (here : t.byteIs last Byte.isSemicolon = true) :
    t.byteIs i (· != Byte.equals) = ((t.slice i last).toList.head? != some Byte.equals) := by
  rcases Nat.lt_or_eq_of_le reach with early | rfl
  · obtain ⟨b, found⟩ := exists_byte (Nat.lt_trans early (lt_size_of_byteIs here))
    rw [head?_slice early, found, byteIs_of_byte? found]
    rfl
  · have other : ∀ b, Byte.isSemicolon b = true → (b != Byte.equals) = true :=
      Byte.forall_of_halves (by decide)
    have none : (t.slice i i).toList = [] := by
      rw [toList_slice, List.drop_eq_nil_iff, List.length_take]
      exact Nat.min_le_left _ _
    rw [byteIs_mono here other, none]
    rfl

/-- A closing statement ends with the first semicolon behind its keyword, if options stand before
it. -/
theorem Ascii.closerStop?_eq (ascii : t.Ascii) (within : i ≤ t.size) :
    t.closerStop? i =
      ((t.semicolon? i).filter fun last => isOptions (t.slice i last).toList).map (· + 1) := by
  unfold closerStop?
  simp only [ascii.skipWhiteSpace within]
  have skipped := t.le_seek (fun b => !isWhiteSpace (Char.ofUInt8 b)) i within
  generalize front : t.seek (fun b => !isWhiteSpace (Char.ofUInt8 b)) i = first at skipped ⊢
  have inside : first ≤ t.size := front ▸ t.seek_le_size _ i
  have sought := t.le_seek (fun b => Byte.isSemicolon b || Byte.isNewline b) first inside
  cases next : t.semicolon? i with
  | none =>
    rw [if_neg]
    · rfl
    · rw [semicolon?_none next (Nat.le_trans skipped sought), Bool.and_false]
      decide
  | some last =>
    obtain ⟨lower, here, before⟩ := semicolon?_eq_some_iff.mp next
    have reach : first ≤ last := by
      apply Nat.le_of_not_lt
      intro early
      have hidden := seek_before lower (front ▸ early)
      have visible : ∀ b, Byte.isSemicolon b = true → (!isWhiteSpace (Char.ofUInt8 b)) = true :=
        Byte.forall_of_halves (by decide)
      rw [byteIs_mono here visible] at hidden
      cases hidden
    have rest : (t.slice i last).toList.dropWhile (fun b => isWhiteSpace (Char.ofUInt8 b)) =
        (t.slice first last).toList := by
      rw [dropWhile_slice (front ▸ skipped) (front ▸ reach), front]
    have ends := seek_line reach here fun k above => before k (Nat.le_trans skipped above)
    rw [Option.filter_some, isOptions, rest, ← ne_equals_slice reach here]
    split at ends
    · rename_i line
      rw [ends, here, line]
      split <;> rfl
    · rename_i broken
      rw [ends, Bool.eq_false_iff.mpr broken, Bool.and_false]
      rfl

theorem Ascii.matched {pattern : Pattern} (ascii : t.Ascii) (within : i ≤ t.size) {length : Nat}
    (found : pattern t i = some length) : t.Matches pattern ⟨i, i + length⟩ :=
  ⟨ascii.boundary within, Nat.le_add_right _ _, by rw [found, Nat.add_sub_cancel_left]⟩

end Text

namespace Scanner

/-- Keywords are anchored in plain code that is shorter than the limit on rejected ones. -/
structure Plain (sc : Scanner) : Prop where
  code : sc.source.Plain
  short : sc.text.size < sc.settings.limits.retries
  anchored : sc.settings.anchorKeywords = true

/-- A match at the start of a statement. -/
structure Counts (sc : Scanner) (pattern : Pattern) (place : Extent) : Prop where
  matched : sc.text.Matches pattern place
  starts : sc.source.startsStatement place.start = true

variable {sc : Scanner} {pattern : Pattern} {place s : Extent} {anchor : Nat}

section Plain

variable (plain : sc.Plain)
include plain

theorem Plain.ascii : sc.text.Ascii :=
  plain.code.ascii

theorem Plain.announces_iff {st : Extent} (listed : st ∈ sc.source.statements) {k : Keyword}
    (known : k ∈ Block.words) : sc.text.Announces k st.start ↔ sc.source.leader? st = some k :=
  plain.code.announces_iff listed known

theorem Plain.startsStatement_start {st : Extent} (listed : st ∈ sc.source.statements) :
    sc.source.startsStatement st.start = true :=
  ((plain.code.starts_iff Source.fresh_zero st.start).mp ⟨st, listed, rfl⟩).2.2

theorem Plain.rejection?_iff (within : place.start ≤ sc.text.size) :
    sc.rejection? place = none ↔ sc.source.startsStatement place.start = true := by
  have code : sc.source.map.isCode place.start = true := by
    rw [SpanMap.isCode, plain.code.spanAt?]
    rfl
  have start : sc.source.isStatementStart place.start = sc.source.startsStatement place.start := by
    rw [Source.isStatementStart,
      show min place.start sc.source.size = _ from Nat.min_eq_left within]
  rw [rejection?, code, plain.anchored, start]
  cases sc.source.startsStatement place.start <;> decide

theorem Plain.search_counts {towards : Direction}
    (found : (sc.search pattern anchor towards).value = .found place) :
    sc.Counts pattern place := by
  obtain ⟨matched, counts⟩ := search_matches found
  exact ⟨matched, (plain.rejection?_iff (Text.le_size_of_boundary matched.starts)).mp counts⟩

/-- A match that begins before a statement ends before it. -/
theorem Plain.stop_le (enclosed : pattern.Enclosed) (matched : sc.text.Matches pattern place)
    {i : Nat} (starts : sc.source.startsStatement i = true) (earlier : place.start < i) :
    place.stop ≤ i := by
  obtain ⟨visible, bare⟩ := enclosed _ _ _ matched.here
  obtain ⟨k, above, below, semicolon⟩ := plain.code.semicolon_between visible earlier starts
  apply Nat.le_of_not_lt
  intro longer
  rw [show sc.source.text.byteIs k Byte.isSemicolon = false from bare k above (by omega)]
    at semicolon
  cases semicolon

theorem Plain.admits (counts : sc.Counts pattern place) : sc.Admits pattern place :=
  ⟨counts.matched,
    (plain.rejection?_iff (Text.le_size_of_boundary counts.matched.starts)).mpr counts.starts⟩

/-- A search forward passes over no keyword that counts. -/
theorem Plain.search_forward_reaches (enclosed : pattern.Enclosed) (ends : pattern.EndsAscii)
    (counts : sc.Counts pattern s) (ahead : anchor ≤ s.start) :
    ∃ m, (sc.search pattern anchor .forward).value = .found m ∧ (m = s ∨ m.stop ≤ s.start) :=
  search_forward_passes plain.short ends (plain.admits counts)
    (fun _ matched => plain.stop_le enclosed matched counts.starts) ahead

/-- A search backward passes over no keyword that counts and has no other match inside. -/
theorem Plain.search_backward_reaches (enclosed : pattern.Enclosed) (ends : pattern.EndsAscii)
    (counts : sc.Counts pattern s)
    (hollow : ∀ j, s.start < j → j < s.stop → pattern sc.text j = none)
    (ahead : s.stop ≤ anchor) (within : anchor ≤ sc.text.size) :
    ∃ m, (sc.search pattern anchor .backward).value = .found m ∧ (m = s ∨ s.stop ≤ m.start) := by
  have solid : sc.text.Solid pattern s :=
    ⟨counts.matched, fun m matched => plain.stop_le enclosed matched counts.starts, hollow⟩
  exact search_backward_passes plain.short ends (plain.admits counts).counts solid ahead
    (plain.ascii.boundary within)

end Plain

/-! ### The keywords that count, in order -/

/-- The keyword that stands at `start`, if one does. -/
def keywordAt? (sc : Scanner) (pattern : Pattern) (start : Nat) : Option Extent :=
  (pattern sc.text start).map fun length => ⟨start, start + length⟩

/-- The keywords that statements begin with. -/
def counted (sc : Scanner) (pattern : Pattern) : List Extent :=
  sc.source.statements.filterMap fun st => sc.keywordAt? pattern st.start

theorem keywordAt?_start {start : Nat} (found : sc.keywordAt? pattern start = some place) :
    place.start = start := by
  obtain ⟨length, -, rfl⟩ := Option.map_eq_some_iff.mp found
  rfl

theorem counted_ascend (sc : Scanner) (pattern : Pattern) :
    (sc.counted pattern).Pairwise fun a b => a.start < b.start := by
  have ascend : sc.source.statements.Pairwise fun a b => a.start < b.start := by
    apply (sc.source.statementsFrom_apart 0).imp_of_mem
    intro a b first _ apart
    obtain ⟨-, inside, stop⟩ := Source.mem_statementsFrom a first
    have proper := sc.source.lt_statementStop inside
    omega
  apply List.Pairwise.filterMap _ _ ascend
  intro a b before p found q found'
  rwa [keywordAt?_start found, keywordAt?_start found']

/-- The keywords that a search forward from `anchor` has before it. -/
def countedFrom (sc : Scanner) (pattern : Pattern) (anchor : Nat) : List Extent :=
  (sc.counted pattern).filter (anchor ≤ ·.start)

/-- The keywords that a search backward from `anchor` has before it, the nearest first. -/
def countedBefore (sc : Scanner) (pattern : Pattern) (anchor : Nat) : List Extent :=
  ((sc.counted pattern).filter (·.start < anchor)).reverse

theorem countedBefore_descend (sc : Scanner) (pattern : Pattern) (anchor : Nat) :
    (sc.countedBefore pattern anchor).Pairwise fun a b => b.start < a.start :=
  List.pairwise_reverse.mpr ((sc.counted_ascend pattern).filter _)

/-- Before a keyword the search has the rest before it. -/
theorem countedBefore_start {rest : List Extent}
    (ahead : sc.countedBefore pattern anchor = s :: rest) :
    sc.countedBefore pattern s.start = rest := by
  have listed : s ∈ sc.countedBefore pattern anchor := ahead ▸ List.mem_cons_self
  have earlier := of_decide_eq_true (List.mem_filter.mp (List.mem_reverse.mp listed)).2
  have descend := sc.countedBefore_descend pattern anchor
  rw [ahead] at descend
  have narrowed : sc.countedBefore pattern s.start =
      (sc.countedBefore pattern anchor).filter (·.start < s.start) := by
    rw [countedBefore, countedBefore, List.filter_reverse, List.filter_filter]
    apply congrArg List.reverse
    apply List.filter_congr
    intro p _
    rw [Bool.eq_iff_iff]
    simp only [decide_eq_true_eq, Bool.and_eq_true]
    omega
  rw [narrowed, ahead, List.filter_cons_of_neg (by simp), List.filter_eq_self]
  intro p further
  exact decide_eq_true (List.rel_of_pairwise_cons descend further)

theorem countedFrom_ascend (sc : Scanner) (pattern : Pattern) (anchor : Nat) :
    (sc.countedFrom pattern anchor).Pairwise fun a b => a.start < b.start :=
  (sc.counted_ascend pattern).filter _

theorem countedFrom_eq_filterMap (sc : Scanner) (pattern : Pattern) (anchor : Nat) :
    sc.countedFrom pattern anchor =
      (sc.source.statements.filter (anchor ≤ ·.start)).filterMap
        fun st => sc.keywordAt? pattern st.start := by
  rw [countedFrom, counted, List.filter_filterMap, List.filterMap_filter]
  apply List.filterMap_congr
  intro st _
  rw [keywordAt?]
  cases pattern sc.text st.start with
  | none => simp
  | some length => rfl

section Plain

variable (plain : sc.Plain)
include plain

theorem Plain.mem_counted (enclosed : pattern.Enclosed) :
    place ∈ sc.counted pattern ↔ sc.Counts pattern place := by
  have starts_iff := plain.code.starts_iff (i := 0) Source.fresh_zero
  rw [counted, List.mem_filterMap]
  constructor
  · rintro ⟨st, listed, found⟩
    obtain ⟨length, here, rfl⟩ := Option.map_eq_some_iff.mp found
    obtain ⟨-, visible, starts⟩ := (starts_iff st.start).mp ⟨st, listed, rfl⟩
    have within := Nat.le_of_lt (Text.lt_size_of_byteIs visible)
    exact ⟨plain.ascii.matched within here, starts⟩
  · rintro ⟨matched, starts⟩
    obtain ⟨visible, -⟩ := enclosed _ _ _ matched.here
    obtain ⟨st, listed, start⟩ := (starts_iff place.start).mpr ⟨Nat.zero_le _, visible, starts⟩
    refine ⟨st, listed, ?_⟩
    rw [keywordAt?, start, matched.here, Option.map_some, Nat.add_sub_cancel' matched.ordered]

/-- A search forward finds the first keyword that counts. -/
theorem Plain.search_forward (enclosed : pattern.Enclosed) (ends : pattern.EndsAscii)
    (anchor : Nat) :
    (sc.search pattern anchor .forward).value =
      match sc.countedFrom pattern anchor with
      | [] => .absent
      | s :: _ => .found s := by
  have positive := ends.positive
  have member {m : Extent} (found : (sc.search pattern anchor .forward).value = .found m) :
      m ∈ sc.countedFrom pattern anchor := by
    apply List.mem_filter.mpr
    refine ⟨(plain.mem_counted enclosed).mpr (plain.search_counts found), ?_⟩
    simpa using (search_forward_bounds positive found).1
  cases ahead : sc.countedFrom pattern anchor with
  | nil =>
    cases found : (sc.search pattern anchor .forward).value with
    | found m =>
      rw [ahead] at member
      cases member found
    | absent => rfl
    | gaveUp limit => exact absurd found (search_ne_gaveUp plain.short ends anchor .forward limit)
  | cons s rest =>
    have listed : s ∈ sc.countedFrom pattern anchor := ahead ▸ List.mem_cons_self
    obtain ⟨counted, later⟩ := List.mem_filter.mp listed
    obtain ⟨m, found, same | early⟩ := plain.search_forward_reaches enclosed ends
      ((plain.mem_counted enclosed).mp counted) (of_decide_eq_true later)
    · rw [found, same]
    · have bounds := search_forward_bounds positive found
      have ascend := sc.countedFrom_ascend pattern anchor
      have known := member found
      rw [ahead] at ascend known
      rcases List.mem_cons.mp known with rfl | behind
      · omega
      · have := List.rel_of_pairwise_cons ascend behind
        omega

/-- Behind a keyword the search has the rest before it. -/
theorem Plain.countedFrom_stop (enclosed : pattern.Enclosed) (ends : pattern.EndsAscii)
    {rest : List Extent} (ahead : sc.countedFrom pattern anchor = s :: rest) :
    sc.countedFrom pattern s.stop = rest := by
  have counts : ∀ p ∈ s :: rest, sc.Counts pattern p ∧ anchor ≤ p.start := by
    intro p listed
    rw [← ahead] at listed
    obtain ⟨counted, later⟩ := List.mem_filter.mp listed
    exact ⟨(plain.mem_counted enclosed).mp counted, of_decide_eq_true later⟩
  obtain ⟨here, later⟩ := counts s List.mem_cons_self
  have positive := ends.positive _ _ _ here.matched.here
  have ascend := sc.countedFrom_ascend pattern anchor
  rw [ahead] at ascend
  have narrowed : sc.countedFrom pattern s.stop =
      (sc.countedFrom pattern anchor).filter (s.stop ≤ ·.start) := by
    rw [countedFrom, countedFrom, List.filter_filter]
    apply List.filter_congr
    intro p _
    rw [Bool.eq_iff_iff]
    simp only [decide_eq_true_eq, Bool.and_eq_true]
    omega
  rw [narrowed, ahead, List.filter_cons_of_neg (by simpa using (by omega : s.start < s.stop)),
    List.filter_eq_self]
  intro p listed
  have before := List.rel_of_pairwise_cons ascend listed
  have apart := plain.stop_le enclosed here.matched
    (counts p (List.mem_cons_of_mem _ listed)).1.starts before
  simpa using apart

/-- A search backward from the start of a statement finds the last keyword that counts, if no match
stands inside another that counts. -/
theorem Plain.search_backward (enclosed : pattern.Enclosed) (ends : pattern.EndsAscii)
    (hollow : ∀ p ∈ sc.counted pattern, ∀ j, p.start < j → j < p.stop → pattern sc.text j = none)
    (starts : sc.source.startsStatement anchor = true) (within : anchor ≤ sc.text.size) :
    (sc.search pattern anchor .backward).value =
      match sc.countedBefore pattern anchor with
      | [] => .absent
      | s :: _ => .found s := by
  have positive := ends.positive
  have member {m : Extent} (found : (sc.search pattern anchor .backward).value = .found m) :
      m ∈ sc.countedBefore pattern anchor := by
    have bounds := search_backward_bounds positive found
    apply List.mem_reverse.mpr
    apply List.mem_filter.mpr
    refine ⟨(plain.mem_counted enclosed).mpr (plain.search_counts found), ?_⟩
    exact decide_eq_true (by omega)
  cases ahead : sc.countedBefore pattern anchor with
  | nil =>
    cases found : (sc.search pattern anchor .backward).value with
    | found m =>
      rw [ahead] at member
      cases member found
    | absent => rfl
    | gaveUp limit => exact absurd found (search_ne_gaveUp plain.short ends anchor .backward limit)
  | cons s rest =>
    have listed : s ∈ sc.countedBefore pattern anchor := ahead ▸ List.mem_cons_self
    obtain ⟨counted, earlier⟩ := List.mem_filter.mp (List.mem_reverse.mp listed)
    have counts := (plain.mem_counted enclosed).mp counted
    have apart := plain.stop_le enclosed counts.matched starts (of_decide_eq_true earlier)
    obtain ⟨m, found, same | behind⟩ :=
      plain.search_backward_reaches enclosed ends counts (hollow s counted) apart within
    · rw [found, same]
    · have proper := positive _ _ _ counts.matched.here
      have descend := sc.countedBefore_descend pattern anchor
      have known := member found
      rw [ahead] at descend known
      rcases List.mem_cons.mp known with rfl | further
      · omega
      · have := List.rel_of_pairwise_cons descend further
        omega

end Plain

end Scanner
end SasLayout
