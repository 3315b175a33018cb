import Mathlib.Data.List.Find
import Mathlib.Data.List.Induction
import SasLayout.Proofs.Tiling

set_option autoImplicit false

/-!
Looking a token up next to an offset. The answer is read off the one list of all tokens: forward it
is the first token that ends after the offset, backward the last one that ends by it, unless a
comment or a literal lies around the byte before.
-/
namespace SasLayout

namespace Token

/-- The first token that ends after `offset`. -/
def firstAfter? (tokens : List Token) (offset : Nat) : Option Token :=
  tokens.find? (offset < ·.stop)

/-- The last token that ends by `offset`. -/
def lastBy? (tokens : List Token) (offset : Nat) : Option Token :=
  tokens.reverse.find? (·.stop ≤ offset)

/-- The comment or literal that holds the byte before `offset`. -/
def spanAround? (tokens : List Token) (offset : Nat) : Option Token :=
  tokens.find? fun tok => tok.kind.isSpan && tok.start < offset && offset ≤ tok.stop

/-- The token next to `offset` in a list of all tokens. -/
def lookup? (tokens : List Token) (offset : Nat) : Direction → Option Token
  | .forward => firstAfter? tokens offset
  | .backward => (spanAround? tokens offset).or (lastBy? tokens offset)

/-- The list of all answers to a question that is asked at `offset` and then, after each answer,
where that answer sends it, until there is none. -/
inductive Repeats (answer : Nat → Option Token → Prop) (onward : Token → Nat) :
    Nat → List Token → Prop
  | done {offset : Nat} (ended : answer offset none) : Repeats answer onward offset []
  | step {offset : Nat} {tok : Token} {rest : List Token} (found : answer offset (some tok))
    (others : Repeats answer onward (onward tok) rest) : Repeats answer onward offset (tok :: rest)

/-- Another question that has the same answers wherever it is asked. -/
theorem Repeats.congr {answer other : Nat → Option Token → Prop} {onward : Token → Nat}
    {offset : Nat} {tokens : List Token} (run : Repeats answer onward offset tokens)
    (asked : Nat → Prop)
    (same : ∀ {offset : Nat} {found : Option Token}, asked offset → answer offset found →
      other offset found) (first : asked offset)
    (later : ∀ tok ∈ tokens, asked (onward tok)) : Repeats other onward offset tokens := by
  induction run with
  | done ended => exact .done (same first ended)
  | step found _ ih =>
    exact .step (same first found)
      (ih (later _ List.mem_cons_self) fun tok listed => later tok (List.mem_cons_of_mem _ listed))

/-- A loop that adds each answer and goes on from there collects the list. -/
theorem Repeats.collected {answer : Nat → Option Token} {onward : Token → Nat}
    {collect : Nat → Array Token → Array Token} {offset : Nat} {tokens : List Token}
    (run : Repeats (fun offset found => answer offset = found) onward offset tokens)
    (unfolded : ∀ offset found, collect offset found = match answer offset with
      | none => found
      | some tok => collect (onward tok) (found.push tok)) (found : Array Token) :
    collect offset found = found ++ tokens.toArray := by
  induction run generalizing found with
  | done ended =>
    rw [unfolded, ended]
    simp
  | step here _ ih =>
    rw [unfolded, here]
    simp only
    rw [ih]
    simp

theorem firstAfter?_append {front back : List Token} {offset : Nat}
    (before : ∀ a ∈ front, a.stop ≤ offset) (after : ∀ b ∈ back, offset < b.stop) :
    firstAfter? (front ++ back) offset = back.head? := by
  rw [firstAfter?, List.find?_append, List.find?_eq_none.mpr, Option.none_or]
  · cases back with
    | nil => rfl
    | cons tok rest => exact List.find?_cons_of_pos (by simpa using after tok List.mem_cons_self)
  · intro a listed
    simpa using before a listed

theorem lastBy?_append {front back : List Token} {offset : Nat}
    (before : ∀ a ∈ front, a.stop ≤ offset) (after : ∀ b ∈ back, offset < b.stop) :
    lastBy? (front ++ back) offset = front.getLast? := by
  rw [lastBy?, List.reverse_append, List.find?_append, List.find?_eq_none.mpr, Option.none_or]
  · rw [List.getLast?_eq_head?_reverse]
    cases front using List.reverseRecOn with
    | nil => rfl
    | append_singleton front tok =>
      rw [List.reverse_append]
      exact List.find?_cons_of_pos (by simpa using before tok (by simp))
  · intro b listed
    simpa using after b (List.mem_reverse.mp listed)

end Token

namespace Source

/-- The bytes from `i` to `j` are code without blanks. -/
def Run (src : Source) (i j : Nat) : Prop :=
  ∀ k, i ≤ k → k ≤ j → src.text.byteIs k (!Byte.isBlank ·) = true ∧ src.map.isCode k = true

theorem Run.at {src : Source} {i j k : Nat} (run : src.Run i j) (lower : i ≤ k) (upper : k ≤ j) :
    k < src.size ∧ src.text.byteIs k Byte.isBlank = false ∧ src.map.spanAt? k = none := by
  obtain ⟨visible, free⟩ := run k lower upper
  obtain ⟨inside, dark⟩ := Text.byteIs_not_iff.mp visible
  exact ⟨inside, dark, Option.isNone_iff_eq_none.mp free⟩

theorem run_single {src : Source} {k : Nat} (visible : src.text.byteIs k (!Byte.isBlank ·) = true)
    (free : src.map.isCode k = true) : src.Run k k := by
  intro j lower upper
  obtain rfl : j = k := by omega
  exact ⟨visible, free⟩

theorem runStart_run {src : Source} {j : Nat} (here : src.Run j j) :
    src.Run (src.runStart j) j := by
  fun_induction runStart src j with
  | case1 => exact here
  | case2 i more ih =>
    obtain ⟨visible, free⟩ := Bool.and_eq_true_iff.mp more
    intro k lower upper
    rcases Nat.lt_or_ge i k with after | within
    · exact here k after upper
    · exact ih (run_single visible free) k lower within
  | case3 i _ => exact here

/-- A run starts where the byte before it is blank or in a span. -/
theorem runStart_first {src : Source} {j k : Nat} (start : src.runStart j = k + 1) :
    ¬ src.Run k k := by
  fun_induction runStart src j with
  | case1 => omega
  | case2 i more ih => exact ih start
  | case3 i less =>
    cases start
    intro run
    obtain ⟨visible, free⟩ := run k (Nat.le_refl k) (Nat.le_refl k)
    exact less (Bool.and_eq_true_iff.mpr ⟨visible, free⟩)

end Source

namespace Source.Tiling

open Token

variable {src : Source} {tokens : List Token}

theorem firstAfter?_eq (tiling : src.Tiling tokens) {tok : Token} {offset : Nat}
    (listed : tok ∈ tokens) (later : offset < tok.stop)
    (first : ∀ a ∈ tokens, a.stop ≤ tok.start → a.stop ≤ offset) :
    firstAfter? tokens offset = some tok := by
  obtain ⟨front, back, rfl, before, after⟩ := tiling.split listed
  rw [firstAfter?_append]
  · rfl
  · intro a member
    exact first a (List.mem_append_left _ member) (before a member)
  · intro b member
    rcases List.mem_cons.mp member with rfl | member
    · exact later
    · have := after b member
      have := tiling.nonempty b (by simp [member])
      omega

theorem lastBy?_eq (tiling : src.Tiling tokens) {tok : Token} {offset : Nat}
    (listed : tok ∈ tokens) (earlier : tok.stop ≤ offset)
    (last : ∀ b ∈ tokens, tok.stop ≤ b.start → offset < b.stop) :
    lastBy? tokens offset = some tok := by
  obtain ⟨front, back, rfl, before, after⟩ := tiling.split listed
  rw [show front ++ tok :: back = (front ++ [tok]) ++ back by simp, lastBy?_append]
  · simp
  · intro a member
    rcases List.mem_append.mp member with member | member
    · have := before a member
      have := tiling.nonempty tok listed
      omega
    · rw [List.mem_singleton.mp member]
      exact earlier
  · intro b member
    exact last b (by simp [member]) (after b member)

/-- A byte at which no code token goes on starts one. -/
theorem tokenAt_mem (tiling : src.Tiling tokens) {i : Nat} (here : src.Run i i)
    (first : ∀ tok ∈ tokens, tok.kind.isSpan = false → tok.start < i → tok.stop ≤ i) :
    src.text.tokenAt i ∈ tokens := by
  obtain ⟨inside, visible, free⟩ := here.at (Nat.le_refl i) (Nat.le_refl i)
  obtain ⟨tok, listed, code, lower, upper⟩ := tiling.code_covers inside visible free
  obtain rfl : tok.start = i := by
    rcases Nat.eq_or_lt_of_le lower with same | before
    · exact same
    · have := first tok listed code before
      omega
  rw [← (tiling.lexed tok listed code).1]
  exact listed

/-- Where a code token ends and the code goes on, the next one starts. -/
theorem tokenAt_stop_mem (tiling : src.Tiling tokens) {i : Nat}
    (listed : src.text.tokenAt i ∈ tokens)
    (here : src.Run (src.text.tokenAt i).stop (src.text.tokenAt i).stop) :
    src.text.tokenAt (src.text.tokenAt i).stop ∈ tokens := by
  have longer := src.text.lt_tokenAt_stop i
  refine tiling.tokenAt_mem here fun tok member _ before => ?_
  apply Nat.le_of_not_lt
  intro beyond
  have same := tiling.unique member listed (i := (src.text.tokenAt i).stop - 1)
    (by omega) (by rw [tokenAt_start]; omega)
  rw [same] at beyond
  omega

/-- A run of code starts with a token. -/
theorem runStart_mem (tiling : src.Tiling tokens) {j : Nat} (here : src.Run j j) :
    src.text.tokenAt (src.runStart j) ∈ tokens := by
  have run := runStart_run here
  have below := src.runStart_le j
  refine tiling.tokenAt_mem (fun k lower upper => run k lower (by omega)) ?_
  intro tok listed code before
  apply Nat.le_of_not_lt
  intro beyond
  obtain ⟨k, start⟩ : ∃ k, src.runStart j = k + 1 :=
    ⟨_, (Nat.succ_pred_eq_of_pos (by omega)).symm⟩
  have visible := (tiling.lexed tok listed code).2 k (by omega) (by omega)
  have free := tiling.code_free listed code (i := k) (by omega) (by omega)
  have inside := Nat.lt_of_lt_of_le beyond (tiling.within tok listed)
  refine runStart_first start (run_single (Text.byteIs_not_iff.mpr ⟨?_, visible⟩) ?_)
  · change k < src.size
    omega
  · rw [SpanMap.isCode, free, Option.isNone_none]

/-- Reading on from a token within a run arrives at the token around an offset of the run. -/
theorem tokenOver_eq (tiling : src.Tiling tokens) {tok : Token} {offset i : Nat}
    (listed : tok ∈ tokens) (covers : tok.start ≤ offset ∧ offset < tok.stop)
    (run : src.Run i offset) (before : i ≤ offset) (start : src.text.tokenAt i ∈ tokens) :
    src.tokenOver offset i = tok := by
  fun_induction tokenOver src offset i with
  | case1 i longer short ih =>
    have later : src.Run (src.text.tokenAt i).stop offset := fun k lower upper =>
      run k (by omega) upper
    exact ih later short
      (tiling.tokenAt_stop_mem start fun k lower upper => later k lower (by omega))
  | case2 i longer long =>
    exact tiling.unique start listed ⟨before, Nat.lt_of_not_le long⟩ covers

/-- A token that ends after an offset of the code also ends after the blanks that follow it. -/
theorem beyond_blanks (tiling : src.Tiling tokens) {offset start : Nat}
    (free : src.map.spanAt? offset = none) (before : offset ≤ start)
    (blank : ∀ j, offset ≤ j → j < start → src.text.byteIs j Byte.isBlank = true)
    {tok : Token} (listed : tok ∈ tokens) (later : offset < tok.stop) : start < tok.stop := by
  have shown := tiling.visible tok listed
  have nonempty := tiling.nonempty tok listed
  apply Nat.lt_of_not_le
  intro short
  by_cases inside : tok.start ≤ offset
  · cases covered : tok.kind.isSpan with
    | true =>
      obtain ⟨s, member, rfl⟩ := tiling.exists_span listed covered
      exact spanAt?_eq_none_iff.mp free s member ⟨inside, later⟩
    | false =>
      have visible := (tiling.lexed tok listed covered).2 offset inside later
      rw [blank offset (Nat.le_refl _) (by omega)] at visible
      cases visible
  · rw [blank tok.start (by omega) (by omega)] at shown
    cases shown

theorem firstAfter?_skip (tiling : src.Tiling tokens) {offset start : Nat}
    (free : src.map.spanAt? offset = none) (before : offset ≤ start)
    (blank : ∀ j, offset ≤ j → j < start → src.text.byteIs j Byte.isBlank = true) :
    firstAfter? tokens offset = firstAfter? tokens start := by
  refine List.find?_congr fun tok listed => ?_
  refine decide_eq_decide.mpr ⟨tiling.beyond_blanks free before blank listed, fun later => ?_⟩
  omega

theorem firstAfter?_span (tiling : src.Tiling tokens) {offset : Nat} {s : Span}
    (found : src.map.spanAt? offset = some s) :
    firstAfter? tokens offset = some (src.spanToken s) := by
  obtain ⟨listed, lower, upper⟩ := spanAt?_eq_some_iff.mp found
  refine tiling.firstAfter?_eq (tiling.span_mem listed) upper fun a _ before => ?_
  exact Nat.le_trans before lower

theorem firstAfter?_past (tiling : src.Tiling tokens) {offset : Nat} (past : src.size ≤ offset) :
    firstAfter? tokens offset = none := by
  refine List.find?_eq_none.mpr fun tok listed => ?_
  have := tiling.within tok listed
  simp only [decide_eq_true_eq]
  omega

/-- Forward, the token next to an offset is the first that ends after it. -/
theorem tokenAfter?_eq (tiling : src.Tiling tokens) (offset : Nat) :
    src.tokenAfter? offset = firstAfter? tokens offset := by
  unfold tokenAfter?
  split
  · rename_i inside
    split
    · rename_i s found
      exact (tiling.firstAfter?_span found).symm
    rename_i free
    simp only
    have before := src.text.le_seek (!Byte.isBlank ·) offset (Nat.le_of_lt inside)
    rw [tiling.firstAfter?_skip free before fun j lower upper => by
      have bound := src.text.seek_le_size (!Byte.isBlank ·) offset
      have hidden := Text.seek_before lower upper
      rw [Text.byteIs_not (by omega)] at hidden
      simpa using hidden]
    split
    · rename_i within
      have visible := Text.seek_found within
      split
      · rename_i s found
        exact (tiling.firstAfter?_span found).symm
      rename_i code
      -- The run around the first byte that is not blank is read again from its start.
      have here := run_single visible (by rw [SpanMap.isCode, code, Option.isNone_none])
      obtain ⟨inside, dark, free⟩ := here.at (Nat.le_refl _) (Nat.le_refl _)
      obtain ⟨tok, listed, _, covers⟩ := tiling.code_covers inside dark free
      rw [tiling.tokenOver_eq listed covers (runStart_run here) (src.runStart_le _)
        (tiling.runStart_mem here)]
      exact (tiling.firstAfter?_eq listed covers.2 fun a _ ends => by omega).symm
    · exact (tiling.firstAfter?_past (by omega)).symm
  · exact (tiling.firstAfter?_past (by omega)).symm

theorem spanAround?_eq (tiling : src.Tiling tokens) {k : Nat} {s : Span}
    (found : src.map.spanAt? k = some s) :
    spanAround? tokens (k + 1) = some (src.spanToken s) := by
  obtain ⟨listed, lower, upper⟩ := spanAt?_eq_some_iff.mp found
  have member := tiling.span_mem listed
  have present : (spanAround? tokens (k + 1)).isSome = true := by
    refine List.find?_isSome.mpr ⟨_, member, ?_⟩
    rw [spanToken_isSpan, Bool.true_and, Bool.and_eq_true]
    exact ⟨decide_eq_true (Nat.lt_succ_of_le lower), decide_eq_true upper⟩
  obtain ⟨tok, around⟩ := Option.isSome_iff_exists.mp present
  have holds := List.find?_some around
  simp only [Bool.and_eq_true, decide_eq_true_eq] at holds
  rw [around, tiling.unique (List.mem_of_find?_eq_some around) member (i := k) (by omega)
    ⟨lower, upper⟩]

theorem spanAround?_free (tiling : src.Tiling tokens) {k : Nat}
    (free : src.map.spanAt? k = none) : spanAround? tokens (k + 1) = none := by
  refine List.find?_eq_none.mpr fun tok listed holds => ?_
  simp only [Bool.and_eq_true, decide_eq_true_eq] at holds
  obtain ⟨s, member, rfl⟩ := tiling.exists_span listed holds.1.1
  exact spanAt?_eq_none_iff.mp free s member
    ⟨Nat.le_of_lt_succ holds.1.2, Nat.lt_of_succ_le holds.2⟩

/-- Reading on from a token that ends within a run arrives at the last one that does. -/
theorem lastTokenBy_eq (tiling : src.Tiling tokens) {limit i : Nat} {tok : Token}
    (listed : tok ∈ tokens) (stop : tok.stop = i) (within : i ≤ limit)
    (run : ∀ k, i ≤ k → k < limit → src.Run k k)
    (next : i < limit → src.text.tokenAt i ∈ tokens) :
    src.lastTokenBy limit i (some tok) = lastBy? tokens limit := by
  induction left : limit - i using Nat.strongRecOn generalizing i tok with
  | ind left ih =>
    rw [lastTokenBy]
    split
    · rename_i before
      have longer := src.text.lt_tokenAt_stop i
      split
      · rename_i long
        -- The next token goes past the limit, and all others start after it.
        refine (tiling.lastBy?_eq listed (by omega) fun b member after => ?_).symm
        by_contra short
        have nonempty := tiling.nonempty b member
        have same := tiling.unique (next before) member (i := b.start)
          (by rw [tokenAt_start]; omega) (by omega)
        rw [same] at long
        omega
      · rename_i short
        refine ih _ (by omega) (next before) rfl (by omega) (fun k lower upper =>
          run k (by omega) upper) (fun inside => ?_) rfl
        exact tiling.tokenAt_stop_mem (next before) (run _ (by omega) inside)
    · refine (tiling.lastBy?_eq listed (by omega) fun b member after => ?_).symm
      have := tiling.nonempty b member
      omega

/-- Reading a run from its start finds nothing only when the first token is too long. -/
theorem lastTokenBy_run (tiling : src.Tiling tokens) {limit i : Nat}
    (start : src.text.tokenAt i ∈ tokens) (before : i < limit)
    (run : ∀ k, i ≤ k → k < limit → src.Run k k) :
    src.lastTokenBy limit i none =
      if limit < (src.text.tokenAt i).stop then none else lastBy? tokens limit := by
  have longer := src.text.lt_tokenAt_stop i
  rw [lastTokenBy, if_pos before]
  split
  · rfl
  · refine tiling.lastTokenBy_eq start rfl (by omega) (fun k lower upper =>
      run k (by omega) upper) fun inside => ?_
    exact tiling.tokenAt_stop_mem start (run _ (by omega) inside)

theorem lastTokenBy_runStart (tiling : src.Tiling tokens) {k : Nat} (code : src.Run k k) :
    src.lastTokenBy (k + 1) (src.runStart k) none =
      if k + 1 < (src.text.tokenAt (src.runStart k)).stop then none
      else lastBy? tokens (k + 1) := by
  have run := runStart_run code
  have start := src.runStart_le k
  refine tiling.lastTokenBy_run (tiling.runStart_mem code) (by omega) fun j lower upper => ?_
  intro i above below
  exact run i (by omega) (by omega)

/-- No span lies on both sides of `limit`. -/
def Clear (src : Source) (limit : Nat) : Prop :=
  ∀ s ∈ src.map.spans, ¬ (s.start < limit ∧ limit < s.stop)

/-- Blanks before a limit do not matter when code precedes them. -/
theorem lastBy?_skip (tiling : src.Tiling tokens) {k limit : Nat} (code : src.Run k k)
    (below : k < limit)
    (blank : ∀ j, k < j → j < limit → j < src.size → src.text.byteIs j Byte.isBlank = true) :
    lastBy? tokens limit = lastBy? tokens (k + 1) := by
  obtain ⟨_, _, free⟩ := code.at (Nat.le_refl k) (Nat.le_refl k)
  refine List.find?_congr fun tok listed => ?_
  have member := List.mem_reverse.mp listed
  refine decide_eq_decide.mpr ⟨fun short => ?_, fun short => by omega⟩
  by_contra long
  have shown := tiling.visible tok member
  have nonempty := tiling.nonempty tok member
  have within := tiling.within tok member
  by_cases around : tok.start ≤ k
  · cases covered : tok.kind.isSpan with
    | true =>
      obtain ⟨s, span, rfl⟩ := tiling.exists_span member covered
      exact spanAt?_eq_none_iff.mp free s span ⟨around, by rw [spanToken_stop] at long; omega⟩
    | false =>
      have visible := (tiling.lexed tok member covered).2 (tok.stop - 1) (by omega) (by omega)
      rw [blank _ (by omega) (by omega) (by omega)] at visible
      cases visible
  · rw [blank tok.start (by omega) (by omega) (by omega)] at shown
    cases shown

theorem runStart_clear {j : Nat} (here : src.Run j j) : Clear src (src.runStart j) := by
  intro s listed across
  obtain ⟨_, _, free⟩ := (runStart_run here).at (Nat.le_refl _) (src.runStart_le j)
  exact spanAt?_eq_none_iff.mp free s listed ⟨Nat.le_of_lt across.1, across.2⟩

/-- When the first token of a run does not end by `limit`, no token of the run does. -/
theorem lastBy?_run (tiling : src.Tiling tokens) {i limit : Nat}
    (start : src.text.tokenAt i ∈ tokens) (before : i < limit)
    (long : limit < (src.text.tokenAt i).stop) : lastBy? tokens limit = lastBy? tokens i := by
  refine List.find?_congr fun tok listed => ?_
  have member := List.mem_reverse.mp listed
  refine decide_eq_decide.mpr ⟨fun short => ?_, fun short => by omega⟩
  by_contra later
  have nonempty := tiling.nonempty tok member
  have same := tiling.unique start member (i := tok.stop - 1)
    (by rw [tokenAt_start]; omega) (by omega)
  rw [same] at long
  omega

theorem tokenUpTo?_eq (tiling : src.Tiling tokens) (limit : Nat) (clear : Clear src limit) :
    src.tokenUpTo? limit = lastBy? tokens limit := by
  have blank {limit k : Nat} (last : src.text.seekBack (!Byte.isBlank ·) limit = k) {j : Nat}
      (lower : k ≤ j) (upper : j < limit) (inside : j < src.size) :
      src.text.byteIs j Byte.isBlank = true := by
    have hidden := Text.seekBack_after (Nat.le_trans (Nat.le_of_eq last) lower) upper
    rw [Text.byteIs_not inside] at hidden
    simpa using hidden
  fun_induction tokenUpTo? src limit with
  | case1 limit none =>
    refine (List.find?_eq_none.mpr fun tok listed short => ?_).symm
    have member := List.mem_reverse.mp listed
    have nonempty := tiling.nonempty tok member
    have within := tiling.within tok member
    have shown := tiling.visible tok member
    rw [decide_eq_true_eq] at short
    rw [blank none (Nat.zero_le tok.start) (by omega) (by omega)] at shown
    cases shown
  | case2 limit k last below s found =>
    obtain ⟨listed, lower, upper⟩ := spanAt?_eq_some_iff.mp found
    have short : s.stop ≤ limit := Nat.le_of_not_lt fun long => clear s listed ⟨by omega, long⟩
    refine (tiling.lastBy?_eq (tiling.span_mem listed) short fun b member after => ?_).symm
    rw [spanToken_stop] at after
    have nonempty := tiling.nonempty b member
    have within := tiling.within b member
    have shown := tiling.visible b member
    by_contra ends
    rw [blank last (show k + 1 ≤ b.start by omega) (by omega) (by omega)] at shown
    cases shown
  | case3 limit k last below free tok lexed =>
    have code := run_single (Text.seekBack_found last) (by rw [SpanMap.isCode, free]; rfl)
    rw [tiling.lastTokenBy_runStart code] at lexed
    split at lexed
    · cases lexed
    · rw [tiling.lastBy?_skip code below fun j lower upper => blank last lower upper, lexed]
  | case4 limit k last below free lexed bound ih =>
    have code := run_single (Text.seekBack_found last) (by rw [SpanMap.isCode, free]; rfl)
    have start := tiling.runStart_mem code
    rw [tiling.lastTokenBy_runStart code] at lexed
    rw [tiling.lastBy?_skip code below fun j lower upper => blank last lower upper,
      ih (runStart_clear code)]
    split at lexed
    · rename_i long
      exact (tiling.lastBy?_run start (by omega) long).symm
    · rename_i short
      have absent := List.find?_eq_none.mp lexed _ (List.mem_reverse.mpr start)
      rw [decide_eq_true_eq] at absent
      omega

theorem tokenBefore?_eq (tiling : src.Tiling tokens) (offset : Nat) :
    src.tokenBefore? offset = (spanAround? tokens offset).or (lastBy? tokens offset) := by
  unfold tokenBefore?
  split
  · rw [spanAround?, List.find?_eq_none.mpr, Option.none_or, lastBy?, List.find?_eq_none.mpr]
    · intro tok listed
      have := tiling.nonempty tok (List.mem_reverse.mp listed)
      simp only [decide_eq_true_eq]
      omega
    · intro tok listed
      simp
  · rename_i k
    split
    · rename_i s found
      rw [tiling.spanAround?_eq found, Option.some_or]
    · rename_i free
      rw [tiling.spanAround?_free free, Option.none_or]
      refine tiling.tokenUpTo?_eq (k + 1) fun s listed across => ?_
      exact spanAt?_eq_none_iff.mp free s listed ⟨by omega, by omega⟩

end Source.Tiling

namespace Source

open Token

variable {src : Source} {front back : List Token} {offset : Nat}

/-- An offset between two tokens that follow each other in the list of all tokens. -/
structure Cut (src : Source) (front back : List Token) (offset : Nat) : Prop where
  tiling : src.Tiling (front ++ back)
  before : ∀ a ∈ front, a.stop ≤ offset
  after : ∀ b ∈ back, offset ≤ b.start

theorem Tiling.cut_zero {tokens : List Token} (tiling : src.Tiling tokens) :
    src.Cut [] tokens 0 where
  tiling := tiling
  before := by simp
  after _ _ := Nat.zero_le _

theorem Tiling.cut_size {tokens : List Token} (tiling : src.Tiling tokens) :
    src.Cut tokens [] src.size where
  tiling := by rwa [List.append_nil]
  before := tiling.within
  after := by simp

theorem Tiling.cut_start {tok : Token} (tiling : src.Tiling (front ++ tok :: back)) :
    src.Cut front (tok :: back) tok.start where
  tiling := tiling
  before a listed := (List.pairwise_append.mp tiling.apart).2.2 a listed tok List.mem_cons_self
  after b listed := by
    have apart := (List.pairwise_cons.mp (List.pairwise_append.mp tiling.apart).2.1).1
    have nonempty := tiling.nonempty tok (by simp)
    rcases List.mem_cons.mp listed with rfl | later
    · exact Nat.le_refl _
    · exact Nat.le_trans (Nat.le_of_lt nonempty) (apart b later)

theorem Tiling.cut_stop {tok : Token} (tiling : src.Tiling (front ++ tok :: back)) :
    src.Cut (front ++ [tok]) back tok.stop where
  tiling := by rwa [List.append_assoc, List.singleton_append]
  before a listed := by
    have nonempty := tiling.nonempty tok (by simp)
    rcases List.mem_append.mp listed with earlier | same
    · exact Nat.le_trans (tiling.cut_start.before a earlier) (Nat.le_of_lt nonempty)
    · rw [List.mem_singleton.mp same]
  after := (List.pairwise_cons.mp (List.pairwise_append.mp tiling.apart).2.1).1

theorem Cut.beyond (cut : src.Cut front back offset) : ∀ b ∈ back, offset < b.stop := by
  intro b listed
  have nonempty := cut.tiling.nonempty b (List.mem_append_right _ listed)
  exact Nat.lt_of_le_of_lt (cut.after b listed) nonempty

theorem Cut.tokenAfter? (cut : src.Cut front back offset) :
    src.tokenAfter? offset = back.head? := by
  rw [cut.tiling.tokenAfter?_eq]
  exact firstAfter?_append cut.before cut.beyond

theorem Cut.tokenBefore? (cut : src.Cut front back offset) :
    src.tokenBefore? offset = front.getLast? := by
  rw [cut.tiling.tokenBefore?_eq, ← lastBy?_append cut.before cut.beyond]
  cases around : spanAround? (front ++ back) offset with
  | none => rfl
  | some tok =>
    -- A span around the byte before a cut ends at the cut.
    have holds := List.find?_some around
    simp only [Bool.and_eq_true, decide_eq_true_eq] at holds
    have listed := List.mem_of_find?_eq_some around
    have ends : tok.stop = offset := by
      rcases List.mem_append.mp listed with earlier | later
      · have := cut.before tok earlier
        omega
      · have := cut.after tok later
        omega
    rw [Option.some_or]
    refine (cut.tiling.lastBy?_eq listed (by omega) fun b member apart => ?_).symm
    have := cut.tiling.nonempty b member
    omega

theorem Cut.repeats_forward (cut : src.Cut front back offset) :
    Repeats (fun offset found => src.tokenAfter? offset = found) (·.stop) offset back := by
  induction back generalizing front offset with
  | nil => exact .done cut.tokenAfter?
  | cons tok rest ih => exact .step cut.tokenAfter? (ih cut.tiling.cut_stop)

theorem Cut.repeats_backward (cut : src.Cut front back offset) :
    Repeats (fun offset found => src.tokenBefore? offset = found) (·.start) offset
      front.reverse := by
  induction front using List.reverseRecOn generalizing back offset with
  | nil => exact .done cut.tokenBefore?
  | append_singleton rest tok ih =>
    have tiling := cut.tiling
    rw [List.append_assoc] at tiling
    have found := cut.tokenBefore?
    rw [List.getLast?_append, List.getLast?_singleton, Option.some_or] at found
    rw [List.reverse_append]
    exact .step found (ih tiling.cut_start)

theorem collectTokens_eq_match (src : Source) (offset : Nat) (found : Array Token) :
    src.collectTokens offset found = match src.tokenAfter? offset with
      | none => found
      | some tok => src.collectTokens tok.stop (found.push tok) := by
  rw [collectTokens]
  split <;> simp_all

theorem collectTokensBack_eq_match (src : Source) (offset : Nat) (found : Array Token) :
    src.collectTokensBack offset found = match src.tokenBefore? offset with
      | none => found
      | some tok => src.collectTokensBack tok.start (found.push tok) := by
  rw [collectTokensBack]
  split <;> simp_all

/-- The tokens, each found after the one before it, are those of the single pass. -/
theorem toList_tokens (src : Source) : src.tokens.toList = src.lexFrom true 0 := by
  rw [tokens, src.lexFrom_tiling.cut_zero.repeats_forward.collected src.collectTokens_eq_match]
  simp

theorem tokens_tiling (src : Source) : src.Tiling src.tokens.toList := by
  rw [toList_tokens]
  exact src.lexFrom_tiling

theorem tokensBackward_eq (src : Source) : src.tokensBackward = src.tokens.reverse := by
  rw [tokensBackward,
    src.tokens_tiling.cut_size.repeats_backward.collected src.collectTokensBack_eq_match]
  apply Array.ext'
  simp

theorem isBoundary_zero (t : Text) : t.isBoundary 0 = true := by
  simp [Text.isBoundary]

theorem isBoundary_size (t : Text) : t.isBoundary t.size = true := by
  simp [Text.isBoundary]

theorem tokens_boundary (joined : src.text.Joined) :
    ∀ tok ∈ src.tokens.toList,
      src.text.isBoundary tok.start = true ∧ src.text.isBoundary tok.stop = true := by
  rw [toList_tokens]
  exact lexFrom_boundary joined true 0 (isBoundary_zero _)

theorem checkOffset_within (within : offset ≤ src.size) :
    src.checkOffset offset = .ok (src.text.floor offset) :=
  if_neg (Nat.not_lt.mpr within)

theorem classify_eq (src : Source) (offset : Nat) (towards : Direction) :
    src.classify offset towards =
      if src.size < offset then .error ⟨offset, src.size⟩
      else .ok (lookup? src.tokens.toList (src.text.floor offset) towards) := by
  have tiling := src.tokens_tiling
  cases towards <;> simp only [classify, checkOffset, Text.checkOffset, size, lookup?,
    ← tiling.tokenAfter?_eq, ← tiling.tokenBefore?_eq] <;> split <;> rfl

/-- At a boundary of the text the question backward needs no move. -/
theorem classify_backward {found : Option Token}
    (boundary : src.text.isBoundary offset = true) (within : offset ≤ src.size)
    (here : src.tokenBefore? offset = found) :
    src.classify offset .backward = .ok found := by
  rw [classify_eq, if_neg (by omega), Text.floor_eq_self boundary, lookup?,
    ← src.tokens_tiling.tokenBefore?_eq, here]

/-- Every question about a single offset is answered from the one list of tokens, and asking
backward again and again from the end gives that list in reverse. -/
theorem classify_eq_lookup (settings : LexicalSettings) (s : String) :
    let src := Source.ofText settings (Text.ofString s)
    (∀ offset towards, src.classify offset towards =
      if src.size < offset then .error ⟨offset, src.size⟩
      else .ok (lookup? src.tokens.toList (src.text.floor offset) towards)) ∧
    Repeats (fun offset found => src.classify offset .backward = .ok found) (·.start) src.size
      src.tokens.toList.reverse := by
  intro src
  refine ⟨src.classify_eq, ?_⟩
  have tiling := src.tokens_tiling
  have joined : src.text.Joined := Text.joined_ofString s
  have boundary := tokens_boundary joined
  refine tiling.cut_size.repeats_backward.congr
    (fun offset => src.text.isBoundary offset = true ∧ offset ≤ src.size) ?_ ?_ ?_
  · intro offset found good here
    exact classify_backward good.1 good.2 here
  · exact ⟨isBoundary_size _, Nat.le_refl _⟩
  · intro tok listed
    have member := List.mem_reverse.mp listed
    have := tiling.within tok member
    have := tiling.nonempty tok member
    exact ⟨(boundary tok member).1, by omega⟩

/-- The tokens tile the text: they are found one after another until the text ends, they stand in
order and whole characters apart, all else is blank, and they agree with the span map on comments,
literals and the ends of statements. -/
theorem tokens_tile (settings : LexicalSettings) (s : String) :
    let src := Source.ofText settings (Text.ofString s)
    let tokens := src.tokens.toList
    Repeats (fun offset found => src.tokenAfter? offset = found) (·.stop) 0 tokens ∧
    (∀ tok ∈ tokens, tok.start < tok.stop ∧ tok.stop ≤ src.size ∧
      src.text.isBoundary tok.start = true ∧ src.text.isBoundary tok.stop = true ∧
      tok.lexeme = src.text.slice tok.start tok.stop) ∧
    tokens.Pairwise (·.stop ≤ ·.start) ∧
    (∀ i < src.size, (∀ tok ∈ tokens, ¬ (tok.start ≤ i ∧ i < tok.stop)) →
      src.text.byteIs i Byte.isBlank = true) ∧
    tokens.filter (·.kind.isSpan) = src.map.spans.toList.map src.spanToken ∧
    (∀ tok ∈ tokens, tok.kind.isSpan = false → ∀ span ∈ src.map.spans,
      tok.stop ≤ span.start ∨ span.stop ≤ tok.start) ∧
    (tokens.filter (·.kind = .statementEnd)).map (·.start) = src.map.terminators.toList := by
  intro src tokens
  have tiling : src.Tiling tokens := src.tokens_tiling
  have joined : src.text.Joined := Text.joined_ofString s
  have boundary := tokens_boundary joined
  have pass : tokens = src.lexFrom true 0 := src.toList_tokens
  refine ⟨tiling.cut_zero.repeats_forward, ?_, tiling.apart, ?_, tiling.spans, ?_, ?_⟩
  · intro tok listed
    refine ⟨tiling.nonempty tok listed, tiling.within tok listed, (boundary tok listed).1,
      (boundary tok listed).2, ?_⟩
    rw [pass] at listed
    exact src.lexFrom_lexeme true 0 tok listed
  · intro i inside bare
    cases visible : src.text.byteIs i Byte.isBlank with
    | true => rfl
    | false =>
      obtain ⟨tok, listed, covers⟩ := tiling.covers i inside visible
      exact absurd covers (bare tok listed)
  · intro tok listed code span member
    have nonempty := tiling.nonempty tok listed
    have fits := (span_fits member).nonempty
    by_contra overlap
    have free := tiling.code_free listed code (i := max tok.start span.start) (by omega) (by omega)
    exact spanAt?_eq_none_iff.mp free span member ⟨by omega, by omega⟩
  · rw [pass, lexFrom_ends, map_terminators]

end Source
end SasLayout
