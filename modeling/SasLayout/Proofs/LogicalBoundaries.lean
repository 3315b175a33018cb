import SasLayout.Proofs.LogicalWalk
import SasLayout.Proofs.Seams

set_option autoImplicit false

/-!
Offsets between logical tokens. The logical tokens stand in order and all code lies within them, so
an offset that is in none of them parts their list, also where it is in a comment, and a walk
backward from there meets the tokens of the first part.
-/
namespace SasLayout

theorem Token.Repeats.restart {answer : Nat → Option Token → Prop} {onward : Token → Nat}
    {i j : Nat} {tokens : List Token} (run : Repeats answer onward j tokens)
    (same : ∀ found, answer j found → answer i found) : Repeats answer onward i tokens := by
  cases run with
  | done ended => exact .done (same _ ended)
  | step found others => exact .step (same _ found) others

namespace Source

open Token

/-- Whether an offset of the text lies within no logical token. -/
def isLogicalBoundary (src : Source) (offset : Nat) : Bool :=
  offset ≤ src.size &&
    src.logicalTokens.toList.all fun tok => tok.stop ≤ offset || offset ≤ tok.start

/-- The logical tokens before an offset. -/
def logicalUpTo (src : Source) (offset : Nat) : List Token :=
  src.logicalTokens.toList.filter (·.stop ≤ offset)

/-- The logical tokens between two offsets. -/
def logicalBetween (src : Source) (start stop : Nat) : List Token :=
  (src.logicalUpTo stop).filter (start ≤ ·.start)

section Places

variable {src : Source} {after : Option Token} {tokens : List Token} {tok : Token}

theorem rewriteBefore_apart (apart : tokens.Pairwise (·.stop ≤ ·.start)) :
    (src.rewriteBefore after tokens).Pairwise (·.stop ≤ ·.start) := by
  have behind {i : Nat} {rest : List Token} (beyond : ∀ tok ∈ rest, i ≤ tok.start) :
      ∀ tok ∈ src.rewriteBefore after rest, i ≤ tok.start := by
    intro tok listed
    obtain ⟨⟨first, inside, start⟩, -⟩ := src.rewriteBefore_bounds listed
    exact start ▸ beyond first inside
  induction tokens using rewriteBefore.induct with
  | case1 => exact .nil
  | case2 first => exact List.pairwise_singleton ..
  | case3 first second rest pair ih =>
    rw [src.rewriteBefore_target pair]
    obtain ⟨beyond, others⟩ := List.pairwise_cons.mp (List.pairwise_cons.mp apart).2
    exact List.pairwise_cons.mpr ⟨behind beyond, ih others⟩
  | case4 first second rest pair ih =>
    rw [src.rewriteBefore_cons (by simpa using pair)]
    obtain ⟨beyond, others⟩ := List.pairwise_cons.mp apart
    refine List.pairwise_cons.mpr ⟨?_, ih others⟩
    rw [resolved_stop]
    exact behind beyond

/-- Every code token lies within a logical one. -/
theorem rewriteBefore_covers (apart : tokens.Pairwise (·.stop ≤ ·.start))
    (nonempty : ∀ tok ∈ tokens, tok.start < tok.stop) (listed : tok ∈ tokens) :
    ∃ whole ∈ src.rewriteBefore after tokens, whole.start ≤ tok.start ∧ tok.stop ≤ whole.stop := by
  induction tokens using rewriteBefore.induct with
  | case1 => cases listed
  | case2 first =>
    obtain rfl := List.mem_singleton.mp listed
    exact ⟨tok.resolved after, List.mem_cons_self, by simp, by simp⟩
  | case3 first second rest pair ih =>
    rw [src.rewriteBefore_target pair]
    obtain ⟨filled, filled', others⟩ :=
      (List.forall_mem_cons.mp nonempty).imp_right List.forall_mem_cons.mp
    obtain ⟨behind, later⟩ := List.pairwise_cons.mp apart
    have order := behind second List.mem_cons_self
    rcases List.mem_cons.mp listed with rfl | listed
    · exact ⟨_, List.mem_cons_self, Nat.le_refl _, by simp only [assignmentTarget]; omega⟩
    rcases List.mem_cons.mp listed with rfl | listed
    · exact ⟨_, List.mem_cons_self, by simp only [assignmentTarget]; omega, Nat.le_refl _⟩
    · obtain ⟨whole, member, bounds⟩ := ih (List.pairwise_cons.mp later).2 others listed
      exact ⟨whole, List.mem_cons_of_mem _ member, bounds⟩
  | case4 first second rest pair ih =>
    rw [src.rewriteBefore_cons (by simpa using pair)]
    rcases List.mem_cons.mp listed with rfl | listed
    · exact ⟨_, List.mem_cons_self, by simp, by simp⟩
    · obtain ⟨whole, member, bounds⟩ := ih (List.pairwise_cons.mp apart).2
        (List.forall_mem_cons.mp nonempty).2 listed
      exact ⟨whole, List.mem_cons_of_mem _ member, bounds⟩

theorem code_apart (src : Source) : (code src.tokens.toList).Pairwise (·.stop ≤ ·.start) :=
  src.tokens_tiling.apart.filter _

theorem logicalTokens_apart (src : Source) :
    src.logicalTokens.toList.Pairwise (·.stop ≤ ·.start) := by
  rw [toList_logicalTokens]
  exact rewriteBefore_apart src.code_apart

theorem logicalTokens_covers (listed : tok ∈ code src.tokens.toList) :
    ∃ whole ∈ src.logicalTokens.toList, whole.start ≤ tok.start ∧ tok.stop ≤ whole.stop := by
  rw [toList_logicalTokens]
  exact rewriteBefore_covers src.code_apart
    (fun tok member => src.tokens_tiling.nonempty tok (mem_of_mem_code member)) listed

end Places

section Boundaries

variable {src : Source} {offset i j : Nat} {tokens : List Token}

/-- The code token before an offset that lies within none of them. It may lie within a comment,
from which the search goes on at the start. -/
theorem codeBefore?_last
    (clear : ∀ tok ∈ code src.tokens.toList, tok.stop ≤ offset ∨ offset ≤ tok.start) :
    src.codeBefore? offset = ((code src.tokens.toList).filter (·.stop ≤ offset)).getLast? := by
  have tiling := src.tokens_tiling
  have kept {front back : List Token} (whole : src.tokens.toList = front ++ back)
      (before : ∀ tok ∈ front, tok.stop ≤ offset) (beyond : ∀ tok ∈ back, offset < tok.stop) :
      (code src.tokens.toList).filter (·.stop ≤ offset) = code front := by
    rw [whole, code_append, List.filter_append, List.filter_eq_self.mpr, List.filter_eq_nil_iff.mpr,
      List.append_nil]
    · intro tok listed
      simpa using beyond tok (mem_of_mem_code listed)
    · intro tok listed
      simpa using before tok (mem_of_mem_code listed)
  by_cases crossed : ∃ tok ∈ src.tokens.toList, tok.start < offset ∧ offset < tok.stop
  · obtain ⟨tok, listed, lower, upper⟩ := crossed
    have comment : tok.isComment = true := by
      by_contra other
      have := clear tok (List.mem_filter.mpr ⟨listed, by simpa using other⟩)
      omega
    have found : src.tokenBefore? offset = some tok := by
      obtain ⟨s, member, rfl⟩ := tiling.exists_span listed
        (by rw [of_decide_eq_true comment]; rfl)
      obtain ⟨k, rfl⟩ : ∃ k, offset = k + 1 := ⟨offset - 1, by omega⟩
      have covered : src.map.spanAt? k = some s :=
        spanAt?_eq_some_iff.mpr ⟨member, Nat.le_of_lt_succ lower, Nat.lt_of_succ_lt upper⟩
      simp [tokenBefore?, covered]
    obtain ⟨front, back, whole, before, behind⟩ := tiling.split listed
    have cut : src.Cut front (tok :: back) tok.start := (whole ▸ tiling).cut_start
    rw [codeBefore?_eq_match, found, kept whole]
    · simpa only [comment, if_true] using cut.codeBefore?
    · exact fun a early => Nat.le_trans (before a early) (Nat.le_of_lt lower)
    · refine List.forall_mem_cons.mpr ⟨upper, fun b late => ?_⟩
      exact Nat.lt_trans upper ((whole ▸ tiling).cut_stop.beyond b late)
  · have cut : src.Cut _ _ offset := tiling.cut_at fun tok listed lower => by
      by_contra long
      exact crossed ⟨tok, listed, lower, Nat.lt_of_not_le long⟩
    rw [cut.codeBefore?, kept (List.takeWhile_append_dropWhile ..).symm cut.before cut.beyond]

theorem codeBefore?_congr (order : i ≤ j)
    (clear : ∀ tok ∈ code src.tokens.toList, tok.stop ≤ i ∨ j ≤ tok.start) :
    src.codeBefore? i = src.codeBefore? j := by
  rw [codeBefore?_last fun tok listed => (clear tok listed).imp_right (Nat.le_trans order),
    codeBefore?_last fun tok listed => (clear tok listed).imp_left (Nat.le_trans · order)]
  congr 1
  refine List.filter_congr fun tok listed => ?_
  have nonempty := src.tokens_tiling.nonempty tok (mem_of_mem_code listed)
  have apart := clear tok listed
  rw [decide_eq_decide]
  omega

/-- Between an offset and a later one with no code between them the same tokens come before. -/
theorem Earlier.back (run : src.Earlier j tokens)
    (good : src.text.isBoundary j = true ∧ j ≤ src.size) (order : i ≤ j)
    (clear : ∀ tok ∈ code src.tokens.toList, tok.stop ≤ src.text.floor i ∨ j ≤ tok.start) :
    src.Earlier i tokens := by
  have lower : src.text.floor i ≤ j := Nat.le_trans (src.text.floor_le i) order
  have asked : src.logicalToken? i .backward = src.logicalBefore? (src.text.floor i) :=
    if_neg (Nat.not_lt.mpr (Nat.le_trans order good.2))
  refine run.restart fun found here => ?_
  rw [(src.logicalToken?_boundary good).2] at here
  rw [asked, ← here, logicalBefore?, logicalBefore?, codeBefore?_congr lower clear]

theorem logicalTokens_nonempty (joined : src.text.Joined) {tok : Token}
    (listed : tok ∈ src.logicalTokens.toList) : tok.start < tok.stop := by
  have found := (logicalToken?_start joined listed).1
  rw [(src.logicalToken?_boundary (logicalTokens_boundary joined listed).1).1] at found
  exact (logicalAfter?_bounds found).2

/-- An offset that lies within none of some tokens in order parts them. -/
theorem filter_append_filter (apart : tokens.Pairwise (·.stop ≤ ·.start))
    (nonempty : ∀ tok ∈ tokens, tok.start < tok.stop)
    (clear : ∀ tok ∈ tokens, tok.stop ≤ offset ∨ offset ≤ tok.start) :
    tokens.filter (·.stop ≤ offset) ++ tokens.filter (offset ≤ ·.start) = tokens := by
  induction tokens with
  | nil => rfl
  | cons first rest ih =>
    obtain ⟨behind, apart⟩ := List.pairwise_cons.mp apart
    obtain ⟨filled, nonempty⟩ := List.forall_mem_cons.mp nonempty
    obtain ⟨before | after, clear⟩ := List.forall_mem_cons.mp clear
    · rw [List.filter_cons_of_pos (by simpa using before),
        List.filter_cons_of_neg (by simp; omega), List.cons_append, ih apart nonempty clear]
    · have beyond : ∀ tok ∈ first :: rest, offset ≤ tok.start ∧ offset < tok.stop := by
        refine List.forall_mem_cons.mpr ⟨⟨after, by omega⟩, fun tok listed => ?_⟩
        have := behind tok listed
        have := nonempty tok listed
        omega
      have early : (first :: rest).filter (·.stop ≤ offset) = [] :=
        List.filter_eq_nil_iff.mpr fun tok listed => by simpa using (beyond tok listed).2
      have late : (first :: rest).filter (offset ≤ ·.start) = first :: rest :=
        List.filter_eq_self.mpr fun tok listed => by simpa using (beyond tok listed).1
      rw [early, late, List.nil_append]

theorem isLogicalBoundary_iff : src.isLogicalBoundary offset = true ↔ offset ≤ src.size ∧
    ∀ tok ∈ src.logicalTokens.toList, tok.stop ≤ offset ∨ offset ≤ tok.start := by
  simp only [isLogicalBoundary, Bool.and_eq_true, List.all_eq_true, Bool.or_eq_true,
    decide_eq_true_eq]

/-- The walk backward from a boundary meets the logical tokens before it. -/
theorem earlier_logicalUpTo (joined : src.text.Joined)
    (boundary : src.isLogicalBoundary offset = true) :
    src.Earlier offset (src.logicalUpTo offset).reverse := by
  obtain ⟨within, clear⟩ := isLogicalBoundary_iff.mp boundary
  have whole : src.logicalUpTo offset ++ src.logicalTokens.toList.filter (offset ≤ ·.start) =
      src.logicalTokens.toList :=
    filter_append_filter src.logicalTokens_apart (fun _ => logicalTokens_nonempty joined) clear
  have code_clear : ∀ tok ∈ code src.tokens.toList, tok.stop ≤ src.text.floor offset ∨
      ∃ later ∈ src.logicalTokens.toList.filter (offset ≤ ·.start), later.start ≤ tok.start := by
    intro tok listed
    obtain ⟨around, member, start, stop⟩ := logicalTokens_covers listed
    rcases clear around member with before | behind
    · exact Or.inl (Text.le_floor (tokens_boundary joined tok (mem_of_mem_code listed)).2
        (Nat.le_trans stop before))
    · exact Or.inr ⟨around, List.mem_filter.mpr ⟨member, by simpa using behind⟩, start⟩
  cases rest : src.logicalTokens.toList.filter (offset ≤ ·.start) with
  | nil =>
    rw [rest] at whole code_clear
    rw [List.append_nil] at whole
    rw [whole]
    exact Earlier.back (earlier_size joined) ⟨isBoundary_size _, Nat.le_refl _⟩ within
      fun tok listed => (code_clear tok listed).imp_right (by simp)
  | cons first others =>
    have member : first ∈ src.logicalTokens.toList.filter (offset ≤ ·.start) := by simp [rest]
    obtain ⟨listed, order⟩ := List.mem_filter.mp member
    have apart := src.logicalTokens_apart.filter (offset ≤ ·.start)
    rw [rest] at whole code_clear apart
    refine Earlier.back (earlier_start joined whole.symm) (logicalTokens_boundary joined listed).1
      (by simpa using order) fun tok inside => (code_clear tok inside).imp_right ?_
    rintro ⟨later, behind, start⟩
    rcases List.mem_cons.mp behind with rfl | behind
    · exact start
    · have := (List.pairwise_cons.mp apart).1 later behind
      have := logicalTokens_nonempty joined listed
      omega

theorem logicalUpTo_append_logicalBetween (joined : src.text.Joined) (order : i ≤ j)
    (boundary : src.isLogicalBoundary i = true) :
    src.logicalUpTo i ++ src.logicalBetween i j = src.logicalUpTo j := by
  have clear := (isLogicalBoundary_iff.mp boundary).2
  have same : src.logicalUpTo i = (src.logicalUpTo j).filter (·.stop ≤ i) := by
    rw [logicalUpTo, logicalUpTo, List.filter_filter]
    refine List.filter_congr fun tok _ => ?_
    rw [← Bool.decide_and, decide_eq_decide]
    omega
  rw [same]
  refine filter_append_filter (src.logicalTokens_apart.filter _) (fun tok listed => ?_)
    fun tok listed => ?_
  · exact logicalTokens_nonempty joined (List.mem_of_mem_filter listed)
  · exact clear tok (List.mem_of_mem_filter listed)

end Boundaries

end Source
end SasLayout
