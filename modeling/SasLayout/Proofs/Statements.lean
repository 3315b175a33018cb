import SasLayout.Indent.Walk
import SasLayout.Proofs.LogicalTokens
import SasLayout.Statement

set_option autoImplicit false

/-!
Statements by their tokens. The statement around an offset starts at the first token after the last
semicolon before the offset, a comment included. The separators of the indentation grammar are
single bytes, so where one of them ends is known from where it starts.
-/
namespace SasLayout

namespace Source

open Token

variable {src : Source} {front back early late : List Token} {offset : Nat}

theorem afterTerminator_le (src : Source) (offset : Nat) :
    src.afterTerminator offset ≤ offset := by
  unfold afterTerminator
  split
  · rename_i last found
    unfold SpanMap.previousTerminator? at found
    split at found
    · cases found
    · rename_i k leading
      obtain ⟨inside, before⟩ := Bisect.leading_last leading
      rw [Array.getElem?_eq_getElem inside] at found
      cases found
      exact of_decide_eq_true before
  · exact Nat.zero_le offset

/-- The statement around a visible character starts no later than the character. -/
theorem statementStart_le (visible : src.text.byteIs offset (!Byte.isBlank ·) = true) :
    src.statementStart offset ≤ offset :=
  Text.seek_le_of_found (src.afterTerminator_le offset) visible

/-- The first token behind a cut is found by its first byte. -/
theorem Cut.seek (cut : src.Cut front back offset) (within : offset ≤ src.size) :
    src.text.seek (!Byte.isBlank ·) offset = (back.head?.map (·.start)).getD src.size := by
  have blank : ∀ k, offset ≤ k → k < src.size → (∀ b ∈ back.head?, k < b.start) →
      src.text.byteIs k (!Byte.isBlank ·) = false := by
    intro k lower upper before
    rw [Text.byteIs_not upper, Bool.not_eq_false']
    cases visible : src.text.byteIs k Byte.isBlank with
    | true => rfl
    | false =>
      obtain ⟨tok, listed, covers⟩ := cut.tiling.covers k upper visible
      rcases List.mem_append.mp listed with earlier | later
      · have := cut.before tok earlier
        omega
      · cases back with
        | nil => cases later
        | cons first rest =>
          have := before first rfl
          have := cut.tiling.cut_start.after tok later
          omega
  cases back with
  | nil =>
    exact Text.seek_eq within (fun k lower upper => blank k lower upper (by simp)) (Or.inr rfl)
  | cons first rest =>
    have listed : first ∈ front ++ first :: rest := by simp
    have inside := Nat.lt_of_lt_of_le (cut.tiling.nonempty first listed)
      (cut.tiling.within first listed)
    refine Text.seek_eq (cut.after first List.mem_cons_self) (fun k lower upper => ?_)
      (Or.inl (Text.byteIs_not_iff.mpr ⟨inside, cut.tiling.visible first listed⟩))
    refine blank k lower (Nat.lt_trans upper inside) fun b same => ?_
    cases same
    exact upper

/-- The semicolons before a cut are those among the tokens before it. -/
theorem Cut.previousTerminator? (cut : src.Cut front back offset)
    (whole : front ++ back = src.tokens.toList) :
    src.map.previousTerminator? offset =
      ((front.filter (·.kind = .statementEnd)).map (·.start)).getLast? := by
  have view : src.map.terminators.toList =
      (front.filter (·.kind = .statementEnd)).map (·.start) ++
        (back.filter (·.kind = .statementEnd)).map (·.start) := by
    rw [← List.map_append, ← List.filter_append, whole, toList_tokens, lexFrom_ends,
      map_terminators]
  have count := Bisect.leading_eq (p := (· < offset)) view
    (by
      intro start listed
      obtain ⟨tok, kept, rfl⟩ := List.mem_map.mp listed
      have member := (List.mem_filter.mp kept).1
      have := cut.before tok member
      have := cut.tiling.nonempty tok (List.mem_append_left _ member)
      simp only [decide_eq_true_eq]
      omega)
    (by
      intro start listed
      obtain ⟨tok, kept, rfl⟩ := List.mem_map.mp listed
      have := cut.after tok (List.mem_filter.mp kept).1
      simp only [decide_eq_false_iff_not]
      omega)
  rw [SpanMap.previousTerminator?, count, List.getLast?_eq_getElem?]
  split
  · rename_i none
    rw [none, List.getElem?_eq_none (by omega)]
  · rename_i k some
    rw [some, Nat.succ_sub_one, ← Array.getElem?_toList, view,
      List.getElem?_append_left (by omega)]

theorem Tiling.semicolon_stop {tokens : List Token} (tiling : src.Tiling tokens) {tok : Token}
    (listed : tok ∈ tokens) (ends : tok.kind = .statementEnd) : tok.stop = tok.start + 1 := by
  have lexed := (tiling.lexed tok listed (by rw [ends]; rfl)).1
  rw [lexed, tokenAt_kind, (src.text.shapeAt_kind _).2] at ends
  rw [lexed]
  exact (tokenAt_semicolon ends).2

/-- The statement around a cut, comments before it included, goes back to the last semicolon. -/
theorem Cut.afterTerminator (cut : src.Cut (early ++ late) back offset)
    (whole : early ++ late ++ back = src.tokens.toList)
    (plain : ∀ tok ∈ late, tok.kind ≠ .statementEnd)
    (ended : ∀ tok ∈ early.getLast?, tok.kind = .statementEnd) :
    src.Cut early (late ++ back) (src.afterTerminator offset) ∧
      src.afterTerminator offset ≤ src.size := by
  have bare : late.filter (·.kind = .statementEnd) = [] :=
    List.filter_eq_nil_iff.mpr fun tok listed => by simpa using plain tok listed
  have tiling := cut.tiling
  rw [List.append_assoc] at tiling
  rw [Source.afterTerminator, cut.previousTerminator? whole, List.filter_append, bare,
    List.append_nil]
  cases early using List.reverseRecOn with
  | nil => exact ⟨tiling.cut_zero, Nat.zero_le _⟩
  | append_singleton rest last =>
    have semicolon := ended last (by simp)
    rw [List.append_assoc, List.singleton_append] at tiling
    have stop := tiling.semicolon_stop (show last ∈ _ by simp) semicolon
    rw [List.filter_append, List.filter_cons_of_pos (by simpa using semicolon), List.filter_nil,
      List.map_append, List.map_singleton, List.getLast?_append, List.getLast?_singleton,
      Option.some_or]
    simp only [← stop]
    exact ⟨tiling.cut_stop, tiling.within last (by simp)⟩

/-- The tokens before an offset fall into those of earlier statements and those of its own. -/
theorem exists_statement (front : List Token) :
    ∃ early late, front = early ++ late ∧ (∀ tok ∈ late, tok.kind ≠ .statementEnd) ∧
      ∀ tok ∈ early.getLast?, tok.kind = .statementEnd := by
  induction front using List.reverseRecOn with
  | nil => exact ⟨[], [], rfl, by simp, by simp⟩
  | append_singleton rest last ih =>
    by_cases ends : last.kind = .statementEnd
    · exact ⟨rest ++ [last], [], by simp, by simp, by simpa using ends⟩
    · obtain ⟨early, late, rfl, plain, ended⟩ := ih
      refine ⟨early, late ++ [last], by simp, fun tok listed => ?_, ended⟩
      rcases List.mem_append.mp listed with earlier | same
      · exact plain tok earlier
      · rw [List.mem_singleton.mp same]
        exact ends

end Source
end SasLayout
