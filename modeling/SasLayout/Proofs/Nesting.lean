import SasLayout.Proofs.Programs
import SasLayout.Proofs.SiblingSearch

set_option autoImplicit false

/-!
The walk backward over structured programs. The levels that it keeps are those of the operators of
the statement at hand, above what was open before: the walk skips a whole block and goes on as if it
had not met it.
-/
namespace SasLayout

namespace Indent

/-- The levels of operators may lie on top of `base`, with a separator between them where a list
allows one. -/
def Over (list : Bool) (base pending : List Nat) : Prop :=
  ∃ operators : List Nat, (∀ level ∈ operators, 10 < level) ∧
    (pending = operators ++ base ∨ list = true ∧ pending = operators ++ 10 :: base)

variable {list : Bool} {low right : Nat} {rest base pending operators : List Nat}

theorem over_self (list : Bool) (base : List Nat) : Over list base base :=
  ⟨[], nofun, Or.inl rfl⟩

theorem dropWhile_operators (back : Nat) (tail : List Nat) (each : ∀ level ∈ operators, 10 < level)
    (low : back ≤ 10) :
    (operators ++ tail).dropWhile (back < ·) = tail.dropWhile (back < ·) := by
  induction operators with
  | nil => rfl
  | cons level operators ih =>
    obtain ⟨above, others⟩ := List.forall_mem_cons.mp each
    rw [List.cons_append, List.dropWhile_cons_of_pos (by simp; omega), ih others]

/-- An operator is passed, and only operators are dropped for it. -/
theorem pass_operator {left : Option Nat} (tight : 10 < right) (above : ∀ level ∈ left, 10 < level)
    (bottom : low ≤ 10) (stacked : Over list (low :: rest) pending) :
    ∃ pending', pass (some ⟨left, some right⟩) pending = .go pending' ∧
      Over list (low :: rest) pending' := by
  have passed : ∀ {operators tail : List Nat} {low : Nat}, (∀ level ∈ operators, 10 < level) →
      low ≤ 10 → ∃ kept, (∀ level ∈ kept, 10 < level) ∧
        pass (some ⟨left, some right⟩) (operators ++ low :: tail) = .go (kept ++ low :: tail) := by
    intro operators tail low each bottom
    have joined : ∀ kept : List Nat, (∀ level ∈ kept, 10 < level) →
        ∀ level ∈ left.toList ++ kept, 10 < level := by
      intro kept others
      exact List.forall_mem_append.mpr ⟨by simpa using above, others⟩
    induction operators with
    | nil =>
      refine ⟨left.toList, by simpa using above, ?_⟩
      have kept : ¬ right < low := by omega
      have other : low ≠ right := by omega
      simp [pass, meet, kept, other]
    | cons level operators ih =>
      obtain ⟨first, others⟩ := List.forall_mem_cons.mp each
      rcases Nat.lt_trichotomy right level with dropped | same | kept
      · obtain ⟨kept, stacked, go⟩ := ih others
        refine ⟨kept, stacked, ?_⟩
        rw [← go]
        simp [pass, dropped]
      · refine ⟨left.toList ++ operators, joined _ others, ?_⟩
        cases operators <;> simp [pass, meet, same]
      · refine ⟨left.toList ++ level :: operators, joined _ each, ?_⟩
        have other : ¬ level = right := by omega
        simp [pass, meet, Nat.not_lt.mpr (Nat.le_of_lt kept), other]
  obtain ⟨operators, each, rfl | ⟨listed, rfl⟩⟩ := stacked
  · obtain ⟨kept, above, go⟩ := passed each bottom
    exact ⟨_, go, kept, above, Or.inl rfl⟩
  · obtain ⟨kept, above, go⟩ := passed each (Nat.le_refl 10)
    exact ⟨_, go, kept, above, Or.inr ⟨listed, rfl⟩⟩

/-- Inside a list a separator takes the place of what stood behind it. -/
theorem pass_separator_list (stacked : Over true (0 :: rest) pending) :
    pass (some ⟨some 10, some 10⟩) pending = .go (10 :: 0 :: rest) := by
  obtain ⟨operators, each, rfl | ⟨-, rfl⟩⟩ := stacked <;>
  · simp only [pass]
    rw [dropWhile_operators 10 _ each (Nat.le_refl _)]
    simp [meet]

/-- From a semicolon the walk ends at the one before. -/
theorem pass_separator_end (stacked : Over false [10] pending) :
    pass (some ⟨some 10, some 10⟩) pending = .parent := by
  obtain ⟨operators, each, rfl | ⟨listed, -⟩⟩ := stacked
  · simp only [pass]
    rw [dropWhile_operators 10 _ each (Nat.le_refl _)]
    simp [meet, TerminalLevels.isAssociative]
  · cases listed

/-- An opener closes what its closer has opened. -/
theorem pass_opener_list (stacked : Over true (0 :: rest) pending) :
    pass (some ⟨none, some 0⟩) pending = if rest = [] then .opener else .go rest := by
  obtain ⟨operators, each, rfl | ⟨-, rfl⟩⟩ := stacked <;>
  · simp only [pass]
    rw [dropWhile_operators 0 _ each (Nat.zero_le _)]
    cases rest <;> simp [meet]

/-- From a semicolon the walk ends at an opener that is not closed. -/
theorem pass_opener_end (stacked : Over false [10] pending) :
    pass (some ⟨none, some 0⟩) pending = .parent := by
  obtain ⟨operators, each, rfl | ⟨listed, -⟩⟩ := stacked
  · simp only [pass]
    rw [dropWhile_operators 0 _ each (Nat.zero_le _)]
    simp
  · cases listed

theorem carry_append_eq (g : Grammar String) (front back : List Token) (pending : List Nat) :
    carry g (front ++ back) pending = (carry g front pending).bind (carry g back) := by
  cases passed : carry g front pending with
  | some pending' => exact carry_append passed
  | none =>
    induction front generalizing pending with
    | nil => cases passed
    | cons tok front ih =>
      rw [carry] at passed
      rw [List.cons_append, carry]
      cases step : pass (g.levels? tok.grammarName) pending with
      | go next =>
        rw [step] at passed
        exact ih next passed
      | _ => rfl

end Indent

namespace Program

open Indent

variable {g : Grammar String} {w : Word} {words front back : List Word} {list : Bool} {low : Nat}
  {rest pending pending' : List Nat}

/-- What is pending once the words have been passed, the last one first. -/
def unwind (g : Grammar String) : List Word → List Nat → Option (List Nat)
  | [], pending => some pending
  | w :: words, pending =>
    (unwind g words pending).bind fun pending =>
      match pass (g.levels? w.role) pending with
      | .go pending => some pending
      | _ => none

theorem unwind_cons (behind : unwind g words pending = some pending') {next : List Nat}
    (go : pass (g.levels? w.role) pending' = .go next) :
    unwind g (w :: words) pending = some next := by
  rw [unwind, behind, Option.bind_some, go]

theorem unwind_append : unwind g (front ++ back) pending =
    (unwind g back pending).bind (unwind g front) := by
  induction front with
  | nil =>
    rw [List.nil_append]
    cases unwind g back pending <;> rfl
  | cons w front ih =>
    rw [List.cons_append, unwind, ih]
    cases unwind g back pending <;> rfl

/-- The walk over tokens sees nothing but their names. -/
theorem carry_tokens {tokens : List Token}
    (same : tokens.map Token.grammarName = words.map Word.role) :
    carry g tokens.reverse pending = unwind g words pending := by
  induction words generalizing tokens with
  | nil =>
    obtain rfl := List.map_eq_nil_iff.mp same
    rfl
  | cons w words ih =>
    obtain ⟨tok, tokens, rfl, name, others⟩ := List.map_eq_cons_iff.mp same
    rw [List.reverse_cons, carry_append_eq, ih others, unwind]
    congr 1
    funext pending
    rw [carry, name]
    cases pass (g.levels? w.role) pending <;> rfl

theorem Line.balanced (l : Line) : Balanced false l.inner.words := by
  have names : ∀ piece ∈ l.head.names, piece.2.isPlain = true := by
    cases l.head with
    | opening o => cases o <;> simp [Head.names, Opener.names, Word.isPlain]
    | _ => simp [Head.names]
  have joined : ∀ names : Row, (∀ piece ∈ names, piece.2.isPlain = true) →
      Balanced false (Row.words (names ++ l.body.row)) := by
    intro names plain
    induction names with
    | nil => exact l.body.balanced
    | cons piece names ih =>
      obtain ⟨first, others⟩ := List.forall_mem_cons.mp plain
      exact .word first (ih others)
  exact joined _ names

/-- The words of some lines. -/
def wordsOf (lines : List Line) : List Word :=
  lines.flatMap fun l => l.row.words

theorem Line.row_words (l : Line) :
    l.row.words = l.head.first :: (l.inner.words ++ [.semicolon]) := by
  simp [Line.row, Row.words]

@[simp] theorem wordsOf_cons (l : Line) (lines : List Line) :
    wordsOf (l :: lines) = l.head.first :: (l.inner.words ++ .semicolon :: wordsOf lines) := by
  simp [wordsOf, Line.row_words]

@[simp] theorem wordsOf_append (front back : List Line) :
    wordsOf (front ++ back) = wordsOf front ++ wordsOf back :=
  List.flatMap_append

@[simp] theorem names_row (row : Row) (i : Nat) :
    (row.tokens i).map Token.grammarName = row.words.map Word.role := by
  induction row generalizing i with
  | nil => rfl
  | cons piece row ih => simp [Row.tokens, Row.words, Word.grammarName_token, ih]

@[simp] theorem names_lines (lines : List Line) (i : Nat) :
    (tokensOf i lines).map Token.grammarName = (wordsOf lines).map Word.role := by
  induction lines generalizing i with
  | nil => rfl
  | cons l lines ih => simp [tokensOf, ih, Line.row_words]

section Levels

theorem operator_levels : ∀ name ∈ Operator.signs ++ Operator.words,
    (Grammar.standardLevels.find? name).all fun levels =>
      levels.left.all (10 < ·) && levels.right.any (10 < ·) := by
  decide

variable (standard : g.levels = Grammar.standardLevels)

include standard

theorem pass_plain (plain : w.isPlain = true) (bottom : low ≤ 10)
    (stacked : Over list (low :: rest) pending) :
    ∃ pending', pass (g.levels? w.role) pending = .go pending' ∧
      Over list (low :: rest) pending' := by
  have operand : pending ≠ [] := by
    obtain ⟨operators, -, rfl | ⟨-, rfl⟩⟩ := stacked <;> simp
  have passed : g.levels? w.role = none → ∃ pending', pass (g.levels? w.role) pending =
      .go pending' ∧ Over list (low :: rest) pending' := by
    intro absent
    refine ⟨pending, ?_, stacked⟩
    simp [absent, Indent.pass, operand]
  have operator : w.role ∈ Operator.signs ++ Operator.words → ∃ pending',
      pass (g.levels? w.role) pending = .go pending' ∧ Over list (low :: rest) pending' := by
    intro listed
    have levels := operator_levels _ listed
    cases found : g.levels? w.role with
    | none => exact found ▸ passed found
    | some known =>
      rw [Grammar.levels?, standard] at found
      split at found
      · cases found
      · rw [found, Option.all_some, Bool.and_eq_true] at levels
        obtain ⟨left, right⟩ := known
        obtain ⟨back, rfl, tight⟩ := (Option.any_eq_true _ _).mp levels.2
        refine pass_operator (by simpa using tight) (fun level member => ?_) bottom stacked
        obtain rfl := Option.mem_def.mp member
        simpa using levels.1
  cases w with
  | name n => exact passed rfl
  | number n => exact passed rfl
  | literal l => exact passed rfl
  | sign s => exact operator (List.mem_append_left _ s.listed)
  | mnemonic m => exact operator (List.mem_append_right _ m.listed)
  | _ => cases plain

theorem levels?_comma : g.levels? Word.comma.role = some ⟨some 10, some 10⟩ :=
  Grammar.levels?_separator standard (by simp [Word.role])

theorem levels?_semicolon : g.levels? Word.semicolon.role = some ⟨some 10, some 10⟩ :=
  Grammar.levels?_separator standard (by simp [Word.role])

theorem levels?_opening (b : Bracket) : g.levels? (Word.opening b).role = some ⟨none, some 0⟩ := by
  rw [Grammar.levels?, standard]
  rfl

theorem levels?_closing (b : Bracket) : g.levels? (Word.closing b).role = some ⟨some 0, none⟩ := by
  rw [Grammar.levels?, standard]
  rfl

theorem levels?_keyword (o : Opener) :
    g.levels? (Word.keyword o.keyword).role = some ⟨none, some 0⟩ := by
  rw [Grammar.levels?, standard]
  cases o <;> rfl

theorem levels?_closer (o : Opener) :
    g.levels? (Word.keyword o.closer).role = some ⟨some 0, none⟩ := by
  rw [Grammar.levels?, standard]
  cases o with
  | procStep gap name quits => cases quits <;> rfl
  | _ => rfl

/-- Words with paired brackets leave on top of what was pending at most levels of operators, and a
separator where commas are enclosed. -/
theorem unwind_balanced {enclosed : Bool} (balanced : Balanced enclosed words) (bottom : low ≤ 10)
    (lists : enclosed = true → list = true ∧ low = 0) (stacked : Over list (low :: rest) pending) :
    ∃ pending', unwind g words pending = some pending' ∧ Over list (low :: rest) pending' := by
  induction balanced generalizing list low rest pending with
  | nil => exact ⟨pending, rfl, stacked⟩
  | word plain later ih =>
    obtain ⟨before, behind, kept⟩ := ih bottom lists stacked
    obtain ⟨next, go, stacked⟩ := pass_plain standard plain bottom kept
    exact ⟨next, unwind_cons behind go, stacked⟩
  | comma later ih =>
    obtain ⟨before, behind, kept⟩ := ih bottom lists stacked
    obtain ⟨rfl, rfl⟩ := lists rfl
    refine ⟨10 :: 0 :: rest, unwind_cons behind ?_, [], nofun, Or.inr ⟨rfl, rfl⟩⟩
    rw [levels?_comma standard, pass_separator_list kept]
  | @group enclosed b inside others inner later within behind =>
    obtain ⟨before, passed, kept⟩ := behind bottom lists stacked
    obtain ⟨inside', opened, stacked⟩ := within (Nat.zero_le _) (fun _ => ⟨rfl, rfl⟩)
      (over_self true (0 :: before))
    have closed : unwind g (.closing b :: others) pending = some (0 :: before) :=
      unwind_cons passed (by rw [levels?_closing standard]; rfl)
    have nonempty : before ≠ [] := by
      obtain ⟨operators, -, rfl | ⟨-, rfl⟩⟩ := kept <;> simp
    have group : unwind g (inside ++ .closing b :: others) pending = some inside' := by
      rw [unwind_append, closed, Option.bind_some, opened]
    refine ⟨before, unwind_cons group ?_, kept⟩
    rw [levels?_opening standard, pass_opener_list stacked, if_neg nonempty]

theorem unwind_inner (l : Line) (bottom : low ≤ 10) (stacked : Over list (low :: rest) pending) :
    ∃ pending', unwind g l.inner.words pending = some pending' ∧
      Over list (low :: rest) pending' :=
  unwind_balanced standard l.balanced bottom nofun stacked

/-- A line in a list, but for its first word. -/
theorem unwind_ended (l : Line) {behind : List Word}
    (passed : unwind g behind pending = some pending') (stacked : Over true (0 :: rest) pending') :
    ∃ next, unwind g (l.inner.words ++ .semicolon :: behind) pending = some next ∧
      Over true (0 :: rest) next := by
  have separated : unwind g (.semicolon :: behind) pending = some (10 :: 0 :: rest) :=
    unwind_cons passed (by rw [levels?_semicolon standard, pass_separator_list stacked])
  rw [unwind_append, separated, Option.bind_some]
  exact unwind_inner standard l (Nat.zero_le _) ⟨[], nofun, Or.inr ⟨rfl, rfl⟩⟩

/-- The walk back over a block, from behind its closer to before its opener, given the walk over
what stands between them. -/
theorem unwind_block (l : Line) (o : Opener) {inside : List Word} (nonempty : pending ≠ [])
    (passed : unwind g inside (0 :: pending) = some pending')
    (stacked : Over true (0 :: pending) pending') :
    unwind g (.keyword o.keyword :: (l.inner.words ++ .semicolon ::
      (inside ++ [.keyword o.closer]))) pending = some pending := by
  have closed : unwind g [.keyword o.closer] pending = some (0 :: pending) :=
    unwind_cons rfl (by rw [levels?_closer standard]; rfl)
  have before : unwind g (inside ++ [.keyword o.closer]) pending = some pending' := by
    rw [unwind_append, closed, Option.bind_some, passed]
  obtain ⟨next, ended, stacked⟩ := unwind_ended standard l before stacked
  refine unwind_cons ended ?_
  rw [levels?_keyword standard, pass_opener_list stacked, if_neg nonempty]

/-- A program in a list of statements leaves at most levels of operators and a semicolon. -/
theorem unwind_program (p : Program) (depth : Nat) (stacked : Over true (0 :: rest) pending) :
    ∃ pending', unwind g (wordsOf (p.lines depth)) pending = some pending' ∧
      Over true (0 :: rest) pending' := by
  induction p generalizing depth rest pending with
  | done => exact ⟨pending, rfl, stacked⟩
  | statement indent first body others ih =>
    obtain ⟨before, passed, kept⟩ := ih depth stacked
    obtain ⟨next, ended, stacked⟩ :=
      unwind_ended standard ⟨depth, indent, .name first, body⟩ passed kept
    obtain ⟨last, go, stacked⟩ := pass_plain standard (w := .name first) rfl (Nat.zero_le _) stacked
    rw [lines, wordsOf_cons]
    exact ⟨last, unwind_cons ended go, stacked⟩
  | block indent opener body inner closing others within behind =>
    obtain ⟨before, passed, kept⟩ := behind depth stacked
    obtain ⟨inside, opened, stacked⟩ := within (depth + 1) (over_self true (0 :: 10 :: 0 :: rest))
    have separated : unwind g (.semicolon :: wordsOf (others.lines depth)) pending =
        some (10 :: 0 :: rest) :=
      unwind_cons passed (by rw [levels?_semicolon standard, pass_separator_list kept])
    refine ⟨10 :: 0 :: rest, ?_, [], nofun, Or.inr ⟨rfl, rfl⟩⟩
    have blocked := unwind_block standard ⟨depth, indent, .opening opener, body⟩ opener
      (List.cons_ne_nil _ _) opened stacked
    have whole : wordsOf ((block indent opener body inner closing others).lines depth) =
        (.keyword opener.keyword :: (Line.inner ⟨depth, indent, .opening opener, body⟩).words ++
          .semicolon :: (wordsOf (inner.lines (depth + 1)) ++ [.keyword opener.closer])) ++
        (.semicolon :: wordsOf (others.lines depth)) := by
      rw [lines, wordsOf_cons, wordsOf_append, wordsOf_cons]
      simp only [List.cons_append, List.append_assoc]
      rfl
    rw [whole, unwind_append, separated]
    exact blocked

end Levels

end Program
end SasLayout
