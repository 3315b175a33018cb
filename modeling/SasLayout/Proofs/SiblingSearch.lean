import Mathlib.Data.List.Chain
import SasLayout.Proofs.Footing

set_option autoImplicit false

/-!
The search for the list of statements around a semicolon. It walks back from statement to statement
and may end early, at one that starts its line and whose column is known. That line is placed by the
search from the semicolon before it. The exception is a line whose first token is a semicolon or an
operator behind a comment: it is placed by the comment and not as a statement.
-/
namespace SasLayout

namespace Grammar

/-- The kinds of names, by their levels. -/
inductive Leveled (name : String) : Option TerminalLevels → Prop
  | operand : Leveled name none
  | opener (right : Option Nat) : Leveled name (some ⟨none, right⟩)
  | closer (right : Option Nat) : Leveled name (some ⟨some 0, right⟩)
  | separator (one : name ∈ [";", ","]) : Leveled name (some ⟨some 10, some 10⟩)
  | operator {left right : Nat} (other : name ∉ [";", ","]) (tight : 10 < left) :
    Leveled name (some ⟨some left, some right⟩)

theorem standardLevels_leveled : ∀ e ∈ standardLevels.entries, e.2.left = none ∨
    e.2.left = some 0 ∨ (e.1 ∈ [";", ","] ∧ e.2 = ⟨some 10, some 10⟩) ∨
      (e.1 ∉ [";", ","] ∧ e.2.left.any (10 < ·) ∧ e.2.right.isSome) := by
  decide

variable {g : Grammar String} (standard : g.levels = standardLevels)

include standard

theorem leveled (name : String) : Leveled name (g.levels? name) := by
  rw [levels?, standard]
  split
  · exact .operand
  cases found : standardLevels.find? name with
  | none => exact .operand
  | some levels =>
    obtain ⟨left, right⟩ := levels
    rcases standardLevels_leveled _ (Dict.mem_of_find? found) with none | zero | ⟨one, same⟩ |
      ⟨other, tight, continued⟩
    · obtain rfl : left = Option.none := none
      exact .opener right
    · obtain rfl : left = some 0 := zero
      exact .closer right
    · obtain ⟨rfl, rfl⟩ := TerminalLevels.mk.inj same
      exact .separator one
    · obtain ⟨left, rfl, above⟩ := (Option.any_eq_true _ _).mp tight
      obtain ⟨right, rfl⟩ := Option.isSome_iff_exists.mp continued
      exact .operator other (by simpa using above)

theorem levels?_separator {name : String} (one : name ∈ [";", ","]) :
    g.levels? name = some ⟨some 10, some 10⟩ := by
  rw [levels?, standard]
  rw [List.mem_cons, List.mem_singleton] at one
  rcases one with rfl | rfl <;> rfl

theorem levels?_then {name : String} (one : name ∈ ["then", "%then"]) :
    g.levels? name = some ⟨some 0, some 20⟩ := by
  rw [levels?, standard]
  rw [List.mem_cons, List.mem_singleton] at one
  rcases one with rfl | rfl <;> rfl

end Grammar

namespace Indent

variable {pending pending' : List Nat} {right : Option Nat} {levels? : Option TerminalLevels}

theorem pass_closer (passed : pass (some ⟨some 0, right⟩) pending = .go pending') :
    ∃ rest, pending' = 0 :: rest := by
  cases right with
  | none => exact ⟨pending, (Pass.go.inj passed).symm⟩
  | some back =>
    simp only [pass] at passed
    split at passed
    · cases passed
    · simp only [meet] at passed
      split at passed
      · exact ⟨_, (Pass.go.inj passed).symm⟩
      · split at passed
        · cases passed
        · exact ⟨[], (Pass.go.inj passed).symm⟩

theorem pass_separator (passed : pass (some ⟨some 10, some 10⟩) pending = .go pending') :
    ∃ next rest, pending' = 10 :: next :: rest := by
  simp only [pass] at passed
  split at passed
  · cases passed
  · simp only [meet] at passed
    split at passed
    · exact ⟨_, _, (Pass.go.inj passed).symm⟩
    · cases passed

/-- A separator is passed inside a construct that is not closed yet. -/
theorem separator_closer (rest : List Nat) :
    pass (some ⟨some 10, some 10⟩) (0 :: rest) ≠ .parent := by
  simp [pass, meet]

theorem separator_separator (next : Nat) (rest : List Nat) :
    pass (some ⟨some 10, some 10⟩) (10 :: next :: rest) ≠ .parent := by
  simp [pass, meet]

theorem pass_skipped (passed : pass levels? pending = .skipped) : levels? = none := by
  cases levels? with
  | none => rfl
  | some levels =>
    simp only [pass] at passed
    split at passed
    · cases passed
    · split at passed
      · cases passed
      · simp only [meet] at passed
        repeat' split at passed
        all_goals cases passed

theorem pass_opener (passed : pass levels? pending = .opener) :
    levels?.bind (·.left) = none := by
  cases levels? with
  | none => rfl
  | some levels =>
    simp only [pass] at passed
    split at passed
    · cases passed
    · split at passed
      · cases passed
      · simp only [meet] at passed
        split at passed
        · cases passed
        · split at passed
          · assumption
          · split at passed <;> cases passed

/-- Names of tokens that can come first in a statement. -/
def Starts (g : Grammar String) (name : String) : Prop :=
  name ≠ "," ∧ (g.levels? name).bind (·.left) ≠ some 0

theorem carry_concat {g : Grammar String} {tokens : List Token} {tok : Token}
    (passed : carry g (tokens ++ [tok]) pending = some pending') :
    ∃ middle, pass (g.levels? tok.grammarName) middle = .go pending' := by
  induction tokens generalizing pending with
  | nil =>
    rw [List.nil_append, carry] at passed
    cases step : pass (g.levels? tok.grammarName) pending with
    | go next =>
      rw [step] at passed
      exact ⟨pending, step.trans (congrArg _ (Option.some.inj passed))⟩
    | _ =>
      rw [step] at passed
      cases passed
  | cons first rest ih =>
    rw [List.cons_append, carry] at passed
    cases step : pass (g.levels? first.grammarName) pending with
    | go next =>
      rw [step] at passed
      exact ih passed
    | _ =>
      rw [step] at passed
      cases passed

variable {g : Grammar String} (standard : g.levels = Grammar.standardLevels)

include standard

/-- So can the token before which a walk stops at a semicolon. -/
theorem starts_of_pass {name : String} (passed : pass (g.levels? name) pending = .go pending')
    (stopped : pass (g.levels? ";") pending' = .parent) : Starts g name := by
  rw [Grammar.levels?_separator standard (by simp)] at stopped
  constructor
  · rintro rfl
    rw [Grammar.levels?_separator standard (by simp)] at passed
    obtain ⟨next, rest, rfl⟩ := pass_separator passed
    exact separator_separator next rest stopped
  · intro zero
    obtain ⟨⟨left, right⟩, found, rfl⟩ := Option.bind_eq_some_iff.mp zero
    rw [found] at passed
    obtain ⟨rest, rfl⟩ := pass_closer passed
    exact separator_closer rest stopped

theorem starts_semicolon : Starts g ";" := by
  rw [Starts, Grammar.levels?_separator standard (by simp)]
  decide

theorem starts_of_left {name : String} (absent : (g.levels? name).bind (·.left) = none) :
    Starts g name := by
  constructor
  · rintro rfl
    rw [Grammar.levels?_separator standard (by simp)] at absent
    cases absent
  · rw [absent]
    exact nofun

end Indent

namespace Indenter

open Indent Source

/-- The line of a token that starts its line, behind a semicolon, is placed by the comment between
them: the token is a semicolon or an operator, and the comment starts on an earlier line. -/
def isStranded (ix : Indenter) (previous tok : Token) : Bool :=
  let name := tok.grammarName
  previous.grammarName = ";" &&
    (name = ";" || ix.grammar.category name = .binaryOperator &&
      !(["then", "%then"].contains name)) &&
    ix.text.firstNonBlank tok.start = tok.start &&
    ix.source.statementStart tok.start < ix.text.lineStart tok.start

/-- No line is. -/
def Unstranded (ix : Indenter) : Prop :=
  ix.source.logicalTokens.toList.IsChain fun previous tok => ix.isStranded previous tok = false

theorem Unstranded.pair {ix : Indenter} (settled : ix.Unstranded) {front back : List Token}
    {last tok : Token} (split : ix.source.logicalTokens.toList = front ++ last :: tok :: back) :
    ix.isStranded last tok = false := by
  rw [Unstranded, split, List.isChain_append_cons_cons] at settled
  exact settled.2.1

section Contexts

variable {ix : Indenter} {memo : Memo} {separator steps pos : Nat} {context : ListContext}

theorem sibling?_nil (ix : Indenter) (pos : Nat) : ix.sibling? [] pos = none := by
  rw [sibling?]
  repeat' split
  all_goals rfl

/-- A search that has ended ends in the same way with more steps, and with other columns where it
has not used one. -/
theorem listContextFrom_more {memo' : Memo} {more : Nat} (separator' : Nat)
    (found : ix.listContextFrom memo separator steps pos = .ok context) (enough : steps ≤ more)
    (recalls : ∀ pos, ix.sibling? memo pos = ix.sibling? memo' pos ∨
      ∃ column, ix.sibling? memo pos = some column ∧ context ≠ .sibling column) :
    ix.listContextFrom memo' separator' more pos = .ok context := by
  induction steps generalizing pos more with
  | zero => cases found
  | succ steps ih =>
    obtain ⟨more, rfl⟩ : ∃ fuel, more = fuel + 1 := ⟨more - 1, by omega⟩
    have onward : ∀ {pos}, ix.listContextFrom memo separator steps pos = .ok context →
        ix.listContextFrom memo' separator' more pos = .ok context :=
      fun found => ih found (by omega)
    rw [listContextFrom] at found ⊢
    generalize ix.walk pos ";" = walked at found ⊢
    cases walked with
    | error cause => cases found
    | ok stop =>
      cases stop with
      | skipped pos => exact onward found
      | opener pos token => exact onward found
      | boundary => exact found
      | parent pos token level =>
        by_cases separates : token = ";"
        · simp only [separates, if_true] at found ⊢
          rcases recalls pos with same | ⟨column, known, other⟩
          · rw [← same]
            cases known : ix.sibling? memo pos with
            | none =>
              rw [known] at found
              exact onward found
            | some column =>
              rw [known] at found
              exact found
          · rw [known] at found
            exact absurd (Except.ok.inj found).symm other
        · simpa only [separates, if_false] using found

/-- The list that a search without known columns finds from `pos` on. -/
def InList (ix : Indenter) (pos : Nat) (context : ListContext) : Prop :=
  ∃ separator steps, ix.listContextFrom [] separator steps pos = .ok context

/-- Without a known column the search does not need the columns. -/
theorem listContext_inList (found : ix.listContext memo separator = .ok context)
    (other : ∀ column, context ≠ .sibling column) :
    ix.InList separator context := by
  refine ⟨separator, ix.settings.limits.steps,
    listContextFrom_more separator found (Nat.le_refl _) fun pos => ?_⟩
  cases known : ix.sibling? memo pos with
  | none => exact Or.inl (ix.sibling?_nil pos).symm
  | some column => exact Or.inr ⟨column, rfl, other column⟩

theorem InList.unique {other : ListContext} (first : ix.InList pos context)
    (second : ix.InList pos other) : context = other := by
  obtain ⟨separator, steps, found⟩ := first
  obtain ⟨separator', steps', found'⟩ := second
  have longer := listContextFrom_more 0 found (Nat.le_max_left steps steps') fun _ => Or.inl rfl
  have longer' := listContextFrom_more 0 found' (Nat.le_max_right steps steps') fun _ => Or.inl rfl
  exact Except.ok.inj (longer.symm.trans longer')

theorem InList.step {pos' : Nat} (step : ∀ separator steps, ix.listContextFrom [] separator
    (steps + 1) pos = ix.listContextFrom [] separator steps pos') (found : ix.InList pos' context) :
    ix.InList pos context := by
  obtain ⟨separator, steps, found⟩ := found
  exact ⟨separator, steps + 1, (step separator steps).trans found⟩

end Contexts

section Siblings

variable {ix : Indenter} (standard : ix.grammar.levels = Grammar.standardLevels)
  (joined : ix.source.text.Joined) {tok : Token} {front back : List Token}

include standard joined

theorem walk_semicolon {stop : Stop}
    (split : ix.source.logicalTokens.toList = front ++ tok :: back)
    (walked : ix.walk tok.start ";" = .ok stop) :
    stop = walkOver ix.grammar front.reverse [10] := by
  have levels : pendingOf ix.grammar (some ";") = [10] := by
    rw [pendingOf, Option.bind_some, Grammar.levels?_separator standard (by simp)]
    rfl
  rw [walk, Indent.walk, levels] at walked
  split at walked
  · rename_i ended
    cases walked
    exact eq_walkOver (earlier_start joined split) ended
  · cases walked

/-- Where a walk over statements ends: before a token that can start a statement, or at the
semicolon before such a token. -/
def Ends (ix : Indenter) : Stop → Prop
  | .boundary => True
  | .skipped pos | .opener pos _ => ∃ front tok back,
    ix.source.logicalTokens.toList = front ++ tok :: back ∧ pos = tok.start ∧
      Starts ix.grammar tok.grammarName
  | .parent pos token _ => token = ";" → ∃ front last next back,
    ix.source.logicalTokens.toList = front ++ last :: next :: back ∧ pos = last.start ∧
      last.grammarName = ";" ∧ Starts ix.grammar next.grammarName

theorem walk_ends {stop : Stop} (split : ix.source.logicalTokens.toList = front ++ tok :: back)
    (starts : Starts ix.grammar tok.grammarName) (walked : ix.walk tok.start ";" = .ok stop) :
    ix.Ends stop := by
  rw [walk_semicolon standard joined split walked]
  rcases walkOver_cases ix.grammar front.reverse [10] with reached |
    ⟨passed, last, rest, pending, before, carried, same, stops⟩
  · rw [reached]
    trivial
  have whole : ix.source.logicalTokens.toList =
      rest.reverse ++ last :: (passed.reverse ++ tok :: back) := by
    rw [split, ← List.reverse_reverse front, before]
    simp
  rw [same, walkOver]
  cases step : pass (ix.grammar.levels? last.grammarName) pending with
  | go next => exact absurd step (stops next)
  | skipped =>
    refine ⟨_, _, _, whole, rfl, starts_of_left standard ?_⟩
    rw [pass_skipped step]
    rfl
  | opener => exact ⟨_, _, _, whole, rfl, starts_of_left standard (pass_opener step)⟩
  | parent =>
    intro semicolon
    rcases List.eq_nil_or_concat passed with rfl | ⟨others, next, rfl⟩
    · exact ⟨_, _, _, _, whole, rfl, semicolon, starts⟩
    · rw [List.concat_eq_append, List.reverse_append, List.reverse_singleton,
        List.singleton_append, List.cons_append] at whole
      refine ⟨_, _, _, _, whole, rfl, semicolon, ?_⟩
      obtain ⟨middle, passes⟩ := carry_concat (List.concat_eq_append ▸ carried)
      exact starts_of_pass standard passes (semicolon ▸ step)

/-- The statement with a known column that a search from `pos` comes to, after the semicolon `last`:
without known columns the search would go on from there. -/
structure Sibling (ix : Indenter) (memo : Memo) (pos column : Nat) (last next : Token) : Prop where
  split : ∃ front back, ix.source.logicalTokens.toList = front ++ last :: next :: back
  name : last.grammarName = ";"
  starts : Starts ix.grammar next.grammarName
  known : ix.sibling? memo last.start = some column
  onward : ∀ context, ix.InList last.start context → ix.InList pos context

theorem exists_sibling {memo : Memo} {separator steps column : Nat}
    (split : ix.source.logicalTokens.toList = front ++ tok :: back)
    (starts : Starts ix.grammar tok.grammarName)
    (found : ix.listContextFrom memo separator steps tok.start = .ok (.sibling column)) :
    ∃ last next, ix.Sibling memo tok.start column last next := by
  induction steps generalizing front tok back with
  | zero => cases found
  | succ steps ih =>
    rw [listContextFrom] at found
    cases walked : ix.walk tok.start ";" with
    | error cause =>
      rw [walked] at found
      cases found
    | ok stop =>
      have ends := walk_ends standard joined split starts walked
      rw [walked] at found
      have onward : ∀ {pos : Nat}, (∀ separator steps, ix.listContextFrom [] separator (steps + 1)
          tok.start = ix.listContextFrom [] separator steps pos) →
          (∃ last next, ix.Sibling memo pos column last next) →
          ∃ last next, ix.Sibling memo tok.start column last next := by
        intro pos step met
        obtain ⟨last, next, sibling⟩ := met
        exact ⟨last, next,
          { sibling with onward := fun context ends => .step step (sibling.onward context ends) }⟩
      cases stop with
      | boundary => cases found
      | skipped pos =>
        obtain ⟨front, next, back, split, rfl, starts⟩ := ends
        exact onward (fun _ _ => by rw [listContextFrom, walked]) (ih split starts found)
      | opener pos token =>
        obtain ⟨front, next, back, split, rfl, starts⟩ := ends
        exact onward (fun _ _ => by rw [listContextFrom, walked]) (ih split starts found)
      | parent pos token level =>
        dsimp only at found
        split at found
        · rename_i semicolon
          obtain ⟨front, last, next, back, split, rfl, name, starts⟩ := ends semicolon
          have step : ∀ separator steps, ix.listContextFrom [] separator (steps + 1) tok.start =
              ix.listContextFrom [] separator steps last.start := fun _ _ => by
            rw [listContextFrom, walked]
            simp only [semicolon, if_true, sibling?_nil]
          cases known : ix.sibling? memo last.start with
          | some column =>
            rw [known] at found
            cases found
            exact ⟨last, next, ⟨front, back, split⟩, name, starts, known, fun _ => .step step⟩
          | none =>
            rw [known] at found
            exact onward step (ih split (name ▸ starts_semicolon standard) found)
        · cases found

/-- An operator has no partner before the semicolon in front of it. -/
theorem partner?_operator {last : Token} {left right : Nat}
    (split : ix.source.logicalTokens.toList = front ++ last :: tok :: back)
    (name : last.grammarName = ";")
    (levels : ix.grammar.levels? tok.grammarName = some ⟨some left, some right⟩)
    (tight : 10 < left) : ix.partner? tok = .ok none := by
  have whole : ix.source.logicalTokens.toList = (front ++ [last]) ++ tok :: back := by
    rw [split, List.append_assoc, List.singleton_append]
  have before := earlier_start joined whole
  rw [List.reverse_append] at before
  have stops : pass (ix.grammar.levels? last.grammarName)
      (pendingOf ix.grammar (some tok.grammarName)) = .parent := by
    rw [name, Grammar.levels?_separator standard (by simp), pendingOf, Option.bind_some, levels]
    simp [Indent.pass, tight]
  obtain ⟨steps, enough⟩ : ∃ steps, ix.settings.limits.steps = steps + 1 :=
    Nat.exists_eq_add_of_le' ix.settings.limits.steps_pos
  have walked : ∃ level, ix.walk tok.start tok.grammarName =
      .ok (.parent last.start last.grammarName level) := by
    rw [walk, Indent.walk, enough, walkFrom, before.first]
    simp only [List.reverse_singleton, List.singleton_append, List.head?_cons, stops]
    exact ⟨_, rfl⟩
  obtain ⟨level, walked⟩ := walked
  rw [partner?, walked]
  split <;> rfl

/-- The line of a statement is placed by the semicolon before it, unless it is stranded. -/
theorem leadingAnchor?_starts {last : Token}
    (split : ix.source.logicalTokens.toList = front ++ last :: tok :: back)
    (name : last.grammarName = ";") (starts : Starts ix.grammar tok.grammarName)
    (leads : ix.text.firstNonBlank tok.start = tok.start)
    (settled : ix.isStranded last tok = false) :
    ix.leadingAnchor? tok (ix.text.lineStart tok.start) = .ok none := by
  have kind := Grammar.leveled standard tok.grammarName
  generalize levels : ix.grammar.levels? tok.grammarName = found at kind
  cases kind with
  | operand =>
    have category : ix.grammar.category tok.grammarName = .atom := by rw [Grammar.category, levels]
    simp [leadingAnchor?, partner?, category]
  | opener right =>
    have category : ix.grammar.category tok.grammarName = .opener := by
      simp [Grammar.category, levels]
    simp [leadingAnchor?, partner?, category]
  | closer right => exact absurd (by rw [levels]; rfl) starts.2
  | separator one =>
    have semicolon : tok.grammarName = ";" := by
      rcases List.mem_cons.mp one with same | other
      · exact same
      · exact absurd (List.mem_singleton.mp other) starts.1
    rw [semicolon] at levels
    have category : ix.grammar.category ";" = .separator := by simp [Grammar.category, levels]
    have bound : ix.text.lineStart tok.start ≤ ix.source.statementStart tok.start := by
      simpa [isStranded, name, semicolon, leads] using settled
    simp [leadingAnchor?, partner?, category, semicolon, bound]
  | operator other tight =>
    have category : ix.grammar.category tok.grammarName = .binaryOperator := by
      have apart : tok.grammarName ≠ ";" ∧ tok.grammarName ≠ "," := by simpa using other
      simp [Grammar.category, levels, apart]
    have alone : tok.grammarName ∉ ["then", "%then"] := by
      intro one
      rw [Grammar.levels?_then standard one] at levels
      cases levels
      exact absurd tight (by decide)
    have apart : ¬ tok.grammarName = "then" ∧ ¬ tok.grammarName = "%then" := by simpa using alone
    have bound : ix.text.lineStart tok.start ≤ ix.source.statementStart tok.start := by
      simpa [isStranded, name, category, apart, leads] using settled
    rw [leadingAnchor?, partner?_operator standard joined split name levels tight]
    simp [category, bound]

/-- The line of the statement that a search ends at has the known column, and it is placed by the
list with the semicolon before it. -/
theorem Sibling.footing {memo : Memo} {pos column : Nat} {last next : Token}
    (sibling : ix.Sibling memo pos column last next) (settled : ix.Unstranded) :
    memo.lookup (ix.text.lineStart next.start) = some column ∧
      ix.footing (ix.text.lineStart next.start) = .ok (.list last.start) := by
  obtain ⟨front, back, split⟩ := sibling.split
  have listed : last ∈ ix.source.logicalTokens.toList := by simp [split]
  have stop := semicolon_stop listed sibling.name
  have known := sibling.known
  rw [sibling?, ← stop, (later_stop joined split).first, List.head?_cons] at known
  simp only [Option.ite_none_right_eq_some] at known
  obtain ⟨leads, known⟩ := known
  refine ⟨known, ?_⟩
  rw [footing_leading joined split leads, leadingAnchor?_starts standard joined split sibling.name
    sibling.starts leads (settled.pair split)]
  simp [Except.bind, footingAfter, sibling.name]

end Siblings

end Indenter
end SasLayout
