import SasLayout.Proofs.Layout
import SasLayout.Proofs.LogicalWalk

set_option autoImplicit false

/-!
What the column of a line rests on: on nothing, on the column of one other line, or on the list of
statements that the line belongs to. Only the list asks for columns that are known already.
-/
namespace SasLayout

/-- What the column of a line rests on. -/
inductive Footing where
  | column (value : Nat)
  /-- The column of the line that starts at `start`, and so much more. -/
  | line (start shift : Nat)
  /-- The place of the list with a semicolon at `separator`. -/
  | list (separator : Nat)
deriving DecidableEq, Repr

namespace Indenter

open Indent

section

variable (ix : Indenter)

/-- A position that keeps its distance to the indentation of its line. -/
def aligned (pos : Nat) : Footing :=
  .line (ix.text.lineStart pos) (ix.text.columnOf pos - ix.text.indentation pos)

def anchored (anchor : Extent) : Action → Footing
  | .basic units => .line (ix.text.lineStart anchor.start) (units * ix.settings.width)
  | .continuation =>
    .line (ix.text.lineStart anchor.start) (ix.settings.continuationUnits * ix.settings.width)
  | .inherit => .line (ix.text.lineStart anchor.start) 0
  | .alignAnchor => ix.aligned anchor.start
  | .alignNext =>
    match ix.source.logicalToken? anchor.stop .forward with
    | some next =>
      if ix.text.lineStart next.start = ix.text.lineStart anchor.start then ix.aligned next.start
      else .line (ix.text.lineStart anchor.start) ix.settings.width
    | none => .line (ix.text.lineStart anchor.start) ix.settings.width

/-- The footing of a line that continues the statement around `pos`. -/
def continued (pos : Nat) : Footing :=
  ix.anchored ⟨ix.source.statementStart pos, ix.source.statementStart pos⟩ .continuation

/-- The footing of a statement whose list has been found. -/
def listed : ListContext → Footing
  | .sibling column => .column column
  | .outermost => .column 0
  | .inside pos token =>
    ix.anchored ⟨pos, pos + token.utf8ByteSize⟩
      ((action? .after token (ix.grammar.category token)).getD (.basic 1))

def footingAfter (previous : Token) : Except IndentError Footing :=
  let name := previous.grammarName
  let category := ix.grammar.category name
  if name = ";" then .ok (.list previous.start)
  else if name = "," then
    (ix.bracketAround previous.start).map fun
      | some bracket => ix.anchored bracket ((action? .element name category).getD .alignNext)
      | none => ix.continued previous.start
  else
    match action? .after name category with
    | none => .ok (ix.continued previous.start)
    | some .continuation => .ok (ix.continued previous.start)
    | some action => .ok (ix.anchored ⟨previous.start, previous.stop⟩ action)

/-- What the column of the line that starts at `lineStart` rests on. -/
def footing (lineStart : Nat) : Except IndentError Footing :=
  if ix.startsInSpan lineStart then .ok (.column (ix.text.indentation lineStart))
  else
    match ix.source.logicalToken? (ix.text.firstNonBlank lineStart) .backward with
    | none => .ok (.column 0)
    | some previous =>
      match ix.leadingToken? (ix.text.firstNonBlank lineStart) with
      | none => ix.footingAfter previous
      | some tok =>
        (ix.leadingAnchor? tok lineStart).bind fun
          | some (anchor, action) => .ok (ix.anchored anchor action)
          | none => ix.footingAfter previous

/-- The column on a footing, when the columns of lines are found by `columnOfLine`. -/
def columnOn (columnOfLine : Nat → Indenting Nat) : Footing → Indenting Nat
  | .column value => pure value
  | .line start shift => do return (← columnOfLine start) + shift
  | .list separator => ix.afterSemicolon columnOfLine separator

end

variable {ix : Indenter} {columnOfLine : Nat → Indenting Nat} {memo : Memo}

theorem outcome_line (start shift : Nat) :
    outcome (ix.columnOn columnOfLine (.line start shift)) memo =
      (outcome (columnOfLine start) memo).map fun result => (result.1 + shift, result.2) := by
  rw [columnOn, outcome_bind]
  cases outcome (columnOfLine start) memo <;> rfl

theorem outcome_place (anchor : Extent) (action : Action) :
    outcome (ix.place columnOfLine anchor action) memo =
      outcome (ix.columnOn columnOfLine (ix.anchored anchor action)) memo := by
  cases action with
  | basic units => rfl
  | continuation => rfl
  | inherit =>
    rw [anchored, outcome_line, place, lineColumn]
    cases outcome (columnOfLine (ix.text.lineStart anchor.start)) memo <;> rfl
  | alignAnchor => rfl
  | alignNext =>
    rw [anchored, place]
    cases ix.source.logicalToken? anchor.stop .forward with
    | none => rfl
    | some next =>
      by_cases same : ix.text.lineStart next.start = ix.text.lineStart anchor.start
      · simp only [same, if_true, aligned]
        rw [alignedColumn, lineColumn, same]
        rfl
      · simp only [same, if_false]
        rfl

theorem outcome_list (separator : Nat) :
    outcome (ix.columnOn columnOfLine (.list separator)) memo =
      (ix.listContext memo separator).bind fun context =>
        outcome (ix.columnOn columnOfLine (ix.listed context)) memo := by
  rw [columnOn, afterSemicolon, outcome_bind]
  change (outcome (_ >>= _) memo) = _
  rw [outcome_bind, outcome_except]
  cases ix.listContext memo separator with
  | error cause => rfl
  | ok context =>
    cases context with
    | inside pos token => exact outcome_place _ _
    | _ => rfl

theorem outcome_afterToken (previous : Token) :
    outcome (ix.afterToken columnOfLine previous) memo =
      (ix.footingAfter previous).bind fun footing =>
        outcome (ix.columnOn columnOfLine footing) memo := by
  simp only [afterToken, footingAfter]
  split
  · rfl
  split
  · rw [outcome_bind, outcome_except]
    cases ix.bracketAround previous.start with
    | error cause => rfl
    | ok bracket =>
      cases bracket with
      | none => exact outcome_place _ _
      | some bracket => exact outcome_place _ _
  · generalize action? .after _ _ = found
    cases found with
    | none => exact outcome_place _ _
    | some action => cases action <;> exact outcome_place _ _

/-- A line's column is that on its footing. -/
theorem outcome_compute (lineStart : Nat) :
    outcome (ix.compute columnOfLine lineStart) memo =
      (ix.footing lineStart).bind fun footing =>
        outcome (ix.columnOn columnOfLine footing) memo := by
  rw [footing]
  cases inside : ix.startsInSpan lineStart with
  | true =>
    rw [compute_inside inside]
    rfl
  | false =>
    rw [compute_outside inside, if_neg Bool.false_ne_true]
    cases ix.source.logicalToken? (ix.text.firstNonBlank lineStart) .backward with
    | none => rfl
    | some previous =>
      cases ix.leadingToken? (ix.text.firstNonBlank lineStart) with
      | none => exact outcome_afterToken previous
      | some tok =>
        dsimp only
        rw [outcome_bind, outcome_except]
        cases ix.leadingAnchor? tok lineStart with
        | error cause => rfl
        | ok found =>
          cases found with
          | none => exact outcome_afterToken previous
          | some anchor => exact outcome_place _ _

/-- A line whose column is not known has it computed and recorded. -/
theorem outcome_lineIndent (room lineStart : Nat) (unknown : memo.lookup lineStart = none) :
    outcome (ix.lineIndent (room + 1) lineStart) memo =
      (outcome (ix.compute (ix.lineIndent room) lineStart) memo).map fun result =>
        (result.1, (lineStart, result.1) :: result.2) := by
  rw [lineIndent, outcome_bind]
  change outcome _ memo = _
  simp only [unknown]
  rw [outcome_bind]
  cases outcome (ix.compute (ix.lineIndent room) lineStart) memo <;> rfl

theorem outcome_lineIndent_known {column : Nat} (room lineStart : Nat)
    (known : memo.lookup lineStart = some column) :
    outcome (ix.lineIndent room lineStart) memo = .ok (column, memo) := by
  cases room <;>
  · rw [lineIndent, outcome_bind]
    change outcome _ memo = _
    simp only [known]
    rfl

/-! ### Lines that start with a token of the code -/

section Leading

open Source

variable (joined : ix.source.text.Joined) {last tok : Token} {front back : List Token}

include joined

theorem startsInSpan_leading (listed : tok ∈ ix.source.logicalTokens.toList)
    (leads : ix.text.firstNonBlank tok.start = tok.start) :
    ix.startsInSpan (ix.text.lineStart tok.start) = false := by
  have within := (logicalTokens_boundary joined listed).1.2
  obtain ⟨first, member, start, -⟩ := exists_first joined listed
  have token := Token.mem_of_mem_code member
  rw [startsInSpan, text, Text.firstNonBlank_lineStart within]
  change (ix.source.map.spanAt? (ix.text.firstNonBlank tok.start)).any _ = _
  rw [leads]
  cases found : ix.source.map.spanAt? tok.start with
  | none => rfl
  | some s =>
    -- The span is the token itself, a literal.
    obtain ⟨span, lower, upper⟩ := spanAt?_eq_some_iff.mp found
    have same := ix.source.tokens_tiling.unique token (ix.source.tokens_tiling.span_mem span)
      ⟨Nat.le_of_eq start, start ▸ ix.source.tokens_tiling.nonempty first token⟩ ⟨lower, upper⟩
    have begins : s.start = tok.start := by rw [← start, same, spanToken_start]
    have ordered := ix.text.lineStart_le_firstNonBlank tok.start
    rw [leads] at ordered
    rw [Option.any_some, decide_eq_false_iff_not, begins, Nat.not_lt]
    exact ordered

theorem leadingToken?_leading (listed : tok ∈ ix.source.logicalTokens.toList) :
    ix.leadingToken? tok.start = some tok := by
  obtain ⟨found, first, after, code⟩ := logicalToken?_start joined listed
  rw [leadingToken?, after]
  simp only [code, Bool.false_eq_true, if_false]
  rw [logicalAt?, found, Option.filter_some_pos (by simp)]

/-- The footing of a line by its first token and the one before. -/
theorem footing_leading (split : ix.source.logicalTokens.toList = front ++ last :: tok :: back)
    (leads : ix.text.firstNonBlank tok.start = tok.start) :
    ix.footing (ix.text.lineStart tok.start) =
      (ix.leadingAnchor? tok (ix.text.lineStart tok.start)).bind fun
        | some (anchor, action) => .ok (ix.anchored anchor action)
        | none => ix.footingAfter last := by
  have listed : tok ∈ ix.source.logicalTokens.toList := by simp [split]
  have before : ix.source.Earlier tok.start (last :: front.reverse) := by
    have whole : ix.source.logicalTokens.toList = (front ++ [last]) ++ tok :: back := by
      rw [split, List.append_assoc, List.singleton_append]
    have run := earlier_start joined whole
    rwa [List.reverse_append] at run
  have first : ix.text.firstNonBlank (ix.text.lineStart tok.start) = tok.start := by
    rw [text, Text.firstNonBlank_lineStart (logicalTokens_boundary joined listed).1.2]
    exact leads
  rw [footing, startsInSpan_leading joined listed leads, if_neg Bool.false_ne_true, first,
    before.first, leadingToken?_leading joined listed]
  rfl

end Leading

end Indenter
end SasLayout
