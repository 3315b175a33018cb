import SasLayout.Proofs.EarlierLines

set_option autoImplicit false

/-!
Statements with commas outside of brackets. A comma has the levels of a semicolon, so the walk back
from the end of a statement ends at its last bare comma, and what follows is taken to be inside a
list that the comma opens. Each such statement shifts all later ones by a unit; without bare commas
the statements of a text line up.
-/
namespace SasLayout

/-! ### Commas outside of brackets -/

namespace Program

/-- Whether a comma stands outside of all brackets, when so many are open before the words. -/
def bareComma : (depth : Nat) → List Word → Bool
  | _, [] => false
  | depth, .opening _ :: rest => bareComma (depth + 1) rest
  | depth, .closing _ :: rest => bareComma (depth - 1) rest
  | depth, .comma :: rest => depth == 0 || bareComma depth rest
  | depth, _ :: rest => bareComma depth rest

variable {enclosed : Bool} {words rest : List Word} {w : Word}

theorem bareComma_plain (plain : w.isPlain = true) (depth : Nat) :
    bareComma depth (w :: rest) = bareComma depth rest := by
  cases w with
  | comma => cases plain
  | opening b => cases plain
  | closing b => cases plain
  | _ => rfl

/-- Inside brackets no comma is bare. -/
theorem Balanced.bareComma_inside (balanced : Balanced enclosed words) (depth : Nat) :
    bareComma (depth + 1) (words ++ rest) = bareComma (depth + 1) rest := by
  induction balanced generalizing depth rest with
  | nil => rfl
  | word plain later ih =>
    rw [List.cons_append, bareComma_plain plain]
    exact ih depth
  | comma later ih => exact ih depth
  | group inner later within behind =>
    rw [List.cons_append, List.append_assoc, bareComma, within, List.cons_append, bareComma,
      Nat.add_sub_cancel]
    exact behind depth

/-- Words without a bare comma have all their commas in brackets; of the others those behind the
last bare comma do. -/
theorem Balanced.bareComma_cases (balanced : Balanced enclosed words) :
    (bareComma 0 words = false ∧ Balanced false words) ∨
      (bareComma 0 words = true ∧
        ∃ front back, words = front ++ .comma :: back ∧ Balanced false back) := by
  induction balanced with
  | nil => exact Or.inl ⟨rfl, .nil⟩
  | word plain later ih =>
    rw [bareComma_plain plain]
    rcases ih with ⟨none, kept⟩ | ⟨some, front, back, rfl, kept⟩
    · exact Or.inl ⟨none, .word plain kept⟩
    · exact Or.inr ⟨some, _ :: front, back, rfl, kept⟩
  | comma later ih =>
    rcases ih with ⟨none, kept⟩ | ⟨some, front, back, rfl, kept⟩
    · exact Or.inr ⟨rfl, [], _, rfl, kept⟩
    · exact Or.inr ⟨rfl, .comma :: front, back, rfl, kept⟩
  | @group enclosed b inside others inner later within behind =>
    have past : bareComma 0 (.opening b :: (inside ++ .closing b :: others)) =
        bareComma 0 others := by
      rw [bareComma, inner.bareComma_inside 0, bareComma]
    rw [past]
    rcases behind with ⟨none, kept⟩ | ⟨some, front, back, rfl, kept⟩
    · exact Or.inl ⟨none, .group inner kept⟩
    · exact Or.inr ⟨some, .opening b :: (inside ++ .closing b :: front), back, by simp, kept⟩

/-- A simple statement: a name and words with paired brackets. -/
structure Simple where
  indent : Nat
  first : Name
  row : Row
  gap : Nat
  apart : ∀ piece ∈ row, 0 < piece.1
  balanced : Balanced true row.words

namespace Simple

def hasBareComma (e : Simple) : Bool :=
  bareComma 0 e.row.words

def sentence (e : Simple) : Sentence where
  indent := e.indent
  first := .name e.first
  inner := e.row
  gap := e.gap
  spelled := e.first.spelled
  apart piece listed :=
    ⟨e.apart piece listed, e.balanced.inner _ (List.mem_map_of_mem listed)⟩
  settled k first := by cases first

end Simple

/-- The tokens of a statement around one of its commas. -/
theorem Sentence.tokens_comma {s : Sentence} {front back : List Word}
    (inner : s.inner.words = front ++ .comma :: back) (i : Nat) :
    ∃ before pos segment j, s.row.tokens i =
      before ++ Word.comma.token pos :: (segment ++ [Word.semicolon.token j]) ∧
      segment.map Token.grammarName = back.map Word.role := by
  obtain ⟨early, rest, row, -, others⟩ := List.map_eq_append_iff.mp inner
  obtain ⟨piece, late, rfl, comma, rfl⟩ := List.map_eq_cons_iff.mp others
  obtain ⟨k, j, tokens⟩ := s.row_tokens i
  rw [row, Row.tokens_append, Row.tokens, comma] at tokens
  generalize k + (Row.bytes early).length + piece.1 = pos at tokens
  refine ⟨s.first.token (i + s.indent) :: Row.tokens k early, pos,
    Row.tokens (pos + Word.comma.bytes.length) late, j, ?_, names_row late _⟩
  rw [tokens]
  simp only [List.append_assoc, List.cons_append]

end Program

/-! ### Lists behind a bare comma -/

namespace Indenter

open Indent Source Program

variable {ix : Indenter} {front back : List Token} {context : ListContext} {i : Nat}

/-- An empty line at the end of the text is placed by the last token. -/
theorem footing_end (joined : ix.source.text.Joined)
    (begins : ix.text.lineStart ix.text.size = ix.text.size) :
    ix.footing ix.text.size =
      ix.source.logicalTokens.toList.getLast?.elim (.ok (.column 0)) ix.footingAfter := by
  have first : ix.text.firstNonBlank ix.text.size = ix.source.size := by
    apply Nat.le_antisymm (ix.text.firstNonBlank_le_size _)
    have lower := ix.text.lineStart_le_firstNonBlank ix.text.size
    rwa [begins] at lower
  have outside : ix.startsInSpan ix.text.size = false := by
    rw [startsInSpan, first]
    cases found : ix.source.map.spanAt? ix.source.size with
    | none => rfl
    | some s =>
      obtain ⟨span, -, upper⟩ := spanAt?_eq_some_iff.mp found
      have within := ix.source.tokens_tiling.within _ (ix.source.tokens_tiling.span_mem span)
      rw [spanToken_stop] at within
      omega
  have leading : ix.leadingToken? ix.source.size = none := by
    rw [leadingToken?]
    cases found : ix.source.tokenAfter? ix.source.size with
    | none => rfl
    | some tok => exact absurd (tokenAfter?_bounds found).1 (Nat.lt_irrefl _)
  have before := (earlier_size joined).first
  rw [List.head?_reverse] at before
  rw [footing, outside, if_neg Bool.false_ne_true, first, before, leading]
  cases ix.source.logicalTokens.toList.getLast? <;> rfl

/-- At the end of the text an empty line belongs to the list of the last statement. -/
theorem Continues.found_end (joined : ix.source.text.Joined)
    (short : ix.source.size < ix.settings.limits.steps)
    (continues : ix.Continues ix.source.logicalTokens.toList context)
    (begins : ix.text.lineStart ix.text.size = ix.text.size) :
    ix.Found ix.text.size (ix.listed context) := by
  have ended := footing_end joined begins
  rcases continues with ⟨none, rfl⟩ | ⟨others, last, whole, name, search⟩
  · rw [none] at ended
    exact .plain ended fun _ same => by cases same
  · have listed : last ∈ ix.source.logicalTokens.toList := by
      rw [whole]
      exact List.mem_append_right _ List.mem_cons_self
    rw [whole, List.getLast?_append, List.getLast?_singleton] at ended
    refine .list ?_ (listContext_start joined short listed search)
    simpa [footingAfter, name] using ended

section Commas

variable (standard : ix.grammar.levels = Grammar.standardLevels)

include standard

/-- Behind a bare comma the statements stand one unit further in than its line. -/
theorem under_comma {pos start outer : Nat} (begins : ix.text.lineStart pos = start)
    (below : ix.Climbs (outer + 1) start (outer * ix.settings.width)) :
    ix.Under (.inside pos Word.comma.role) (outer + 1) := by
  have category : ix.grammar.category Word.comma.role = .separator := by
    rw [Grammar.category, levels?_comma standard]
    rfl
  have action : action? .after Word.comma.role .separator = none := by decide
  refine Or.inr ⟨outer, start, rfl, ?_, below⟩
  rw [listed, category, action, Option.getD_none, anchored, begins, Nat.one_mul]

variable (joined : ix.source.text.Joined)
  (few : ix.source.logicalTokens.toList.length < ix.settings.limits.steps)

include joined few

/-- Behind a statement with a bare comma the list is the one inside the last of them. -/
theorem continues_comma {s : Sentence} {words words' : List Word}
    (inner : s.inner.words = words ++ .comma :: words') (balanced : Balanced false words')
    (split : ix.source.logicalTokens.toList = front ++ (s.row.tokens i ++ back)) :
    ∃ pos, i ≤ pos ∧ pos ≤ i + s.row.bytes.length ∧
      ix.Continues (front ++ s.row.tokens i) (.inside pos Word.comma.role) := by
  obtain ⟨before, pos, segment, j, row, names⟩ := s.tokens_comma inner i
  obtain ⟨pending, passed, stacked⟩ :=
    unwind_balanced standard balanced (Nat.le_refl 10) nofun (over_self false [10])
  rw [← carry_tokens names] at passed
  have whole : ix.source.logicalTokens.toList =
      ((front ++ before) ++ Word.comma.token pos :: segment) ++ Word.semicolon.token j :: back := by
    rw [split, row]
    simp only [List.append_assoc, List.cons_append, List.nil_append]
  have name : (Word.comma.token pos).grammarName = Word.comma.role := Word.grammarName_token _ _
  have stops : pass (ix.grammar.levels? (Word.comma.token pos).grammarName) pending = .parent := by
    rw [name, levels?_comma standard]
    exact pass_separator_end stacked
  have inside := continues_parent standard joined few whole (Word.grammarName_token _ _)
    (by rw [name]; decide) passed stops
  have listed : Word.comma.token pos ∈ s.row.tokens i := by
    rw [row]
    exact List.mem_append_right _ List.mem_cons_self
  obtain ⟨lower, upper⟩ := Row.start_of_mem_tokens listed
  refine ⟨pos, lower, upper, ?_⟩
  rw [row, ← List.append_assoc, ← name]
  exact inside

variable (short : ix.source.size < ix.settings.limits.steps)

include short

/-- Behind some statements the list is as many units further in as they have bare commas. -/
theorem continues_statements (front : List Simple) {back : List Simple}
    (tokens : ix.source.logicalTokens.toList =
      Page.tokens 0 ((front ++ back).map Simple.sentence))
    (stand : Page.At ix.text 0 ((front ++ back).map Simple.sentence)) :
    ∃ context, ix.Continues (Page.tokens 0 (front.map Simple.sentence)) context ∧
      ix.Under context (front.countP (·.hasBareComma)) := by
  -- from the front, statement by statement
  induction front using List.reverseRecOn generalizing back with
  | nil => exact ⟨.outermost, Or.inl ⟨rfl, rfl⟩, Or.inl ⟨rfl, rfl⟩⟩
  | append_singleton front e ih =>
    rw [List.append_assoc, List.singleton_append] at tokens stand
    obtain ⟨context, continues, under⟩ := ih tokens stand
    rw [List.map_append, List.map_cons, Page.tokens_append, Page.tokens] at tokens
    rw [List.map_append, List.map_cons] at stand
    have here := stand.skip
    have line := climbs_sentence standard joined short rfl
      (isStranded_first standard (.name e.first) _) tokens here continues under
    rw [List.map_append, List.map_singleton, Page.tokens_append, Page.tokens, Page.tokens,
      List.append_nil, List.countP_append, List.countP_singleton]
    rcases e.balanced.bareComma_cases with ⟨none, closed⟩ | ⟨some, words, words', inner, closed⟩
    · have bare : e.hasBareComma = false := none
      rw [bare]
      exact ⟨context, continues.sentence standard joined few rfl closed tokens, under⟩
    · have bare : e.hasBareComma = true := some
      rw [bare]
      obtain ⟨pos, lower, upper, inside⟩ :=
        continues_comma standard joined few inner closed tokens
      exact ⟨_, inside, under_comma standard (here.lineStart_inside lower upper) line⟩

/-- A line has its column by the statements before it. -/
theorem climbs_statements {statements : List Simple}
    (tokens : ix.source.logicalTokens.toList = Page.tokens 0 (statements.map Simple.sentence))
    (stand : Page.At ix.text 0 (statements.map Simple.sentence)) (within : i ≤ ix.text.size) :
    let shifted := (statements.take (ix.text.lineIndex i)).countP (·.hasBareComma)
    ix.Climbs (shifted + 1) (ix.text.lineStart i) (shifted * ix.settings.width) := by
  have number : ix.text.lineIndex i = ix.text.lineIndex 0 + ix.text.lineIndex i := by
    rw [ix.text.lineIndex_zero, Nat.zero_add]
  obtain ⟨-, start⟩ := stand.lineStart_extent (Nat.zero_le _) within number
  rw [← List.map_take] at start
  generalize ix.text.lineIndex i = k at start ⊢
  rw [← List.take_append_drop k statements] at tokens stand
  obtain ⟨context, continues, under⟩ :=
    continues_statements standard joined few short (statements.take k) tokens stand
  rw [List.map_append] at tokens stand
  have here := stand.skip
  rw [← start] at here
  cases rest : statements.drop k with
  | nil =>
    -- only the empty line at the end of the text comes behind all statements
    rw [rest, List.map_nil] at here
    rw [rest, List.map_nil, List.append_nil] at tokens
    cases here with
    | done past begins =>
      have last : ix.text.lineStart i = ix.text.size :=
        Nat.le_antisymm (ix.text.lineStart_le_size i) past
      have alone : ix.text.lineStart ix.text.size = ix.text.size := by
        rw [← last]
        exact Text.lineStart_lineStart within
      rw [← tokens] at continues
      rw [last]
      exact under.climbs (continues.found_end joined short alone)
  | cons e others =>
    rw [rest, List.map_cons] at here
    rw [rest, List.map_cons, Page.tokens_append, ← start, Page.tokens] at tokens
    exact climbs_sentence standard joined short rfl
      (isStranded_first standard (.name e.first) _) tokens here continues under

end Commas

/-- Columns of any size by the bare commas before a line. -/
theorem columns_by_bareCommas (lexical : LexicalSettings) (style : IndentSettings)
    (grammar : Grammar String) (statements : List Simple) (final : Bool) :
    let ix : Indenter := ⟨Source.ofText lexical
      (Text.ofString (Page.print final (statements.map Simple.sentence))), style, grammar⟩
    Grammar.standard = .ok grammar → ix.source.size < ix.settings.limits.steps →
    ∀ i ≤ ix.source.size,
      let shifted := (statements.take (ix.text.lineIndex i)).countP (·.hasBareComma)
      shifted ≤ ix.settings.limits.recursion →
        (ix.indentFor i).value = .ok (shifted * style.width) := by
  intro ix built short
  have standard : grammar.levels = Grammar.standardLevels := by
    rw [Grammar.standard_eq] at built
    exact congrArg Grammar.levels (Except.ok.inj built).symm
  have joined : ix.source.text.Joined := Text.joined_ofString _
  have whole : ix.text.From 0 (Program.bytes (Page.print final (statements.map Simple.sentence))) :=
    rfl
  have stand : Page.At ix.text 0 (statements.map Simple.sentence) := .of_from (Or.inl rfl) whole
  have tokens : ix.source.logicalTokens.toList = Page.tokens 0 (statements.map Simple.sentence) :=
    stand.logicalTokens
  have few : ix.source.logicalTokens.toList.length < ix.settings.limits.steps := by
    rw [tokens]
    exact Nat.lt_of_le_of_lt (Nat.le_trans stand.length_tokens (Nat.sub_le _ _)) short
  intro i within shifted shallow
  exact indentFor_climbs joined within
    ((climbs_statements standard joined few short tokens stand within).mono
      (Nat.succ_le_succ shallow))

end Indenter

namespace Editor

open Program

/-- Statements are shifted by bare commas. In a text of simple statements, one a line, a line stands
as many units further in as statements with a bare comma come before it, unless that passes the
largest number; without bare commas all lines are in the first column. -/
theorem statements_by_bareCommas (ed : Editor) (statements : List Simple) (final : Bool)
    (text : ed.text = .ofString (Page.print final (statements.map Simple.sentence)))
    (current : ed.peek = .ofText ed.lexical ed.text)
    (short : ed.text.size < ed.indentation.limits.steps) :
    (∀ i ≤ ed.text.size,
      let shifted := (statements.take (ed.text.lineIndex i)).countP (·.hasBareComma)
      let column := shifted * ed.indentation.width
      shifted ≤ ed.indentation.limits.recursion →
        (column ≤ Limits.number → ((indentFor i).run ed).value.1 = .ok column) ∧
        (Limits.number < column → ∃ c, Limits.number < c ∧ c ≤ column ∧
          ((indentFor i).run ed).value.1 = .error (.overflow c))) ∧
    ((∀ e ∈ statements, e.hasBareComma = false) →
      ∀ i ≤ ed.text.size, ((indentFor i).run ed).value.1 = .ok 0) := by
  have built := Grammar.standard_eq
  have same : ed.peek.text = ed.text := congrArg Source.text current
  have size : ed.peek.size = ed.text.size := congrArg Text.size same
  have columns := Indenter.columns_by_bareCommas ed.lexical ed.indentation _ statements final built
  rw [← text, ← current] at columns
  have answers (i : Nat) (within : i ≤ ed.text.size)
      (shallow : (statements.take (ed.text.lineIndex i)).countP (·.hasBareComma) ≤
        ed.indentation.limits.recursion) := by
    have line : ed.peek.text.lineIndex i = ed.text.lineIndex i := by rw [same]
    have found := columns (size ▸ short) i (size.symm ▸ within)
    simp only [Indenter.text, line] at found
    exact (indentFor_answers built same (found shallow)).single
  refine ⟨answers, fun none i within => ?_⟩
  have zero : (statements.take (ed.text.lineIndex i)).countP (·.hasBareComma) = 0 := by
    rw [List.countP_eq_zero]
    intro e listed
    rw [none e (List.mem_of_mem_take listed)]
    decide
  have column := (answers i within (by rw [zero]; exact Nat.zero_le _)).1
  rw [zero, Nat.zero_mul] at column
  exact column (Nat.zero_le _)

/-- A list in brackets shifts nothing, a bare one the line behind it. -/
theorem statements_by_bareCommas_call :
    let text := "  x = x ( x , x );\nx x , x ;\n  x = x ( x , x );\n"
    let ed : Editor := { text := .ofString text }
    (∃ call list : Simple, Page.print true ([call, list, call].map Simple.sentence) = text) ∧
      ed.peek = .ofText ed.lexical ed.text ∧ ed.text.size < ed.indentation.limits.steps ∧
      ((indentFor 20).run ed).value.1 = .ok 0 ∧ ((indentFor 40).run ed).value.1 = .ok 4 := by
  intro text ed
  let x : Name := ⟨"x", by decide +kernel, by decide +kernel⟩
  let call : Simple := ⟨2, x, [(1, .sign ⟨"=", by decide⟩), (1, .name x), (1, .opening .round),
    (1, .name x), (1, .comma), (1, .name x), (1, .closing .round)], 0, by simp,
    .word rfl (.word rfl (.group (.word rfl (.comma (.word rfl .nil))) .nil))⟩
  let list : Simple := ⟨0, x, [(1, .name x), (1, .comma), (1, .name x)], 1, by simp,
    .word rfl (.comma (.word rfl .nil))⟩
  have printed : Page.print true ([call, list, call].map Simple.sentence) = text := by
    decide +kernel
  have short : ed.text.size < ed.indentation.limits.steps := by decide +kernel
  have shifts := (statements_by_bareCommas ed [call, list, call] true
    (congrArg Text.ofString printed.symm) rfl short).1
  have second : ed.text.lineIndex 20 = 1 := by decide +kernel
  have third : ed.text.lineIndex 40 = 2 := by decide +kernel
  have before := shifts 20 (by decide +kernel)
  have behind := shifts 40 (by decide +kernel)
  rw [second] at before
  rw [third] at behind
  exact ⟨⟨call, list, printed⟩, rfl, short, (before (by decide +kernel)).1 (by decide +kernel),
    (behind (by decide +kernel)).1 (by decide +kernel)⟩

/-- A complete statement with a bare comma shifts the next one. -/
theorem bareComma_shifts :
    let text := "x a , b ;\ny ;"
    let ed : Editor := { text := .ofString text }
    (∃ list next : Simple, Page.print false ([list, next].map Simple.sentence) = text) ∧
      ed.text.lineIndex 10 = 1 ∧ ((indentFor 10).run ed).value.1 = .ok 4 := by
  intro text ed
  let x : Name := ⟨"x", by decide +kernel, by decide +kernel⟩
  let a : Name := ⟨"a", by decide +kernel, by decide +kernel⟩
  let b : Name := ⟨"b", by decide +kernel, by decide +kernel⟩
  let y : Name := ⟨"y", by decide +kernel, by decide +kernel⟩
  let list : Simple := ⟨0, x, [(1, .name a), (1, .comma), (1, .name b)], 1, by simp,
    .word rfl (.comma (.word rfl .nil))⟩
  let next : Simple := ⟨0, y, [], 1, by simp, .nil⟩
  have column : (Indenter.indentFor ⟨ed.peek, {}, ⟨Grammar.standardLevels, []⟩⟩ 10).value =
      .ok 4 := by decide +kernel
  exact ⟨⟨list, next, by decide +kernel⟩, by decide +kernel,
    (indentFor_answers Grammar.standard_eq rfl column).single.1 (by decide)⟩

end Editor
end SasLayout
