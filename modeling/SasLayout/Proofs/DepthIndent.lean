import SasLayout.Proofs.Nesting
import SasLayout.Proofs.Overflow
import SasLayout.Proofs.SharedColumns

set_option autoImplicit false

/-!
Structured programs are indented by depth. A line's column rests on the line that opens the block
around it, one block further out with each step, so the limit on lines that depend on each other is
a limit on the depth.
-/
namespace SasLayout

namespace Indenter

open Indent Source Program

/-! ### Columns within the limits -/

section Climbs

variable {ix : Indenter} {room lineStart column : Nat} {memo : Memo}

/-- What a line rests on, when its list is found within the limit on steps. -/
inductive Found (ix : Indenter) (lineStart : Nat) : Footing → Prop
  | plain {on : Footing} (found : ix.footing lineStart = .ok on)
    (other : ∀ separator, on ≠ .list separator) : Found ix lineStart on
  | list {separator : Nat} {context : ListContext}
    (found : ix.footing lineStart = .ok (.list separator))
    (search : ix.listContext [] separator = .ok context) : Found ix lineStart (ix.listed context)

theorem Found.stands {on : Footing} (found : ix.Found lineStart on) : ix.Stands lineStart on := by
  cases found with
  | plain found other => exact .plain found other
  | list found search => exact .list found ⟨_, _, search⟩

/-- The column of a line that depends on fewer than `room` other lines. -/
inductive Climbs (ix : Indenter) : (room lineStart column : Nat) → Prop
  | column {room lineStart column : Nat} (on : ix.Found lineStart (.column column)) :
    Climbs ix (room + 1) lineStart column
  | line {room lineStart start shift column : Nat} (on : ix.Found lineStart (.line start shift))
    (below : Climbs ix room start column) : Climbs ix (room + 1) lineStart (column + shift)

theorem Climbs.rests (climbs : ix.Climbs room lineStart column) : ix.Rests lineStart column := by
  induction climbs with
  | column on => exact .column on.stands
  | line on below ih => exact .line on.stands ih

theorem Climbs.mono (climbs : ix.Climbs room lineStart column) {more : Nat} (enough : room ≤ more) :
    ix.Climbs more lineStart column := by
  induction climbs generalizing more with
  | column on =>
    obtain ⟨more, rfl⟩ : ∃ least, more = least + 1 := ⟨more - 1, by omega⟩
    exact .column on
  | line on below ih =>
    obtain ⟨more, rfl⟩ : ∃ least, more = least + 1 := ⟨more - 1, by omega⟩
    exact .line on (ih (by omega))

/-- A search that ends without known columns ends with them, at the latest where it did before. -/
theorem listContextFrom_known {separator steps pos : Nat} {context : ListContext}
    (search : ix.listContextFrom [] separator steps pos = .ok context) (memo : Memo) :
    ix.listContextFrom memo separator steps pos = .ok context ∨
      ∃ column, ix.listContextFrom memo separator steps pos = .ok (.sibling column) := by
  induction steps generalizing pos with
  | zero => cases search
  | succ steps ih =>
    rw [listContextFrom] at search ⊢
    cases walked : ix.walk pos ";" with
    | error cause =>
      rw [walked] at search
      cases search
    | ok stop =>
      rw [walked] at search
      cases stop with
      | skipped pos => exact ih search
      | opener pos token => exact ih search
      | boundary => exact Or.inl search
      | parent pos token level =>
        by_cases separates : token = ";"
        · simp only [separates, if_true, sibling?_nil] at search ⊢
          cases known : ix.sibling? memo pos with
          | some column => exact Or.inr ⟨column, rfl⟩
          | none => exact ih search
        · simp only [separates, if_false] at search ⊢
          exact Or.inl search

theorem compute_found {columnOfLine : Nat → Indenting Nat} {on : Footing}
    (found : ix.Found lineStart on)
    (ran : ∃ result, outcome (ix.columnOn columnOfLine on) memo = .ok result) :
    ∃ result, outcome (ix.compute columnOfLine lineStart) memo = .ok result := by
  rw [outcome_compute]
  cases found with
  | plain found other =>
    rw [found]
    exact ran
  | list found search =>
    rw [found]
    change ∃ result, outcome (ix.columnOn columnOfLine (.list _)) memo = _
    rw [outcome_list]
    rcases listContextFrom_known search memo with same | ⟨column, sibling⟩
    · rw [listContext, same]
      exact ran
    · rw [listContext, sibling]
      exact ⟨_, rfl⟩

theorem lineIndent_succeeds (climbs : ix.Climbs room lineStart column) (memo : Memo) :
    ∃ result, outcome (ix.lineIndent room lineStart) memo = .ok result := by
  induction climbs generalizing memo with
  | @column room lineStart column on =>
    cases known : memo.lookup lineStart with
    | some column => exact ⟨_, outcome_lineIndent_known _ _ known⟩
    | none =>
      have ran : ∃ result, outcome (ix.compute (ix.lineIndent room) lineStart) memo = .ok result :=
        compute_found on ⟨_, rfl⟩
      obtain ⟨result, ran⟩ := ran
      rw [outcome_lineIndent _ _ known, ran]
      exact ⟨_, rfl⟩
  | @line room lineStart start shift column on below ih =>
    cases known : memo.lookup lineStart with
    | some column => exact ⟨_, outcome_lineIndent_known _ _ known⟩
    | none =>
      obtain ⟨below, found⟩ := ih memo
      have ran : ∃ result, outcome (ix.compute (ix.lineIndent room) lineStart) memo = .ok result :=
        compute_found on ⟨_, by rw [outcome_line, found]; rfl⟩
      obtain ⟨result, ran⟩ := ran
      rw [outcome_lineIndent _ _ known, ran]
      exact ⟨_, rfl⟩

variable (standard : ix.grammar.levels = Grammar.standardLevels)
  (joined : ix.source.text.Joined) (settled : ix.Unstranded)

include standard joined settled

/-- Within the limits a line gets its own column, whatever columns are known. -/
theorem runLine_climbs (climbs : ix.Climbs (ix.settings.limits.recursion + 1) lineStart column)
    (own : ix.OwnColumns memo) :
    ∃ memo', (ix.runLine lineStart memo).value = .ok (column, memo') ∧ ix.OwnColumns memo' := by
  obtain ⟨⟨column', memo'⟩, ran⟩ := lineIndent_succeeds climbs memo
  obtain ⟨kept, rests⟩ := lineIndent_rests standard joined settled _ lineStart memo column' memo'
    own ran
  rw [climbs.rests.unique rests]
  exact ⟨memo', ran, kept⟩

end Climbs

/-! ### Statements and the lists they belong to -/

section Lists

variable {ix : Indenter} {front back segment : List Token} {tok last : Token}
  {context : ListContext} {pending : List Nat}

/-- The list that a statement behind some tokens belongs to. It is found from their last semicolon
in no more steps than there are offsets before it. -/
def Continues (ix : Indenter) (front : List Token) (context : ListContext) : Prop :=
  (front = [] ∧ context = .outermost) ∨ ∃ others last, front = others ++ [last] ∧
    last.grammarName = ";" ∧ ix.listContextFrom [] 0 (last.start + 1) last.start = .ok context

/-- The tokens before an offset start before it. -/
theorem start_lt_of_earlier {src : Source} {i : Nat} {tokens : List Token}
    (earlier : src.Earlier i tokens) : ∀ tok ∈ tokens, tok.start < i := by
  induction earlier with
  | done ended => exact nofun
  | @step i first others found later ih =>
    have before : first.start < i := by
      rw [logicalToken?] at found
      split at found
      · cases found
      · exact Nat.lt_of_lt_of_le (logicalBefore?_start_lt found) (src.text.floor_le i)
    exact List.forall_mem_cons.mpr ⟨before, fun tok listed => Nat.lt_trans (ih tok listed) before⟩

/-- The first line of code rests on nothing. -/
theorem footing_first (joined : ix.source.text.Joined)
    (split : ix.source.logicalTokens.toList = tok :: back)
    (leads : ix.text.firstNonBlank tok.start = tok.start) :
    ix.footing (ix.text.lineStart tok.start) = .ok (.column 0) := by
  have listed : tok ∈ ix.source.logicalTokens.toList := by simp [split]
  have whole : ix.source.logicalTokens.toList = [] ++ tok :: back := split
  have none_before : ix.source.Earlier tok.start [] := earlier_start joined whole
  have first : ix.text.firstNonBlank (ix.text.lineStart tok.start) = tok.start := by
    rw [text, Text.firstNonBlank_lineStart (logicalTokens_boundary joined listed).1.2]
    exact leads
  rw [footing, startsInSpan_leading joined listed leads, if_neg Bool.false_ne_true, first,
    none_before.first]
  rfl

theorem walk_eq (joined : ix.source.text.Joined)
    (few : ix.source.logicalTokens.toList.length < ix.settings.limits.steps)
    (split : ix.source.logicalTokens.toList = front ++ tok :: back) (name : String) :
    ix.walk tok.start name =
      .ok (walkOver ix.grammar front.reverse (pendingOf ix.grammar (some name))) := by
  have enough : front.reverse.length < ix.settings.limits.steps := by
    rw [split, List.length_append] at few
    rw [List.length_reverse]
    omega
  rw [walk, Indent.walk, walkFrom_eq (earlier_start joined split) enough]

/-- A closer pairs with the opener before what it closes. -/
theorem partner?_block (joined : ix.source.text.Joined)
    (few : ix.source.logicalTokens.toList.length < ix.settings.limits.steps)
    (split : ix.source.logicalTokens.toList = (front ++ tok :: segment) ++ last :: back)
    (opens : ix.grammar.levels? tok.grammarName = some ⟨none, some 0⟩)
    (closes : ix.grammar.levels? last.grammarName = some ⟨some 0, none⟩)
    (passed : carry ix.grammar segment.reverse [0] = some pending)
    (stacked : Over true [0] pending) : ix.partner? last = .ok (some tok.start) := by
  have category : ix.grammar.category last.grammarName = .closer := by
    simp [Grammar.category, closes]
  have walked : ix.walk last.start last.grammarName = .ok (.opener tok.start tok.grammarName) := by
    rw [walk_eq joined few split, pendingOf, Option.bind_some, closes, List.reverse_append,
      List.reverse_cons, List.append_assoc]
    change Except.ok (walkOver ix.grammar _ [0]) = _
    rw [walkOver_append passed, List.singleton_append, walkOver, opens, pass_opener_list stacked]
    rfl
  simp only [partner?, category, walked]

variable (standard : ix.grammar.levels = Grammar.standardLevels)
  (joined : ix.source.text.Joined)

include standard joined

omit standard in
/-- The list of a semicolon is found within the limit on steps. -/
theorem listContext_start (short : ix.source.size < ix.settings.limits.steps)
    (listed : last ∈ ix.source.logicalTokens.toList)
    (search : ix.listContextFrom [] 0 (last.start + 1) last.start = .ok context) :
    ix.listContext [] last.start = .ok context := by
  have within := (logicalTokens_boundary joined listed).1.2
  exact listContextFrom_more _ search (by omega) fun _ => Or.inl rfl

/-- The line of a statement is placed by its list. -/
theorem Continues.found (continues : ix.Continues front context)
    (short : ix.source.size < ix.settings.limits.steps)
    (split : ix.source.logicalTokens.toList = front ++ tok :: back)
    (starts : Starts ix.grammar tok.grammarName)
    (plain : ∀ last, ix.isStranded last tok = false)
    (leads : ix.text.firstNonBlank tok.start = tok.start) :
    ix.Found (ix.text.lineStart tok.start) (ix.listed context) := by
  rcases continues with ⟨rfl, rfl⟩ | ⟨others, last, rfl, name, search⟩
  · exact .plain (footing_first joined split leads) nofun
  · rw [List.append_assoc, List.singleton_append] at split
    have listed : last ∈ ix.source.logicalTokens.toList := by simp [split]
    refine .list ?_ (listContext_start joined short listed search)
    rw [footing_leading joined split leads,
      leadingAnchor?_starts standard joined split name starts leads (plain last)]
    simp [Except.bind, footingAfter, name]

variable (few : ix.source.logicalTokens.toList.length < ix.settings.limits.steps)

include few

theorem walk_separator (split : ix.source.logicalTokens.toList = front ++ tok :: back) :
    ix.walk tok.start ";" = .ok (walkOver ix.grammar front.reverse [10]) := by
  rw [walk_eq joined few split, pendingOf, Option.bind_some,
    Grammar.levels?_separator standard (by simp)]
  rfl

/-- Behind a statement the list is the same. -/
theorem Continues.next (continues : ix.Continues front context)
    (split : ix.source.logicalTokens.toList = (front ++ segment) ++ last :: back)
    (name : last.grammarName = ";") (passed : carry ix.grammar segment.reverse [10] = some pending)
    (stacked : Over false [10] pending) : ix.Continues (front ++ (segment ++ [last])) context := by
  refine Or.inr ⟨front ++ segment, last, (List.append_assoc ..).symm, name, ?_⟩
  rw [listContextFrom, walk_separator standard joined few split, List.reverse_append,
    walkOver_append passed]
  rcases continues with ⟨rfl, rfl⟩ | ⟨others, first, rfl, separates, search⟩
  · rfl
  · have before : first.start < last.start :=
      start_lt_of_earlier (earlier_start joined split) first (by simp)
    have stops : walkOver ix.grammar (first :: others.reverse) pending =
        .parent first.start ";" (some 10) := by
      rw [walkOver, separates, Grammar.levels?_separator standard (by simp),
        pass_separator_end stacked]
      rfl
    rw [List.reverse_append, List.reverse_singleton, List.singleton_append, stops]
    simp only [if_true, sibling?_nil]
    exact listContextFrom_more 0 search (by omega) fun _ => Or.inl rfl

/-- Behind a statement that the walk back does not get out of, the list is the one inside the token
that ends the walk. -/
theorem continues_parent
    (split : ix.source.logicalTokens.toList = (front ++ tok :: segment) ++ last :: back)
    (name : last.grammarName = ";") (other : tok.grammarName ≠ ";")
    (passed : carry ix.grammar segment.reverse [10] = some pending)
    (stops : pass (ix.grammar.levels? tok.grammarName) pending = .parent) :
    ix.Continues (front ++ tok :: (segment ++ [last])) (.inside tok.start tok.grammarName) := by
  refine Or.inr ⟨front ++ tok :: segment, last, by simp, name, ?_⟩
  rw [listContextFrom, walk_separator standard joined few split, List.reverse_append,
    List.reverse_cons, List.append_assoc, walkOver_append passed, List.singleton_append, walkOver,
    stops]
  simp only [other, if_false]

/-- Behind the line that opens a block the list is the one inside it. -/
theorem continues_inside
    (split : ix.source.logicalTokens.toList = (front ++ tok :: segment) ++ last :: back)
    (name : last.grammarName = ";")
    (opens : ix.grammar.levels? tok.grammarName = some ⟨none, some 0⟩)
    (passed : carry ix.grammar segment.reverse [10] = some pending)
    (stacked : Over false [10] pending) :
    ix.Continues (front ++ tok :: (segment ++ [last])) (.inside tok.start tok.grammarName) := by
  have other : tok.grammarName ≠ ";" := by
    intro same
    rw [same, Grammar.levels?_separator standard (by simp)] at opens
    cases opens
  apply continues_parent standard joined few split name other passed
  rw [opens, pass_opener_end stacked]

end Lists

/-! ### The lines of a program -/

section Lines

variable {ix : Indenter} {l : Line} {i : Nat} {front back : List Token} {more : List Line}
  {context : ListContext}

/-- Each of the lines has the column of its depth. -/
def Columns (ix : Indenter) : Nat → List Line → Prop
  | _, [] => True
  | i, l :: rest => ix.Climbs (l.depth + 2) i (l.depth * ix.settings.width) ∧
    Columns ix (i + l.row.bytes.length + 1) rest

theorem Columns.append {first second : List Line} (early : ix.Columns i first)
    (late : ix.Columns (i + extent first) second) : ix.Columns i (first ++ second) := by
  induction first generalizing i with
  | nil => exact late
  | cons l rest ih =>
    refine ⟨early.1, ih early.2 ?_⟩
    rwa [extent_cons, ← Nat.add_assoc, ← Nat.add_assoc] at late

/-- The statements of a list inside `depth` blocks. -/
def Under (ix : Indenter) (context : ListContext) (depth : Nat) : Prop :=
  (depth = 0 ∧ ix.listed context = .column 0) ∨ ∃ outer start, depth = outer + 1 ∧
    ix.listed context = .line start ix.settings.width ∧
    ix.Climbs (outer + 1) start (outer * ix.settings.width)

theorem Under.climbs {depth lineStart : Nat} (under : ix.Under context depth)
    (found : ix.Found lineStart (ix.listed context)) :
    ix.Climbs (depth + 1) lineStart (depth * ix.settings.width) := by
  rcases under with ⟨rfl, placed⟩ | ⟨outer, start, rfl, placed, below⟩
  · rw [placed] at found
    rw [Nat.zero_mul]
    exact .column found
  · rw [placed] at found
    rw [Nat.succ_mul]
    exact .line found below

variable (standard : ix.grammar.levels = Grammar.standardLevels)

include standard

theorem first_plain (head : Head) :
    head.first.role ≠ ";" ∧ ix.grammar.category head.first.role ≠ .binaryOperator := by
  have separator := Grammar.levels?_separator standard (List.mem_cons_self : ";" ∈ [";", ","])
  cases head with
  | name n => exact ⟨(by decide : "" ≠ ";"), Category.noConfusion⟩
  | opening o =>
    have levels := levels?_keyword standard o
    refine ⟨fun same => ?_, ?_⟩
    · rw [show (Word.keyword o.keyword).role = ";" from same, separator] at levels
      cases levels
    · rw [Head.first, Grammar.category, levels]
      exact Category.noConfusion
  | closing o =>
    have levels := levels?_closer standard o
    refine ⟨fun same => ?_, ?_⟩
    · rw [show (Word.keyword o.closer).role = ";" from same, separator] at levels
      cases levels
    · rw [Head.first, Grammar.category, levels]
      exact Category.noConfusion

/-- No line is placed by a comment before its first word. -/
theorem isStranded_first (head : Head) (i : Nat) (last : Token) :
    ix.isStranded last (head.first.token i) = false := by
  simp [isStranded, Word.grammarName_token, first_plain standard head]

theorem unstranded_lines {lines : List Line}
    (tokens : ix.source.logicalTokens.toList = tokensOf i lines) : ix.Unstranded := by
  have row_chain : ∀ (row : List Token) (last : Token), (∀ tok ∈ row, tok.grammarName ≠ ";") →
      (row ++ [last]).IsChain fun previous tok => ix.isStranded previous tok = false := by
    intro row last others
    induction row with
    | nil => exact .singleton _
    | cons tok row ih =>
      obtain ⟨other, rest⟩ := List.forall_mem_cons.mp others
      refine List.isChain_cons.mpr ⟨fun next _ => ?_, ih rest⟩
      simp [isStranded, other]
  rw [Unstranded, tokens]
  clear tokens
  induction lines generalizing i with
  | nil => exact .nil
  | cons l rest ih =>
    obtain ⟨k, j, row⟩ := l.row_tokens i
    rw [tokensOf, List.isChain_append]
    refine ⟨?_, ih, fun last _ tok first => ?_⟩
    · rw [row, ← List.cons_append]
      refine row_chain _ _ (List.forall_mem_cons.mpr ⟨?_, fun tok listed => ?_⟩)
      · rw [Word.grammarName_token]
        exact (first_plain standard l.head).1
      · have name := List.mem_map_of_mem (f := Token.grammarName) listed
        rw [names_row] at name
        obtain ⟨w, member, same⟩ := List.mem_map.mp name
        obtain ⟨piece, inner, rfl⟩ := List.mem_map.mp member
        rw [← same]
        exact Word.role_inner (l.inner_inner piece inner).2
    · cases rest with
      | nil => cases first
      | cons next rest =>
        obtain ⟨k, j, row⟩ := next.row_tokens (i + l.row.bytes.length + 1)
        rw [tokensOf, row] at first
        obtain rfl := Option.some.inj first
        exact isStranded_first standard next.head _ last

variable (joined : ix.source.text.Joined) (short : ix.source.size < ix.settings.limits.steps)

include joined short

/-- A line that starts a statement or opens a block is placed by its list. -/
theorem climbs_sentence {s : Sentence} {rest : Page} {depth : Nat}
    (opens : (ix.grammar.levels? s.first.role).bind (·.left) = none)
    (plain : ∀ last, ix.isStranded last (s.first.token (i + s.indent)) = false)
    (split : ix.source.logicalTokens.toList = front ++ (s.row.tokens i ++ back))
    (stand : Page.At ix.text i (s :: rest)) (continues : ix.Continues front context)
    (under : ix.Under context depth) : ix.Climbs (depth + 1) i (depth * ix.settings.width) := by
  obtain ⟨inside, start, leads⟩ := stand.leads
  have found := continues.found standard joined short split
    (starts_of_left standard (by rw [Word.grammarName_token]; exact opens)) plain leads
  rw [show (s.first.token (i + s.indent)).start = i + s.indent from rfl, start] at found
  exact under.climbs found

theorem climbs_line (opens : (ix.grammar.levels? l.head.first.role).bind (·.left) = none)
    (split : ix.source.logicalTokens.toList = front ++ (l.row.tokens i ++ back))
    (stand : Stand ix.text i (l :: more)) (continues : ix.Continues front context)
    (under : ix.Under context l.depth) :
    ix.Climbs (l.depth + 1) i (l.depth * ix.settings.width) :=
  climbs_sentence (s := l.sentence) standard joined short opens (isStranded_first standard l.head _)
    split (stand_iff.mp stand) continues under

variable (few : ix.source.logicalTokens.toList.length < ix.settings.limits.steps)

include few

omit short in
/-- Behind a statement without bare commas the list is the same. -/
theorem Continues.sentence {s : Sentence} (plain : s.first.isPlain = true)
    (balanced : Balanced false s.inner.words) (continues : ix.Continues front context)
    (split : ix.source.logicalTokens.toList = front ++ (s.row.tokens i ++ back)) :
    ix.Continues (front ++ s.row.tokens i) context := by
  obtain ⟨k, j, row⟩ := s.row_tokens i
  obtain ⟨before, inner, stacked⟩ :=
    unwind_balanced standard balanced (Nat.le_refl 10) nofun (over_self false [10])
  obtain ⟨next, go, stacked⟩ := pass_plain standard plain (Nat.le_refl 10) stacked
  have passed : carry ix.grammar (s.first.token (i + s.indent) :: Row.tokens k s.inner).reverse
      [10] = some next := by
    rw [← unwind_cons inner go]
    exact carry_tokens (by simp [Word.grammarName_token])
  have whole : ix.source.logicalTokens.toList =
      (front ++ s.first.token (i + s.indent) :: Row.tokens k s.inner) ++
        Word.semicolon.token j :: back := by
    rw [split, row]
    simp only [List.append_assoc, List.cons_append, List.nil_append]
  rw [row]
  exact continues.next standard joined few whole (Word.grammarName_token _ _) passed stacked

omit short in
/-- Behind the line that opens a block the list is the one inside it. -/
theorem continues_header {o : Opener} (head : l.head = .opening o)
    (split : ix.source.logicalTokens.toList = front ++ (l.row.tokens i ++ back)) :
    ix.Continues (front ++ l.row.tokens i)
      (.inside (i + l.indent) (Word.keyword o.keyword).role) := by
  obtain ⟨k, j, row⟩ := l.row_tokens i
  obtain ⟨before, inner, stacked⟩ := unwind_inner standard l (Nat.le_refl 10) (over_self false [10])
  have passed : carry ix.grammar (Row.tokens k l.inner).reverse [10] = some before := by
    rw [carry_tokens (names_row _ _), inner]
  have name : (l.head.first.token (i + l.indent)).grammarName = (Word.keyword o.keyword).role := by
    rw [Word.grammarName_token, head]
    rfl
  have opens : ix.grammar.levels? (l.head.first.token (i + l.indent)).grammarName =
      some ⟨none, some 0⟩ := by
    rw [name, levels?_keyword standard]
  have whole : ix.source.logicalTokens.toList =
      (front ++ l.head.first.token (i + l.indent) :: Row.tokens k l.inner) ++
        Word.semicolon.token j :: back := by
    rw [split, row]
    simp only [List.append_assoc, List.cons_append, List.nil_append]
  rw [row, ← name]
  exact continues_inside standard joined few whole (Word.grammarName_token _ _) opens passed stacked

omit short in
/-- The line that closes a block is placed by the line that opens it. -/
theorem climbs_closer {o : Opener} {closer : Line} {inner : List Line} {inside : List Nat}
    {k c : Nat} (head : l.head = .opening o) (closing : closer.head = .closing o)
    (split : ix.source.logicalTokens.toList =
      front ++ (l.row.tokens i ++ (tokensOf k inner ++ (closer.row.tokens c ++ back))))
    (stand : Stand ix.text c (closer :: more)) (start : ix.text.lineStart (i + l.indent) = i)
    (passed : unwind ix.grammar (wordsOf inner) [0] = some inside) (stacked : Over true [0] inside)
    {room column : Nat} (below : ix.Climbs room i column) : ix.Climbs (room + 1) c column := by
  obtain ⟨k', j, row⟩ := l.row_tokens i
  obtain ⟨k'', j', row'⟩ := closer.row_tokens c
  obtain ⟨next, ended, kept⟩ := unwind_ended standard l passed stacked
  have segment : carry ix.grammar (Row.tokens k' l.inner ++ Word.semicolon.token j ::
      tokensOf k inner).reverse [0] = some next := by
    rw [← ended]
    exact carry_tokens (by simp [Word.grammarName_token])
  have whole : ix.source.logicalTokens.toList =
      (front ++ l.head.first.token (i + l.indent) :: (Row.tokens k' l.inner ++
        Word.semicolon.token j :: tokensOf k inner)) ++
      closer.head.first.token (c + closer.indent) ::
        (Row.tokens k'' closer.inner ++ Word.semicolon.token j' :: back) := by
    rw [split, row, row']
    simp only [List.append_assoc, List.cons_append, List.nil_append]
  have opens : ix.grammar.levels? (l.head.first.token (i + l.indent)).grammarName =
      some ⟨none, some 0⟩ := by
    rw [Word.grammarName_token, head]
    exact levels?_keyword standard o
  have closes : ix.grammar.levels? (closer.head.first.token (c + closer.indent)).grammarName =
      some ⟨some 0, none⟩ := by
    rw [Word.grammarName_token, closing]
    exact levels?_closer standard o
  have anchor : ∀ lineStart, ix.leadingAnchor? (closer.head.first.token (c + closer.indent))
      lineStart = .ok (some (⟨i + l.indent, i + l.indent⟩, .inherit)) := by
    intro lineStart
    have category : ix.grammar.category (closer.head.first.token (c + closer.indent)).grammarName =
        .closer := by
      simp [Grammar.category, closes]
    rw [leadingAnchor?, partner?_block joined few whole opens closes segment kept, category]
    rfl
  obtain ⟨inside, begins, leads⟩ := stand.leads
  have found : ix.footing c = .ok (.line i 0) := by
    obtain ⟨before, last, ends⟩ := (List.eq_nil_or_concat' (front ++
      l.head.first.token (i + l.indent) :: (Row.tokens k' l.inner ++
        Word.semicolon.token j :: tokensOf k inner))).resolve_left (by simp)
    rw [ends, List.append_assoc, List.singleton_append] at whole
    have placed := footing_leading joined whole leads
    rw [show (closer.head.first.token (c + closer.indent)).start = c + closer.indent from rfl,
      begins, anchor] at placed
    rw [placed]
    change Except.ok (Footing.line (ix.text.lineStart (i + l.indent)) 0) = _
    rw [start]
  exact .line (.plain found fun _ same => by cases same) below

omit joined short few in
/-- Inside a block the statements stand one unit further in than the line that opens it. -/
theorem under_inside {o : Opener} {pos start outer : Nat} (begins : ix.text.lineStart pos = start)
    (below : ix.Climbs (outer + 1) start (outer * ix.settings.width)) :
    ix.Under (.inside pos (Word.keyword o.keyword).role) (outer + 1) := by
  have category : ix.grammar.category (Word.keyword o.keyword).role = .opener := by
    simp [Grammar.category, levels?_keyword standard]
  have action : action? .after (Word.keyword o.keyword).role .opener = some (.basic 1) := by
    cases o <;> rfl
  refine Or.inr ⟨outer, start, rfl, ?_, below⟩
  rw [listed, category, action, Option.getD_some, anchored, begins, Nat.one_mul]

omit short in
/-- Behind a block the list is the same as before it. -/
theorem Continues.block {o : Opener} {inner : List Line} {inside : List Nat}
    {k c depth closing : Nat} (continues : ix.Continues front context) (head : l.head = .opening o)
    (split : ix.source.logicalTokens.toList = front ++ (l.row.tokens i ++ (tokensOf k inner ++
      ((Line.row ⟨depth, closing, .closing o, .empty⟩).tokens c ++ back))))
    (passed : unwind ix.grammar (wordsOf inner) [0, 10] = some inside)
    (stacked : Over true [0, 10] inside) :
    ix.Continues (front ++ (l.row.tokens i ++ (tokensOf k inner ++
      (Line.row ⟨depth, closing, .closing o, .empty⟩).tokens c))) context := by
  obtain ⟨k', j, row⟩ := l.row_tokens i
  obtain ⟨k'', j', row'⟩ := (Line.mk depth closing (.closing o) .empty).row_tokens c
  have segment : carry ix.grammar (l.row.tokens i ++ (tokensOf k inner ++
      [(Word.keyword o.closer).token (c + closing)])).reverse [10] = some [10] := by
    rw [← unwind_block standard l o (List.cons_ne_nil _ _) passed stacked]
    refine carry_tokens ?_
    simp [row, Word.grammarName_token, head, Head.first]
  have closer : (Line.row ⟨depth, closing, .closing o, .empty⟩).tokens c =
      [(Word.keyword o.closer).token (c + closing), Word.semicolon.token j'] := row'
  have whole : ix.source.logicalTokens.toList = (front ++ (l.row.tokens i ++ (tokensOf k inner ++
      [(Word.keyword o.closer).token (c + closing)]))) ++ Word.semicolon.token j' :: back := by
    rw [split, closer]
    simp only [List.append_assoc, List.cons_append, List.nil_append]
  have behind := continues.next standard joined few whole (Word.grammarName_token _ _) segment
    (over_self false [10])
  rw [closer]
  simpa only [List.append_assoc, List.cons_append, List.nil_append] using behind

/-- The lines of a program have the columns of their depths, and behind it the list is the same. -/
theorem climbs_program (p : Program) {depth : Nat}
    (split : ix.source.logicalTokens.toList = front ++ (tokensOf i (p.lines depth) ++ back))
    (stand : Stand ix.text i (p.lines depth ++ more)) (continues : ix.Continues front context)
    (under : ix.Under context depth) :
    ix.Columns i (p.lines depth) ∧
      ix.Continues (front ++ tokensOf i (p.lines depth)) context := by
  induction p generalizing depth i front back more context with
  | done => exact ⟨trivial, by rwa [lines, tokensOf, List.append_nil]⟩
  | statement indent first body rest ih =>
    rw [lines, tokensOf, List.append_assoc] at split
    have line := climbs_line standard joined short rfl split stand continues under
    have behind := Continues.sentence (s := Line.sentence ⟨depth, indent, .name first, body⟩)
      standard joined few rfl body.balanced continues split
    rw [← List.append_assoc] at split
    obtain ⟨columns, last⟩ := ih split stand.next behind under
    refine ⟨⟨line.mono (by simp), columns⟩, ?_⟩
    rw [lines, tokensOf, ← List.append_assoc]
    exact last
  | block indent opener body inner closing rest within behind =>
    rw [lines, tokensOf, tokensOf_append, tokensOf] at split
    simp only [List.append_assoc] at split
    rw [lines, List.cons_append, List.append_assoc, List.cons_append] at stand
    have opens : (ix.grammar.levels? (Head.opening opener).first.role).bind (·.left) = none := by
      rw [Head.first, levels?_keyword standard]
      rfl
    have line := climbs_line standard joined short opens split stand continues under
    have start := stand.leads.2.1
    -- The statements of the block, in the list that its first line opens.
    obtain ⟨columns, -⟩ := within (by rw [split, ← List.append_assoc]) stand.next
      (continues_header standard joined few rfl split) (under_inside standard start line)
    -- The line that closes it.
    obtain ⟨inside, passed, stacked⟩ :=
      unwind_program standard inner (depth + 1) (over_self true [0])
    have closer :=
      climbs_closer standard joined few rfl rfl split stand.next.skip start passed stacked
      line
    -- What follows the block, in the same list as before it.
    obtain ⟨inside', passed', stacked'⟩ :=
      unwind_program standard inner (depth + 1) (over_self true [0, 10])
    have continues' := continues.block standard joined few rfl split passed' stacked'
    obtain ⟨columns', last⟩ := @behind _ _ back _ _ _ (by rw [split]; simp only [List.append_assoc])
      stand.next.skip.next continues' under
    refine ⟨⟨line.mono (by simp), columns.append ⟨closer, columns'⟩⟩, ?_⟩
    rw [lines, tokensOf, tokensOf_append, tokensOf]
    simpa only [List.append_assoc] using last

end Lines

/-! ### Whole programs -/

section Programs

variable {ix : Indenter} {i : Nat} {lines : List Line} {memo : Memo}

/-- A line of a program is found by its number. -/
theorem Columns.climbs {k : Nat} {l : Line} (columns : ix.Columns i lines)
    (stand : Stand ix.text i lines) (listed : lines[k]? = some l)
    (shallow : l.depth < ix.settings.limits.recursion) {j : Nat} (within : j ≤ ix.text.size)
    (line : ix.text.lineIndex j = ix.text.lineIndex i + k) :
    ix.Climbs (ix.settings.limits.recursion + 1) (ix.text.lineStart j)
      (l.depth * ix.settings.width) := by
  induction lines generalizing i k with
  | nil => cases listed
  | cons first rest ih =>
    have bound := stand.leads.1
    cases k with
    | zero =>
      obtain rfl := Option.some.inj listed
      rw [Text.lineStart_congr within (by omega) line, stand.lineStart]
      exact columns.1.mono (by omega)
    | succ k =>
      refine ih columns.2 stand.next listed ?_
      have inside : i + first.row.bytes.length < ix.text.size := by
        cases rest with
        | nil => cases listed
        | cons next rest =>
          have := stand.next.leads.1
          omega
      rw [stand.lineIndex_next inside, line]
      omega

variable (standard : ix.grammar.levels = Grammar.standardLevels)
  (joined : ix.source.text.Joined) (settled : ix.Unstranded)

include standard joined settled

theorem placeLine_climbs {column : Nat} (placed : Array PlacedLine)
    (visible : ix.text.isBlankLine i = false)
    (climbs : ix.Climbs (ix.settings.limits.recursion + 1) i column) (own : ix.OwnColumns memo) :
    ∃ memo', (ix.placeLine i memo placed).value = .ok (memo',
      placed.push ⟨ix.text.lineIndex i + 1, i, ix.text.indentation i, column⟩) ∧
      ix.OwnColumns memo' := by
  obtain ⟨memo', ran, kept⟩ := runLine_climbs standard joined settled climbs own
  refine ⟨memo', ?_, kept⟩
  rw [placeLine, if_neg (by simp [visible]), Logged.value_bind, ran, ix.source.lineMap_index]
  rfl

/-- The lines of a program are placed one after the other. -/
theorem placeLines_columns {placed : Array PlacedLine} {events : Array Event}
    (columns : ix.Columns i lines) (stand : Stand ix.text i lines) (within : i ≤ ix.text.size)
    (shallow : ∀ l ∈ lines, l.depth < ix.settings.limits.recursion) (own : ix.OwnColumns memo) :
    ∃ placed', (ix.placeLines ix.text.size i memo placed events).value = .ok placed' ∧
      placed'.toList.map (fun l => (l.line, l.target)) =
        placed.toList.map (fun l => (l.line, l.target)) ++
          (lines.zipIdx (ix.text.lineIndex i)).map fun l =>
            (l.2 + 1, l.1.depth * ix.settings.width) := by
  induction lines generalizing i memo placed events with
  | nil =>
    cases stand with
    | done past begins =>
      obtain rfl : i = ix.text.size := Nat.le_antisymm within past
      have blank : ix.text.isBlankLine ix.text.size = true := by
        rw [Text.isBlankLine, decide_eq_true_eq, ix.text.lineEnd_size]
        refine Nat.le_trans ?_ (ix.text.lineStart_le_firstNonBlank _)
        rw [Text.lineStart_eq_self within (begins within)]
      have ran : (ix.placeLine ix.text.size memo placed).value = .ok (memo, placed) := by
        rw [placeLine, if_pos blank]
        rfl
      refine ⟨placed, ?_, by simp⟩
      rw [placeLines]
      simp only [ran, ix.text.lineEnd_size, Nat.lt_irrefl, false_and, dite_false]
  | cons l rest ih =>
    have visible : ix.text.isBlankLine i = false := by
      rw [Text.isBlankLine, decide_eq_false_iff_not, Nat.not_le]
      exact stand.firstNonBlank_lt
    have depth := shallow l List.mem_cons_self
    obtain ⟨memo', ran, kept⟩ := placeLine_climbs standard joined settled placed visible
      (columns.1.mono (by omega)) own
    rw [placeLines]
    simp only [ran, stand.lineEnd]
    by_cases inside : i + l.row.bytes.length < ix.text.size
    · simp only [inside, and_self, dite_true]
      obtain ⟨placed', found, same⟩ := ih columns.2 stand.next inside
        (fun l listed => shallow l (List.mem_cons_of_mem _ listed)) kept
      refine ⟨placed', found, ?_⟩
      rw [same, stand.lineIndex_next inside, List.zipIdx_cons]
      simp
    · have last : rest = [] := by
        cases rest with
        | nil => rfl
        | cons next rest =>
          have := stand.next.leads.1
          omega
      simp only [inside, false_and, dite_false]
      exact ⟨_, rfl, by simp [last]⟩

end Programs

/-- Columns of any size by depth, for a line by itself and when the whole text is reindented. -/
theorem columns_by_depth (lexical : LexicalSettings) (style : IndentSettings)
    (grammar : Grammar String) (p : Program) (final : Bool) :
    let ix : Indenter := ⟨Source.ofText lexical (Text.ofString (p.print final)), style, grammar⟩
    Grammar.standard = .ok grammar → p.height < ix.settings.limits.recursion →
    ix.source.size < ix.settings.limits.steps →
    (∀ i ≤ ix.source.size, ∀ l, (p.lines 0)[ix.text.lineIndex i]? = some l →
      (ix.indentFor i).value = .ok (l.depth * style.width)) ∧
    ∃ placed, (ix.reindentRegion 0 ix.source.size).value = .ok placed ∧
      placed.toList.map (fun l => (l.line, l.target)) =
        (p.lines 0).zipIdx.map fun l => (l.2 + 1, l.1.depth * style.width) := by
  intro ix built low short
  have standard : grammar.levels = Grammar.standardLevels := by
    rw [Grammar.standard_eq] at built
    exact congrArg Grammar.levels (Except.ok.inj built).symm
  have joined : ix.source.text.Joined := Text.joined_ofString _
  have whole : ix.text.From 0 (Program.bytes (printLines final (p.lines 0))) := rfl
  have stand : Stand ix.text 0 (p.lines 0) := .of_from (Or.inl rfl) whole
  have tokens : ix.source.logicalTokens.toList = tokensOf 0 (p.lines 0) := logicalTokens_lines stand
  have settled : ix.Unstranded := unstranded_lines standard tokens
  have few : ix.source.logicalTokens.toList.length < ix.settings.limits.steps := by
    rw [tokens]
    exact Nat.lt_of_le_of_lt (Nat.le_trans stand.length_tokens (Nat.sub_le _ _)) short
  obtain ⟨columns, -⟩ := @climbs_program ix 0 [] [] [] .outermost standard joined short few p 0
    (by rw [tokens, List.nil_append, List.append_nil]) (by rwa [List.append_nil])
    (Or.inl ⟨rfl, rfl⟩) (Or.inl ⟨rfl, rfl⟩)
  have shallow : ∀ l ∈ p.lines 0, l.depth < ix.settings.limits.recursion := fun l listed =>
    Nat.lt_of_le_of_lt (p.depth_le_height 0 l listed) (by omega)
  have nothing : ix.OwnColumns [] := fun _ _ found => by cases found
  constructor
  · intro i within l listed
    have line : ix.text.lineStart (ix.source.text.floor i) = ix.text.lineStart i :=
      Text.lineStart_congr (Nat.le_trans (ix.source.text.floor_le i) within) within
        (joined.lineIndex_floor within)
    have climbs := columns.climbs stand listed (shallow l (List.mem_of_getElem? listed)) within
      (by rw [ix.text.lineIndex_zero, Nat.zero_add])
    obtain ⟨memo, ran, -⟩ := runLine_climbs standard joined settled climbs nothing
    rw [indentFor, checkOffset_within within]
    simp only [Logged.value_map, line, ran]
    rfl
  · obtain ⟨placed, ran, same⟩ := @placeLines_columns ix 0 _ [] standard joined settled #[] #[]
      columns stand (Nat.zero_le _) shallow nothing
    rw [ix.text.lineIndex_zero] at same
    refine ⟨placed, ?_, same⟩
    rw [reindentRegion, checkOffset_within (Nat.zero_le _), checkOffset_within (Nat.le_refl _)]
    have first : ix.source.text.floor 0 = 0 := Text.floor_zero _
    have last : ix.source.text.floor ix.source.size = ix.text.size :=
      Text.floor_eq_self (isBoundary_size _)
    simp only [first, last]
    rw [placeRegion, Nat.max_eq_right (Nat.zero_le _), ix.text.lineStart_zero]
    exact ran

end Indenter

namespace Editor

open Indenter Program

/-- Structured programs are indented by depth. Every line of a printed program gets the width of one
unit for each block around it, by itself and when the whole text is reindented, unless that passes
the largest number; the line that closes a block has the depth of the line that opens it. -/
theorem program_by_depth (ed : Editor) (p : Program) (final : Bool)
    (text : ed.text = .ofString (p.print final)) (current : ed.peek = .ofText ed.lexical ed.text)
    (low : p.height < ed.indentation.limits.recursion)
    (short : ed.text.size < ed.indentation.limits.steps) :
    let width := ed.indentation.width
    (∀ i ≤ ed.text.size, ∀ l, (p.lines 0)[ed.text.lineIndex i]? = some l →
      (l.depth * width ≤ Limits.number →
        ((indentFor i).run ed).value.1 = .ok (l.depth * width)) ∧
      (Limits.number < l.depth * width → ∃ c, Limits.number < c ∧ c ≤ l.depth * width ∧
        ((indentFor i).run ed).value.1 = .error (.overflow c))) ∧
    ((∀ l ∈ p.lines 0, l.depth * width ≤ Limits.number) →
      ∃ placed, ((reindent 0 ed.text.size).run ed).value.1 = .ok placed ∧
        placed.toList.map (fun l => (l.line, l.target)) =
          (p.lines 0).zipIdx.map fun l => (l.2 + 1, l.1.depth * width)) ∧
    ((∃ l ∈ p.lines 0, Limits.number < l.depth * width) → ∃ c, Limits.number < c ∧
      ((reindent 0 ed.text.size).run ed).value.1 = .error (.overflow c)) := by
  intro width
  have built := Grammar.standard_eq
  have same : ed.peek.text = ed.text := congrArg Source.text current
  have columns := columns_by_depth ed.lexical ed.indentation _ p final built low
  rw [← text, ← current] at columns
  have size : ed.peek.size = ed.text.size := congrArg Text.size same
  obtain ⟨alone, placed, ran, targets⟩ := columns (size ▸ short)
  have given : placed.toList.map (·.target) = (p.lines 0).map (·.depth * width) := by
    have seconds := congrArg (List.map Prod.snd) targets
    rw [List.map_map, List.map_map] at seconds
    rw [← List.zipIdx_map_fst 0 (p.lines 0), List.map_map]
    exact seconds
  have answers := reindent_answers built same ran
  rw [given] at answers
  refine ⟨fun i within l listed => ?_, fun small => ?_, fun ⟨l, listed, large⟩ => ?_⟩
  · have line : ed.peek.text.lineIndex i = ed.text.lineIndex i := by rw [same]
    exact (indentFor_answers built same
      (alone i (size.symm ▸ within) l (line.symm ▸ listed))).single
  · exact ⟨placed, size ▸ answers.1 (List.forall_mem_map.mpr small), targets⟩
  · obtain ⟨c, past, -, stopped⟩ := answers.2 ⟨_, List.mem_map_of_mem listed, large⟩
    exact ⟨c, past, size ▸ stopped⟩

/-- A macro with a step and a group in it. -/
theorem program_by_depth_macro :
    let x : Name := ⟨"x", by decide +kernel, by decide +kernel⟩
    let call : Body := ⟨[(1, .sign ⟨"=", by decide⟩), (1, .name x), (1, .opening .round),
      (1, .name x), (1, .comma), (1, .name x), (1, .closing .round)], by decide,
      .word rfl (.word rfl (.group (.word rfl (.comma (.word rfl .nil))) .nil))⟩
    let group : Program := .block 1 .group .empty (.statement 0 x call .done) 7 .done
    let p : Program := .block 2 (.definition 0 x) .empty
      (.block 0 (.dataStep 0 x) .empty group 0 .done) 3 .done
    let ed : Editor := { text := .ofString (p.print true) }
    p.print true =
      "  %macro x;\ndata x;\n do;\nx = x ( x , x );\n       end;\nrun;\n   %mend;\n" ∧
      ed.peek = .ofText ed.lexical ed.text ∧ p.height < ed.indentation.limits.recursion ∧
      ed.text.size < ed.indentation.limits.steps ∧ ((indentFor 25).run ed).value.1 = .ok 12 ∧
      ∃ placed, ((reindent 0 ed.text.size).run ed).value.1 = .ok placed ∧
        placed.toList.map (fun l => (l.line, l.target)) =
          [(1, 0), (2, 4), (3, 8), (4, 12), (5, 8), (6, 4), (7, 0)] := by
  intro x call group p ed
  have printed : p.print true =
      "  %macro x;\ndata x;\n do;\nx = x ( x , x );\n       end;\nrun;\n   %mend;\n" := by
    decide +kernel
  have low : p.height < ed.indentation.limits.recursion := by decide
  have short : ed.text.size < ed.indentation.limits.steps := by decide +kernel
  obtain ⟨alone, shared, -⟩ := program_by_depth ed p true rfl rfl low short
  have line : ed.text.lineIndex 25 = 3 := by decide +kernel
  have column := (alone 25 (by decide +kernel) ⟨3, 0, .name x, call⟩ (by rw [line]; rfl)).1
    (by decide)
  exact ⟨printed, rfl, low, short, column, shared (by decide)⟩

end Editor
end SasLayout
