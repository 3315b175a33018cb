import Mathlib.Data.String.Basic
import Mathlib.Tactic.FinCases
import SasLayout.Proofs.Parts

set_option autoImplicit false

/-!
The levels of the language. Those of the parts satisfy all relations, and a chain of relations
shows that no levels are lower, so they are what the solver finds.
-/
namespace SasLayout.Grammar

theorem Part.isOpen_cases {a b : Part} (two : a.isOpen b) :
    a = .semicolon ∧ b = .semicolon ∨ a = .comma ∧ b = .comma ∨
      ∃ i j : Fin 8, a = .operator i ∧ b = .operator j ∧ j ≠ 2 := by
  unfold isOpen at two
  split at two
  · exact Or.inl ⟨rfl, rfl⟩
  · exact Or.inr (Or.inl ⟨rfl, rfl⟩)
  · exact Or.inr (Or.inr ⟨_, _, rfl, rfl, by simpa using two⟩)
  · exact nomatch two

theorem derived_lt {a b : String} {n : String} {body : List (Symbol String)} {head : String}
    (rule : ⟨head, body⟩ ∈ rulesFor standardTable)
    (part : [.terminal a, .nonterminal n] <:+: body)
    (leads : Rules.Leads (rulesFor standardTable) n b) :
    ⟨a, b, .lt⟩ ∈ derivations (rulesFor standardTable) :=
  mem_derivations.mpr ⟨_, rule, .before part leads⟩

theorem derived_gt {a b : String} {n : String} {body : List (Symbol String)} {head : String}
    (rule : ⟨head, body⟩ ∈ rulesFor standardTable)
    (part : [.nonterminal n, .terminal b] <:+: body)
    (trails : Rules.Leads ((rulesFor standardTable).map Rule.reverse) n a) :
    ⟨a, b, .gt⟩ ∈ derivations (rulesFor standardTable) :=
  mem_derivations.mpr ⟨_, rule, .after part trails⟩

/-- The rule of a name that stands between two nonterminals of its own kind relates it to itself in
two ways. -/
theorem derived_twice {a head : String}
    (rule : ⟨head, [.nonterminal head, .terminal a, .nonterminal head]⟩ ∈ rulesFor standardTable) :
    ⟨a, a, .lt⟩ ∈ derivations (rulesFor standardTable) ∧
      ⟨a, a, .gt⟩ ∈ derivations (rulesFor standardTable) :=
  ⟨derived_lt rule ⟨[.nonterminal head], [], rfl⟩ (.second rule),
    derived_gt rule ⟨[], [.nonterminal head], rfl⟩
      (.second (List.mem_map_of_mem (f := Rule.reverse) rule))⟩

theorem statementRules_mem {rule : Rule String} (member : rule ∈ statementRules) :
    rule ∈ rulesFor standardTable :=
  List.mem_append_left _ (List.mem_append_left _ member)

theorem semicolon_rule : ⟨"insts", [.nonterminal "insts", .terminal ";", .nonterminal "insts"]⟩ ∈
    rulesFor standardTable :=
  statementRules_mem (by simp [statementRules])

theorem comma_rule : ⟨"exps", [.nonterminal "exps", .terminal ",", .nonterminal "exps"]⟩ ∈
    rulesFor standardTable :=
  List.mem_append_right _ (by simp [bracketRules])

section Checked

variable [Checked]

theorem part_rank {name : String} {i : Nat} (rank : (part name).rank? = some i) :
    ∃ level, standardTable.levels[i]? = some level ∧ name ∈ level.operators := by
  have listed : ∀ k, standardTable.levels.findIdx? (·.operators.contains name) = some k →
      ∃ level, standardTable.levels[k]? = some level ∧ name ∈ level.operators := by
    intro k found
    obtain ⟨bound, inside, -⟩ := List.findIdx?_eq_some_iff_getElem.mp found
    exact ⟨_, List.getElem?_eq_getElem bound, by simpa using inside⟩
  unfold part at rank
  split at rank
  · rename_i found
    exact Option.some.inj rank ▸ listed 0 found
  · rename_i found
    exact Option.some.inj rank ▸ listed 1 found
  · rename_i k found
    obtain ⟨level, here, -⟩ := listed _ found
    have bound : k + 2 < 10 := (List.getElem?_eq_some_iff.mp here).1
    have same : k + 2 = i := by
      have := Option.some.inj rank
      simp only [Fin.ofNat] at this
      omega
    exact same ▸ listed _ found
  · cases word : partOfWord.lookup name with
    | none =>
      rw [word] at rank
      exact nomatch rank
    | some kind =>
      obtain ⟨front, back, split, -⟩ := List.lookup_eq_some_iff.mp word
      rw [word, Option.getD_some, Checked.words (name, kind) (split ▸ by simp)] at rank
      exact nomatch rank

theorem table_find? {a b : String} {i j : Nat} (first : (part a).rank? = some i)
    (second : (part b).rank? = some j) :
    standardTable.relations.find? a b = some (tableRelation i j) := by
  obtain ⟨low, at_a, here⟩ := part_rank first
  obtain ⟨high, at_b, there⟩ := part_rank second
  rw [PrecedenceTable.relations_find? Checked.apart at_a at_b here there, tableRelation, at_a]
  rfl

/-! ### Rules of the operators -/

theorem operator_rule {name : String} {rank : Fin 8} (kind : part name = .operator rank) :
    ⟨"exp", operatorBody rank name⟩ ∈ rulesFor standardTable := by
  obtain ⟨level, here, inside⟩ := part_rank (show (part name).rank? = some (rank.val + 2) by
    rw [kind]; rfl)
  obtain ⟨plain, rule⟩ := Checked.bodies rank level here name inside
  refine List.mem_append_left _ (List.mem_append_right _ ?_)
  refine List.mem_flatMap.mpr ⟨level, List.mem_of_getElem? here, ?_⟩
  exact List.mem_map.mpr ⟨name, List.mem_filter.mpr ⟨inside, plain⟩, rule⟩

theorem operator_leads {name : String} {rank : Fin 8} (kind : part name = .operator rank) :
    Rules.Leads (rulesFor standardTable) "exp" name := by
  have rule := operator_rule kind
  unfold operatorBody at rule
  split_ifs at rule
  · exact .head rule
  · exact .second rule

theorem operator_trails {name : String} {rank : Fin 8} (kind : part name = .operator rank) :
    Rules.Leads ((rulesFor standardTable).map Rule.reverse) "exp" name := by
  have rule := List.mem_map_of_mem (f := Rule.reverse) (operator_rule kind)
  unfold operatorBody at rule
  split_ifs at rule <;> exact .second rule

theorem part_names : part ";" = .semicolon ∧ part "," = .comma ∧ part "do" = .opener ∧
    part "(" = .bracket ∧ part "then" = .consequence ∧ part "or" = .operator 0 ∧
    part "and" = .operator 1 ∧ part "=" = .operator 3 ∧ part "||" = .operator 4 ∧
    part "+" = .operator 5 ∧ part "*" = .operator 6 := by
  simpa using Checked.names

theorem eq_semicolon {name : String} (kind : part name = .semicolon) : name = ";" := by
  obtain ⟨level, here, inside⟩ := part_rank (show (part name).rank? = some 0 by rw [kind]; rfl)
  obtain rfl := Option.some.inj here
  simpa using inside

theorem eq_comma {name : String} (kind : part name = .comma) : name = "," := by
  obtain ⟨level, here, inside⟩ := part_rank (show (part name).rank? = some 1 by rw [kind]; rfl)
  obtain rfl := Option.some.inj here
  simpa using inside

/-- Terminals of parts that the rules relate in two ways are derived so. -/
theorem derived_of_isOpen {a b : String} (two : (part a).isOpen (part b)) :
    ⟨a, b, .lt⟩ ∈ derivations (rulesFor standardTable) ∧
      ⟨a, b, .gt⟩ ∈ derivations (rulesFor standardTable) := by
  obtain ⟨left, right⟩ | ⟨left, right⟩ | ⟨i, j, left, right, binary⟩ := Part.isOpen_cases two
  · rw [eq_semicolon left, eq_semicolon right]
    exact derived_twice semicolon_rule
  · rw [eq_comma left, eq_comma right]
    exact derived_twice comma_rule
  · constructor
    · refine derived_lt (n := "exp") (operator_rule left) ?_ (operator_leads right)
      unfold operatorBody
      split_ifs
      · exact ⟨[], [], rfl⟩
      · exact ⟨[.nonterminal "exp"], [], rfl⟩
    · refine derived_gt (n := "exp") (operator_rule right) ?_ (operator_trails left)
      rw [operatorBody, if_neg binary]
      exact ⟨[], [.nonterminal "exp"], rfl⟩

/-! ### Recorded relations -/

/-- The relations that the rules and the table give together. -/
def standardRecord : Record String :=
  recordAll standardTable.relations (derivations (rulesFor standardTable))

theorem derived_spaced {a b : String} {r : Relation}
    (derived : ⟨a, b, r⟩ ∈ derivations (rulesFor standardTable))
    (one : (part a).isOpen (part b) = false) :
    r.Spaced Levels.step (part a).sides.right (part b).sides.left :=
  (Checked.spaced _ (mem_derive_map Checked.parts Checked.firsts Checked.lasts
    derived)).resolve_left (by simpa using one)

theorem standardRecord_derived {a b : String} {r : Relation}
    (derived : ⟨a, b, r⟩ ∈ derivations (rulesFor standardTable))
    (one : (part a).isOpen (part b) = false) :
    standardRecord.relations.find? a b = some r := by
  have same : ∀ q ∈ relationsOf (derivations (rulesFor standardTable)) a b, q = r :=
    fun q member => Relation.Spaced.unique (by decide)
      (derived_spaced (mem_relationsOf.mp member) one) (derived_spaced derived one)
  rw [standardRecord, recordAll_find?]
  exact settle_of_same same (mem_relationsOf.mpr derived)

theorem standardRecord_table {a b : String} {i j : Nat} (two : (part a).isOpen (part b))
    (first : (part a).rank? = some i) (second : (part b).rank? = some j) :
    standardRecord.relations.find? a b = some (tableRelation i j) := by
  obtain ⟨below, above⟩ := derived_of_isOpen two
  rw [standardRecord, recordAll_find?, table_find? first second]
  exact settle_of_differ (mem_relationsOf.mpr below) (mem_relationsOf.mpr above) (by decide)

theorem standardRecord_spaced {a b : String} {r : Relation}
    (related : standardRecord.relations.find? a b = some r) :
    r.Spaced Levels.step (part a).sides.right (part b).sides.left := by
  cases two : (part a).isOpen (part b) with
  | false =>
    rw [standardRecord, recordAll_find?] at related
    obtain ⟨q, derived⟩ := exists_mem_of_settle related
    have kept := standardRecord_derived (mem_relationsOf.mp derived) two
    rw [standardRecord, recordAll_find?, related] at kept
    exact Option.some.inj kept ▸ derived_spaced (mem_relationsOf.mp derived) two
  | true =>
    obtain ⟨left, right⟩ | ⟨left, right⟩ | ⟨i, j, left, right, binary⟩ := Part.isOpen_cases two
    · rw [standardRecord_table (i := 0) (j := 0) two (by rw [left]; rfl) (by rw [right]; rfl)]
        at related
      obtain rfl := Option.some.inj related
      rw [left, right]
      decide
    · rw [standardRecord_table (i := 1) (j := 1) two (by rw [left]; rfl) (by rw [right]; rfl)]
        at related
      obtain rfl := Option.some.inj related
      rw [left, right]
      decide
    · rw [standardRecord_table (i := i + 2) (j := j + 2) two (by rw [left]; rfl)
        (by rw [right]; rfl)] at related
      obtain rfl := Option.some.inj related
      rw [left, right]
      exact Checked.operators i j binary

theorem standardRecord_conflicts : standardRecord.conflicts = [] := by
  refine recordAll_conflicts fun a b r q first second differ => ?_
  cases two : (part a).isOpen (part b) with
  | false =>
    exact absurd (Relation.Spaced.unique (by decide) (derived_spaced first two)
      (derived_spaced second two)) differ
  | true =>
    obtain ⟨left, right⟩ | ⟨left, right⟩ | ⟨i, j, left, right, -⟩ := Part.isOpen_cases two
    · simp [table_find? (i := 0) (j := 0) (by rw [left]; rfl) (by rw [right]; rfl)]
    · simp [table_find? (i := 1) (j := 1) (by rw [left]; rfl) (by rw [right]; rfl)]
    · simp [table_find? (i := i + 2) (j := j + 2) (by rw [left]; rfl) (by rw [right]; rfl)]

/-! ### Levels -/

theorem standard_satisfied : Levels.Satisfies Levels.step standardTerminals
    standardRecord.relations (fun t => (part t).sides.left) (fun t => (part t).sides.right) :=
  fun _ _ _ _ _ related => standardRecord_spaced
    ((recordAll_sorted standardTable.relations _).mem_toList.mp related)

theorem exists_standardSides : ∃ d, Levels.solve standardTerminals standardRecord.relations = .ok d :=
  Levels.solve_complete standard_satisfied fun t _ => (part t).sides_small

theorem mem_standardTerminals {name head : String} {body : List (Symbol String)}
    (rule : ⟨head, body⟩ ∈ rulesFor standardTable) (inside : .terminal name ∈ body) :
    name ∈ standardTerminals :=
  Checked.terminals ▸ Rules.mem_terminals.mpr ⟨_, rule, inside⟩

theorem operator_mem {name : String} {rank : Fin 8} (kind : part name = .operator rank) :
    name ∈ standardTerminals := by
  refine mem_standardTerminals (operator_rule kind) ?_
  unfold operatorBody
  split_ifs <;> simp

def leftOf (d : Dict String Levels.Sides) (name : String) : Nat :=
  ((d.find? name).getD default).left

def rightOf (d : Dict String Levels.Sides) (name : String) : Nat :=
  ((d.find? name).getD default).right

section Solution

variable {d : Dict String Levels.Sides}
  (solved : Levels.solve standardTerminals standardRecord.relations = .ok d)

include solved

omit [Checked] in
theorem solved_spaced {a b : String} {r : Relation} (first : a ∈ standardTerminals)
    (second : b ∈ standardTerminals) (related : standardRecord.relations.find? a b = some r) :
    r.Spaced Levels.step (rightOf d a) (leftOf d b) := by
  obtain ⟨s, at_a⟩ := (Levels.exists_solve_find? solved).mpr first
  obtain ⟨t, at_b⟩ := (Levels.exists_solve_find? solved).mpr second
  rw [rightOf, leftOf, at_a, at_b]
  exact Levels.solve_satisfies solved
    ((recordAll_sorted standardTable.relations _).mem_toList.mpr related) at_a at_b

theorem solved_le {name : String} (listed : name ∈ standardTerminals) :
    leftOf d name ≤ (part name).sides.left ∧ rightOf d name ≤ (part name).sides.right := by
  obtain ⟨s, found⟩ := (Levels.exists_solve_find? solved).mpr listed
  rw [leftOf, rightOf, found]
  exact Levels.solve_least solved standard_satisfied found

theorem operators_solved {a b : String} {i j : Fin 8} (left : part a = .operator i)
    (right : part b = .operator j) (binary : j ≠ 2) :
    (tableRelation (i + 2) (j + 2)).Spaced Levels.step (rightOf d a) (leftOf d b) :=
  solved_spaced solved (operator_mem left) (operator_mem right) (standardRecord_table
    (by rw [left, right]; simpa [Part.isOpen] using binary) (by rw [left]; rfl) (by rw [right]; rfl))

/-- The levels of a name that separates the elements of a list between brackets. -/
theorem separator_solved {head o n c a : String} {rank : Nat}
    (around : ⟨head, [.terminal o, .nonterminal n, .terminal c]⟩ ∈ rulesFor standardTable)
    (list : ⟨n, [.nonterminal n, .terminal a, .nonterminal n]⟩ ∈ rulesFor standardTable)
    (outside : (part o).isOpen (part a) = false) (twice : (part a).isOpen (part a))
    (place : (part a).rank? = some rank) (both : tableRelation rank rank = .eq) :
    10 ≤ leftOf d a ∧ 10 ≤ rightOf d a := by
  have listed : a ∈ standardTerminals := mem_standardTerminals list (by simp)
  have low : rightOf d o + 10 ≤ leftOf d a :=
    solved_spaced solved (mem_standardTerminals around (by simp)) listed
      (standardRecord_derived (derived_lt around ⟨[], [.terminal c], rfl⟩ (.second list)) outside)
  have same := solved_spaced solved listed listed (standardRecord_table twice place place)
  rw [both] at same
  exact ⟨by omega, same ▸ by omega⟩

theorem semicolon_solved : 10 ≤ leftOf d ";" ∧ 10 ≤ rightOf d ";" := by
  obtain ⟨semicolon, -, word, -⟩ := part_names
  have around : ⟨"inst", [.terminal "do", .nonterminal "insts", .terminal "end"]⟩ ∈
      rulesFor standardTable := statementRules_mem (by simp [statementRules, groupWords])
  exact separator_solved solved around semicolon_rule (by rw [word]; rfl) (by rw [semicolon]; rfl)
    (by rw [semicolon]; rfl) rfl

theorem comma_solved : 10 ≤ leftOf d "," ∧ 10 ≤ rightOf d "," := by
  obtain ⟨-, comma, -, bracket, -⟩ := part_names
  have around : ⟨"exp", [.terminal "(", .nonterminal "exps", .terminal ")"]⟩ ∈
      rulesFor standardTable := List.mem_append_right _ (by simp [bracketRules])
  exact separator_solved solved around comma_rule (by rw [bracket]; rfl) (by rw [comma]; rfl)
    (by rw [comma]; rfl) rfl

/-- A word before the last nonterminal of a statement binds more tightly than a semicolon. -/
theorem lead_solved {name : String} (listed : name ∈ standardTerminals)
    (kind : part name = .lead ∨ part name = .consequence) : 20 ≤ rightOf d name := by
  obtain ⟨⟨head, body⟩, rule, ends⟩ := Checked.leads name listed kind
  have outside : (part name).isOpen (part ";") = false := by
    obtain lead | consequence := kind
    · rw [lead]; rfl
    · rw [consequence]; rfl
  have single : ⟨"insts", [.nonterminal "inst"]⟩ ∈ rulesFor standardTable :=
    statementRules_mem (by simp [statementRules])
  have trails : Rules.Leads ((rulesFor standardTable).map Rule.reverse) "insts" name := by
    refine .through (List.mem_map_of_mem (f := Rule.reverse) single) ?_
    have reversed := List.mem_map_of_mem (f := Rule.reverse) rule
    unfold endsWithLead at ends
    split at ends
    · rename_i shape
      simp only [Bool.and_eq_true, decide_eq_true_eq] at ends
      rw [Rule.reverse, shape, ends.1, ends.2] at reversed
      exact .second reversed
    · cases ends
  have above : leftOf d ";" + 10 ≤ rightOf d name :=
    solved_spaced solved listed (mem_standardTerminals semicolon_rule (by simp))
      (standardRecord_derived (derived_gt semicolon_rule ⟨[], [.nonterminal "insts"], rfl⟩ trails)
        outside)
  have := (semicolon_solved solved).1
  omega

/-- The loosest operators bind more tightly than the word before a statement. -/
theorem loosest_solved {name : String} (kind : part name = .operator 0) :
    30 ≤ leftOf d name := by
  have single : ⟨"inst", [.nonterminal "exp"]⟩ ∈ rulesFor standardTable :=
    statementRules_mem (by simp [statementRules])
  have rule : ⟨"inst", [.terminal "if", .nonterminal "exp", .terminal "then",
      .nonterminal "inst"]⟩ ∈ rulesFor standardTable := statementRules_mem (by simp [statementRules])
  have listed : "then" ∈ standardTerminals := mem_standardTerminals rule (by simp)
  obtain ⟨-, -, -, -, word, -⟩ := part_names
  have related := standardRecord_derived
    (derived_lt rule ⟨[.terminal "if", .nonterminal "exp"], [], rfl⟩
      (.through single (operator_leads kind)))
    (by rw [kind, word]; rfl)
  have above : rightOf d "then" + 10 ≤ leftOf d name :=
    solved_spaced solved listed (operator_mem kind) related
  have := lead_solved solved listed (Or.inr word)
  omega

/-- An operator binds more tightly than those of a looser level. -/
theorem above_looser {looser name : String} {i j : Fin 8} (first : part looser = .operator i)
    (second : part name = .operator j) (binary : j ≠ 2) (below : i < j) :
    rightOf d looser + 10 ≤ leftOf d name := by
  have spaced := operators_solved solved first second binary
  rwa [tableRelation, if_pos (by omega)] at spaced

/-- An operator before one of a looser level takes what stands between them. -/
theorem before_looser {looser name : String} {i j : Fin 8} (first : part looser = .operator i)
    (second : part name = .operator j) (binary : i ≠ 2) (below : i < j) :
    leftOf d looser + 10 ≤ rightOf d name := by
  have spaced := operators_solved solved second first binary
  rwa [tableRelation, if_neg (by omega), if_pos (by omega)] at spaced

/-- The levels of the operators, each from the operators of a level before. -/
theorem operator_solved {name : String} {rank : Fin 8} (kind : part name = .operator rank) :
    (rank ≠ 2 → (part name).sides.left ≤ leftOf d name) ∧
      (part name).sides.right ≤ rightOf d name := by
  obtain ⟨-, -, -, -, -, or_, and_, equal, join, plus, times⟩ := part_names
  -- within a level that associates to the left, and one that associates both ways
  have leftward : ∀ {x : String} {i : Fin 8}, part x = .operator i → i ≠ 2 →
      tableRelation (i + 2) (i + 2) = .gt → leftOf d x + 10 ≤ rightOf d x :=
    fun kind binary gt => by
      simpa [gt, Relation.Spaced, Levels.step] using operators_solved solved kind kind binary
  have both : ∀ {x : String} {i : Fin 8}, part x = .operator i → i ≠ 2 →
      tableRelation (i + 2) (i + 2) = .eq → rightOf d x = leftOf d x :=
    fun kind binary eq => by
      simpa [eq, Relation.Spaced] using operators_solved solved kind kind binary
  have := loosest_solved solved or_
  have := leftward or_ (by decide) rfl
  have := above_looser solved or_ and_ (by decide) (by decide)
  have := leftward and_ (by decide) rfl
  have := above_looser solved and_ equal (by decide) (by decide)
  have := leftward equal (by decide) rfl
  have := above_looser solved equal join (by decide) (by decide)
  have := leftward join (by decide) rfl
  have := above_looser solved join plus (by decide) (by decide)
  have := both plus (by decide) rfl
  have := above_looser solved plus times (by decide) (by decide)
  rw [kind]
  fin_cases rank
  · have := loosest_solved solved kind
    have := leftward kind (by decide) rfl
    simp only [Part.sides]
    omega
  · have := above_looser solved or_ kind (by decide) (by decide)
    have := leftward kind (by decide) rfl
    simp only [Part.sides]
    omega
  · have := before_looser solved and_ kind (by decide) (by decide)
    refine ⟨fun binary => absurd rfl binary, ?_⟩
    simp only [Part.sides]
    omega
  · have := above_looser solved and_ kind (by decide) (by decide)
    have := leftward kind (by decide) rfl
    simp only [Part.sides]
    omega
  · have := above_looser solved equal kind (by decide) (by decide)
    have := leftward kind (by decide) rfl
    simp only [Part.sides]
    omega
  · have := above_looser solved join kind (by decide) (by decide)
    have := both kind (by decide) rfl
    simp only [Part.sides]
    omega
  · have := above_looser solved plus kind (by decide) (by decide)
    have := both kind (by decide) rfl
    simp only [Part.sides]
    omega
  · have := before_looser solved times kind (by decide) (by decide)
    have rightward : rightOf d name + 10 ≤ leftOf d name :=
      operators_solved solved kind kind (by decide)
    simp only [Part.sides]
    omega

end Solution

theorem solved_eq {d : Dict String Levels.Sides}
    (solved : Levels.solve standardTerminals standardRecord.relations = .ok d) {name : String}
    (listed : name ∈ standardTerminals) :
    ((part name).opens = false → leftOf d name = (part name).sides.left) ∧
      ((part name).closes = false → rightOf d name = (part name).sides.right) := by
  obtain ⟨left, right⟩ := solved_le solved listed
  suffices lower : ((part name).opens = false → (part name).sides.left ≤ leftOf d name) ∧
      ((part name).closes = false → (part name).sides.right ≤ rightOf d name) from
    ⟨fun exposed => Nat.le_antisymm left (lower.1 exposed),
      fun exposed => Nat.le_antisymm right (lower.2 exposed)⟩
  cases kind : part name with
  | statements | statement | expression | arguments => simp [Part.sides]
  | opener | condition | bracket => simp [Part.opens, Part.sides]
  | closer | bracketEnd => simp [Part.closes, Part.sides]
  | semicolon =>
    obtain rfl := eq_semicolon kind
    exact ⟨fun _ => (semicolon_solved solved).1, fun _ => (semicolon_solved solved).2⟩
  | comma =>
    obtain rfl := eq_comma kind
    exact ⟨fun _ => (comma_solved solved).1, fun _ => (comma_solved solved).2⟩
  | consequence => exact ⟨fun _ => Nat.zero_le _, fun _ => lead_solved solved listed (Or.inr kind)⟩
  | lead => exact ⟨fun exposed => (nomatch exposed), fun _ => lead_solved solved listed (Or.inl kind)⟩
  | operator rank =>
    have bounds := operator_solved solved kind
    rw [kind] at bounds
    refine ⟨fun exposed => bounds.1 fun unary => ?_, fun _ => bounds.2⟩
    rw [unary] at exposed
    exact nomatch exposed

theorem standardLevels_sorted : standardLevels.Sorted := by
  unfold Dict.Sorted
  rw [Checked.levels, List.pairwise_map, ← Checked.terminals]
  exact Ascending.ofList_sorted _

theorem standardLevels_find? (name : String) :
    standardLevels.find? name =
      if name ∈ standardTerminals then some (part name).levels else none := by
  rw [Dict.find?, Checked.levels]
  induction standardTerminals with
  | nil => rfl
  | cons first rest ih => grind

end Checked

instance : Checked where
  separate := by decide +kernel
  terminals := by decide +kernel
  parts := by decide +kernel
  firsts := by decide +kernel
  lasts := by decide +kernel
  spaced := by decide +kernel
  operators := by decide +kernel
  apart := by decide +kernel
  words := by decide +kernel
  bodies := by decide +kernel
  leads := by decide +kernel
  edges := by decide +kernel
  levels := by decide +kernel
  names := by decide +kernel

/-- The rules and the table of the language give these levels, and no pair is left open. -/
theorem standard_eq : standard = .ok ⟨standardLevels, []⟩ := by
  obtain ⟨d, solved⟩ := exists_standardSides
  have levels : d.mapValues (exposed (openers (rulesFor standardTable))
      (closers (rulesFor standardTable))) = standardLevels := by
    refine Dict.Sorted.ext ((Levels.solve_sorted solved).mapValues _) standardLevels_sorted
      fun name => ?_
    rw [Dict.find?_mapValues, standardLevels_find?]
    split_ifs with listed
    · obtain ⟨s, found⟩ := (Levels.exists_solve_find? solved).mpr listed
      obtain ⟨opens, closes⟩ := Checked.edges name listed
      obtain ⟨left, right⟩ := solved_eq solved listed
      rw [leftOf, found] at left
      rw [rightOf, found] at right
      rw [found, Option.map_some, exposed, opens, closes, Part.levels]
      cases first : (part name).opens <;> cases last : (part name).closes <;>
        simp_all only [Bool.false_eq_true, if_false, if_true, forall_const, Option.getD_some]
    · cases found : d.find? name with
      | none => rfl
      | some s => exact absurd ((Levels.exists_solve_find? solved).mp ⟨s, found⟩) listed
  have built := build_eq_ok Checked.separate (Checked.terminals ▸ solved)
  rw [levels] at built
  have conflicts := standardRecord_conflicts
  rw [standardRecord] at conflicts
  rwa [conflicts] at built

end SasLayout.Grammar
