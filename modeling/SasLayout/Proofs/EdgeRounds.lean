import Mathlib.Data.String.Basic
import SasLayout.Proofs.EdgeSets

set_option autoImplicit false

/-!
The rounds in which the edge sets grow. A round that adds no terminal to a set leaves the sets as
they are, since they are kept in order, and so the rounds end by themselves, before their limit is
met. The sets that they end with are the least that the rules ask for, seen from either end.
-/
namespace SasLayout.Rules

variable {τ : Type} {rules : List (Rule τ)} {n t : τ}

/-! ### From the right end -/

/-- The rules put the terminal last in what the nonterminal derives. -/
inductive Trails (rules : List (Rule τ)) : τ → τ → Prop where
  | last {n t : τ} {rest : List (Symbol τ)} (rule : ⟨n, rest ++ [.terminal t]⟩ ∈ rules) :
      Trails rules n t
  | second {n m t : τ} {rest : List (Symbol τ)}
      (rule : ⟨n, rest ++ [.terminal t, .nonterminal m]⟩ ∈ rules) : Trails rules n t
  | through {n m t : τ} {rest : List (Symbol τ)} (rule : ⟨n, rest ++ [.nonterminal m]⟩ ∈ rules)
      (inner : Trails rules m t) : Trails rules n t

theorem mem_map_reverse {body : List (Symbol τ)} :
    ⟨n, body⟩ ∈ rules.map Rule.reverse ↔ ⟨n, body.reverse⟩ ∈ rules := by
  constructor
  · intro listed
    obtain ⟨rule, original, same⟩ := List.mem_map.mp listed
    cases same
    rw [List.reverse_reverse]
    exact original
  · intro listed
    exact List.mem_map.mpr ⟨_, listed, by rw [Rule.reverse, List.reverse_reverse]⟩

theorem leads_reverse_iff : Leads (rules.map Rule.reverse) n t ↔ Trails rules n t := by
  constructor
  · intro leads
    induction leads with
    | head rule =>
      rw [mem_map_reverse, List.reverse_cons] at rule
      exact .last rule
    | second rule =>
      rw [mem_map_reverse, List.reverse_cons, List.reverse_cons, List.append_assoc] at rule
      exact .second rule
    | through rule _ ih =>
      rw [mem_map_reverse, List.reverse_cons] at rule
      exact .through rule ih
  · intro trails
    induction trails with
    | @last n t rest rule =>
      have reversed : ⟨n, .terminal t :: rest.reverse⟩ ∈ rules.map Rule.reverse := by
        rw [mem_map_reverse, List.reverse_cons, List.reverse_reverse]
        exact rule
      exact .head reversed
    | @second n m t rest rule =>
      have reversed : ⟨n, .nonterminal m :: .terminal t :: rest.reverse⟩ ∈
          rules.map Rule.reverse := by
        rw [mem_map_reverse, List.reverse_cons, List.reverse_cons, List.reverse_reverse,
          List.append_assoc]
        exact rule
      exact .second reversed
    | @through n m t rest rule _ ih =>
      have reversed : ⟨n, .nonterminal m :: rest.reverse⟩ ∈ rules.map Rule.reverse := by
        rw [mem_map_reverse, List.reverse_cons, List.reverse_reverse]
        exact rule
      exact .through reversed ih

variable [DecidableEq τ] [LT τ] [DecidableLT τ] {sets : EdgeSets τ} {rule : Rule τ}

theorem emptySets_map_reverse (rules : List (Rule τ)) :
    emptySets (rules.map Rule.reverse) = emptySets rules := by
  unfold emptySets
  rw [List.foldl_map]
  rfl

/-! ### Rounds -/

/-- The number of rounds from some sets to those that they end with: the round in which no set gains a
terminal is the last. -/
inductive Settles (rules : List (Rule τ)) : EdgeSets τ → Nat → EdgeSets τ → Prop where
  | still {sets : EdgeSets τ} (same : Within (rules.foldl extend sets) sets) :
      Settles rules sets 1 (rules.foldl extend sets)
  | grown {sets result : EdgeSets τ} {rounds : Nat}
      (more : ¬ Within (rules.foldl extend sets) sets)
      (later : Settles rules (rules.foldl extend sets) rounds result) :
      Settles rules sets (rounds + 1) result

/-! ### Sets in order -/

theorem contains_extend :
    (extend sets rule).contains n = true ↔ n = rule.head ∨ sets.contains n = true := by
  unfold extend Dict.contains
  rw [Dict.find?_insert]
  split_ifs with same
  · simp [same]
  · simp [same]

theorem contains_emptySets :
    (emptySets rules).contains n = true ↔ n ∈ rules.map (·.head) := by
  have grown : ∀ sets : EdgeSets τ,
      (rules.foldl (fun sets rule => sets.insert rule.head []) sets).contains n = true ↔
        sets.contains n = true ∨ n ∈ rules.map (·.head) := by
    induction rules with
    | nil => simp
    | cons rule rest ih =>
      intro sets
      rw [List.foldl_cons, ih, List.map_cons, List.mem_cons, Dict.contains, Dict.contains,
        Dict.find?_insert]
      split_ifs with same
      · simp [same]
      · simp [same]
  rw [emptySets, grown, Dict.contains, Dict.find?_empty]
  simp

/-- Sets in ascending order, one for each nonterminal that has rules. -/
structure Formed (rules : List (Rule τ)) (sets : EdgeSets τ) : Prop where
  sorted : sets.Sorted
  heads : ∀ n, sets.contains n = true ↔ n ∈ rules.map (·.head)
  ascending : ∀ n, (held sets n).Pairwise (· < ·)

variable [IsStrictTotalOrder τ (· < ·)]

theorem Formed.empty (rules : List (Rule τ)) : Formed rules (emptySets rules) := by
  refine ⟨?_, fun n => contains_emptySets, fun n => ?_⟩
  · exact List.foldlRecOn rules _ Dict.Sorted.empty fun _ sorted rule _ => sorted.insert rule.head []
  · rw [held_emptySets]
    exact List.Pairwise.nil

theorem Formed.leading (formed : Formed rules sets) (body : List (Symbol τ)) :
    (leading sets body).Pairwise (· < ·) := by
  unfold Rules.leading
  split
  · exact List.pairwise_singleton _ _
  · exact Ascending.insert_sorted (formed.ascending _) _
  · exact formed.ascending _
  · exact List.Pairwise.nil

theorem Formed.extend (formed : Formed rules sets) (listed : rule ∈ rules) :
    Formed rules (extend sets rule) := by
  refine ⟨formed.sorted.insert _ _, fun n => ?_, fun n => ?_⟩
  · rw [contains_extend, formed.heads, or_iff_right_of_imp]
    rintro rfl
    exact List.mem_map_of_mem listed
  · rw [held_extend]
    split_ifs
    · exact Ascending.union_sorted (formed.ascending n) (formed.leading rule.body)
    · exact formed.ascending n

theorem Formed.round (formed : Formed rules sets) : Formed rules (rules.foldl Rules.extend sets) :=
  List.foldlRecOn rules _ formed fun _ kept _ listed => kept.extend listed

/-- A rule whose terminals are all there leaves sets in order as they are. -/
theorem Closed.extend_eq (closed : Closed rules sets) (formed : Formed rules sets)
    (listed : rule ∈ rules) : extend sets rule = sets := by
  refine (formed.sorted.insert _ _).ext formed.sorted fun n => ?_
  rw [Dict.find?_insert]
  split_ifs with same
  · have key := (formed.heads rule.head).mpr (List.mem_map_of_mem listed)
    obtain ⟨set, found⟩ := Option.isSome_iff_exists.mp key
    have holds : held sets rule.head = set := by rw [held, found, Option.getD_some]
    rw [same, held_def, holds, found, Option.some.injEq]
    have ascending := formed.ascending rule.head
    rw [holds] at ascending
    apply eq_of_ascending id (Ascending.union_sorted ascending (formed.leading _)) ascending
    intro t
    rw [Ascending.mem_union, or_iff_left_of_imp]
    intro asked
    rw [← holds]
    exact closed rule listed t asked
  · rfl

/-- A round that adds nothing to the sets leaves them as they are. -/
theorem Formed.round_eq (formed : Formed rules sets)
    (still : Within (rules.foldl Rules.extend sets) sets) :
    rules.foldl Rules.extend sets = sets := by
  have closed := Closed.of_round still
  exact List.foldlRecOn (motive := (· = sets)) rules _ rfl fun grown same rule listed =>
    same ▸ closed.extend_eq formed listed

/-! ### The rounds end -/

theorem Formed.settles (formed : Formed rules sets) (derived : Derived rules sets) {limit : Nat}
    (enough : rules.length * (terminals rules).length < filled rules sets + limit) :
    ∃ rounds ≤ limit, Settles rules sets rounds (saturate rules limit sets) := by
  induction limit generalizing sets with
  | zero =>
    have := filled_le rules sets
    omega
  | succ limit ih =>
    by_cases still : Within (rules.foldl Rules.extend sets) sets
    · have same := formed.round_eq still
      have last := Settles.still still
      rw [same] at last
      rw [saturate, if_pos same]
      exact ⟨1, by omega, last⟩
    · have changed : rules.foldl Rules.extend sets ≠ sets := by
        intro same
        apply still
        rw [same]
        exact fun n t member => member
      have := filled_lt_round derived still
      obtain ⟨rounds, within, settles⟩ := ih formed.round derived.round (by omega)
      rw [saturate, if_neg changed]
      exact ⟨rounds + 1, by omega, .grown still settles⟩

theorem Settles.formed {result : EdgeSets τ} {rounds : Nat}
    (settles : Settles rules sets rounds result) (formed : Formed rules sets) :
    Formed rules result := by
  induction settles with
  | still => exact formed.round
  | grown _ _ ih => exact ih formed.round

theorem firstSets_settles (rules : List (Rule τ)) :
    ∃ rounds ≤ rules.length * (terminals rules).length + 1,
      Settles rules (emptySets rules) rounds (firstSets rules) :=
  (Formed.empty rules).settles (derived_emptySets rules) (by omega)

theorem contains_firstSets :
    (firstSets rules).contains n = true ↔ n ∈ rules.map (·.head) := by
  obtain ⟨rounds, -, settles⟩ := firstSets_settles rules
  exact (settles.formed (.empty rules)).heads n

/-- The rounds over the rules of whatever grammar end by themselves. The nonterminals with rules have
sets then, and a terminal is in a set exactly when the rules put it first. From the other end the
same holds of the reversed rules. -/
theorem edgeSets_least (rules : List (Rule String)) :
    (∃ rounds ≤ rules.length * (terminals rules).length + 1,
      Settles rules (emptySets rules) rounds (firstSets rules)) ∧
    (∀ n, (firstSets rules).contains n = true ↔ ∃ rule ∈ rules, rule.head = n) ∧
    (∀ n t, t ∈ held (firstSets rules) n ↔ Leads rules n t) ∧
    lastSets rules = firstSets (rules.map Rule.reverse) ∧
    (∃ rounds, Settles (rules.map Rule.reverse) (emptySets rules) rounds (lastSets rules)) ∧
    (∀ n, (lastSets rules).contains n = true ↔ ∃ rule ∈ rules, rule.head = n) ∧
    ∀ n t, t ∈ held (lastSets rules) n ↔ Trails rules n t := by
  refine ⟨firstSets_settles rules, fun n => ?_, fun n t => mem_firstSets, rfl, ?_, fun n => ?_,
    fun n t => ?_⟩
  · rw [contains_firstSets, List.mem_map]
  · obtain ⟨rounds, -, settles⟩ := firstSets_settles (rules.map Rule.reverse)
    rw [emptySets_map_reverse] at settles
    exact ⟨rounds, settles⟩
  · rw [lastSets, contains_firstSets, List.map_map, List.mem_map]
    rfl
  · rw [mem_lastSets, leads_reverse_iff]

end SasLayout.Rules
