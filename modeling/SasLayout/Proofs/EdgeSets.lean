import Mathlib.Data.List.ProdSigma
import SasLayout.Grammar.Rules
import SasLayout.Proofs.Dictionary

set_option autoImplicit false

/-!
The terminals that can come first in what a nonterminal derives are the least sets that the rules
ask for. Each round but the last adds a terminal to a set, so the rounds suffice.
-/
namespace SasLayout.Rules

variable {τ : Type}

/-- The rules put the terminal first in what the nonterminal derives. -/
inductive Leads (rules : List (Rule τ)) : τ → τ → Prop where
  | head {n t : τ} {rest : List (Symbol τ)} (rule : ⟨n, .terminal t :: rest⟩ ∈ rules) :
      Leads rules n t
  | second {n m t : τ} {rest : List (Symbol τ)}
      (rule : ⟨n, .nonterminal m :: .terminal t :: rest⟩ ∈ rules) : Leads rules n t
  | through {n m t : τ} {rest : List (Symbol τ)} (rule : ⟨n, .nonterminal m :: rest⟩ ∈ rules)
      (inner : Leads rules m t) : Leads rules n t

theorem Leads.mem_heads {rules : List (Rule τ)} {n t : τ} (leads : Leads rules n t) :
    n ∈ rules.map (·.head) := by
  cases leads <;> exact List.mem_map.mpr ⟨_, ‹_›, rfl⟩

variable [DecidableEq τ] [LT τ] [DecidableLT τ]

theorem mem_terminals {rules : List (Rule τ)} {t : τ} :
    t ∈ terminals rules ↔ ∃ rule ∈ rules, .terminal t ∈ rule.body := by
  unfold terminals
  rw [Ascending.mem_ofList]
  simp only [List.mem_filterMap, List.mem_flatMap]
  constructor
  · rintro ⟨symbol, ⟨rule, member, inside⟩, found⟩
    cases symbol with
    | terminal name =>
      obtain rfl := Option.some.inj found
      exact ⟨rule, member, inside⟩
    | nonterminal name => exact nomatch found
  · rintro ⟨rule, member, inside⟩
    exact ⟨_, ⟨rule, member, inside⟩, rfl⟩

theorem Leads.mem_terminals {rules : List (Rule τ)} {n t : τ} (leads : Leads rules n t) :
    t ∈ terminals rules := by
  induction leads with
  | head rule => exact Rules.mem_terminals.mpr ⟨_, rule, by simp⟩
  | second rule => exact Rules.mem_terminals.mpr ⟨_, rule, by simp⟩
  | through _ _ ih => exact ih

/-- The set of a nonterminal. -/
def held (sets : EdgeSets τ) (n : τ) : List τ :=
  (sets.find? n).getD []

omit [LT τ] [DecidableLT τ] in
theorem held_def (sets : EdgeSets τ) (n : τ) : (sets.find? n).getD [] = held sets n := rfl

theorem mem_leading {sets : EdgeSets τ} {body : List (Symbol τ)} {t : τ} :
    t ∈ leading sets body ↔
      (∃ rest, body = .terminal t :: rest) ∨
        ∃ m rest, body = .nonterminal m :: rest ∧
          (t ∈ held sets m ∨ ∃ more, rest = .terminal t :: more) := by
  unfold leading
  split
  · simp only [List.mem_singleton, List.cons.injEq, Symbol.terminal.injEq, reduceCtorEq]
    grind
  · rw [Ascending.mem_insert, held_def]
    constructor
    · rintro (rfl | inner)
      · exact Or.inr ⟨_, _, rfl, Or.inr ⟨_, rfl⟩⟩
      · exact Or.inr ⟨_, _, rfl, Or.inl inner⟩
    · rintro (⟨_, shape⟩ | ⟨_, _, shape, inner | ⟨_, rfl⟩⟩)
      · exact nomatch shape
      · cases shape
        exact Or.inr inner
      · cases shape
        exact Or.inl rfl
  · rename_i later
    rw [held_def]
    constructor
    · exact fun inner => Or.inr ⟨_, _, rfl, Or.inl inner⟩
    · rintro (⟨_, shape⟩ | ⟨_, _, shape, inner | ⟨_, rfl⟩⟩)
      · exact nomatch shape
      · cases shape
        exact inner
      · cases shape
        exact absurd rfl (later _ _)
  · simp

theorem held_extend {sets : EdgeSets τ} {rule : Rule τ} {n : τ} :
    held (extend sets rule) n =
      if n = rule.head then Ascending.union (held sets n) (leading sets rule.body)
      else held sets n := by
  unfold held extend
  rw [Dict.find?_insert]
  split_ifs with same
  · rw [same, Option.getD_some]
  · rfl

theorem mem_held_extend {sets : EdgeSets τ} {rule : Rule τ} {n t : τ} :
    t ∈ held (extend sets rule) n ↔
      t ∈ held sets n ∨ n = rule.head ∧ t ∈ leading sets rule.body := by
  rw [held_extend]
  split_ifs with same
  · rw [Ascending.mem_union, and_iff_right same]
  · simp [same]

/-! ### Rounds -/

/-- Every set of the first is part of that of the second. -/
def Within (sets larger : EdgeSets τ) : Prop :=
  ∀ n t, t ∈ held sets n → t ∈ held larger n

theorem leading_within {sets larger : EdgeSets τ} (within : Within sets larger)
    {body : List (Symbol τ)} {t : τ} (member : t ∈ leading sets body) : t ∈ leading larger body := by
  rw [mem_leading] at member ⊢
  obtain first | ⟨m, rest, shape, inner | next⟩ := member
  · exact Or.inl first
  · exact Or.inr ⟨m, rest, shape, Or.inl (within m t inner)⟩
  · exact Or.inr ⟨m, rest, shape, Or.inr next⟩

theorem within_round (rules : List (Rule τ)) (sets : EdgeSets τ) :
    Within sets (rules.foldl extend sets) := by
  induction rules generalizing sets with
  | nil => exact fun _ _ member => member
  | cons rule rest ih =>
    exact fun n t member => ih (extend sets rule) n t (mem_held_extend.mpr (Or.inl member))

theorem leading_round {rules : List (Rule τ)} {sets : EdgeSets τ} {rule : Rule τ} {t : τ}
    (asked : rule ∈ rules) (member : t ∈ leading sets rule.body) :
    t ∈ held (rules.foldl extend sets) rule.head := by
  induction rules generalizing sets with
  | nil => exact nomatch asked
  | cons first rest ih =>
    obtain rfl | later := List.mem_cons.mp asked
    · exact within_round rest _ _ _ (mem_held_extend.mpr (Or.inr ⟨rfl, member⟩))
    · exact ih later (leading_within (fun n t old => mem_held_extend.mpr (Or.inl old)) member)

/-- The sets hold only what the rules derive. -/
def Derived (rules : List (Rule τ)) (sets : EdgeSets τ) : Prop :=
  ∀ n t, t ∈ held sets n → Leads rules n t

theorem Derived.leads {rules : List (Rule τ)} {sets : EdgeSets τ} (derived : Derived rules sets)
    {rule : Rule τ} (member : rule ∈ rules) {t : τ} (leading : t ∈ leading sets rule.body) :
    Leads rules rule.head t := by
  obtain ⟨n, body⟩ := rule
  obtain ⟨rest, rfl⟩ | ⟨m, rest, rfl, inner | ⟨more, rfl⟩⟩ := mem_leading.mp leading
  · exact .head member
  · exact .through member (derived m t inner)
  · exact .second member

theorem Derived.round {rules : List (Rule τ)} {sets : EdgeSets τ} (derived : Derived rules sets) :
    Derived rules (rules.foldl extend sets) := by
  suffices kept : ∀ some_rules : List (Rule τ), (∀ rule ∈ some_rules, rule ∈ rules) →
      ∀ sets, Derived rules sets → Derived rules (some_rules.foldl extend sets) from
    kept rules (fun _ member => member) sets derived
  intro some_rules
  induction some_rules with
  | nil => exact fun _ _ derived => derived
  | cons rule rest ih =>
    intro members sets derived
    refine ih (fun r later => members r (List.mem_cons_of_mem _ later)) _ fun n t member => ?_
    obtain old | ⟨rfl, new⟩ := mem_held_extend.mp member
    · exact derived n t old
    · exact derived.leads (members rule List.mem_cons_self) new

/-- The sets hold what the rules ask for, given what they hold. -/
def Closed (rules : List (Rule τ)) (sets : EdgeSets τ) : Prop :=
  ∀ rule ∈ rules, ∀ t ∈ leading sets rule.body, t ∈ held sets rule.head

instance (rules : List (Rule τ)) (sets : EdgeSets τ) : Decidable (Closed rules sets) :=
  inferInstanceAs (Decidable (∀ rule ∈ rules, ∀ t ∈ leading sets rule.body, t ∈ held sets rule.head))

theorem Closed.of_round {rules : List (Rule τ)} {sets : EdgeSets τ}
    (still : Within (rules.foldl extend sets) sets) : Closed rules sets :=
  fun _ member _ leading => still _ _ (leading_round member leading)

theorem Closed.round_within {rules : List (Rule τ)} {sets : EdgeSets τ}
    (closed : Closed rules sets) : Within (rules.foldl extend sets) sets := by
  suffices kept : ∀ some_rules : List (Rule τ), (∀ rule ∈ some_rules, rule ∈ rules) →
      ∀ grown, Within grown sets → Within (some_rules.foldl extend grown) sets from
    kept rules (fun _ member => member) sets fun _ _ member => member
  intro some_rules
  induction some_rules with
  | nil => exact fun _ _ within => within
  | cons rule rest ih =>
    intro members grown within
    refine ih (fun r later => members r (List.mem_cons_of_mem _ later)) _ fun n t member => ?_
    obtain old | ⟨rfl, new⟩ := mem_held_extend.mp member
    · exact within n t old
    · exact closed rule (members rule List.mem_cons_self) t (leading_within within new)

theorem Closed.round {rules : List (Rule τ)} {sets : EdgeSets τ} (closed : Closed rules sets) :
    Closed rules (rules.foldl extend sets) := fun rule member t leading =>
  within_round rules sets _ _
    (closed rule member t (leading_within closed.round_within leading))

theorem Closed.saturate {rules : List (Rule τ)} {sets : EdgeSets τ} (closed : Closed rules sets)
    (rounds : Nat) : Closed rules (saturate rules rounds sets) := by
  induction rounds generalizing sets with
  | zero => exact closed
  | succ rounds ih =>
    rw [Rules.saturate]
    split_ifs
    · exact closed
    · exact ih closed.round

/-- How many of the pairs that could be in the sets are there. -/
def filled (rules : List (Rule τ)) (sets : EdgeSets τ) : Nat :=
  ((rules.map (·.head)).product (terminals rules)).countP fun (n, t) => t ∈ held sets n

theorem filled_le (rules : List (Rule τ)) (sets : EdgeSets τ) :
    filled rules sets ≤ rules.length * (terminals rules).length := by
  refine Nat.le_trans List.countP_le_length (Nat.le_of_eq ?_)
  exact (List.length_product _ _).trans (by rw [List.length_map])

omit [DecidableEq τ] [LT τ] [DecidableLT τ] in
theorem countP_lt_countP {α : Type} {p q : α → Bool} {xs : List α} {x : α} (member : x ∈ xs)
    (mono : ∀ y ∈ xs, p y → q y) (old : ¬ p x) (new : q x) : xs.countP p < xs.countP q := by
  obtain ⟨front, back, rfl⟩ := List.append_of_mem member
  have before := List.countP_mono_left (l := front) fun y inside => mono y (by simp [inside])
  have after := List.countP_mono_left (l := back) fun y inside => mono y (by simp [inside])
  simp only [List.countP_append, List.countP_cons, old, new, if_true]
  simp only [Bool.false_eq_true, if_false]
  omega

theorem filled_lt_round {rules : List (Rule τ)} {sets : EdgeSets τ} (derived : Derived rules sets)
    (grown : ¬ Within (rules.foldl extend sets) sets) :
    filled rules sets < filled rules (rules.foldl extend sets) := by
  simp only [Within, not_forall] at grown
  obtain ⟨n, t, new, absent⟩ := grown
  have leads := derived.round n t new
  refine countP_lt_countP (List.mem_product.mpr ⟨leads.mem_heads, leads.mem_terminals⟩)
    (fun pair _ old => ?_) (by simpa using absent) (by simpa using new)
  simpa using within_round rules sets _ _ (by simpa using old)

theorem Derived.saturate {rules : List (Rule τ)} {sets : EdgeSets τ} (derived : Derived rules sets)
    (rounds : Nat) : Derived rules (saturate rules rounds sets) := by
  induction rounds generalizing sets with
  | zero => exact derived
  | succ rounds ih =>
    rw [Rules.saturate]
    split_ifs
    · exact derived
    · exact ih derived.round

/-- Enough rounds close the sets: as long as they are open each round fills another pair. -/
theorem closed_saturate {rules : List (Rule τ)} {sets : EdgeSets τ} (derived : Derived rules sets)
    {rounds : Nat} (enough : rules.length * (terminals rules).length < filled rules sets + rounds) :
    Closed rules (saturate rules rounds sets) := by
  induction rounds generalizing sets with
  | zero =>
    have := filled_le rules sets
    omega
  | succ rounds ih =>
    by_cases still : Within (rules.foldl extend sets) sets
    · exact (Closed.of_round still).saturate _
    · have := filled_lt_round derived still
      have changed : rules.foldl extend sets ≠ sets := fun same =>
        still (same.symm ▸ fun _ _ member => member)
      rw [Rules.saturate, if_neg changed]
      exact ih derived.round (by omega)

theorem held_emptySets (rules : List (Rule τ)) (n : τ) : held (emptySets rules) n = [] := by
  suffices kept : ∀ sets : EdgeSets τ, held sets n = [] →
      held (rules.foldl (fun sets rule => sets.insert rule.head []) sets) n = [] from kept _ rfl
  induction rules with
  | nil => exact fun _ empty => empty
  | cons rule rest ih =>
    refine fun sets empty => ih _ ?_
    unfold held at empty ⊢
    rw [Dict.find?_insert]
    split_ifs
    · rfl
    · exact empty

theorem derived_emptySets (rules : List (Rule τ)) : Derived rules (emptySets rules) := by
  intro n t member
  rw [held_emptySets] at member
  exact absurd member List.not_mem_nil

/-- Closed sets hold all that the rules derive. -/
theorem Leads.mem_held {rules : List (Rule τ)} {sets : EdgeSets τ} (closed : Closed rules sets)
    {n t : τ} (leads : Leads rules n t) : t ∈ held sets n := by
  induction leads with
  | head rule => exact closed _ rule _ (mem_leading.mpr (Or.inl ⟨_, rfl⟩))
  | second rule =>
    exact closed _ rule _ (mem_leading.mpr (Or.inr ⟨_, _, rfl, Or.inr ⟨_, rfl⟩⟩))
  | through rule _ ih =>
    exact closed _ rule _ (mem_leading.mpr (Or.inr ⟨_, _, rfl, Or.inl ih⟩))

/-- A terminal is in the set of a nonterminal exactly when the rules put it first. -/
theorem mem_firstSets {rules : List (Rule τ)} {n t : τ} :
    t ∈ held (firstSets rules) n ↔ Leads rules n t :=
  have start := derived_emptySets rules
  ⟨start.saturate _ n t, fun leads => leads.mem_held (closed_saturate start (by omega))⟩

theorem mem_lastSets {rules : List (Rule τ)} {n t : τ} :
    t ∈ held (lastSets rules) n ↔ Leads (rules.map Rule.reverse) n t :=
  mem_firstSets

end SasLayout.Rules
