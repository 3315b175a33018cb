import SasLayout.Proofs.Precedences
import SasLayout.Proofs.SolvedLevels

set_option autoImplicit false

/-!
How a grammar settles what its rules derive. A pair of terminals with one derived relation keeps it.
A pair with several takes what the table has for it, or else the first derived one, and only then is
it noted as a conflict, once. The levels of the grammar stand in the relations so chosen.
-/
namespace SasLayout.Grammar

variable {τ : Type}

/-- The rules derive the relation for a pair of terminals. -/
def Derives (rules : List (Rule τ)) (a b : τ) (r : Relation) : Prop :=
  ∃ rule ∈ rules,
    Relates (Rules.Leads rules) (Rules.Leads (rules.map Rule.reverse)) rule.body a b r

/-- The rules derive more than one relation for a pair. -/
def Ambiguous (rules : List (Rule τ)) (a b : τ) : Prop :=
  ∃ r q, Derives rules a b r ∧ Derives rules a b q ∧ r ≠ q

variable [DecidableEq τ]

/-- The conflicts noted for a pair. -/
def conflictsOf (conflicts : List (Conflict τ)) (a b : τ) : List (Conflict τ) :=
  conflicts.filter fun c => c.left = a ∧ c.right = b

/-- The first of some derived relations, and the first of them that differs from it. -/
def dispute? : List Relation → Option (Relation × Relation)
  | [] => none
  | first :: rest => (rest.find? (· ≠ first)).map (first, ·)

theorem dispute?_eq_none_iff {rs : List Relation} :
    dispute? rs = none ↔ ∀ r ∈ rs, ∀ q ∈ rs, r = q := by
  cases rs with
  | nil => simp [dispute?]
  | cons first rest =>
    simp only [dispute?, Option.map_eq_none_iff, List.find?_eq_none, decide_eq_true_eq, not_not]
    constructor
    · intro same
      have all : ∀ r ∈ first :: rest, r = first := fun r member =>
        (List.mem_cons.mp member).elim id (same r)
      exact fun r left q right => (all r left).trans (all q right).symm
    · exact fun same r member => same r (List.mem_cons_of_mem _ member) first List.mem_cons_self

theorem dispute?_eq_some {rs : List Relation} {kept rejected : Relation}
    (found : dispute? rs = some (kept, rejected)) :
    rs.head? = some kept ∧ rejected ∈ rs ∧ kept ≠ rejected := by
  cases rs with
  | nil => exact nomatch found
  | cons first rest =>
    obtain ⟨q, later, same⟩ := Option.map_eq_some_iff.mp found
    cases same
    have differ := List.find?_some later
    rw [decide_eq_true_eq] at differ
    exact ⟨rfl, List.mem_cons_of_mem _ (List.mem_of_find?_eq_some later), differ.symm⟩

/-- One more relation is disputed when none was before it and it differs from the first. -/
theorem dispute?_append (rs : List Relation) (r : Relation) :
    dispute? (rs ++ [r]) =
      (dispute? rs).or ((rs.head?.filter (· ≠ r)).map (·, r)) := by
  cases rs with
  | nil => rfl
  | cons first rest =>
    simp only [List.cons_append, dispute?, List.find?_append, List.head?_cons]
    cases List.find? (· ≠ first) rest with
    | some q => rfl
    | none =>
      by_cases same : first = r
      · simp [Option.filter_some, same]
      · simp [Option.filter_some, same, Ne.symm same]

theorem settle_none (rs : List Relation) : settle none rs = rs.head? := by
  cases rs with
  | nil => rfl
  | cons first rest =>
    rw [settle, Option.getD_none, ite_self]
    rfl

theorem head?_relationsOf {ds : List (Derivation τ)} {a b : τ} {r : Relation} :
    (relationsOf ds a b).head? = some r ↔
      ∃ earlier later, ds = earlier ++ ⟨a, b, r⟩ :: later ∧
        ∀ d ∈ earlier, ¬ (d.left = a ∧ d.right = b) := by
  rw [List.head?_eq_some_iff]
  unfold relationsOf
  simp only [List.filterMap_eq_cons_iff]
  constructor
  · rintro ⟨rest, earlier, d, later, rfl, skipped, found, -⟩
    rw [Option.ite_none_right_eq_some] at found
    obtain ⟨⟨rfl, rfl⟩, same⟩ := found
    cases same
    exact ⟨earlier, later, rfl, fun e before here => by simpa [here] using skipped e before⟩
  · rintro ⟨earlier, later, rfl, skipped⟩
    exact ⟨_, earlier, _, later, rfl, fun e before => if_neg (skipped e before), by simp, rfl⟩

/-! ### Conflicts -/

theorem conflictsOf_append (conflicts : List (Conflict τ)) (c : Conflict τ) (a b : τ) :
    conflictsOf (conflicts ++ [c]) a b =
      if c.left = a ∧ c.right = b then conflictsOf conflicts a b ++ [c]
      else conflictsOf conflicts a b := by
  by_cases here : c.left = a ∧ c.right = b <;> simp [conflictsOf, here]

theorem any_conflict_iff {conflicts : List (Conflict τ)} {a b : τ} :
    (conflicts.any fun c => c.left = a && c.right = b) = true ↔ conflictsOf conflicts a b ≠ [] := by
  simp [conflictsOf]

variable [LT τ] [DecidableLT τ]

/-- Recording a derived relation notes a conflict for its pair only when the table has no entry, no
conflict is noted for the pair and another relation is recorded. -/
theorem record_conflictsOf (table : Relations τ) (known : Record τ) (d : Derivation τ) (a b : τ) :
    conflictsOf (record table known d).conflicts a b =
      if (d.left = a ∧ d.right = b) ∧ table.find? a b = none ∧
          conflictsOf known.conflicts a b = [] then
        (((known.relations.find? a b).filter (· ≠ d.relation)).map
          (⟨a, b, ·, d.relation⟩)).toList
      else conflictsOf known.conflicts a b := by
  by_cases here : d.left = a ∧ d.right = b
  · obtain ⟨rfl, rfl⟩ := here
    unfold record
    cases old : known.relations.find? d.left d.right with
    | none => simp +contextual
    | some kept =>
      by_cases same : kept = d.relation
      · simp +contextual [Option.filter_some, same]
      · simp only [same, if_false]
        cases entry : table.find? d.left d.right with
        | some settled => simp
        | none =>
          simp only [any_conflict_iff]
          by_cases noted : conflictsOf known.conflicts d.left d.right = []
          · simp [noted, Option.filter_some, same, conflictsOf_append]
          · simp [noted]
  · -- A conflict noted in this step is for the pair of `d`, not for this one.
    rw [if_neg fun noted => here noted.1]
    obtain same | ⟨r, next⟩ | ⟨kept, _, _, _, next⟩ := record_cases table known d
    · rw [same]
    · rw [next]
    · rw [next, conflictsOf_append, if_neg here]

/-- The conflicts noted for a pair: one if relations derived for it differ and the table has none,
of the first with the first other one. -/
theorem recordAll_conflictsOf (table : Relations τ) (ds : List (Derivation τ)) (a b : τ) :
    conflictsOf (recordAll table ds).conflicts a b =
      if table.find? a b = none then
        ((dispute? (relationsOf ds a b)).map fun (kept, rejected) => ⟨a, b, kept, rejected⟩).toList
      else [] := by
  -- On the last derived relation: a step compares it with what all those before it have left.
  induction ds using List.reverseRecOn with
  | nil => simp [recordAll, conflictsOf, relationsOf, dispute?]
  | append_singleton ds d ih =>
    rw [recordAll_append, record_conflictsOf, ih, recordAll_find?, relationsOf_append]
    by_cases here : d.left = a ∧ d.right = b
    · cases entry : table.find? a b with
      | some settled => simp
      | none =>
        rw [settle_none, if_pos here, dispute?_append]
        cases dispute? (relationsOf ds a b) with
        | some pair => simp
        | none => simp [here, Function.comp_def]
    · simp [here]

/-! ### The relation chosen for a pair -/

/-- The relation is the first of those derived for a pair, rule by rule and from left to right. -/
def DerivesFirst (rules : List (Rule τ)) (a b : τ) (r : Relation) : Prop :=
  ∃ earlier later, derivations rules = earlier ++ ⟨a, b, r⟩ :: later ∧
    ∀ d ∈ earlier, ¬ (d.left = a ∧ d.right = b)

/-- The relation is derived for a pair at the first symbol of a part of a body. -/
inductive RelatesHere (first last : τ → τ → Prop) : List (Symbol τ) → τ → τ → Relation → Prop
  | adjacent {a b : τ} {rest : List (Symbol τ)} :
      RelatesHere first last (.terminal a :: .terminal b :: rest) a b .eq
  | around {a n b : τ} {rest : List (Symbol τ)} :
      RelatesHere first last (.terminal a :: .nonterminal n :: .terminal b :: rest) a b .eq
  | before {a n b : τ} {rest : List (Symbol τ)} (edge : first n b) :
      RelatesHere first last (.terminal a :: .nonterminal n :: rest) a b .lt
  | after {n a b : τ} {rest : List (Symbol τ)} (edge : last n a) :
      RelatesHere first last (.nonterminal n :: .terminal b :: rest) a b .gt

/-- A terminal that comes first stands beside `a`, or behind one nonterminal. -/
def deriveEqual (a : τ) : List (Symbol τ) → List (Derivation τ)
  | .terminal b :: _ => [⟨a, b, .eq⟩]
  | _ => []

/-- What is derived at the first symbol of a part of a body. -/
def deriveHere (first last : Rules.EdgeSets τ) : List (Symbol τ) → List (Derivation τ)
  | .terminal a :: .nonterminal n :: rest =>
    (Rules.held first n).map (⟨a, ·, .lt⟩) ++ deriveEqual a rest
  | .terminal a :: rest => deriveEqual a rest
  | .nonterminal n :: .terminal b :: _ => (Rules.held last n).map (⟨·, b, .gt⟩)
  | _ => []

section Order

omit [LT τ] [DecidableLT τ]

variable {first last : Rules.EdgeSets τ} {a b : τ} {r : Relation} {body : List (Symbol τ)}

theorem derive_cons_eq (symbol : Symbol τ) (rest : List (Symbol τ)) :
    derive first last (symbol :: rest) =
      deriveHere first last (symbol :: rest) ++ derive first last rest := by
  rcases symbol with x | n <;> rcases rest with _ | ⟨y | m, _ | ⟨z | k, rest⟩⟩ <;>
    simp [derive, deriveHere, deriveEqual, Rules.held_def]

omit [DecidableEq τ] in
theorem mem_deriveEqual {d : Derivation τ} :
    d ∈ deriveEqual a body ↔ ∃ b rest, body = .terminal b :: rest ∧ d = ⟨a, b, .eq⟩ := by
  rcases body with _ | ⟨x | n, rest⟩ <;> simp [deriveEqual]

theorem mem_deriveHere :
    ⟨a, b, r⟩ ∈ deriveHere first last body ↔
      RelatesHere (fun n t => t ∈ Rules.held first n) (fun n t => t ∈ Rules.held last n) body a b
        r := by
  constructor
  · intro member
    rcases body with _ | ⟨x | n, rest⟩
    · cases member
    · rcases rest with _ | ⟨y | n, rest⟩
      · cases member
      · cases List.mem_singleton.mp member
        exact .adjacent
      · rcases List.mem_append.mp member with smaller | equal
        · obtain ⟨t, edge, same⟩ := List.mem_map.mp smaller
          cases same
          exact .before edge
        · obtain ⟨y, rest, rfl, same⟩ := mem_deriveEqual.mp equal
          cases same
          exact .around
    · rcases rest with _ | ⟨y | m, rest⟩
      · cases member
      · obtain ⟨t, edge, same⟩ := List.mem_map.mp member
        cases same
        exact .after edge
      · cases member
  · intro here
    cases here with
    | adjacent => simp [deriveHere, deriveEqual]
    | around => simp [deriveHere, deriveEqual]
    | before edge => simp [deriveHere, edge]
    | after edge => simp [deriveHere, edge]

/-- In one place `lt` comes before `eq`, and no other two relations are derived. -/
theorem deriveHere_ordered (body : List (Symbol τ)) :
    (deriveHere first last body).Pairwise fun d e =>
      e.relation = d.relation ∨ d.relation = .lt ∧ e.relation = .eq := by
  have alike (k : Relation) {ds : List (Derivation τ)} (same : ∀ d ∈ ds, d.relation = k) :
      ds.Pairwise fun d e => e.relation = d.relation ∨ d.relation = .lt ∧ e.relation = .eq :=
    List.pairwise_of_forall_mem_list fun d left e right =>
      Or.inl ((same e right).trans (same d left).symm)
  have equal (a : τ) (body : List (Symbol τ)) : ∀ d ∈ deriveEqual a body, d.relation = .eq := by
    intro d member
    obtain ⟨b, rest, -, rfl⟩ := mem_deriveEqual.mp member
    rfl
  rcases body with _ | ⟨x | n, rest⟩
  · exact .nil
  · rcases rest with _ | ⟨y | n, rest⟩
    · exact .nil
    · exact alike .eq (equal x (.terminal y :: rest))
    · refine List.pairwise_append.mpr ⟨alike .lt ?_, alike .eq (equal x rest), ?_⟩
      · simp
      · intro d left e right
        obtain ⟨t, -, rfl⟩ := List.mem_map.mp left
        exact Or.inr ⟨rfl, equal x _ e right⟩
  · rcases rest with _ | ⟨y | m, rest⟩
    · exact .nil
    · exact alike .gt (by simp [deriveHere])
    · exact .nil

/-- The first relation for a pair in one place. -/
theorem head?_deriveHere :
    (relationsOf (deriveHere first last body) a b).head? = some r ↔
      ⟨a, b, r⟩ ∈ deriveHere first last body ∧
        ∀ q, ⟨a, b, q⟩ ∈ deriveHere first last body → q = r ∨ r = .lt ∧ q = .eq := by
  simp only [← mem_relationsOf]
  have pairs : (relationsOf (deriveHere first last body) a b).Pairwise fun p q =>
      q = p ∨ p = .lt ∧ q = .eq := by
    refine List.pairwise_filterMap.mpr
      ((deriveHere_ordered body).imp fun {d e} related p left q right => ?_)
    rw [Option.ite_none_right_eq_some] at left right
    cases left.2
    cases right.2
    exact related
  cases found : relationsOf (deriveHere first last body) a b with
  | nil => simp
  | cons p rest =>
    rw [found] at pairs
    have later : ∀ q ∈ rest, q = p ∨ p = .lt ∧ q = .eq := fun q inside =>
      List.rel_of_pairwise_cons pairs inside
    simp only [List.head?_cons, Option.some.injEq]
    constructor
    · rintro rfl
      refine ⟨List.mem_cons_self, fun q member => ?_⟩
      rcases List.mem_cons.mp member with same | inside
      · exact Or.inl same
      · exact later q inside
    · rintro ⟨member, least⟩
      rcases least p List.mem_cons_self with same | ⟨rfl, rfl⟩
      · exact same
      · rcases List.mem_cons.mp member with same | inside
        · cases same
        · rcases later _ inside with same | ⟨same, -⟩ <;> cases same

/-- A body derives from its left end to its right end. -/
theorem head?_derive :
    (relationsOf (derive first last body) a b).head? = some r ↔
      ∃ front back, body = front ++ back ∧
        (relationsOf (deriveHere first last back) a b).head? = some r ∧
        ∀ i < front.length, relationsOf (deriveHere first last (body.drop i)) a b = [] := by
  induction body with
  | nil =>
    constructor
    · intro found
      cases found
    · rintro ⟨front, back, split, found, -⟩
      obtain ⟨rfl, rfl⟩ := List.append_eq_nil_iff.mp split.symm
      cases found
  | cons symbol rest ih =>
    rw [derive_cons_eq, relationsOf, List.filterMap_append, ← relationsOf, ← relationsOf]
    cases here : relationsOf (deriveHere first last (symbol :: rest)) a b with
    | nil =>
      rw [List.nil_append, ih]
      constructor
      · rintro ⟨front, back, rfl, found, earlier⟩
        refine ⟨symbol :: front, back, rfl, found, fun i before => ?_⟩
        cases i with
        | zero => exact here
        | succ i => exact earlier i (Nat.lt_of_succ_lt_succ before)
      · rintro ⟨front, back, split, found, earlier⟩
        cases front with
        | nil =>
          obtain rfl : symbol :: rest = back := split
          rw [here] at found
          cases found
        | cons x front =>
          obtain ⟨rfl, rfl⟩ := List.cons.inj split
          exact ⟨front, back, rfl, found, fun i before => earlier (i + 1) (Nat.succ_lt_succ before)⟩
    | cons p others =>
      constructor
      · intro found
        exact ⟨[], symbol :: rest, rfl, by rw [here]; exact found, fun i before => by cases before⟩
      · rintro ⟨front, back, split, found, earlier⟩
        cases front with
        | nil =>
          obtain rfl : symbol :: rest = back := split
          rw [here] at found
          exact found
        | cons x front =>
          have nothing := earlier 0 (Nat.succ_pos _)
          rw [List.drop_zero, here] at nothing
          cases nothing

end Order

/-- The order in which relations are derived. The first one for a pair comes from the first rule
that relates the pair, there from the place furthest to the left, and in one place `lt` goes before
`eq`. -/
theorem derivesFirst_iff {rules : List (Rule τ)} {a b : τ} {r : Relation} :
    DerivesFirst rules a b r ↔
      ∃ before rule after front back, rules = before ++ rule :: after ∧ rule.body = front ++ back ∧
        (∀ other ∈ before, ∀ q, ¬ Relates (Rules.Leads rules)
          (Rules.Leads (rules.map Rule.reverse)) other.body a b q) ∧
        (∀ i < front.length, ∀ q, ¬ RelatesHere (Rules.Leads rules)
          (Rules.Leads (rules.map Rule.reverse)) (rule.body.drop i) a b q) ∧
        RelatesHere (Rules.Leads rules) (Rules.Leads (rules.map Rule.reverse)) back a b r ∧
        ∀ q, RelatesHere (Rules.Leads rules) (Rules.Leads (rules.map Rule.reverse)) back a b q →
          q = r ∨ r = .lt ∧ q = .eq := by
  have nothing {ds : List (Derivation τ)} :
      relationsOf ds a b = [] ↔ ∀ q, ⟨a, b, q⟩ ∉ ds := by
    simp only [List.eq_nil_iff_forall_not_mem, mem_relationsOf]
  have rulewise : relationsOf (derivations rules) a b = rules.flatMap fun rule =>
      relationsOf (derive (Rules.firstSets rules) (Rules.lastSets rules) rule.body) a b :=
    List.filterMap_flatMap
  rw [DerivesFirst, ← head?_relationsOf, rulewise, List.head?_flatMap, List.findSome?_eq_some_iff]
  simp only [head?_derive, head?_deriveHere, List.head?_eq_none_iff, nothing, mem_derive,
    mem_deriveHere, Rules.mem_firstSets, Rules.mem_lastSets]
  constructor
  · rintro ⟨before, rule, after, split, ⟨front, back, parts, here, left⟩, earlier⟩
    exact ⟨before, rule, after, front, back, split, parts, earlier, left, here⟩
  · rintro ⟨before, rule, after, front, back, split, parts, earlier, left, here⟩
    exact ⟨before, rule, after, split, ⟨front, back, parts, here, left⟩, earlier⟩

/-- Which relation a pair gets: the only derived one, or the table's, or the first derived one. -/
inductive Chosen (rules : List (Rule τ)) (table : PrecedenceTable τ) (a b : τ) : Relation → Prop
  | only {r : Relation} (derived : Derives rules a b r)
      (alone : ∀ q, Derives rules a b q → q = r) : Chosen rules table a b r
  | settled {r : Relation} (several : Ambiguous rules a b)
      (entry : table.relations.find? a b = some r) : Chosen rules table a b r
  | first {r : Relation} (several : Ambiguous rules a b)
      (absent : table.relations.find? a b = none) (earliest : DerivesFirst rules a b r) :
      Chosen rules table a b r

/-- The relations from which the levels of a grammar are computed. -/
def usedRelations (rules : List (Rule τ)) (table : PrecedenceTable τ) : Relations τ :=
  (recordAll table.relations (derivations rules)).relations

theorem mem_relationsOf_derivations {rules : List (Rule τ)} {a b : τ} {r : Relation} :
    r ∈ relationsOf (derivations rules) a b ↔ Derives rules a b r :=
  mem_relationsOf.trans mem_derivations

theorem dispute?_derivations_eq_none_iff {rules : List (Rule τ)} {a b : τ} :
    dispute? (relationsOf (derivations rules) a b) = none ↔ ¬ Ambiguous rules a b := by
  simp only [dispute?_eq_none_iff, mem_relationsOf_derivations, Ambiguous]
  grind

theorem Ambiguous.settle_eq {rules : List (Rule τ)} {a b : τ} (several : Ambiguous rules a b)
    (entry : Relation) :
    settle (some entry) (relationsOf (derivations rules) a b) = some entry := by
  obtain ⟨r, q, first, second, differ⟩ := several
  exact settle_of_differ (mem_relationsOf_derivations.mpr first)
    (mem_relationsOf_derivations.mpr second) differ

/-- The relation used for a pair is the one chosen for it. -/
theorem usedRelations_find? {rules : List (Rule τ)} {table : PrecedenceTable τ} {a b : τ}
    {r : Relation} : (usedRelations rules table).find? a b = some r ↔ Chosen rules table a b r := by
  rw [usedRelations, recordAll_find?]
  constructor
  · intro kept
    by_cases several : Ambiguous rules a b
    · cases entry : table.relations.find? a b with
      | some settled =>
        rw [entry, several.settle_eq] at kept
        exact .settled several (entry.trans kept)
      | none =>
        rw [entry, settle_none, head?_relationsOf] at kept
        exact .first several entry kept
    · have same := dispute?_eq_none_iff.mp (dispute?_derivations_eq_none_iff.mpr several)
      obtain ⟨q, member⟩ := exists_mem_of_settle kept
      rw [settle_of_same (fun p inside => same p inside q member) member] at kept
      obtain rfl := Option.some.inj kept
      exact .only (mem_relationsOf_derivations.mp member) fun p derived =>
        same p (mem_relationsOf_derivations.mpr derived) q member
  · intro chosen
    cases chosen with
    | only derived alone =>
      exact settle_of_same (fun q member => alone q (mem_relationsOf_derivations.mp member))
        (mem_relationsOf_derivations.mpr derived)
    | settled several entry => rw [entry, several.settle_eq]
    | first several absent earliest => rw [absent, settle_none, head?_relationsOf.mpr earliest]

theorem conflictsOf_of_ambiguous {rules : List (Rule τ)} {table : PrecedenceTable τ} {a b : τ}
    (several : Ambiguous rules a b) (absent : table.relations.find? a b = none) :
    ∃ kept rejected,
      conflictsOf (recordAll table.relations (derivations rules)).conflicts a b =
        [⟨a, b, kept, rejected⟩] ∧
      DerivesFirst rules a b kept ∧ Derives rules a b rejected ∧ kept ≠ rejected := by
  have disputed := mt dispute?_derivations_eq_none_iff.mp (not_not.mpr several)
  obtain ⟨⟨kept, rejected⟩, found⟩ := Option.ne_none_iff_exists'.mp disputed
  obtain ⟨earliest, other, differ⟩ := dispute?_eq_some found
  refine ⟨kept, rejected, ?_, head?_relationsOf.mp earliest,
    mem_relationsOf_derivations.mp other, differ⟩
  rw [recordAll_conflictsOf, if_pos absent, found]
  rfl

theorem conflictsOf_of_settled {rules : List (Rule τ)} {table : PrecedenceTable τ} {a b : τ}
    (settled : ¬ (Ambiguous rules a b ∧ table.relations.find? a b = none)) :
    conflictsOf (recordAll table.relations (derivations rules)).conflicts a b = [] := by
  rw [recordAll_conflictsOf]
  split_ifs with absent
  · rw [dispute?_derivations_eq_none_iff.mpr fun several => settled ⟨several, absent⟩]
    rfl
  · rfl

/-! ### The grammar -/

/-- What a grammar is made of when its rules and table give one. -/
theorem build_eq_ok_elim {rules : List (Rule τ)} {table : PrecedenceTable τ} {g : Grammar τ}
    (built : build rules table = .ok g) :
    ∃ d, Levels.solve (Rules.terminals rules) (usedRelations rules table) = .ok d ∧
      g = ⟨d.mapValues (exposed (openers rules) (closers rules)),
        (recordAll table.relations (derivations rules)).conflicts⟩ := by
  cases adjacent : rules.find? Rule.hasAdjacent with
  | some rule => simp [build, adjacent] at built
  | none =>
    cases solved : Levels.solve (Rules.terminals rules) (usedRelations rules table) with
    | error cause =>
      rw [usedRelations] at solved
      simp [build, adjacent, solved] at built
    | ok d => exact ⟨d, rfl, Except.ok.inj (built.symm.trans (build_eq_ok adjacent solved))⟩

omit [LT τ] [DecidableLT τ] in
theorem exposed_left {openers closers : List τ} {t : τ} {s : Levels.Sides} {x : Nat}
    (present : (exposed openers closers t s).left = some x) : s.left = x := by
  simp only [exposed, Option.ite_none_left_eq_some] at present
  exact Option.some.inj present.2

omit [LT τ] [DecidableLT τ] in
theorem exposed_right {openers closers : List τ} {t : τ} {s : Levels.Sides} {x : Nat}
    (present : (exposed openers closers t s).right = some x) : s.right = x := by
  simp only [exposed, Option.ite_none_left_eq_some] at present
  exact Option.some.inj present.2

/-- Levels that a grammar has on the facing sides of two terminals stand in the relation used for
them. -/
theorem build_spaced [IsStrictTotalOrder τ (· < ·)] {rules : List (Rule τ)}
    {table : PrecedenceTable τ} {g : Grammar τ} (built : build rules table = .ok g) {a b : τ}
    {r : Relation} (used : (usedRelations rules table).find? a b = some r) {s t : TerminalLevels}
    (first : g.levels.find? a = some s) (second : g.levels.find? b = some t) {x y : Nat}
    (right : s.right = some x) (left : t.left = some y) : r.Spaced Levels.step x y := by
  obtain ⟨d, solved, rfl⟩ := build_eq_ok_elim built
  rw [Dict.find?_mapValues, Option.map_eq_some_iff] at first second
  obtain ⟨u, at_a, rfl⟩ := first
  obtain ⟨v, at_b, rfl⟩ := second
  rw [← exposed_right right, ← exposed_left left]
  have sorted : (usedRelations rules table).Sorted := recordAll_sorted _ _
  exact Levels.solve_satisfies solved (sorted.mem_toList.mpr used) at_a at_b

/-- A grammar uses for each pair the only relation derived for it, or the table's, or the first one
derived, and its levels stand in the relations used. The pairs for which the rules derive several
relations and the table has none are its conflicts, each noted once. -/
theorem build_resolves [IsStrictTotalOrder τ (· < ·)] (rules : List (Rule τ))
    (table : PrecedenceTable τ) (g : Grammar τ) (built : build rules table = .ok g) :
    (∃ d, Levels.solve (Rules.terminals rules) (usedRelations rules table) = .ok d ∧
      g.levels = d.mapValues (exposed (openers rules) (closers rules))) ∧
    (∀ a b r, (usedRelations rules table).find? a b = some r ↔ Chosen rules table a b r) ∧
    (∀ a b r s t x y, Chosen rules table a b r → g.levels.find? a = some s →
      g.levels.find? b = some t → s.right = some x → t.left = some y → r.Spaced 10 x y) ∧
    (∀ a b, Ambiguous rules a b → table.relations.find? a b = none →
      ∃ kept rejected, conflictsOf g.conflicts a b = [⟨a, b, kept, rejected⟩] ∧
        DerivesFirst rules a b kept ∧ Derives rules a b rejected ∧ kept ≠ rejected) ∧
    ∀ a b, ¬ (Ambiguous rules a b ∧ table.relations.find? a b = none) →
      conflictsOf g.conflicts a b = [] := by
  obtain ⟨d, solved, rfl⟩ := build_eq_ok_elim built
  refine ⟨⟨d, solved, rfl⟩, fun a b r => usedRelations_find?, ?_, ?_, ?_⟩
  · intro a b r s t x y chosen first second right left
    exact build_spaced built (usedRelations_find?.mpr chosen) first second right left
  · exact fun a b several absent => conflictsOf_of_ambiguous several absent
  · exact fun a b settled => conflictsOf_of_settled settled

/-- Two operators of which the table has only one: it makes the chain of `+` group to the right
against what is derived first, and leaves the other pairs open. -/
theorem build_resolves_chains :
    let rules : List (Rule String) :=
      [⟨"e", [.nonterminal "e", .terminal "+", .nonterminal "e"]⟩,
        ⟨"e", [.nonterminal "e", .terminal "-", .nonterminal "e"]⟩]
    let table : PrecedenceTable String := ⟨[⟨.right, ["+"], false⟩]⟩
    let g : Grammar String :=
      ⟨⟨[("+", ⟨some 10, some 0⟩), ("-", ⟨some 10, some 20⟩)]⟩,
        [⟨"+", "-", .lt, .gt⟩, ⟨"-", "+", .gt, .lt⟩, ⟨"-", "-", .gt, .lt⟩]⟩
    build rules table = .ok g ∧ Chosen rules table "+" "+" .lt ∧
      DerivesFirst rules "-" "-" .gt ∧ Derives rules "-" "-" .lt ∧
      conflictsOf g.conflicts "+" "+" = [] := by
  intro rules table g
  have built : build rules table = .ok g := by decide +kernel
  obtain ⟨-, used, -, noted, settled⟩ := build_resolves rules table g built
  have several : Ambiguous rules "-" "-" := by
    refine not_not.mp (mt dispute?_derivations_eq_none_iff.mpr ?_)
    decide +kernel
  obtain ⟨kept, rejected, same, earliest, other, -⟩ := noted "-" "-" several (by decide +kernel)
  have entry : [⟨"-", "-", .gt, .lt⟩] = [Conflict.mk "-" "-" kept rejected] :=
    (show conflictsOf g.conflicts "-" "-" = _ by decide +kernel).symm.trans same
  cases entry
  exact ⟨built, (used _ _ _).mp (by decide +kernel), earliest, other,
    settled _ _ fun unsettled => absurd unsettled.2 (by decide +kernel)⟩

end SasLayout.Grammar
