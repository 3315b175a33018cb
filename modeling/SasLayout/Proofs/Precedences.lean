import Mathlib.Data.List.Infix
import SasLayout.Grammar
import SasLayout.Proofs.EdgeSets

set_option autoImplicit false

/-!
Which relations the rules of a grammar derive, which of several for one pair is kept, and which
ones a precedence table has.
-/
namespace SasLayout.Grammar

variable {τ : Type}

/-- The relations that a body derives, given which terminals can come first and last in what each
nonterminal derives. -/
inductive Relates (first last : τ → τ → Prop) (body : List (Symbol τ)) : τ → τ → Relation → Prop
  | adjacent {a b : τ} (part : [.terminal a, .terminal b] <:+: body) :
      Relates first last body a b .eq
  | around {a n b : τ} (part : [.terminal a, .nonterminal n, .terminal b] <:+: body) :
      Relates first last body a b .eq
  | before {a n b : τ} (part : [.terminal a, .nonterminal n] <:+: body) (edge : first n b) :
      Relates first last body a b .lt
  | after {n a b : τ} (part : [.nonterminal n, .terminal b] <:+: body) (edge : last n a) :
      Relates first last body a b .gt

theorem Relates.cons {first last : τ → τ → Prop} {body : List (Symbol τ)} {a b : τ} {r : Relation}
    (related : Relates first last body a b r) (symbol : Symbol τ) :
    Relates first last (symbol :: body) a b r := by
  cases related with
  | adjacent part => exact .adjacent (List.infix_cons part)
  | around part => exact .around (List.infix_cons part)
  | before part edge => exact .before (List.infix_cons part) edge
  | after part edge => exact .after (List.infix_cons part) edge

variable [DecidableEq τ]

section Derive

variable {first last : Rules.EdgeSets τ}

theorem derive_cons (symbol : Symbol τ) {body : List (Symbol τ)} {d : Derivation τ}
    (member : d ∈ derive first last body) : d ∈ derive first last (symbol :: body) := by
  unfold derive
  split <;> simp_all

theorem derive_append (front : List (Symbol τ)) {body : List (Symbol τ)} {d : Derivation τ}
    (member : d ∈ derive first last body) : d ∈ derive first last (front ++ body) := by
  induction front with
  | nil => exact member
  | cons symbol rest ih => exact derive_cons symbol ih

/-- The list of derived relations holds exactly those that the body shows. -/
theorem mem_derive {body : List (Symbol τ)} {a b : τ} {r : Relation} :
    ⟨a, b, r⟩ ∈ derive first last body ↔
      Relates (fun n t => t ∈ Rules.held first n) (fun n t => t ∈ Rules.held last n) body a b r := by
  constructor
  · intro member
    fun_induction derive first last body with
    | case1 x y rest ih =>
      obtain here | later := List.mem_cons.mp member
      · cases here
        exact .adjacent ⟨[], rest, rfl⟩
      · exact (ih later).cons _
    | case2 x n y rest ih =>
      obtain front | later := List.mem_append.mp member
      · obtain ⟨t, edge, same⟩ := List.mem_map.mp front
        cases same
        exact .before ⟨[], .terminal y :: rest, rfl⟩ edge
      · obtain here | later := List.mem_cons.mp later
        · cases here
          exact .around ⟨[], rest, rfl⟩
        · exact (ih later).cons _
    | case3 x n rest _ ih =>
      obtain front | later := List.mem_append.mp member
      · obtain ⟨t, edge, same⟩ := List.mem_map.mp front
        cases same
        exact .before ⟨[], rest, rfl⟩ edge
      · exact (ih later).cons _
    | case4 n y rest ih =>
      obtain front | later := List.mem_append.mp member
      · obtain ⟨t, edge, same⟩ := List.mem_map.mp front
        cases same
        exact .after ⟨[], rest, rfl⟩ edge
      · exact (ih later).cons _
    | case5 symbol rest _ _ _ _ ih => exact (ih member).cons _
    | case6 => exact nomatch member
  · intro related
    cases related with
    | adjacent part =>
      obtain ⟨front, back, rfl⟩ := part
      rw [List.append_assoc]
      exact derive_append front (by simp [derive])
    | around part =>
      obtain ⟨front, back, rfl⟩ := part
      rw [List.append_assoc]
      exact derive_append front (by simp [derive])
    | @before _ n _ part edge =>
      obtain ⟨front, back, rfl⟩ := part
      rw [List.append_assoc]
      refine derive_append front ?_
      have member : ⟨a, b, .lt⟩ ∈ ((first.find? n).getD []).map (Derivation.mk a · .lt) :=
        List.mem_map.mpr ⟨b, edge, rfl⟩
      obtain _ | ⟨⟨_⟩ | ⟨_⟩, _⟩ := back <;> exact List.mem_append_left _ member
    | @after n _ _ part edge =>
      obtain ⟨front, back, rfl⟩ := part
      rw [List.append_assoc]
      refine derive_append front ?_
      have member : ⟨a, b, .gt⟩ ∈ ((last.find? n).getD []).map (Derivation.mk · b .gt) :=
        List.mem_map.mpr ⟨a, edge, rfl⟩
      exact List.mem_append_left _ member

end Derive

variable [LT τ] [DecidableLT τ]

theorem mem_derivations {rules : List (Rule τ)} {a b : τ} {r : Relation} :
    ⟨a, b, r⟩ ∈ derivations rules ↔
      ∃ rule ∈ rules,
        Relates (Rules.Leads rules) (Rules.Leads (rules.map Rule.reverse)) rule.body a b r := by
  unfold derivations
  simp only [List.mem_flatMap, mem_derive, Rules.mem_firstSets, Rules.mem_lastSets]

/-! ### Recording -/

/-- The relation kept of those derived for a pair, in their order: the only one, or what the table
has for the pair, or the first one. -/
def settle (entry : Option Relation) : List Relation → Option Relation
  | [] => none
  | r :: rest => some (if ∀ q ∈ rest, q = r then r else entry.getD r)

/-- The relations among some derived ones that are for a pair. -/
def relationsOf (ds : List (Derivation τ)) (a b : τ) : List Relation :=
  ds.filterMap fun d => if d.left = a ∧ d.right = b then some d.relation else none

omit [LT τ] [DecidableLT τ] in
theorem mem_relationsOf {ds : List (Derivation τ)} {a b : τ} {r : Relation} :
    r ∈ relationsOf ds a b ↔ ⟨a, b, r⟩ ∈ ds := by
  unfold relationsOf
  simp only [List.mem_filterMap, Option.ite_none_right_eq_some, Option.some.injEq]
  constructor
  · rintro ⟨⟨_, _, _⟩, member, ⟨rfl, rfl⟩, rfl⟩
    exact member
  · exact fun member => ⟨_, member, ⟨rfl, rfl⟩, rfl⟩

omit [LT τ] [DecidableLT τ] in
theorem relationsOf_append (ds : List (Derivation τ)) (d : Derivation τ) (a b : τ) :
    relationsOf (ds ++ [d]) a b =
      if d.left = a ∧ d.right = b then relationsOf ds a b ++ [d.relation]
      else relationsOf ds a b := by
  by_cases here : d.left = a ∧ d.right = b <;> simp [relationsOf, here]

theorem settle_of_same {entry : Option Relation} {rs : List Relation} {r : Relation}
    (same : ∀ q ∈ rs, q = r) (member : r ∈ rs) : settle entry rs = some r := by
  cases rs with
  | nil => exact nomatch member
  | cons first rest =>
    obtain rfl := same first List.mem_cons_self
    rw [settle, if_pos fun q inside => same q (List.mem_cons_of_mem _ inside)]

theorem settle_of_differ {entry r q : Relation} {rs : List Relation} (left : r ∈ rs)
    (right : q ∈ rs) (differ : r ≠ q) : settle (some entry) rs = some entry := by
  cases rs with
  | nil => exact nomatch left
  | cons first rest =>
    rw [settle, if_neg]
    · rfl
    · intro same
      have all : ∀ x ∈ first :: rest, x = first := fun x inside =>
        (List.mem_cons.mp inside).elim id (same x)
      exact differ ((all r left).trans (all q right).symm)

theorem exists_mem_of_settle {entry : Option Relation} {rs : List Relation} {r : Relation}
    (kept : settle entry rs = some r) : ∃ q, q ∈ rs := by
  cases rs with
  | nil => exact nomatch kept
  | cons first rest => exact ⟨first, List.mem_cons_self⟩

theorem settle_append (entry : Option Relation) (rs : List Relation) (r : Relation) :
    settle entry (rs ++ [r]) =
      match settle entry rs with
      | none => some r
      | some kept => if kept = r then some kept else some (entry.getD kept) := by
  cases rs with
  | nil => simp [settle]
  | cons first rest =>
    simp only [settle, List.cons_append]
    by_cases same : ∀ q ∈ rest, q = first
    · rw [if_pos same]
      by_cases next : first = r
      · rw [if_pos next, if_pos fun q inside => (List.mem_append.mp inside).elim (same q)
          (fun last => (List.mem_singleton.mp last).trans next.symm)]
      · rw [if_neg next, if_neg fun all => next (all r (by simp)).symm]
    · rw [if_neg same, if_neg fun all => same fun q inside => all q (by simp [inside])]
      cases entry <;> simp

theorem record_find? (table : Relations τ) (known : Record τ) (d : Derivation τ) (a b : τ) :
    (record table known d).relations.find? a b =
      if d.left = a ∧ d.right = b then
        match known.relations.find? a b with
        | none => some d.relation
        | some kept =>
          if kept = d.relation then some kept else some ((table.find? a b).getD kept)
      else known.relations.find? a b := by
  unfold record
  by_cases here : d.left = a ∧ d.right = b
  · obtain ⟨rfl, rfl⟩ := here
    simp only [and_self, if_true]
    cases old : known.relations.find? d.left d.right with
    | none => simp [Relations.find?_insert]
    | some kept =>
      by_cases same : kept = d.relation
      · simp only [same, if_true]
        exact same ▸ old
      · simp only [same, if_false]
        cases entry : table.find? d.left d.right with
        | some settled => simp [Relations.find?_insert]
        | none =>
          simp only [Option.getD_none, ← old]
          split_ifs <;> rfl
  · have elsewhere : ¬ (a = d.left ∧ b = d.right) := fun same => here ⟨same.1.symm, same.2.symm⟩
    simp only [here, if_false]
    cases known.relations.find? d.left d.right with
    | none => simp [Relations.find?_insert, elsewhere]
    | some kept =>
      by_cases same : kept = d.relation
      · simp only [same, if_true]
      · simp only [same, if_false]
        cases table.find? d.left d.right with
        | some settled => simp [Relations.find?_insert, elsewhere]
        | none =>
          simp only
          split_ifs <;> rfl

theorem recordAll_append (table : Relations τ) (ds : List (Derivation τ)) (d : Derivation τ) :
    recordAll table (ds ++ [d]) = record table (recordAll table ds) d := by
  simp [recordAll]

/-- The recorded relation of a pair is the one kept of those derived for it. -/
theorem recordAll_find? (table : Relations τ) (ds : List (Derivation τ)) (a b : τ) :
    (recordAll table ds).relations.find? a b =
      settle (table.find? a b) (relationsOf ds a b) := by
  induction ds using List.reverseRecOn with
  | nil => rfl
  | append_singleton ds d ih =>
    rw [recordAll_append, record_find?, ih, relationsOf_append]
    split_ifs with here
    · rw [settle_append]
    · rfl

/-- What recording a derived relation can do: nothing, set the relation of its pair, or note a
conflict that the table does not settle. -/
theorem record_cases (table : Relations τ) (known : Record τ) (d : Derivation τ) :
    record table known d = known ∨
      (∃ r, record table known d =
        { known with relations := known.relations.insert d.left d.right r }) ∨
      ∃ kept, known.relations.find? d.left d.right = some kept ∧ kept ≠ d.relation ∧
        table.find? d.left d.right = none ∧
        record table known d =
          { known with conflicts := known.conflicts ++ [⟨d.left, d.right, kept, d.relation⟩] } := by
  unfold record
  cases old : known.relations.find? d.left d.right with
  | none => exact Or.inr (Or.inl ⟨_, rfl⟩)
  | some kept =>
    by_cases same : kept = d.relation
    · exact Or.inl (if_pos same)
    · simp only [same, if_false]
      cases entry : table.find? d.left d.right with
      | some settled => exact Or.inr (Or.inl ⟨_, rfl⟩)
      | none =>
        simp only
        split_ifs
        · exact Or.inl rfl
        · exact Or.inr (Or.inr ⟨kept, rfl, same, trivial, rfl⟩)

theorem recordAll_sorted [IsStrictTotalOrder τ (· < ·)] (table : Relations τ)
    (ds : List (Derivation τ)) : (recordAll table ds).relations.Sorted := by
  induction ds using List.reverseRecOn with
  | nil => exact Relations.Sorted.empty
  | append_singleton ds d ih =>
    rw [recordAll_append]
    obtain same | ⟨r, next⟩ | ⟨_, _, _, _, next⟩ := record_cases table (recordAll table ds) d
    · rwa [same]
    · rw [next]
      exact ih.insert _ _ _
    · rwa [next]

theorem mem_of_settle {rs : List Relation} {r : Relation} (kept : settle none rs = some r) :
    r ∈ rs := by
  cases rs with
  | nil => exact nomatch kept
  | cons first rest => simp_all [settle]

/-- Where the table has an entry for each pair with several derived relations, no conflict is
recorded. -/
theorem recordAll_conflicts {table : Relations τ} {ds : List (Derivation τ)}
    (settled : ∀ a b r q, ⟨a, b, r⟩ ∈ ds → ⟨a, b, q⟩ ∈ ds → r ≠ q → table.find? a b ≠ none) :
    (recordAll table ds).conflicts = [] := by
  induction ds using List.reverseRecOn with
  | nil => rfl
  | append_singleton ds d ih =>
    have before := ih fun a b r q first second =>
      settled a b r q (List.mem_append_left _ first) (List.mem_append_left _ second)
    rw [recordAll_append]
    obtain same | ⟨r, next⟩ | ⟨kept, old, differ, open_, -⟩ :=
      record_cases table (recordAll table ds) d
    · rw [same, before]
    · rw [next, before]
    · rw [recordAll_find?, open_] at old
      have earlier := mem_relationsOf.mp (mem_of_settle old)
      exact absurd open_ (settled _ _ kept d.relation (List.mem_append_left _ earlier) (by simp)
        differ)

theorem build_eq_ok {rules : List (Rule τ)} {table : PrecedenceTable τ}
    {d : Dict τ Levels.Sides} (separate : rules.find? Rule.hasAdjacent = none)
    (solved : Levels.solve (Rules.terminals rules)
      (recordAll table.relations (derivations rules)).relations = .ok d) :
    build rules table =
      .ok ⟨d.mapValues (exposed (openers rules) (closers rules)),
        (recordAll table.relations (derivations rules)).conflicts⟩ := by
  simp only [build, separate, solved]

end SasLayout.Grammar

namespace SasLayout.PrecedenceTable

variable {τ : Type} [DecidableEq τ] [LT τ] [DecidableLT τ]

/-! ### Tables -/

theorem relateRow_find? (r : Relation) (a : τ) (bs : List τ) (rs : Relations τ) (x y : τ) :
    (bs.foldl (fun rs b => rs.insert a b r) rs).find? x y =
      if x = a ∧ y ∈ bs then some r else rs.find? x y := by
  induction bs generalizing rs with
  | nil => simp
  | cons b rest ih =>
    rw [List.foldl_cons, ih, Relations.find?_insert]
    grind

theorem relateAll_find? (r : Relation) (as bs : List τ) (rs : Relations τ) (x y : τ) :
    (relateAll r as bs rs).find? x y = if x ∈ as ∧ y ∈ bs then some r else rs.find? x y := by
  unfold relateAll
  induction as generalizing rs with
  | nil => simp
  | cons a rest ih =>
    rw [List.foldl_cons, ih, relateRow_find?]
    grind

theorem relateAcross_find? {lower higher : PrecedenceLevel τ}
    (apart : ∀ a ∈ lower.operators, a ∉ higher.operators) (rs : Relations τ) (x y : τ) :
    (relateAcross lower higher rs).find? x y =
      if x ∈ lower.operators ∧ y ∈ higher.operators then some .lt
      else if x ∈ higher.operators ∧ y ∈ lower.operators then some .gt
      else rs.find? x y := by
  have row : ∀ (a : τ) (bs : List τ) (rs : Relations τ), a ∉ bs →
      (bs.foldl (fun rs b => (rs.insert a b .lt).insert b a .gt) rs).find? x y =
        if x = a ∧ y ∈ bs then some .lt else if x ∈ bs ∧ y = a then some .gt
        else rs.find? x y := by
    intro a bs
    induction bs with
    | nil => simp
    | cons b rest ih =>
      intro rs outside
      rw [List.foldl_cons, ih _ (by grind), Relations.find?_insert, Relations.find?_insert]
      grind
  unfold relateAcross
  generalize lower.operators = as at *
  induction as generalizing rs with
  | nil => simp
  | cons a rest ih =>
    rw [List.foldl_cons, ih _ fun b inside => apart b (List.mem_cons_of_mem _ inside),
      row _ _ _ (apart a List.mem_cons_self)]
    grind

/-- No operator is on two levels. -/
def Apart (levels : List (PrecedenceLevel τ)) : Prop :=
  levels.Pairwise fun lower higher => ∀ a ∈ lower.operators, a ∉ higher.operators

instance (levels : List (PrecedenceLevel τ)) : Decidable (Apart levels) :=
  inferInstanceAs (Decidable (List.Pairwise _ _))

theorem foldl_relateAcross_find? {lower : PrecedenceLevel τ} {rest : List (PrecedenceLevel τ)}
    (apart : ∀ higher ∈ rest, ∀ a ∈ lower.operators, a ∉ higher.operators) (rs : Relations τ)
    (x y : τ) :
    (rest.foldl (fun rs higher => relateAcross lower higher rs) rs).find? x y =
      if x ∈ lower.operators ∧ ∃ higher ∈ rest, y ∈ higher.operators then some .lt
      else if (∃ higher ∈ rest, x ∈ higher.operators) ∧ y ∈ lower.operators then some .gt
      else rs.find? x y := by
  induction rest generalizing rs with
  | nil => simp
  | cons higher rest ih =>
    rw [List.foldl_cons, ih (fun level inside => apart level (List.mem_cons_of_mem _ inside)),
      relateAcross_find? (apart higher List.mem_cons_self)]
    simp only [List.mem_cons, exists_eq_or_imp]
    by_cases left : x ∈ lower.operators
    · have absent : ¬ ∃ level ∈ rest, x ∈ level.operators := fun ⟨level, inside, both⟩ =>
        apart level (List.mem_cons_of_mem _ inside) x left both
      have apart_first : x ∉ higher.operators := apart higher List.mem_cons_self x left
      by_cases next : y ∈ higher.operators <;> simp [left, absent, apart_first, next]
    · by_cases next : x ∈ higher.operators <;> by_cases right : y ∈ lower.operators <;>
        simp [left, next, right]

theorem relateBetween_outside {levels : List (PrecedenceLevel τ)} (apart : Apart levels)
    (rs : Relations τ) {x y : τ}
    (outside : (∀ level ∈ levels, x ∉ level.operators) ∨ ∀ level ∈ levels, y ∉ level.operators) :
    (relateBetween levels rs).find? x y = rs.find? x y := by
  induction levels generalizing rs with
  | nil => rfl
  | cons lower rest ih =>
    obtain ⟨first, later⟩ := List.pairwise_cons.mp apart
    rw [relateBetween, ih later _ (outside.imp (fun all level inside => all level (by simp [inside]))
      (fun all level inside => all level (by simp [inside]))), foldl_relateAcross_find? first]
    grind

theorem relateBetween_find? {levels : List (PrecedenceLevel τ)} (apart : Apart levels)
    (rs : Relations τ) {x y : τ} {i j : Nat} {low high : PrecedenceLevel τ}
    (at_x : levels[i]? = some low) (at_y : levels[j]? = some high) (here : x ∈ low.operators)
    (there : y ∈ high.operators) :
    (relateBetween levels rs).find? x y =
      if i < j then some .lt else if j < i then some .gt else rs.find? x y := by
  induction levels generalizing rs i j with
  | nil => simp at at_x
  | cons lower rest ih =>
    obtain ⟨first, later⟩ := List.pairwise_cons.mp apart
    rw [relateBetween]
    cases i with
    | zero =>
      obtain rfl : lower = low := by simpa using at_x
      have absent : ∀ level ∈ rest, x ∉ level.operators := fun level inside => first level inside x here
      rw [relateBetween_outside later _ (Or.inl absent), foldl_relateAcross_find? first]
      cases j with
      | zero =>
        obtain rfl : lower = high := by simpa using at_y
        grind
      | succ j =>
        have member : high ∈ rest := List.mem_of_getElem? (by simpa using at_y)
        rw [if_pos ⟨here, high, member, there⟩, if_pos (Nat.succ_pos j)]
    | succ i =>
      have member : low ∈ rest := List.mem_of_getElem? (by simpa using at_x)
      have above : x ∉ lower.operators := fun both => first low member x both here
      cases j with
      | zero =>
        obtain rfl : lower = high := by simpa using at_y
        have absent : ∀ level ∈ rest, y ∉ level.operators := fun level inside =>
          first level inside y there
        rw [relateBetween_outside later _ (Or.inr absent), foldl_relateAcross_find? first,
          if_neg fun both => above both.1, if_pos ⟨⟨low, member, here⟩, there⟩,
          if_neg (Nat.not_lt_zero _), if_pos (Nat.succ_pos i)]
      | succ j =>
        have member' : high ∈ rest := List.mem_of_getElem? (by simpa using at_y)
        have above' : y ∉ lower.operators := fun both => first high member' y both there
        rw [ih later _ (by simpa using at_x) (by simpa using at_y),
          foldl_relateAcross_find? first]
        simp only [above, above', false_and, and_false, if_false, Nat.add_lt_add_iff_right]

theorem relateWithin_outside {levels : List (PrecedenceLevel τ)} {x y : τ}
    (outside : ∀ level ∈ levels, x ∉ level.operators) (rs : Relations τ) :
    (relateWithin levels rs).find? x y = rs.find? x y := by
  unfold relateWithin
  induction levels generalizing rs with
  | nil => rfl
  | cons level rest ih =>
    rw [List.foldl_cons, ih (fun other inside => outside other (List.mem_cons_of_mem _ inside)),
      relateAll_find?]
    grind

theorem relateWithin_find? {levels : List (PrecedenceLevel τ)} (apart : Apart levels)
    (rs : Relations τ) {x y : τ} {level : PrecedenceLevel τ} (listed : level ∈ levels)
    (here : x ∈ level.operators) (there : y ∈ level.operators) :
    (relateWithin levels rs).find? x y = some level.associativity.within := by
  unfold relateWithin
  induction levels generalizing rs with
  | nil => exact nomatch listed
  | cons first rest ih =>
    obtain ⟨disjoint, later⟩ := List.pairwise_cons.mp apart
    rw [List.foldl_cons]
    obtain rfl | inside := List.mem_cons.mp listed
    · have absent : ∀ other ∈ rest, x ∉ other.operators := fun other inside => disjoint other inside x here
      refine (relateWithin_outside absent _).trans ?_
      rw [relateAll_find?, if_pos ⟨here, there⟩]
    · exact ih later _ inside

/-- The relation that a table has for two of its operators. -/
theorem relations_find? {table : PrecedenceTable τ} (apart : Apart table.levels) {x y : τ}
    {i j : Nat} {low high : PrecedenceLevel τ} (at_x : table.levels[i]? = some low)
    (at_y : table.levels[j]? = some high) (here : x ∈ low.operators)
    (there : y ∈ high.operators) :
    table.relations.find? x y =
      some (if i < j then .lt else if j < i then .gt else low.associativity.within) := by
  rw [relations, relateBetween_find? apart _ at_x at_y here there]
  split_ifs with below above
  · rfl
  · rfl
  · obtain rfl : i = j := by omega
    obtain rfl : low = high := Option.some.inj (at_x.symm.trans at_y)
    exact relateWithin_find? apart _ (List.mem_of_getElem? at_x) here there

end SasLayout.PrecedenceTable
