import SasLayout.Proofs.CountedLayers

set_option autoImplicit false

/-!
The levels that the solver finds satisfy all relations, are the least that do, and are found
whenever some levels satisfy them and are numbers.
-/
namespace SasLayout

namespace Levels

variable {τ : Type}

/-! ### Solving -/

variable [DecidableEq τ]

/-- The two levels of each terminal stand in all relations between listed ones, `gap` apart where
they are strict. -/
def Satisfies (gap : Nat) (terminals : List τ) (relations : Relations τ) (left right : τ → Nat) :
    Prop :=
  ∀ a ∈ terminals, ∀ b ∈ terminals, ∀ r, (a, b, r) ∈ relations.toList →
    r.Spaced gap (right a) (left b)

section Solution

variable {terminals : List τ} {relations : Relations τ}

theorem classOf_joined {c : Constraint τ} (member : c ∈ constraints terminals relations)
    (equality : c.relation = .eq) :
    let cs := constraints terminals relations
    classOf (classes (2 * terminals.length) cs) c.right =
      classOf (classes (2 * terminals.length) cs) c.left :=
  foldl_join_joins member equality (by simpa using (constraint_bounds member).1)
    (by simpa using (constraint_bounds member).2)

/-- The entries that the solver inserts for the terminals from index `k` on. -/
theorem find?_foldl_sides [LT τ] [DecidableLT τ] (sides : Nat → Option Sides) (t : τ)
    (ts : List τ) (k : Nat) (start : Dict τ Sides)
    (all : ∀ i, k ≤ i → i < k + ts.length → (sides i).isSome) :
    (((ts.zipIdx k).map fun (t, i) => (t, sides i)).foldl
        (fun d (t, s) => match s with | some s => d.insert t s | none => d) start).find? t =
      match index? t ts with
      | some i => sides (k + i)
      | none => start.find? t := by
  induction ts generalizing k start with
  | nil => rfl
  | cons first rest ih =>
    obtain ⟨s, known⟩ := Option.isSome_iff_exists.mp (all k (by simp) (by simp))
    simp only [List.zipIdx_cons, List.map_cons, List.foldl_cons, known]
    rw [ih (k + 1) _ (fun i lower upper => all i (by omega) (by
      simp only [List.length_cons]; omega)), index?]
    cases later : index? t rest with
    | some j => simp only [Nat.add_assoc, Nat.add_comm 1 j]
    | none =>
      simp only [Dict.find?_insert]
      by_cases same : t = first
      · simp [same, known]
      · simp [same, Ne.symm same]

/-- The classes that the equalities make of the sides of the terminals. -/
def classesOf (terminals : List τ) (relations : Relations τ) : Classes :=
  classes (2 * terminals.length) (constraints terminals relations)

/-- The edges between these classes. -/
def edgesOf (terminals : List τ) (relations : Relations τ) : List Edge :=
  (constraints terminals relations).filterMap (edge? (classesOf terminals relations))

/-- The levels of these classes. -/
def levelsOf (terminals : List τ) (relations : Relations τ) : List (Nat × Nat) :=
  layers (edgesOf terminals relations) (classNames (classesOf terminals relations)) 0 []

def sidesOf? (terminals : List τ) (relations : Relations τ) (i : Nat) : Option Sides :=
  sides? (classesOf terminals relations) ((levelsOf terminals relations).lookup ·) i

variable [LT τ] [DecidableLT τ]

/-- The levels of all terminals that have them. -/
def solution (terminals : List τ) (relations : Relations τ) : Dict τ Sides :=
  (terminals.zipIdx.map fun (t, i) => (t, sidesOf? terminals relations i)).foldl
    (fun d (t, s) => match s with | some s => d.insert t s | none => d) .empty

/-- The ways in which the solver ends: with a relation that no levels satisfy, a level that is no
number, all levels, or classes that no layer reaches. -/
theorem solve_cases (terminals : List τ) (relations : Relations τ) :
    (∃ e ∈ edgesOf terminals relations, e.lower = e.higher) ∧
        (∃ names, solve terminals relations = .error (.cycle names)) ∨
      (∃ p ∈ levelsOf terminals relations, Limits.level < p.2 + step) ∧
        solve terminals relations = .error .overflow ∨
      (∀ p ∈ levelsOf terminals relations, p.2 + step ≤ Limits.level) ∧
        ((∀ i < terminals.length, (sidesOf? terminals relations i).isSome) ∧
            solve terminals relations = .ok (solution terminals relations) ∨
          (∃ i < terminals.length, sidesOf? terminals relations i = none) ∧
            ∃ names, solve terminals relations = .error (.cycle names)) := by
  simp only [solve_eq_assign, assign]
  cases ordered : edges (classes (2 * terminals.length) (constraints terminals relations))
    (constraints terminals relations) with
  | error cause =>
    obtain ⟨names, rfl⟩ := edges_error ordered
    refine Or.inl ⟨?_, names, rfl⟩
    by_contra strict
    simp only [not_exists, not_and] at strict
    cases ordered.symm.trans (edges_eq_ok_iff.mpr ⟨rfl, strict⟩)
  | ok es =>
    obtain rfl : es = edgesOf terminals relations := (edges_eq_ok_iff.mp ordered).1
    refine Or.inr ?_
    by_cases large : ∃ p ∈ levelsOf terminals relations, Limits.level < p.2 + step
    · refine Or.inl ⟨large, if_pos ?_⟩
      simpa [levelsOf, classesOf] using large
    · simp only [not_exists, not_and, Nat.not_lt] at large
      refine Or.inr ⟨large, ?_⟩
      have fits : ¬ (levelsOf terminals relations).any fun p => Limits.level < p.2 + step := by
        simpa using large
      have all := all_zipIdx_isSome terminals (sidesOf? terminals relations)
      by_cases complete : ∀ i < terminals.length, (sidesOf? terminals relations i).isSome
      · exact Or.inl ⟨complete, (if_neg fits).trans (if_pos (all.mpr complete))⟩
      · refine Or.inr ⟨by simpa using complete, ?_⟩
        exact ⟨_, (if_neg fits).trans (if_neg (mt all.mp complete))⟩

/-- What the solver returns: the sides of each terminal at its index, all of them known. -/
theorem solve_eq_ok {d : Dict τ Sides} (solved : solve terminals relations = .ok d) :
    (∀ p ∈ levelsOf terminals relations, p.2 + step ≤ Limits.level) ∧
      (∀ i < terminals.length, (sidesOf? terminals relations i).isSome) ∧
      d = solution terminals relations := by
  obtain ⟨-, names, cycle⟩ | ⟨-, overflow⟩ | ⟨small, ⟨all, ok⟩ | ⟨-, names, cycle⟩⟩ :=
    solve_cases terminals relations
  · cases solved.symm.trans cycle
  · cases solved.symm.trans overflow
  · exact ⟨small, all, Except.ok.inj (solved.symm.trans ok)⟩
  · cases solved.symm.trans cycle

theorem find?_solution (all : ∀ i < terminals.length, (sidesOf? terminals relations i).isSome)
    (t : τ) :
    (solution terminals relations).find? t =
      (index? t terminals).bind (sidesOf? terminals relations) := by
  refine (find?_foldl_sides (sidesOf? terminals relations) t terminals 0 .empty
    fun i _ bound => all i (by omega)).trans ?_
  cases index? t terminals <;> simp

/-- The solver gives levels to the listed terminals and to no other. -/
theorem exists_solve_find? {d : Dict τ Sides} (solved : solve terminals relations = .ok d)
    {t : τ} : (∃ s, d.find? t = some s) ↔ t ∈ terminals := by
  obtain ⟨-, all, rfl⟩ := solve_eq_ok solved
  rw [find?_solution all]
  constructor
  · rintro ⟨s, found⟩
    obtain ⟨i, index, -⟩ := Option.bind_eq_some_iff.mp found
    exact mem_of_index? index
  · intro listed
    obtain ⟨i, index⟩ := exists_index? listed
    rw [index]
    exact Option.isSome_iff_exists.mp (all i (index?_lt index))

theorem solution_sorted [IsStrictTotalOrder τ (· < ·)] :
    (solution terminals relations).Sorted := by
  unfold solution
  generalize terminals.zipIdx.map _ = sides
  suffices kept : ∀ start : Dict τ Sides, start.Sorted → Dict.Sorted (sides.foldl
      (fun d (t, s) => match s with | some s => d.insert t s | none => d) start) from
    kept _ Dict.Sorted.empty
  induction sides with
  | nil => exact fun _ sorted => sorted
  | cons entry rest ih =>
    refine fun start sorted => ih _ ?_
    obtain ⟨t, _ | s⟩ := entry
    · exact sorted
    · exact sorted.insert t s

theorem solve_sorted [IsStrictTotalOrder τ (· < ·)] {d : Dict τ Sides}
    (solved : solve terminals relations = .ok d) : d.Sorted := by
  obtain ⟨-, -, rfl⟩ := solve_eq_ok solved
  exact solution_sorted

/-- The levels of a terminal are those of the classes of its sides. -/
theorem solve_find? {d : Dict τ Sides} (solved : solve terminals relations = .ok d) {t : τ}
    {s : Sides} (entry : d.find? t = some s) :
    ∃ i, index? t terminals = some i ∧
      (levelsOf terminals relations).lookup (classOf (classesOf terminals relations) (leftVar i)) =
        some s.left ∧
      (levelsOf terminals relations).lookup (classOf (classesOf terminals relations) (rightVar i)) =
        some s.right := by
  obtain ⟨-, all, rfl⟩ := solve_eq_ok solved
  rw [find?_solution all, Option.bind_eq_some_iff] at entry
  obtain ⟨i, index, sides⟩ := entry
  exact ⟨i, index, sides?_eq_some.mp sides⟩

/-- The levels that the solver finds satisfy all relations, a step apart. -/
theorem solve_satisfies {d : Dict τ Sides} (solved : solve terminals relations = .ok d)
    {a b : τ} {r : Relation} {s t : Sides} (related : (a, b, r) ∈ relations.toList)
    (first : d.find? a = some s) (second : d.find? b = some t) : r.Spaced step s.right t.left := by
  obtain ⟨i, first_index, -, right⟩ := solve_find? solved first
  obtain ⟨j, second_index, left, -⟩ := solve_find? solved second
  have member : ⟨a, b, rightVar i, leftVar j, r⟩ ∈ constraints terminals relations :=
    mem_constraints.mpr ⟨related, i, j, first_index, second_index, rfl, rfl⟩
  exact layers_spaced member (classOf_joined member) right left

/-- The levels that the solver finds leave room for another step. -/
theorem solve_small {d : Dict τ Sides} (solved : solve terminals relations = .ok d) {t : τ}
    {s : Sides} (entry : d.find? t = some s) :
    s.left + step ≤ Limits.level ∧ s.right + step ≤ Limits.level := by
  obtain ⟨i, -, left, right⟩ := solve_find? solved entry
  have small := (solve_eq_ok solved).1
  exact ⟨small _ (mem_of_lookup left), small _ (mem_of_lookup right)⟩

/-- The level that two functions of terminals give to a variable. -/
def levelOf (terminals : List τ) (left right : τ → Nat) (v : Nat) : Nat :=
  (terminals[v / 2]?.map fun t => if v % 2 = 0 then left t else right t).getD 0

omit [DecidableEq τ] [LT τ] [DecidableLT τ] in
theorem levelOf_leftVar {left right : τ → Nat} {t : τ} {i : Nat} (here : terminals[i]? = some t) :
    levelOf terminals left right (leftVar i) = left t := by
  simp [levelOf, leftVar, here]

omit [DecidableEq τ] [LT τ] [DecidableLT τ] in
theorem levelOf_rightVar {left right : τ → Nat} {t : τ} {i : Nat} (here : terminals[i]? = some t) :
    levelOf terminals left right (rightVar i) = right t := by
  have half : (2 * i + 1) / 2 = i := by omega
  have odd : (2 * i + 1) % 2 = 1 := by omega
  simp [levelOf, rightVar, half, odd, here]

omit [DecidableEq τ] [LT τ] [DecidableLT τ] in
theorem levelOf_small {left right : τ → Nat}
    (small : ∀ t ∈ terminals, left t + step ≤ Limits.level ∧ right t + step ≤ Limits.level)
    (v : Nat) : levelOf terminals left right v + step ≤ Limits.level := by
  unfold levelOf
  cases here : terminals[v / 2]? with
  | none =>
    show 0 + step ≤ Limits.level
    decide
  | some t =>
    obtain ⟨left_fits, right_fits⟩ := small t (List.mem_of_getElem? here)
    simp only [Option.map_some, Option.getD_some]
    split_ifs
    · exact left_fits
    · exact right_fits

omit [DecidableEq τ] [LT τ] [DecidableLT τ] in
theorem Satisfies.mono {gap wide : Nat} {left right : τ → Nat} (narrow : gap ≤ wide)
    (satisfied : Satisfies wide terminals relations left right) :
    Satisfies gap terminals relations left right :=
  fun a first b second r related => (satisfied a first b second r related).mono narrow

omit [LT τ] [DecidableLT τ] in
theorem Satisfies.constraint {gap : Nat} {left right : τ → Nat}
    (satisfied : Satisfies gap terminals relations left right) {c : Constraint τ}
    (member : c ∈ constraints terminals relations) :
    c.relation.Spaced gap (levelOf terminals left right c.right)
      (levelOf terminals left right c.left) := by
  obtain ⟨related, i, j, first, second, right_eq, left_eq⟩ := mem_constraints.mp member
  rw [right_eq, left_eq, levelOf_rightVar (index?_bound first),
    levelOf_leftVar (index?_bound second)]
  exact satisfied _ (mem_of_index? first) _ (mem_of_index? second) _ related

omit [LT τ] [DecidableLT τ] in
theorem Satisfies.respected {gap : Nat} {left right : τ → Nat}
    (satisfied : Satisfies gap terminals relations left right) (v : Nat) :
    levelOf terminals left right (classOf (classesOf terminals relations) v) =
      levelOf terminals left right v := by
  refine classOf_classes_respects (fun c member equality => ?_) v
  have spaced := satisfied.constraint member
  rw [equality] at spaced
  exact spaced

omit [LT τ] [DecidableLT τ] in
theorem Satisfies.rise {gap : Nat} {left right : τ → Nat}
    (satisfied : Satisfies gap terminals relations left right) {e : Edge}
    (member : e ∈ edgesOf terminals relations) :
    levelOf terminals left right e.lower + gap ≤ levelOf terminals left right e.higher := by
  obtain ⟨c, constraint, edge⟩ := List.mem_filterMap.mp member
  exact edge_spaced satisfied.respected (satisfied.constraint constraint) edge

omit [LT τ] [DecidableLT τ] in
theorem edges_inside {e : Edge} (member : e ∈ edgesOf terminals relations) :
    e.lower ∈ classNames (classesOf terminals relations) := by
  obtain ⟨c, constraint, edge⟩ := List.mem_filterMap.mp member
  have bounds := constraint_bounds constraint
  rw [← length_classes (2 * terminals.length) (constraints terminals relations)] at bounds
  exact (edge_mem bounds.1 bounds.2 edge).1

omit [LT τ] [DecidableLT τ] in
/-- The level of a class is no higher than any levels that satisfy all relations a step apart. -/
theorem Satisfies.least {left right : τ → Nat}
    (satisfied : Satisfies step terminals relations left right) {c n : Nat}
    (level : (c, n) ∈ levelsOf terminals relations) : n ≤ levelOf terminals left right c :=
  (layers_least (fun _ => satisfied.rise) (fun _ => edges_inside) (fun _ _ => Nat.zero_le _)
    level).resolve_left (by simp)

omit [LT τ] [DecidableLT τ] in
/-- If some levels satisfy all relations then no layer leaves a terminal out. -/
theorem Satisfies.complete {left right : τ → Nat}
    (satisfied : Satisfies 1 terminals relations left right) {i : Nat}
    (bound : i < terminals.length) : (sidesOf? terminals relations i).isSome := by
  have known : ∀ v, v < 2 * terminals.length → (levelsOf terminals relations).lookup
      (classOf (classesOf terminals relations) v) ≠ none := by
    intro v inside
    have named : classOf (classesOf terminals relations) v ∈
        classNames (classesOf terminals relations) :=
      classOf_mem_classNames (by rwa [classesOf, length_classes])
    obtain ⟨n, member⟩ : ∃ n, (_, n) ∈ levelsOf terminals relations :=
      layers_complete (fun _ => satisfied.rise) (fun _ => edges_inside) (Or.inl named)
    obtain ⟨m, found⟩ := exists_lookup member
    exact Option.ne_none_iff_exists'.mpr ⟨m, found⟩
  exact sides?_isSome.mpr ⟨known _ (by simp only [leftVar]; omega),
    known _ (by simp only [rightVar]; omega)⟩

/-- No levels that satisfy all relations a step apart are lower than those of the solver. -/
theorem solve_least {d : Dict τ Sides} (solved : solve terminals relations = .ok d)
    {left right : τ → Nat} (satisfied : Satisfies step terminals relations left right) {t : τ}
    {s : Sides} (entry : d.find? t = some s) : s.left ≤ left t ∧ s.right ≤ right t := by
  obtain ⟨i, index, left_level, right_level⟩ := solve_find? solved entry
  have here := index?_bound index
  have below := satisfied.least (mem_of_lookup left_level)
  have above := satisfied.least (mem_of_lookup right_level)
  rw [satisfied.respected, levelOf_leftVar here] at below
  rw [satisfied.respected, levelOf_rightVar here] at above
  exact ⟨below, above⟩

/-- If some levels satisfy all relations then the solver finds levels, unless one of them is no
number. -/
theorem Satisfies.solve {left right : τ → Nat}
    (satisfied : Satisfies 1 terminals relations left right) :
    (∃ d, solve terminals relations = .ok d) ∨
      (∃ p ∈ levelsOf terminals relations, Limits.level < p.2 + step) ∧
        Levels.solve terminals relations = .error .overflow := by
  obtain ⟨⟨e, member, loop⟩, -⟩ | large | ⟨-, ⟨-, ok⟩ | ⟨⟨i, bound, missing⟩, -⟩⟩ :=
    solve_cases terminals relations
  · have rise := satisfied.rise member
    rw [loop] at rise
    omega
  · exact Or.inr large
  · exact Or.inl ⟨_, ok⟩
  · have known := satisfied.complete bound
    rw [missing] at known
    exact nomatch known

/-- If some levels satisfy all relations a step apart, and leave room for another step, then the
solver finds levels. -/
theorem solve_complete {left right : τ → Nat}
    (satisfied : Satisfies step terminals relations left right)
    (small : ∀ t ∈ terminals, left t + step ≤ Limits.level ∧ right t + step ≤ Limits.level) :
    ∃ d, solve terminals relations = .ok d := by
  refine (satisfied.mono (by decide)).solve.resolve_right ?_
  rintro ⟨⟨⟨c, n⟩, level, large⟩, -⟩
  have below := satisfied.least level
  have fits := levelOf_small small c
  simp only at large
  omega

/-- The solver runs out of levels only on very many terminals. -/
theorem solve_overflow (overflow : solve terminals relations = .error .overflow) :
    Limits.level < 2 * step * terminals.length := by
  obtain ⟨-, names, cycle⟩ | ⟨⟨⟨c, n⟩, level, large⟩, -⟩ | ⟨-, ⟨-, ok⟩ | ⟨-, names, cycle⟩⟩ :=
    solve_cases terminals relations
  · cases overflow.symm.trans cycle
  · have bound := (layers_bound level).resolve_left (by simp)
    have names := length_classNames_le (classesOf terminals relations)
    rw [classesOf, length_classes] at names
    have steps := Nat.mul_le_mul_left step names
    rw [← Nat.mul_assoc, Nat.mul_comm step 2] at steps
    simp only [classesOf] at bound
    simp only at large
    omega
  · cases overflow.symm.trans ok
  · cases overflow.symm.trans cycle

/-- The levels that a dictionary has for a terminal. -/
def sidesIn (d : Dict τ Sides) (t : τ) : Sides :=
  (d.find? t).getD ⟨0, 0⟩

omit [LT τ] [DecidableLT τ] in
theorem sidesIn_eq {d : Dict τ Sides} {t : τ} {s : Sides} (found : d.find? t = some s) :
    sidesIn d t = s := by
  rw [sidesIn, found, Option.getD_some]

theorem solve_satisfied {d : Dict τ Sides} (solved : solve terminals relations = .ok d) :
    Satisfies step terminals relations (fun t => (sidesIn d t).left)
      (fun t => (sidesIn d t).right) := by
  intro a first b second r related
  obtain ⟨s, at_a⟩ := (exists_solve_find? solved).mpr first
  obtain ⟨t, at_b⟩ := (exists_solve_find? solved).mpr second
  simp only [sidesIn_eq at_a, sidesIn_eq at_b]
  exact solve_satisfies solved related at_a at_b

omit [DecidableEq τ] [LT τ] [DecidableLT τ] in
theorem Satisfies.of_mem {gap : Nat} {others : List τ} {left right : τ → Nat}
    (fewer : ∀ t ∈ others, t ∈ terminals)
    (satisfied : Satisfies gap terminals relations left right) :
    Satisfies gap others relations left right :=
  fun a first b second => satisfied a (fewer a first) b (fewer b second)

/-- The solver finds the same levels for any list of the same terminals: each of the two solutions
is the least one. -/
theorem solve_congr [IsStrictTotalOrder τ (· < ·)] {others : List τ} {d : Dict τ Sides}
    (same : ∀ t, t ∈ others ↔ t ∈ terminals) (solved : solve terminals relations = .ok d) :
    solve others relations = .ok d := by
  have satisfied := (solve_satisfied solved).of_mem fun t => (same t).mp
  obtain ⟨e, found⟩ := solve_complete satisfied fun t listed => by
    obtain ⟨s, here⟩ := (exists_solve_find? solved).mpr ((same t).mp listed)
    rw [sidesIn_eq here]
    exact solve_small solved here
  have back := (solve_satisfied found).of_mem fun t => (same t).mpr
  have agree : ∀ t, e.find? t = d.find? t := by
    intro t
    by_cases listed : t ∈ terminals
    · obtain ⟨s, here⟩ := (exists_solve_find? solved).mpr listed
      obtain ⟨u, there⟩ := (exists_solve_find? found).mpr ((same t).mpr listed)
      have below := solve_least solved back here
      have above := solve_least found satisfied there
      simp only [sidesIn_eq here, sidesIn_eq there] at below above
      have equal : u = s :=
        congrArg₂ Sides.mk (Nat.le_antisymm above.1 below.1) (Nat.le_antisymm above.2 below.2)
      rw [here, there, equal]
    · have absent : ∀ {ts : List τ} {x : Dict τ Sides}, solve ts relations = .ok x → t ∉ ts →
          x.find? t = none := fun ok outside => by
        rw [Option.eq_none_iff_forall_ne_some]
        exact fun s here => outside ((exists_solve_find? ok).mp ⟨s, here⟩)
      rw [absent solved listed, absent found (mt (same t).mp listed)]
  rw [found, (solve_sorted found).ext (solve_sorted solved) agree]

/-- The levels that the solver finds are the least that satisfy all relations between the listed
terminals, ten apart where these are strict. The order of the terminals does not count. -/
theorem solve_isLeast [IsStrictTotalOrder τ (· < ·)] (terminals : List τ) (relations : Relations τ)
    (d : Dict τ Sides) (solved : solve terminals relations = .ok d) :
    (∀ t, (∃ s, d.find? t = some s) ↔ t ∈ terminals) ∧
      Satisfies 10 terminals relations (fun t => (sidesIn d t).left)
        (fun t => (sidesIn d t).right) ∧
      (∀ left right : τ → Nat, Satisfies 10 terminals relations left right → ∀ t ∈ terminals,
        (sidesIn d t).left ≤ left t ∧ (sidesIn d t).right ≤ right t) ∧
      ∀ others : List τ, others.Perm terminals → solve others relations = .ok d := by
  refine ⟨fun t => exists_solve_find? solved, solve_satisfied solved, ?_, ?_⟩
  · intro left right satisfied t listed
    obtain ⟨s, found⟩ := (exists_solve_find? solved).mpr listed
    rw [sidesIn_eq found]
    exact solve_least solved satisfied found
  · intro others reordered
    exact solve_congr (fun t => reordered.mem_iff) solved

/-- Brackets whose insides bind more tightly, around a chain of two operators. -/
theorem solve_isLeast_brackets :
    let terminals := ["+", "*", "(", ")"]
    let relations := ((((Relations.empty.insert "+" "+" .gt).insert "+" "*" .lt).insert "*" "+"
      .gt).insert "(" ")" .eq).insert "(" "+" .lt
    let d : Dict String Sides :=
      ⟨[("(", ⟨0, 0⟩), (")", ⟨0, 0⟩), ("*", ⟨30, 20⟩), ("+", ⟨10, 20⟩)]⟩
    solve terminals relations = .ok d ∧ solve ["*", ")", "+", "("] relations = .ok d ∧
      ∀ left right : String → Nat, Satisfies 10 terminals relations left right → 30 ≤ left "*" := by
  intro terminals relations d
  have solved : solve terminals relations = .ok d := by decide +kernel
  obtain ⟨-, -, least, order⟩ := solve_isLeast terminals relations d solved
  refine ⟨solved, order _ (by decide), fun left right satisfied => ?_⟩
  exact (least left right satisfied "*" (by decide)).1

/-! ### Relations that no levels satisfy -/

/-- The solver reports a cycle exactly when no levels satisfy all relations between the listed
terminals, unless it runs out of levels, for which it takes very many terminals. -/
theorem solve_cycle_iff (terminals : List τ) (relations : Relations τ) :
    ((∃ names, solve terminals relations = .error (.cycle names)) ↔
        (¬ ∃ left right : τ → Nat, Satisfies 1 terminals relations left right) ∧
          solve terminals relations ≠ .error .overflow) ∧
      (solve terminals relations = .error .overflow → Limits.level < 20 * terminals.length) := by
  refine ⟨⟨?_, ?_⟩, solve_overflow⟩
  · rintro ⟨names, cycle⟩
    refine ⟨?_, fun overflow => nomatch cycle.symm.trans overflow⟩
    rintro ⟨left, right, satisfied⟩
    obtain ⟨d, ok⟩ | ⟨-, overflow⟩ := satisfied.solve
    · cases cycle.symm.trans ok
    · cases cycle.symm.trans overflow
  · rintro ⟨none_satisfy, fits⟩
    obtain ⟨-, cycle⟩ | ⟨-, overflow⟩ | ⟨-, ⟨-, ok⟩ | ⟨-, cycle⟩⟩ := solve_cases terminals relations
    · exact cycle
    · exact absurd overflow fits
    · exact absurd ⟨_, _, (solve_satisfied ok).mono (by decide)⟩ none_satisfy
    · exact cycle

end Solution

end Levels
end SasLayout
