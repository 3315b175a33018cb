import Mathlib.Data.List.Perm.Subperm
import Mathlib.Data.String.Basic
import Mathlib.Order.Nat
import SasLayout.Grammar.Levels
import SasLayout.Proofs.Dictionary

set_option autoImplicit false

/-!
Levels by plain layers: every equality renames a class throughout, and a layer holds the classes
that no edge from a class without a level ends in. What these levels are is said here; that the
solver's trees and counts come to the same is a theorem of its own.
-/
namespace SasLayout

/-- Whether two levels stand in a relation, `gap` apart where it is strict. -/
def Relation.Spaced (gap : Nat) : Relation → Nat → Nat → Prop
  | .lt, x, y => x + gap ≤ y
  | .eq, x, y => x = y
  | .gt, x, y => y + gap ≤ x

instance (gap : Nat) (r : Relation) (x y : Nat) : Decidable (r.Spaced gap x y) := by
  cases r <;> unfold Relation.Spaced <;> infer_instance

theorem Relation.Spaced.unique {gap : Nat} (strict : 0 < gap) {r q : Relation} {x y : Nat}
    (first : r.Spaced gap x y) (second : q.Spaced gap x y) : r = q := by
  cases r <;> cases q <;> simp only [Relation.Spaced] at first second <;> first | rfl | omega

theorem Relation.Spaced.mono {gap wide : Nat} {r : Relation} {x y : Nat} (narrow : gap ≤ wide)
    (spaced : r.Spaced wide x y) : r.Spaced gap x y := by
  cases r <;> simp only [Relation.Spaced] at * <;> omega

namespace Levels

variable {τ : Type}

/-! ### Classes of variables -/

/-- Puts two variables, and all in their classes, into one class. -/
def merge (classes : Classes) (v w : Nat) : Classes :=
  let kept := classOf classes v
  let gone := classOf classes w
  classes.map fun c => if c = gone then kept else c

/-- The classes that the equalities make of `count` variables. -/
def classes (count : Nat) (cs : List (Constraint τ)) : Classes :=
  cs.foldl (fun classes c =>
    if c.relation = .eq then merge classes c.right c.left else classes) (List.range count)

theorem classOf_merge {classes : Classes} {x : Nat} (v w : Nat) (known : x < classes.length) :
    classOf (merge classes v w) x =
      if classOf classes x = classOf classes w then classOf classes v else classOf classes x := by
  simp [classOf, merge, known]

@[simp] theorem length_merge (classes : Classes) (v w : Nat) :
    (merge classes v w).length = classes.length := by
  simp [merge]

theorem merge_keeps {classes : Classes} {x y : Nat} (v w : Nat) (left : x < classes.length)
    (right : y < classes.length) (same : classOf classes x = classOf classes y) :
    classOf (merge classes v w) x = classOf (merge classes v w) y := by
  rw [classOf_merge v w left, classOf_merge v w right, same]

theorem merge_joins {classes : Classes} {v w : Nat} (left : v < classes.length)
    (right : w < classes.length) :
    classOf (merge classes v w) v = classOf (merge classes v w) w := by
  rw [classOf_merge v w left, classOf_merge v w right]
  simp

theorem merge_respects {classes : Classes} {level : Nat → Nat} {v w : Nat}
    (same : level v = level w) (respected : ∀ x, level (classOf classes x) = level x) (x : Nat) :
    level (classOf (merge classes v w) x) = level x := by
  by_cases known : x < classes.length
  · rw [classOf_merge v w known]
    split_ifs with gone
    · rw [respected, same, ← respected w, ← gone, respected]
    · exact respected x
  · simp [classOf, merge, known]

/-- What one equality does to the classes. -/
def join (classes : Classes) (c : Constraint τ) : Classes :=
  if c.relation = .eq then merge classes c.right c.left else classes

theorem classes_eq (count : Nat) (cs : List (Constraint τ)) :
    classes count cs = cs.foldl join (List.range count) := rfl

@[simp] theorem length_join (classes : Classes) (c : Constraint τ) :
    (join classes c).length = classes.length := by
  unfold join
  split_ifs <;> simp

theorem length_foldl_join (cs : List (Constraint τ)) (start : Classes) :
    (cs.foldl join start).length = start.length := by
  induction cs generalizing start with
  | nil => rfl
  | cons c rest ih => rw [List.foldl_cons, ih, length_join]

theorem foldl_join_keeps (cs : List (Constraint τ)) {start : Classes} {x y : Nat}
    (left : x < start.length) (right : y < start.length)
    (same : classOf start x = classOf start y) :
    classOf (cs.foldl join start) x = classOf (cs.foldl join start) y := by
  induction cs generalizing start with
  | nil => exact same
  | cons c rest ih =>
    refine ih (by simpa using left) (by simpa using right) ?_
    unfold join
    split_ifs
    · exact merge_keeps _ _ left right same
    · exact same

theorem foldl_join_joins {cs : List (Constraint τ)} {start : Classes} {c : Constraint τ}
    (member : c ∈ cs) (equality : c.relation = .eq) (left : c.right < start.length)
    (right : c.left < start.length) :
    classOf (cs.foldl join start) c.right = classOf (cs.foldl join start) c.left := by
  induction cs generalizing start with
  | nil => exact nomatch member
  | cons first rest ih =>
    obtain rfl | later := List.mem_cons.mp member
    · refine foldl_join_keeps rest (by simpa using left) (by simpa using right) ?_
      rw [join, if_pos equality]
      exact merge_joins left right
    · exact ih later (by simpa using left) (by simpa using right)

/-- Levels that satisfy all equalities are the same within a class. -/
theorem foldl_join_respects {level : Nat → Nat} (cs : List (Constraint τ)) {start : Classes}
    (equalities : ∀ c ∈ cs, c.relation = .eq → level c.right = level c.left)
    (respected : ∀ x, level (classOf start x) = level x) (x : Nat) :
    level (classOf (cs.foldl join start) x) = level x := by
  induction cs generalizing start with
  | nil => exact respected x
  | cons c rest ih =>
    refine ih (fun d member => equalities d (List.mem_cons_of_mem _ member)) (fun y => ?_)
    unfold join
    split_ifs with equality
    · exact merge_respects (equalities c List.mem_cons_self equality) respected y
    · exact respected y

theorem classOf_range (count x : Nat) : classOf (List.range count) x = x := by
  by_cases known : x < count <;> simp [classOf, List.getD, known]

theorem classOf_classes_respects {level : Nat → Nat} {count : Nat} {cs : List (Constraint τ)}
    (equalities : ∀ c ∈ cs, c.relation = .eq → level c.right = level c.left) (x : Nat) :
    level (classOf (classes count cs) x) = level x :=
  foldl_join_respects cs equalities (fun y => by rw [classOf_range]) x

/-! ### The order between classes -/

def edge? (classes : Classes) (c : Constraint τ) : Option Edge :=
  match c.relation with
  | .eq => none
  | .lt => some ⟨classOf classes c.right, classOf classes c.left⟩
  | .gt => some ⟨classOf classes c.left, classOf classes c.right⟩

/-- The order between the classes, unless some constraint puts a class below itself. -/
def edges (classes : Classes) : List (Constraint τ) → Except (GrammarError τ) (List Edge)
  | [] => .ok []
  | c :: rest =>
    match edge? classes c with
    | none => edges classes rest
    | some e =>
      if e.lower = e.higher then .error (.cycle [c.first, c.second])
      else (edges classes rest).map (e :: ·)

theorem edges_eq_ok_iff {classes : Classes} {cs : List (Constraint τ)} {es : List Edge} :
    edges classes cs = .ok es ↔
      es = cs.filterMap (edge? classes) ∧ ∀ e ∈ es, e.lower ≠ e.higher := by
  induction cs generalizing es with
  | nil => simp [edges, eq_comm]; grind
  | cons c rest ih =>
    rw [edges, List.filterMap_cons]
    cases found : edge? classes c with
    | none => exact ih
    | some e =>
      by_cases loop : e.lower = e.higher
      · simp only [loop, if_true, reduceCtorEq, false_iff]
        rintro ⟨rfl, strict⟩
        exact strict e List.mem_cons_self loop
      · simp only [loop, if_false]
        cases tail : edges classes rest with
        | error cause =>
          simp only [Except.map, reduceCtorEq, false_iff]
          rintro ⟨rfl, strict⟩
          have := ih.mpr ⟨rfl, fun x member => strict x (List.mem_cons_of_mem _ member)⟩
          rw [tail] at this
          exact nomatch this
        | ok more =>
          obtain ⟨rfl, strict⟩ := ih.mp tail
          simp only [Except.map, Except.ok.injEq]
          constructor
          · rintro rfl
            exact ⟨rfl, fun x member => (List.mem_cons.mp member).elim (· ▸ loop) (strict x)⟩
          · exact fun right => right.1.symm

theorem edges_error {classes : Classes} {cs : List (Constraint τ)} {cause : GrammarError τ}
    (failed : edges classes cs = .error cause) : ∃ names, cause = .cycle names := by
  induction cs with
  | nil => exact nomatch failed
  | cons c rest ih =>
    rw [edges] at failed
    cases found : edge? classes c with
    | none =>
      rw [found] at failed
      exact ih failed
    | some e =>
      simp only [found] at failed
      split_ifs at failed with loop
      · exact ⟨_, (Except.error.inj failed).symm⟩
      · cases tail : edges classes rest with
        | error later =>
          rw [tail] at failed ih
          exact ih failed
        | ok es =>
          rw [tail] at failed
          exact nomatch failed

/-! ### Layers -/

/-- The classes above none of those that an edge starts from. -/
def ready (edges : List Edge) (remaining : List Nat) : List Nat :=
  remaining.filter fun c => !edges.any (·.higher == c)

def without (gone remaining : List Nat) : List Nat :=
  remaining.filter fun c => !gone.contains c

theorem length_without_lt {edges : List Edge} {remaining : List Nat} {first : Nat}
    {others : List Nat} (free : ready edges remaining = first :: others) :
    (without (first :: others) remaining).length < remaining.length := by
  have member : first ∈ ready edges remaining := free ▸ List.mem_cons_self
  exact List.length_filter_lt_length_iff_exists.mpr
    ⟨first, (List.mem_filter.mp member).1, by simp⟩

/-- Gives levels to the remaining classes layer by layer; those left at the end depend on
themselves. -/
def layers (edges : List Edge) (remaining : List Nat) (level : Nat) (found : List (Nat × Nat)) :
    List (Nat × Nat) :=
  match free : ready edges remaining with
  | [] => found
  | first :: others =>
    have := length_without_lt free
    layers (edges.filter fun e => !(first :: others).contains e.lower)
      (without (first :: others) remaining) (level + step)
      (found ++ (first :: others).map (·, level))
termination_by remaining.length

theorem mem_ready {es : List Edge} {remaining : List Nat} {c : Nat} :
    c ∈ ready es remaining ↔ c ∈ remaining ∧ ∀ e ∈ es, e.higher ≠ c := by
  simp [ready]

theorem mem_without {gone remaining : List Nat} {c : Nat} :
    c ∈ without gone remaining ↔ c ∈ remaining ∧ c ∉ gone := by
  simp [without]

/-- The edges that start from none of the given classes. -/
def startingOutside (layer : List Nat) (es : List Edge) : List Edge :=
  es.filter fun e => !layer.contains e.lower

theorem mem_startingOutside {layer : List Nat} {es : List Edge} {e : Edge} :
    e ∈ startingOutside layer es ↔ e ∈ es ∧ e.lower ∉ layer := by
  simp [startingOutside]

theorem layers_done {es : List Edge} {remaining : List Nat} (level : Nat)
    (found : List (Nat × Nat)) (none_free : ready es remaining = []) :
    layers es remaining level found = found := by
  rw [layers]
  split
  · rfl
  · simp_all

theorem layers_more {es : List Edge} {remaining : List Nat} (level : Nat)
    (found : List (Nat × Nat)) (some_free : ready es remaining ≠ []) :
    layers es remaining level found =
      layers (startingOutside (ready es remaining) es) (without (ready es remaining) remaining)
        (level + step) (found ++ (ready es remaining).map (·, level)) := by
  rw [layers]
  split
  · contradiction
  · rename_i first others free
    simp only [startingOutside, free]

theorem layers_induction
    {motive : List Edge → List Nat → Nat → List (Nat × Nat) → Prop}
    (done : ∀ es remaining level found, ready es remaining = [] →
      motive es remaining level found)
    (more : ∀ es remaining level found, ready es remaining ≠ [] →
      motive (startingOutside (ready es remaining) es) (without (ready es remaining) remaining)
        (level + step) (found ++ (ready es remaining).map (·, level)) →
      motive es remaining level found)
    (es : List Edge) (remaining : List Nat) (level : Nat) (found : List (Nat × Nat)) :
    motive es remaining level found := by
  induction size : remaining.length using Nat.strongRecOn generalizing es remaining level found
    with
  | ind count ih =>
    cases free : ready es remaining with
    | nil => exact done _ _ _ _ free
    | cons first others =>
      refine more _ _ _ _ (free ▸ List.cons_ne_nil _ _) ?_
      exact ih _ (size ▸ free ▸ length_without_lt free) _ _ _ _ rfl

theorem mem_append_layer {found : List (Nat × Nat)} {layer : List Nat} {level c n : Nat} :
    (c, n) ∈ found ++ layer.map (·, level) ↔ (c, n) ∈ found ∨ c ∈ layer ∧ n = level := by
  simp only [List.mem_append, List.mem_map, Prod.mk.injEq]
  grind

/-- A class in the result was there before, or was left and has a level from `level` on. -/
theorem mem_layers {es : List Edge} {remaining : List Nat} {level : Nat}
    {found : List (Nat × Nat)} {c n : Nat} (member : (c, n) ∈ layers es remaining level found) :
    (c, n) ∈ found ∨ c ∈ remaining ∧ level ≤ n := by
  induction es, remaining, level, found using layers_induction with
  | done es remaining level found free =>
    rw [layers_done _ _ free] at member
    exact Or.inl member
  | more es remaining level found free ih =>
    rw [layers_more _ _ free] at member
    obtain old | ⟨left, above⟩ := ih member
    · obtain old | ⟨layer, rfl⟩ := mem_append_layer.mp old
      · exact Or.inl old
      · exact Or.inr ⟨(mem_ready.mp layer).1, Nat.le_refl _⟩
    · exact Or.inr ⟨(mem_without.mp left).1, by omega⟩

/-- Along an edge the levels rise by a step: an edge stays as long as its lower class has no
level, and until then its higher class is not ready. -/
theorem layers_rise {es : List Edge} {remaining : List Nat} {level : Nat}
    {found : List (Nat × Nat)} {e : Edge} {low high : Nat} (edge : e ∈ es)
    (fresh : ∀ n, (e.lower, n) ∉ found ∧ (e.higher, n) ∉ found)
    (lower : (e.lower, low) ∈ layers es remaining level found)
    (higher : (e.higher, high) ∈ layers es remaining level found) : low + step ≤ high := by
  induction es, remaining, level, found using layers_induction with
  | done es remaining level found free =>
    rw [layers_done _ _ free] at lower
    exact absurd lower (fresh low).1
  | more es remaining level found free ih =>
    rw [layers_more _ _ free] at lower higher
    have blocked : e.higher ∉ ready es remaining := fun layer => (mem_ready.mp layer).2 e edge rfl
    have fresh_higher : ∀ n, (e.higher, n) ∉ found ++ (ready es remaining).map (·, level) :=
      fun n member => (mem_append_layer.mp member).elim (fresh n).2 (fun layer => blocked layer.1)
    by_cases placed : e.lower ∈ ready es remaining
    · have low_eq : low = level := by
        obtain old | ⟨left, -⟩ := mem_layers lower
        · exact ((mem_append_layer.mp old).resolve_left (fresh low).1).2
        · exact absurd placed (mem_without.mp left).2
      obtain ⟨-, above⟩ := (mem_layers higher).resolve_left (fresh_higher high)
      omega
    · refine ih (mem_startingOutside.mpr ⟨edge, placed⟩) (fun n => ⟨fun member => ?_,
        fresh_higher n⟩) lower higher
      exact (mem_append_layer.mp member).elim (fresh n).1 (fun layer => placed layer.1)

/-- No levels that rise by a step along every edge are lower than those of the layers. -/
theorem layers_least {es : List Edge} {remaining : List Nat} {level : Nat}
    {found : List (Nat × Nat)} {bound : Nat → Nat} {c n : Nat}
    (rise : ∀ e ∈ es, bound e.lower + step ≤ bound e.higher)
    (inside : ∀ e ∈ es, e.lower ∈ remaining) (reached : ∀ d ∈ remaining, level ≤ bound d)
    (member : (c, n) ∈ layers es remaining level found) : (c, n) ∈ found ∨ n ≤ bound c := by
  induction es, remaining, level, found using layers_induction with
  | done es remaining level found free =>
    rw [layers_done _ _ free] at member
    exact Or.inl member
  | more es remaining level found free ih =>
    rw [layers_more _ _ free] at member
    have next : ∀ d ∈ without (ready es remaining) remaining, level + step ≤ bound d := by
      intro d left
      obtain ⟨still, unready⟩ := mem_without.mp left
      have blocked : ∃ e ∈ es, e.higher = d := by
        by_contra none_above
        exact unready (mem_ready.mpr ⟨still, fun e edge same => none_above ⟨e, edge, same⟩⟩)
      obtain ⟨e, edge, rfl⟩ := blocked
      have := rise e edge
      have := reached e.lower (inside e edge)
      omega
    obtain old | low := ih (fun e kept => rise e (mem_startingOutside.mp kept).1)
      (fun e kept => mem_without.mpr ⟨inside e (mem_startingOutside.mp kept).1,
        (mem_startingOutside.mp kept).2⟩) next member
    · obtain old | ⟨layer, rfl⟩ := mem_append_layer.mp old
      · exact Or.inl old
      · exact Or.inr (reached c (mem_ready.mp layer).1)
    · exact Or.inr low

/-- The levels are no higher than a step for each class allows. -/
theorem layers_bound {es : List Edge} {remaining : List Nat} {level : Nat}
    {found : List (Nat × Nat)} {c n : Nat} (member : (c, n) ∈ layers es remaining level found) :
    (c, n) ∈ found ∨ n + step ≤ level + step * remaining.length := by
  induction es, remaining, level, found using layers_induction with
  | done es remaining level found free =>
    rw [layers_done _ _ free] at member
    exact Or.inl member
  | more es remaining level found free ih =>
    rw [layers_more _ _ free] at member
    cases layer : ready es remaining with
    | nil => exact absurd layer free
    | cons first others =>
      have fewer := length_without_lt layer
      rw [← layer] at fewer
      have steps : step * (without (ready es remaining) remaining).length + step ≤
          step * remaining.length := Nat.mul_le_mul_left step fewer
      obtain old | low := ih member
      · obtain old | ⟨-, rfl⟩ := mem_append_layer.mp old
        · exact Or.inl old
        · exact Or.inr (by omega)
      · exact Or.inr (by omega)

theorem exists_least {bound : Nat → Nat} {cs : List Nat} {c : Nat} (member : c ∈ cs) :
    ∃ least ∈ cs, ∀ d ∈ cs, bound least ≤ bound d := by
  induction size : bound c using Nat.strongRecOn generalizing c with
  | ind n ih =>
    by_cases minimal : ∀ d ∈ cs, bound c ≤ bound d
    · exact ⟨c, member, minimal⟩
    · simp only [not_forall, Nat.not_le] at minimal
      obtain ⟨d, other, below⟩ := minimal
      exact ih (bound d) (size ▸ below) other rfl

/-- If some levels rise along every edge then no class is left over: one of those with the least
such level is always ready. -/
theorem layers_complete {es : List Edge} {remaining : List Nat} {level : Nat}
    {found : List (Nat × Nat)} {bound : Nat → Nat} {c : Nat}
    (rise : ∀ e ∈ es, bound e.lower < bound e.higher) (inside : ∀ e ∈ es, e.lower ∈ remaining)
    (known : c ∈ remaining ∨ ∃ n, (c, n) ∈ found) :
    ∃ n, (c, n) ∈ layers es remaining level found := by
  induction es, remaining, level, found using layers_induction with
  | done es remaining level found free =>
    rw [layers_done _ _ free]
    refine known.resolve_left fun left => ?_
    obtain ⟨least, member, minimal⟩ : ∃ least ∈ remaining, ∀ d ∈ remaining, bound least ≤ bound d :=
      exists_least left
    have open_ : least ∈ ready es remaining := mem_ready.mpr ⟨member, fun e edge same => by
      have := rise e edge
      have := minimal e.lower (inside e edge)
      rw [same] at *
      omega⟩
    exact List.not_mem_nil (free ▸ open_)
  | more es remaining level found free ih =>
    rw [layers_more _ _ free]
    refine ih (fun e kept => rise e (mem_startingOutside.mp kept).1)
      (fun e kept => mem_without.mpr ⟨inside e (mem_startingOutside.mp kept).1,
        (mem_startingOutside.mp kept).2⟩) ?_
    obtain left | ⟨n, old⟩ := known
    · by_cases layer : c ∈ ready es remaining
      · exact Or.inr ⟨level, mem_append_layer.mpr (Or.inr ⟨layer, rfl⟩)⟩
      · exact Or.inl (mem_without.mpr ⟨left, layer⟩)
    · exact Or.inr ⟨n, List.mem_append_left _ old⟩

/-- The classes in ascending order. -/
def classNames (classes : Classes) : List Nat :=
  Ascending.ofList classes

theorem classNames_def (classes : Classes) : classNames classes = Ascending.ofList classes := rfl

theorem length_classes (count : Nat) (cs : List (Constraint τ)) :
    (classes count cs).length = count := by
  rw [classes_eq, length_foldl_join, List.length_range]

theorem nodup_classNames (cl : Classes) : (classNames cl).Nodup :=
  (Ascending.ofList_sorted cl).imp fun below => Nat.ne_of_lt below

theorem length_classNames_le (cl : Classes) : (classNames cl).length ≤ cl.length :=
  ((nodup_classNames cl).subperm fun _ => Ascending.mem_ofList.mp).length_le

theorem mem_classNames {cl : Classes} {c : Nat} :
    c ∈ classNames cl ↔ ∃ v < cl.length, classOf cl v = c := by
  rw [classNames, Ascending.mem_ofList, List.mem_iff_getElem]
  refine exists_congr fun v => ⟨?_, ?_⟩
  · rintro ⟨known, rfl⟩
    exact ⟨known, by simp [classOf, known]⟩
  · rintro ⟨known, rfl⟩
    exact ⟨known, by simp [classOf, known]⟩

theorem classOf_mem_classNames {cl : Classes} {v : Nat} (known : v < cl.length) :
    classOf cl v ∈ classNames cl :=
  mem_classNames.mpr ⟨v, known, rfl⟩

/-- Levels that are the same within a class rise along the edge of a constraint they satisfy. -/
theorem edge_spaced {cs : Classes} {c : Constraint τ} {gap : Nat} {level : Nat → Nat}
    (respected : ∀ x, level (classOf cs x) = level x)
    (spaced : c.relation.Spaced gap (level c.right) (level c.left)) {e : Edge}
    (edge : edge? cs c = some e) : level e.lower + gap ≤ level e.higher := by
  unfold edge? at edge
  cases kind : c.relation <;> rw [kind] at edge spaced
  · obtain rfl := Option.some.inj edge
    simpa only [respected, Relation.Spaced] using spaced
  · exact nomatch edge
  · obtain rfl := Option.some.inj edge
    simpa only [respected, Relation.Spaced] using spaced

theorem edge_mem {c : Constraint τ} {e : Edge} {cs : Classes} (right : c.right < cs.length)
    (left : c.left < cs.length) (edge : edge? cs c = some e) :
    e.lower ∈ classNames cs ∧ e.higher ∈ classNames cs := by
  unfold edge? at edge
  cases kind : c.relation <;> rw [kind] at edge
  · obtain rfl := Option.some.inj edge
    exact ⟨classOf_mem_classNames right, classOf_mem_classNames left⟩
  · exact nomatch edge
  · obtain rfl := Option.some.inj edge
    exact ⟨classOf_mem_classNames left, classOf_mem_classNames right⟩

theorem exists_lookup {entries : List (Nat × Nat)} {c n : Nat} (member : (c, n) ∈ entries) :
    ∃ m, entries.lookup c = some m := by
  induction entries with
  | nil => exact nomatch member
  | cons entry rest ih =>
    obtain ⟨d, m⟩ := entry
    rw [List.lookup_cons]
    split
    · exact ⟨m, rfl⟩
    · rename_i differ
      refine ih ((List.mem_cons.mp member).resolve_left fun same => ?_)
      exact absurd (beq_iff_eq.mpr (Prod.mk.inj same).1) (by simp [differ])

/-- The levels of two classes that a constraint relates. -/
theorem layers_spaced {cs : Classes} {all : List (Constraint τ)} {c : Constraint τ}
    (member : c ∈ all) (joined : c.relation = .eq → classOf cs c.right = classOf cs c.left)
    {low high : Nat}
    (right : (layers (all.filterMap (edge? cs)) (classNames cs) 0 []).lookup
      (classOf cs c.right) = some low)
    (left : (layers (all.filterMap (edge? cs)) (classNames cs) 0 []).lookup
      (classOf cs c.left) = some high) :
    c.relation.Spaced step low high := by
  generalize found : layers (all.filterMap (edge? cs)) (classNames cs) 0 [] = levels at right left
  have rise : ∀ e, edge? cs c = some e → ∀ low high,
      levels.lookup e.lower = some low → levels.lookup e.higher = some high →
        low + step ≤ high := by
    intro e edge low high lower higher
    have kept : e ∈ all.filterMap (edge? cs) := List.mem_filterMap.mpr ⟨c, member, edge⟩
    subst found
    exact layers_rise kept (by simp) (mem_of_lookup lower) (mem_of_lookup higher)
  unfold edge? at rise
  cases kind : c.relation <;> rw [kind] at rise
  · exact rise _ rfl _ _ right left
  · rw [joined kind, left] at right
    exact (Option.some.inj right).symm
  · exact rise _ rfl _ _ left right

/-! ### Levels of terminals -/

variable [DecidableEq τ]

theorem index?_bound {t : τ} {ts : List τ} {i : Nat} (found : index? t ts = some i) :
    ts[i]? = some t := by
  induction ts generalizing i with
  | nil => exact nomatch found
  | cons first rest ih =>
    rw [index?] at found
    split at found
    · rename_i j later
      obtain rfl := Option.some.inj found
      simpa using ih later
    · split_ifs at found with same
      obtain rfl := Option.some.inj found
      simp [same]

theorem exists_index? {t : τ} {ts : List τ} (member : t ∈ ts) : ∃ i, index? t ts = some i := by
  induction ts with
  | nil => exact nomatch member
  | cons first rest ih =>
    rw [index?]
    cases later : index? t rest with
    | some j => exact ⟨j + 1, rfl⟩
    | none =>
      obtain rfl | tail := List.mem_cons.mp member
      · exact ⟨0, by simp⟩
      · obtain ⟨j, found⟩ := ih tail
        exact nomatch later.symm.trans found

theorem index?_lt {t : τ} {ts : List τ} {i : Nat} (found : index? t ts = some i) :
    i < ts.length :=
  (List.getElem?_eq_some_iff.mp (index?_bound found)).1

theorem mem_of_index? {t : τ} {ts : List τ} {i : Nat} (found : index? t ts = some i) : t ∈ ts :=
  List.mem_of_getElem? (index?_bound found)

theorem mem_constraints {terminals : List τ} {relations : Relations τ} {c : Constraint τ} :
    c ∈ constraints terminals relations ↔
      (c.first, c.second, c.relation) ∈ relations.toList ∧
        ∃ i j, index? c.first terminals = some i ∧ index? c.second terminals = some j ∧
          c.right = rightVar i ∧ c.left = leftVar j := by
  unfold constraints
  simp only [List.mem_filterMap, Prod.exists]
  constructor
  · rintro ⟨a, b, r, member, found⟩
    split at found
    · rename_i i j first second
      obtain rfl := Option.some.inj found
      exact ⟨member, i, j, first, second, rfl, rfl⟩
    · exact nomatch found
  · rintro ⟨member, i, j, first, second, right, left⟩
    refine ⟨c.first, c.second, c.relation, member, ?_⟩
    simp only [first, second, ← right, ← left]

theorem constraint_bounds {terminals : List τ} {relations : Relations τ} {c : Constraint τ}
    (member : c ∈ constraints terminals relations) :
    c.right < 2 * terminals.length ∧ c.left < 2 * terminals.length := by
  obtain ⟨-, i, j, first, second, right, left⟩ := mem_constraints.mp member
  have := index?_lt first
  have := index?_lt second
  simp only [rightVar, leftVar] at right left
  omega

theorem sides?_isSome {cl : Classes} {level? : Nat → Option Nat} {i : Nat} :
    (sides? cl level? i).isSome ↔
      level? (classOf cl (leftVar i)) ≠ none ∧ level? (classOf cl (rightVar i)) ≠ none := by
  unfold sides?
  cases level? (classOf cl (leftVar i)) <;> cases level? (classOf cl (rightVar i)) <;> simp

theorem sides?_eq_some {cs : Classes} {level? : Nat → Option Nat} {i : Nat} {s : Sides} :
    sides? cs level? i = some s ↔
      level? (classOf cs (leftVar i)) = some s.left ∧
        level? (classOf cs (rightVar i)) = some s.right := by
  obtain ⟨left, right⟩ := s
  unfold sides?
  cases level? (classOf cs (leftVar i)) <;> cases level? (classOf cs (rightVar i)) <;> simp

omit [DecidableEq τ] in
theorem all_zipIdx_isSome (terminals : List τ) (sides : Nat → Option Sides) :
    (terminals.zipIdx.map fun (t, i) => (t, sides i)).all (·.2.isSome) ↔
      ∀ i < terminals.length, (sides i).isSome := by
  simp only [List.all_map, List.all_eq_true, Prod.forall, List.mk_mem_zipIdx_iff_getElem?,
    Function.comp]
  refine ⟨fun all i bound => all terminals[i] i (by simp [bound]), fun all t i here => ?_⟩
  exact all i (List.getElem?_eq_some_iff.mp here).1

/-- The levels of each listed terminal, from plain layers. -/
def assign [LT τ] [DecidableLT τ] (terminals : List τ) (relations : Relations τ) :
    Except (GrammarError τ) (Dict τ Sides) :=
  let cs := constraints terminals relations
  let classes := classes (2 * terminals.length) cs
  match edges classes cs with
  | .error cause => .error cause
  | .ok edges =>
    let levels := layers edges (classNames classes) 0 []
    if levels.any fun p => Limits.level < p.2 + step then .error .overflow
    else
      let sides := terminals.zipIdx.map fun (t, i) => (t, sides? classes (levels.lookup ·) i)
      collect sides (sides.all (·.2.isSome))

end Levels
end SasLayout
