import SasLayout.Event.Code
import SasLayout.Grammar.Relation
import SasLayout.Grammar.UnionFind
import SasLayout.Limits

set_option autoImplicit false

/-!
Levels from precedence relations. Every terminal has a level on its left and one on its right. An
equality between the right of one terminal and the left of another puts them in one class; the
other relations order the classes, which then get their levels in layers, the least ones first. A
count for each class says how many of the classes right below it wait for their level.
-/
namespace SasLayout

inductive GrammarError (τ : Type) where
  /-- Relations that no levels satisfy, and terminals that take part in them. -/
  | cycle (terminals : List τ)
  | adjacentNonterminals (head : τ)
  /-- A level, or a count of classes, outside of its numbers. -/
  | overflow
deriving DecidableEq, Repr

namespace GrammarError

def message : GrammarError String → String
  | cycle terminals =>
    let names := " ".intercalate terminals
    s!"Precedence relations form a cycle through: {names}"
  | adjacentNonterminals head => s!"Rule for '{head}' has two adjacent nonterminals"
  | overflow => "attempt to add with overflow"

def code {τ : Type} : GrammarError τ → String
  | cycle _ => Code.precedenceCycle
  | adjacentNonterminals _ => Code.adjacentNonterminals
  | overflow => Code.internalError

end GrammarError

namespace Levels

variable {τ : Type} [DecidableEq τ] [LT τ] [DecidableLT τ]

/-- The distance between neighbouring levels. -/
def step : Nat := 10

def leftVar (index : Nat) : Nat := 2 * index

def rightVar (index : Nat) : Nat := 2 * index + 1

/-- The last index of a name in a list. -/
def index? (name : τ) : List τ → Option Nat
  | [] => none
  | t :: rest =>
    match index? name rest with
    | some i => some (i + 1)
    | none => if t = name then some 0 else none

/-- A relation between terminals that are listed, with their indices. -/
structure Constraint (τ : Type) where
  first : τ
  second : τ
  right : Nat
  left : Nat
  relation : Relation
deriving DecidableEq, Repr

/-- The relations between listed terminals in ascending order of the pairs. -/
def constraints (terminals : List τ) (relations : Relations τ) : List (Constraint τ) :=
  relations.toList.filterMap fun (a, b, r) =>
    match index? a terminals, index? b terminals with
    | some i, some j => some ⟨a, b, rightVar i, leftVar j, r⟩
    | _, _ => none

/-- The two variables that a constraint orders, the lower one first. -/
def Constraint.ordered? (c : Constraint τ) : Option (Nat × Nat) :=
  match c.relation with
  | .eq => none
  | .lt => some (c.right, c.left)
  | .gt => some (c.left, c.right)

/-- The classes that the equalities make of `count` variables. -/
def equated (count : Nat) (cs : List (Constraint τ)) : UnionFind :=
  cs.foldl (fun uf c => if c.relation = .eq then uf.union c.right c.left else uf)
    (.singletons count)

/-- A lower and a higher class. -/
structure Edge where
  lower : Nat
  higher : Nat
deriving DecidableEq, Repr

instance : LT Edge :=
  ⟨fun e f => e.lower < f.lower ∨ e.lower = f.lower ∧ e.higher < f.higher⟩

instance : DecidableLT Edge :=
  fun e f => inferInstanceAs (Decidable (e.lower < f.lower ∨ _ ∧ _))

/-- The order between the classes, each edge once, unless some constraint puts a class below
itself. -/
def order : List (Constraint τ) → List Edge → UnionFind →
    Except (GrammarError τ) (List Edge × UnionFind)
  | [], found, uf => .ok (found, uf)
  | c :: rest, found, uf =>
    match c.ordered? with
    | none => order rest found uf
    | some (low, high) =>
      let lower := uf.find low
      let higher := lower.2.find high
      if lower.1 = higher.1 then .error (.cycle [c.first, c.second])
      else order rest (Ascending.insert ⟨lower.1, higher.1⟩ found) higher.2

/-- How many edges end in each class. -/
def inDegrees (names : List Nat) (edges : List Edge) : Dict Nat Nat :=
  edges.foldl (fun counts e => counts.insert e.higher ((counts.find? e.higher).getD 0 + 1))
    (names.foldl (fun counts c => counts.insert c 0) .empty)

/-- The classes that have a level, and those that get one next. -/
structure Progress where
  /-- How many edges that start in a class without a level end in each class. -/
  counts : Dict Nat Nat
  levels : Dict Nat Nat
  /-- The classes of the next layer. -/
  next : List Nat

namespace Progress

/-- Counts an edge off, as its lower class has a level; a class joins the next layer when its last
edge goes. There is no result for an edge that was not counted. -/
def release (s : Progress) (e : Edge) : Option Progress :=
  match s.counts.find? e.higher with
  | none => some s
  | some 0 => none
  | some (count + 1) =>
    let counts := s.counts.modify e.higher fun _ => count
    some ⟨counts, s.levels, if count = 0 then s.next ++ [e.higher] else s.next⟩

/-- Gives a class its level and counts off the edges that start there. -/
def visit (edges : List Edge) (level : Nat) (s : Progress) (c : Nat) : Option Progress :=
  (edges.filter (·.lower == c)).foldlM release { s with levels := s.levels.insert c level }

/-- Gives `level` to the classes of the layer that is next. -/
def visitAll (edges : List Edge) (level : Nat) (s : Progress) : Option Progress :=
  s.next.foldlM (visit edges level) { s with next := [] }

/-- How many edges are still counted. -/
def pending (s : Progress) : Nat :=
  s.counts.entries.foldr (·.2 + ·) 0

theorem foldr_modifyEntry {entries : List (Nat × Nat)} {key count : Nat}
    (found : entries.lookup key = some (count + 1)) :
    (Dict.modifyEntry key (fun _ => count) entries).foldr (·.2 + ·) 0 + 1 =
      entries.foldr (·.2 + ·) 0 := by
  induction entries with
  | nil => exact nomatch found
  | cons entry rest ih =>
    obtain ⟨k, v⟩ := entry
    rw [List.lookup_cons] at found
    rw [Dict.modifyEntry]
    by_cases here : key = k
    · simp only [here, beq_self_eq_true, Option.some.injEq] at found
      simp only [here, if_true, List.foldr_cons, found]
      omega
    · have differ : (key == k) = false := by simpa using here
      simp only [differ] at found
      have := ih found
      simp only [here, if_false, List.foldr_cons]
      omega

/-- Each class that joins the next layer has used up an edge. -/
theorem pending_release {s t : Progress} {e : Edge} (released : s.release e = some t) :
    t.pending + t.next.length ≤ s.pending + s.next.length := by
  unfold release at released
  split at released
  · obtain rfl := Option.some.inj released
    exact Nat.le_refl _
  · exact nomatch released
  · rename_i count found
    obtain rfl := Option.some.inj released
    have fewer := foldr_modifyEntry found
    simp only [pending, Dict.modify]
    split
    · simp only [List.length_append, List.length_singleton]
      omega
    · omega

theorem pending_foldlM {α : Type} (step : Progress → α → Option Progress)
    (falls : ∀ s t x, step s x = some t →
      t.pending + t.next.length ≤ s.pending + s.next.length)
    {xs : List α} {s t : Progress} (run : xs.foldlM step s = some t) :
    t.pending + t.next.length ≤ s.pending + s.next.length := by
  induction xs generalizing s with
  | nil =>
    obtain rfl := Option.some.inj run
    exact Nat.le_refl _
  | cons x rest ih =>
    rw [List.foldlM_cons] at run
    obtain ⟨u, first, others⟩ := Option.bind_eq_some_iff.mp run
    exact Nat.le_trans (ih others) (falls _ _ _ first)

theorem pending_visitAll {edges : List Edge} {level : Nat} {s t : Progress}
    (visited : s.visitAll edges level = some t) : t.pending + t.next.length ≤ s.pending := by
  refine pending_foldlM (visit edges level) (fun s t c visited => ?_) visited
  unfold visit at visited
  have fewer := pending_foldlM release (fun s t e released => pending_release released) visited
  exact fewer

/-- Gives levels to the classes layer by layer, as long as the levels are numbers; classes that
depend on themselves get none. -/
def advance (edges : List Edge) (level : Nat) (s : Progress) : Option (Dict Nat Nat) :=
  if s.next = [] then some s.levels
  else
    match visited : s.visitAll edges level with
    | none => none
    | some t =>
      have := pending_visitAll visited
      if Limits.level < level + step then none else t.advance edges (level + step)
termination_by s.pending + s.next.length
decreasing_by
  have := List.length_pos_iff.mpr ‹s.next ≠ []›
  omega

end Progress

/-- The class of each variable, named by the variable at its top. -/
abbrev Classes := List Nat

def classOf (classes : Classes) (v : Nat) : Nat :=
  classes.getD v v

/-- The levels of the left and of the right side. -/
structure Sides where
  left : Nat
  right : Nat
deriving DecidableEq, Repr, Inhabited

/-- The levels of the terminal with index `i`, if both of its classes have one. -/
def sides? (classes : Classes) (level? : Nat → Option Nat) (i : Nat) : Option Sides :=
  match level? (classOf classes (leftVar i)), level? (classOf classes (rightVar i)) with
  | some left, some right => some ⟨left, right⟩
  | _, _ => none

/-- The levels of all terminals if these are complete, and else the terminals that lack one. -/
def collect (sides : List (τ × Option Sides)) (complete : Bool) :
    Except (GrammarError τ) (Dict τ Sides) :=
  if complete then
    .ok (sides.foldl (fun d (t, s) => match s with | some s => d.insert t s | none => d) .empty)
  else .error (.cycle (Ascending.ofList ((sides.filter (·.2.isNone)).map (·.1))))

/-- The levels of each listed terminal, the least that satisfy all relations between them. -/
def solve (terminals : List τ) (relations : Relations τ) :
    Except (GrammarError τ) (Dict τ Sides) :=
  let cs := constraints terminals relations
  let unknowns := List.range (2 * terminals.length)
  match order cs [] (equated (2 * terminals.length) cs) with
  | .error cause => .error cause
  | .ok (edges, uf) =>
    let tops := uf.findAll unknowns
    let names := Ascending.ofList tops.1
    let counts := inDegrees names edges
    let first := names.filter fun c => counts.find? c == some 0
    match Progress.advance edges 0 ⟨counts, .empty, first⟩ with
    | none => .error .overflow
    | some levels =>
      let classes := (tops.2.findAll unknowns).1
      collect (terminals.zipIdx.map fun (t, i) => (t, sides? classes levels.find? i))
        (names.length ≤ levels.size)

end Levels
end SasLayout
