import SasLayout.Proofs.LogicalBoundaries
import SasLayout.Proofs.Partners

set_option autoImplicit false

/-!
Balanced groups on the way of a walk backward. The levels of a group lie on top of what was pending
behind it, and its opener lets go of them all and of nothing below. A walk from behind the group
therefore ends where the walk from before it does.
-/
namespace SasLayout

/-! ### What lies below the pending levels -/

namespace Indent

/-- The levels that are pending behind a token that is passed or that closes them all. -/
def Pass.kept? : Pass → Option (List Nat)
  | go pending => some pending
  | opener => some []
  | _ => none

variable {g : Grammar String} {levels? : Option TerminalLevels} {levels : TerminalLevels}
  {back top : Nat} {pending next rest base : List Nat} {tokens : List Token}

theorem meet_append (kept : (meet levels back top rest).kept? = some next) (nonempty : base ≠ []) :
    meet levels back top (rest ++ base) = .go (next ++ base) := by
  obtain ⟨low, lower, rfl⟩ := List.exists_cons_of_ne_nil nonempty
  unfold meet at kept ⊢
  by_cases same : top = back
  · rw [if_pos same] at kept ⊢
    cases rest with
    | cons first others =>
      cases kept
      simp
    | nil =>
      -- Nothing is left, so the token ends the walk or its own level is all that is pending.
      cases left : levels.left with
      | none =>
        simp only [left] at kept
        cases kept
        rfl
      | some level =>
        simp only [left] at kept
        split at kept
        · cases kept
        · cases kept
          rfl
  · rw [if_neg same] at kept ⊢
    cases kept
    simp

/-- A token does not touch what lies below the levels that it leaves pending. -/
theorem pass_append (kept : (pass levels? pending).kept? = some next) (nonempty : base ≠ []) :
    pass levels? (pending ++ base) = .go (next ++ base) := by
  cases levels? with
  | none =>
    cases pending with
    | nil => cases kept
    | cons first others =>
      cases kept
      rfl
  | some levels =>
    cases side : levels.right with
    | none =>
      simp only [pass, side] at kept ⊢
      cases kept
      rw [List.append_assoc]
    | some back =>
      simp only [pass, side] at kept ⊢
      cases shown : pending.dropWhile (back < ·) with
      | nil =>
        rw [shown] at kept
        cases kept
      | cons top rest =>
        rw [shown] at kept
        rw [List.dropWhile_append, shown]
        exact meet_append kept nonempty

theorem carry_append_base (passed : carry g tokens pending = some next) (nonempty : base ≠ []) :
    carry g tokens (pending ++ base) = some (next ++ base) := by
  induction tokens generalizing pending with
  | nil =>
    cases passed
    rfl
  | cons tok tokens ih =>
    rw [carry] at passed ⊢
    cases step : pass (g.levels? tok.grammarName) pending with
    | go mid =>
      rw [step] at passed
      rw [pass_append (by rw [step]; rfl) nonempty]
      exact ih passed
    | _ =>
      rw [step] at passed
      cases passed

/-- Tokens whose names are enclosed by two others. -/
theorem exists_enclosed {opener closer : String} {inner others : List String}
    (same : tokens.map Token.grammarName = opener :: (inner ++ closer :: others)) :
    ∃ first between last later, tokens = first :: (between ++ last :: later) ∧
      first.grammarName = opener ∧ between.map Token.grammarName = inner ∧
      last.grammarName = closer ∧ later.map Token.grammarName = others := by
  obtain ⟨first, enclosed, rfl, opens, whole⟩ := List.map_eq_cons_iff.mp same
  obtain ⟨between, enclosed, rfl, inside, whole⟩ := List.map_eq_append_iff.mp whole
  obtain ⟨last, later, rfl, closes, behind⟩ := List.map_eq_cons_iff.mp whole
  exact ⟨first, between, last, later, rfl, opens, inside, closes, behind⟩

theorem carry_reverse_cons {tok : Token} (behind : carry g tokens.reverse pending = some rest)
    (goes : pass (g.levels? tok.grammarName) rest = .go next) :
    carry g (tok :: tokens).reverse pending = some next := by
  rw [List.reverse_cons, carry_append behind, carry, goes]
  rfl

end Indent

/-! ### Groups -/

namespace Grammar

/-- Names in which openers and closers balance, whether or not a rule pairs them. All others stand
by themselves: operands, operators, separators and the words that lead a statement. -/
inductive GroupBody : List String → Prop
  | nil : GroupBody []
  | word {name : String} {rest : List String} (inner : opens name = false)
    (other : closes name = false) (later : GroupBody rest) : GroupBody (name :: rest)
  | pair {opener closer : String} {inner rest : List String} (opening : opens opener = true)
    (within : GroupBody inner) (closing : closes closer = true) (later : GroupBody rest) :
    GroupBody (opener :: (inner ++ closer :: rest))

theorem GroupBody.words {names rest : List String}
    (plain : ∀ name ∈ names, opens name = false ∧ closes name = false) (later : GroupBody rest) :
    GroupBody (names ++ rest) := by
  induction names with
  | nil => exact later
  | cons name names ih =>
    obtain ⟨⟨inner, other⟩, others⟩ := List.forall_mem_cons.mp plain
    exact .word inner other (ih others)

example : ∀ name ∈ standardTable.levels.flatMap (·.operators) ++ ["else", "output", "dataequal"],
    opens name = false ∧ closes name = false := by
  decide

/-- Whether a name ends a list of statements or a bracket. -/
def endsGroup (name : String) : Bool :=
  (groupWords.map (·.2) ++ [")"]).contains name

/-- The names of a group, from any opener to a closer that ends a group. The word behind a condition
does not end one: it has a right level too, and drops what is pending above that. -/
inductive BalancedGroup : List String → Prop
  | enclose {opener closer : String} {inner : List String} (opening : opens opener = true)
    (within : GroupBody inner) (closing : endsGroup closer = true) :
    BalancedGroup (opener :: (inner ++ [closer]))

theorem levels?_endsGroup {g : Grammar String} (standard : g.levels = standardLevels)
    {name : String} (closing : endsGroup name = true) : g.levels? name = some ⟨some 0, none⟩ := by
  have known : ∀ name ∈ groupWords.map (·.2) ++ [")"],
      (if name.isEmpty then none else standardLevels.find? name) = some ⟨some 0, none⟩ := by
    decide
  rw [levels?, standard]
  exact known name (List.contains_iff_mem.mp closing)

end Grammar

namespace Indent

open Grammar

section Standard

variable {g : Grammar String} (standard : g.levels = standardLevels) {names : List String}
  {tokens : List Token} {k : Nat} {pending : List Nat}

include standard

/-- Between the ends of a group the walk goes on, with as many closers open at the end as at the
start. -/
theorem carry_body (body : GroupBody names) (same : tokens.map Token.grammarName = names)
    (grounded : Grounded k pending) :
    ∃ kept, Grounded k kept ∧ carry g tokens.reverse pending = some kept := by
  induction body generalizing tokens k pending with
  | nil =>
    obtain rfl := List.map_eq_nil_iff.mp same
    exact ⟨pending, grounded, rfl⟩
  | word inner other later ih =>
    obtain ⟨tok, rest, rfl, rfl, others⟩ := List.map_eq_cons_iff.mp same
    obtain ⟨mid, below, behind⟩ := ih others grounded
    obtain ⟨kept, stands, goes⟩ := below.pass_inner standard inner other
    exact ⟨kept, stands, carry_reverse_cons behind goes⟩
  | pair opening within closing later inside behind =>
    obtain ⟨opener, inner, closer, rest, rfl, rfl, between, rfl, others⟩ := exists_enclosed same
    obtain ⟨mid, below, passed⟩ := behind others grounded
    obtain ⟨closed, deeper, goes⟩ := below.pass_closer standard closing
    obtain ⟨opened, deep, through⟩ := inside between deeper
    -- Inside of the pair one closer more is open, so its opener does not end the walk.
    obtain ⟨none, -⟩ | ⟨j, kept, depth, shallow, lets⟩ := deep.pass_opener
    · cases none
    · cases depth
      refine ⟨kept, shallow, carry_reverse_cons ?_ (levels?_opener standard opening ▸ lets)⟩
      rw [List.reverse_append, carry_append (carry_reverse_cons passed goes)]
      exact through

/-- The walk back over a group leaves what was pending behind it. -/
theorem carry_group (group : BalancedGroup names) (same : tokens.map Token.grammarName = names)
    (nonempty : pending ≠ []) : carry g tokens.reverse pending = some pending := by
  cases group with
  | enclose opening within closing =>
    obtain ⟨opener, inner, closer, rest, rfl, rfl, between, rfl, others⟩ := exists_enclosed same
    obtain rfl := List.map_eq_nil_iff.mp others
    have closed : carry g [closer].reverse pending = some ([0] ++ pending) := by
      refine carry_reverse_cons rfl ?_
      rw [levels?_endsGroup standard closing]
      rfl
    -- The body is passed with the level of the closer alone, and so on top of any others.
    obtain ⟨kept, grounded, passed⟩ := carry_body standard within between .ground
    obtain ⟨-, stops⟩ | ⟨j, -, depth, -⟩ := grounded.pass_opener
    · have framed : carry g (inner ++ [closer]).reverse pending = some (kept ++ pending) := by
        rw [List.reverse_append, carry_append closed]
        exact carry_append_base passed nonempty
      refine carry_reverse_cons framed ?_
      rw [levels?_opener standard opening]
      exact pass_append (by rw [stops]; rfl) nonempty
    · cases depth

/-- From both sides of a group the walk ends where the tokens before the group make it end. -/
theorem walkFrom_group {src : Source} (joined : src.text.Joined) {p q steps : Nat} (order : p ≤ q)
    (before : src.isLogicalBoundary p = true) (behind : src.isLogicalBoundary q = true)
    (group : BalancedGroup ((src.logicalBetween p q).map Token.grammarName))
    (enough : (src.logicalUpTo q).length < steps) (nonempty : pending ≠ []) :
    walkFrom g src steps q pending = some (walkOver g (src.logicalUpTo p).reverse pending) ∧
      walkFrom g src steps p pending = some (walkOver g (src.logicalUpTo p).reverse pending) := by
  have parts := Source.logicalUpTo_append_logicalBetween joined order before
  have fewer : (src.logicalUpTo p).length < steps := by
    rw [← parts, List.length_append] at enough
    omega
  constructor
  · rw [walkFrom_eq (Source.earlier_logicalUpTo joined behind) (by rwa [List.length_reverse]),
      ← parts, List.reverse_append, walkOver_append (carry_group standard group rfl nonempty)]
  · exact walkFrom_eq (Source.earlier_logicalUpTo joined before) (by rwa [List.length_reverse]) _

end Standard

/-- A balanced group is transparent to the walk back. Whatever terminal with a left level is
pending, the walk from behind the group ends where the walk from before it does, at the place that
the tokens before the group give. -/
theorem walk_group (lexical : LexicalSettings) (s : String) (g : Grammar String)
    (standard : Grammar.standard = .ok g) (pending : String)
    (leveled : ((g.levels? pending).bind (·.left)).isSome) (p q steps : Nat) :
    let src := Source.ofText lexical (.ofString s)
    p ≤ q → src.isLogicalBoundary p = true → src.isLogicalBoundary q = true →
    BalancedGroup ((src.logicalBetween p q).map Token.grammarName) →
    (src.logicalUpTo q).length < steps →
    let stop := walkOver g (src.logicalUpTo p).reverse (pendingOf g (some pending))
    walk g src steps q (some pending) = some stop ∧
      walk g src steps p (some pending) = some stop := by
  intro src order before behind group enough
  rw [Grammar.standard_eq] at standard
  obtain rfl := Except.ok.inj standard
  obtain ⟨level, left⟩ := Option.isSome_iff_exists.mp leveled
  have nonempty : pendingOf ⟨standardLevels, []⟩ (some pending) ≠ [] := by
    rw [pendingOf, Option.bind_some, left]
    exact List.cons_ne_nil level []
  exact walkFrom_group rfl (Text.joined_ofString s) order before behind group enough nonempty

/-- With an operator pending, the walk passes a group that holds looser operators, a separator and a
bracket, and ends at the equals sign before it. -/
theorem walk_group_operators :
    let g : Grammar String := ⟨standardLevels, []⟩
    let src := Source.ofText {} (.ofString "a = do; data = (b, c) or d; end + e")
    Grammar.standard = .ok g ∧ ((g.levels? "+").bind (·.left)).isSome ∧
      src.isLogicalBoundary 4 = true ∧ src.isLogicalBoundary 31 = true ∧
      BalancedGroup ((src.logicalBetween 4 31).map Token.grammarName) ∧
      (src.logicalUpTo 31).length < 100 ∧
      walk g src 100 31 (some "+") = some (.parent 2 "=" (some 70)) := by
  intro g src
  have leveled : ((g.levels? "+").bind (·.left)).isSome := by decide
  have before : src.isLogicalBoundary 4 = true := by decide +kernel
  have behind : src.isLogicalBoundary 31 = true := by decide +kernel
  have enough : (src.logicalUpTo 31).length < 100 := by decide +kernel
  have names : (src.logicalBetween 4 31).map Token.grammarName =
      "do" :: (([";", "dataequal"] ++ "(" :: (["", ",", ""] ++ ")" :: ["or", "", ";"])) ++
        ["end"]) := by
    decide +kernel
  have group : BalancedGroup ((src.logicalBetween 4 31).map Token.grammarName) := by
    have plain {names : List String}
        (each : ∀ name ∈ names, opens name = false ∧ closes name = false) : GroupBody names :=
      List.append_nil names ▸ GroupBody.words each .nil
    rw [names]
    exact .enclose (by decide) (.words (by decide) (.pair (by decide) (plain (by decide))
      (by decide) (plain (by decide)))) (by decide)
  have here : walk g src 100 4 (some "+") = some (.parent 2 "=" (some 70)) := by decide +kernel
  obtain ⟨there, same⟩ := walk_group {} _ g Grammar.standard_eq "+" leveled 4 31 100 (by decide)
    before behind group enough
  exact ⟨Grammar.standard_eq, leveled, before, behind, group, enough,
    there.trans (same.symm.trans here)⟩

end Indent
end SasLayout
