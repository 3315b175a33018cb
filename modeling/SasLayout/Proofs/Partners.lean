import SasLayout.Proofs.LogicalWalk
import SasLayout.Proofs.StandardLevels

set_option autoImplicit false

/-!
Which opener a closer is paired with. All openers have one level and all closers another, so a walk
back from a closer tells them apart by their number alone: it ends at the innermost opener that no
closer of any kind has closed. In a text where each closer stands behind an opener of its own that
is the right one; where one is missing it may be the opener of another construct.
-/
namespace SasLayout

namespace Grammar

/-- The words around the inner part of a rule that begins with an opener. -/
def enclosed : List (Symbol String) → List (String × String)
  | .terminal opener :: .nonterminal _ :: .terminal closer :: _ => [(opener, closer)]
  | _ => []

/-- The openers of the language, each with every closer that a rule gives it. -/
def enclosures : List (String × String) :=
  (rulesFor standardTable).flatMap fun rule => enclosed rule.body

def opens (name : String) : Bool :=
  enclosures.any (·.1 == name)

def closes (name : String) : Bool :=
  enclosures.any (·.2 == name)

theorem enclosures_eq :
    enclosures = groupWords ++ [("if", "then"), ("%if", "%then"), ("(", ")")] := by
  decide

/-- What the levels of a name say about openers and closers: only an opener lets go of a level zero,
and only a closer adds one. -/
inductive Encloses (name : String) : Option TerminalLevels → Prop
  | operand (inner : opens name = false) (other : closes name = false) : Encloses name none
  | opener (opener : opens name = true) : Encloses name (some ⟨none, some 0⟩)
  | closer (inner : opens name = false) (closer : closes name = true) {right : Option Nat}
    (above : ∀ level ∈ right, 0 < level) : Encloses name (some ⟨some 0, right⟩)
  | word (inner : opens name = false) (other : closes name = false) {left : Option Nat}
    {right : Nat} (loose : ∀ level ∈ left, 0 < level) (above : 0 < right) :
    Encloses name (some ⟨left, some right⟩)

theorem standardLevels_encloses : ∀ e ∈ standardLevels.entries,
    if opens e.1 then e.2 = ⟨none, some 0⟩
    else if closes e.1 then e.2.left = some 0 ∧ e.2.right.all (0 < ·)
    else e.2.left.all (0 < ·) ∧ e.2.right.any (0 < ·) := by
  simp only [opens, closes, enclosures_eq]
  decide

theorem enclosures_known : ∀ pair ∈ enclosures,
    (standardLevels.find? pair.1).isSome ∧ (standardLevels.find? pair.2).isSome := by
  rw [enclosures_eq]
  decide

theorem encloses {g : Grammar String} (standard : g.levels = standardLevels) (name : String) :
    Encloses name (g.levels? name) := by
  have unknown (absent : standardLevels.find? name = none) : Encloses name none := by
    have apart {side : String × String → String}
        (known : ∀ pair ∈ enclosures, (standardLevels.find? (side pair)).isSome) :
        enclosures.any (side · == name) = false := by
      rw [List.any_eq_false]
      intro pair listed same
      have found := known pair listed
      rw [eq_of_beq same, absent] at found
      cases found
    exact .operand (apart fun pair listed => (enclosures_known pair listed).1)
      (apart fun pair listed => (enclosures_known pair listed).2)
  rw [levels?, standard]
  split
  · rename_i empty
    obtain rfl : name = "" := String.isEmpty_iff.mp empty
    exact unknown (by decide)
  cases found : standardLevels.find? name with
  | none => exact unknown found
  | some levels =>
    obtain ⟨left, right⟩ := levels
    have law := standardLevels_encloses _ (Dict.mem_of_find? found)
    simp only at law
    split at law
    · rename_i opener
      rw [law]
      exact .opener opener
    · rename_i inner
      rw [Bool.not_eq_true] at inner
      split at law
      · rename_i closer
        obtain ⟨rfl, above⟩ := law
        exact .closer inner closer (by simpa [Option.all_eq_true] using above)
      · rename_i other
        obtain ⟨loose, above⟩ := law
        obtain ⟨right, rfl, positive⟩ := (Option.any_eq_true _ _).mp above
        exact .word inner (Bool.eq_false_iff.mpr other)
          (by simpa [Option.all_eq_true] using loose) (by simpa using positive)

theorem opens_closer {name : String} (closer : closes name = true) : opens name = false := by
  have apart : ∀ pair ∈ enclosures, opens pair.2 = false := by
    simp only [opens, enclosures_eq]
    decide
  obtain ⟨pair, listed, same⟩ := List.any_eq_true.mp closer
  rw [← eq_of_beq same]
  exact apart pair listed

theorem levels?_opener {g : Grammar String} (standard : g.levels = standardLevels) {name : String}
    (opener : opens name = true) : g.levels? name = some ⟨none, some 0⟩ := by
  have level := encloses standard name
  generalize g.levels? name = levels at level
  cases level with
  | opener => rfl
  | operand inner other => simp [opener] at inner
  | closer inner closer => simp [opener] at inner
  | word inner other => simp [opener] at inner

end Grammar

namespace Indent

open Grammar

/-- The levels of `k` further closers stand above that of the first. -/
inductive Grounded : Nat → List Nat → Prop
  | ground : Grounded 0 [0]
  | closer {k : Nat} {pending : List Nat} (below : Grounded k pending) :
    Grounded (k + 1) (0 :: pending)
  | word {k level : Nat} {pending : List Nat} (positive : 0 < level) (below : Grounded k pending) :
    Grounded k (level :: pending)

variable {k back : Nat} {pending : List Nat}

theorem Grounded.ne_nil (grounded : Grounded k pending) : pending ≠ [] := by
  cases grounded <;> simp

/-- Levels above another are let go of without a change. -/
theorem Grounded.dropWhile (grounded : Grounded k pending) (back : Nat) :
    Grounded k (pending.dropWhile (back < ·)) := by
  induction grounded with
  | ground => exact .ground
  | closer below ih => exact .closer below
  | @word k level pending positive below ih =>
    by_cases above : back < level
    · simpa [List.dropWhile_cons, above] using ih
    · simpa [List.dropWhile_cons, above] using Grounded.word positive below

/-- A word that is no opener is passed, and adds its own level. -/
theorem Grounded.pass_word (grounded : Grounded k pending) (left : Option Nat) (above : 0 < back) :
    ∃ kept, Grounded k kept ∧
      pass (some ⟨left, some back⟩) pending = .go (left.toList ++ kept) := by
  have rest := grounded.dropWhile back
  simp only [pass]
  cases shown : pending.dropWhile (back < ·) with
  | nil => exact absurd shown rest.ne_nil
  | cons top rest' =>
    rw [shown] at rest
    simp only [meet]
    by_cases same : top = back
    · -- The level is let go of, and one of a closer stands below it.
      have below : Grounded k rest' := by
        cases rest with
        | ground => omega
        | closer below => omega
        | word positive below => exact below
      rw [if_pos same]
      refine ⟨rest', below, ?_⟩
      cases below <;> rfl
    · rw [if_neg same]
      exact ⟨_, rest, rfl⟩

/-- An opener closes the innermost of the closers. -/
theorem Grounded.pass_opener (grounded : Grounded k pending) :
    (k = 0 ∧ pass (some ⟨none, some 0⟩) pending = .opener) ∨
      ∃ j kept, k = j + 1 ∧ Grounded j kept ∧ pass (some ⟨none, some 0⟩) pending = .go kept := by
  induction grounded with
  | ground => exact Or.inl ⟨rfl, rfl⟩
  | @closer k pending below ih =>
    refine Or.inr ⟨k, pending, rfl, below, ?_⟩
    cases below <;> rfl
  | @word k level pending positive below ih =>
    have same : pass (some ⟨none, some 0⟩) (level :: pending) =
        pass (some ⟨none, some 0⟩) pending := by
      simp only [pass, List.dropWhile_cons, positive, decide_true, if_true]
    rw [same]
    exact ih

section Standard

variable {g : Grammar String} (standard : g.levels = standardLevels) {name : String}

include standard

/-- A name that neither opens nor closes anything is passed. -/
theorem Grounded.pass_inner (grounded : Grounded k pending) (inner : opens name = false)
    (other : closes name = false) :
    ∃ kept, Grounded k kept ∧ pass (g.levels? name) pending = .go kept := by
  have level := encloses standard name
  generalize g.levels? name = levels at level
  cases level with
  | operand => exact ⟨pending, grounded, by simp [pass, grounded.ne_nil]⟩
  | opener opener => simp [opener] at inner
  | closer _ closer => simp [closer] at other
  | @word _ _ left right loose above =>
    obtain ⟨kept, below, goes⟩ := grounded.pass_word left above
    refine ⟨left.toList ++ kept, ?_, goes⟩
    cases left with
    | none => exact below
    | some level => exact .word (loose level rfl) below

/-- A closer is passed, and waits for one opener more. -/
theorem Grounded.pass_closer (grounded : Grounded k pending) (closer : closes name = true) :
    ∃ kept, Grounded (k + 1) kept ∧ pass (g.levels? name) pending = .go kept := by
  have level := encloses standard name
  generalize g.levels? name = levels at level
  cases level with
  | operand inner other => simp [closer] at other
  | opener opener => simp [opens_closer closer] at opener
  | word inner other => simp [closer] at other
  | @closer _ _ right above =>
    cases right with
    | none => exact ⟨0 :: pending, .closer grounded, rfl⟩
    | some back =>
      obtain ⟨kept, below, goes⟩ := grounded.pass_word (some 0) (above back rfl)
      exact ⟨0 :: kept, .closer below, goes⟩

end Standard

/-! ### The innermost opener -/

/-- The openers among some tokens, the last one first, that no closer of any kind closes; they stand
in the same order. -/
def unclosed : List Token → List Token
  | [] => []
  | tok :: earlier =>
    if opens tok.grammarName then tok :: unclosed earlier
    else if closes tok.grammarName then (unclosed earlier).tail
    else unclosed earlier

/-- A walk back from `k` further closers ends at the opener that is left when as many of the
unclosed ones are passed. -/
theorem walkOver_grounded {g : Grammar String} (standard : g.levels = standardLevels)
    (grounded : Grounded k pending) (tokens : List Token) :
    walkOver g tokens pending =
      match (unclosed tokens)[k]? with
      | some tok => .opener tok.start tok.grammarName
      | none => .boundary := by
  induction tokens generalizing k pending with
  | nil => rfl
  | cons tok earlier ih =>
    rw [walkOver, unclosed]
    cases opener : opens tok.grammarName with
    | true =>
      rw [levels?_opener standard opener]
      rcases grounded.pass_opener with ⟨rfl, stops⟩ | ⟨j, kept, rfl, below, goes⟩
      · rw [stops]
        rfl
      · rw [goes]
        exact ih below
    | false =>
      cases closer : closes tok.grammarName with
      | true =>
        obtain ⟨kept, below, goes⟩ := grounded.pass_closer standard closer
        rw [goes]
        simp only [Bool.false_eq_true, if_false, if_true, List.getElem?_tail]
        exact ih below
      | false =>
        obtain ⟨kept, below, goes⟩ := grounded.pass_inner standard opener closer
        rw [goes]
        exact ih below

end Indent

/-! ### Constructs inside each other -/

namespace Grammar

open Indent

/-- The openers that are open behind some names, of which the last comes first; none when a closer
stands among them that no rule gives the innermost opener. -/
def nest : List String → Option (List String)
  | [] => some []
  | name :: earlier =>
    (nest earlier).bind fun inner =>
      if opens name then some (name :: inner)
      else if closes name then
        match inner with
        | [] => none
        | opener :: outer => if (opener, name) ∈ enclosures then some outer else none
      else some inner

/-- A closer in its place closes the innermost opener. -/
theorem nest_closer {name : String} {names stack : List String} (closer : closes name = true)
    (nested : nest (name :: names) = some stack) :
    ∃ opener, nest names = some (opener :: stack) ∧ (opener, name) ∈ enclosures := by
  obtain ⟨inner, before, here⟩ := Option.bind_eq_some_iff.mp nested
  rw [opens_closer closer, closer] at here
  cases inner with
  | nil => cases here
  | cons opener outer =>
    simp only [Bool.false_eq_true, if_false, if_true] at here
    split at here
    · rename_i pair
      cases here
      exact ⟨opener, before, pair⟩
    · cases here

/-- Where every closer is in its place, the open openers are those that no closer closes. -/
theorem nest_unclosed {tokens : List Token} {stack : List String}
    (nested : nest (tokens.map Token.grammarName) = some stack) :
    (unclosed tokens).map Token.grammarName = stack := by
  induction tokens generalizing stack with
  | nil =>
    cases nested
    rfl
  | cons tok earlier ih =>
    rw [List.map_cons] at nested
    rw [unclosed]
    cases closer : closes tok.grammarName with
    | true =>
      obtain ⟨opener, before, -⟩ := nest_closer closer nested
      simp [opens_closer closer, List.map_tail, ih before]
    | false =>
      obtain ⟨inner, before, here⟩ := Option.bind_eq_some_iff.mp nested
      rw [closer] at here
      cases opener : opens tok.grammarName <;> simp_all

end Grammar

namespace Source

open Token

variable {src : Source} {offset : Nat}

/-- The logical tokens before an offset, the last one first. -/
def tokensBefore (src : Source) (offset : Nat) : List Token :=
  (src.collectLogicalBack (src.text.floor offset) #[]).toList

/-- Asking for the token before, again and again, comes to an end. -/
theorem exists_before (src : Source) (joined : src.text.Joined) (offset : Nat) :
    ∃ tokens,
      Repeats (fun offset found => src.logicalBefore? offset = found) (·.start) offset tokens ∧
      ∀ tok ∈ tokens, src.text.isBoundary tok.start = true ∧ tok.start ≤ src.size := by
  induction offset using Nat.strongRecOn with
  | ind offset ih =>
    cases found : src.logicalBefore? offset with
    | none => exact ⟨[], .done found, by simp⟩
    | some tok =>
      obtain ⟨tokens, run, starts⟩ := ih tok.start (logicalBefore?_start_lt found)
      refine ⟨tok :: tokens, .step found run, List.forall_mem_cons.mpr ⟨?_, starts⟩⟩
      obtain ⟨last, code, rfl⟩ := Option.map_eq_some_iff.mp found
      obtain ⟨first, listed, start⟩ := resolveBack_start (mem_code_of_codeBefore? code)
      have member := mem_of_mem_code listed
      rw [start]
      exact ⟨(tokens_boundary joined first member).1, Nat.le_trans
        (Nat.le_of_lt (src.tokens_tiling.nonempty first member))
        (src.tokens_tiling.within first member)⟩

theorem earlier_tokensBefore (joined : src.text.Joined) (within : offset ≤ src.size) :
    src.Earlier offset (src.tokensBefore offset) := by
  obtain ⟨tokens, run, starts⟩ := src.exists_before joined (src.text.floor offset)
  have list : src.tokensBefore offset = tokens := by
    rw [tokensBefore, run.collected src.collectLogicalBack_eq_match]
    simp
  have asked : src.logicalToken? offset .backward = src.logicalBefore? (src.text.floor offset) :=
    if_neg (Nat.not_lt.mpr within)
  rw [list]
  cases run with
  | done ended => exact .done (asked.trans ended)
  | @step _ tok rest found others =>
    refine .step (asked.trans found) (others.congr
      (fun offset => src.text.isBoundary offset = true ∧ offset ≤ src.size) ?_
      (starts tok List.mem_cons_self) fun tok listed => starts tok (List.mem_cons_of_mem _ listed))
    intro offset found good here
    rw [(src.logicalToken?_boundary good).2, here]

end Source

namespace Indent

open Grammar

theorem pendingOf_closer {g : Grammar String} (standard : g.levels = standardLevels) {name : String}
    (closer : closes name = true) : pendingOf g (some name) = [0] := by
  have level := encloses standard name
  rw [pendingOf, Option.bind_some]
  generalize g.levels? name = levels at level
  cases level with
  | closer => rfl
  | operand inner other => simp [closer] at other
  | opener opener => simp [opens_closer closer] at opener
  | word inner other => simp [closer] at other

/-- A walk past the end of the text finds nothing. -/
theorem walkFrom_past {g : Grammar String} {src : Source} {steps i : Nat} {pending : List Nat}
    {stop : Stop} (past : src.size < i) (ended : walkFrom g src steps i pending = some stop) :
    stop = .boundary := by
  cases steps with
  | zero => cases ended
  | succ steps =>
    rw [walkFrom, Source.logicalToken?, if_pos past] at ended
    exact (Option.some.inj ended).symm

/-- The opener that a walk back from a closer ends at is the innermost one before it that no closer
of any kind has closed. It is an opener of that closer when, up to the closer, every one closes an
opener of its own. -/
theorem walk_closer (lexical : LexicalSettings) (s : String) (g : Grammar String)
    (standard : Grammar.standard = .ok g) (offset steps pos : Nat) (closer token : String)
    (closing : closes closer = true)
    (ended : walk g (.ofText lexical (.ofString s)) steps offset (some closer) =
      some (.opener pos token)) :
    let before := (Source.ofText lexical (.ofString s)).tokensBefore offset
    (∃ tok, (unclosed before).head? = some tok ∧ tok.start = pos ∧ tok.grammarName = token) ∧
      ((nest (closer :: before.map Token.grammarName)).isSome → (token, closer) ∈ enclosures) := by
  intro before
  rw [Grammar.standard_eq] at standard
  obtain rfl := Except.ok.inj standard
  rw [walk, pendingOf_closer rfl closing] at ended
  have within : offset ≤ (Source.ofText lexical (.ofString s)).size := by
    apply Nat.le_of_not_lt
    intro past
    cases walkFrom_past past ended
  have earlier := Source.earlier_tokensBefore (Text.joined_ofString s) within
  have stop := eq_walkOver earlier ended
  rw [walkOver_grounded rfl .ground, ← List.head?_eq_getElem?] at stop
  cases first : (unclosed before).head? with
  | none =>
    rw [first] at stop
    cases stop
  | some tok =>
    rw [first] at stop
    obtain ⟨rfl, rfl⟩ := Stop.opener.inj stop
    refine ⟨⟨tok, rfl, rfl, rfl⟩, fun proper => ?_⟩
    obtain ⟨stack, nested⟩ := Option.isSome_iff_exists.mp proper
    obtain ⟨opener, inner, pair⟩ := nest_closer closing nested
    have head := congrArg List.head? (nest_unclosed inner)
    rw [List.head?_map, first] at head
    rwa [← Option.some.inj head] at pair

/-- The end of a group pairs with the procedure around it, whose own end is missing. -/
theorem walk_closer_foreign :
    let g : Grammar String := ⟨standardLevels, []⟩
    let src := Source.ofText {} (.ofString "proc x; end")
    Grammar.standard = .ok g ∧ closes "end" = true ∧
      walk g src 100 8 (some "end") = some (.opener 0 "proc") ∧ ("proc", "end") ∉ enclosures := by
  intro g src
  exact ⟨Grammar.standard_eq, by decide, by decide +kernel, by decide⟩

/-- The end of a step pairs with the step, past a group and a bracket that are closed. -/
theorem walk_closer_step :
    let g : Grammar String := ⟨standardLevels, []⟩
    let src := Source.ofText {} (.ofString "data a; do; x = (1); end; run;")
    Grammar.standard = .ok g ∧ closes "run" = true ∧
      walk g src 100 26 (some "run") = some (.opener 0 "data") ∧
      (nest ("run" :: (src.tokensBefore 26).map Token.grammarName)).isSome ∧
      ("data", "run") ∈ enclosures := by
  intro g src
  have closing : closes "run" = true := by decide
  have ended : walk g src 100 26 (some "run") = some (.opener 0 "data") := by decide +kernel
  have proper : (nest ("run" :: (src.tokensBefore 26).map Token.grammarName)).isSome := by
    decide +kernel
  exact ⟨Grammar.standard_eq, closing, ended, proper,
    (walk_closer {} _ g Grammar.standard_eq 26 100 0 "run" "data" closing ended).2 proper⟩

end Indent

end SasLayout
