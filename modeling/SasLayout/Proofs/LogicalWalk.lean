import SasLayout.Indent.Walk
import SasLayout.Proofs.Names

set_option autoImplicit false

/-!
The walk backward as a pass over the list of logical tokens before an offset, the last one first.
What a walk finds is then a matter of lists and levels.
-/
namespace SasLayout

namespace Token

variable {answer : Nat → Option Token → Prop} {onward : Token → Nat} {offset : Nat}
  {tok : Token} {front back : List Token}

theorem Repeats.first (run : Repeats answer onward offset back) : answer offset back.head? := by
  cases run with
  | done ended => exact ended
  | step found others => exact found

theorem Repeats.rest (run : Repeats answer onward offset (tok :: back)) :
    Repeats answer onward (onward tok) back := by
  cases run with
  | step found others => exact others

theorem Repeats.skip (run : Repeats answer onward offset (front ++ tok :: back)) :
    Repeats answer onward (onward tok) back := by
  induction front generalizing offset with
  | nil => exact run.rest
  | cons first others ih => exact ih run.rest

theorem Repeats.answered {tokens : List Token} (run : Repeats answer onward offset tokens)
    (listed : tok ∈ tokens) : ∃ asked, answer asked (some tok) := by
  obtain ⟨front, back, rfl⟩ := List.append_of_mem listed
  induction front generalizing offset with
  | nil => exact ⟨offset, run.first⟩
  | cons first others ih => exact ih run.rest (by simp)

end Token

namespace Source

open Token

variable {src : Source} {i : Nat} {tok : Token} {front back : List Token}

/-- The logical tokens before an offset, the last one first. -/
abbrev Earlier (src : Source) : Nat → List Token → Prop :=
  Repeats (fun offset found => src.logicalToken? offset .backward = found) (·.start)

/-- The logical tokens after an offset. -/
abbrev Later (src : Source) : Nat → List Token → Prop :=
  Repeats (fun offset found => src.logicalToken? offset .forward = found) (·.stop)

theorem logicalTokens_boundary (joined : src.text.Joined) (listed : tok ∈ src.logicalTokens.toList) :
    (src.text.isBoundary tok.start = true ∧ tok.start ≤ src.size) ∧
      src.text.isBoundary tok.stop = true ∧ tok.stop ≤ src.size := by
  rw [toList_logicalTokens] at listed
  exact src.rewriteBefore_boundary joined tok listed

theorem earlier_size (joined : src.text.Joined) :
    src.Earlier src.size src.logicalTokens.toList.reverse := by
  rw [toList_logicalTokens]
  refine src.logical_backward.congr
    (fun offset => src.text.isBoundary offset = true ∧ offset ≤ src.size) ?_
    ⟨isBoundary_size _, Nat.le_refl _⟩ fun tok listed => ?_
  · intro offset found good here
    rw [(src.logicalToken?_boundary good).2, here]
  · exact (src.rewriteBefore_boundary joined tok (List.mem_reverse.mp listed)).1

theorem later_zero (joined : src.text.Joined) : src.Later 0 src.logicalTokens.toList := by
  rw [toList_logicalTokens]
  refine src.logical_forward.congr
    (fun offset => src.text.isBoundary offset = true ∧ offset ≤ src.size) ?_
    ⟨isBoundary_zero _, Nat.zero_le _⟩ fun tok listed => ?_
  · intro offset found good here
    rw [(src.logicalToken?_boundary good).1, here]
  · exact (src.rewriteBefore_boundary joined tok listed).2

theorem earlier_start (joined : src.text.Joined)
    (split : src.logicalTokens.toList = front ++ tok :: back) : src.Earlier tok.start front.reverse := by
  have run := earlier_size joined
  rw [split, List.reverse_append, List.reverse_cons, List.append_assoc] at run
  exact run.skip

theorem later_stop (joined : src.text.Joined)
    (split : src.logicalTokens.toList = front ++ tok :: back) : src.Later tok.stop back := by
  have run := later_zero joined
  rw [split] at run
  exact run.skip

theorem mem_code_of_codeBefore? (found : src.codeBefore? i = some tok) :
    tok ∈ code src.tokens.toList := by
  fun_induction codeBefore? src i with
  | case1 => cases found
  | case2 offset last before bound comment ih => exact ih found
  | case3 offset last before bound other =>
    cases found
    rw [src.tokens_tiling.tokenBefore?_eq, Option.or_eq_some_iff] at before
    refine List.mem_filter.mpr ⟨?_, by simpa using other⟩
    rcases before with around | ⟨-, last⟩
    · exact List.mem_of_find?_eq_some around
    · exact List.mem_reverse.mp (List.mem_of_find?_eq_some last)

/-- A logical token read backward starts where some token of the code does. -/
theorem resolveBack_start (listed : tok ∈ code src.tokens.toList) :
    ∃ first ∈ code src.tokens.toList, (src.resolveBack tok).start = first.start := by
  have alone : ∃ first ∈ code src.tokens.toList, (src.resolve tok).start = first.start :=
    ⟨tok, listed, src.resolve_start tok⟩
  unfold resolveBack
  split
  · split
    · rename_i previous found
      split
      · exact ⟨previous, mem_code_of_codeBefore? found, rfl⟩
      · exact alone
    · exact alone
  · exact alone

theorem mem_code_of_codeAfter? (found : src.codeAfter? i = some tok) :
    tok ∈ code src.tokens.toList := by
  fun_induction codeAfter? src i with
  | case1 => cases found
  | case2 offset next after bound comment ih => exact ih found
  | case3 offset next after bound other =>
    cases found
    rw [src.tokens_tiling.tokenAfter?_eq] at after
    exact List.mem_filter.mpr ⟨List.mem_of_find?_eq_some after, by simpa using other⟩

/-- A logical token stands where the code token that it begins with does. -/
theorem exists_first (joined : src.text.Joined) (listed : tok ∈ src.logicalTokens.toList) :
    ∃ first ∈ code src.tokens.toList, first.start = tok.start ∧ src.resolve first = tok := by
  obtain ⟨asked, found⟩ := (later_zero joined).answered listed
  rw [logicalToken?] at found
  split at found
  · cases found
  · obtain ⟨first, code, rfl⟩ := Option.map_eq_some_iff.mp found
    exact ⟨first, mem_code_of_codeAfter? code, (src.resolve_start first).symm, rfl⟩

theorem Tiling.split_code {first : Token} (listed : first ∈ code src.tokens.toList) :
    ∃ front back, src.Cut front (first :: back) first.start := by
  obtain ⟨front, back, whole⟩ := List.append_of_mem (mem_of_mem_code listed)
  exact ⟨front, back, (whole ▸ src.tokens_tiling).cut_start⟩

/-- From its start a logical token is found again. -/
theorem logicalToken?_start (joined : src.text.Joined) (listed : tok ∈ src.logicalTokens.toList) :
    src.logicalToken? tok.start .forward = some tok ∧
      ∃ first, src.tokenAfter? tok.start = some first ∧ first.isComment = false := by
  obtain ⟨first, member, start, rfl⟩ := exists_first joined listed
  have other : first.isComment = false := by simpa using (List.mem_filter.mp member).2
  obtain ⟨front, back, cut⟩ := Tiling.split_code member
  rw [(src.logicalToken?_boundary (logicalTokens_boundary joined listed).1).1, ← start,
    cut.logicalAfter?, cut.tokenAfter?, code_cons other]
  exact ⟨rfl, first, rfl, other⟩

/-! ### Semicolons -/

theorem rewriteBefore_named {after : Option Token} {tokens : List Token}
    (listed : tok ∈ src.rewriteBefore after tokens) (named : tok.grammarName ≠ "")
    (other : tok.grammarName ≠ "dataequal") : tok ∈ tokens := by
  have single : ∀ {first : Token} {next : Option Token}, tok = first.resolved next →
      tok = first := by
    rintro first next rfl
    rcases first.resolved_cases next with same | operand
    · exact same
    · exact absurd operand named
  induction tokens using rewriteBefore.induct with
  | case1 => exact absurd listed List.not_mem_nil
  | case2 first => exact List.mem_singleton.mpr (single (List.mem_singleton.mp listed))
  | case3 first second rest pair ih =>
    rw [src.rewriteBefore_target pair] at listed
    rcases List.mem_cons.mp listed with rfl | later
    · exact absurd rfl other
    · simp [ih later]
  | case4 first second rest pair ih =>
    rw [src.rewriteBefore_cons (by simpa using pair)] at listed
    rcases List.mem_cons.mp listed with same | later
    · exact List.mem_cons.mpr (Or.inl (single same))
    · exact List.mem_cons_of_mem _ (ih later)

theorem mem_rewriteBefore {after : Option Token} {tokens : List Token} (listed : tok ∈ tokens)
    (ends : tok.kind = .statementEnd) : tok ∈ src.rewriteBefore after tokens := by
  have plain : ∀ k, tok.isKeyword k = false := by simp [isKeyword, keyword?, ends, Kind.isReserved]
  have single : ∀ next, tok.resolved next = tok := by simp [resolved, plain]
  induction tokens using rewriteBefore.induct with
  | case1 => exact listed
  | case2 first =>
    obtain rfl := List.mem_singleton.mp listed
    simp [rewriteBefore, single]
  | case3 first second rest pair ih =>
    rw [src.rewriteBefore_target pair]
    rw [isTarget, Bool.and_eq_true] at pair
    rcases List.mem_cons.mp listed with rfl | later
    · simp [plain] at pair
    rcases List.mem_cons.mp later with rfl | later
    · simp [isEquals, ends] at pair
    · exact List.mem_cons_of_mem _ (ih later)
  | case4 first second rest pair ih =>
    rw [src.rewriteBefore_cons (by simpa using pair)]
    rcases List.mem_cons.mp listed with rfl | later
    · simp [single]
    · exact List.mem_cons_of_mem _ (ih later)

theorem semicolon_stop (listed : tok ∈ src.logicalTokens.toList) (name : tok.grammarName = ";") :
    tok.stop = tok.start + 1 := by
  rw [toList_logicalTokens] at listed
  have member := rewriteBefore_named listed (by simp [name]) (by simp [name])
  exact lone_stop (mem_of_mem_code member) (by simp [name])

/-- A semicolon before an offset is one of the logical tokens. -/
theorem semicolon_mem (found : src.logicalToken? i .backward = some tok)
    (name : tok.grammarName = ";") : tok ∈ src.logicalTokens.toList := by
  rw [logicalToken?] at found
  split at found
  · cases found
  · obtain ⟨last, code, rfl⟩ := Option.map_eq_some_iff.mp found
    have same : src.resolveBack last = last :=
      resolveBack_named (by simp [name]) (by simp [name])
    rw [same] at name ⊢
    have member := mem_code_of_codeBefore? code
    rw [toList_logicalTokens]
    exact mem_rewriteBefore member (semicolon_kind (mem_of_mem_code member) name)

end Source

namespace Indent

variable {g : Grammar String} {src : Source} {i steps : Nat} {pending : List Nat}
  {tokens front back : List Token}

/-- The walk over the tokens before an offset. -/
def walkOver (g : Grammar String) : List Token → List Nat → Stop
  | [], _ => .boundary
  | tok :: rest, pending =>
    match pass (g.levels? tok.grammarName) pending with
    | .go pending => walkOver g rest pending
    | .skipped => .skipped tok.start
    | .opener => .opener tok.start tok.grammarName
    | .parent => .parent tok.start tok.grammarName ((g.levels? tok.grammarName).bind (·.left))

/-- With steps enough for all tokens the walk ends. -/
theorem walkFrom_eq (earlier : src.Earlier i tokens) (enough : tokens.length < steps)
    (pending : List Nat) : walkFrom g src steps i pending = some (walkOver g tokens pending) := by
  induction tokens generalizing steps i pending with
  | nil =>
    obtain ⟨fuel, rfl⟩ : ∃ fuel, steps = fuel + 1 := ⟨steps - 1, by simp at enough; omega⟩
    rw [walkFrom, earlier.first]
    rfl
  | cons tok rest ih =>
    obtain ⟨fuel, rfl⟩ : ∃ fuel, steps = fuel + 1 := ⟨steps - 1, by simp at enough; omega⟩
    rw [walkFrom, earlier.first]
    simp only [List.head?_cons, walkOver]
    cases pass (g.levels? tok.grammarName) pending with
    | go pending => exact ih earlier.rest (by simp at enough; omega) pending
    | _ => rfl

/-- A walk that ends within its steps ends where the walk over all tokens does. -/
theorem eq_walkOver (earlier : src.Earlier i tokens) {stop : Stop}
    (ended : walkFrom g src steps i pending = some stop) : stop = walkOver g tokens pending := by
  induction tokens generalizing steps i pending with
  | nil =>
    cases steps with
    | zero => exact nomatch ended
    | succ steps =>
      rw [walkFrom, earlier.first] at ended
      exact (Option.some.inj ended).symm
  | cons tok rest ih =>
    cases steps with
    | zero => exact nomatch ended
    | succ steps =>
      rw [walkFrom, earlier.first] at ended
      simp only [List.head?_cons] at ended
      rw [walkOver]
      cases passed : pass (g.levels? tok.grammarName) pending with
      | go pending =>
        rw [passed] at ended
        exact ih earlier.rest ended
      | _ =>
        rw [passed] at ended
        exact (Option.some.inj ended).symm

/-- What is pending once all of some tokens have been passed. -/
def carry (g : Grammar String) : List Token → List Nat → Option (List Nat)
  | [], pending => some pending
  | tok :: rest, pending =>
    match pass (g.levels? tok.grammarName) pending with
    | .go pending => carry g rest pending
    | _ => none

theorem carry_append {pending' : List Nat} (passed : carry g front pending = some pending') :
    carry g (front ++ back) pending = carry g back pending' := by
  induction front generalizing pending with
  | nil =>
    obtain rfl := Option.some.inj passed
    rfl
  | cons tok rest ih =>
    rw [carry] at passed
    rw [List.cons_append, carry]
    cases step : pass (g.levels? tok.grammarName) pending with
    | go next =>
      rw [step] at passed
      exact ih passed
    | _ =>
      rw [step] at passed
      exact nomatch passed

theorem walkOver_append {pending' : List Nat} (passed : carry g front pending = some pending') :
    walkOver g (front ++ back) pending = walkOver g back pending' := by
  induction front generalizing pending with
  | nil =>
    obtain rfl := Option.some.inj passed
    rfl
  | cons tok rest ih =>
    rw [carry] at passed
    rw [List.cons_append, walkOver]
    cases step : pass (g.levels? tok.grammarName) pending with
    | go next =>
      rw [step] at passed
      exact ih passed
    | _ =>
      rw [step] at passed
      exact nomatch passed

/-- A walk that does not reach the start of the text has passed all tokens but the one that ends
it. -/
theorem walkOver_cases (g : Grammar String) (tokens : List Token) (pending : List Nat) :
    walkOver g tokens pending = .boundary ∨
      ∃ passed tok rest pending', tokens = passed ++ tok :: rest ∧
        carry g passed pending = some pending' ∧
        walkOver g tokens pending = walkOver g (tok :: rest) pending' ∧
        ∀ next, pass (g.levels? tok.grammarName) pending' ≠ .go next := by
  induction tokens generalizing pending with
  | nil => exact Or.inl rfl
  | cons tok rest ih =>
    by_cases goes : ∃ next, pass (g.levels? tok.grammarName) pending = .go next
    · obtain ⟨next, step⟩ := goes
      have onward : walkOver g (tok :: rest) pending = walkOver g rest next := by
        rw [walkOver, step]
      rw [onward]
      rcases ih next with reached | ⟨passed, last, others, pending', rfl, before, same, stops⟩
      · exact Or.inl reached
      · exact Or.inr ⟨tok :: passed, last, others, pending', rfl, by rw [carry, step]; exact before,
          same, stops⟩
    · exact Or.inr ⟨[], tok, rest, pending, rfl, rfl, rfl, not_exists.mp goes⟩

end Indent
end SasLayout
