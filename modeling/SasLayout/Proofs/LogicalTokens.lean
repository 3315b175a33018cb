import SasLayout.LogicalToken
import SasLayout.Proofs.TokenLookup

set_option autoImplicit false

/-!
The logical tokens as a rewriting of the list of code tokens. A scan forward resolves a token by the
one after it and a scan backward also looks at the one before; both give the list that a single pass
over the code tokens gives.
-/
namespace SasLayout

namespace Token

/-- The tokens that are not comments. -/
def code (tokens : List Token) : List Token :=
  tokens.filter (!·.isComment)

@[simp] theorem code_nil : code [] = [] :=
  rfl

@[simp] theorem code_append (front back : List Token) :
    code (front ++ back) = code front ++ code back :=
  List.filter_append ..

theorem code_comment {tok : Token} (comment : tok.isComment = true) (rest : List Token) :
    code (tok :: rest) = code rest :=
  List.filter_cons_of_neg (by simp [comment])

theorem code_cons {tok : Token} (other : tok.isComment = false) (rest : List Token) :
    code (tok :: rest) = tok :: code rest :=
  List.filter_cons_of_pos (p := fun tok : Token => !tok.isComment) (by simp [other])

theorem mem_of_mem_code {tok : Token} {tokens : List Token} (listed : tok ∈ code tokens) :
    tok ∈ tokens :=
  (List.mem_filter.mp listed).1

theorem split_code {tok : Token} {tokens rest : List Token} (split : code tokens = tok :: rest) :
    ∃ skipped later, tokens = skipped ++ tok :: later ∧ code skipped = [] ∧ code later = rest := by
  obtain ⟨skipped, later, rfl, comments, other, remaining⟩ := List.filter_eq_cons_iff.mp split
  exact ⟨skipped, later, rfl, List.filter_eq_nil_iff.mpr comments, remaining⟩

theorem split_code_last {tok : Token} {tokens rest : List Token}
    (split : code tokens = rest ++ [tok]) :
    ∃ earlier skipped, tokens = earlier ++ tok :: skipped ∧ code earlier = rest ∧
      code skipped = [] := by
  have mirrored : code tokens.reverse = tok :: rest.reverse := by
    rw [code, List.filter_reverse, ← code, split, List.reverse_append, List.reverse_singleton,
      List.singleton_append]
  obtain ⟨skipped, later, same, comments, remaining⟩ := split_code mirrored
  refine ⟨later.reverse, skipped.reverse, ?_, ?_, ?_⟩
  · rw [← List.reverse_reverse tokens, same, List.reverse_append, List.reverse_cons,
      List.append_assoc, List.singleton_append]
  · rw [code, List.filter_reverse, ← code, remaining, List.reverse_reverse]
  · rw [code, List.filter_reverse, ← code, comments, List.reverse_nil]

/-- The word `data` with the equals sign right after it. -/
def isTarget (tok next : Token) : Bool :=
  tok.isKeyword .data && next.isEquals

/-- A word that is an operand or not by the token after it: `output` is one before a semicolon,
`select` anywhere but before a semicolon or an opening bracket. -/
def resolved (tok : Token) (next : Option Token) : Token :=
  if tok.isKeyword .output && next.any (·.kind = .statementEnd) then Source.asIdentifier tok
  else if tok.isKeyword .select &&
      !next.any (fun next => next.kind = .statementEnd || next.kind = .openParen) then
    Source.asIdentifier tok
  else tok

theorem isEquals_of_isKeyword {tok : Token} {k : Keyword} (reserved : tok.isKeyword k = true) :
    tok.isEquals = false := by
  have kind : tok.kind.isReserved = true := by
    by_contra other
    simp [isKeyword, keyword?, other] at reserved
  cases equals : tok.kind <;> simp_all [isEquals, Kind.isReserved]

theorem isTarget_chain {first second third : Token} (target : second.isTarget third = true) :
    first.isTarget second = false := by
  rw [isTarget, Bool.and_eq_true] at target
  rw [isTarget, isEquals_of_isKeyword target.1, Bool.and_false]

@[simp] theorem resolved_start (tok : Token) (next : Option Token) :
    (tok.resolved next).start = tok.start := by
  unfold resolved
  split <;> [rfl; split <;> rfl]

@[simp] theorem resolved_stop (tok : Token) (next : Option Token) :
    (tok.resolved next).stop = tok.stop := by
  unfold resolved
  split <;> [rfl; split <;> rfl]

end Token

namespace Source

open Token

/-- The logical tokens of a list of code tokens that `after` follows. -/
def rewriteBefore (src : Source) (after : Option Token) : List Token → List Token
  | [] => []
  | [tok] => [tok.resolved after]
  | tok :: next :: rest =>
    if tok.isTarget next then src.assignmentTarget tok next :: src.rewriteBefore after rest
    else tok.resolved (some next) :: src.rewriteBefore after (next :: rest)

section Rewrite

variable (src : Source) {after : Option Token}

theorem rewriteBefore_target {tok next : Token} (target : tok.isTarget next = true)
    (rest : List Token) :
    src.rewriteBefore after (tok :: next :: rest) =
      src.assignmentTarget tok next :: src.rewriteBefore after rest :=
  if_pos target

theorem rewriteBefore_cons {tok : Token} {rest : List Token}
    (alone : (rest.head?.or after).any (tok.isTarget ·) = false) :
    src.rewriteBefore after (tok :: rest) =
      tok.resolved (rest.head?.or after) :: src.rewriteBefore after rest := by
  cases rest with
  | nil => rfl
  | cons next rest => exact if_neg (by simpa using alone)

/-- The pass seen from its end, where the last two tokens make one. -/
theorem rewriteBefore_append_target {tok next : Token} (target : tok.isTarget next = true)
    (rest : List Token) :
    src.rewriteBefore after (rest ++ [tok, next]) =
      src.rewriteBefore (some tok) rest ++ [src.assignmentTarget tok next] := by
  induction rest using rewriteBefore.induct with
  | case1 => exact src.rewriteBefore_target target []
  | case2 first =>
    rw [List.singleton_append,
      src.rewriteBefore_cons (by simpa using isTarget_chain target),
      src.rewriteBefore_target target]
    rfl
  | case3 first second rest pair ih =>
    rw [src.rewriteBefore_target pair, List.cons_append, List.cons_append,
      src.rewriteBefore_target pair, ih, List.cons_append]
  | case4 first second rest pair ih =>
    rw [src.rewriteBefore_cons (by simpa using pair), List.cons_append,
      src.rewriteBefore_cons (by simpa using pair), ih]
    rfl

/-- The pass seen from its end, where the last token stands by itself. -/
theorem rewriteBefore_append_single {tok : Token} {rest : List Token}
    (alone : rest.getLast?.any (·.isTarget tok) = false) :
    src.rewriteBefore after (rest ++ [tok]) =
      src.rewriteBefore (some tok) rest ++ [tok.resolved after] := by
  induction rest using rewriteBefore.induct with
  | case1 => rfl
  | case2 first =>
    rw [List.singleton_append, src.rewriteBefore_cons (by simpa using alone)]
    rfl
  | case3 first second rest pair ih =>
    have later : rest.getLast?.any (·.isTarget tok) = false := by
      cases rest with
      | nil => rfl
      | cons third rest => simpa [List.getLast?_cons_cons] using alone
    rw [src.rewriteBefore_target pair, List.cons_append, List.cons_append,
      src.rewriteBefore_target pair, ih later, List.cons_append]
  | case4 first second rest pair ih =>
    rw [List.getLast?_cons_cons] at alone
    rw [src.rewriteBefore_cons (by simpa using pair), List.cons_append,
      src.rewriteBefore_cons (by simpa using pair), ih alone]
    rfl

theorem rewriteBefore_bounds {tokens : List Token} {tok : Token}
    (listed : tok ∈ src.rewriteBefore after tokens) :
    (∃ first ∈ tokens, tok.start = first.start) ∧ ∃ last ∈ tokens, tok.stop = last.stop := by
  induction tokens using rewriteBefore.induct with
  | case1 => exact absurd listed List.not_mem_nil
  | case2 first =>
    rw [List.mem_singleton.mp listed]
    exact ⟨⟨first, List.mem_cons_self, resolved_start ..⟩,
      first, List.mem_cons_self, resolved_stop ..⟩
  | case3 first second rest pair ih =>
    rw [src.rewriteBefore_target pair] at listed
    rcases List.mem_cons.mp listed with rfl | later
    · exact ⟨⟨first, by simp, rfl⟩, second, by simp, rfl⟩
    · obtain ⟨⟨a, inside, start⟩, b, within, stop⟩ := ih later
      exact ⟨⟨a, by simp [inside], start⟩, b, by simp [within], stop⟩
  | case4 first second rest pair ih =>
    rw [src.rewriteBefore_cons (by simpa using pair)] at listed
    rcases List.mem_cons.mp listed with rfl | later
    · exact ⟨⟨first, by simp, resolved_start ..⟩, first, by simp, resolved_stop ..⟩
    · obtain ⟨⟨a, inside, start⟩, b, within, stop⟩ := ih later
      exact ⟨⟨a, List.mem_cons_of_mem _ inside, start⟩, b, List.mem_cons_of_mem _ within, stop⟩

/-- A change of tokens that leaves all that the pass asks of them is passed on, as far as `view`
sees it. -/
structure Passes {β : Type} (src other : Source) (change : Token → Token) (view : Token → β) :
    Prop where
  kind : ∀ tok, (change tok).kind = tok.kind
  keyword : ∀ tok k, (change tok).isKeyword k = tok.isKeyword k
  equals : ∀ tok, (change tok).isEquals = tok.isEquals
  identifier : ∀ tok, asIdentifier (change tok) = change (asIdentifier tok)
  target : ∀ data equals, view (other.assignmentTarget (change data) (change equals)) =
    view (change (src.assignmentTarget data equals))

theorem Passes.resolved {β : Type} {src other : Source} {change : Token → Token}
    {view : Token → β} (passes : Passes src other change view) (tok : Token)
    (next : Option Token) :
    (change tok).resolved (next.map change) = change (tok.resolved next) := by
  have following : ∀ p : Token.Kind → Bool,
      (next.map change).any (fun next => p next.kind) = next.any fun next => p next.kind := by
    intro p
    rw [Option.any_map]
    simp only [passes.kind]
  unfold Token.resolved
  rw [following (· = .statementEnd),
    following fun kind => kind = .statementEnd || kind = .openParen, passes.keyword,
    passes.keyword, passes.identifier]
  split
  · rfl
  · split <;> rfl

theorem Passes.rewriteBefore {β : Type} {src other : Source} {change : Token → Token}
    {view : Token → β} (passes : Passes src other change view) (tokens : List Token) :
    (other.rewriteBefore none (tokens.map change)).map view =
      (src.rewriteBefore none tokens).map fun tok => view (change tok) := by
  have pairs : ∀ tok next, (change tok).isTarget (change next) = tok.isTarget next := by
    intro tok next
    rw [isTarget, isTarget, passes.keyword, passes.equals]
  induction tokens using Source.rewriteBefore.induct with
  | case1 => rfl
  | case2 tok =>
    have alone := passes.resolved tok none
    rw [Option.map_none] at alone
    rw [List.map_singleton, Source.rewriteBefore, Source.rewriteBefore, alone, List.map_singleton,
      List.map_singleton]
  | case3 tok next rest pair ih =>
    rw [src.rewriteBefore_target pair, List.map_cons, List.map_cons,
      other.rewriteBefore_target (by rw [pairs, pair]), List.map_cons, List.map_cons, ih,
      passes.target]
  | case4 tok next rest pair ih =>
    have alone := passes.resolved tok (some next)
    rw [Option.map_some] at alone
    rw [List.map_cons] at ih
    rw [src.rewriteBefore_cons (by simpa using pair), List.map_cons, List.map_cons,
      other.rewriteBefore_cons (by simpa [pairs] using pair), List.map_cons, List.map_cons, ih,
      List.head?_cons, List.head?_cons, Option.some_or, Option.some_or, alone]

end Rewrite

section Lookup

variable {src : Source} {front back rest : List Token} {tok next : Token} {offset : Nat}

theorem codeAfter?_eq_match (src : Source) (offset : Nat) :
    src.codeAfter? offset = match src.tokenAfter? offset with
      | none => none
      | some tok => if tok.isComment then src.codeAfter? tok.stop else some tok := by
  rw [Source.codeAfter?]
  split <;> simp_all

theorem codeBefore?_eq_match (src : Source) (offset : Nat) :
    src.codeBefore? offset = match src.tokenBefore? offset with
      | none => none
      | some tok => if tok.isComment then src.codeBefore? tok.start else some tok := by
  rw [Source.codeBefore?]
  split <;> simp_all

theorem Cut.codeAfter? (cut : src.Cut front back offset) :
    src.codeAfter? offset = (code back).head? := by
  induction back generalizing front offset with
  | nil => simp [codeAfter?_eq_match, cut.tokenAfter?]
  | cons tok rest ih =>
    rw [codeAfter?_eq_match, cut.tokenAfter?, List.head?_cons]
    cases comment : tok.isComment with
    | true => simp [comment, ih cut.tiling.cut_stop, code_comment comment]
    | false => simp [comment, code_cons comment]

theorem Cut.codeBefore? (cut : src.Cut front back offset) :
    src.codeBefore? offset = (code front).getLast? := by
  induction front using List.reverseRecOn generalizing back offset with
  | nil => simp [codeBefore?_eq_match, cut.tokenBefore?]
  | append_singleton rest tok ih =>
    have tiling := cut.tiling
    rw [List.append_assoc, List.singleton_append] at tiling
    rw [codeBefore?_eq_match, cut.tokenBefore?, List.getLast?_concat]
    cases comment : tok.isComment with
    | true => simp [comment, ih tiling.cut_start, code_comment comment]
    | false => simp [comment, code_cons comment]

/-- The cut behind the first code token after a cut. -/
theorem Cut.behind (cut : src.Cut front back offset) (split : code back = tok :: rest) :
    ∃ before after, src.Cut before after tok.stop ∧ code after = rest := by
  obtain ⟨skipped, later, rfl, -, remaining⟩ := split_code split
  have tiling := cut.tiling
  rw [← List.append_assoc] at tiling
  exact ⟨_, later, tiling.cut_stop, remaining⟩

/-- The cuts around the last code token before a cut. -/
theorem Cut.around (cut : src.Cut front back offset) (split : code front = rest ++ [tok]) :
    (∃ before after, src.Cut before after tok.start ∧ code before = rest ∧
      code after = tok :: code back) ∧
    ∃ before after, src.Cut before after tok.stop ∧ code after = code back := by
  have listed : tok ∈ code front := by simp [split]
  have other : tok.isComment = false := by simpa using (List.mem_filter.mp listed).2
  obtain ⟨earlier, skipped, rfl, remaining, comments⟩ := split_code_last split
  have tiling := cut.tiling
  rw [List.append_assoc, List.cons_append] at tiling
  have later : code (skipped ++ back) = code back := by
    rw [code_append, comments, List.nil_append]
  exact ⟨⟨earlier, _, tiling.cut_start, remaining, by rw [code_cons other, later]⟩,
    _, _, tiling.cut_stop, later⟩

theorem resolve_target (following : src.codeAfter? tok.stop = some next)
    (target : tok.isTarget next = true) : src.resolve tok = src.assignmentTarget tok next := by
  rw [isTarget, Bool.and_eq_true, isKeyword, decide_eq_true_eq] at target
  simp only [resolve, target.1, following, target.2, if_true]

theorem resolve_single {following : Option Token} (found : src.codeAfter? tok.stop = following)
    (alone : following.any (tok.isTarget ·) = false) :
    src.resolve tok = tok.resolved following := by
  subst found
  unfold resolve resolved
  split
  · -- Before `data` no equals sign is left to merge with.
    rename_i spelled
    cases found : src.codeAfter? tok.stop with
    | none => simp [isKeyword, spelled]
    | some next =>
      have other : next.isEquals = false := by
        simpa [found, isTarget, isKeyword, spelled] using alone
      simp [isKeyword, spelled, other]
  · rename_i spelled
    simp [isKeyword, spelled]
  · rename_i spelled
    simp only [isKeyword, spelled]
    cases (src.codeAfter? tok.stop).any _ <;> rfl
  · rename_i _ output select
    rw [isKeyword, isKeyword, decide_eq_false output, decide_eq_false select]
    rfl

theorem Cut.logicalAfter? (cut : src.Cut front back offset) :
    src.logicalAfter? offset = (code back).head?.map src.resolve := by
  rw [Source.logicalAfter?, cut.codeAfter?]

theorem Cut.logicalBefore? (cut : src.Cut front back offset) :
    src.logicalBefore? offset = (code front).getLast?.map src.resolveBack := by
  rw [Source.logicalBefore?, cut.codeBefore?]

/-- The run forward. Each step leaves a cut behind the code tokens that it has used. -/
theorem Cut.logical_forward (cut : src.Cut front back offset) :
    Repeats (fun offset found => src.logicalAfter? offset = found) (·.stop) offset
      (src.rewriteBefore none (code back)) := by
  induction listed : code back using rewriteBefore.induct generalizing front back offset with
  | case1 =>
    refine .done ?_
    rw [cut.logicalAfter?, listed, List.head?_nil, Option.map_none]
  | case2 tok =>
    obtain ⟨before, after, later, ended⟩ := cut.behind listed
    have found := later.codeAfter?
    rw [ended, List.head?_nil] at found
    have here := cut.logicalAfter?
    rw [listed, List.head?_cons, Option.map_some, resolve_single found rfl] at here
    refine .step here (.done ?_)
    rw [resolved_stop, later.logicalAfter?, ended, List.head?_nil, Option.map_none]
  | case3 tok next rest pair ih =>
    obtain ⟨_, _, between, followed⟩ := cut.behind listed
    obtain ⟨before, after, later, remaining⟩ := between.behind followed
    have found := between.codeAfter?
    rw [followed, List.head?_cons] at found
    have here := cut.logicalAfter?
    rw [listed, List.head?_cons, Option.map_some, resolve_target found pair] at here
    rw [src.rewriteBefore_target pair]
    exact .step here (ih later remaining)
  | case4 tok next rest pair ih =>
    obtain ⟨before, after, later, remaining⟩ := cut.behind listed
    have found := later.codeAfter?
    rw [remaining, List.head?_cons] at found
    have alone : (some next).any (tok.isTarget ·) = false := by simpa using pair
    have here := cut.logicalAfter?
    rw [listed, List.head?_cons, Option.map_some, resolve_single found alone] at here
    rw [src.rewriteBefore_cons alone]
    refine .step here ?_
    rw [List.head?_cons, Option.some_or, resolved_stop]
    exact ih later remaining

theorem resolveBack_target (preceding : src.codeBefore? next.start = some tok)
    (target : tok.isTarget next = true) : src.resolveBack next = src.assignmentTarget tok next := by
  rw [isTarget, Bool.and_eq_true] at target
  simp only [resolveBack, target.2, preceding, target.1, if_true]

theorem resolveBack_single {preceding : Option Token}
    (found : src.codeBefore? tok.start = preceding)
    (alone : preceding.any (·.isTarget tok) = false) : src.resolveBack tok = src.resolve tok := by
  unfold resolveBack
  rw [found]
  cases preceding with
  | none => exact ite_self _
  | some previous =>
    rw [Option.any_some, isTarget, Bool.and_eq_false_iff] at alone
    rcases alone with other | other <;> simp [other]

/-- The run backward, from a cut that does not part `data` from its equals sign. A token that has
just been given stands after the cut that its start makes, so the next one is resolved by it. -/
theorem Cut.logical_backward (cut : src.Cut front back offset)
    (whole : ∀ tok ∈ (code front).getLast?, ∀ next ∈ (code back).head?,
      tok.isTarget next = false) :
    Repeats (fun offset found => src.logicalBefore? offset = found) (·.start) offset
      (src.rewriteBefore (code back).head? (code front)).reverse := by
  induction size : (code front).length using Nat.strongRecOn generalizing front back offset with
  | ind size ih =>
    have here := cut.logicalBefore?
    rcases List.eq_nil_or_concat (code front) with empty | ⟨earlier, next, split⟩
    · rw [empty] at here ⊢
      exact .done here
    · rw [List.concat_eq_append] at split
      rw [split, List.getLast?_concat, Option.map_some] at here
      obtain ⟨⟨before, after, starts, preceding, following⟩, _, _, stops, beyond⟩ :=
        cut.around split
      have found := starts.codeBefore?
      rw [preceding] at found
      cases joins : earlier.getLast?.any (·.isTarget next) with
      | true =>
        obtain ⟨tok, last, target⟩ := (Option.any_eq_true _ _).mp joins
        obtain ⟨others, rfl⟩ := List.getLast?_eq_some_iff.mp last
        rw [resolveBack_target (found.trans last) target] at here
        obtain ⟨⟨_, _, sooner, remaining, followed⟩, -⟩ := starts.around preceding
        rw [split, List.append_assoc, List.singleton_append,
          src.rewriteBefore_append_target target, List.reverse_append]
        refine .step here ?_
        have run := ih others.length (by rw [← size, split]; simp) sooner ?_ (by rw [remaining])
        · rwa [remaining, followed, List.head?_cons] at run
        · rw [followed]
          rintro first - second same
          obtain rfl : tok = second := by simpa using same
          exact isTarget_chain target
      | false =>
        have alone : (code back).head?.any (next.isTarget ·) = false := by
          rw [split, List.getLast?_concat] at whole
          rw [Option.any_eq_false]
          intro following listed
          simpa using whole next rfl following listed
        have after := stops.codeAfter?
        rw [beyond] at after
        rw [resolveBack_single found joins, resolve_single after alone] at here
        rw [split, src.rewriteBefore_append_single joins, List.reverse_append]
        refine .step here ?_
        rw [resolved_start]
        have run := ih earlier.length (by rw [← size, split]; simp) starts ?_ (by rw [preceding])
        · rwa [preceding, following, List.head?_cons] at run
        · rw [preceding, following]
          rintro first last second same
          obtain rfl : next = second := by simpa using same
          rw [Option.any_eq_false] at joins
          simpa using joins first last

theorem collectLogical_eq_match (src : Source) (offset : Nat) (found : Array Token) :
    src.collectLogical offset found = match src.logicalAfter? offset with
      | none => found
      | some tok => src.collectLogical tok.stop (found.push tok) := by
  rw [collectLogical]
  split <;> simp_all

theorem collectLogicalBack_eq_match (src : Source) (offset : Nat) (found : Array Token) :
    src.collectLogicalBack offset found = match src.logicalBefore? offset with
      | none => found
      | some tok => src.collectLogicalBack tok.start (found.push tok) := by
  rw [collectLogicalBack]
  split <;> simp_all

end Lookup

section Run

variable (src : Source)

theorem logical_forward :
    Repeats (fun offset found => src.logicalAfter? offset = found) (·.stop) 0
      (src.rewriteBefore none (code src.tokens.toList)) :=
  src.tokens_tiling.cut_zero.logical_forward

theorem logical_backward :
    Repeats (fun offset found => src.logicalBefore? offset = found) (·.start) src.size
      (src.rewriteBefore none (code src.tokens.toList)).reverse :=
  src.tokens_tiling.cut_size.logical_backward (by simp)

theorem toList_logicalTokens :
    src.logicalTokens.toList = src.rewriteBefore none (code src.tokens.toList) := by
  rw [logicalTokens, src.logical_forward.collected src.collectLogical_eq_match]
  simp

theorem logicalTokensBackward_eq : src.logicalTokensBackward = src.logicalTokens.reverse := by
  rw [logicalTokensBackward, src.logical_backward.collected src.collectLogicalBack_eq_match,
    ← toList_logicalTokens]
  apply Array.ext'
  simp

/-- Wherever a boundary of the text is asked about, the question needs no check and no move. -/
theorem logicalToken?_boundary {offset : Nat}
    (good : src.text.isBoundary offset = true ∧ offset ≤ src.size) :
    src.logicalToken? offset .forward = src.logicalAfter? offset ∧
      src.logicalToken? offset .backward = src.logicalBefore? offset := by
  rw [logicalToken?, logicalToken?, if_neg (by omega), if_neg (by omega),
    Text.floor_eq_self good.1]
  exact ⟨rfl, rfl⟩

theorem rewriteBefore_boundary (joined : src.text.Joined) :
    ∀ tok ∈ src.rewriteBefore none (code src.tokens.toList),
      (src.text.isBoundary tok.start = true ∧ tok.start ≤ src.size) ∧
      src.text.isBoundary tok.stop = true ∧ tok.stop ≤ src.size := by
  intro tok listed
  have tiling := src.tokens_tiling
  obtain ⟨⟨first, opens, start⟩, last, closes, stop⟩ := src.rewriteBefore_bounds listed
  have opens := mem_of_mem_code opens
  have closes := mem_of_mem_code closes
  have nonempty := tiling.nonempty first opens
  have within := tiling.within first opens
  rw [start, stop]
  exact ⟨⟨(tokens_boundary joined first opens).1, by omega⟩,
    (tokens_boundary joined last closes).2, tiling.within last closes⟩

end Run

/-- Asking for the logical token again and again, forward from the start of the text or backward
from its end, gives the list that one pass over the code tokens gives. -/
theorem logicalTokens_eq_rewrite (settings : LexicalSettings) (s : String) :
    let src := Source.ofText settings (Text.ofString s)
    let rewritten := src.rewriteBefore none (code src.tokens.toList)
    src.logicalTokens.toList = rewritten ∧
    src.logicalTokensBackward.toList.reverse = rewritten ∧
    Repeats (fun offset found => src.logicalToken? offset .forward = found) (·.stop) 0
      rewritten ∧
    Repeats (fun offset found => src.logicalToken? offset .backward = found) (·.start) src.size
      rewritten.reverse := by
  intro src rewritten
  have joined : src.text.Joined := Text.joined_ofString s
  have boundary := src.rewriteBefore_boundary joined
  refine ⟨src.toList_logicalTokens, ?_, ?_, ?_⟩
  · rw [logicalTokensBackward_eq, Array.toList_reverse, List.reverse_reverse]
    exact src.toList_logicalTokens
  · refine src.logical_forward.congr
      (fun offset => src.text.isBoundary offset = true ∧ offset ≤ src.size) ?_ ?_ ?_
    · intro offset found good here
      rw [(src.logicalToken?_boundary good).1, here]
    · exact ⟨isBoundary_zero _, Nat.zero_le _⟩
    · exact fun tok listed => (boundary tok listed).2
  · refine src.logical_backward.congr
      (fun offset => src.text.isBoundary offset = true ∧ offset ≤ src.size) ?_ ?_ ?_
    · intro offset found good here
      rw [(src.logicalToken?_boundary good).2, here]
    · exact ⟨isBoundary_size _, Nat.le_refl _⟩
    · exact fun tok listed => (boundary tok (List.mem_reverse.mp listed)).1

end Source
end SasLayout
