import SasLayout.Token.Lookup

set_option autoImplicit false

/-!
Logical tokens: the tokens without comments, each resolved by the code token after it. `data` and an
equals sign become one token; `output` before a semicolon is an operand; `select` opens a group only
before a semicolon or a bracket and is an operand elsewhere.
-/
namespace SasLayout.Source

/-- The first token at or after `offset` that is not a comment. -/
def codeAfter? (src : Source) (offset : Nat) : Option Token :=
  match after : src.tokenAfter? offset with
  | none => none
  | some tok =>
    have := tokenAfter?_bounds after
    if tok.isComment then src.codeAfter? tok.stop else some tok
termination_by src.size - offset

/-- The last token at or before `offset` that is not a comment. -/
def codeBefore? (src : Source) (offset : Nat) : Option Token :=
  match before : src.tokenBefore? offset with
  | none => none
  | some tok =>
    have := tokenBefore?_start_lt before
    if tok.isComment then src.codeBefore? tok.start else some tok
termination_by offset

/-- The token that `data` and the equals sign after it make together. -/
def assignmentTarget (src : Source) (data equals : Token) : Token :=
  ⟨src.text.slice data.start equals.stop, .assignmentTarget, data.start, equals.stop⟩

def asIdentifier (tok : Token) : Token :=
  { tok with kind := .identifier }

/-- The logical token that begins with `tok`. -/
def resolve (src : Source) (tok : Token) : Token :=
  match tok.keyword? with
  | some .data =>
    match src.codeAfter? tok.stop with
    | some next => if next.isEquals then src.assignmentTarget tok next else tok
    | none => tok
  | some .output =>
    if (src.codeAfter? tok.stop).any (·.kind = .statementEnd) then asIdentifier tok else tok
  | some .select =>
    if (src.codeAfter? tok.stop).any fun next =>
      next.kind = .statementEnd || next.kind = .openParen then tok
    else asIdentifier tok
  | _ => tok

/-- The logical token at or after `offset`. -/
def logicalAfter? (src : Source) (offset : Nat) : Option Token :=
  (src.codeAfter? offset).map src.resolve

/-- The logical token that ends with `tok`, or begins with it when it ends later. -/
def resolveBack (src : Source) (tok : Token) : Token :=
  if tok.isEquals then
    match src.codeBefore? tok.start with
    | some previous =>
      if previous.isKeyword .data then src.assignmentTarget previous tok else src.resolve tok
    | none => src.resolve tok
  else src.resolve tok

/-- The logical token at or before `offset`. -/
def logicalBefore? (src : Source) (offset : Nat) : Option Token :=
  (src.codeBefore? offset).map src.resolveBack

/-- The logical token next to an offset; there is none past the end of the text. -/
def logicalToken? (src : Source) (offset : Nat) : Direction → Option Token
  | .forward => if src.size < offset then none else src.logicalAfter? (src.text.floor offset)
  | .backward => if src.size < offset then none else src.logicalBefore? (src.text.floor offset)

/-- The logical token that starts at `offset`. -/
def logicalAt? (src : Source) (offset : Nat) : Option Token :=
  (src.logicalToken? offset .forward).filter (·.start = offset)

theorem codeAfter?_bounds {src : Source} {offset : Nat} {tok : Token}
    (found : src.codeAfter? offset = some tok) : offset < src.size ∧ offset < tok.stop := by
  fun_induction codeAfter? src offset with
  | case1 => simp at found
  | case2 offset next after bounds _ ih => exact ⟨bounds.1, by have := ih found; omega⟩
  | case3 offset next after bounds _ =>
    cases found
    exact bounds

theorem codeBefore?_start_lt {src : Source} {offset : Nat} {tok : Token}
    (found : src.codeBefore? offset = some tok) : tok.start < offset := by
  fun_induction codeBefore? src offset with
  | case1 => simp at found
  | case2 offset next before bound _ ih => exact Nat.lt_trans (ih found) bound
  | case3 offset next before bound _ =>
    cases found
    exact bound

theorem resolve_start (src : Source) (tok : Token) : (src.resolve tok).start = tok.start := by
  unfold resolve
  repeat' split
  all_goals rfl

theorem stop_le_resolve (src : Source) (tok : Token) : tok.stop ≤ (src.resolve tok).stop := by
  unfold resolve
  repeat' split
  all_goals try exact Nat.le_refl _
  rename_i next followed _
  exact Nat.le_of_lt (codeAfter?_bounds followed).2

theorem logicalAfter?_bounds {src : Source} {offset : Nat} {tok : Token}
    (found : src.logicalAfter? offset = some tok) : offset < src.size ∧ offset < tok.stop := by
  obtain ⟨first, code, rfl⟩ := Option.map_eq_some_iff.mp found
  have bounds := codeAfter?_bounds code
  exact ⟨bounds.1, Nat.lt_of_lt_of_le bounds.2 (src.stop_le_resolve first)⟩

theorem resolveBack_start_le (src : Source) (tok : Token) :
    (src.resolveBack tok).start ≤ tok.start := by
  unfold resolveBack
  split
  · split
    · rename_i previous code
      have earlier := codeBefore?_start_lt code
      split
      · exact Nat.le_of_lt earlier
      · exact Nat.le_of_eq (src.resolve_start tok)
    · exact Nat.le_of_eq (src.resolve_start tok)
  · exact Nat.le_of_eq (src.resolve_start tok)

theorem logicalBefore?_start_lt {src : Source} {offset : Nat} {tok : Token}
    (found : src.logicalBefore? offset = some tok) : tok.start < offset := by
  obtain ⟨last, code, rfl⟩ := Option.map_eq_some_iff.mp found
  exact Nat.lt_of_le_of_lt (src.resolveBack_start_le last) (codeBefore?_start_lt code)

/-- The logical tokens at and after `offset`, added to those in `found`. -/
def collectLogical (src : Source) (offset : Nat) (found : Array Token) : Array Token :=
  match after : src.logicalAfter? offset with
  | none => found
  | some tok =>
    have := logicalAfter?_bounds after
    src.collectLogical tok.stop (found.push tok)
termination_by src.size - offset

/-- All logical tokens in order. -/
def logicalTokens (src : Source) : Array Token :=
  src.collectLogical 0 #[]

/-- The logical tokens before `offset`, the last one first, added to those in `found`. -/
def collectLogicalBack (src : Source) (offset : Nat) (found : Array Token) : Array Token :=
  match before : src.logicalBefore? offset with
  | none => found
  | some tok =>
    have := logicalBefore?_start_lt before
    src.collectLogicalBack tok.start (found.push tok)
termination_by offset

/-- All logical tokens, each found from the start of the one after it. -/
def logicalTokensBackward (src : Source) : Array Token :=
  src.collectLogicalBack src.size #[]

end SasLayout.Source
