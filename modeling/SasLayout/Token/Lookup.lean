import SasLayout.Source
import SasLayout.Token.Lexer

set_option autoImplicit false

/-!
The token next to an offset, in either direction, and the list of all tokens. No list is kept: each
question lexes the run of code without blanks in which its answer lies.
-/
namespace SasLayout

inductive Direction where
  | forward
  | backward
deriving DecidableEq, Repr

namespace Source

/-- The token of a comment or of a string literal. -/
def spanToken (src : Source) (s : Span) : Token :=
  let kind : Token.Kind := if s.isComment then .comment else .stringLiteral
  ⟨src.text.slice s.start s.stop, kind, s.start, s.stop⟩

/-- The start of the run of code without blanks that goes on up to `stop`. -/
def runStart (src : Source) : Nat → Nat
  | 0 => 0
  | i + 1 =>
    if src.text.byteIs i (!Byte.isBlank ·) && src.map.isCode i then src.runStart i else i + 1

/-- The first of the tokens that follow one another from `i` on to end after `offset`. -/
def tokenOver (src : Source) (offset i : Nat) : Token :=
  have := src.text.lt_tokenAt_stop i
  if (src.text.tokenAt i).stop ≤ offset then src.tokenOver offset (src.text.tokenAt i).stop
  else src.text.tokenAt i
termination_by offset - i

/-- The token at or after `offset`; inside a token, that token. -/
def tokenAfter? (src : Source) (offset : Nat) : Option Token :=
  if offset < src.size then
    match src.map.spanAt? offset with
    | some s => some (src.spanToken s)
    | none =>
      let start := src.text.seek (!Byte.isBlank ·) offset
      if start < src.size then
        match src.map.spanAt? start with
        | some s => some (src.spanToken s)
        | none => some (src.tokenOver start (src.runStart start))
      else none
  else none

/-- The last of the tokens that follow one another from `i` on and end by `limit`. -/
def lastTokenBy (src : Source) (limit i : Nat) (last : Option Token) : Option Token :=
  if i < limit then
    have := src.text.lt_tokenAt_stop i
    if limit < (src.text.tokenAt i).stop then last
    else src.lastTokenBy limit (src.text.tokenAt i).stop (some (src.text.tokenAt i))
  else last
termination_by limit - i

theorem runStart_le (src : Source) (i : Nat) : src.runStart i ≤ i := by
  fun_induction runStart src i <;> omega

/-- The last token that ends by `limit`, unless a span covers the byte before it. -/
def tokenUpTo? (src : Source) (limit : Nat) : Option Token :=
  match last : src.text.seekBack (!Byte.isBlank ·) limit with
  | 0 => none
  | k + 1 =>
    have : k < limit := Nat.le_trans (Nat.le_of_eq last.symm) (src.text.seekBack_le _ limit)
    match src.map.spanAt? k with
    | some s => some (src.spanToken s)
    | none =>
      match src.lastTokenBy (k + 1) (src.runStart k) none with
      | some tok => some tok
      | none =>
        have := src.runStart_le k
        src.tokenUpTo? (src.runStart k)
termination_by limit

/-- The token at or before `offset`: the span around the byte before it, or the last token that
ends by then. -/
def tokenBefore? (src : Source) (offset : Nat) : Option Token :=
  match offset with
  | 0 => none
  | k + 1 =>
    match src.map.spanAt? k with
    | some s => some (src.spanToken s)
    | none => src.tokenUpTo? (k + 1)

/-- The token next to an offset of the text, which is first moved to a character boundary. -/
def classify (src : Source) (offset : Nat) : Direction → Except OutOfRange (Option Token)
  | .forward => return src.tokenAfter? (← src.checkOffset offset)
  | .backward => return src.tokenBefore? (← src.checkOffset offset)

theorem lt_tokenOver_stop (src : Source) (offset i : Nat) :
    offset < (src.tokenOver offset i).stop := by
  fun_induction tokenOver src offset i with
  | case1 i _ _ ih => exact ih
  | case2 i _ beyond => exact Nat.lt_of_not_le beyond

theorem tokenAfter?_bounds {src : Source} {offset : Nat} {tok : Token}
    (found : src.tokenAfter? offset = some tok) : offset < src.size ∧ offset < tok.stop := by
  unfold tokenAfter? at found
  split at found
  · rename_i inside
    refine ⟨inside, ?_⟩
    split at found
    · rename_i covered
      cases found
      exact SpanMap.spanAt?_lt covered
    · simp only at found
      have skipped := src.text.le_seek (!Byte.isBlank ·) offset (Nat.le_of_lt inside)
      split at found
      · split at found
        · rename_i covered
          cases found
          exact Nat.lt_of_le_of_lt skipped (SpanMap.spanAt?_lt covered)
        · cases found
          exact Nat.lt_of_le_of_lt skipped (src.lt_tokenOver_stop _ _)
      · simp at found
  · simp at found

theorem lastTokenBy_start_lt {src : Source} {limit i : Nat} {last : Option Token} {tok : Token}
    (before : ∀ t ∈ last, t.start < limit) (found : src.lastTokenBy limit i last = some tok) :
    tok.start < limit := by
  fun_induction lastTokenBy src limit i last with
  | case1 i last _ _ _ => exact before tok found
  | case2 i last inside _ _ ih =>
    apply ih _ found
    intro t same
    cases same
    exact inside
  | case3 i last _ => exact before tok found

theorem tokenUpTo?_start_lt {src : Source} {limit : Nat} {tok : Token}
    (found : src.tokenUpTo? limit = some tok) : tok.start < limit := by
  fun_induction tokenUpTo? src limit with
  | case1 => simp at found
  | case2 limit k _ inside s covered =>
    cases found
    exact Nat.lt_of_le_of_lt (SpanMap.spanAt?_start_le covered) inside
  | case3 limit k _ inside _ last lexed =>
    cases found
    exact Nat.lt_of_lt_of_le (lastTokenBy_start_lt (by simp) lexed) inside
  | case4 limit k _ inside _ _ bound ih => exact Nat.lt_trans (ih found) (by omega)

theorem tokenBefore?_start_lt {src : Source} {offset : Nat} {tok : Token}
    (found : src.tokenBefore? offset = some tok) : tok.start < offset := by
  unfold tokenBefore? at found
  split at found
  · simp at found
  · split at found
    · rename_i covered
      cases found
      exact Nat.lt_succ_of_le (SpanMap.spanAt?_start_le covered)
    · exact tokenUpTo?_start_lt found

/-- The tokens at and after `offset`, added to those in `found`. -/
def collectTokens (src : Source) (offset : Nat) (found : Array Token) : Array Token :=
  match after : src.tokenAfter? offset with
  | none => found
  | some tok =>
    have := tokenAfter?_bounds after
    src.collectTokens tok.stop (found.push tok)
termination_by src.size - offset

/-- All tokens of the text in order, comments included. -/
def tokens (src : Source) : Array Token :=
  src.collectTokens 0 #[]

def tokensFrom (src : Source) (offset : Nat) : Except OutOfRange (Array Token) :=
  return src.collectTokens (← src.checkOffset offset) #[]

/-- The tokens before `offset`, the last one first, added to those in `found`. -/
def collectTokensBack (src : Source) (offset : Nat) (found : Array Token) : Array Token :=
  match before : src.tokenBefore? offset with
  | none => found
  | some tok =>
    have := tokenBefore?_start_lt before
    src.collectTokensBack tok.start (found.push tok)
termination_by offset

/-- All tokens, each found from the start of the one after it. -/
def tokensBackward (src : Source) : Array Token :=
  src.collectTokensBack src.size #[]

end Source
end SasLayout
