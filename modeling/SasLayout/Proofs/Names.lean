import SasLayout.Proofs.LogicalTokens

set_option autoImplicit false

/-!
The names of tokens in the indentation grammar. A word has a name when it is reserved or spells an
operator, a sign is its own name, and the separators are single bytes.
-/
namespace SasLayout

theorem Text.toString_ofString (s : String) : (ofString s).toString = s := by
  have valid : s.toUTF8.IsValidUTF8 := s.isValidUTF8
  rw [toString, ofString, String.fromUTF8?, dif_pos valid]
  rfl

namespace Token

/-- The words that the grammar knows. -/
def isNamed (spelled : String) : Bool :=
  (Keyword.ofSpelling? spelled).isSome || Operator.isWord spelled

theorem grammarName_word {tok : Token} (kind : tok.kind = .ofWord tok.lexeme) :
    tok.grammarName =
      if isNamed tok.lexeme.lower.toString then tok.lexeme.lower.toString else "" := by
  rw [grammarName, kind, Kind.ofWord, isNamed]
  cases Keyword.ofSpelling? tok.lexeme.lower.toString with
  | some k => cases opens : k.opensBlock <;> cases closes : k.closesBlock <;> simp [opens, closes]
  | none => cases Operator.isWord tok.lexeme.lower.toString <;> simp

theorem resolved_cases (tok : Token) (next : Option Token) :
    tok.resolved next = tok ∨ (tok.resolved next).grammarName = "" := by
  unfold resolved
  repeat' split
  all_goals first | exact Or.inl rfl | exact Or.inr rfl

end Token

namespace Operator

theorem signs_lower :
    ∀ sign ∈ signs, (Text.ofString sign).lower = Text.ofString sign := by
  decide +kernel

end Operator

namespace Text

variable {t : Text} {i : Nat}

theorem slice_startsWith {word : List UInt8} (stands : t.startsWith i word = true) :
    (t.slice i (i + word.length)).toList = word := by
  apply List.ext_getElem?
  intro k
  rcases Nat.lt_or_ge k word.length with inside | outside
  · rw [getElem?_slice (by omega), startsWith_getElem stands (List.getElem?_eq_getElem inside),
      List.getElem?_eq_getElem inside]
  · rw [List.getElem?_eq_none outside, toList_slice, List.getElem?_drop,
      List.getElem?_take_eq_none (by omega)]

/-- The name of a token at `i` that is written as a sign. -/
theorem lexeme_sign {sign : List UInt8} (listed : sign ∈ Operator.signBytes)
    (stands : t.startsWith i sign = true) :
    ∃ s ∈ Operator.signs, (t.slice i (i + sign.length)).lower.toString = s := by
  obtain ⟨s, known, rfl⟩ := List.mem_map.mp listed
  refine ⟨s, known, ?_⟩
  rw [ext_toList (slice_startsWith stands), Operator.signs_lower s known, toString_ofString]

/-- Where a token is a separator or an opening bracket, it is a single byte. -/
theorem tokenAt_lone (name : (t.tokenAt i).grammarName ∈ [";", ",", "("]) :
    (t.tokenAt i).stop = i + 1 ∧ Lone t i (t.tokenAt i).kind := by
  have apart : ∀ name ∈ [";", ",", "("], name ≠ "" ∧ Token.isNamed name = false ∧
      name ∉ Operator.signs := by decide
  obtain ⟨named, noWord, noSign⟩ := apart _ name
  have lexeme : (t.tokenAt i).lexeme = t.slice i (t.shapeAt i).2 := rfl
  have shape := t.shape_shapeAt i
  rw [Source.tokenAt_stop]
  generalize met : t.shapeAt i = pair at shape lexeme ⊢
  have kind : (t.tokenAt i).kind = pair.1 := by rw [Source.tokenAt_kind, met]
  have word : ∀ stop, pair ≠ (.ofWord (t.slice i stop), stop) := by
    rintro stop rfl
    rw [Token.grammarName_word (by rw [kind, lexeme])] at noWord named
    split at named
    · rename_i known
      rw [if_pos known, known] at noWord
      cases noWord
    · exact absurd rfl named
  cases shape with
  | number => simp [Token.grammarName, kind] at named
  | word => exact absurd rfl (word _)
  | macroWord => exact absurd rfl (word _)
  | macroVariable => simp [Token.grammarName, kind] at named
  | operator listed stands =>
    obtain ⟨s, known, spelled⟩ := lexeme_sign listed stands
    rw [Token.grammarName, kind, lexeme] at noSign
    exact absurd (spelled ▸ known) noSign
  | lone other alone => exact ⟨rfl, kind ▸ alone⟩

end Text

namespace Source

variable (src : Source) (tok : Token)

theorem resolve_cases : src.resolve tok = tok ∨ (src.resolve tok).kind = .assignmentTarget ∨
    (src.resolve tok).kind = .identifier := by
  unfold resolve
  repeat' split
  all_goals first | exact Or.inl rfl | exact Or.inr (Or.inl rfl) | exact Or.inr (Or.inr rfl)

theorem resolveBack_cases : src.resolveBack tok = tok ∨
    (src.resolveBack tok).kind = .assignmentTarget ∨ (src.resolveBack tok).kind = .identifier := by
  unfold resolveBack
  repeat' split
  all_goals first | exact src.resolve_cases tok | exact Or.inr (Or.inl rfl)

/-- A logical token with a name of its own is the code token itself. -/
theorem resolveBack_named {src : Source} {tok : Token}
    (named : (src.resolveBack tok).grammarName ≠ "")
    (other : (src.resolveBack tok).grammarName ≠ "dataequal") : src.resolveBack tok = tok := by
  rcases src.resolveBack_cases tok with same | target | operand
  · exact same
  · exact absurd (by rw [Token.grammarName, target]) other
  · exact absurd (by rw [Token.grammarName, operand]) named

theorem tokenAt_of_lone {src : Source} {tok : Token} (listed : tok ∈ src.tokens.toList)
    (name : tok.grammarName ∈ [";", ",", "("]) : tok = src.text.tokenAt tok.start := by
  have code : tok.kind.isSpan = false := by
    rw [Token.grammarName] at name
    cases kind : tok.kind <;> simp_all [Token.Kind.isSpan]
  exact (src.tokens_tiling.lexed tok listed code).1

theorem lone_stop {src : Source} {tok : Token} (listed : tok ∈ src.tokens.toList)
    (name : tok.grammarName ∈ [";", ",", "("]) : tok.stop = tok.start + 1 := by
  have lexed := tokenAt_of_lone listed name
  rw [lexed] at name
  have stop := (Text.tokenAt_lone name).1
  rwa [← lexed] at stop

theorem semicolon_kind {src : Source} {tok : Token} (listed : tok ∈ src.tokens.toList)
    (name : tok.grammarName = ";") : tok.kind = .statementEnd := by
  have lexed := tokenAt_of_lone listed (by simp [name])
  have alone := (Text.tokenAt_lone (t := src.text) (i := tok.start) (by simp [← lexed, name])).2
  rw [← lexed] at alone
  generalize same : tok.kind = kind at alone
  cases alone with
  | statementEnd => rfl
  | openParen => simp [Token.grammarName, same] at name
  | closeParen => simp [Token.grammarName, same] at name
  | punctuation =>
    rw [Token.grammarName, same] at name
    dsimp only at name
    split at name <;> simp at name

end Source
end SasLayout
