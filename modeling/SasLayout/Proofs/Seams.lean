import SasLayout.Proofs.Names
import SasLayout.Proofs.Relaid
import SasLayout.Proofs.Statements

set_option autoImplicit false

/-!
Looking tokens up in two texts that differ in their indentation. A seam is a place between the same
two tokens in both; from a seam the logical token on either side is the same, and so is everything
that a walk over them meets.
-/
namespace SasLayout

namespace Source

open Token

section Lists

variable {α β : Type} {R : α → β → Prop} {p : α → Bool} {q : β → Bool}

theorem forall₂_append {front back : List α} {whole : List β}
    (pairs : List.Forall₂ R (front ++ back) whole) :
    ∃ front' back', whole = front' ++ back' ∧ List.Forall₂ R front front' ∧
      List.Forall₂ R back back' := by
  induction front generalizing whole with
  | nil => exact ⟨[], whole, rfl, .nil, pairs⟩
  | cons a front ih =>
    obtain ⟨b, rest, here, later, rfl⟩ := List.forall₂_cons_left_iff.mp pairs
    obtain ⟨front', back', rfl, first, second⟩ := ih later
    exact ⟨b :: front', back', rfl, .cons here first, second⟩

theorem forall₂_mem {left : List α} {right : List β} (pairs : List.Forall₂ R left right) {b : β}
    (listed : b ∈ right) : ∃ a ∈ left, R a b := by
  induction pairs with
  | nil => cases listed
  | cons here rest ih =>
    rcases List.mem_cons.mp listed with rfl | later
    · exact ⟨_, List.mem_cons_self, here⟩
    · obtain ⟨a, member, pair⟩ := ih later
      exact ⟨a, List.mem_cons_of_mem _ member, pair⟩

theorem forall₂_span {left : List α} {right : List β} (pairs : List.Forall₂ R left right)
    (same : ∀ a b, R a b → p a = q b) :
    List.Forall₂ R (left.takeWhile p) (right.takeWhile q) ∧
      List.Forall₂ R (left.dropWhile p) (right.dropWhile q) := by
  induction pairs with
  | nil => exact ⟨.nil, .nil⟩
  | @cons a b left right here rest ih =>
    have equal := same a b here
    cases holds : p a with
    | true =>
      rw [holds] at equal
      rw [List.takeWhile_cons_of_pos holds, List.takeWhile_cons_of_pos equal.symm,
        List.dropWhile_cons_of_pos holds, List.dropWhile_cons_of_pos equal.symm]
      exact ⟨.cons here ih.1, ih.2⟩
    | false =>
      rw [holds] at equal
      rw [List.takeWhile_cons_of_neg (by simp [holds]), List.takeWhile_cons_of_neg (by simp [← equal]),
        List.dropWhile_cons_of_neg (by simp [holds]), List.dropWhile_cons_of_neg (by simp [← equal])]
      exact ⟨.nil, .cons here rest⟩

end Lists

/-- An offset that lies within no token cuts the list of tokens. -/
theorem Tiling.cut_at {src : Source} {tokens : List Token} (tiling : src.Tiling tokens)
    {offset : Nat} (outside : ∀ tok ∈ tokens, tok.start < offset → tok.stop ≤ offset) :
    src.Cut (tokens.takeWhile (·.start < offset)) (tokens.dropWhile (·.start < offset)) offset where
  tiling := by rwa [List.takeWhile_append_dropWhile]
  before tok listed := outside tok (List.takeWhile_subset _ listed)
    (by simpa using List.mem_takeWhile_imp listed)
  after tok listed := by
    have apart := tiling.apart
    rw [← List.takeWhile_append_dropWhile (p := fun tok => tok.start < offset) (l := tokens)] at apart
    have later := (List.pairwise_append.mp apart).2.1
    cases split : tokens.dropWhile (·.start < offset) with
    | nil =>
      rw [split] at listed
      cases listed
    | cons first rest =>
      have beyond : ¬ first.start < offset := by
        have fails := List.head_dropWhile_not (fun tok : Token => decide (tok.start < offset))
          (l := tokens) (by simp [split])
        simpa [split] using fails
      rw [split] at listed later
      rcases List.mem_cons.mp listed with rfl | member
      · omega
      · have := (List.pairwise_cons.mp later).1 tok member
        have := tiling.nonempty first ((List.dropWhile_sublist _).subset (by rw [split]; simp))
        omega

abbrev Twin (src other : Source) : Token → Token → Prop :=
  Twins (Abreast src other) src other

/-- A place between the same two tokens of two texts. -/
structure Seam (src other : Source) (i j : Nat) : Prop where
  left : src.text.isBoundary i = true ∧ i ≤ src.size
  right : other.text.isBoundary j = true ∧ j ≤ other.size
  lists : ∃ front back front' back',
    (front ++ back = src.tokens.toList ∧ src.Cut front back i) ∧
    (front' ++ back' = other.tokens.toList ∧ other.Cut front' back' j) ∧
    List.Forall₂ (Twin src other) front front' ∧ List.Forall₂ (Twin src other) back back'

/-- A seam behind the indentation, at the same distance from it in both texts. -/
structure Spot (src other : Source) (i j : Nat) : Prop where
  abreast : Abreast src other i j
  shown : src.text.firstNonBlank i ≤ i
  seam : Seam src other i j

/-- The same code token of both texts. -/
structure Paired (src other : Source) (a b : Token) : Prop where
  twin : Twin src other a b
  code : a.isComment = false
  lexed : a ∈ src.tokens.toList ∧ b ∈ other.tokens.toList
  before : Spot src other a.start b.start
  after : Seam src other a.stop b.stop

/-- The same logical token of both texts. -/
structure Logical (src other : Source) (a b : Token) : Prop where
  name : a.grammarName = b.grammarName
  before : Spot src other a.start b.start
  after : Seam src other a.stop b.stop
  lone : a.grammarName ∈ [";", ",", "("] → Seam src other (a.start + 1) (b.start + 1)

/-- Two texts of whole characters with the same tokens. -/
structure Facing (src other : Source) : Prop where
  twins : List.Forall₂ (Twin src other) src.tokens.toList other.tokens.toList
  left : src.text.Joined
  right : other.text.Joined
  ends : Abreast src other src.size other.size

variable {src other : Source} {i j : Nat}

namespace Paired

variable {a b : Token} (paired : Paired src other a b)

include paired

theorem kind : a.kind = b.kind :=
  paired.twin.alike.kind

theorem lexeme : a.lexeme = b.lexeme := by
  apply paired.twin.alike.exact
  rw [isStatementComment, paired.code, Bool.false_and]

theorem keyword? : a.keyword? = b.keyword? := by
  rw [Token.keyword?, Token.keyword?, paired.kind, paired.lexeme]

theorem isKeyword (k : Keyword) : a.isKeyword k = b.isKeyword k := by
  rw [Token.isKeyword, Token.isKeyword, paired.keyword?]

theorem isEquals : a.isEquals = b.isEquals := by
  rw [Token.isEquals, Token.isEquals, paired.kind, paired.lexeme]

theorem grammarName : a.grammarName = b.grammarName := by
  rw [Token.grammarName, Token.grammarName, paired.kind, paired.lexeme]

theorem isTarget {c d : Token} (next : Paired src other c d) : a.isTarget c = b.isTarget d := by
  rw [Token.isTarget, Token.isTarget, paired.isKeyword, next.isEquals]

end Paired

/-- A comment or a literal that began before the line of `i` goes on at its first visible
character. -/
def startsInside (src : Source) (i : Nat) : Bool :=
  (src.map.spanAt? (src.text.firstNonBlank i)).any (·.start < src.text.lineStart i)

/-- The same of a token. -/
def Surrounds (src : Source) (tok : Token) (i : Nat) : Prop :=
  tok.kind.isSpan = true ∧ tok.start < src.text.lineStart i ∧ src.text.firstNonBlank i < tok.stop

theorem startsInside_eq_true_iff :
    src.startsInside i = true ↔ ∃ tok ∈ src.tokens.toList, src.Surrounds tok i := by
  have tiling := src.tokens_tiling
  have ordered := src.text.lineStart_le_firstNonBlank i
  rw [startsInside, Option.any_eq_true]
  constructor
  · rintro ⟨s, found, early⟩
    obtain ⟨listed, -, upper⟩ := spanAt?_eq_some_iff.mp found
    exact ⟨src.spanToken s, tiling.span_mem listed, src.spanToken_isSpan s, by simpa using early,
      upper⟩
  · rintro ⟨tok, listed, covered, early, upper⟩
    obtain ⟨s, member, rfl⟩ := tiling.exists_span listed covered
    rw [spanToken_start] at early
    rw [spanToken_stop] at upper
    exact ⟨s, spanAt?_eq_some_iff.mpr ⟨member, by omega, upper⟩, by simpa using early⟩

theorem startsInside_opensInside (inside : src.startsInside i = true) : src.OpensInside i := by
  rw [startsInside, Option.any_eq_true] at inside
  obtain ⟨s, found, early⟩ := inside
  obtain ⟨listed, -, upper⟩ := spanAt?_eq_some_iff.mp found
  exact ⟨s, listed, by simpa using early, Or.inl upper⟩

/-- Otherwise no token goes on from an earlier line. -/
theorem stop_le_first (outside : src.startsInside i = false) {tok : Token}
    (listed : tok ∈ src.tokens.toList) (early : tok.start < src.text.firstNonBlank i) :
    tok.stop ≤ src.text.firstNonBlank i := by
  have tiling := src.tokens_tiling
  have ordered := src.text.lineStart_le_firstNonBlank i
  have visible := tiling.visible tok listed
  have before : tok.start < src.text.lineStart i := by
    apply Nat.lt_of_not_le
    intro within
    rw [Text.byteIs_mono (Text.firstNonBlank_indent within early) Byte.isBlank_of_isIndent] at visible
    cases visible
  apply Nat.le_of_not_lt
  intro beyond
  cases covered : tok.kind.isSpan with
  | true =>
    rw [startsInside_eq_true_iff.mpr ⟨tok, listed, covered, before, beyond⟩] at outside
    cases outside
  | false =>
    have newline := (src.text.lineStart_begins i).resolve_left (by omega)
    have dark := (tiling.lexed tok listed covered).2 (src.text.lineStart i - 1) (by omega) (by omega)
    rw [Text.byteIs_mono newline Byte.isBlank_of_isNewline] at dark
    cases dark

namespace Facing

variable (facing : Facing src other)

include facing

/-- Tokens at the same place of both lists. -/
theorem spot {tok tok' : Token} {front back front' back' : List Token}
    (whole : front ++ tok :: back = src.tokens.toList)
    (whole' : front' ++ tok' :: back' = other.tokens.toList)
    (fronts : List.Forall₂ (Twin src other) front front') (twin : Twin src other tok tok')
    (backs : List.Forall₂ (Twin src other) back back') :
    Spot src other tok.start tok'.start ∧ Seam src other tok.stop tok'.stop := by
  have listed : tok ∈ src.tokens.toList := by simp [← whole]
  have listed' : tok' ∈ other.tokens.toList := by simp [← whole']
  have tiling := src.tokens_tiling
  have tiling' := other.tokens_tiling
  have bound := tiling.within tok listed
  have bound' := tiling'.within tok' listed'
  have nonempty := tiling.nonempty tok listed
  have nonempty' := tiling'.nonempty tok' listed'
  have boundary := tokens_boundary facing.left tok listed
  have boundary' := tokens_boundary facing.right tok' listed'
  have visible := tiling.visible tok listed
  rw [← whole] at tiling
  rw [← whole'] at tiling'
  refine ⟨⟨twin.starts, ?_, ⟨boundary.1, by omega⟩, ⟨boundary'.1, by omega⟩, front, tok :: back,
    front', tok' :: back', ⟨whole, tiling.cut_start⟩, ⟨whole', tiling'.cut_start⟩, fronts,
    .cons twin backs⟩, ⟨boundary.2, bound⟩, ⟨boundary'.2, bound'⟩, front ++ [tok], back,
    front' ++ [tok'], back', ⟨by simpa using whole, tiling.cut_stop⟩,
    ⟨by simpa using whole', tiling'.cut_stop⟩,
    List.rel_append fronts (.cons twin .nil), backs⟩
  exact Text.firstNonBlank_le (Nat.lt_of_lt_of_le nonempty bound)
    (Text.byteIs_anti visible Byte.isBlank_of_isIndent)

/-- The ends of both texts. -/
theorem spot_size : Spot src other src.size other.size where
  abreast := facing.ends
  shown := src.text.firstNonBlank_le_size _
  seam := ⟨⟨isBoundary_size _, Nat.le_refl _⟩, ⟨isBoundary_size _, Nat.le_refl _⟩, _, [], _, [],
    ⟨List.append_nil _, src.tokens_tiling.cut_size⟩,
    ⟨List.append_nil _, other.tokens_tiling.cut_size⟩, facing.twins, .nil⟩

theorem paired {tok tok' : Token} {front back front' back' : List Token}
    (whole : front ++ tok :: back = src.tokens.toList)
    (whole' : front' ++ tok' :: back' = other.tokens.toList)
    (fronts : List.Forall₂ (Twin src other) front front') (twin : Twin src other tok tok')
    (backs : List.Forall₂ (Twin src other) back back') (code : tok.isComment = false) :
    Paired src other tok tok' := by
  obtain ⟨before, after⟩ := facing.spot whole whole' fronts twin backs
  exact ⟨twin, code, ⟨by simp [← whole], by simp [← whole']⟩, before, after⟩

omit facing in
theorem code_pairs {tokens tokens' : List Token}
    (pairs : List.Forall₂ (Twin src other) tokens tokens') :
    List.Forall₂ (Twin src other) (code tokens) (code tokens') := by
  refine List.rel_filter (fun a b twin => ?_) pairs
  simp [isComment, twin.alike.kind]

omit facing in
theorem tokenAfter? (seam : Seam src other i j) :
    Option.Rel (Twin src other) (src.tokenAfter? i) (other.tokenAfter? j) := by
  obtain ⟨front, back, front', back', ⟨-, cut⟩, ⟨-, cut'⟩, -, backs⟩ := seam.lists
  rw [cut.tokenAfter?, cut'.tokenAfter?]
  cases backs with
  | nil => exact .none
  | cons twin rest => exact .some twin

theorem codeAfter? (seam : Seam src other i j) :
    Option.Rel (Paired src other) (src.codeAfter? i) (other.codeAfter? j) := by
  obtain ⟨front, back, front', back', ⟨whole, cut⟩, ⟨whole', cut'⟩, fronts, backs⟩ := seam.lists
  rw [cut.codeAfter?, cut'.codeAfter?]
  have codes := code_pairs backs
  cases split : code back with
  | nil =>
    rw [split] at codes
    rw [List.forall₂_nil_left_iff.mp codes]
    exact .none
  | cons tok rest =>
    have member : tok ∈ code back := by simp [split]
    obtain ⟨skipped, later, rfl, bare, -⟩ := split_code split
    obtain ⟨skipped', more, rfl, first, second⟩ := forall₂_append backs
    obtain ⟨tok', later', twin, third, rfl⟩ := List.forall₂_cons_left_iff.mp second
    have comment : tok.isComment = false := by simpa using (List.mem_filter.mp member).2
    have comment' : tok'.isComment = false := by
      rwa [isComment, ← twin.alike.kind]
    have bare' : code skipped' = [] := by
      have none := code_pairs first
      rwa [bare, List.forall₂_nil_left_iff] at none
    rw [code_append, bare', List.nil_append, code_cons comment', List.head?_cons, List.head?_cons]
    exact .some (facing.paired (by simpa using whole) (by simpa using whole')
      (List.rel_append fronts first) twin third comment)

theorem codeBefore? (seam : Seam src other i j) :
    Option.Rel (Paired src other) (src.codeBefore? i) (other.codeBefore? j) := by
  obtain ⟨front, back, front', back', ⟨whole, cut⟩, ⟨whole', cut'⟩, fronts, backs⟩ := seam.lists
  rw [cut.codeBefore?, cut'.codeBefore?]
  have codes := code_pairs fronts
  cases split : code front using List.reverseRecOn with
  | nil =>
    rw [split] at codes
    rw [List.forall₂_nil_left_iff.mp codes]
    exact .none
  | append_singleton rest tok =>
    have member : tok ∈ code front := by simp [split]
    obtain ⟨earlier, skipped, rfl, -, bare⟩ := split_code_last split
    obtain ⟨earlier', more, rfl, first, second⟩ := forall₂_append fronts
    obtain ⟨tok', skipped', twin, third, rfl⟩ := List.forall₂_cons_left_iff.mp second
    have comment : tok.isComment = false := by simpa using (List.mem_filter.mp member).2
    have comment' : tok'.isComment = false := by
      rwa [isComment, ← twin.alike.kind]
    have bare' : code skipped' = [] := by
      have none := code_pairs third
      rwa [bare, List.forall₂_nil_left_iff] at none
    rw [code_append, code_cons comment', bare', List.getLast?_append, List.getLast?_append,
      List.getLast?_singleton, List.getLast?_singleton, Option.some_or, Option.some_or]
    exact .some (facing.paired (by simpa using whole) (by simpa using whole') first twin
      (List.rel_append third backs) comment)

omit facing in
theorem kinds {tokens tokens' : List Token}
    (pairs : List.Forall₂ (Twin src other) tokens tokens') :
    tokens.map (·.kind) = tokens'.map (·.kind) := by
  induction pairs with
  | nil => rfl
  | cons twin rest ih => rw [List.map_cons, List.map_cons, ih, twin.alike.kind]

omit facing in
/-- What a code token turns into by the token after it is the same in both texts. -/
theorem resolved {a b : Token} (paired : Paired src other a b) {next next' : Option Token}
    (following : Option.Rel (Paired src other) next next') :
    (a.resolved next).grammarName = (b.resolved next').grammarName := by
  have ends : next.any (·.kind = .statementEnd) = next'.any (·.kind = .statementEnd) := by
    cases following with
    | none => rfl
    | some after => rw [Option.any_some, Option.any_some, after.kind]
  have opens : next.any (fun next => next.kind = .statementEnd || next.kind = .openParen) =
      next'.any (fun next => next.kind = .statementEnd || next.kind = .openParen) := by
    cases following with
    | none => rfl
    | some after => rw [Option.any_some, Option.any_some, after.kind]
  rw [Token.resolved, Token.resolved, ends, opens, paired.isKeyword, paired.isKeyword]
  split
  · rfl
  · split
    · rfl
    · exact paired.grammarName

omit facing in
theorem resolved_lone {a b : Token} (paired : Paired src other a b) {next : Option Token}
    (name : (a.resolved next).grammarName ∈ [";", ",", "("]) :
    Seam src other (a.start + 1) (b.start + 1) := by
  rcases a.resolved_cases next with own | empty
  · rw [own] at name
    have left := lone_stop paired.lexed.1 name
    have right := lone_stop paired.lexed.2 (paired.grammarName ▸ name)
    exact left ▸ right ▸ paired.after
  · rw [empty] at name
    simp at name

theorem resolve {a b : Token} (paired : Paired src other a b) :
    Logical src other (src.resolve a) (other.resolve b) := by
  have following := facing.codeAfter? paired.after
  cases target : (src.codeAfter? a.stop).any (a.isTarget ·) with
  | true =>
    generalize found : src.codeAfter? a.stop = next at following target
    generalize found' : other.codeAfter? b.stop = next' at following
    cases following with
    | none => cases target
    | some after =>
      rw [Option.any_some] at target
      rw [resolve_target found target, resolve_target found' (paired.isTarget after ▸ target)]
      exact ⟨rfl, paired.before, after.after,
        fun name => by simp [grammarName, assignmentTarget] at name⟩
  | false =>
    have target' : (other.codeAfter? b.stop).any (b.isTarget ·) = false := by
      generalize src.codeAfter? a.stop = next at following target
      generalize other.codeAfter? b.stop = next' at following
      cases following with
      | none => rfl
      | some after => exact (paired.isTarget after).symm.trans target
    rw [resolve_single rfl target, resolve_single rfl target']
    refine ⟨resolved paired following, ?_, ?_, fun name => ?_⟩
    · rw [resolved_start, resolved_start]
      exact paired.before
    · rw [resolved_stop, resolved_stop]
      exact paired.after
    · rw [resolved_start, resolved_start]
      exact resolved_lone paired name

theorem resolveBack {a b : Token} (paired : Paired src other a b) :
    Logical src other (src.resolveBack a) (other.resolveBack b) := by
  have preceding := facing.codeBefore? paired.before.seam
  cases target : (src.codeBefore? a.start).any (·.isTarget a) with
  | true =>
    generalize found : src.codeBefore? a.start = last at preceding target
    generalize found' : other.codeBefore? b.start = last' at preceding
    cases preceding with
    | none => cases target
    | some before =>
      rw [Option.any_some] at target
      rw [resolveBack_target found target,
        resolveBack_target found' (before.isTarget paired ▸ target)]
      exact ⟨rfl, before.before, paired.after,
        fun name => by simp [grammarName, assignmentTarget] at name⟩
  | false =>
    have target' : (other.codeBefore? b.start).any (·.isTarget b) = false := by
      generalize src.codeBefore? a.start = last at preceding target
      generalize other.codeBefore? b.start = last' at preceding
      cases preceding with
      | none => rfl
      | some before => exact (before.isTarget paired).symm.trans target
    rw [resolveBack_single rfl target, resolveBack_single rfl target']
    exact facing.resolve paired

theorem logicalAfter? (seam : Seam src other i j) :
    Option.Rel (Logical src other) (src.logicalToken? i .forward)
      (other.logicalToken? j .forward) := by
  rw [(src.logicalToken?_boundary seam.left).1, (other.logicalToken?_boundary seam.right).1,
    Source.logicalAfter?, Source.logicalAfter?]
  have found := facing.codeAfter? seam
  generalize src.codeAfter? i = a at found
  generalize other.codeAfter? j = b at found
  cases found with
  | none => exact .none
  | some paired => exact .some (facing.resolve paired)

theorem logicalBefore? (seam : Seam src other i j) :
    Option.Rel (Logical src other) (src.logicalToken? i .backward)
      (other.logicalToken? j .backward) := by
  rw [(src.logicalToken?_boundary seam.left).2, (other.logicalToken?_boundary seam.right).2,
    Source.logicalBefore?, Source.logicalBefore?]
  have found := facing.codeBefore? seam
  generalize src.codeBefore? i = a at found
  generalize other.codeBefore? j = b at found
  cases found with
  | none => exact .none
  | some paired => exact .some (facing.resolveBack paired)

/-- The statement around a seam starts with the same token, or nothing follows in either text. -/
theorem statementStart (seam : Seam src other i j) :
    Spot src other (src.statementStart i) (other.statementStart j) := by
  obtain ⟨front, back, front', back', ⟨whole, cut⟩, ⟨whole', cut'⟩, fronts, backs⟩ := seam.lists
  obtain ⟨early, late, rfl, plain, ended⟩ := exists_statement front
  obtain ⟨early', late', rfl, first, second⟩ := forall₂_append fronts
  have plain' : ∀ tok ∈ late', tok.kind ≠ .statementEnd := by
    intro tok listed
    obtain ⟨twin, member, same⟩ := forall₂_mem second listed
    exact same.alike.kind ▸ plain twin member
  have ended' : ∀ tok ∈ early'.getLast?, tok.kind = .statementEnd := by
    intro tok last
    have kind : (early'.map (·.kind)).getLast? = some tok.kind := by
      rw [List.getLast?_map, last, Option.map_some]
    rw [← kinds first, List.getLast?_map] at kind
    obtain ⟨twin, member, same⟩ := Option.map_eq_some_iff.mp kind
    exact same ▸ ended twin member
  obtain ⟨start, bound⟩ := cut.afterTerminator whole plain ended
  obtain ⟨start', bound'⟩ := cut'.afterTerminator whole' plain' ended'
  rw [Source.statementStart, Source.statementStart, start.seek bound, start'.seek bound']
  have rest : List.Forall₂ (Twin src other) (late ++ back) (late' ++ back') :=
    List.rel_append second backs
  rw [List.append_assoc] at whole whole'
  cases split : late ++ back with
  | nil =>
    rw [split] at rest
    rw [List.forall₂_nil_left_iff.mp rest]
    exact facing.spot_size
  | cons tok later =>
    rw [split] at rest whole
    obtain ⟨tok', later', twin, third, split'⟩ := List.forall₂_cons_left_iff.mp rest
    rw [split'] at whole' ⊢
    exact (facing.spot whole whole' first twin third).1

/-- The first visible characters of two lines are a seam, unless they lie within a token. -/
theorem spot_first (left : i ≤ src.size) (right : j ≤ other.size)
    (line : src.text.lineIndex i = other.text.lineIndex j)
    (outside : ∀ tok ∈ src.tokens.toList, tok.start < src.text.firstNonBlank i →
      tok.stop ≤ src.text.firstNonBlank i) :
    Spot src other (src.text.firstNonBlank i) (other.text.firstNonBlank j) := by
  have meets := Abreast.first left right line
  obtain ⟨fronts, backs⟩ := forall₂_span facing.twins
    (p := fun tok => tok.start < src.text.firstNonBlank i)
    (q := fun tok => tok.start < other.text.firstNonBlank j)
    fun a b twin => decide_eq_decide.mpr (twin.starts.lt_iff meets)
  have outside' : ∀ tok ∈ other.tokens.toList, tok.start < other.text.firstNonBlank j →
      tok.stop ≤ other.text.firstNonBlank j := by
    intro tok listed before
    obtain ⟨twin, member, same⟩ := forall₂_mem facing.twins listed
    have early := outside twin member ((same.starts.lt_iff meets).mpr before)
    exact (same.stops.le_first_iff left right line).mp early
  refine ⟨meets, Nat.le_of_eq ?_, ⟨facing.left.firstNonBlank i, meets.left⟩,
    ⟨facing.right.firstNonBlank j, meets.right⟩, _, _, _, _,
    ⟨List.takeWhile_append_dropWhile, src.tokens_tiling.cut_at outside⟩,
    ⟨List.takeWhile_append_dropWhile, other.tokens_tiling.cut_at outside'⟩, fronts, backs⟩
  exact Text.firstNonBlank_congr (src.text.firstNonBlank_le_size i) left
    (Text.lineIndex_firstNonBlank left)

/-- The spans around the first visible character of a line that began before the line. -/
theorem startsInside_iff (left : i ≤ src.size) (right : j ≤ other.size)
    (line : src.text.lineIndex i = other.text.lineIndex j) :
    src.startsInside i = true ↔ other.startsInside j = true := by
  have each : ∀ a b, Twin src other a b → (src.Surrounds a i ↔ other.Surrounds b j) := by
    intro a b twin
    have starts : a.start < src.text.lineStart i ↔ b.start < other.text.lineStart j := by
      rw [Text.lt_lineStart_iff twin.starts.left left,
        Text.lt_lineStart_iff twin.starts.right right, twin.starts.line, line]
    have stops : src.text.firstNonBlank i < a.stop ↔ other.text.firstNonBlank j < b.stop := by
      rw [← Nat.not_le, ← Nat.not_le, twin.stops.le_first_iff left right line]
    rw [Surrounds, Surrounds, twin.alike.kind, starts, stops]
  rw [startsInside_eq_true_iff, startsInside_eq_true_iff]
  constructor
  · rintro ⟨a, listed, around⟩
    obtain ⟨b, member, twin⟩ := forall₂_mem facing.twins.flip listed
    exact ⟨b, member, (each a b twin).mp around⟩
  · rintro ⟨b, listed, around⟩
    obtain ⟨a, member, twin⟩ := forall₂_mem facing.twins listed
    exact ⟨a, member, (each a b twin).mpr around⟩

end Facing

end Source

namespace Indent

open Source

variable {src other : Source} {i j : Nat}

/-- The same end of a walk in both texts. -/
inductive StopPair (src other : Source) : Stop → Stop → Prop
  | skipped {p q : Nat} (spot : Spot src other p q) : StopPair src other (.skipped p) (.skipped q)
  | opener {p q : Nat} {token : String} (spot : Spot src other p q) :
    StopPair src other (.opener p token) (.opener q token)
  | parent {p q : Nat} {token : String} {level : Option Nat} (spot : Spot src other p q)
    (lone : token ∈ [";", ",", "("] → Seam src other (p + 1) (q + 1)) :
    StopPair src other (.parent p token level) (.parent q token level)
  | boundary : StopPair src other .boundary .boundary

theorem walkFrom_pair (facing : Facing src other) (g : Grammar String) (steps : Nat)
    (seam : Seam src other i j) (pending : List Nat) :
    Option.Rel (StopPair src other) (walkFrom g src steps i pending)
      (walkFrom g other steps j pending) := by
  induction steps generalizing i j pending with
  | zero => exact .none
  | succ steps ih =>
    have found := facing.logicalBefore? seam
    rw [walkFrom, walkFrom]
    generalize src.logicalToken? i .backward = a at found
    generalize other.logicalToken? j .backward = b at found
    cases found with
    | none => exact .some .boundary
    | @some a b logical =>
      have name := logical.name
      have lone := logical.lone
      simp only [← name]
      cases pass (g.levels? a.grammarName) pending with
      | go pending => exact ih logical.before.seam pending
      | skipped => exact .some (.skipped logical.before)
      | opener => exact .some (.opener logical.before)
      | parent => exact .some (.parent logical.before lone)

end Indent
end SasLayout
