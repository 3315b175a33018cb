import SasLayout.Proofs.Placement
import SasLayout.Proofs.Seams

set_option autoImplicit false

/-!
Indentation does not depend on the present layout. Two texts with the same lines but for their
indentation are indented in step: each question about tokens has the same answer in both, and the
columns computed so far are the same line by line. Only a tab behind the first visible character of
a line breaks this, because its width depends on the column where the line starts.
-/
namespace SasLayout

namespace Text

variable {t : Text} {i : Nat}

/-- Without tabs every character takes one column. -/
theorem foldl_advance {bytes : List UInt8} (plain : Byte.tab ∉ bytes) (column : Nat) :
    bytes.foldl advance column = column + bytes.countP (!Byte.isContinuation ·) := by
  induction bytes generalizing column with
  | nil => rfl
  | cons b rest ih =>
    rw [List.mem_cons, not_or] at plain
    obtain ⟨other, later⟩ := plain
    have noTab : Byte.isTab b = false := beq_eq_false_iff_ne.mpr (Ne.symm other)
    rw [List.foldl_cons, ih later, advance, noTab, if_neg Bool.false_ne_true]
    cases continues : Byte.isContinuation b with
    | true => simp [continues]
    | false => simp [continues]; omega

theorem columnOf_boundary (boundary : t.isBoundary i = true) :
    t.columnOf i = (t.slice (t.lineStart i) i).width := by
  rw [columnOf, floor_eq_self boundary]

theorem indentation_eq (joined : t.Joined) (within : i ≤ t.size) :
    t.indentation i = (t.slice (t.lineStart i) (t.firstNonBlank i)).width := by
  rw [indentation, columnOf_boundary (joined.firstNonBlank i), lineStart_firstNonBlank within]

theorem takeWhile_body (within : i ≤ t.size) : (t.body i).takeWhile Byte.isIndent = [] := by
  rw [← unindented_line within, unindented]
  have head := List.head?_dropWhile_not Byte.isIndent (t.line i)
  cases split : (t.line i).dropWhile Byte.isIndent with
  | nil => rfl
  | cons b rest =>
    rw [split] at head
    exact List.takeWhile_cons_of_neg (by simpa using head)

theorem takeWhile_line (within : i ≤ t.size) :
    (t.line i).takeWhile Byte.isIndent = (t.slice (t.lineStart i) (t.firstNonBlank i)).toList := by
  rw [line, toList_slice_append (t.lineStart_le_firstNonBlank i) (firstNonBlank_le_lineEnd within),
    List.takeWhile_append_of_pos, ← Text.body, takeWhile_body within, List.append_nil]
  intro b listed
  obtain ⟨k, lower, upper, found⟩ := mem_slice.mp listed
  rw [← byteIs_of_byte? found Byte.isIndent]
  exact firstNonBlank_indent lower upper

/-- The indentation of a line is the width of the blanks it starts with. -/
theorem indentation_line (joined : t.Joined) (within : i ≤ t.size) :
    t.indentation i = ((t.line i).takeWhile Byte.isIndent).foldl advance 0 := by
  rw [takeWhile_line within, indentation_eq joined within, width]

/-- Behind the indentation of a line without further tabs, columns count characters. -/
theorem columnOf_eq (joined : t.Joined) (boundary : t.isBoundary i = true) (within : i ≤ t.size)
    (shown : t.firstNonBlank i ≤ i) (plain : Byte.tab ∉ t.body i) :
    t.columnOf i = t.indentation i +
      ((t.body i).take (i - t.firstNonBlank i)).countP (!Byte.isContinuation ·) := by
  rw [columnOf_boundary boundary, indentation_eq joined within, width, width,
    toList_slice_append (t.lineStart_le_firstNonBlank i) shown, List.foldl_append,
    toList_slice_take (le_lineEnd_self within)]
  exact foldl_advance (fun tab => plain (List.mem_of_mem_take tab)) _

end Text

namespace Source

variable {src other : Source} {i j : Nat}

/-- No line has a tab behind its first visible character. -/
def Untabbed (src : Source) : Prop :=
  ∀ line ∈ src.text.lines, Byte.tab ∉ Text.unindented line

theorem Untabbed.body (untabbed : src.Untabbed) (within : i ≤ src.size) :
    Byte.tab ∉ src.text.body i := by
  rw [← Text.unindented_line within]
  exact untabbed _ (List.mem_of_getElem? (Text.lines_lineIndex within))

namespace Relaid

variable (relaid : Relaid src other)

include relaid

theorem facing (joined : src.text.Joined) : Facing src other :=
  ⟨relaid.twins, joined, relaid.joined joined, relaid.ends⟩

/-- The distance of a character from the indentation of its line. -/
theorem columnOf_sub (joined : src.text.Joined) (untabbed : src.Untabbed)
    (spot : Spot src other i j) :
    src.text.columnOf i - src.text.indentation i =
      other.text.columnOf j - other.text.indentation j := by
  have left := spot.abreast.left
  have right := spot.abreast.right
  have body := relaid.body left right spot.abreast.line
  have column := spot.abreast.column
  have shown := spot.shown
  rw [Text.columnOf_eq joined spot.seam.left.1 left shown (untabbed.body left),
    Text.columnOf_eq (relaid.joined joined) spot.seam.right.1 right (by omega)
      (body ▸ untabbed.body left), body, Nat.add_sub_cancel_left, Nat.add_sub_cancel_left,
    show i - src.text.firstNonBlank i = j - other.text.firstNonBlank j by omega]

/-- A line that starts inside a comment or a literal has the same column in both texts. -/
theorem indentation (joined : src.text.Joined) (left : i ≤ src.size) (right : j ≤ other.size)
    (line : src.text.lineIndex i = other.text.lineIndex j) (inside : src.OpensInside i) :
    src.text.indentation i = other.text.indentation j := by
  rw [Text.indentation_line joined left, Text.indentation_line (relaid.joined joined) right,
    relaid.same_line left right line inside]

end Relaid

end Source

namespace Indent

variable {α β γ δ : Type} {recalls : Memo → Memo → Prop}

/-- Two results that both fail or are related by `pair`. -/
inductive Concur (pair : α → β → Prop) : Except IndentError α → Except IndentError β → Prop
  | ok {a : α} {b : β} (same : pair a b) : Concur pair (.ok a) (.ok b)
  | error {cause cause' : IndentError} : Concur pair (.error cause) (.error cause')

/-- From related columns, both computations fail, or both give related results and leave related
columns. -/
def Agree (recalls : Memo → Memo → Prop) (pair : α → β → Prop) (x : Indenting α)
    (y : Indenting β) : Prop :=
  ∀ memo memo', recalls memo memo' →
    Concur (fun a b => pair a.1 b.1 ∧ recalls a.2 b.2) (outcome x memo) (outcome y memo')

theorem Agree.pure {pair : α → β → Prop} {a : α} {b : β} (same : pair a b) :
    Agree recalls pair (Pure.pure a) (Pure.pure b) :=
  fun _ _ related => .ok ⟨same, related⟩

theorem Agree.bind {mid : α → β → Prop} {pair : γ → δ → Prop} {x : Indenting α}
    {y : Indenting β} {f : α → Indenting γ} {g : β → Indenting δ}
    (first : Agree recalls mid x y)
    (later : ∀ a b, mid a b → Agree recalls pair (f a) (g b)) :
    Agree recalls pair (x >>= f) (y >>= g) := by
  intro memo memo' related
  rw [outcome_bind, outcome_bind]
  have results := first memo memo' related
  generalize outcome x memo = left at results
  generalize outcome y memo' = right at results
  cases results with
  | ok same => exact later _ _ same.1 _ _ same.2
  | error => exact .error

theorem Agree.get : Agree recalls recalls (MonadState.get : Indenting Memo)
    (MonadState.get : Indenting Memo) :=
  fun _ _ related => .ok ⟨related, related⟩

theorem Agree.throw {pair : α → β → Prop} (cause cause' : IndentError) :
    Agree recalls pair (MonadExcept.throw cause : Indenting α)
      (MonadExcept.throw cause' : Indenting β) :=
  fun _ _ _ => .error

theorem Agree.except {pair : α → β → Prop} {x : Except IndentError α} {y : Except IndentError β}
    (same : Concur pair x y) :
    Agree recalls pair (x : Except IndentError α) (y : Except IndentError β) := by
  intro memo memo' related
  rw [outcome_except, outcome_except]
  cases same with
  | ok same => exact .ok ⟨same, related⟩
  | error => exact .error

theorem Agree.log (e e' : Event) : Agree recalls (fun _ _ => True) (Logged.log e : Logged Unit)
    (Logged.log e' : Logged Unit) :=
  fun _ _ related => .ok ⟨trivial, related⟩

theorem Agree.update {f g : Memo → Memo}
    (keeps : ∀ memo memo', recalls memo memo' → recalls (f memo) (g memo')) :
    Agree recalls (fun _ _ => True) (modify f : Indenting PUnit) (modify g : Indenting PUnit) :=
  fun _ _ related => .ok ⟨trivial, keeps _ _ related⟩

/-- The columns of lines of the same number are the same. -/
def Recalls (src other : Source) (memo memo' : Memo) : Prop :=
  ∀ i j, i ≤ src.size → j ≤ other.size → src.text.lineIndex i = other.text.lineIndex j →
    memo.lookup (src.text.lineStart i) = memo'.lookup (other.text.lineStart j)

theorem Recalls.cons {src other : Source} {memo memo' : Memo}
    (recalls : Recalls src other memo memo') {i j column : Nat} (left : i ≤ src.size)
    (right : j ≤ other.size) (line : src.text.lineIndex i = other.text.lineIndex j) :
    Recalls src other ((src.text.lineStart i, column) :: memo)
      ((other.text.lineStart j, column) :: memo') := by
  intro k l within bound same
  have starts : (src.text.lineStart k == src.text.lineStart i) =
      (other.text.lineStart l == other.text.lineStart j) := by
    rw [Bool.eq_iff_iff, beq_iff_eq, beq_iff_eq, Text.lineStart_eq_iff within left,
      Text.lineStart_eq_iff bound right, same, line]
  rw [List.lookup_cons, List.lookup_cons, starts, recalls k l within bound same]

/-- No rule for a line's first token, or for the token before a line, looks behind its anchor. -/
theorem action?_ne_alignNext {transition : Transition} {name : String} {c : Category}
    (other : transition ≠ .element) : action? transition name c ≠ some .alignNext := by
  intro chosen
  obtain ⟨rule, found, action⟩ := Option.map_eq_some_iff.mp chosen
  have fits := List.find?_some found
  rw [Bool.and_eq_true, decide_eq_true_eq] at fits
  have only : ∀ rule ∈ rules, rule.action = .alignNext → rule.transition = .element := by decide
  exact other (fits.1.symm.trans (only rule (List.mem_of_find?_eq_some found) action))

end Indent

/-- The same place of a statement in both texts. -/
inductive ListContext.Pair (src other : Source) : ListContext → ListContext → Prop
  | sibling (column : Nat) : Pair src other (.sibling column) (.sibling column)
  | inside {p q : Nat} {token : String} (spot : src.Spot other p q) :
    Pair src other (.inside p token) (.inside q token)
  | outermost : Pair src other .outermost .outermost

namespace Indenter

open Indent Source

/-- The same anchor in both texts. -/
structure AnchorPair (src other : Source) (a b : Extent) : Prop where
  starts : Spot src other a.start b.start
  stops : Seam src other a.stop b.stop

/-- The same indenter for another text. -/
def withSource (ix : Indenter) (other : Source) : Indenter :=
  { ix with source := other }

@[simp] theorem withSource_source (ix : Indenter) (other : Source) :
    (ix.withSource other).source = other := rfl

@[simp] theorem withSource_text (ix : Indenter) (other : Source) :
    (ix.withSource other).text = other.text := rfl

@[simp] theorem withSource_settings (ix : Indenter) (other : Source) :
    (ix.withSource other).settings = ix.settings := rfl

@[simp] theorem withSource_grammar (ix : Indenter) (other : Source) :
    (ix.withSource other).grammar = ix.grammar := rfl

theorem compute_inside {ix : Indenter} {column : Nat → Indenting Nat} {lineStart : Nat}
    (inside : ix.startsInSpan lineStart = true) :
    ix.compute column lineStart = pure (ix.text.indentation lineStart) := by
  simp only [compute]
  exact if_pos inside

/-- The column of a line that starts in the code. -/
theorem compute_outside {ix : Indenter} {column : Nat → Indenting Nat} {lineStart : Nat}
    (outside : ix.startsInSpan lineStart = false) :
    ix.compute column lineStart =
      (match ix.source.logicalToken? (ix.text.firstNonBlank lineStart) .backward with
      | none => pure 0
      | some previous =>
        match ix.leadingToken? (ix.text.firstNonBlank lineStart) with
        | none => ix.afterToken column previous
        | some tok => do
          match ← ix.leadingAnchor? tok lineStart with
          | some (anchor, action) => ix.place column anchor action
          | none => ix.afterToken column previous) := by
  simp only [compute]
  exact if_neg (by rw [← startsInSpan, outside]; exact Bool.false_ne_true)

section Lockstep

variable {ix : Indenter} {other : Source} {i j : Nat} (relaid : Relaid ix.source other)
  (joined : ix.source.text.Joined)

include relaid joined

theorem walk_concur (name : String) (seam : Seam ix.source other i j) :
    Concur (StopPair ix.source other) (ix.walk i name) ((ix.withSource other).walk j name) := by
  have found := walkFrom_pair (relaid.facing joined) ix.grammar ix.settings.limits.steps seam
    (pendingOf ix.grammar (some name))
  rw [walk, walk, Indent.walk, Indent.walk]
  simp only [withSource]
  generalize walkFrom ix.grammar ix.source _ i _ = a at found
  generalize walkFrom ix.grammar other _ j _ = b at found
  cases found with
  | none => exact .error
  | some pair => exact .ok pair

theorem sibling?_eq {memo memo' : Memo} (recalls : Recalls ix.source other memo memo')
    (seam : Seam ix.source other (i + 1) (j + 1)) :
    ix.sibling? memo i = (ix.withSource other).sibling? memo' j := by
  have found := (relaid.facing joined).logicalAfter? seam
  rw [sibling?, sibling?]
  simp only [withSource, text]
  generalize ix.source.logicalToken? (i + 1) .forward = a at found
  generalize other.logicalToken? (j + 1) .forward = b at found
  cases found with
  | none => rfl
  | @some a b logical =>
    have abreast := logical.before.abreast
    have first : ix.source.text.firstNonBlank a.start = a.start ↔
        other.text.firstNonBlank b.start = b.start := by
      have := abreast.column
      omega
    exact if_congr first (recalls _ _ abreast.left abreast.right abreast.line) rfl

theorem listContextFrom_concur {memo memo' : Memo}
    (recalls : Recalls ix.source other memo memo') (separator separator' steps : Nat)
    (seam : Seam ix.source other i j) :
    Concur (ListContext.Pair ix.source other) (ix.listContextFrom memo separator steps i)
      ((ix.withSource other).listContextFrom memo' separator' steps j) := by
  induction steps generalizing i j with
  | zero => exact .error
  | succ steps ih =>
    have stops := walk_concur relaid joined ";" seam
    rw [listContextFrom, listContextFrom]
    generalize ix.walk i ";" = a at stops
    generalize (ix.withSource other).walk j ";" = b at stops
    cases stops with
    | error => exact .error
    | ok pair =>
      cases pair with
      | skipped spot => exact ih spot.seam
      | opener spot => exact ih spot.seam
      | boundary => exact .ok .outermost
      | @parent p q token level spot lone =>
        by_cases separates : token = ";"
        · have same := sibling?_eq relaid joined recalls (lone (by simp [separates]))
          simp only [separates, if_true, same]
          cases (ix.withSource other).sibling? memo' q with
          | some column => exact .ok (.sibling column)
          | none => exact ih spot.seam
        · simp only [separates, if_false]
          exact .ok (.inside spot)

theorem bracketFrom_concur (separator separator' steps : Nat) (seam : Seam ix.source other i j) :
    Concur (Option.Rel (AnchorPair ix.source other)) (ix.bracketFrom separator steps i)
      ((ix.withSource other).bracketFrom separator' steps j) := by
  induction steps generalizing i j with
  | zero => exact .error
  | succ steps ih =>
    have stops := walk_concur relaid joined "," seam
    rw [bracketFrom, bracketFrom]
    generalize ix.walk i "," = a at stops
    generalize (ix.withSource other).walk j "," = b at stops
    cases stops with
    | error => exact .error
    | ok pair =>
      cases pair with
      | skipped spot => exact .ok .none
      | opener spot => exact .ok .none
      | boundary => exact .ok .none
      | @parent p q token level spot lone =>
        by_cases separates : token = ","
        · simp only [separates, if_true]
          exact ih spot.seam
        · by_cases opens : token = "("
          · subst opens
            exact .ok (.some ⟨spot, lone (by simp)⟩)
          · simp only [separates, opens, if_false]
            exact .ok .none

theorem partner?_concur {a b : Token} (logical : Logical ix.source other a b) :
    Concur (Option.Rel (Spot ix.source other)) (ix.partner? a)
      ((ix.withSource other).partner? b) := by
  have stops := walk_concur relaid joined a.grammarName logical.before.seam
  rw [partner?, partner?]
  simp only [← logical.name, withSource_grammar]
  generalize ix.walk a.start a.grammarName = x at stops ⊢
  generalize (ix.withSource other).walk b.start a.grammarName = y at stops ⊢
  cases ix.grammar.category a.grammarName with
  | closer | binaryOperator =>
    cases stops with
    | error => exact .error
    | ok pair =>
      cases pair with
      | opener spot => exact .ok (.some spot)
      | skipped spot => exact .ok .none
      | parent spot lone => exact .ok .none
      | boundary => exact .ok .none
  | opener | separator | atom => exact .ok .none

/-- Where a statement starts before a line, it does so in both texts. -/
theorem leadingAnchor?_concur {a b : Token} (logical : Logical ix.source other a b)
    (left : i ≤ ix.source.size) (right : j ≤ other.size)
    (line : ix.source.text.lineIndex i = other.text.lineIndex j) :
    Concur (Option.Rel fun x y => AnchorPair ix.source other x.1 y.1 ∧ x.2 = y.2)
      (ix.leadingAnchor? a (ix.source.text.lineStart i))
      ((ix.withSource other).leadingAnchor? b (other.text.lineStart j)) := by
  have partner := partner?_concur relaid joined logical
  have start := (relaid.facing joined).statementStart logical.before.seam
  have early : ix.source.text.lineStart i ≤ ix.source.statementStart a.start ↔
      other.text.lineStart j ≤ other.statementStart b.start := by
    have first := Text.lt_lineStart_iff start.abreast.left left
    have second := Text.lt_lineStart_iff start.abreast.right right
    rw [start.abreast.line, line] at first
    omega
  rw [leadingAnchor?, leadingAnchor?]
  simp only [← logical.name, withSource_grammar, withSource_source]
  generalize ix.partner? a = x at partner
  generalize (ix.withSource other).partner? b = y at partner
  cases partner with
  | error => exact .error
  | ok found =>
    cases found with
    | some spot => exact .ok (.some ⟨⟨spot, spot.seam⟩, rfl⟩)
    | none =>
      simp only
      split
      · have brackets := bracketFrom_concur relaid joined a.start b.start ix.settings.limits.steps
          logical.before.seam
        rw [bracketAround, bracketAround, withSource_settings]
        generalize ix.bracketFrom _ _ _ = x at brackets
        generalize (ix.withSource other).bracketFrom _ _ _ = y at brackets
        cases brackets with
        | error => exact .error
        | ok found =>
          cases found with
          | none => exact .ok .none
          | some pair => exact .ok (.some ⟨pair, rfl⟩)
      · split
        · by_cases within : ix.source.text.lineStart i ≤ ix.source.statementStart a.start
          · rw [if_pos within, if_pos (early.mp within)]
            exact .ok .none
          · rw [if_neg within, if_neg (mt early.mpr within)]
            exact .ok (.some ⟨⟨start, start.seam⟩, rfl⟩)
        · exact .ok .none

omit relaid joined in
theorem startsInSpan_lineStart (left : i ≤ ix.source.size) :
    ix.startsInSpan (ix.source.text.lineStart i) = ix.source.startsInside i := by
  rw [startsInSpan, startsInside, text, Text.firstNonBlank_lineStart left]

theorem leadingToken?_rel
    (spot : Spot ix.source other (ix.source.text.firstNonBlank i) (other.text.firstNonBlank j)) :
    Option.Rel (Logical ix.source other) (ix.leadingToken? (ix.source.text.firstNonBlank i))
      ((ix.withSource other).leadingToken? (other.text.firstNonBlank j)) := by
  have token := Facing.tokenAfter? spot.seam
  have found := (relaid.facing joined).logicalAfter? spot.seam
  rw [leadingToken?, leadingToken?, logicalAt?, logicalAt?, withSource_source]
  generalize ix.source.tokenAfter? _ = x at token
  generalize other.tokenAfter? _ = y at token
  cases token with
  | none => exact .none
  | @some tok tok' twin =>
    have comment : tok.isComment = tok'.isComment := by
      rw [Token.isComment, Token.isComment, twin.alike.kind]
    simp only [comment]
    cases tok'.isComment with
    | true => exact .none
    | false =>
      simp only [Bool.false_eq_true, if_false]
      generalize ix.source.logicalToken? _ .forward = x at found
      generalize other.logicalToken? _ .forward = y at found
      cases found with
      | none => exact .none
      | @some a b logical =>
        have same := logical.before.abreast.eq_iff spot.abreast
        by_cases here : a.start = ix.source.text.firstNonBlank i
        · rw [Option.filter_some_pos (by simpa using here),
            Option.filter_some_pos (by simpa using same.mp here)]
          exact .some logical
        · rw [Option.filter_some_neg (by simpa using here),
            Option.filter_some_neg (by simpa using mt same.mpr here)]
          exact .none

section Columns

variable {column column' : Nat → Indenting Nat}
  (columns : ∀ i j, i ≤ ix.source.size → j ≤ other.size →
    ix.source.text.lineIndex i = other.text.lineIndex j →
    Agree (Recalls ix.source other) Eq (column (ix.source.text.lineStart i))
      (column' (other.text.lineStart j)))

include columns

omit relaid joined in
theorem lineColumn_agree (abreast : Abreast ix.source other i j) :
    Agree (Recalls ix.source other) Eq (ix.lineColumn column i)
      ((ix.withSource other).lineColumn column' j) :=
  columns i j abreast.left abreast.right abreast.line

variable (untabbed : ix.source.Untabbed)

include untabbed

theorem alignedColumn_agree (spot : Spot ix.source other i j) :
    Agree (Recalls ix.source other) Eq (ix.alignedColumn column i)
      ((ix.withSource other).alignedColumn column' j) := by
  refine (lineColumn_agree columns spot.abreast).bind fun c d same => .pure ?_
  rw [same, text, withSource_text, relaid.columnOf_sub joined untabbed spot]

theorem place_agree {anchor anchor' : Extent} (action : Action)
    (starts : Spot ix.source other anchor.start anchor'.start)
    (stops : action = .alignNext → Seam ix.source other anchor.stop anchor'.stop) :
    Agree (Recalls ix.source other) Eq (ix.place column anchor action)
      ((ix.withSource other).place column' anchor' action) := by
  have moved : ∀ n, Agree (Recalls ix.source other) Eq
      (do return (← ix.lineColumn column anchor.start) + n)
      (do return (← (ix.withSource other).lineColumn column' anchor'.start) + n) :=
    fun n => (lineColumn_agree columns starts.abreast).bind fun c d same => .pure (by rw [same])
  cases action with
  | basic units => exact moved _
  | continuation => exact moved _
  | inherit => exact lineColumn_agree columns starts.abreast
  | alignAnchor => exact alignedColumn_agree relaid joined columns untabbed starts
  | alignNext =>
    have found := (relaid.facing joined).logicalAfter? (stops rfl)
    rw [place, place]
    simp only [withSource_source, withSource_settings]
    generalize ix.source.logicalToken? anchor.stop .forward = x at found
    generalize other.logicalToken? anchor'.stop .forward = y at found
    cases found with
    | none => exact moved _
    | @some a b logical =>
      have spot := logical.before
      have same : ix.text.lineStart a.start = ix.text.lineStart anchor.start ↔
          (ix.withSource other).text.lineStart b.start =
            (ix.withSource other).text.lineStart anchor'.start := by
        have first := Text.lineStart_eq_iff spot.abreast.left starts.abreast.left
        have second := Text.lineStart_eq_iff spot.abreast.right starts.abreast.right
        rw [spot.abreast.line, starts.abreast.line] at first
        exact first.trans second.symm
      simp only
      by_cases here : ix.text.lineStart a.start = ix.text.lineStart anchor.start
      · rw [if_pos here, if_pos (same.mp here)]
        exact alignedColumn_agree relaid joined columns untabbed spot
      · rw [if_neg here, if_neg (mt same.mpr here)]
        exact moved _

theorem continuation_agree (seam : Seam ix.source other i j) :
    Agree (Recalls ix.source other) Eq (ix.continuation column i)
      ((ix.withSource other).continuation column' j) := by
  have start := (relaid.facing joined).statementStart seam
  exact place_agree relaid joined columns untabbed .continuation start fun _ => start.seam

theorem afterSemicolon_agree (seam : Seam ix.source other i j) :
    Agree (Recalls ix.source other) Eq (ix.afterSemicolon column i)
      ((ix.withSource other).afterSemicolon column' j) := by
  refine Agree.bind .get fun memo memo' recalls => ?_
  refine Agree.bind (.except (listContextFrom_concur relaid joined recalls i j _ seam)) ?_
  intro context context' pair
  cases pair with
  | sibling column => exact .pure rfl
  | outermost => exact .pure rfl
  | inside spot =>
    refine place_agree relaid joined columns untabbed _ spot fun next => ?_
    rw [Option.getD_eq_iff] at next
    rcases next with chosen | ⟨-, impossible⟩
    · exact absurd chosen (action?_ne_alignNext (by decide))
    · cases impossible

theorem afterToken_agree {a b : Token} (logical : Logical ix.source other a b) :
    Agree (Recalls ix.source other) Eq (ix.afterToken column a)
      ((ix.withSource other).afterToken column' b) := by
  have onward := continuation_agree relaid joined columns untabbed logical.before.seam
  simp only [afterToken, ← logical.name, withSource_grammar]
  split
  · exact afterSemicolon_agree relaid joined columns untabbed logical.before.seam
  split
  · refine Agree.bind (.except (bracketFrom_concur relaid joined a.start b.start _
      logical.before.seam)) fun bracket bracket' pair => ?_
    cases pair with
    | none => exact onward
    | some pair => exact place_agree relaid joined columns untabbed _ pair.starts fun _ => pair.stops
  · split
    · exact onward
    · exact onward
    · exact place_agree relaid joined columns untabbed _ logical.before fun _ => logical.after

theorem compute_agree (left : i ≤ ix.source.size) (right : j ≤ other.size)
    (line : ix.source.text.lineIndex i = other.text.lineIndex j) :
    Agree (Recalls ix.source other) Eq (ix.compute column (ix.source.text.lineStart i))
      ((ix.withSource other).compute column' (other.text.lineStart j)) := by
  have facing := relaid.facing joined
  have inside' : (ix.withSource other).startsInSpan (other.text.lineStart j) =
      other.startsInside j := startsInSpan_lineStart right
  have same := facing.startsInside_iff left right line
  rw [← startsInSpan_lineStart left, ← inside'] at same
  have indentation : ∀ {t : Text} {k : Nat}, k ≤ t.size →
      t.indentation (t.lineStart k) = t.indentation k := fun within => by
    rw [Text.indentation, Text.indentation, Text.firstNonBlank_lineStart within]
  cases inside : ix.startsInSpan (ix.source.text.lineStart i) with
  | true =>
    rw [compute_inside inside, compute_inside (same.mp inside)]
    refine .pure ?_
    rw [startsInSpan_lineStart left] at inside
    rw [text, withSource_text, indentation left, indentation right]
    exact relaid.indentation joined left right line (startsInside_opensInside inside)
  | false =>
    have outside : (ix.withSource other).startsInSpan (other.text.lineStart j) = false := by
      rw [← Bool.not_eq_true, ← same, inside]
      exact Bool.false_ne_true
    rw [compute_outside inside, compute_outside outside]
    rw [startsInSpan_lineStart left] at inside
    have spot := facing.spot_first left right line fun tok => stop_le_first inside
    have previous := facing.logicalBefore? spot.seam
    have leading := leadingToken?_rel relaid joined spot
    rw [text, withSource_text, withSource_source, Text.firstNonBlank_lineStart left,
      Text.firstNonBlank_lineStart right]
    generalize ix.source.logicalToken? _ .backward = x at previous
    generalize other.logicalToken? _ .backward = y at previous
    cases previous with
    | none => exact .pure rfl
    | some before =>
      have after := afterToken_agree relaid joined columns untabbed before
      generalize ix.leadingToken? _ = x at leading
      generalize (ix.withSource other).leadingToken? _ = y at leading
      cases leading with
      | none => exact after
      | some logical =>
        refine Agree.bind (.except (leadingAnchor?_concur relaid joined logical left right line)) ?_
        intro anchor anchor' pair
        cases pair with
        | none => exact after
        | @some x y pair =>
          obtain ⟨anchors, action⟩ := pair
          simp only [action]
          exact place_agree relaid joined columns untabbed _ anchors.starts fun _ => anchors.stops

end Columns

variable (untabbed : ix.source.Untabbed)

include untabbed

theorem lineIndent_agree (room : Nat) (left : i ≤ ix.source.size) (right : j ≤ other.size)
    (line : ix.source.text.lineIndex i = other.text.lineIndex j) :
    Agree (Recalls ix.source other) Eq (ix.lineIndent room (ix.source.text.lineStart i))
      ((ix.withSource other).lineIndent room (other.text.lineStart j)) := by
  induction room generalizing i j with
  | zero =>
    refine Agree.bind .get fun memo memo' recalls => ?_
    rw [recalls i j left right line]
    split
    · exact .pure rfl
    · exact .throw _ _
  | succ room ih =>
    refine Agree.bind .get fun memo memo' recalls => ?_
    rw [recalls i j left right line]
    split
    · exact .pure rfl
    · have columns := compute_agree relaid joined (fun i j left right line => ih left right line)
        untabbed left right line
      refine columns.bind fun column column' same => ?_
      rw [same]
      refine Agree.bind (.log _ _) fun _ _ _ => ?_
      refine Agree.bind (.update fun memo memo' recalls => recalls.cons left right line)
        fun _ _ _ => ?_
      exact .pure rfl

theorem runLine_concur {memo memo' : Memo} (recalls : Recalls ix.source other memo memo')
    (left : i ≤ ix.source.size) (right : j ≤ other.size)
    (line : ix.source.text.lineIndex i = other.text.lineIndex j) :
    Concur (fun a b => a.1 = b.1 ∧ Recalls ix.source other a.2 b.2)
      (ix.runLine (ix.source.text.lineStart i) memo).value
      ((ix.withSource other).runLine (other.text.lineStart j) memo').value :=
  lineIndent_agree relaid joined untabbed _ left right line memo memo' recalls

theorem indentFor_eq (left : i ≤ ix.source.size) (right : j ≤ other.size)
    (line : ix.source.text.lineIndex i = other.text.lineIndex j) :
    (ix.indentFor i).value.toOption = ((ix.withSource other).indentFor j).value.toOption := by
  have floors : ix.source.text.lineIndex (ix.source.text.floor i) =
      other.text.lineIndex (other.text.floor j) := by
    rw [joined.lineIndex_floor left, (relaid.joined joined).lineIndex_floor right, line]
  have recalls : Recalls ix.source other [] [] := fun _ _ _ _ _ => rfl
  have results := runLine_concur relaid joined untabbed recalls (Nat.le_trans (ix.source.text.floor_le i) left)
    (Nat.le_trans (other.text.floor_le j) right) floors
  rw [indentFor, indentFor, withSource_source, checkOffset_within left, checkOffset_within right]
  simp only [Logged.value_map, text, withSource_source]
  generalize (ix.runLine _ []).value = x at results
  generalize ((ix.withSource other).runLine _ []).value = y at results
  cases results with
  | error => rfl
  | ok same => exact congrArg some same.1

end Lockstep

/-- Where no tab stands behind the first visible character of a line, the column for a line does
not depend on the present indentation: texts whose lines differ in nothing else, and not where they
start inside a comment or a literal, have the same column for the line, or both have none. -/
theorem indentFor_ignores_layout (lexical : LexicalSettings) (style : IndentSettings)
    (grammar : Grammar String) (s s' : String) :
    let src := Source.ofText lexical (Text.ofString s)
    let other := Source.ofText lexical (Text.ofString s')
    Relaid src other → src.Untabbed →
    ∀ i j, i ≤ src.size → j ≤ other.size → src.text.lineIndex i = other.text.lineIndex j →
      (indentFor ⟨src, style, grammar⟩ i).value.toOption =
        (indentFor ⟨other, style, grammar⟩ j).value.toOption := by
  intro src other relaid untabbed i j left right line
  have relaid : Relaid (Indenter.mk src style grammar).source other := relaid
  exact indentFor_eq relaid (Text.joined_ofString s) untabbed left right line

/-- A group whose lines are indented in two ways, but for the lines that a comment and a literal
go on in. -/
theorem indentFor_ignores_layout_group :
    let src := Source.ofText {} (Text.ofString "do;\n* c\n;\nx = 'a\n b';\nend;")
    let other := Source.ofText {} (Text.ofString " do;\n\t* c\n;\n  x = 'a\n b';\n   end;")
    Relaid src other ∧ src.Untabbed ∧
      (indentFor ⟨src, {}, ⟨Grammar.standardLevels, []⟩⟩ 10).value.toOption =
        (indentFor ⟨other, {}, ⟨Grammar.standardLevels, []⟩⟩ 12).value.toOption := by
  intro src other
  have relaid : Relaid src other :=
    ⟨rfl, by decide +kernel, by simp only [Source.OpensInside]; decide +kernel⟩
  have untabbed : src.Untabbed := by
    rw [Source.Untabbed]
    decide +kernel
  exact ⟨relaid, untabbed, indentFor_ignores_layout {} {} ⟨Grammar.standardLevels, []⟩ _ _ relaid
    untabbed 10 12 (by decide +kernel) (by decide +kernel) (by decide +kernel)⟩

/-- Behind a visible character a tab reaches to the next stop, so indenting its line changes the
distance to what follows, and the column of a line that is aligned with that. -/
theorem indentFor_follows_tab :
    let src := Source.ofText {} (Text.ofString "x = f(\ta,\nb);")
    let other := Source.ofText {} (Text.ofString " x = f(\ta,\nb);")
    Relaid src other ∧ ∃ g, Grammar.standard = .ok g ∧
      (indentFor ⟨src, {}, g⟩ 10).value = .ok 8 ∧ (indentFor ⟨other, {}, g⟩ 11).value = .ok 7 := by
  intro src other
  have relaid : Relaid src other :=
    ⟨rfl, by decide +kernel, by simp only [Source.OpensInside]; decide +kernel⟩
  exact ⟨relaid, _, Grammar.standard_eq, by decide +kernel, by decide +kernel⟩

end Indenter
end SasLayout
