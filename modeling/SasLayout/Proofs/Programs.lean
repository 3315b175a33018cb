import SasLayout.Proofs.Sentences

set_option autoImplicit false

/-!
Structured programs, printed one statement a line: simple statements, groups, steps and macro
definitions, nested in any shape. The logical tokens of a printed program are the words of its
lines.
-/
namespace SasLayout

namespace Program

/-- The words that neither bound nor part a list. -/
def Word.isPlain : Word → Bool
  | name _ | number _ | literal _ | sign _ | mnemonic _ => true
  | _ => false

/-- Words with paired brackets, where commas are enclosed. -/
inductive Balanced : (enclosed : Bool) → List Word → Prop
  | nil {enclosed : Bool} : Balanced enclosed []
  | word {enclosed : Bool} {w : Word} {rest : List Word} (plain : w.isPlain = true)
    (later : Balanced enclosed rest) : Balanced enclosed (w :: rest)
  | comma {rest : List Word} (later : Balanced true rest) : Balanced true (.comma :: rest)
  | group {enclosed : Bool} {b : Bracket} {inside rest : List Word} (inner : Balanced true inside)
    (later : Balanced enclosed rest) :
    Balanced enclosed (.opening b :: (inside ++ .closing b :: rest))

/-- What follows the first words of a statement. -/
structure Body where
  row : Row
  apart : ∀ piece ∈ row, 0 < piece.1
  balanced : Balanced false row.words

def Body.empty : Body :=
  ⟨[], nofun, .nil⟩

/-- What a block starts with. The name of a step or of a macro stands behind the keyword, with so
many spaces and one more between them. -/
inductive Opener where
  | group
  | macroGroup
  | dataStep (gap : Nat) (name : Name)
  | procStep (gap : Nat) (name : Name) (quits : Bool)
  | definition (gap : Nat) (name : Name)

namespace Opener

def keyword : Opener → Keyword
  | group => .doGroup
  | macroGroup => .macroDo
  | dataStep _ _ => .data
  | procStep _ _ _ => .proc
  | definition _ _ => .macroBegin

def closer : Opener → Keyword
  | group => .endGroup
  | macroGroup => .macroDoEnd
  | dataStep _ _ => .run
  | procStep _ _ quits => if quits then .quit else .run
  | definition _ _ => .macroEnd

def names : Opener → Row
  | group | macroGroup => []
  | dataStep gap name | procStep gap name _ | definition gap name => [(gap + 1, .name name)]

end Opener

/-- What a line starts with. -/
inductive Head where
  | name (n : Name)
  | opening (o : Opener)
  | closing (o : Opener)

namespace Head

def first : Head → Word
  | name n => .name n
  | opening o => .keyword o.keyword
  | closing o => .keyword o.closer

def names : Head → Row
  | opening o => o.names
  | name _ | closing _ => []

end Head

/-- One statement on a line of its own, inside `depth` blocks. -/
structure Line where
  depth : Nat
  indent : Nat
  head : Head
  body : Body

namespace Line

/-- The words between the first one and the semicolon. -/
def inner (l : Line) : Row :=
  l.head.names ++ l.body.row

def row (l : Line) : Row :=
  (l.indent, l.head.first) :: (l.inner ++ [(0, .semicolon)])

end Line

/-- The text of some lines. The last one may end with a newline like the others. -/
def printLines (final : Bool) : List Line → String
  | [] => ""
  | [l] => l.row.print ++ (if final then "\n" else "")
  | l :: next :: rest => l.row.print ++ ("\n" ++ printLines final (next :: rest))

end Program

open Program

/-- A list of statements. -/
inductive Program where
  | done
  | statement (indent : Nat) (first : Name) (body : Body) (rest : Program)
  | block (indent : Nat) (opener : Opener) (body : Body) (inner : Program) (closing : Nat)
    (rest : Program)

namespace Program

/-- The lines in order, when `depth` blocks are around the program. -/
def lines : Program → (depth : Nat) → List Line
  | done, _ => []
  | statement indent first body rest, depth =>
    ⟨depth, indent, .name first, body⟩ :: rest.lines depth
  | block indent opener body inner closing rest, depth =>
    ⟨depth, indent, .opening opener, body⟩ :: (inner.lines (depth + 1) ++
      ⟨depth, closing, .closing opener, .empty⟩ :: rest.lines depth)

/-- How deep the blocks are nested. -/
def height : Program → Nat
  | done => 0
  | statement _ _ _ rest => rest.height
  | block _ _ _ inner _ rest => max (inner.height + 1) rest.height

def print (final : Bool) (p : Program) : String :=
  printLines final (p.lines 0)

theorem depth_le_height (p : Program) (depth : Nat) :
    ∀ l ∈ p.lines depth, l.depth ≤ depth + p.height := by
  induction p generalizing depth with
  | done => exact nofun
  | statement indent first body rest ih =>
    exact List.forall_mem_cons.mpr ⟨Nat.le_add_right _ _, ih depth⟩
  | block indent opener body inner closing rest within behind =>
    refine List.forall_mem_cons.mpr ⟨Nat.le_add_right _ _, List.forall_mem_append.mpr
      ⟨fun l listed => ?_, List.forall_mem_cons.mpr ⟨Nat.le_add_right _ _, fun l listed => ?_⟩⟩⟩
    · have := within (depth + 1) l listed
      rw [height]
      omega
    · have := behind depth l listed
      rw [height]
      omega

/-! ### The words of a line -/

theorem Word.isInner_of_isPlain {w : Word} (plain : w.isPlain = true) : w.isInner = true := by
  cases w with
  | keyword k => cases plain
  | semicolon => cases plain
  | _ => rfl

theorem Balanced.inner {enclosed : Bool} {words : List Word} (balanced : Balanced enclosed words) :
    ∀ w ∈ words, w.isInner = true := by
  induction balanced with
  | nil => exact nofun
  | word plain later ih => exact List.forall_mem_cons.mpr ⟨Word.isInner_of_isPlain plain, ih⟩
  | comma later ih => exact List.forall_mem_cons.mpr ⟨rfl, ih⟩
  | group inner later within behind =>
    refine List.forall_mem_cons.mpr ⟨rfl, List.forall_mem_append.mpr ⟨within, ?_⟩⟩
    exact List.forall_mem_cons.mpr ⟨rfl, behind⟩

theorem Head.spelled (head : Head) : isSpelled head.first.bytes = true := by
  cases head with
  | name n => exact n.spelled
  | opening o => exact Word.keyword_spelled _
  | closing o => exact Word.keyword_spelled _

/-- The first word of a line is none that the next one could change: behind `data` stands the name
of a step. -/
theorem Head.settled (head : Head) {k : Keyword} (first : head.first = .keyword k) :
    k ≠ .output ∧ k ≠ .select ∧ (k = .data → ∃ gap name, head.names = [(gap, .name name)]) := by
  cases head with
  | name n => cases first
  | opening o =>
    obtain rfl := Word.keyword.inj first
    cases o <;> simp [Opener.keyword, Head.names, Opener.names]
  | closing o =>
    obtain rfl := Word.keyword.inj first
    cases o with
    | procStep gap name quits => cases quits <;> simp [Opener.closer]
    | _ => simp [Opener.closer]

namespace Line

variable (l : Line)

theorem inner_inner : ∀ piece ∈ l.inner, 0 < piece.1 ∧ piece.2.isInner = true := by
  refine List.forall_mem_append.mpr ⟨?_, fun piece listed => ⟨l.body.apart piece listed,
    l.body.balanced.inner _ (List.mem_map_of_mem listed)⟩⟩
  cases l.head with
  | opening o => cases o <;> simp [Head.names, Opener.names, Word.isInner]
  | _ => exact nofun

/-- The line as a statement of a page. -/
def sentence : Sentence where
  indent := l.indent
  first := l.head.first
  inner := l.inner
  gap := 0
  spelled := l.head.spelled
  apart := l.inner_inner
  settled k first := by
    obtain ⟨output, select, data⟩ := l.head.settled first
    refine ⟨output, select, fun same => ?_⟩
    obtain ⟨gap, name, names⟩ := data same
    exact ⟨gap, name, by rw [inner, names]; rfl⟩

theorem row_tokens (i : Nat) : ∃ k j, l.row.tokens i =
    l.head.first.token (i + l.indent) :: (Row.tokens k l.inner ++ [Word.semicolon.token j]) :=
  l.sentence.row_tokens i

end Line

/-! ### Reading a printed program -/

/-- The tokens of some lines when the first of them starts at `i`. -/
def tokensOf : Nat → List Line → List Token
  | _, [] => []
  | i, l :: rest => l.row.tokens i ++ tokensOf (i + l.row.bytes.length + 1) rest

/-- How far some lines go, with a newline behind each. -/
def extent : List Line → Nat
  | [] => 0
  | l :: rest => l.row.bytes.length + 1 + extent rest

theorem extent_cons (l : Line) (lines : List Line) :
    extent (l :: lines) = l.row.bytes.length + 1 + extent lines := rfl

theorem tokensOf_append (i : Nat) (front back : List Line) :
    tokensOf i (front ++ back) = tokensOf i front ++ tokensOf (i + extent front) back := by
  induction front generalizing i with
  | nil => rfl
  | cons l front ih =>
    rw [List.cons_append, tokensOf, tokensOf, ih, extent_cons, List.append_assoc]
    simp only [Nat.add_assoc]

/-- The lines stand in the text from `i` on, up to its end. -/
inductive Stand (t : Text) : Nat → List Line → Prop
  | done {i : Nat} (past : t.size ≤ i)
    (begins : i ≤ t.size → i = 0 ∨ t.byteIs (i - 1) Byte.isNewline = true) : Stand t i []
  | line {i : Nat} {l : Line} {rest : List Line} {behind : List UInt8}
    (begins : i = 0 ∨ t.byteIs (i - 1) Byte.isNewline = true)
    (stands : t.From i (l.row.bytes ++ behind)) (ends : ∀ b ∈ behind.head?, b = Byte.newline)
    (later : Stand t (i + l.row.bytes.length + 1) rest) : Stand t i (l :: rest)

theorem printLines_eq (final : Bool) (lines : List Line) :
    printLines final lines = Page.print final (lines.map Line.sentence) := by
  induction lines with
  | nil => rfl
  | cons l rest ih =>
    cases rest with
    | nil => rfl
    | cons next rest =>
      rw [printLines, ih]
      rfl

theorem tokensOf_eq (i : Nat) (lines : List Line) :
    tokensOf i lines = Page.tokens i (lines.map Line.sentence) := by
  induction lines generalizing i with
  | nil => rfl
  | cons l rest ih =>
    rw [tokensOf, ih]
    rfl

theorem stand_iff {t : Text} {lines : List Line} {i : Nat} :
    Stand t i lines ↔ Page.At t i (lines.map Line.sentence) := by
  constructor
  · intro stand
    induction stand with
    | done past begins => exact .done past begins
    | @line i l rest behind begins stands ends later ih =>
      exact .line (s := l.sentence) begins stands ends ih
  · intro stand
    induction lines generalizing i with
    | nil =>
      cases stand with
      | done past begins => exact .done past begins
    | cons l rest ih =>
      cases stand with
      | line begins stands ends later => exact .line begins stands ends (ih later)

namespace Stand

variable {t : Text} {lines front back rest : List Line} {l : Line} {i : Nat}

theorem of_from {final : Bool} (begins : i = 0 ∨ t.byteIs (i - 1) Byte.isNewline = true)
    (stands : t.From i (bytes (printLines final lines))) : Stand t i lines := by
  rw [printLines_eq] at stands
  exact stand_iff.mpr (.of_from begins stands)

theorem next (stand : Stand t i (l :: rest)) : Stand t (i + l.row.bytes.length + 1) rest :=
  stand_iff.mpr (stand_iff.mp stand).next

theorem skip (stand : Stand t i (front ++ back)) : Stand t (i + extent front) back := by
  induction front generalizing i with
  | nil => exact stand
  | cons l front ih =>
    rw [extent_cons, ← Nat.add_assoc, ← Nat.add_assoc]
    exact ih stand.next

theorem length_tokens (stand : Stand t i lines) : (tokensOf i lines).length ≤ t.size - i := by
  rw [tokensOf_eq]
  exact (stand_iff.mp stand).length_tokens

theorem leads (stand : Stand t i (l :: rest)) : i + l.indent < t.size ∧
    t.lineStart (i + l.indent) = i ∧ t.firstNonBlank (i + l.indent) = i + l.indent :=
  (stand_iff.mp stand).leads

theorem lineEnd (stand : Stand t i (l :: rest)) : t.lineEnd i = i + l.row.bytes.length :=
  (stand_iff.mp stand).lineEnd

theorem lineStart (stand : Stand t i (l :: rest)) : t.lineStart i = i :=
  (stand_iff.mp stand).lineStart

theorem firstNonBlank_lt (stand : Stand t i (l :: rest)) : t.firstNonBlank i < t.lineEnd i :=
  (stand_iff.mp stand).firstNonBlank_lt

theorem lineIndex_next (stand : Stand t i (l :: rest)) (inside : i + l.row.bytes.length < t.size) :
    t.lineIndex (i + l.row.bytes.length + 1) = t.lineIndex i + 1 :=
  (stand_iff.mp stand).lineIndex_next inside

end Stand

/-- The logical tokens of a text are the words of its lines. -/
theorem logicalTokens_lines {src : Source} {lines : List Line} (stand : Stand src.text 0 lines) :
    src.logicalTokens.toList = tokensOf 0 lines := by
  rw [tokensOf_eq]
  exact (stand_iff.mp stand).logicalTokens

end Program
end SasLayout
