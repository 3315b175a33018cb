import SasLayout.Proofs.Lines
import SasLayout.Proofs.LogicalWalk
import SasLayout.Proofs.WordTokens

set_option autoImplicit false

/-!
Statements on lines of their own. The lines of a printed page are its statements, and the logical
tokens of the text are their words.
-/
namespace SasLayout

theorem Source.rewriteBefore_self (src : Source) {tok : Token} {rest : List Token}
    {after : Option Token} (alone : (rest.head?.or after).any (tok.isTarget ·) = false)
    (plain : tok.isKeyword .output = false ∧ tok.isKeyword .select = false) :
    src.rewriteBefore after (tok :: rest) = tok :: src.rewriteBefore after rest := by
  rw [src.rewriteBefore_cons alone, Token.resolved, plain.1, plain.2]
  rfl

namespace Program

/-- The words that can stand between the first of a statement and its semicolon. -/
def Word.isInner : Word → Bool
  | keyword _ | semicolon => false
  | _ => true

def Row.print : Row → String
  | [] => ""
  | (gap, w) :: rest => String.ofList (List.replicate gap ' ') ++ (w.spelling ++ print rest)

/-- A statement: its first word, the words between it and the semicolon, and the spaces before each
of them. The first word is a name or a keyword, and none that the next word could change. -/
structure Sentence where
  indent : Nat
  first : Word
  inner : Row
  gap : Nat
  spelled : isSpelled first.bytes = true
  apart : ∀ piece ∈ inner, 0 < piece.1 ∧ piece.2.isInner = true
  settled : ∀ k, first = .keyword k → k ≠ .output ∧ k ≠ .select ∧
    (k = .data → ∃ gap name, inner.head? = some (gap, .name name))

def Sentence.row (s : Sentence) : Row :=
  (s.indent, s.first) :: (s.inner ++ [(s.gap, .semicolon)])

/-- Statements, one a line. -/
abbrev Page := List Sentence

namespace Page

/-- The text of a page. The last line may end with a newline like the others. -/
def print (final : Bool) : Page → String
  | [] => ""
  | [s] => s.row.print ++ (if final then "\n" else "")
  | s :: next :: rest => s.row.print ++ ("\n" ++ print final (next :: rest))

/-- The tokens of a page that starts at `i`. -/
def tokens : Nat → Page → List Token
  | _, [] => []
  | i, s :: rest => s.row.tokens i ++ tokens (i + s.row.bytes.length + 1) rest

/-- How far a page goes, with a newline behind each line. -/
def extent : Page → Nat
  | [] => 0
  | s :: rest => s.row.bytes.length + 1 + extent rest

/-- The page stands in the text from `i` on, up to its end. -/
inductive At (t : Text) : Nat → Page → Prop
  | done {i : Nat} (past : t.size ≤ i)
    (begins : i ≤ t.size → i = 0 ∨ t.byteIs (i - 1) Byte.isNewline = true) : At t i []
  | line {i : Nat} {s : Sentence} {rest : Page} {behind : List UInt8}
    (begins : i = 0 ∨ t.byteIs (i - 1) Byte.isNewline = true)
    (stands : t.From i (s.row.bytes ++ behind)) (ends : ∀ b ∈ behind.head?, b = Byte.newline)
    (later : At t (i + s.row.bytes.length + 1) rest) : At t i (s :: rest)

end Page

/-! ### The words of a statement -/

theorem bytes_append (a b : String) : bytes (a ++ b) = bytes a ++ bytes b := by
  simp [bytes, Text.ofString, Text.toList]

theorem bytes_spaces (n : Nat) :
    bytes (String.ofList (List.replicate n ' ')) = List.replicate n Byte.space := by
  induction n with
  | zero => rfl
  | succ n ih =>
    rw [List.replicate_succ, List.replicate_succ, ← ih, String.ofList_cons, bytes_append]
    rfl

namespace Row

theorem bytes_print (row : Row) : Program.bytes row.print = row.bytes := by
  induction row with
  | nil => rfl
  | cons piece row ih =>
    rw [Row.print, Program.bytes_append, Program.bytes_append, bytes_spaces, ih, Row.bytes_cons]
    rfl

theorem tokens_append (i : Nat) (front back : Row) : (front ++ back).tokens i =
    front.tokens i ++ back.tokens (i + front.bytes.length) := by
  induction front generalizing i with
  | nil => rfl
  | cons piece front ih =>
    rw [List.cons_append, Row.tokens, Row.tokens, ih, Row.bytes_cons, List.cons_append,
      List.length_append, List.length_append, List.length_replicate]
    simp only [Nat.add_assoc]

/-- There are no more tokens than bytes. -/
theorem length_tokens_le (row : Row) (i : Nat) : (row.tokens i).length ≤ row.bytes.length := by
  induction row generalizing i with
  | nil => exact Nat.le_refl 0
  | cons piece row ih =>
    obtain ⟨b, more, spelled⟩ := piece.2.bytes_ne_nil
    have later := ih (i + piece.1 + piece.2.bytes.length)
    rw [Row.tokens, Row.bytes_cons, spelled] at *
    simp only [List.length_cons, List.length_append] at *
    omega

/-- The tokens of a row start inside it. -/
theorem start_of_mem_tokens {row : Row} {i : Nat} {tok : Token} (listed : tok ∈ row.tokens i) :
    i ≤ tok.start ∧ tok.start ≤ i + row.bytes.length := by
  induction row generalizing i with
  | nil => cases listed
  | cons piece row ih =>
    rw [Row.bytes_cons, List.length_append, List.length_append, List.length_replicate]
    rw [Row.tokens] at listed
    rcases List.mem_cons.mp listed with rfl | later
    · exact ⟨Nat.le_add_right _ _, by simp only [Word.token]; omega⟩
    · have bounds := ih later
      omega

end Row

namespace Word

variable {w : Word}

theorem kind_inner (inner : w.isInner = true) : w.kind ≠ .statementEnd := by
  intro ends
  cases w with
  | keyword k => cases inner
  | semicolon => cases inner
  | _ => cases ends

theorem role_inner (inner : w.isInner = true) : w.role ≠ ";" := by
  cases w with
  | sign s =>
    have apart : ∀ sign ∈ Operator.signs, sign ≠ ";" := by decide
    exact apart _ s.listed
  | mnemonic m =>
    have apart : ∀ name ∈ Operator.words, name ≠ ";" := by decide
    exact apart _ m.listed
  | keyword k => cases inner
  | semicolon => cases inner
  | _ => simp [role]

theorem isKeyword_other (other : ∀ k, w ≠ .keyword k) (k : Keyword) (i : Nat) :
    (w.token i).isKeyword k = false := by
  have kind : w.kind.isReserved = false := by
    cases w with
    | keyword k => exact absurd rfl (other k)
    | _ => rfl
  rw [Token.isKeyword, Token.keyword?, show (w.token i).kind = w.kind from rfl, kind,
    if_neg Bool.false_ne_true]
  rfl

theorem isKeyword_keyword (k other : Keyword) (i : Nat) :
    ((keyword k).token i).isKeyword other = decide (k = other) := by
  have known : ∀ k ∈ Keyword.all,
      (Token.Kind.ofWord (Text.ofString k.spelling)).isReserved = true := by decide +kernel
  have reserved := known k (keyword_mem_all k)
  rw [Token.isKeyword, Token.keyword?, show ((keyword k).token i).kind =
    Token.Kind.ofWord (Text.ofString k.spelling) from rfl, reserved, if_pos rfl, Keyword.lookup?,
    show ((keyword k).token i).lexeme = Text.ofString k.spelling from rfl, (keyword_named k).1,
    Text.toString_ofString, ofSpelling?_spelling]
  simp

theorem token_comment (w : Word) (i : Nat) : (w.token i).isComment = false := by
  have apart : ∀ k ∈ Keyword.all, Token.Kind.ofWord (Text.ofString k.spelling) ≠ .comment := by
    decide +kernel
  rw [Token.isComment, decide_eq_false_iff_not]
  intro comment
  cases w with
  | keyword k => exact apart k (keyword_mem_all k) comment
  | _ => cases comment

/-- A word that is a name or a keyword starts no comment and ends no statement. -/
theorem opens_of_spelled (spelled : isSpelled w.bytes = true) :
    (∀ s, w ≠ .sign s) ∧ w.kind ≠ .statementEnd := by
  cases w with
  | sign s =>
    have signs : ∀ sign ∈ Operator.signBytes, isSpelled sign = false := by decide
    have listed : isSpelled (sign s).bytes = false := signs _ (List.mem_map_of_mem s.listed)
    rw [listed] at spelled
    cases spelled
  | semicolon => exact absurd spelled (by decide)
  | keyword k => exact ⟨by simp, (Token.Kind.ofWord_code _).2⟩
  | _ => exact ⟨by simp, by simp [kind]⟩

end Word

theorem visible_of_isSpelled {word : List UInt8} (spelled : isSpelled word = true) :
    ∃ b more, word = b :: more ∧ Byte.isIndent b = false := by
  cases word with
  | nil => cases spelled
  | cons b more =>
    refine ⟨b, more, rfl, ?_⟩
    rw [isSpelled] at spelled
    split at spelled
    · rename_i percent
      rw [percent]
      rfl
    · rw [isPlainWord, Bool.and_eq_true] at spelled
      have letters : ∀ b, Byte.isWordStart b = true → Byte.isIndent b = false :=
        Byte.forall_of_halves (p := fun b => Byte.isWordStart b = true → Byte.isIndent b = false)
          (by decide)
      exact letters b spelled.1

namespace Sentence

variable (s : Sentence)

theorem legible : s.row.Legible true := by
  obtain ⟨opens, goesOn⟩ := Word.opens_of_spelled s.spelled
  have later : ∀ inner : Row, (∀ piece ∈ inner, 0 < piece.1 ∧ piece.2.isInner = true) →
      (∀ next ∈ (inner ++ [(s.gap, Word.semicolon)]).head?, 0 < next.1 ∨ next.2 = .semicolon) ∧
        Row.Legible false (inner ++ [(s.gap, .semicolon)]) := by
    intro inner each
    induction inner with
    | nil => simp [Row.Legible]
    | cons piece inner ih =>
      obtain ⟨⟨gap, word⟩, rest⟩ := List.forall_mem_cons.mp each
      refine ⟨fun next found => Or.inl (Option.some.inj found ▸ gap), nofun, (ih rest).1, ?_⟩
      rw [decide_eq_false (Word.kind_inner word)]
      exact (ih rest).2
  refine ⟨fun _ => opens, (later s.inner s.apart).1, ?_⟩
  rw [decide_eq_false goesOn]
  exact (later s.inner s.apart).2

theorem endsStatement : Row.endsStatement true s.row = true := by
  have last : ∀ (fresh : Bool) (row : Row),
      Row.endsStatement fresh (row ++ [(s.gap, .semicolon)]) = true := by
    intro fresh row
    induction row generalizing fresh with
    | nil => rfl
    | cons piece row ih => exact ih _
  exact last _ ((s.indent, s.first) :: s.inner)

theorem row_tokens (i : Nat) : ∃ k j, s.row.tokens i =
    s.first.token (i + s.indent) :: (Row.tokens k s.inner ++ [Word.semicolon.token j]) := by
  rw [row, Row.tokens, Row.tokens_append]
  exact ⟨_, _, rfl⟩

/-- The tokens of a statement stand for themselves. -/
theorem rewriteBefore_row (src : Source) (after : Option Token) (i : Nat) (rest : List Token) :
    src.rewriteBefore after (s.row.tokens i ++ rest) =
      s.row.tokens i ++ src.rewriteBefore after rest := by
  have later : ∀ (row : Row), (∀ piece ∈ row, ∀ k, piece.2 ≠ .keyword k) → ∀ i,
      src.rewriteBefore after (row.tokens i ++ rest) =
        row.tokens i ++ src.rewriteBefore after rest := by
    intro row plain i
    induction row generalizing i with
    | nil => rfl
    | cons piece row ih =>
      obtain ⟨operand, others⟩ := List.forall_mem_cons.mp plain
      rw [Row.tokens, List.cons_append, src.rewriteBefore_self, ih others, List.cons_append]
      · simp [Token.isTarget, Word.isKeyword_other operand]
      · exact ⟨Word.isKeyword_other operand _ _, Word.isKeyword_other operand _ _⟩
  have others : ∀ piece ∈ s.inner ++ [(s.gap, .semicolon)], ∀ k, piece.2 ≠ .keyword k := by
    refine List.forall_mem_append.mpr ⟨fun piece listed k same => ?_, by simp⟩
    have inner := (s.apart piece listed).2
    rw [same] at inner
    cases inner
  by_cases keyword : ∃ k, s.first = .keyword k
  · obtain ⟨k, first⟩ := keyword
    obtain ⟨output, select, data⟩ := s.settled k first
    have plain : (s.first.token (i + s.indent)).isKeyword .output = false ∧
        (s.first.token (i + s.indent)).isKeyword .select = false := by
      rw [first, Word.isKeyword_keyword, Word.isKeyword_keyword]
      exact ⟨decide_eq_false output, decide_eq_false select⟩
    rw [row, Row.tokens, List.cons_append, src.rewriteBefore_self _ plain, later _ others,
      List.cons_append]
    by_cases merges : k = .data
    · obtain ⟨gap, name, next⟩ := data merges
      obtain ⟨more, inner⟩ : ∃ more, s.inner = (gap, .name name) :: more :=
        List.head?_eq_some_iff.mp next
      rw [inner]
      simp [Token.isTarget, Token.isEquals, Row.tokens, Word.token, Word.kind]
    · simp [Token.isTarget, first, Word.isKeyword_keyword, merges]
  · apply later
    exact List.forall_mem_cons.mpr ⟨fun k same => keyword ⟨k, same⟩, others⟩

end Sentence

/-! ### Reading a page -/

namespace Page

variable {t : Text} {s : Sentence} {page rest : Page} {i : Nat}

theorem tokens_append (i : Nat) (front back : Page) :
    tokens i (front ++ back) = tokens i front ++ tokens (i + extent front) back := by
  induction front generalizing i with
  | nil => rfl
  | cons s front ih =>
    rw [List.cons_append, tokens, tokens, ih, extent, List.append_assoc]
    simp only [Nat.add_assoc]

theorem code_tokens (page : Page) (i : Nat) : Token.code (tokens i page) = tokens i page := by
  have code_row : ∀ (row : Row) (i : Nat), Token.code (row.tokens i) = row.tokens i := by
    intro row i
    induction row generalizing i with
    | nil => rfl
    | cons piece row ih => rw [Row.tokens, Token.code_cons (Word.token_comment _ _), ih]
  induction page generalizing i with
  | nil => rfl
  | cons s rest ih => rw [tokens, Token.code_append, code_row, ih]

namespace At

theorem of_from {final : Bool} (begins : i = 0 ∨ t.byteIs (i - 1) Byte.isNewline = true)
    (stands : t.From i (bytes (print final page))) : At t i page := by
  induction page generalizing i with
  | nil => exact .done stands.past fun _ => begins
  | cons s rest ih =>
    cases rest with
    | nil =>
      rw [print, bytes_append, Row.bytes_print] at stands
      have past := stands.append
      cases final with
      | false =>
        have beyond := past.past
        exact .line begins stands nofun (.done (by omega) (by omega))
      | true =>
        exact .line begins stands (fun b first => (Option.some.inj first).symm)
          (.done past.tail.past fun _ => Or.inr (past.byteIs_cons _))
    | cons next rest =>
      rw [print, bytes_append, bytes_append, Row.bytes_print] at stands
      have newline := stands.append
      exact .line begins stands (fun b first => (Option.some.inj first).symm)
        (ih (Or.inr (newline.byteIs_cons _)) newline.tail)

theorem next (stand : At t i (s :: rest)) : At t (i + s.row.bytes.length + 1) rest := by
  cases stand with
  | line begins stands ends later => exact later

theorem skip {front back : Page} (stand : At t i (front ++ back)) :
    At t (i + extent front) back := by
  induction front generalizing i with
  | nil => exact stand
  | cons s front ih =>
    rw [extent, ← Nat.add_assoc, ← Nat.add_assoc]
    exact ih stand.next

/-- There are no more tokens than bytes. -/
theorem length_tokens (stand : At t i page) : (tokens i page).length ≤ t.size - i := by
  induction stand with
  | done past begins => exact Nat.zero_le _
  | @line i s rest behind begins stands ends later ih =>
    have room : (s.row.bytes ++ behind).length = t.size - i := by
      rw [← stands, List.length_drop, Text.length_toList]
    have row := s.row.length_tokens_le i
    rw [tokens]
    simp only [List.length_append] at *
    omega

theorem lexFrom {src : Source} (stand : At src.text i page) :
    src.lexFrom true i = tokens i page := by
  induction stand with
  | done past begins => exact Source.lexFrom_end past
  | @line i s rest behind begins stands ends later ih =>
    have stops : Stops behind := by
      intro b first
      rw [ends b first]
      exact Or.inl (by decide)
    have onward : src.lexFrom true (i + s.row.bytes.length) =
        src.lexFrom true (i + s.row.bytes.length + 1) := by
      cases behind with
      | nil =>
        have past := stands.append.past
        rw [Source.lexFrom_end past, Source.lexFrom_end (Nat.le_succ_of_le past)]
      | cons b more =>
        obtain rfl := ends b rfl
        have newline : src.text.From (i + s.row.bytes.length) ([Byte.newline] ++ more) :=
          stands.append
        rw [lexFrom_gap newline (List.forall_mem_singleton.mpr rfl),
          List.length_singleton]
    rw [Row.lexFrom_row s.legible stands stops, s.endsStatement, onward, ih, tokens]

/-- The logical tokens of a text are the words of its lines. -/
theorem logicalTokens {src : Source} (stand : At src.text 0 page) :
    src.logicalTokens.toList = tokens 0 page := by
  rw [Source.toList_logicalTokens, Source.toList_tokens, stand.lexFrom, code_tokens]
  have page_self : ∀ i, src.rewriteBefore none (tokens i page) = tokens i page := by
    intro i
    clear stand
    induction page generalizing i with
    | nil => rfl
    | cons s rest ih => rw [tokens, s.rewriteBefore_row, ih]
  exact page_self 0

/-! ### The lines of a page -/

/-- A line's first word is the first thing to be seen on it. -/
theorem leads (stand : At t i (s :: rest)) : i + s.indent < t.size ∧
    t.lineStart (i + s.indent) = i ∧ t.firstNonBlank (i + s.indent) = i + s.indent := by
  cases stand with
  | @line _ _ _ behind begins stands ends later =>
    obtain ⟨b, more, spelled, visible⟩ := visible_of_isSpelled s.spelled
    rw [Sentence.row, Row.bytes_cons, List.append_assoc, spelled] at stands
    have first := stands.append
    rw [List.length_replicate] at first
    have inside : i + s.indent < t.size := first.inside
    have space : ∀ k, i ≤ k → k < i + s.indent → t.byteIs k Byte.isNewline = false := by
      intro k lower upper
      obtain ⟨m, rfl⟩ := Nat.exists_eq_add_of_le lower
      have early : m < s.indent := by omega
      rw [Text.byteIs_eq_any, stands.byte? m, List.getElem?_append_left (by simpa using early),
        List.getElem?_replicate_of_lt early]
      rfl
    have start : t.lineStart (i + s.indent) = i := by
      rw [Text.lineStart_congr (Nat.le_of_lt inside) (by omega)
        (Text.lineIndex_plain (Nat.le_add_right _ _) (Nat.le_of_lt inside) space)]
      exact Text.lineStart_eq_self (by omega) begins
    refine ⟨inside, start, ?_⟩
    rw [Text.firstNonBlank, start, stands.seek (by omega), List.length_replicate]
    · intro b listed
      rw [List.eq_of_mem_replicate listed]
      rfl
    · simp [visible]

theorem lineEnd (stand : At t i (s :: rest)) : t.lineEnd i = i + s.row.bytes.length := by
  have within := stand.leads.1
  cases stand with
  | @line _ _ _ behind begins stands ends later =>
    refine stands.seek (by omega) (fun b listed => ?_) ?_
    · refine beq_eq_false_iff_ne.mpr ?_
      rintro rfl
      exact Row.newline_notMem _ listed
    · cases behind with
      | nil => rfl
      | cons b more => exact beq_iff_eq.mpr (ends b rfl)

theorem lineStart (stand : At t i (s :: rest)) : t.lineStart i = i := by
  have within := stand.leads.1
  cases stand with
  | line begins stands ends later => exact Text.lineStart_eq_self (by omega) begins

/-- All of a statement stands on one line. -/
theorem lineStart_inside (stand : At t i (s :: rest)) {k : Nat} (lower : i ≤ k)
    (upper : k ≤ i + s.row.bytes.length) : t.lineStart k = i := by
  have within : i ≤ t.size := by
    have := stand.leads.1
    omega
  have bound : k ≤ t.lineEnd i := by rwa [stand.lineEnd]
  have same : t.lineIndex k = t.lineIndex i :=
    Text.lineIndex_within within (Nat.le_trans (Text.lineStart_le within) lower) bound
  rw [Text.lineStart_congr (Nat.le_trans bound (t.lineEnd_le_size i)) within same]
  exact stand.lineStart

theorem firstNonBlank_lt (stand : At t i (s :: rest)) : t.firstNonBlank i < t.lineEnd i := by
  obtain ⟨inside, start, leads⟩ := stand.leads
  obtain ⟨b, more, spelled, -⟩ := visible_of_isSpelled s.spelled
  have same : t.firstNonBlank i = i + s.indent := by
    rw [← leads, Text.firstNonBlank, Text.firstNonBlank, stand.lineStart, start]
  rw [same, stand.lineEnd, Sentence.row, Row.bytes_cons, spelled]
  simp only [List.length_append, List.length_cons, List.length_replicate]
  omega

theorem lineIndex_next (stand : At t i (s :: rest)) (inside : i + s.row.bytes.length < t.size) :
    t.lineIndex (i + s.row.bytes.length + 1) = t.lineIndex i + 1 := by
  rw [← stand.lineEnd] at inside ⊢
  exact Text.lineIndex_next (by have := stand.leads.1; omega) inside

/-- A line behind the first `k` statements starts where they end. -/
theorem lineStart_extent (stand : At t i page) (fits : i ≤ t.size) {j k : Nat} (within : j ≤ t.size)
    (line : t.lineIndex j = t.lineIndex i + k) :
    k ≤ page.length ∧ t.lineStart j = i + extent (page.take k) := by
  induction page generalizing i k with
  | nil =>
    cases stand with
    | done past begins =>
      have last := Text.lineIndex_mono (t := t) (Nat.le_trans within past)
      obtain rfl : k = 0 := by omega
      refine ⟨Nat.le_refl 0, ?_⟩
      rw [Text.lineStart_congr within fits line]
      exact Text.lineStart_eq_self fits (begins fits)
  | cons s rest ih =>
    cases k with
    | zero =>
      refine ⟨Nat.zero_le _, ?_⟩
      rw [Text.lineStart_congr within fits line]
      exact stand.lineStart
    | succ k =>
      have inside : i + s.row.bytes.length < t.size := by
        apply Nat.lt_of_not_le
        intro last
        rw [← stand.lineEnd] at last
        have same := Text.lineIndex_lineEnd fits
        have early := Text.lineIndex_mono (t := t) (Nat.le_trans within last)
        omega
      have number := stand.lineIndex_next inside
      obtain ⟨bound, start⟩ := ih stand.next inside (k := k) (by omega)
      refine ⟨Nat.succ_le_succ bound, ?_⟩
      rw [start, List.take_succ_cons, extent]
      omega

end At
end Page

end Program
end SasLayout
