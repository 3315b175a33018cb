import SasLayout.Block.Navigate
import SasLayout.Indent
import SasLayout.Proofs.BlockEnds
import SasLayout.Proofs.LetterCase
import SasLayout.Proofs.StandardLevels

set_option autoImplicit false

/-!
Two texts that differ in the case of letters have the same tokens, the same blocks and the same
indentation. Each layer gives on the text in lower case what it gives on the text; the search for
blocks hands on names, which come out in lower case.
-/
namespace SasLayout

/-- The token as it reads in lower case. -/
def Token.lower (tok : Token) : Token :=
  { tok with lexeme := tok.lexeme.lower }

/-- The text in lower case, which has the same maps. -/
def Source.lower (src : Source) : Source where
  settings := src.settings
  text := src.text.lower
  map := src.map
  map_eq := by rw [SpanMap.build_lower, src.map_eq]
  lineMap := src.lineMap
  lineMap_eq := by rw [Text.lineMap_lower, src.lineMap_eq]

namespace Token

variable (tok : Token)

@[simp] theorem kind_lower : tok.lower.kind = tok.kind := rfl

@[simp] theorem start_lower : tok.lower.start = tok.start := rfl

@[simp] theorem stop_lower : tok.lower.stop = tok.stop := rfl

@[simp] theorem lexeme_lower : tok.lower.lexeme = tok.lexeme.lower := rfl

@[simp] theorem isComment_lower : tok.lower.isComment = tok.isComment := rfl

@[simp] theorem keyword?_lower : tok.lower.keyword? = tok.keyword? := by
  simp [keyword?, Keyword.lookup?]

@[simp] theorem isKeyword_lower (k : Keyword) : tok.lower.isKeyword k = tok.isKeyword k := by
  simp [isKeyword]

/-- A list of one byte that is no letter is the same in lower case. -/
theorem map_lower_beq {c : UInt8} (plain : Byte.isLetter c = false) (bytes : List UInt8) :
    (bytes.map Byte.lower == [c]) = (bytes == [c]) := by
  cases bytes with
  | nil => rfl
  | cons b rest =>
    cases rest with
    | nil =>
      have same := Byte.lower_beq b plain
      simpa using same
    | cons => simp

@[simp] theorem isEquals_lower : tok.lower.isEquals = tok.isEquals := by
  rw [isEquals, isEquals, kind_lower, lexeme_lower, Text.toList_lower,
    map_lower_beq (show Byte.isLetter Byte.equals = false by decide)]

@[simp] theorem isName_lower : tok.lower.isName = tok.isName := by
  simp [isName, Function.comp_def]

@[simp] theorem grammarName_lower : tok.lower.grammarName = tok.grammarName := by
  simp only [grammarName, kind_lower, lexeme_lower, Text.toList_lower, Text.lower_lower,
    map_lower_beq (show Byte.isLetter Byte.comma = false by decide)]

end Token

namespace Source

open Token

variable (src : Source)

@[simp] theorem settings_lower : src.lower.settings = src.settings := rfl

@[simp] theorem text_lower : src.lower.text = src.text.lower := rfl

@[simp] theorem map_lower : src.lower.map = src.map := rfl

@[simp] theorem lineMap_lower : src.lower.lineMap = src.lineMap := rfl

@[simp] theorem size_lower : src.lower.size = src.size :=
  src.text.size_lower

@[simp] theorem checkOffset_lower (offset : Nat) :
    src.lower.checkOffset offset = src.checkOffset offset :=
  src.text.checkOffset_lower offset

/-- Texts that differ in the case of letters are the same source in lower case. -/
theorem lower_ofText {settings : LexicalSettings} {t u : Text} (same : t.lower = u.lower) :
    (ofText settings t).lower = (ofText settings u).lower := by
  have maps : SpanMap.build settings t = SpanMap.build settings u := by
    rw [← SpanMap.build_lower settings t, same, SpanMap.build_lower]
  have lines : t.lineMap = u.lineMap := by
    rw [← Text.lineMap_lower, same, Text.lineMap_lower]
  simp only [Source.lower, ofText, same, maps, lines]

@[simp] theorem spanToken_lower (s : Span) : src.lower.spanToken s = (src.spanToken s).lower := by
  simp [spanToken, Token.lower]

theorem tokenAt_lower (t : Text) (i : Nat) : t.lower.tokenAt i = (t.tokenAt i).lower := by
  simp [Text.tokenAt, Token.lower]

/-- The pass reads the same tokens. -/
theorem lexFrom_inLower (fresh : Bool) (i : Nat) :
    src.lower.lexFrom fresh i = (src.lexFrom fresh i).map Token.lower := by
  fun_induction lexFrom src fresh i with
  | case1 fresh i inside met ih =>
    rw [lexFrom_blank (by simpa using inside) (by simpa using met), ih]
  | case2 fresh i inside s met _ ih =>
    rw [lexFrom_span (by simpa using inside) (by simpa using met), ih, spanToken_lower,
      List.map_cons]
  | case3 fresh i inside met ih =>
    rw [lexFrom_terminator (by simpa using inside) (by simpa using met), ih, text_lower,
      tokenAt_lower, List.map_cons]
  | case4 fresh i inside met _ ih =>
    rw [lexFrom_code (by simpa using inside) (by simpa using met), text_lower, tokenAt_lower,
      stop_lower, ih, List.map_cons]
  | case5 fresh i outside => rw [lexFrom_end (by simpa using outside), List.map_nil]

theorem toList_tokens_lower : src.lower.tokens.toList = src.tokens.toList.map Token.lower := by
  rw [toList_tokens, toList_tokens, lexFrom_inLower]

/-- A search by what lower case keeps finds the same token. -/
theorem find?_lower {p : Token → Bool} (blind : ∀ tok : Token, p tok.lower = p tok)
    (tokens : List Token) :
    (tokens.map Token.lower).find? p = (tokens.find? p).map Token.lower := by
  rw [List.find?_map]
  congr 2
  exact funext blind

@[simp] theorem tokenAfter?_lower (offset : Nat) :
    src.lower.tokenAfter? offset = (src.tokenAfter? offset).map Token.lower := by
  rw [src.lower.tokens_tiling.tokenAfter?_eq, src.tokens_tiling.tokenAfter?_eq,
    toList_tokens_lower]
  exact find?_lower (fun _ => rfl) _

@[simp] theorem tokenBefore?_lower (offset : Nat) :
    src.lower.tokenBefore? offset = (src.tokenBefore? offset).map Token.lower := by
  have around : spanAround? (src.tokens.toList.map Token.lower) offset =
      (spanAround? src.tokens.toList offset).map Token.lower := find?_lower (fun _ => rfl) _
  have last : lastBy? (src.tokens.toList.map Token.lower) offset =
      (lastBy? src.tokens.toList offset).map Token.lower := by
    rw [lastBy?, ← List.map_reverse]
    exact find?_lower (fun _ => rfl) _
  rw [src.lower.tokens_tiling.tokenBefore?_eq, src.tokens_tiling.tokenBefore?_eq,
    toList_tokens_lower, around, last]
  cases spanAround? src.tokens.toList offset <;> rfl

@[simp] theorem codeAfter?_lower (offset : Nat) :
    src.lower.codeAfter? offset = (src.codeAfter? offset).map Token.lower := by
  fun_induction codeAfter? src offset with
  | case1 offset absent => rw [codeAfter?_eq_match, tokenAfter?_lower, absent]; rfl
  | case2 offset tok found _ comment ih =>
    rw [codeAfter?_eq_match, tokenAfter?_lower, found, ← ih]
    exact if_pos comment
  | case3 offset tok found _ code =>
    rw [codeAfter?_eq_match, tokenAfter?_lower, found]
    exact if_neg code

@[simp] theorem codeBefore?_lower (offset : Nat) :
    src.lower.codeBefore? offset = (src.codeBefore? offset).map Token.lower := by
  fun_induction codeBefore? src offset with
  | case1 offset absent => rw [codeBefore?_eq_match, tokenBefore?_lower, absent]; rfl
  | case2 offset tok found _ comment ih =>
    rw [codeBefore?_eq_match, tokenBefore?_lower, found, ← ih]
    exact if_pos comment
  | case3 offset tok found _ code =>
    rw [codeBefore?_eq_match, tokenBefore?_lower, found]
    exact if_neg code

theorem assignmentTarget_lower (data equals : Token) :
    src.lower.assignmentTarget data.lower equals.lower =
      (src.assignmentTarget data equals).lower := by
  simp [assignmentTarget, Token.lower]

theorem resolve_lower (tok : Token) : src.lower.resolve tok.lower = (src.resolve tok).lower := by
  have following : ∀ p : Token.Kind → Bool,
      ((src.codeAfter? tok.stop).map Token.lower).any (fun next => p next.kind) =
        (src.codeAfter? tok.stop).any fun next => p next.kind :=
    fun p => by rw [Option.any_map]; rfl
  rw [resolve, resolve, keyword?_lower, stop_lower, codeAfter?_lower]
  split
  · cases src.codeAfter? tok.stop with
    | none => rfl
    | some next =>
      rw [Option.map_some]
      simp only [isEquals_lower, assignmentTarget_lower]
      split <;> rfl
  · rw [following (· = .statementEnd)]
    cases (src.codeAfter? tok.stop).any _ <;> rfl
  · rw [following fun kind => kind = .statementEnd || kind = .openParen]
    cases (src.codeAfter? tok.stop).any _ <;> rfl
  · rfl

theorem resolveBack_lower (tok : Token) :
    src.lower.resolveBack tok.lower = (src.resolveBack tok).lower := by
  rw [resolveBack, resolveBack, isEquals_lower, start_lower, codeBefore?_lower, resolve_lower]
  split
  · cases src.codeBefore? tok.start with
    | none => rfl
    | some previous =>
      rw [Option.map_some]
      simp only [isKeyword_lower, assignmentTarget_lower]
      split <;> rfl
  · rfl

@[simp] theorem logicalToken?_lower (offset : Nat) (towards : Direction) :
    src.lower.logicalToken? offset towards =
      (src.logicalToken? offset towards).map Token.lower := by
  cases towards with
  | forward =>
    simp only [logicalToken?, size_lower, text_lower, Text.floor_lower, logicalAfter?,
      codeAfter?_lower]
    split
    · rfl
    · cases src.codeAfter? (src.text.floor offset) with
      | none => rfl
      | some tok => exact congrArg some (src.resolve_lower tok)
  | backward =>
    simp only [logicalToken?, size_lower, text_lower, Text.floor_lower, logicalBefore?,
      codeBefore?_lower]
    split
    · rfl
    · cases src.codeBefore? (src.text.floor offset) with
      | none => rfl
      | some tok => exact congrArg some (src.resolveBack_lower tok)

@[simp] theorem logicalAt?_lower (offset : Nat) :
    src.lower.logicalAt? offset = (src.logicalAt? offset).map Token.lower := by
  rw [logicalAt?, logicalAt?, logicalToken?_lower]
  cases src.logicalToken? offset .forward with
  | none => rfl
  | some tok =>
    rw [Option.map_some, Option.filter_some, Option.filter_some, start_lower]
    split <;> rfl

theorem passes_lower : Passes src src.lower Token.lower id where
  kind _ := rfl
  keyword tok := tok.isKeyword_lower
  equals tok := tok.isEquals_lower
  identifier _ := rfl
  target := src.assignmentTarget_lower

theorem toList_logicalTokens_lower :
    src.lower.logicalTokens.toList = src.logicalTokens.toList.map Token.lower := by
  have code_map : ∀ tokens, code (tokens.map Token.lower) = (code tokens).map Token.lower :=
    fun tokens => by rw [code, List.filter_map]; rfl
  have rewritten := src.passes_lower.rewriteBefore (code src.tokens.toList)
  rw [List.map_id] at rewritten
  rw [toList_logicalTokens, toList_logicalTokens, toList_tokens_lower, code_map, rewritten]
  rfl

@[simp] theorem statementStart_lower (offset : Nat) :
    src.lower.statementStart offset = src.statementStart offset := by
  simp [statementStart, afterTerminator]

@[simp] theorem statementStop_lower (offset : Nat) :
    src.lower.statementStop offset = src.statementStop offset := by
  simp [statementStop]

theorem startsStatement_eq_match (pos : Nat) :
    src.startsStatement pos = match src.text.seekBack (!Byte.isBlank ·) pos with
      | 0 => true
      | k + 1 =>
        match src.map.spanAt? k with
        | some s => if s.isComment then src.startsStatement s.start else false
        | none => src.text.byteIs k Byte.isSemicolon := by
  rw [startsStatement]
  split
  · rename_i last
    rw [last]
  · rename_i k last
    simp only [last]
    split <;> simp_all

theorem startsStatement_lower (pos : Nat) :
    src.lower.startsStatement pos = src.startsStatement pos := by
  induction pos using Nat.strongRecOn with
  | ind pos ih =>
    rw [startsStatement_eq_match, startsStatement_eq_match, text_lower, map_lower,
      Text.seekBack_lower]
    simp only [Byte.isBlank_lower]
    split
    · rfl
    · rename_i k last
      have earlier : k < pos := Nat.le_trans (Nat.le_of_eq last.symm) (src.text.seekBack_le _ pos)
      split
      · rename_i s covered
        have before := SpanMap.spanAt?_start_le covered
        rw [ih s.start (by omega)]
      · simp

@[simp] theorem isStatementStart_lower (offset : Nat) :
    src.lower.isStatementStart offset = src.isStatementStart offset := by
  rw [isStatementStart, isStatementStart, size_lower, startsStatement_lower]

end Source

/-- A kind whose name reads in lower case. -/
def Block.Kind.lower : Kind → Kind
  | proc name => proc name.lower
  | macroBlock name => macroBlock name.lower
  | kind => kind

/-- The block with its name in lower case. -/
def Block.lower (b : Block) : Block :=
  { b with kind := b.kind.lower }

/-- The scanner of the text in lower case. -/
def Scanner.lower (sc : Scanner) : Scanner :=
  ⟨sc.source.lower, sc.settings⟩

namespace Block

@[simp] theorem isOpener_lower (b : Block) : b.lower.kind.isOpener = b.kind.isOpener := by
  obtain ⟨kind, _, _, _⟩ := b
  cases kind <;> rfl

end Block

namespace Scanner

variable (sc : Scanner)

@[simp] theorem source_lower : sc.lower.source = sc.source.lower := rfl

@[simp] theorem settings_lower : sc.lower.settings = sc.settings := rfl

@[simp] theorem text_lower : sc.lower.text = sc.text.lower := rfl

@[simp] theorem keywords_lower : sc.lower.keywords = sc.keywords := rfl

theorem keywords_blind : sc.keywords.Blind :=
  Pattern.blockKeyword_blind _

@[simp] theorem rejection?_lower (place : Extent) :
    sc.lower.rejection? place = sc.rejection? place := by
  simp [rejection?]

theorem candidate?_lower {pattern : Pattern} (blind : pattern.Blind) (anchor : Nat)
    (towards : Direction) :
    sc.lower.candidate? pattern anchor towards = sc.candidate? pattern anchor towards := by
  cases towards with
  | forward => exact sc.text.firstMatch_lower blind anchor
  | backward => exact sc.text.searchBackward_lower blind anchor

/-- The search ends the same, whatever has been logged. -/
theorem searchFrom_lower {pattern : Pattern} (blind : pattern.Blind) (towards : Direction)
    (retries anchor : Nat) (events logged : Array Event) :
    (sc.lower.searchFrom pattern towards retries anchor events).value =
      (sc.searchFrom pattern towards retries anchor logged).value := by
  induction retries generalizing anchor events logged with
  | zero => rfl
  | succ retries ih =>
    rw [searchFrom, searchFrom, sc.candidate?_lower blind]
    cases sc.candidate? pattern anchor towards with
    | none => rfl
    | some place =>
      simp only [rejection?_lower]
      cases sc.rejection? place with
      | none => rfl
      | some why => exact ih _ _ _

theorem search_lower {pattern : Pattern} (blind : pattern.Blind) (anchor : Nat)
    (towards : Direction) :
    (sc.lower.search pattern anchor towards).value = (sc.search pattern anchor towards).value :=
  sc.searchFrom_lower blind towards _ anchor _ _

@[simp] theorem closerEnd_lower (place : Extent) :
    sc.lower.closerEnd place = sc.closerEnd place := by
  simp [closerEnd]

@[simp] theorem isMacroEnd_lower (place : Extent) :
    sc.lower.isMacroEnd place = sc.isMacroEnd place := by
  simp [isMacroEnd]

theorem namedHeader_lower (place : Extent) {kind : Text → Block.Kind}
    (names : ∀ name : Text, kind name.lower = (kind name).lower) :
    (sc.lower.namedHeader place kind).value = (sc.namedHeader place kind).value.lower := by
  rw [namedHeader, namedHeader, source_lower, Source.logicalToken?_lower, Option.filter_map]
  have same : Token.isName ∘ Token.lower = Token.isName := funext Token.isName_lower
  rw [same]
  cases (sc.source.logicalToken? place.stop .forward).filter Token.isName with
  | none => rfl
  | some tok => exact congrArg (Block.header · place.start tok.stop) (names tok.lexeme)

/-- The keyword at a place makes the same block. -/
theorem blockAt_lower (place : Extent) :
    (sc.lower.blockAt place).value = (sc.blockAt place).value.lower := by
  rw [blockAt, blockAt, isMacroEnd_lower, text_lower, Text.startsWithLower_lower,
    Text.startsWithLower_lower, Text.startsWithLower_lower, source_lower, Source.logicalAt?_lower,
    closerEnd_lower]
  split
  · rfl
  split
  · cases sc.source.logicalAt? place.start with
    | none => rfl
    | some tok =>
      simp only [Option.map_some]
      by_cases target : tok.kind = .assignmentTarget
      · rw [if_pos target, if_pos (tok.kind_lower.trans target)]
        rfl
      · rw [if_neg target, if_neg (tok.kind_lower ▸ target)]
        rfl
  split
  · exact sc.namedHeader_lower place fun _ => rfl
  split
  · exact sc.namedHeader_lower place fun _ => rfl
  · rfl

theorem blockBefore_lower (anchor : Nat) :
    (sc.lower.blockBefore anchor).value = (sc.blockBefore anchor).value.lower := by
  simp only [blockBefore, Logged.value_bind, keywords_lower,
    sc.search_lower sc.keywords_blind anchor .backward]
  cases (sc.search sc.keywords anchor .backward).value with
  | found place => exact sc.blockAt_lower place
  | absent => rfl
  | gaveUp limit => rfl

theorem stepEnd_lower (anchor : Nat) :
    (sc.lower.stepEnd anchor).value = (sc.stepEnd anchor).value := by
  simp only [stepEnd, Logged.value_bind, settings_lower,
    sc.search_lower (Pattern.stepCloser_blind _) anchor .forward]
  cases (sc.search (Pattern.stepCloser sc.settings.quitCloses) anchor .forward).value with
  | found place => simp
  | absent => simp
  | gaveUp limit => rfl

theorem macroEndFrom_lower (name other : Text) (nested anchor : Nat) :
    (sc.lower.macroEndFrom other nested anchor #[]).value =
      (sc.macroEndFrom name nested anchor #[]).value := by
  induction left : sc.text.size + 1 - anchor using Nat.strongRecOn generalizing nested anchor with
  | ind left ih =>
    rw [macroEndFrom_value, macroEndFrom_value, sc.search_lower Pattern.macroKeyword_blind,
      text_lower, Text.size_lower]
    cases ended : (sc.search Pattern.macroKeyword anchor .forward).value with
    | absent => rfl
    | gaveUp offset => rfl
    | found place =>
      have bounds := search_forward_bounds Pattern.macroKeyword_positive ended
      simp only [isMacroEnd_lower]
      split
      · cases nested with
        | zero => rfl
        | succ outer => exact ih _ (by omega) outer place.stop rfl
      · exact ih _ (by omega) (nested + 1) place.stop rfl

/-- A block ends at the same offset. -/
theorem endOfBlock_lower (b : Block) :
    (sc.lower.endOfBlock b.lower).value = (sc.endOfBlock b).value := by
  obtain ⟨kind, start, headerEnd, stop⟩ := b
  have floor : sc.lower.text.floor headerEnd = sc.text.floor headerEnd := by simp
  cases kind with
  | proc name =>
    show (sc.lower.stepEnd (sc.lower.text.floor headerEnd)).value = _
    rw [floor, stepEnd_lower]
    rfl
  | data =>
    show (sc.lower.stepEnd (sc.lower.text.floor headerEnd)).value = _
    rw [floor, stepEnd_lower]
    rfl
  | macroBlock name =>
    show (sc.lower.macroEndFrom name.lower 0 (sc.lower.text.floor headerEnd) #[]).value = _
    rw [floor, sc.macroEndFrom_lower name]
    rfl
  | _ => rfl

theorem withEnd_lower (b : Block) :
    (sc.lower.withEnd b.lower).value = (sc.withEnd b).value.map Block.lower := by
  rw [withEnd, withEnd, Block.isOpener_lower]
  split
  · rw [Logged.value_map, Logged.value_map, endOfBlock_lower]
    cases (sc.endOfBlock b).value <;> rfl
  · rfl

theorem stepOpenerFrom_lower (closer retries anchor : Nat) (events logged : Array Event) :
    (sc.lower.stepOpenerFrom closer retries anchor events).value =
      (sc.stepOpenerFrom closer retries anchor logged).value.lower := by
  induction retries generalizing anchor events logged with
  | zero => rfl
  | succ retries ih =>
    have before := sc.blockBefore_lower anchor
    have start : (sc.blockBefore anchor).value.lower.start = (sc.blockBefore anchor).value.start :=
      rfl
    have kind : (sc.blockBefore anchor).value.lower.kind =
      (sc.blockBefore anchor).value.kind.lower := rfl
    rw [stepOpenerFrom, stepOpenerFrom]
    simp only [before, kind, start]
    cases (sc.blockBefore anchor).value.kind with
    | dataAssignment => exact ih _ _ _
    | closingRun => exact ih _ _ _
    | _ => rfl

theorem macroOpenerFrom_lower (closer nested anchor : Nat) :
    (sc.lower.macroOpenerFrom closer nested anchor #[]).value =
      (sc.macroOpenerFrom closer nested anchor #[]).value.lower := by
  induction anchor using Nat.strongRecOn generalizing nested with
  | ind anchor ih =>
    rw [macroOpenerFrom_value, macroOpenerFrom_value, sc.search_lower Pattern.macroKeyword_blind]
    cases ended : (sc.search Pattern.macroKeyword anchor .backward).value with
    | absent => rfl
    | gaveUp offset => rfl
    | found place =>
      have bounds := search_backward_bounds Pattern.macroKeyword_positive ended
      simp only [isMacroEnd_lower]
      split
      · exact ih place.start (by omega) (nested + 1)
      · cases nested with
        | zero => exact sc.blockAt_lower place
        | succ inner => exact ih place.start (by omega) inner

/-- What a keyword leads back to is the same. -/
theorem leadsTo?_lower (b : Block) :
    (sc.lower.leadsTo? b.lower).map (·.value) = (sc.leadsTo? b).map (·.value.lower) := by
  obtain ⟨kind, start, headerEnd, stop⟩ := b
  cases kind with
  | dataAssignment => exact congrArg some (sc.blockBefore_lower start)
  | closingRun => exact congrArg some (sc.stepOpenerFrom_lower start _ start #[] #[])
  | closingMacro => exact congrArg some (sc.macroOpenerFrom_lower start 0 start)
  | _ => rfl

theorem settle_lower (offset retries : Nat) (b : Block) (events logged : Array Event) :
    (sc.lower.settle offset retries b.lower events).value =
      (sc.settle offset retries b logged).value.lower := by
  induction retries generalizing b events logged with
  | zero => rfl
  | succ retries ih =>
    have leads := sc.leadsTo?_lower b
    rw [settle, settle]
    cases here : sc.leadsTo? b with
    | none =>
      rw [here, Option.map_none, Option.map_eq_none_iff] at leads
      rw [leads]
    | some next =>
      rw [here, Option.map_some, Option.map_eq_some_iff] at leads
      obtain ⟨lowered, there, same⟩ := leads
      rw [there]
      simp only [same]
      exact ih next.value _ _

theorem beginningOfBlock_lower (offset : Nat) :
    (sc.lower.beginningOfBlock offset).value =
      (sc.beginningOfBlock offset).value.map Block.lower := by
  rw [beginningOfBlock, beginningOfBlock, source_lower, Source.checkOffset_lower]
  cases sc.source.checkOffset offset with
  | error cause => rfl
  | ok offset =>
    simp only [Logged.value_map, Source.statementStop_lower, blockBefore_lower]
    rfl

/-- The block around an offset is the same but for the case of its name. -/
theorem locate_lower (offset : Nat) :
    (sc.lower.locate offset).value = (sc.locate offset).value.map Block.lower := by
  simp only [locate, Logged.value_bind, beginningOfBlock_lower]
  cases (sc.beginningOfBlock offset).value with
  | error cause => rfl
  | ok first =>
    simp only [Except.map, Logged.value_bind, settings_lower,
      sc.settle_lower offset _ first #[] #[], withEnd_lower]
    cases (sc.withEnd (sc.settle offset sc.settings.limits.retries first #[]).value).value <;> rfl

theorem stopAt_lower (place : Extent) :
    (sc.lower.stopAt place).value = (sc.stopAt place).value.map (·.map Block.lower) := by
  have error : ((sc.blockAt place).value.lower.kind = .error) ↔
      (sc.blockAt place).value.kind = .error := by
    rw [Block.lower]
    cases (sc.blockAt place).value.kind <;> simp [Block.Kind.lower]
  simp only [stopAt, Logged.value_bind, blockAt_lower, Block.isOpener_lower, error]
  split
  · simp only [Logged.value_bind, withEnd_lower]
    cases (sc.withEnd (sc.blockAt place).value).value <;> rfl
  · split <;> rfl

theorem stopFrom_lower (towards : Direction) (wanted : Extent → Bool) (offset retries anchor : Nat)
    (events logged : Array Event) :
    (sc.lower.stopFrom towards wanted offset retries anchor events).value =
      (sc.stopFrom towards wanted offset retries anchor logged).value.map (·.map Block.lower) := by
  induction retries generalizing anchor events logged with
  | zero => rfl
  | succ retries ih =>
    rw [stopFrom, stopFrom]
    simp only [keywords_lower, sc.search_lower sc.keywords_blind anchor towards]
    cases (sc.search sc.keywords anchor towards).value with
    | absent => rfl
    | gaveUp limit => rfl
    | found place =>
      simp only
      split
      · simp only [stopAt_lower]
        cases (sc.stopAt place).value with
        | error cause => rfl
        | ok stop =>
          cases stop with
          | none => exact ih _ _ _
          | some b => rfl
      · exact ih _ _ _

theorem nextBlock_lower (offset : Nat) :
    (sc.lower.nextBlock offset).value = (sc.nextBlock offset).value.map (·.map Block.lower) := by
  rw [nextBlock, nextBlock, source_lower, Source.checkOffset_lower, text_lower]
  cases sc.source.checkOffset offset with
  | error cause => rfl
  | ok offset =>
    simp only [Text.next_lower]
    exact sc.stopFrom_lower _ _ _ _ _ _ _

theorem previousBlock_lower (offset : Nat) :
    (sc.lower.previousBlock offset).value =
      (sc.previousBlock offset).value.map (·.map Block.lower) := by
  rw [previousBlock, previousBlock, source_lower, Source.checkOffset_lower]
  cases sc.source.checkOffset offset with
  | error cause => rfl
  | ok offset => exact sc.stopFrom_lower _ _ _ _ _ _ _

end Scanner

theorem Indent.walkFrom_lower (g : Grammar String) (src : Source) (steps pos : Nat)
    (pending : List Nat) :
    walkFrom g src.lower steps pos pending = walkFrom g src steps pos pending := by
  induction steps generalizing pos pending with
  | zero => rfl
  | succ steps ih =>
    rw [walkFrom, walkFrom, Source.logicalToken?_lower]
    cases src.logicalToken? pos .backward with
    | none => rfl
    | some tok => simp only [Option.map_some, Token.grammarName_lower, Token.start_lower, ih]

/-- The indenter of the text in lower case. -/
def Indenter.lower (ix : Indenter) : Indenter :=
  ⟨ix.source.lower, ix.settings, ix.grammar⟩

namespace Indenter

open Indent

variable (ix : Indenter)

@[simp] theorem source_lower : ix.lower.source = ix.source.lower := rfl

@[simp] theorem settings_lower : ix.lower.settings = ix.settings := rfl

@[simp] theorem grammar_lower : ix.lower.grammar = ix.grammar := rfl

@[simp] theorem text_lower : ix.lower.text = ix.text.lower := rfl

@[simp] theorem walk_lower (pos : Nat) (name : String) :
    ix.lower.walk pos name = ix.walk pos name := by
  simp only [walk, Indent.walk, settings_lower, grammar_lower, source_lower, walkFrom_lower]

@[simp] theorem sibling?_lower (memo : Memo) (separator : Nat) :
    ix.lower.sibling? memo separator = ix.sibling? memo separator := by
  rw [sibling?, sibling?, source_lower, Source.logicalToken?_lower]
  cases ix.source.logicalToken? (separator + 1) .forward with
  | none => rfl
  | some next => simp

@[simp] theorem listContext_lower (memo : Memo) (separator : Nat) :
    ix.lower.listContext memo separator = ix.listContext memo separator := by
  have steps : ∀ steps pos, ix.lower.listContextFrom memo separator steps pos =
      ix.listContextFrom memo separator steps pos := by
    intro steps
    induction steps with
    | zero => exact fun _ => rfl
    | succ steps ih =>
      intro pos
      simp only [listContextFrom, walk_lower, sibling?_lower, ih]
  exact steps _ _

@[simp] theorem bracketAround_lower (separator : Nat) :
    ix.lower.bracketAround separator = ix.bracketAround separator := by
  have steps : ∀ steps pos, ix.lower.bracketFrom separator steps pos =
      ix.bracketFrom separator steps pos := by
    intro steps
    induction steps with
    | zero => exact fun _ => rfl
    | succ steps ih =>
      intro pos
      simp only [bracketFrom, walk_lower, ih]
  exact steps _ _

section

variable (columnOfLine : Nat → Indenting Nat)

@[simp] theorem place_lower (anchor : Extent) (action : Action) :
    ix.lower.place columnOfLine anchor action = ix.place columnOfLine anchor action := by
  cases action with
  | alignNext =>
    simp only [place, lineColumn, alignedColumn, source_lower, text_lower, settings_lower,
      Source.logicalToken?_lower, Text.lineStart_lower, Text.columnOf_lower,
      Text.indentation_lower]
    cases ix.source.logicalToken? anchor.stop .forward with
    | none => rfl
    | some next => rfl
  | _ =>
    simp only [place, lineColumn, alignedColumn, text_lower, settings_lower, Text.lineStart_lower,
      Text.columnOf_lower, Text.indentation_lower]

@[simp] theorem continuation_lower (pos : Nat) :
    ix.lower.continuation columnOfLine pos = ix.continuation columnOfLine pos := by
  simp only [continuation, source_lower, Source.statementStart_lower, place_lower]

theorem leadingAnchor?_lower (tok : Token) (lineStart : Nat) :
    ix.lower.leadingAnchor? tok.lower lineStart = ix.leadingAnchor? tok lineStart := by
  have partner : ix.lower.partner? tok.lower = ix.partner? tok := by
    simp only [partner?, Token.grammarName_lower, grammar_lower, Token.start_lower, walk_lower]
  simp only [leadingAnchor?, partner, Token.grammarName_lower, grammar_lower, Token.start_lower,
    bracketAround_lower, source_lower, Source.statementStart_lower]

@[simp] theorem afterSemicolon_lower (separator : Nat) :
    ix.lower.afterSemicolon columnOfLine separator = ix.afterSemicolon columnOfLine separator := by
  simp only [afterSemicolon, listContext_lower, grammar_lower, place_lower]

theorem afterToken_lower (previous : Token) :
    ix.lower.afterToken columnOfLine previous.lower = ix.afterToken columnOfLine previous := by
  simp only [afterToken, Token.grammarName_lower, Token.start_lower, Token.stop_lower,
    grammar_lower, afterSemicolon_lower, bracketAround_lower, place_lower, continuation_lower]

theorem leadingToken?_lower (first : Nat) :
    ix.lower.leadingToken? first = (ix.leadingToken? first).map Token.lower := by
  rw [leadingToken?, leadingToken?, source_lower, Source.tokenAfter?_lower]
  cases ix.source.tokenAfter? first with
  | none => rfl
  | some tok =>
    simp only [Option.map_some, Token.isComment_lower, Source.logicalAt?_lower]
    split <;> rfl

theorem compute_lower (lineStart : Nat) :
    ix.lower.compute columnOfLine lineStart = ix.compute columnOfLine lineStart := by
  simp only [compute, text_lower, Text.firstNonBlank_lower, source_lower, Source.map_lower,
    Text.indentation_lower, Source.logicalToken?_lower, leadingToken?_lower]
  cases ix.source.logicalToken? (ix.text.firstNonBlank lineStart) .backward with
  | none => rfl
  | some previous =>
    cases ix.leadingToken? (ix.text.firstNonBlank lineStart) with
    | none => simp only [Option.map_some, Option.map_none, afterToken_lower]
    | some tok => simp only [Option.map_some, leadingAnchor?_lower, place_lower, afterToken_lower]

end

theorem lineIndent_lower (room lineStart : Nat) :
    ix.lower.lineIndent room lineStart = ix.lineIndent room lineStart := by
  induction room generalizing lineStart with
  | zero => rfl
  | succ room ih =>
    have columns : ix.lower.lineIndent room = ix.lineIndent room := funext ih
    simp only [lineIndent, columns, compute_lower, columnEvent, source_lower, Source.lineMap_lower]

/-- Letter case changes nothing about the indentation, not even what is logged. -/
theorem indentFor_lower (offset : Nat) : ix.lower.indentFor offset = ix.indentFor offset := by
  simp only [indentFor, source_lower, Source.checkOffset_lower, runLine, settings_lower,
    lineIndent_lower, text_lower, Text.lineStart_lower]

end Indenter

/-- What does not depend on how a token is written. -/
def Token.bearing (tok : Token) : Token.Kind × Nat × Nat × String :=
  (tok.kind, tok.start, tok.stop, tok.grammarName)

theorem Token.bearing_lower (tok : Token) : tok.lower.bearing = tok.bearing := by
  rw [bearing, bearing, kind_lower, start_lower, stop_lower, grammarName_lower]

theorem Source.map_bearing_tokens (src : Source) :
    src.tokens.map Token.bearing = src.lower.tokens.map Token.bearing := by
  apply Array.ext'
  rw [Array.toList_map, Array.toList_map, toList_tokens_lower, List.map_map]
  exact List.map_congr_left fun tok _ => tok.bearing_lower.symm

theorem Source.map_bearing_logicalTokens (src : Source) :
    src.logicalTokens.map Token.bearing = src.lower.logicalTokens.map Token.bearing := by
  apply Array.ext'
  rw [Array.toList_map, Array.toList_map, toList_logicalTokens_lower, List.map_map]
  exact List.map_congr_left fun tok _ => tok.bearing_lower.symm

/-- Texts that are equal in lower case have the same map, tokens that differ only in how they are
written, blocks that differ only in the case of their names, and the same indentation. -/
theorem same_of_lower_eq (lexical : LexicalSettings) (scanning : ScanSettings)
    (indenting : IndentSettings) (g : Grammar String) (t u : Text) (same : t.lower = u.lower) :
    let src := Source.ofText lexical t
    let other := Source.ofText lexical u
    let sc : Scanner := ⟨src, scanning⟩
    let sc' : Scanner := ⟨other, scanning⟩
    src.map = other.map ∧
    src.tokens.map Token.bearing = other.tokens.map Token.bearing ∧
    src.logicalTokens.map Token.bearing = other.logicalTokens.map Token.bearing ∧
    (∀ offset,
      (sc.locate offset).value.map Block.lower = (sc'.locate offset).value.map Block.lower ∧
      (sc.nextBlock offset).value.map (·.map Block.lower) =
        (sc'.nextBlock offset).value.map (·.map Block.lower) ∧
      (sc.previousBlock offset).value.map (·.map Block.lower) =
        (sc'.previousBlock offset).value.map (·.map Block.lower)) ∧
    ∀ offset, (Indenter.indentFor ⟨src, indenting, g⟩ offset).value =
      (Indenter.indentFor ⟨other, indenting, g⟩ offset).value := by
  intro src other sc sc'
  have lowered : src.lower = other.lower := Source.lower_ofText same
  have scanner : sc.lower = sc'.lower := congrArg (Scanner.mk · scanning) lowered
  refine ⟨?_, ?_, ?_, fun offset => ⟨?_, ?_, ?_⟩, fun offset => ?_⟩
  · rw [← src.map_lower, lowered, other.map_lower]
  · rw [src.map_bearing_tokens, lowered, ← other.map_bearing_tokens]
  · rw [src.map_bearing_logicalTokens, lowered, ← other.map_bearing_logicalTokens]
  · rw [← sc.locate_lower, scanner, sc'.locate_lower]
  · rw [← sc.nextBlock_lower, scanner, sc'.nextBlock_lower]
  · rw [← sc.previousBlock_lower, scanner, sc'.previousBlock_lower]
  · have first := Indenter.indentFor_lower ⟨src, indenting, g⟩ offset
    have second := Indenter.indentFor_lower ⟨other, indenting, g⟩ offset
    rw [← first, ← second, Indenter.lower, Indenter.lower, lowered]

/-- A step in small and in capital letters. -/
theorem same_of_lower_eq_step :
    let t := Text.ofString "proc Means;\n x = 1E+2;\nrun;"
    let u := Text.ofString "PROC mEANS;\n X = 1e+2;\nRUN;"
    let g : Grammar String := ⟨Grammar.standardLevels, []⟩
    t.lower = u.lower ∧
      (Scanner.locate ⟨.ofText {} t, {}⟩ 14).value = .ok ⟨.proc (.ofString "Means"), 0, 10, 27⟩ ∧
      (Scanner.locate ⟨.ofText {} u, {}⟩ 14).value.map Block.lower =
        .ok ⟨.proc (.ofString "means"), 0, 10, 27⟩ ∧
      (Source.ofText {} u).logicalTokens.map Token.bearing = #[(.blockOpener, 0, 4, "proc"),
        (.identifier, 5, 10, ""), (.statementEnd, 10, 11, ";"), (.identifier, 13, 14, ""),
        (.operator, 15, 16, "="), (.number, 17, 21, ""), (.statementEnd, 21, 22, ";"),
        (.blockCloser, 23, 26, "run"), (.statementEnd, 26, 27, ";")] ∧
      (Indenter.indentFor ⟨.ofText {} u, {}, g⟩ 14).value = .ok 4 := by
  intro t u g
  have same : t.lower = u.lower := by decide +kernel
  have block : (Scanner.locate ⟨.ofText {} t, {}⟩ 14).value =
      .ok ⟨.proc (.ofString "Means"), 0, 10, 27⟩ := by decide +kernel
  obtain ⟨-, -, tokens, blocks, columns⟩ := same_of_lower_eq {} {} {} g t u same
  refine ⟨same, block, (blocks 14).1.symm.trans ?_, tokens.symm.trans ?_,
    (columns 14).symm.trans ?_⟩
  · rw [block]
    decide +kernel
  all_goals decide +kernel

end SasLayout
