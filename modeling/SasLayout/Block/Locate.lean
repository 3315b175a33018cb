import SasLayout.Block.Search
import SasLayout.LogicalToken
import SasLayout.Statement

set_option autoImplicit false

/-!
The block around an offset. The nearest block keyword before the end of the statement is found
first; a closer leads back to what it closes, and an opener on to its closer. Headers without a name
and closers without an opener are kinds of blocks, not errors.
-/
namespace SasLayout

inductive ScanError where
  | outOfRange (cause : OutOfRange)
  | retryLimit (offset limit : Nat)
deriving DecidableEq, Repr

namespace ScanError

def message : ScanError → String
  | outOfRange cause => cause.message
  | retryLimit offset limit => s!"Gave up after {limit} rejected matches near offset {offset}"

def code : ScanError → String
  | outOfRange cause => cause.code
  | retryLimit _ _ => Code.retryLimit

def requiresHalt (e : ScanError) : Bool :=
  (Code.entry e.code).requiresHalt

end ScanError

namespace Scanner

def keywords (sc : Scanner) : Pattern :=
  Pattern.blockKeyword sc.settings.quitCloses

/-- The end of the closing statement at `place`: its first semicolon of the code, which need not be
the one that the pattern saw. -/
def closerEnd (sc : Scanner) (place : Extent) : Nat :=
  sc.source.statementStop (sc.text.floor place.start)

def isMacroEnd (sc : Scanner) (place : Extent) : Bool :=
  sc.text.startsWithLower place.start Text.mendWord

/-- A header at `place` that takes its name from the token after it. -/
def namedHeader (sc : Scanner) (place : Extent) (kind : Text → Block.Kind) : Logged Block :=
  match (sc.source.logicalToken? place.stop .forward).filter Token.isName with
  | some name => pure (.header (kind name.lexeme) place.start name.stop)
  | none =>
    let written := (sc.text.slice place.start place.stop).toString
    ⟨.header .error place.start place.stop,
      #[((Event.error Code.malformedHeader "Block header has no name").attach "keyword"
        written).attach "offset" s!"{place.start}"]⟩

/-- The block whose keyword stands at `place`. -/
def blockAt (sc : Scanner) (place : Extent) : Logged Block :=
  if sc.isMacroEnd place then pure (.header .closingMacro place.start place.stop)
  else if sc.text.startsWithLower place.start Text.dataWord then
    match sc.source.logicalAt? place.start with
    | some tok =>
      if tok.kind = .assignmentTarget then
        pure (.header .dataAssignment place.start tok.stop)
      else pure (.header .data place.start place.stop)
    | none => pure (.header .data place.start place.stop)
  else if sc.text.startsWithLower place.start Text.procWord then sc.namedHeader place .proc
  else if sc.text.startsWithLower place.start Text.macroWord then
    sc.namedHeader place .macroBlock
  else pure (.header .closingRun place.start (sc.closerEnd place))

/-- The last block keyword that ends by `anchor`. -/
def blockBefore (sc : Scanner) (anchor : Nat) : Logged Block := do
  match ← sc.search sc.keywords anchor .backward with
  | .found place => sc.blockAt place
  | .absent => return .notFound
  | .gaveUp limit =>
    Logged.log ((Event.error Code.ambiguousBlock "Too many rejected block keywords").attach
      "offset" s!"{limit}")
    return .ambiguousAt limit

/-- The nearest block keyword at or before the end of the statement of `offset`. -/
def beginningOfBlock (sc : Scanner) (offset : Nat) : Logged (Except ScanError Block) :=
  match sc.source.checkOffset offset with
  | .error cause => pure (.error (.outOfRange cause))
  | .ok offset => .ok <$> sc.blockBefore (sc.source.statementStop offset)

/-- The end of a step whose header ends at `anchor`. -/
def stepEnd (sc : Scanner) (anchor : Nat) : Logged (Except ScanError Nat) := do
  match ← sc.search (Pattern.stepCloser sc.settings.quitCloses) anchor .forward with
  | .found place => return .ok (sc.closerEnd place)
  | .absent => return .ok sc.text.size
  | .gaveUp offset => return .error (.retryLimit offset sc.settings.limits.retries)

/-- The name that the closing statement at `place` gives, empty when it gives none. -/
def macroEndName (sc : Scanner) (place : Extent) : String :=
  Text.trim (sc.text.slice (place.start + 5) (place.stop - 1)).toString

/-- The warning about a macro `name` whose closing statement names another. -/
def mismatchEvents (sc : Scanner) (name : Text) (place : Extent) : Array Event :=
  let closing := sc.macroEndName place
  if closing.isEmpty || (Text.ofString closing).lower.toList == name.lower.toList then #[]
  else
    #[((Event.warningWith Code.mismatchedMacroEnd "%mend names a different macro").attach
      "expected" name.toString).attach "found" closing]

/-- The end of a macro definition from `anchor` on, inside which `nested` further ones are open. -/
def macroEndFrom (sc : Scanner) (name : Text) (nested anchor : Nat) (events : Array Event) :
    Logged (Except ScanError Nat) :=
  match ended : sc.search Pattern.macroKeyword anchor .forward with
  | ⟨.absent, more⟩ => ⟨.ok sc.text.size, events ++ more⟩
  | ⟨.gaveUp offset, more⟩ =>
    ⟨.error (.retryLimit offset sc.settings.limits.retries), events ++ more⟩
  | ⟨.found place, more⟩ =>
    have := search_forward_bounds Pattern.macroKeyword_positive (congrArg Logged.value ended)
    if sc.isMacroEnd place then
      match nested with
      | 0 => ⟨.ok place.stop, events ++ more ++ sc.mismatchEvents name place⟩
      | outer + 1 => sc.macroEndFrom name outer place.stop (events ++ more)
    else sc.macroEndFrom name (nested + 1) place.stop (events ++ more)
termination_by sc.text.size + 1 - anchor

/-- The end of a block: after its closer, or the end of the text when there is none. A block of any
other kind ends with its header. -/
def endOfBlock (sc : Scanner) (b : Block) : Logged (Except ScanError Nat) :=
  match b.kind with
  | .proc _ => sc.stepEnd (sc.text.floor b.headerEnd)
  | .data => sc.stepEnd (sc.text.floor b.headerEnd)
  | .macroBlock name => sc.macroEndFrom name 0 (sc.text.floor b.headerEnd) #[]
  | _ => pure (.ok b.headerEnd)

/-- The start and the end of a block, the end searched afresh. -/
def blockExtent (sc : Scanner) (b : Block) : Logged (Except ScanError Extent) :=
  (fun stop => stop.map fun stop => ⟨b.start, max stop b.start⟩) <$> sc.endOfBlock b

def unmatchedStepEnd (closer : Nat) : Event :=
  (Event.warningWith Code.ambiguousBlock "Step closer without an opener").attach "offset"
    s!"{closer}"

/-- The opener of the step that is closed at `closer`, among the keywords before `anchor`. -/
def stepOpenerFrom (sc : Scanner) (closer : Nat) :
    (retries anchor : Nat) → (events : Array Event) → Logged Block
  | 0, _, events => ⟨.ambiguousAt closer, events⟩
  | retries + 1, anchor, events =>
    let before := sc.blockBefore anchor
    match before.value.kind with
    | .dataAssignment | .closingRun =>
      sc.stepOpenerFrom closer retries before.value.start (events ++ before.events)
    | .notFound | .closingMacro =>
      ⟨.ambiguousAt closer, (events ++ before.events).push (unmatchedStepEnd closer)⟩
    | _ => ⟨before.value, events ++ before.events⟩

def openerOfStep (sc : Scanner) (closer : Nat) : Logged Block :=
  sc.stepOpenerFrom closer sc.settings.limits.retries closer #[]

def unmatchedMacroEnd (closer : Nat) : Event :=
  (Event.warningWith Code.ambiguousBlock "%mend without a matching %macro").attach "offset"
    s!"{closer}"

/-- The opener of the macro definition that is closed at `closer`, among the keywords before
`anchor`, after `nested` further closers. -/
def macroOpenerFrom (sc : Scanner) (closer nested anchor : Nat) (events : Array Event) :
    Logged Block :=
  match ended : sc.search Pattern.macroKeyword anchor .backward with
  | ⟨.absent, more⟩ => ⟨.ambiguousAt closer, (events ++ more).push (unmatchedMacroEnd closer)⟩
  | ⟨.gaveUp _, more⟩ => ⟨.ambiguousAt closer, (events ++ more).push (unmatchedMacroEnd closer)⟩
  | ⟨.found place, more⟩ =>
    have := search_backward_bounds Pattern.macroKeyword_positive (congrArg Logged.value ended)
    if sc.isMacroEnd place then
      sc.macroOpenerFrom closer (nested + 1) place.start (events ++ more)
    else
      match nested with
      | 0 =>
        let opener := sc.blockAt place
        ⟨opener.value, events ++ more ++ opener.events⟩
      | inner + 1 => sc.macroOpenerFrom closer inner place.start (events ++ more)
termination_by anchor

def openerOfMacro (sc : Scanner) (closer : Nat) : Logged Block :=
  sc.macroOpenerFrom closer 0 closer #[]

/-- What a keyword leads back to, when it opens nothing itself. -/
def leadsTo? (sc : Scanner) (b : Block) : Option (Logged Block) :=
  match b.kind with
  | .dataAssignment => some (sc.blockBefore b.start)
  | .closingRun => some (sc.openerOfStep b.start)
  | .closingMacro => some (sc.openerOfMacro b.start)
  | _ => none

/-- Follows keywords back to a block that can enclose `offset`. -/
def settle (sc : Scanner) (offset : Nat) :
    (retries : Nat) → Block → (events : Array Event) → Logged Block
  | 0, b, events =>
    ⟨.ambiguousAt b.start, events.push
      ((Event.error Code.retryLimit "Block search retry limit reached").attach "offset"
        s!"{offset}")⟩
  | retries + 1, b, events =>
    match sc.leadsTo? b with
    | some next => sc.settle offset retries next.value (events ++ next.events)
    | none => ⟨b, events⟩

/-- The block with its end, which is searched for openers only. -/
def withEnd (sc : Scanner) (b : Block) : Logged (Except ScanError Block) :=
  if b.kind.isOpener then
    (fun stop => stop.map fun stop => { b with stop }) <$> sc.endOfBlock b
  else pure (.ok b)

/-- The block around an offset, with its end. -/
def locate (sc : Scanner) (offset : Nat) : Logged (Except ScanError Block) := do
  match ← sc.beginningOfBlock offset with
  | .error cause => return .error cause
  | .ok first =>
    let opener ← sc.settle offset sc.settings.limits.retries first #[]
    match ← sc.withEnd opener with
    | .error cause => return .error cause
    | .ok b =>
      Logged.log ((((Event.success Code.blockLocated "Block located").attach "kind"
        b.kind.label).attach "start" s!"{b.start}").attach "end" s!"{b.stop}")
      return .ok b

end Scanner
end SasLayout
