import SasLayout.Event.Code
import SasLayout.SpanMap
import SasLayout.Text.Line

set_option autoImplicit false

/-! A text together with its span map and its line map, and what they say about single offsets. -/
namespace SasLayout

/-- A text that has been scanned. -/
structure Source where
  settings : LexicalSettings
  text : Text
  map : SpanMap
  map_eq : map = SpanMap.build settings text
  lineMap : LineMap
  lineMap_eq : lineMap = text.lineMap

/-- An offset lies past the end of a text of `size` bytes. -/
structure OutOfRange where
  offset : Nat
  size : Nat
deriving DecidableEq, Repr

/-- The character boundary at or before an offset of the text. -/
def Text.checkOffset (t : Text) (offset : Nat) : Except OutOfRange Nat :=
  if t.size < offset then .error ⟨offset, t.size⟩ else .ok (t.floor offset)

namespace OutOfRange

def message (e : OutOfRange) : String :=
  s!"Offset {e.offset} is outside the buffer (length {e.size})"

def code (_ : OutOfRange) : String :=
  Code.offsetOutOfRange

end OutOfRange

namespace Source

def ofText (settings : LexicalSettings) (t : Text) : Source :=
  ⟨settings, t, SpanMap.build settings t, rfl, t.lineMap, rfl⟩

theorem lineMap_index (src : Source) (offset : Nat) :
    src.lineMap.index offset = src.text.lineIndex offset := by
  rw [src.lineMap_eq, Text.lineIndex]

def size (src : Source) : Nat :=
  src.text.size

def checkOffset (src : Source) (offset : Nat) : Except OutOfRange Nat :=
  src.text.checkOffset offset

/-- Whether blanks and comments alone separate `pos` from a semicolon before it or from the start
of the text. -/
def startsStatement (src : Source) (pos : Nat) : Bool :=
  match last : src.text.seekBack (!Byte.isBlank ·) pos with
  | 0 => true
  | k + 1 =>
    have : k < pos := Nat.le_trans (Nat.le_of_eq last.symm) (src.text.seekBack_le _ pos)
    match covered : src.map.spanAt? k with
    | some s =>
      have := SpanMap.spanAt?_start_le covered
      if s.isComment then src.startsStatement s.start else false
    | none => src.text.byteIs k Byte.isSemicolon
termination_by pos

def isStatementStart (src : Source) (offset : Nat) : Bool :=
  src.startsStatement (min offset src.size)

/-- The brackets that are open behind the byte at `i` of the code when `depth` are before it. A
closing bracket without an open one changes nothing. -/
def openPast (src : Source) (i depth : Nat) : Nat :=
  if src.text.byteIs i Byte.isOpenBracket then depth + 1
  else if src.text.byteIs i Byte.isCloseBracket then depth - 1
  else depth

/-- The open brackets after the code from `i` to `limit` when `depth` are open at `i`. The span with
index `next` is leapt over where it starts, and the next one is then waited for. -/
def depthFrom (src : Source) (limit next i depth : Nat) : Nat :=
  if i < limit then
    match met : src.map.spans[next]? with
    | some s =>
      have := (Array.getElem?_eq_some_iff.mp met).1
      if s.start ≤ i then src.depthFrom limit (next + 1) s.stop depth
      else src.depthFrom limit next (i + 1) (src.openPast i depth)
    | none => src.depthFrom limit next (i + 1) (src.openPast i depth)
  else depth
termination_by (src.map.spans.size - next) * (limit + 1) + (limit - i)
decreasing_by
  · have fewer : src.map.spans.size - next = src.map.spans.size - (next + 1) + 1 := by omega
    rw [fewer, Nat.succ_mul]
    omega
  · omega
  · omega

/-- The brackets that are open at `limit` when none are at `start`. -/
def depthBetween (src : Source) (start limit : Nat) : Nat :=
  src.depthFrom limit (Bisect.leading src.map.spans (·.stop ≤ start)) start 0

/-- The start of the statement that holds `offset`, blanks and comments included. -/
def afterTerminator (src : Source) (offset : Nat) : Nat :=
  match src.map.previousTerminator? offset with
  | some t => t + 1
  | none => 0

def contextAt (src : Source) (offset : Nat) : Context :=
  let offset := min offset src.size
  match src.map.spanAt? offset with
  | some s => ⟨s.region, src.depthBetween (src.afterTerminator s.start) s.start⟩
  | none => ⟨.code, src.depthBetween (src.afterTerminator offset) offset⟩

end Source
end SasLayout
