set_option autoImplicit false

/-!
Text for a terminal, written where there is none: control characters other than blanks and line
ends are left out, and so are escape sequences. A sequence that is not closed takes what follows it
with it.
-/
namespace SasLayout.Terminal

/-- How far an escape sequence has been read. -/
inductive State where
  /-- Outside of all sequences. -/
  | ground
  | escape
  | escapeIntermediate
  /-- In a control sequence, which a letter closes. -/
  | control
  /-- In a command string, whose body a letter opens. -/
  | device
  | deviceParameter
  | deviceIntermediate
  /-- In the body of a string that the byte `0x9c` closes. -/
  | body
  /-- In a command of the operating system, which a bell closes. -/
  | system
deriving DecidableEq, Repr

/-- Blanks and line ends, which are shown even inside a sequence that is not a string. -/
def isBlank (c : Char) : Bool :=
  c == ' ' || c == '\t' || c == '\n' || c == '\x0c' || c == '\r'

def isControl (c : Char) : Bool :=
  c.toNat < 32 || c.toNat = 127

/-- Whether a character outside of all sequences is shown. -/
def isShown (c : Char) : Bool :=
  isBlank c || !isControl c

/-- Whether the byte that closes a body is part of a character. -/
def closesBody (c : Char) : Bool :=
  (String.utf8EncodeChar c).contains 0x9c

def between (low high : Nat) (c : Char) : Bool :=
  low ≤ c.toNat && c.toNat ≤ high

namespace State

/-- The state after a character that is neither a control character nor outside of ASCII. -/
def follow (s : State) (c : Char) : State :=
  match s with
  | ground => ground
  | escape =>
    if between 0x20 0x2f c then escapeIntermediate
    else
      match c with
      | '[' => control
      | ']' => system
      | 'P' => device
      | 'X' | '^' | '_' => body
      | _ => ground
  | escapeIntermediate => if between 0x20 0x2f c then escapeIntermediate else ground
  | control => if between 0x20 0x3f c then control else ground
  | device =>
    if between 0x20 0x2f c then deviceIntermediate
    else if between 0x30 0x3f c then deviceParameter
    else body
  | deviceParameter =>
    if between 0x20 0x2f c then deviceIntermediate
    else if between 0x30 0x3b c then deviceParameter
    else body
  | deviceIntermediate => if between 0x20 0x2f c then deviceIntermediate else body
  | body => body
  | system => system

/-- Whether a line end in this state is shown. -/
def showsLineEnds : State → Bool
  | ground | escape | escapeIntermediate | control => true
  | _ => false

/-- Reads a character: the state after it, and whether it is shown. -/
def read (s : State) (c : Char) : State × Bool :=
  if c = '\x1b' then (escape, false)
  else if c = '\x18' || c = '\x1a' then (ground, false)
  else if isControl c then
    if s = system && c = '\x07' then (ground, false) else (s, s.showsLineEnds && isBlank c)
  else if 128 ≤ c.toNat then
    (if s = body && closesBody c then ground else s, s = ground)
  else (s.follow c, s = ground)

end State

/-- What is shown of some characters. A line end inside a sequence is shown together with what
stands after it, up to the next control character; `shown` says that such a run is being read. The
sequence then goes on, unless the run had a character outside of ASCII. -/
def stripFrom (s : State) (shown : Bool) : List Char → List Char
  | [] => []
  | c :: rest =>
    if shown && isShown c then
      c :: stripFrom (if 128 ≤ c.toNat then .ground else s) true rest
    else
      let (next, visible) := s.read c
      if visible then c :: stripFrom next true rest else stripFrom next false rest

/-- What is shown of a text. -/
def strip (text : String) : String :=
  String.ofList (stripFrom .ground false text.toList)

/-- A text that a terminal sets off from the rest. -/
def highlight (text : String) : String :=
  "\x1b[1m" ++ text ++ "\x1b[0m"

end SasLayout.Terminal
