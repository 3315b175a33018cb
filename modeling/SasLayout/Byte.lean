set_option autoImplicit false

/-!
Classes of single bytes of a UTF-8 text. Every character that the lexer tells apart is one ASCII
byte, and all bytes of other characters count as letters.
-/
namespace SasLayout.Byte

def tab : UInt8 := 9

def newline : UInt8 := 10

def space : UInt8 := 32

def doubleQuote : UInt8 := 34

def percent : UInt8 := 37

def ampersand : UInt8 := 38

def singleQuote : UInt8 := 39

def star : UInt8 := 42

def plus : UInt8 := 43

def comma : UInt8 := 44

def minus : UInt8 := 45

def dot : UInt8 := 46

def slash : UInt8 := 47

def semicolon : UInt8 := 59

def equals : UInt8 := 61

/-- The blanks of the lexer: space, tab, line feed, form feed and carriage return. -/
def isBlank (b : UInt8) : Bool :=
  b == 32 || b == 9 || b == 10 || b == 12 || b == 13

def isNewline (b : UInt8) : Bool :=
  b == newline

def isTab (b : UInt8) : Bool :=
  b == tab

/-- The bytes that indentation is made of. -/
def isIndent (b : UInt8) : Bool :=
  b == space || b == tab

def isDigit (b : UInt8) : Bool :=
  48 ≤ b && b ≤ 57

def isUpper (b : UInt8) : Bool :=
  65 ≤ b && b ≤ 90

def isLower (b : UInt8) : Bool :=
  97 ≤ b && b ≤ 122

def isLetter (b : UInt8) : Bool :=
  isUpper b || isLower b

/-- ASCII letters in lower case; every other byte stays. -/
def lower (b : UInt8) : UInt8 :=
  if isUpper b then b + 32 else b

/-- A byte that continues a character begun before it. -/
def isContinuation (b : UInt8) : Bool :=
  128 ≤ b && b < 192

def isWordStart (b : UInt8) : Bool :=
  isLetter b || b == 95 || 128 ≤ b

def isWord (b : UInt8) : Bool :=
  isDigit b || isWordStart b

def isDot (b : UInt8) : Bool :=
  b == dot

def isSign (b : UInt8) : Bool :=
  b == plus || b == minus

def isSemicolon (b : UInt8) : Bool :=
  b == semicolon

def isOpenBracket (b : UInt8) : Bool :=
  b == 40 || b == 91 || b == 123

def isCloseBracket (b : UInt8) : Bool :=
  b == 41 || b == 93 || b == 125

end SasLayout.Byte
