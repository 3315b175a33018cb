import SasLayout.Toml
import SasLayout.Toml.Date
import SasLayout.Toml.Number

set_option autoImplicit false

/-! Reading TOML documents. A reader takes what it recognises from the front of its input and
returns the rest. Keys have less than `depthBound` parts, and values nest less deep than that. -/
namespace SasLayout.Toml

abbrev Reader (α : Type) := List Char → Option (α × List Char)

namespace Reader

def isBlank (c : Char) : Bool :=
  c == ' ' || c == '\t'

/-- Whether a character may stand in a comment or between quotes. -/
def isPlain (c : Char) : Bool :=
  c == '\t' || (32 ≤ c.toNat && c.toNat != 127)

def skipBlanks (cs : List Char) : List Char :=
  cs.dropWhile isBlank

def skipComment : List Char → List Char
  | '#' :: rest => rest.dropWhile isPlain
  | cs => cs

def lineEnd? : List Char → Option (List Char)
  | [] => some []
  | '\n' :: rest => some rest
  | '\r' :: '\n' :: rest => some rest
  | _ => none

/-- The lines after one on which nothing but a comment is left. -/
def finishLine? (cs : List Char) : Option (List Char) :=
  lineEnd? (skipComment (skipBlanks cs))

/-- Skips blanks, line ends and comments; `inside` says whether a comment has begun. -/
def skipLines (inside : Bool) : List Char → List Char
  | [] => []
  | c :: rest =>
    if inside && isPlain c then skipLines true rest
    else if c == '#' then skipLines true rest
    else if isBlank c || c == '\n' then skipLines false rest
    else if c == '\r' && rest.head? == some '\n' then skipLines false rest
    else c :: rest

/-! ### Strings -/

/-- The character with a number in hexadecimal digits. -/
def charOf? (cs : List Char) : Option Char :=
  (Number.inBase? 16 cs).bind fun n =>
    if n < 0xD800 || (0xE000 ≤ n && n < 0x110000) then some (Char.ofNat n) else none

def unescape? : Char → Option Char
  | 'b' => some '\x08'
  | 't' => some '\t'
  | 'n' => some '\n'
  | 'f' => some '\x0c'
  | 'r' => some '\r'
  | '"' => some '"'
  | '\\' => some '\\'
  | _ => none

/-- The rest of a string between double quotes; `done` holds its characters, the last one first. -/
def basicFrom (done : List Char) : Reader String
  | '"' :: rest => some (String.ofList done.reverse, rest)
  | '\\' :: 'u' :: a :: b :: c :: d :: rest =>
    (charOf? [a, b, c, d]).bind fun x => basicFrom (x :: done) rest
  | '\\' :: 'U' :: a :: b :: c :: d :: e :: f :: g :: h :: rest =>
    (charOf? [a, b, c, d, e, f, g, h]).bind fun x => basicFrom (x :: done) rest
  | '\\' :: c :: rest => (unescape? c).bind fun x => basicFrom (x :: done) rest
  | c :: rest => if isPlain c then basicFrom (c :: done) rest else none
  | [] => none

/-- The rest of a string between single quotes, in which nothing is escaped. -/
def literalFrom (done : List Char) : Reader String
  | '\'' :: rest => some (String.ofList done.reverse, rest)
  | c :: rest => if isPlain c then literalFrom (c :: done) rest else none
  | [] => none

/-- The end of a string between tripled quotes: up to two quotes more belong to it. -/
def closeTripled (quote : Char) (done : List Char) (cs : List Char) : Option (String × List Char) :=
  let quotes := cs.takeWhile (· == quote)
  if 3 ≤ quotes.length && quotes.length ≤ 5 then
    some (String.ofList (List.replicate (quotes.length - 3) quote ++ done).reverse,
      cs.drop quotes.length)
  else none

/-- Whether a line ends at a character, in front of `rest`. -/
def isLineEnd (c : Char) (rest : List Char) : Bool :=
  c == '\n' || (c == '\r' && rest.head? == some '\n')

/-- The rest of a string between tripled double quotes. After a backslash at the end of a line,
`trimming` skips to the next character that is no blank. -/
def tripledBasicFrom (trimming : Bool) (done : List Char) : Reader String
  | '"' :: '"' :: '"' :: rest => closeTripled '"' done ('"' :: '"' :: '"' :: rest)
  | '\\' :: 'u' :: a :: b :: c :: d :: rest =>
    (charOf? [a, b, c, d]).bind fun x => tripledBasicFrom false (x :: done) rest
  | '\\' :: 'U' :: a :: b :: c :: d :: e :: f :: g :: h :: rest =>
    (charOf? [a, b, c, d, e, f, g, h]).bind fun x => tripledBasicFrom false (x :: done) rest
  | '\\' :: c :: rest =>
    match unescape? c with
    | some x => tripledBasicFrom false (x :: done) rest
    | none =>
      if isLineEnd c rest || (isBlank c && (lineEnd? (skipBlanks rest)).isSome) then
        tripledBasicFrom true done rest
      else none
  | c :: rest =>
    if trimming && (isBlank c || isLineEnd c rest) then tripledBasicFrom true done rest
    else if isPlain c || c == '\n' then tripledBasicFrom false (c :: done) rest
    else if c == '\r' && rest.head? == some '\n' then tripledBasicFrom false done rest
    else none
  | [] => none

/-- The rest of a string between tripled single quotes. -/
def tripledLiteralFrom (done : List Char) : Reader String
  | '\'' :: '\'' :: '\'' :: rest => closeTripled '\'' done ('\'' :: '\'' :: '\'' :: rest)
  | c :: rest =>
    if isPlain c || c == '\n' then tripledLiteralFrom (c :: done) rest
    else if c == '\r' && rest.head? == some '\n' then tripledLiteralFrom done rest
    else none
  | [] => none

/-- Tripled quotes swallow a line end that follows them at once. -/
def skipLineEnd : List Char → List Char
  | '\n' :: rest => rest
  | '\r' :: '\n' :: rest => rest
  | cs => cs

/-! ### Keys -/

def isBare (c : Char) : Bool :=
  c.isAlphanum || c == '_' || c == '-'

def keyPart : Reader String
  | '"' :: rest => basicFrom [] rest
  | '\'' :: rest => literalFrom [] rest
  | cs =>
    let word := cs.takeWhile isBare
    if word.isEmpty then none else some (String.ofList word, cs.dropWhile isBare)

/-- A dotted key: the path to it and its last part. -/
def keyWithin : (fuel : Nat) → Reader (List String × String)
  | 0, _ => none
  | fuel + 1, cs =>
    (keyPart cs).bind fun (part, rest) =>
      match skipBlanks rest with
      | '.' :: more =>
        (keyWithin fuel (skipBlanks more)).map fun ((path, last), rest) =>
          ((part :: path, last), rest)
      | rest => some (([], part), rest)

def depthBound : Nat := 80

def key (cs : List Char) : Option ((List String × String) × List Char) :=
  (keyWithin (cs.length + 1) cs).filter fun ((path, _), _) => path.length + 1 < depthBound

/-! ### Words -/

def isScalar (c : Char) : Bool :=
  c.isAlphanum || c == '_' || c == '+' || c == '-' || c == '.' || c == ':'

def word : Reader Value := fun cs =>
  let word := cs.takeWhile isScalar
  let value := match String.ofList word with
    | "true" => some (Value.boolean true)
    | "false" => some (.boolean false)
    | _ => if Number.isFloat word then some .float else (Number.integer? word).map .integer
  value.map (·, cs.dropWhile isScalar)

def scalar : Reader Value := fun cs =>
  match Date.skipDate? cs with
  | some rest => some (.date, rest)
  | none => word cs

/-! ### Values -/

mutual

/-- A value in which brackets and braces nest at most `depth` deep. -/
def value : (fuel depth : Nat) → Reader Value
  | 0, _, _ => none
  | fuel + 1, depth, cs =>
    match cs with
    | '"' :: '"' :: '"' :: rest =>
      (tripledBasicFrom false [] (skipLineEnd rest)).map fun (s, rest) => (.string s, rest)
    | '"' :: rest => (basicFrom [] rest).map fun (s, rest) => (.string s, rest)
    | '\'' :: '\'' :: '\'' :: rest =>
      (tripledLiteralFrom [] (skipLineEnd rest)).map fun (s, rest) => (.string s, rest)
    | '\'' :: rest => (literalFrom [] rest).map fun (s, rest) => (.string s, rest)
    | '[' :: rest =>
      match depth with
      | 0 => none
      | depth + 1 =>
        (items fuel depth [] rest).map fun (done, rest) => (.array done.reverse, rest)
    | '\x7b' :: rest =>
      match depth, skipBlanks rest with
      | 0, _ => none
      | _ + 1, '\x7d' :: rest => some (.table .inline [], rest)
      | depth + 1, rest =>
        (members fuel depth [] rest).map fun (entries, rest) => (.table .inline entries, rest)
    | cs => scalar cs

/-- The rest of an array; `done` holds its items, the last one first. -/
def items : (fuel depth : Nat) → (done : List Value) → Reader (List Value)
  | 0, _, _, _ => none
  | fuel + 1, depth, done, cs =>
    match skipLines false cs with
    | ']' :: rest => some (done, rest)
    | cs =>
      (value fuel depth cs).bind fun (v, rest) =>
        match skipLines false rest with
        | ',' :: rest => items fuel depth (v :: done) rest
        | ']' :: rest => some (v :: done, rest)
        | _ => none

/-- The members of a table between braces, added to `entries`. -/
def members : (fuel depth : Nat) → (entries : Entries) → Reader Entries
  | 0, _, _, _ => none
  | fuel + 1, depth, entries, cs =>
    (key cs).bind fun ((path, last), rest) =>
      match skipBlanks rest with
      | '=' :: rest =>
        (value fuel depth (skipBlanks rest)).bind fun (v, rest) =>
          (entries.setInline? path last v).bind fun entries =>
            match skipBlanks rest with
            | ',' :: rest => members fuel depth entries (skipBlanks rest)
            | '\x7d' :: rest => some (entries, rest)
            | _ => none
      | _ => none

end

/-! ### Documents -/

/-- A header, after its brackets, and the line's end. -/
def header (closing : List Char) : Reader (List String × String) := fun cs =>
  (key (skipBlanks cs)).bind fun (named, rest) =>
    let rest := skipBlanks rest
    if closing.isPrefixOf rest then
      (finishLine? (rest.drop closing.length)).map (named, ·)
    else none

/-- One line of a document, or more when a value extends over them. -/
def line? (d : Document) (cs : List Char) : Option (Document × List Char) :=
  match skipBlanks cs with
  | '[' :: '[' :: rest =>
    (header [']', ']'] rest).bind fun ((path, last), rest) =>
      (d.openElement? path last).map (·, rest)
  | '[' :: rest =>
    (header [']'] rest).bind fun ((path, last), rest) => (d.openTable? path last).map (·, rest)
  | cs =>
    match finishLine? cs with
    | some rest => some (d, rest)
    | none =>
      (key cs).bind fun ((path, last), rest) =>
        match skipBlanks rest with
        | '=' :: rest =>
          (value (2 * rest.length + 2) (depthBound - 1) (skipBlanks rest)).bind fun (v, rest) =>
            (finishLine? rest).bind fun rest => (d.set? path last v).map (·, rest)
        | _ => none

def lines : (fuel : Nat) → Document → List Char → Option Document
  | _, d, [] => some d
  | 0, _, _ :: _ => none
  | fuel + 1, d, cs => (line? d cs).bind fun (d, rest) => lines fuel d rest

end Reader

/-- The entries of a document. -/
def read? (source : String) : Option Entries :=
  let cs := match source.toList with
    | '\ufeff' :: rest => rest
    | cs => cs
  (Reader.lines (cs.length + 1) {} cs).map (·.entries)

end SasLayout.Toml
