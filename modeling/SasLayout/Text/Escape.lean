import SasLayout.Text.Printable

set_option autoImplicit false

/-! Text on one line: quotes, backslashes, line ends and what cannot be printed are escaped. -/
namespace SasLayout.Text

/-- A character by its number in hexadecimal digits. -/
def escapeNumber (c : Char) : String :=
  "\\u\x7b" ++ String.ofList (Nat.toDigits 16 c.toNat) ++ "\x7d"

/-- A character in escaped form; `first` says that no other stands before it, so that a mark that
combines with the one before has nothing to combine with. -/
def escapeChar (first : Bool) (c : Char) : String :=
  match c with
  | '\x00' => "\\0"
  | '\t' => "\\t"
  | '\r' => "\\r"
  | '\n' => "\\n"
  | '\'' => "\\'"
  | '"' => "\\\""
  | '\\' => "\\\\"
  | c =>
    if first && isExtending c then escapeNumber c
    else if isPrintable c then c.toString
    else escapeNumber c

def escape (s : String) : String :=
  match s.toList with
  | [] => ""
  | c :: rest => rest.foldl (fun done c => done ++ escapeChar false c) (escapeChar true c)

end SasLayout.Text
