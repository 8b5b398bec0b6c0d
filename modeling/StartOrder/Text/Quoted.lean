import StartOrder.Text.Printable

/-!
# Quoted text

Paths in error messages stand between double quotes. Double quotes, backslashes and characters
that do not show are escaped, every other character stands for itself.

## Main definitions

* `quoted`: a text between quotes
* `quotedList`: texts between quotes, in brackets
-/

namespace StartOrder.Text

/-- What is written for a character between quotes. -/
def escaped (c : Char) : List Char :=
  match c with
  | '"' => ['\\', '"']
  | '\\' => ['\\', '\\']
  | '\t' => ['\\', 't']
  | '\n' => ['\\', 'n']
  | '\r' => ['\\', 'r']
  | '\x00' => ['\\', '0']
  | _ =>
    if isPrintable c then [c]
    else ['\\', 'u', '\x7b'] ++ Nat.toDigits 16 c.toNat ++ ['\x7d']

/-- A text between quotes. -/
def quoted (s : String) : String :=
  String.ofList ('"' :: s.toList.flatMap escaped ++ ['"'])

/-- Texts between quotes, in brackets and with commas between them. -/
def quotedList (ss : List String) : String :=
  "[" ++ String.intercalate ", " (ss.map quoted) ++ "]"

end StartOrder.Text
