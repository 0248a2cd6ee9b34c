import Interpolation.Text.Printable

/-!
# Quotations

A text inside an error message is quoted, so that its ends can be seen and nothing in it can be
taken for the message around it.  The double quote and the backslash are escaped by a
backslash; newline, tab, return and the null character have letters of their own; and every
other character that cannot be shown is written by its code point in hexadecimal, between
braces.  A single quote is left alone.
-/

namespace Interpolation
namespace Text

/-- The digits of a number in hexadecimal, in lower case and without padding. -/
def hex (n : Nat) : List Char := Nat.toDigits 16 n

/-- How one character is written inside a quotation. -/
def escape (c : Char) : List Char :=
  match c with
  | '"' => ['\\', '"']
  | '\\' => ['\\', '\\']
  | '\n' => ['\\', 'n']
  | '\t' => ['\\', 't']
  | '\r' => ['\\', 'r']
  | '\x00' => ['\\', '0']
  | c => if isPrintable c then [c] else ['\\', 'u', '\x7b'] ++ hex c.toNat ++ ['\x7d']

/-- A text between double quotes, with every character of it escaped. -/
def quote (s : String) : String :=
  String.ofList (['"'] ++ s.toList.flatMap escape ++ ['"'])

end Text
end Interpolation
