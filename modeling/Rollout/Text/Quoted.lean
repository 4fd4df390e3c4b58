import Rollout.Text.Unprintable
/-!
Quoted names.  A name is put between double quotes so that every character of it shows: the usual short escapes for a
tab, the line ends, NUL, the quote and the backslash, and the code point in hexadecimal digits for what does not print.

The digits are in lower case and without leading zeros.  An apostrophe stands as it is, since it needs no escape between
double quotes.  Which characters do not print is a table of ranges in a module of its own.
-/
namespace Rollout.Text

def hexDigits (n : Nat) : String := String.ofList (Nat.toDigits 16 n)

def escapeChar (c : Char) : String :=
  match c with
  | '\x00' => "\\0"
  | '\t' => "\\t"
  | '\r' => "\\r"
  | '\n' => "\\n"
  | '\\' => "\\\\"
  | '"' => "\\\""
  | c => if isUnprintable c then "\\u\x7b" ++ hexDigits c.toNat ++ "\x7d" else c.toString

def quote (name : String) : String := "\"" ++ String.join (name.toList.map escapeChar) ++ "\""

end Rollout.Text
