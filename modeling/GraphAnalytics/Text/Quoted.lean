/-
# Quoted text

A text in double quotes in which every character can be seen: quotes and backslashes are escaped,
the common control characters have short escapes, and other invisible characters are written by
number.
-/

import GraphAnalytics.Text.Invisible

namespace GraphAnalytics.Text

/-- How a character is written between double quotes. -/
def escape (c : Char) : List Char :=
  match c with
  | '"' => ['\\', '"']
  | '\\' => ['\\', '\\']
  | '\n' => ['\\', 'n']
  | '\r' => ['\\', 'r']
  | '\t' => ['\\', 't']
  | '\x00' => ['\\', '0']
  | c => if isInvisible c then ['\\', 'u', '\x7b'] ++ Nat.toDigits 16 c.toNat ++ ['\x7d'] else [c]

def quoted (text : String) : String :=
  String.ofList ('"' :: text.toList.flatMap escape ++ ['"'])

end GraphAnalytics.Text
