import LoxLang.Text.Unseen

/-!
# Quoted names

File names in messages stand in double quotes, with double quotes, backslashes and characters that
are not seen escaped.
-/

namespace LoxLang.Quoted

/-- The digits of a code point in lower-case hexadecimal. -/
def hex (n : Nat) : List Char := Nat.toDigits 16 n

/-- A character between quotes. -/
def escapeChar (c : Char) : List Char :=
  match c with
  | '\x00' => ['\\', '0']
  | '\t' => ['\\', 't']
  | '\n' => ['\\', 'n']
  | '\r' => ['\\', 'r']
  | '"' => ['\\', '"']
  | '\\' => ['\\', '\\']
  | c => if Text.isSeen c then [c] else ['\\', 'u', '\x7b'] ++ hex c.toNat ++ ['\x7d']

def encode (s : String) : String :=
  String.ofList ('"' :: s.toList.flatMap escapeChar ++ ['"'])

end LoxLang.Quoted
