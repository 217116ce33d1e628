import LoxLang.Number.Format

/-!
# JSON documents

Documents as trees, and their indented text.
-/

namespace LoxLang

inductive Document
  | null
  | natural (n : Nat)
  | number (x : Float)
  | bool (b : Bool)
  | string (s : String)
  | array (items : List Document)
  | object (fields : List (String × Document))

namespace Document

/-- Shortest digits; positional from 1e-5 to below 1e16, whole numbers with one decimal. There is
no infinity and no undefined number in JSON. -/
def numberFormat : NumberFormat where
  fullBelow := some (powerOfTen 16)
  fullSuffix := ".0"
  tie := .even
  positional := some (-5, 16)
  infinite := "null"
  notANumber := "null"

/-- Two lower-case hexadecimal digits. -/
def hexByte (n : Nat) : List Char :=
  [Nat.digitChar (n / 16 % 16), Nat.digitChar (n % 16)]

/-- A character inside a string. Quotes, backslashes and control characters are escaped. -/
def escapeChar (c : Char) : List Char :=
  match c with
  | '"' => ['\\', '"']
  | '\\' => ['\\', '\\']
  | '\x08' => ['\\', 'b']
  | '\x0c' => ['\\', 'f']
  | '\n' => ['\\', 'n']
  | '\r' => ['\\', 'r']
  | '\t' => ['\\', 't']
  | c => if c.toNat < 0x20 then ['\\', 'u', '0', '0'] ++ hexByte c.toNat else [c]

def quote (s : String) : String :=
  String.ofList ('"' :: s.toList.flatMap escapeChar ++ ['"'])

/-- A new line and the indentation of this depth. -/
def newline (depth : Nat) : String := "\n" ++ String.ofList (List.replicate (2 * depth) ' ')

mutual

/-- The text of a document inside `depth` brackets. -/
def prettyAt (depth : Nat) : Document → String
  | null => "null"
  | natural n => digitsOf n
  | number x => numberFormat.write x
  | bool b => if b then "true" else "false"
  | string s => quote s
  | array [] => "[]"
  | array (first :: rest) =>
    "[" ++ newline (depth + 1) ++ first.prettyAt (depth + 1) ++ itemsAt (depth + 1) rest
      ++ newline depth ++ "]"
  | object [] => "\x7b\x7d"
  | object ((key, value) :: rest) =>
    "\x7b" ++ newline (depth + 1) ++ quote key ++ ": " ++ value.prettyAt (depth + 1)
      ++ fieldsAt (depth + 1) rest ++ newline depth ++ "\x7d"

/-- The items of an array after its first. -/
def itemsAt (depth : Nat) : List Document → String
  | [] => ""
  | d :: rest => "," ++ newline depth ++ d.prettyAt depth ++ itemsAt depth rest

/-- The fields of an object after its first. -/
def fieldsAt (depth : Nat) : List (String × Document) → String
  | [] => ""
  | (key, value) :: rest =>
    "," ++ newline depth ++ quote key ++ ": " ++ value.prettyAt depth ++ fieldsAt depth rest

end

/-- The document over several lines, two spaces to a level. -/
def pretty (d : Document) : String := d.prettyAt 0

end Document

end LoxLang
