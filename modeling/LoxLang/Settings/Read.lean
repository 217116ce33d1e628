import LoxLang.Action
import LoxLang.Settings

/-!
# Reading settings

`Settings.read` takes a JSON object whose only key is the call depth, or an array whose only item
is; what is missing keeps its default. The text is read from front to back, and the first fault
counts.
-/

namespace LoxLang

namespace SettingsText

/-- Actions on the characters still to read. -/
abbrev Reader (α : Type) : Type := Action SettingsFault (List Char) α

/-- Space between the parts of a JSON text. -/
def isBlank (c : Char) : Bool := c == ' ' || c == '\n' || c == '\t' || c == '\r'

def isDigit (c : Char) : Bool := '0' ≤ c && c ≤ '9'

def digitValue (c : Char) : Nat := c.toNat - '0'.toNat

def peek : Reader (Option Char) := fun cs => .ok cs.head? cs

def skip : Reader Unit := Action.modify List.tail

/-- The next character, taken. -/
def next : Reader (Option Char) := fun cs => .ok cs.head? cs.tail

def skipBlanks : Reader Unit := Action.modify (List.dropWhile isBlank)

/-- The next character that is not blank, not taken. -/
def peekBehindBlanks : Reader (Option Char) := do
  skipBlanks
  peek

/-- A fault at the next character, which counts as read. -/
def failNext {α : Type} (fault : SettingsFault) : Reader α := fun cs => .error fault cs.tail

/-- The digits that come next, taken. -/
def digits : Reader (List Char) := fun cs => .ok (cs.takeWhile isDigit) (cs.dropWhile isDigit)

/-! ### Numbers -/

/-- Appends digits to a number as long as it stays below 2^64; the digits left over come back. -/
def absorb (n : Nat) : List Char → Nat × List Char
  | [] => (n, [])
  | c :: rest =>
    let longer := 10 * n + digitValue c
    if longer < powerOfTwo 64 then absorb longer rest else (n, c :: rest)

inductive Numeral
  | natural (n : Nat)
  | negative (n : Nat)
  | number (x : Float)

def Numeral.misfit : Numeral → Misfit
  | natural n => .natural n
  | negative n => .negative n
  | number x => .number x

def signed (negative : Bool) (x : Float) : Numeral := .number (if negative then -x else x)

/-- The greatest power of ten that is a double. -/
def maxPower : Nat := 308

/-- Divides by a power of ten, in steps that stay finite. -/
def scaleDown : Nat → Float → Nat → Float
  | 0, _, _ => 0
  | steps + 1, x, power =>
    if power ≤ maxPower then x / nearestDouble (powerOfTen power) 0
    else scaleDown steps (x / nearestDouble (powerOfTen maxPower) 0) (power - maxPower)

/-- The double `n * 10 ^ exponent`, unless it is infinite. -/
def scaled (negative : Bool) (n : Nat) (exponent : Int) : Reader Numeral :=
  let x := nearestDouble n 0
  if exponent < 0 then return signed negative (scaleDown 4 x exponent.natAbs)
  else if n = 0 then return signed negative 0
  else if maxPower < exponent.natAbs then Action.fail .numberOutOfRange
  else
    let y := x * nearestDouble (powerOfTen exponent.natAbs) 0
    if y.isInf then Action.fail .numberOutOfRange else return signed negative y

/-- The exponent of a number, from behind its letter. -/
def exponentPart (negative : Bool) (n : Nat) (exponent : Int) : Reader Numeral := do
  let down ←
    match ← peek with
    | some '+' => skip; pure false
    | some '-' => skip; pure true
    | _ => pure false
  match ← next with
  | none => Action.fail .endInValue
  | some c =>
    if !isDigit c then Action.fail .badNumber
    else
      let power := (c :: (← digits)).foldl (fun p d => 10 * p + digitValue d) 0
      if powerOfTwo 31 ≤ power then
        if n ≠ 0 && !down then Action.fail .numberOutOfRange else return signed negative 0
      else scaled negative n (if down then exponent - power else exponent + power)

/-- The decimals of a number, from behind its point. -/
def fractionPart (negative : Bool) (n : Nat) (exponent : Int) : Reader Numeral := do
  let ds ← digits
  if ds.isEmpty then
    match ← peek with
    | none => Action.fail .endInValue
    | some _ => failNext .badNumber
  else
    let (n, beyond) := absorb n ds
    let exponent := exponent - (ds.length - beyond.length : Nat)
    match ← peek with
    | some 'e' => skip; exponentPart negative n exponent
    | some 'E' => skip; exponentPart negative n exponent
    | _ => scaled negative n exponent

/-- A number of whole digits, or what it turns into by a point or an exponent. -/
def numberTail (negative : Bool) (n : Nat) (beyond : Nat) : Reader Numeral := do
  match ← peek with
  | some '.' => skip; fractionPart negative n beyond
  | some 'e' => skip; exponentPart negative n beyond
  | some 'E' => skip; exponentPart negative n beyond
  | _ =>
    if 0 < beyond then scaled negative n beyond
    else if !negative then return .natural n
    else if n = 0 ∨ powerOfTwo 63 < n then return signed true (nearestDouble n 0)
    else return .negative n

/-- A number, from behind its minus sign. -/
def numeral (negative : Bool) : Reader Numeral := do
  match ← next with
  | none => Action.fail .endInValue
  | some c =>
    if c == '0' then
      if (← peek).any isDigit then failNext .badNumber else numberTail negative 0 0
    else if isDigit c then
      let (n, beyond) := absorb (digitValue c) (← digits)
      numberTail negative n beyond.length
    else Action.fail .badNumber

/-! ### Strings -/

def hexValue? (c : Char) : Option Nat :=
  if isDigit c then some (digitValue c)
  else if 'a' ≤ c && c ≤ 'f' then some (c.toNat - 'a'.toNat + 10)
  else if 'A' ≤ c && c ≤ 'F' then some (c.toNat - 'A'.toNat + 10)
  else none

/-- The bytes of some characters. -/
def byteLength (cs : List Char) : Nat := cs.foldl (fun n c => n + c.utf8Size) 0

/-- The four digits of an escape. -/
def hexEscape : Reader Nat := fun cs =>
  if byteLength cs < 4 then .error .endInString []
  else
    match (cs.take 4).mapM hexValue? with
    | some ds => .ok (ds.foldl (fun n d => 16 * n + d) 0) (cs.drop 4)
    | none => .error .badEscape (cs.drop 4)

/-- Takes a character, which must come next within an escape of two parts. -/
def surrogateMark (c : Char) : Reader Unit := fun cs =>
  match cs with
  | [] => .error .endInString []
  | d :: rest => if d = c then .ok () rest else .error .unfinishedSurrogate rest

/-- The character of an escape by number, which takes two parts beyond the first plane. -/
def unicodeEscape : Reader Char := do
  let n ← hexEscape
  if 0xDC00 ≤ n ∧ n ≤ 0xDFFF then Action.fail .loneSurrogate
  else if n < 0xD800 ∨ 0xDBFF < n then return Char.ofNat n
  else
    surrogateMark '\\'
    surrogateMark 'u'
    let low ← hexEscape
    if low < 0xDC00 ∨ 0xDFFF < low then Action.fail .loneSurrogate
    else return Char.ofNat (0x10000 + (n - 0xD800) * 0x400 + (low - 0xDC00))

/-- The character of an escape, from behind its backslash. -/
def escape : Reader Char := do
  match ← next with
  | none => Action.fail .endInString
  | some '"' => return '"'
  | some '\\' => return '\\'
  | some '/' => return '/'
  | some 'b' => return '\x08'
  | some 'f' => return '\x0c'
  | some 'n' => return '\n'
  | some 'r' => return '\r'
  | some 't' => return '\t'
  | some 'u' => unicodeEscape
  | some _ => Action.fail .badEscape

/-- The characters of a string up to its closing quote. -/
def stringChars : Nat → Reader (List Char)
  | 0 => Action.outOfFuel
  | fuel + 1 => do
    match ← next with
    | none => Action.fail .endInString
    | some '"' => return []
    | some '\\' =>
      let c ← escape
      return c :: (← stringChars fuel)
    | some c =>
      if c.toNat < 0x20 then Action.fail .controlCharacter else return c :: (← stringChars fuel)

/-- A string, from behind its opening quote. -/
def string : Reader String := fun cs =>
  (do return String.ofList (← stringChars (cs.length + 1)) : Reader String) cs

/-! ### Values -/

/-- The rest of a word. -/
def word : List Char → Reader Unit
  | [] => pure ()
  | c :: more => do
    match ← next with
    | none => Action.fail .endInValue
    | some d => if d = c then word more else Action.fail .expectedWord

/-- The kind of value that stands where another is wanted; arrays and objects are not read. -/
def misfit : Reader Misfit := do
  match ← peek with
  | some 'n' => skip; word ['u', 'l', 'l']; return .null
  | some 't' => skip; word ['r', 'u', 'e']; return .bool true
  | some 'f' => skip; word ['a', 'l', 's', 'e']; return .bool false
  | some '-' => skip; return (← numeral true).misfit
  | some '"' => skip; return .string (← string)
  | some '[' => return .array
  | some '\x7b' => return .object
  | some c =>
    if isDigit c then return (← numeral false).misfit else failNext .expectedValue
  | none => failNext .expectedValue

/-- A value that does not fit. -/
def refuseValue {α : Type} (wanted : Wanted) : Reader α := do
  let found ← misfit
  Action.fail (.wrongType found wanted)

/-- A natural number below 2^64. -/
def count : Reader Nat := do
  let accept (n : Numeral) : Reader Nat :=
    match n with
    | .natural n => return n
    | .negative n => Action.fail (.negativeCount n)
    | .number x => Action.fail (.wrongType (.number x) .count)
  match ← peekBehindBlanks with
  | none => Action.fail .endInValue
  | some '-' => skip; accept (← numeral true)
  | some c => if isDigit c then accept (← numeral false) else refuseValue .count

/-- A fault of a key. It counts as read up to what follows the key. -/
def refuseKey {α : Type} (fault : SettingsFault) : Reader α := do
  if (← peekBehindBlanks) == some '\x7d' then skip
  Action.fail fault

/-- A key with its value, where `depth` is what an earlier one gave. -/
def entry (depth : Option Nat) : Reader Nat := do
  skip
  let key ← string
  if key ≠ SettingsFault.knownKey then refuseKey (.unknownKey key)
  else if depth.isSome then refuseKey .repeatedKey
  else
    match ← peekBehindBlanks with
    | none => Action.fail .endInObject
    | some ':' => skip; count
    | some _ => failNext .expectedColon

/-- The entries of an object behind its first, and its closing brace. -/
def entries : Nat → Nat → Reader Nat
  | 0, _ => Action.outOfFuel
  | fuel + 1, depth => do
    match ← peekBehindBlanks with
    | none => Action.fail .endInObject
    | some '\x7d' => skip; return depth
    | some ',' =>
      skip
      match ← peekBehindBlanks with
      | none => Action.fail .endInValue
      | some '"' => entries fuel (← entry (some depth))
      | some '\x7d' => failNext .trailingComma
      | some _ => failNext .keyNotString
    | some _ => failNext .expectedObjectEnd

/-- An object, from behind its opening brace. -/
def object : Reader Settings := fun cs =>
  (do
    match ← peekBehindBlanks with
    | none => Action.fail .endInObject
    | some '\x7d' => skip; return {}
    | some '"' => return { maxCallDepth := ← entries (cs.length + 1) (← entry none) }
    | some _ => failNext .keyNotString : Reader Settings) cs

/-- The end of an array with at most one item. -/
def arrayEnd : Reader Unit := do
  match ← peekBehindBlanks with
  | none => Action.fail .endInArray
  | some ']' => skip
  | some ',' =>
    skip
    match ← peekBehindBlanks with
    | some ']' => failNext .trailingComma
    | _ => failNext .trailingText
  | some _ => failNext .trailingText

/-- An array, from behind its opening bracket. -/
def array : Reader Settings := do
  match ← peekBehindBlanks with
  | none => Action.fail .endInArray
  | some ']' => skip; return {}
  | some _ =>
    let depth ← count
    arrayEnd
    return { maxCallDepth := depth }

/-- A whole text. -/
def settings : Reader Settings := do
  let s ←
    match ← peekBehindBlanks with
    | none => Action.fail .endInValue
    | some '[' => skip; array
    | some '\x7b' => skip; object
    | some _ => refuseValue .settings
  match ← peekBehindBlanks with
  | none => return s
  | some _ => failNext .trailingText

/-- The line of the place behind some characters, and the bytes of that line. -/
def placeBehind (read : List Char) : Nat × Nat :=
  (1 + read.count '\n', byteLength (read.reverse.takeWhile (· != '\n')))

end SettingsText

/-- The settings in a JSON text. -/
def Settings.read (text : String) : Except SettingsError Settings :=
  let cs := text.toList
  let fault (f : SettingsFault) (rest : List Char) : SettingsError :=
    let (line, column) := SettingsText.placeBehind (cs.take (cs.length - rest.length))
    ⟨f, line, column⟩
  match SettingsText.settings cs with
  | .ok s _ => .ok s
  | .error f rest => .error (fault f rest)
  | .outOfFuel => .error (fault .endInValue [])

end LoxLang
