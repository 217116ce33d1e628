import LoxLang.Action
import LoxLang.Text.Utf8
import LoxLang.Token.Scan

/-!
# Scanning byte by byte

A scanner that goes through the bytes of a source with an index and yields one item at a time. It
looks ahead by one or two bytes, where it sees a zero behind the end, and cuts texts out of the
source by the indices of their ends. What a source does not allow, to read behind its end or to cut
a character apart, is a slip.

* `ByteScanner`: the bytes and the place in them;
* `string`, `number`, `identifier`, `operator`: what a lexeme goes on with behind its first byte;
* `next`: the next token or fault, then the end of the source, and after that nothing;
* `calls`: what a number of calls in a row yield, with the bytes that each item was read from.
-/

namespace LoxLang

/-- A way to go wrong with the bytes of a source. -/
inductive Slip
  | outOfRange
  | midCharacter
  deriving DecidableEq, Repr

structure ByteScanner where
  bytes : List UInt8
  /-- The first byte of the lexeme that is being read. -/
  start : Nat
  /-- Behind the last byte that was read. -/
  current : Nat
  line : Nat
  /-- The kind of the token that was read, until it is given out. -/
  pending : Option TokenKind

/-- What a scanner yields. -/
inductive Emission
  | token (t : Token)
  | fault (message : String) (line : Nat)
  | ending (lexeme : String) (line : Nat)
  deriving Repr

namespace ByteScanner

open Scanning

abbrev Scans (α : Type) : Type := Action Slip ByteScanner α

def ofSource (source : String) : ByteScanner where
  bytes := source.toUTF8.data.toList
  start := 0
  current := 0
  line := 1
  pending := none

/-- A byte as a character. Those from 128 on are parts of other characters. -/
def ascii (b : UInt8) : Char := Char.ofNat b.toNat

def isAtEnd (s : ByteScanner) : Bool := s.bytes.length ≤ s.current

/-- The byte that comes next, or zero at the end. -/
def peek (s : ByteScanner) : UInt8 := s.bytes.getD s.current 0

/-- The byte behind the next one, or zero. -/
def peekNext (s : ByteScanner) : UInt8 := s.bytes.getD (s.current + 1) 0

def skipBytes (n : Nat) : Scans Unit := Action.modify fun s => { s with current := s.current + n }

/-- Takes the next byte, which must be there. -/
def advance : Scans UInt8 := fun s =>
  match s.bytes[s.current]? with
  | some b => .ok b { s with current := s.current + 1 }
  | none => .error .outOfRange s

/-- Takes the next byte if it is this character. -/
def matchNext (c : Char) : Scans Bool := fun s =>
  if ascii s.peek == c && !s.isAtEnd then .ok true { s with current := s.current + 1 }
  else .ok false s

def countLine : Scans Unit := Action.modify fun s => { s with line := s.line + 1 }

/-- Whether a byte goes on with a character that an earlier one began. -/
def isContinuation (b : UInt8) : Bool := b &&& 0xC0 == 0x80

/-- Whether no character is cut apart before the byte of this index. -/
def isBoundary (bytes : List UInt8) (i : Nat) : Bool :=
  match bytes[i]? with
  | some b => !isContinuation b
  | none => i == bytes.length

/-- The text between two indices. -/
def slice (first last : Nat) : Scans String := fun s =>
  if first ≤ last ∧ last ≤ s.bytes.length then
    if isBoundary s.bytes first && isBoundary s.bytes last then
      match Utf8.decode ((s.bytes.take last).drop first) with
      | .ok text => .ok text s
      | .error _ => .error .midCharacter s
    else .error .midCharacter s
  else .error .outOfRange s

def lexeme : Scans String := fun s => slice s.start s.current s

/-- Takes a step as often as the test holds, but not more often than the fuel allows. -/
def loop (test : ByteScanner → Bool) (step : Scans Unit) : Nat → Scans Unit
  | 0 => Action.outOfFuel
  | fuel + 1 => fun s =>
    if test s then (step >>= fun _ => loop test step fuel) s else .ok () s

/-- Takes a step as often as the test holds. -/
def whileHolds (test : ByteScanner → Bool) (step : Scans Unit) : Scans Unit := fun s =>
  loop test step (s.bytes.length + 1) s

/-- Takes the bytes that the test accepts. -/
def advanceWhile (test : Char → Bool) : Scans Unit :=
  whileHolds (fun s => test (ascii s.peek)) do
    let _ ← advance

/-- Goes on up to the next newline. -/
def skipComment : Scans Unit := fun s =>
  if s.current ≤ s.bytes.length then
    match (s.bytes.drop s.current).findIdx? (ascii · == '\n') with
    | some i => .ok () { s with current := s.current + i }
    | none => .ok () { s with current := s.bytes.length }
  else .error .outOfRange s

/-- The kind of a string literal, from its closing quote. -/
def closeString : Scans TokenKind := do
  let _ ← advance
  let s ← Action.get
  let contents ← slice (s.start + 1) (s.current - 1)
  return .string contents

/-- The kind of a string literal, from behind its opening quote. -/
def string : Scans (Except LexicalFault TokenKind) := do
  whileHolds (fun s => !s.isAtEnd && ascii s.peek != '"') do
    if ascii (← advance) == '\n' then countLine
  let s ← Action.get
  if s.isAtEnd then return .error .unterminatedString else return .ok (← closeString)

/-- The value of digits, perhaps with a point and more digits behind it. -/
def decimalValue (text : List Char) : Float :=
  let whole := text.takeWhile isDigit
  let places := (text.dropWhile isDigit).tail
  nearestDouble (digitsValue (whole ++ places)) places.length

/-- A point and the digits behind it, if there are any. -/
def fraction : Scans Unit := do
  let s ← Action.get
  if ascii s.peek == '.' && isDigit (ascii s.peekNext) then
    let _ ← advance
    advanceWhile isDigit

/-- The kind of a number, from behind its first digit. -/
def number : Scans TokenKind := do
  advanceWhile isDigit
  fraction
  let text ← lexeme
  return .number (decimalValue text.toList)

/-- The kind of a word, from behind its first letter. -/
def identifier : Scans TokenKind := do
  advanceWhile isNamePart
  let text ← lexeme
  return wordKind text.toList

/-- The kind of an operator, from behind its first character. -/
def operator (c : Char) : Scans (Option TokenKind) := do
  match withEqual? c with
  | some longer =>
    if ← matchNext '=' then return some (.symbol longer)
    else return (single? c).map .symbol
  | none => return (single? c).map .symbol

/-- Keeps the kind of a token until it is given out. -/
def settle (kind : TokenKind) : Scans (Option Emission) := do
  Action.modify fun s => { s with pending := some kind }
  return none

def fault (message : String) : Scans (Option Emission) := fun s => .ok (some (.fault message s.line)) s

/-- A character that no lexeme starts with is taken as a whole. -/
def unexpected : Scans (Option Emission) := do
  whileHolds (fun s => isContinuation s.peek) (skipBytes 1)
  let text ← lexeme
  fault ("Unexpected character: " ++ text)

/-- Reads on behind the first byte of a lexeme: blank space, a token, which is kept, or a fault. -/
def scanBehind (c : Char) : Scans (Option Emission) := do
  if isBlank c then
    if c == '\n' then countLine
    return none
  else if c == '/' then
    if ← matchNext '/' then
      skipComment
      return none
    else settle (.symbol .slash)
  else if c == '"' then
    match ← string with
    | .ok kind => settle kind
    | .error f => fault f.message
  else if isDigit c then settle (← number)
  else if isNameStart c then settle (← identifier)
  else
    match ← operator c with
    | some kind => settle kind
    | none => unexpected

/-- Reads on from the start of a lexeme. -/
def scanToken : Scans (Option Emission) := do
  let b ← advance
  scanBehind (ascii b)

/-- At the start of a lexeme. -/
def starting (s : ByteScanner) : ByteScanner := { s with start := s.current, pending := none }

/-- Gives out the token that was kept. -/
def giveOut (kind : TokenKind) : Scans (Option Emission) := do
  Action.modify fun s => { s with pending := none }
  let text ← lexeme
  let s ← Action.get
  return some (.token ⟨kind, text, s.line⟩)

/-- Reads on to the next token or fault, or to the end. -/
def nextWithin : Nat → Scans (Option Emission)
  | 0 => Action.outOfFuel
  | fuel + 1 => do
    let s ← Action.get
    if s.bytes.length < s.current then return none
    else if s.current = s.bytes.length then
      skipBytes 1
      return some (.ending "" s.line)
    else
      Action.modify starting
      match ← scanToken with
      | some emission => return some emission
      | none =>
        let s ← Action.get
        match s.pending with
        | some kind => giveOut kind
        | none => nextWithin fuel

/-- What comes next: a token, a fault or the end of the source; nothing behind that. -/
def next : Scans (Option Emission) := fun s => nextWithin (s.bytes.length + 1) s

/-- What is yielded, and for a token or a fault the indices of the bytes it was read from. -/
def located (emission : Option Emission) (s : ByteScanner) :
    Option Emission × Option (Nat × Nat) :=
  match emission with
  | some (.token _) | some (.fault _ _) => (emission, some (s.start, s.current))
  | _ => (emission, none)

/-- What so many calls in a row yield. -/
def calls : Nat → Scans (List (Option Emission × Option (Nat × Nat)))
  | 0 => pure []
  | n + 1 => do
    let emission ← next
    let s ← Action.get
    let others ← calls n
    return located emission s :: others

end ByteScanner

end LoxLang
