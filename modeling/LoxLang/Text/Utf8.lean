import LoxLang.Number.Format

/-!
# UTF-8

`Utf8.decode` reads bytes as characters, or tells where and how they fail to be any. A character's
first byte fixes how many bytes follow it and what range each of them is in.
-/

namespace LoxLang.Utf8

/-- Where bytes stop being characters: the index at which the bad sequence starts, and how many
bytes belong to it; `none` if the bytes end in its middle. -/
structure Fault where
  index : Nat
  length : Option Nat
  deriving DecidableEq, Repr

def Fault.message (f : Fault) : String :=
  match f.length with
  | some n => "invalid utf-8 sequence of " ++ digitsOf n ++ " bytes from index " ++ digitsOf f.index
  | none => "incomplete utf-8 byte sequence from index " ++ digitsOf f.index

/-- How a reader of text words that its bytes are no characters. -/
def notText : String := "stream did not contain valid UTF-8"

/-- The bytes that a character still needs, each with its range. -/
abbrev Owed : Type := List (Nat × Nat)

/-- Any byte that goes on with a character. -/
def tail : Nat × Nat := (0x80, 0xBF)

/-- What the first byte of a character gives of its code point, and the bytes it calls for. -/
def lead (b : Nat) : Option (Nat × Owed) :=
  if b ≤ 0x7F then some (b, [])
  else if b < 0xC2 then none
  else if b ≤ 0xDF then some (b - 0xC0, [tail])
  else if b = 0xE0 then some (0, [(0xA0, 0xBF), tail])
  else if b = 0xED then some (0xD, [(0x80, 0x9F), tail])
  else if b ≤ 0xEF then some (b - 0xE0, [tail, tail])
  else if b = 0xF0 then some (0, [(0x90, 0xBF), tail, tail])
  else if b ≤ 0xF3 then some (b - 0xF0, [tail, tail, tail])
  else if b = 0xF4 then some (4, [(0x80, 0x8F), tail, tail])
  else none

/-- Reads on from the given index, `seen` bytes into a character of which `value` is known. -/
def decodeFrom (index seen value : Nat) : Owed → List UInt8 → Except Fault (List Char)
  | [], [] => .ok []
  | _ :: _, [] => .error ⟨index - seen, none⟩
  | [], b :: rest =>
    match lead b.toNat with
    | none => .error ⟨index, some 1⟩
    | some (value, []) => do
      return Char.ofNat value :: (← decodeFrom (index + 1) 0 0 [] rest)
    | some (value, owed) => decodeFrom (index + 1) 1 value owed rest
  | (low, high) :: owed, b :: rest =>
    if low ≤ b.toNat ∧ b.toNat ≤ high then
      let value := value * 64 + b.toNat % 64
      match owed with
      | [] => do return Char.ofNat value :: (← decodeFrom (index + 1) 0 0 [] rest)
      | _ => decodeFrom (index + 1) (seen + 1) value owed rest
    else .error ⟨index - seen, some seen⟩

def decode (bytes : List UInt8) : Except Fault String := do
  return String.ofList (← decodeFrom 0 0 0 [] bytes)

end LoxLang.Utf8
