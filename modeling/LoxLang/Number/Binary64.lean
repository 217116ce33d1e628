/-!
# Doubles as exact numbers

* `Binary64.ofFloat`: a double taken apart into sign, mantissa and power of two;
* `Binary64.whole?`: its magnitude, when that is a whole number;
* `nearestBits`, `nearestDouble`: the double closest to a quotient of naturals or to a decimal
  numeral, ties to even.
-/

namespace LoxLang

def powerOfTwo (k : Nat) : Nat := Nat.pow 2 k

def powerOfTen (k : Nat) : Nat := Nat.pow 10 k

/-- What a double stands for. A finite one is `mantissa * 2 ^ exponent`, with its sign. -/
inductive Binary64
  | finite (negative : Bool) (mantissa : Nat) (exponent : Int)
  | infinite (negative : Bool)
  | notANumber
  deriving DecidableEq, Repr

namespace Binary64

/-- The smallest exponent of a finite double. -/
def minExponent : Int := -1074

/-- The mantissas of normal doubles start here. -/
def hiddenBit : Nat := powerOfTwo 52

def ofBits (bits : UInt64) : Binary64 :=
  let negative := bits.toNat.testBit 63
  let field := bits.toNat / hiddenBit % 2048
  let fraction := bits.toNat % hiddenBit
  if field = 2047 then
    if fraction = 0 then .infinite negative else .notANumber
  else if field = 0 then .finite negative fraction minExponent
  else .finite negative (hiddenBit + fraction) (minExponent + (field - 1 : Nat))

def ofFloat (x : Float) : Binary64 := ofBits x.toBits

/-- The magnitude of a finite double that has no fractional part. -/
def whole? : Binary64 → Option Nat
  | .finite _ m (.ofNat k) => some (m * powerOfTwo k)
  | .finite _ m (.negSucc k) =>
    let scale := powerOfTwo (k + 1)
    if m % scale = 0 then some (m / scale) else none
  | _ => none

end Binary64

/-- `num / den` rounded to a whole number, a half going to the even neighbour. -/
def roundHalfEven (num den : Nat) : Nat :=
  let below := num / den
  let twice := 2 * (num % den)
  if twice < den then below
  else if den < twice then below + 1
  else below + below % 2

/-- The power of two at or below `num / den`, as its exponent. -/
def floorLog2 (num den : Nat) : Int :=
  let guess : Int := (num.log2 : Int) - den.log2
  if den * powerOfTwo guess.toNat ≤ num * powerOfTwo (-guess).toNat then guess else guess - 1

/-- The bits of the double nearest to `num / den`; a quotient too large for every finite
double gives infinity. -/
def nearestBits (num den : Nat) : UInt64 :=
  if num = 0 then 0
  else
    let exponent := max (floorLog2 num den - 52) Binary64.minExponent
    let mantissa :=
      roundHalfEven (num * powerOfTwo (-exponent).toNat) (den * powerOfTwo exponent.toNat)
    let bits := (exponent - Binary64.minExponent).toNat * Binary64.hiddenBit + mantissa
    (min bits (2047 * Binary64.hiddenBit)).toUInt64

/-- The double nearest to `digits / 10 ^ places`. -/
def nearestDouble (digits places : Nat) : Float :=
  Float.ofBits (nearestBits digits (powerOfTen places))

end LoxLang
