import LoxLang.Number.Shortest

/-!
# Writing doubles

`NumberFormat` collects the decisions of one written form: which whole numbers are written in
full, which decimal exponents stay positional, how ties go. `NumberFormat.write` applies them.
-/

namespace LoxLang

/-- One way to write a double. -/
structure NumberFormat where
  /-- Whole numbers of a magnitude below this are written with all their digits. -/
  fullBelow : Option Nat
  /-- What follows a whole number written in full. -/
  fullSuffix : String
  /-- Where a value halfway between two shortest decimals goes. -/
  tie : Tie
  /-- Values of a leading digit at one of these powers of ten, the second excluded, are written
  without an exponent; `none` writes every value so. -/
  positional : Option (Int × Int)
  infinite : String
  notANumber : String

/-- The digits of a natural number in base ten. -/
def digitsOf (n : Nat) : String := String.ofList (Nat.toDigits 10 n)

namespace Decimal

/-- The power of ten of the leading digit. -/
def leading (d : Decimal) : Int := d.exponent + (Nat.toDigits 10 d.digits).length - 1

/-- All digits, with the point where it belongs and zeros up to it. -/
def positional (d : Decimal) : String :=
  let ds := Nat.toDigits 10 d.digits
  match d.exponent with
  | .ofNat k => String.ofList (ds ++ List.replicate k '0')
  | .negSucc k =>
    let places := k + 1
    if places < ds.length then
      String.ofList (ds.take (ds.length - places) ++ '.' :: ds.drop (ds.length - places))
    else
      String.ofList ('0' :: '.' :: List.replicate (places - ds.length) '0' ++ ds)

/-- One digit, the point if more follow, and the exponent with its sign. -/
def scientific (d : Decimal) : String :=
  let mantissa :=
    match Nat.toDigits 10 d.digits with
    | [] => []
    | [c] => [c]
    | c :: rest => c :: '.' :: rest
  let sign := if d.leading < 0 then "-" else "+"
  String.ofList mantissa ++ "e" ++ sign ++ digitsOf d.leading.natAbs

end Decimal

namespace NumberFormat

/-- The magnitude `m * 2 ^ q` in digits. -/
def writeFinite (f : NumberFormat) (m : Nat) (q : Int) : String :=
  let full? := (Binary64.finite false m q).whole?.filter fun n => f.fullBelow.all (n < ·)
  match full? with
  | some n => digitsOf n ++ f.fullSuffix
  | none =>
    let d := shortest f.tie m q
    match f.positional with
    | none => d.positional
    | some (low, high) =>
      if low ≤ d.leading ∧ d.leading < high then d.positional else d.scientific

def write (f : NumberFormat) (x : Float) : String :=
  let signed (negative : Bool) (text : String) := if negative then "-" ++ text else text
  match Binary64.ofFloat x with
  | .finite negative m q => signed negative (f.writeFinite m q)
  | .infinite negative => signed negative f.infinite
  | .notANumber => f.notANumber

/-- Digits and at most a point, whatever the size. -/
def plain (fullBelow : Option Nat) (fullSuffix : String) : NumberFormat :=
  { fullBelow, fullSuffix, tie := .up, positional := none, infinite := "inf", notANumber := "NaN" }

end NumberFormat

end LoxLang
