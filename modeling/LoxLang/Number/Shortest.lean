import LoxLang.Number.Binary64

/-!
# The fewest digits that read back

A finite double is the nearest one to every real of an interval around it. `shortest` looks at
decimal grids from coarse to fine and stops at the first that has a point in this interval; the
only candidates on a grid are the two neighbours of the value.
-/

namespace LoxLang

/-- `digits * 10 ^ exponent`. -/
structure Decimal where
  digits : Nat
  exponent : Int
  deriving DecidableEq, Repr

/-- Where a value halfway between two candidates goes. -/
inductive Tie
  | up
  | even
  deriving DecidableEq, Repr

/-- A quotient of naturals with the reals that round to it: `low / den` to `high / den`,
the ends included when `closed`. -/
structure RoundingInterval where
  num : Nat
  low : Nat
  high : Nat
  den : Nat
  closed : Bool
  deriving Repr

namespace RoundingInterval

/-- The interval of `m * 2 ^ q`. The gap below a power of two is half the gap above it, save at
the smallest exponent. -/
def ofDyadic (m : Nat) (q : Int) : RoundingInterval :=
  let scale := powerOfTwo q.toNat
  let below := if m = Binary64.hiddenBit ∧ Binary64.minExponent < q then 1 else 2
  { num := 4 * m * scale
    low := (4 * m - below) * scale
    high := (4 * m + 2) * scale
    den := 4 * powerOfTwo (-q).toNat
    closed := m % 2 = 0 }

/-- Whether `point * 10 ^ e` lies in the interval. -/
def holds (r : RoundingInterval) (point : Nat) (e : Int) : Bool :=
  let p := point * powerOfTen e.toNat * r.den
  let s := powerOfTen (-e).toNat
  if r.closed then r.low * s ≤ p && p ≤ r.high * s else r.low * s < p && p < r.high * s

/-- The exponent of the power of ten at or below `num / den`. -/
def floorLog10 (num den : Nat) : Int :=
  let guess : Int := ((Nat.toDigits 10 num).length : Int) - (Nat.toDigits 10 den).length
  if den * powerOfTen guess.toNat ≤ num * powerOfTen (-guess).toNat then guess else guess - 1

/-- The nearer of the value's two neighbours on the grid `10 ^ e`, if one lies in the interval. -/
def onGrid? (r : RoundingInterval) (tie : Tie) (e : Int) : Option Nat :=
  let num := r.num * powerOfTen (-e).toNat
  let den := r.den * powerOfTen e.toNat
  let below := num / den
  match r.holds below e, r.holds (below + 1) e with
  | false, false => none
  | true, false => some below
  | false, true => some (below + 1)
  | true, true =>
    let twice := 2 * (num % den)
    if twice < den then some below
    else if den < twice then some (below + 1)
    else
      match tie with
      | .up => some (below + 1)
      | .even => some (below + below % 2)

/-- Tries the grids that leave `places`, then `places - 1`, … digits out of the value. -/
def search (r : RoundingInterval) (tie : Tie) : Nat → Int → Decimal
  | 0, e => ⟨r.num * powerOfTen (-e).toNat / (r.den * powerOfTen e.toNat), e⟩
  | tries + 1, e =>
    match r.onGrid? tie e with
    | some digits => ⟨digits, e⟩
    | none => search r tie tries (e - 1)

end RoundingInterval

/-- Divides trailing zeros out of the digits. -/
def Decimal.stripZeros : Nat → Decimal → Decimal
  | 0, d => d
  | steps + 1, d =>
    if d.digits % 10 = 0 then stripZeros steps ⟨d.digits / 10, d.exponent + 1⟩ else d

/-- The shortest decimal that rounds to `m * 2 ^ q`, for a positive `m`; of several, the nearest.
Seventeen digits always suffice. -/
def shortest (tie : Tie) (m : Nat) (q : Int) : Decimal :=
  let r := RoundingInterval.ofDyadic m q
  (r.search tie 17 (RoundingInterval.floorLog10 r.num r.den)).stripZeros 17

end LoxLang
