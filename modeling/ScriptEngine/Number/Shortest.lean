import ScriptEngine.Number.Binary64

/-!
This module contains the choice of the decimal digits of a floating point number: the fewest digits
that read back as the number, and of those the nearest.
-/

namespace ScriptEngine

/-- The decimal number `digits * 10 ^ exponent`. -/
structure DigitRow where
  digits : Nat
  exponent : Int
deriving DecidableEq, Inhabited

namespace DigitRow

def trim.go : Nat → DigitRow → DigitRow
  | 0, row => row
  | fuel + 1, row =>
    if row.digits != 0 && row.digits % 10 == 0 then
      go fuel ⟨row.digits / 10, row.exponent + 1⟩
    else
      row

/-- The same number without zeros at the end of its digits. -/
def trim (row : DigitRow) : DigitRow := trim.go row.digits.log2.succ row

/--
The order of `digits * 10 ^ e` and `m * 2 ^ q`.
-/
def order (digits : Nat) (e : Int) (m : Nat) (q : Int) : Ordering :=
  compare (digits * tenPow e.toNat * twoPow (-q).toNat) (m * twoPow q.toNat * tenPow (-e).toNat)

/--
The integer part of `m * 2 ^ q / 10 ^ e`.
-/
def below (m : Nat) (q e : Int) : Nat :=
  m * twoPow q.toNat * tenPow (-e).toNat / (tenPow e.toNat * twoPow (-q).toNat)

/--
The numbers that are read as one floating point number lie between `low * 2 ^ exponent` and
`high * 2 ^ exponent`, around `middle * 2 ^ exponent`. The ends belong to them if `closed`.
-/
structure Interval where
  low : Nat
  middle : Nat
  high : Nat
  exponent : Int
  closed : Bool

/-- The interval of the number `m * 2 ^ q`. -/
def Interval.of (m : Nat) (q : Int) : Interval where
  low := if m = Binary64.hiddenBit ∧ q ≠ Binary64.leastExponent then 4 * m - 1 else 4 * m - 2
  middle := 4 * m
  high := 4 * m + 2
  exponent := q - 2
  closed := m % 2 == 0

/-- Whether the interval has the number `digits * 10 ^ e`. -/
def Interval.contains (i : Interval) (digits : Nat) (e : Int) : Bool :=
  let fromLow := order digits e i.low i.exponent
  let fromHigh := order digits e i.high i.exponent
  (fromLow == .gt || i.closed && fromLow == .eq) && (fromHigh == .lt || i.closed && fromHigh == .eq)

/--
The member of the interval on the grid of multiples of `10 ^ e` that is nearest to the middle. Of
two that are equally near the greater one is taken.
-/
def Interval.pick? (i : Interval) (e : Int) : Option DigitRow :=
  let down := below i.middle i.exponent e
  match i.contains down e, i.contains (down + 1) e with
  | false, false => none
  | true, false => some ⟨down, e⟩
  | false, true => some ⟨down + 1, e⟩
  | true, true =>
    if order (2 * down + 1) e (2 * i.middle) i.exponent == .gt then some ⟨down, e⟩
    else some ⟨down + 1, e⟩

def shortest.go (i : Interval) : Nat → Int → DigitRow
  | 0, e => ⟨below i.middle i.exponent e, e⟩
  | fuel + 1, e =>
    match i.pick? e with
    | some row => row
    | none => go i fuel (e - 1)

/--
The shortest digits that read back as `m * 2 ^ q`. Grids are tried from the coarsest on, starting
above the number itself; seventeen digits are always enough.
-/
def shortest (m : Nat) (q : Int) : DigitRow :=
  let top : Int := ((Binary64.bitLength m : Int) + q) * 30103 / 100000 + 1
  (shortest.go (.of m q) 20 top).trim

end DigitRow

end ScriptEngine
