import ScriptEngine.Number.Power

/-!
This module contains decimal numbers of any size: an integer mantissa and a scale, which counts the
places after the point and may be negative. Equal numbers may have different scales, and the
operations fix the scale of their result.
-/

namespace ScriptEngine

/-- The number `mantissa * 10 ^ -scale`. -/
structure Decimal where
  mantissa : Int
  scale : Int
deriving DecidableEq, Inhabited

namespace Decimal

def ofInt (value : Int) : Decimal := ⟨value, 0⟩

def isZero (x : Decimal) : Bool := x.mantissa == 0

/-- The number of decimal digits of a number; zero has one. -/
def digitCount (n : Nat) : Nat := (Nat.toDigits 10 n).length

/-- The number of digits of the mantissa. -/
def digits (x : Decimal) : Nat := digitCount x.mantissa.natAbs

/-- The mantissa of the same number at another scale. Places that are lost are cut off. -/
def mantissaAt (x : Decimal) (scale : Int) : Int :=
  if x.scale ≤ scale then
    x.mantissa * tenPow (scale - x.scale).toNat
  else
    Int.tdiv x.mantissa (tenPow (x.scale - scale).toNat)

/-- The number at another scale, truncated toward zero. -/
def withScale (x : Decimal) (scale : Int) : Decimal := ⟨x.mantissaAt scale, scale⟩

/-- The order of two numbers by their mantissas at the same scale. -/
def alignedOrder (a b : Decimal) : Ordering :=
  let scale := max a.scale b.scale
  compare (a.mantissaAt scale) (b.mantissaAt scale)

/-- The place of the first digit: a number that is not zero is below `10 ^ lead` in size. -/
def lead (x : Decimal) : Int := x.digits - x.scale

/--
The order of two numbers by value. Only numbers that begin at the same place are brought to the same
scale, so the order of a huge and a tiny number is found without writing them out.
-/
def order (a b : Decimal) : Ordering :=
  match compare a.mantissa.sign b.mantissa.sign with
  | .eq =>
    if a.isZero then .eq
    else if a.lead = b.lead then alignedOrder a b
    else if a.mantissa < 0 then compare b.lead a.lead
    else compare a.lead b.lead
  | unlike => unlike

/-- Whether two numbers have the same value. -/
def same (a b : Decimal) : Bool := a.order b == .eq

/-- Whether there are no places after the point but zeros. -/
def isIntegral (x : Decimal) : Bool :=
  x.scale ≤ 0 || Int.tmod x.mantissa (tenPow x.scale.toNat) == 0

def normalized.go : Nat → Decimal → Decimal
  | 0, x => x
  | fuel + 1, x =>
    if Int.tmod x.mantissa 10 == 0 then go fuel ⟨Int.tdiv x.mantissa 10, x.scale - 1⟩ else x

/-- The same number without zeros at the end of its mantissa. -/
def normalized (x : Decimal) : Decimal :=
  if x.mantissa = 0 then ⟨0, 0⟩ else normalized.go x.digits x

def neg (x : Decimal) : Decimal := ⟨-x.mantissa, x.scale⟩

/-- How many places a zero adds to the number that it is added to, at most. -/
def zeroPlaces : Int := 15

/-- The sum of a number and a zero: the number with some of the zero's places. -/
def addZero (x zero : Decimal) : Decimal :=
  x.withScale (x.scale + min (max (zero.scale - x.scale) 0) zeroPlaces)

/-- The sum, exact at the larger scale. A zero gives way to the other operand. -/
def add (a b : Decimal) : Decimal :=
  if b.isZero then a.addZero b
  else if a.isZero then b.addZero a
  else
    let scale := max a.scale b.scale
    ⟨a.mantissaAt scale + b.mantissaAt scale, scale⟩

/-- The difference, exact at the larger scale. -/
def sub (a b : Decimal) : Decimal :=
  let scale := max a.scale b.scale
  ⟨a.mantissaAt scale - b.mantissaAt scale, scale⟩

/-- The most places with which a one is still taken for a plain one. -/
def unitPlaces : Int := 38

/-- Whether the number is a one, written with at most `unitPlaces` places. -/
def isUnit (x : Decimal) : Bool :=
  0 ≤ x.scale && x.scale ≤ unitPlaces && x.mantissa == tenPow x.scale.toNat

/--
The product. A factor that is a plain one leaves the other factor, without zeros at its end; the
places of any other factors add up.
-/
def mul (a b : Decimal) : Decimal :=
  if a.isUnit then b.normalized
  else if b.isUnit then a.normalized
  else ⟨a.mantissa * b.mantissa, a.scale + b.scale⟩

/-- The remainder of a division truncated toward zero, at the larger scale. -/
def mod (a b : Decimal) : Decimal :=
  let scale := max a.scale b.scale
  ⟨Int.tmod (a.mantissaAt scale) (b.mantissaAt scale), scale⟩

/--
The number with all but the first `precision` digits dropped. A positive number is rounded by the
first digit that is dropped, a negative one is cut off.
-/
def cut (x : Decimal) (precision : Nat) : Decimal :=
  let extra := x.digits - precision
  let kept := Int.tdiv x.mantissa (tenPow extra)
  let next := Int.tdiv x.mantissa (tenPow (extra - 1)) - 10 * kept
  ⟨if 5 ≤ next then kept + 1 else kept, x.scale - extra⟩

/-- What the rounding and the division of decimal numbers ask of the arithmetic that they are built on. -/
structure Arithmetic where
  digits (x : Decimal) : Nat
  normalized (x : Decimal) : Decimal
  withScale (x : Decimal) (scale : Int) : Decimal
  cut (x : Decimal) (precision : Nat) : Decimal

namespace Arithmetic

variable (arith : Arithmetic)

/-- The number rounded to at most `precision` digits. -/
def round (precision : Nat) (x : Decimal) : Decimal :=
  if precision < arith.digits x then arith.cut x precision else x

/-- Whole quotients are written without an exponent. -/
def nonnegativeScale (x : Decimal) : Decimal := if x.scale < 0 then arith.withScale x 0 else x

/-- The most places that a dividend gets. They are counted in 32 bits. -/
def mostPlaces : Nat := 0xffffffff

/-- How many places a dividend gets before it is divided. -/
def divPlaces (precision : Nat) (a b : Decimal) : Nat :=
  min ((precision : Int) + arith.digits b - arith.digits a + 2).toNat mostPlaces

/--
The quotient with the places that are formed, and none after them. Its scale is formed with words, so it
wraps around where it does not fit.
-/
def longQuotient (precision : Nat) (a b : Decimal) : Decimal :=
  let places := arith.divPlaces precision a b
  { mantissa := Int.tdiv (a.mantissa * tenPow places) b.mantissa
    scale := (Int64.ofInt a.scale - Int64.ofInt b.scale + Int64.ofNat places).toInt }

/-- The quotient by a number that is not zero, to `precision` digits. -/
def div (precision : Nat) (a b : Decimal) : Decimal :=
  arith.round precision (arith.nonnegativeScale (arith.normalized (arith.longQuotient precision a b)))

end Arithmetic

/-- The arithmetic of this module. -/
def arithmetic : Arithmetic := ⟨digits, normalized, withScale, cut⟩

/-- The number rounded to at most `precision` digits. -/
def round (precision : Nat) (x : Decimal) : Decimal := arithmetic.round precision x

/-- The quotient by a number that is not zero, to `precision` digits. -/
def div (precision : Nat) (a b : Decimal) : Decimal := arithmetic.div precision a b

def powNat.go (precision : Nat) (acc square : Decimal) (exponent : Nat) : Decimal :=
  if exponent = 0 then
    acc
  else
    let acc := if exponent % 2 = 1 then round precision (acc.mul square) else acc
    go precision acc (round precision (square.mul square)) (exponent / 2)
termination_by exponent

/-- The power to a whole number, every step rounded to `precision` digits. -/
def powNat (precision : Nat) (base : Decimal) (exponent : Nat) : Decimal :=
  powNat.go precision (ofInt 1) base exponent

/-- The power to an integer. A negative power of zero is zero. -/
def powInt (precision : Nat) (base : Decimal) (exponent : Int) : Decimal :=
  let power := powNat precision base exponent.natAbs
  if exponent < 0 ∧ !power.isZero then div precision (ofInt 1) power else power

end Decimal

end ScriptEngine
