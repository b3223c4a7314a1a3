import ScriptEngine.Number.Power

/-!
This module contains the exact reading of 64 bit floating point numbers: a finite one is an integer
times a power of two, and a fraction is rounded to the nearest of them.
-/

namespace ScriptEngine

/-- A floating point number taken apart. -/
inductive Binary64 where
  | nan
  | infinite (negative : Bool)
  /-- The number `mantissa * 2 ^ exponent`, with its sign. -/
  | finite (negative : Bool) (mantissa : Nat) (exponent : Int)
deriving DecidableEq, Inhabited

namespace Binary64

/-- The first bit of a mantissa, which the bits of a number leave out. -/
def hiddenBit : Nat := 0x10000000000000

/-- The bit of the sign. -/
def signBit : Nat := 0x8000000000000000

/-- The bits of the positive infinity. -/
def infinityBits : Nat := 0x7ff0000000000000

/-- The exponent of the smallest numbers. -/
def leastExponent : Int := -1074

/-- The exponent past which a number is infinite. -/
def greatestExponent : Int := 971

/-- Takes the 64 bits of a number apart. -/
def ofBits (bits : Nat) : Binary64 :=
  let negative := bits / signBit % 2 == 1
  let field : Nat := bits / hiddenBit % 2048
  let fraction : Nat := bits % hiddenBit
  if field == 2047 then
    if fraction == 0 then .infinite negative else .nan
  else if field == 0 then
    .finite negative fraction leastExponent
  else
    .finite negative (hiddenBit + fraction) ((field : Int) - 1075)

def ofFloat (value : Float) : Binary64 := ofBits value.toBits.toNat

/-- The number of bits of a number. -/
def bitLength (n : Nat) : Nat := if n = 0 then 0 else n.log2 + 1

/-- The quotient rounded to the nearest integer, a half to the even one. -/
def divRound (num den : Nat) : Nat :=
  let quotient := num / den
  let twice := 2 * (num % den)
  if twice < den then quotient
  else if den < twice then quotient + 1
  else quotient + quotient % 2

/-- The bits of a number from its mantissa, which has at most 53 bits, and its exponent. -/
def encode (mantissa : Nat) (exponent : Int) : Nat :=
  if mantissa < hiddenBit then
    mantissa
  else if greatestExponent < exponent then
    infinityBits
  else
    (exponent + 1075).toNat * hiddenBit + (mantissa - hiddenBit)

/-- The fraction `num / den` over `2 ^ exponent`, rounded. -/
def scaledRound (num den : Nat) (exponent : Int) : Nat :=
  divRound (num * twoPow (-exponent).toNat) (den * twoPow exponent.toNat)

/-- The bits of the number nearest to the fraction `num / den`, a tie to the even mantissa. -/
def roundRatio (num den : Nat) : Nat :=
  if num = 0 then
    0
  else
    let guess : Int := (bitLength num : Int) - (bitLength den : Int) - 53
    let fits := num * twoPow (-guess).toNat < den * twoPow guess.toNat * (2 * hiddenBit)
    let exponent := max leastExponent (if fits then guess else guess + 1)
    let mantissa := scaledRound num den exponent
    if mantissa = 2 * hiddenBit then encode hiddenBit (exponent + 1) else encode mantissa exponent

/-- The number with the given bits and sign. -/
def toFloat (negative : Bool) (bits : Nat) : Float :=
  Float.ofBits (UInt64.ofNat (if negative then bits + signBit else bits))

/--
The remainder of a division that is truncated toward zero, without rounding. It has the sign of the
dividend.
-/
def remainder (dividend divisor : Float) : Float :=
  match ofFloat dividend, ofFloat divisor with
  | .nan, _ => dividend
  | _, .nan => divisor
  | .infinite _, _ => Float.ofBits 0x7ff8000000000000
  | .finite .., .infinite _ => dividend
  | .finite negative m p, .finite _ n q =>
    if n = 0 then
      Float.ofBits 0x7ff8000000000000
    else
      let low := min p q
      let rest := m * twoPow (p - low).toNat % (n * twoPow (q - low).toNat)
      toFloat negative (roundRatio (rest * twoPow low.toNat) (twoPow (-low).toNat))

end Binary64

end ScriptEngine
