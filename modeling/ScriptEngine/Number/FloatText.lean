import ScriptEngine.Number.Shortest
import ScriptEngine.Number.Word

/-!
This module contains the texts of floating point numbers: the plain one that scripts see, the one
of diagnostics, and the reading of such texts.
-/

namespace ScriptEngine

namespace FloatText

def digitsOf (n : Nat) : List Char := Nat.toDigits 10 n

/-- The digits of a number with the point `places` digits from the right. -/
def withPoint (digits : List Char) (places : Nat) : List Char :=
  if places = 0 then
    digits
  else
    let padded := List.replicate (places + 1 - digits.length) '0' ++ digits
    let whole := padded.length - places
    padded.take whole ++ '.' :: padded.drop whole

/-- The digits of a number written out, without an exponent. -/
def positional (row : DigitRow) : List Char :=
  if 0 ≤ row.exponent then
    digitsOf row.digits ++ List.replicate row.exponent.toNat '0'
  else
    withPoint (digitsOf row.digits) (-row.exponent).toNat

/-- The digits of a number with an exponent, as in `1.5e-7`. -/
def scientific (row : DigitRow) : List Char :=
  let digits := digitsOf row.digits
  let exponent := row.exponent + (digits.length - 1 : Nat)
  withPoint digits (digits.length - 1) ++ 'e' :: (toString exponent).toList

def signed (negative : Bool) (digits : List Char) : String :=
  String.ofList (if negative then '-' :: digits else digits)

/--
The text of a number in scripts: the shortest digits that read back, never with an exponent.
-/
def plain (value : Float) : String :=
  match Binary64.ofFloat value with
  | .nan => "NaN"
  | .infinite negative => if negative then "-Inf" else "+Inf"
  | .finite negative m q => signed negative (if m = 0 then ['0'] else positional (.shortest m q))

/-- Whether diagnostics write a number with an exponent: from 10 ^ 16 on and below 10 ^ -4. -/
def wantsExponent (row : DigitRow) : Bool :=
  let first := row.exponent + ((digitsOf row.digits).length : Int)
  16 < first || first < -3

/-- The text of a number in diagnostics, which always shows that it is no integer. -/
def diagnostic (value : Float) : String :=
  match Binary64.ofFloat value with
  | .nan => "NaN"
  | .infinite negative => if negative then "-inf" else "inf"
  | .finite negative m q =>
    if m = 0 then
      signed negative "0.0".toList
    else
      let row := DigitRow.shortest m q
      if wantsExponent row then signed negative (scientific row)
      else if 0 ≤ row.exponent then signed negative (positional row ++ ".0".toList)
      else signed negative (positional row)

/-- The number nearest to `digits * 10 ^ exponent`. -/
def nearest (negative : Bool) (digits : Nat) (exponent : Int) : Float :=
  let size := exponent + ((digitsOf digits).length : Int)
  if digits = 0 ∨ size < -400 then Binary64.toFloat negative 0
  else if 400 < size then Binary64.toFloat negative Binary64.infinityBits
  else
    Binary64.toFloat negative
      (Binary64.roundRatio (digits * tenPow exponent.toNat) (tenPow (-exponent).toNat))

/-- Reads the exponent after its mark. -/
def exponent? : List Char → Option Int
  | '+' :: cs => (Word.digits? cs).map Int.ofNat
  | '-' :: cs => (Word.digits? cs).map fun n => -(n : Int)
  | cs => (Word.digits? cs).map Int.ofNat

/-- Reads decimal digits with an optional point and an optional exponent. -/
def decimal? (negative : Bool) (cs : List Char) : Option Float :=
  let whole := cs.takeWhile Char.isDigit
  let afterWhole := cs.dropWhile Char.isDigit
  let (fraction, rest) :=
    match afterWhole with
    | '.' :: ds => (ds.takeWhile Char.isDigit, ds.dropWhile Char.isDigit)
    | ds => ([], ds)
  match Word.digits? (whole ++ fraction) with
  | none => none
  | some digits =>
    let places : Int := fraction.length
    match rest with
    | [] => some (nearest negative digits (-places))
    | c :: ds =>
      if c = 'e' ∨ c = 'E' then (exponent? ds).map fun e => nearest negative digits (e - places)
      else none

/-- Reads an unsigned number. The names of the special numbers are taken in any case. -/
def unsigned? (negative : Bool) (cs : List Char) : Option Float :=
  match String.ofList (cs.map Char.toLower) with
  | "inf" | "infinity" => some (Binary64.toFloat negative Binary64.infinityBits)
  | "nan" => some (Float.ofBits 0x7ff8000000000000)
  | _ => decimal? negative cs

/-- Reads a floating point number, correctly rounded. -/
def read? (text : String) : Option Float :=
  match text.toList with
  | '+' :: cs => unsigned? false cs
  | '-' :: cs => unsigned? true cs
  | cs => unsigned? false cs

end FloatText

end ScriptEngine
