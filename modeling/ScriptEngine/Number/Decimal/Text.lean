import ScriptEngine.Number.Decimal.Basic
import ScriptEngine.Number.FloatText

/-!
This module contains the text of decimal numbers and the conversions between them and the other
kinds of numbers.
-/

namespace ScriptEngine

namespace Decimal

/-- How many zeros may stand between the point and the digits. -/
def leadingZeros : Int := 5

/-- How many zeros may follow the digits. -/
def trailingZeros : Int := 15

/-- The text of the size of a number, from its digits and its scale. -/
def magnitude (ds : List Char) (scale : Int) : List Char :=
  if leadingZeros < scale - ds.length then
    let exponent : Int := (ds.length : Int) - 1 - scale
    FloatText.withPoint ds (ds.length - 1) ++ 'E' :: (toString exponent).toList
  else if trailingZeros < -scale then
    ds ++ "e+".toList ++ (toString (-scale)).toList
  else if scale ≤ 0 then
    ds ++ List.replicate (-scale).toNat '0'
  else
    FloatText.withPoint ds scale.toNat

/-- The text of a number. Very large and very small ones get an exponent. -/
def text (x : Decimal) : String :=
  let scale := if x.isZero then 0 else x.scale
  let size := magnitude (Nat.toDigits 10 x.mantissa.natAbs) scale
  String.ofList (if x.mantissa < 0 then '-' :: size else size)

/-- Reads digits. Underscores after the first digit are skipped. -/
def digits? : List Char → Option Nat
  | '_' :: _ => none
  | cs => Word.digits? (cs.filter (· != '_'))

/-- Reads digits with an optional sign. -/
def signed? : List Char → Option Int
  | '-' :: cs => (digits? cs).map fun n => -(n : Int)
  | '+' :: cs => (digits? cs).map fun n => (n : Int)
  | cs => (digits? cs).map fun n => (n : Int)

/--
Reads the part before the exponent. The sign is looked for once the point is taken out, so it may
also follow a leading point, where it counts as a place.
-/
def mantissa? (cs : List Char) : Option (Int × Nat) :=
  let whole := cs.takeWhile (· != '.')
  let fraction := (cs.dropWhile (· != '.')).drop 1
  (signed? (whole ++ fraction)).map fun n => (n, (fraction.filter (· != '_')).length)

/-- The number with a scale that fits a word; there are no numbers with other scales. -/
def ofScale? (mantissa : Int) (scale : Int) : Option Decimal :=
  if (Word.ofInt? scale).isSome then some ⟨mantissa, scale⟩ else none

/-- Reads a number: a mantissa and an optional exponent. -/
def read? (text : String) : Option Decimal :=
  let isMark := fun c => c == 'e' || c == 'E'
  let cs := text.toList
  match mantissa? (cs.takeWhile (!isMark ·)) with
  | none => none
  | some (n, places) =>
    match cs.dropWhile (!isMark ·) with
    | [] => ofScale? n places
    | _ :: es =>
      match FloatText.exponent? es with
      | some e => ofScale? n (places - e)
      | none => none

def ofWord (value : Int64) : Decimal := ofInt value.toInt

/-- The decimal number with the digits of a finite floating point number. -/
def ofFloat? (value : Float) : Option Decimal :=
  match Binary64.ofFloat value with
  | .finite .. => read? (FloatText.plain value)
  | _ => none

/-- The floating point number that the text of a decimal number stands for. -/
def toFloat? (x : Decimal) : Option Float := FloatText.read? x.text

/-- The whole part of a number, if it fits a word. -/
def toWord? (x : Decimal) : Option Int64 := Word.read? (x.withScale 0).text

end Decimal

end ScriptEngine
