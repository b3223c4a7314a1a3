/-!
This module contains the arithmetic of 64 bit signed words: sums, differences and products wrap
around, powers and shifts are built on them, and conversions say when they do not fit.
-/

namespace ScriptEngine

namespace Word

/-- The least and the greatest word. -/
def least : Int := -0x8000000000000000

def greatest : Int := 0x7fffffffffffffff

/-- The word of an integer, if it fits. -/
def ofInt? (value : Int) : Option Int64 :=
  if least ≤ value ∧ value ≤ greatest then some (Int64.ofInt value) else none

/-- The word of a count. Counts past the greatest word are cut there. -/
def ofNat (count : Nat) : Int64 :=
  if (count : Int) ≤ greatest then Int64.ofNat count else Int64.ofInt greatest

/-- The sum of two words, if it fits. -/
def checkedAdd (a b : Int64) : Option Int64 := ofInt? (a.toInt + b.toInt)

/-- How far an index is from the start if a negative one counts from the end. There is none if the sum does not fit. -/
def fromStart? (index : Int64) (length : Nat) : Option Int64 :=
  if index < 0 then checkedAdd index (ofNat length) else some index

/-- The same for lengths that may not fit, too. -/
def fromStart (index : Int64) (length : Nat) : Int :=
  if (length : Int) ≤ greatest then
    ((fromStart? index length).map Int64.toInt).getD 0
  else if index < 0 then
    index.toInt + length
  else
    index.toInt

def pow.go (acc base : Int64) (exponent : Nat) : Int64 :=
  if exponent = 0 then
    acc
  else
    let acc := if exponent % 2 = 1 then acc * base else acc
    go acc (base * base) (exponent / 2)
termination_by exponent

/-- The power of a word, wrapped around, by repeated squaring. -/
def pow (base : Int64) (exponent : Nat) : Int64 := pow.go 1 base exponent

/-- How many bits a shift can move at most. -/
def shiftLimit : Int := 0xffffffff

/-- The number of bits that `count` asks a shift to move, if a shift can move that many. -/
def shiftCount? (count : Int64) : Option Nat :=
  if 0 ≤ count.toInt ∧ count.toInt ≤ shiftLimit then some count.toInt.toNat else none

/-- Moves a word to the left. All bits are gone after 64. -/
def shiftLeft (value : Int64) (count : Nat) : Int64 :=
  if count < 64 then value <<< Int64.ofNat count else 0

/-- Moves a word to the right. The sign moves in from the left. -/
def shiftRight (value : Int64) (count : Nat) : Int64 :=
  if count < 64 then value >>> Int64.ofNat count else if value < 0 then -1 else 0

/-- The byte that a word holds, if it is one. -/
def toByte? (value : Int64) : Option UInt8 :=
  if 0 ≤ value.toInt ∧ value.toInt < 256 then some (UInt8.ofNat value.toInt.toNat) else none

/-- The decimal text of a word. -/
def text (value : Int64) : String := toString value.toInt

def digits?.go (acc : Nat) : List Char → Option Nat
  | [] => some acc
  | c :: cs => if c.isDigit then go (10 * acc + (c.toNat - 48)) cs else none

/-- The number that a non-empty row of decimal digits stands for. -/
def digits? (cs : List Char) : Option Nat := if cs.isEmpty then none else digits?.go 0 cs

/-- Reads a word: an optional sign, decimal digits, and a value that fits. -/
def read? (text : String) : Option Int64 :=
  match text.toList with
  | '+' :: cs => (digits? cs).bind fun n => ofInt? n
  | '-' :: cs => (digits? cs).bind fun n => ofInt? (-n)
  | cs => (digits? cs).bind fun n => ofInt? n

end Word

end ScriptEngine
