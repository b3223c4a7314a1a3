/-!
This module contains the texts of byte strings: hexadecimal digits, and a quoted form that shows
printable bytes as they are.
-/

namespace ScriptEngine

namespace ByteText

/-- The digit of a number below sixteen. -/
def hexDigit (n : Nat) : Char := Char.ofNat (if n < 10 then 48 + n else 87 + n)

/-- The two digits of a byte, the high one first. -/
def hexPair (byte : UInt8) : List Char := [hexDigit (byte.toNat / 16), hexDigit (byte.toNat % 16)]

/-- The bytes in hexadecimal. -/
def hex (data : List UInt8) : String := String.ofList (data.flatMap hexPair)

/-- How a byte is written between quotes. -/
def quotedByte (byte : UInt8) : List Char :=
  if byte.toNat = 34 then ['\\', '"']
  else if byte.toNat = 92 then ['\\', '\\']
  else if 0x20 ≤ byte.toNat ∧ byte.toNat ≤ 0x7e then [Char.ofNat byte.toNat]
  else '\\' :: 'x' :: hexPair byte

/-- The bytes as a quoted text. -/
def quoted (data : List UInt8) : String :=
  String.ofList ('b' :: '"' :: data.flatMap quotedByte ++ ['"'])

/-- The value of a hexadecimal digit. -/
def digitValue? (c : Char) : Option Nat :=
  let n := c.toNat
  if 48 ≤ n ∧ n ≤ 57 then some (n - 48)
  else if 97 ≤ n ∧ n ≤ 102 then some (n - 87)
  else if 65 ≤ n ∧ n ≤ 70 then some (n - 55)
  else none

/-- Reads bytes from hexadecimal digits. -/
def unhex? : List Char → Option (List UInt8)
  | [] => some []
  | [_] => none
  | a :: b :: cs =>
    match digitValue? a, digitValue? b, unhex? cs with
    | some x, some y, some bytes => some (UInt8.ofNat (16 * x + y) :: bytes)
    | _, _, _ => none

end ByteText

end ScriptEngine
