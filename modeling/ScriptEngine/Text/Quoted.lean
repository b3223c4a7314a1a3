import ScriptEngine.Text.ByteText
import ScriptEngine.Text.Hidden

/-!
This module contains the quoted form of a text in diagnostics. Quotes, backslashes and characters
that leave no mark of their own are escaped.
-/

namespace ScriptEngine

namespace Text

def hexDigits (n : Nat) : List Char := Nat.toDigits 16 n

/-- How a character is written between quotes. -/
def quotedChar (c : Char) : List Char :=
  match c with
  | '\x00' => ['\\', '0']
  | '\t' => ['\\', 't']
  | '\r' => ['\\', 'r']
  | '\n' => ['\\', 'n']
  | '"' => ['\\', '"']
  | '\\' => ['\\', '\\']
  | c => if isHidden c then '\\' :: 'u' :: '{' :: hexDigits c.toNat ++ ['}'] else [c]

/-- The text between quotes. -/
def quoted (text : String) : String :=
  String.ofList ('"' :: text.toList.flatMap quotedChar ++ ['"'])

end Text

end ScriptEngine
