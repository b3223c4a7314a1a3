import ScriptEngine.Text.CaseTable
import ScriptEngine.Text.Hidden

/-!
This module contains the upper and the lower case of a text. One character may become several, and
the lower case of a capital sigma depends on where it stands in its word.
-/

namespace ScriptEngine

namespace Text

/-- Looks a character up in an ascending table of shifts. -/
def shifted (n : Nat) : List CaseTable.Shift → Nat
  | [] => n
  | s :: table =>
    if n < s.first then n
    else if n ≤ s.last ∧ (n - s.first) % s.step = 0 then ((n : Int) + s.delta).toNat
    else shifted n table

/-- The upper case of a character. -/
def upperChar (c : Char) : List Char :=
  match CaseTable.upperLong.lookup c.toNat with
  | some ns => ns.map Char.ofNat
  | none => [Char.ofNat (shifted c.toNat CaseTable.upper)]

/-- The lower case of a character on its own. -/
def lowerChar (c : Char) : List Char :=
  if c = 'İ' then ['i', Char.ofNat 0x307] else [Char.ofNat (shifted c.toNat CaseTable.lower)]

/-- The text in upper case. -/
def upper (text : String) : String := String.ofList (text.toList.flatMap upperChar)

/-- Whether the first character that counts has a case. -/
def meetsCased (cs : List Char) : Bool :=
  match cs.dropWhile fun c => inRanges c.toNat CaseTable.ignorable with
  | [] => false
  | c :: _ => inRanges c.toNat CaseTable.cased

def lower.go (before : List Char) : List Char → List Char
  | [] => []
  | c :: cs =>
    if c = 'Σ' then
      (if meetsCased before && !meetsCased cs then 'ς' else 'σ') :: go (c :: before) cs
    else
      lowerChar c ++ go (c :: before) cs

/-- The text in lower case. A capital sigma at the end of a word becomes a final one. -/
def lower (text : String) : String := String.ofList (lower.go [] text.toList)

end Text

end ScriptEngine
