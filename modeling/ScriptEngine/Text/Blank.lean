/-!
This module contains the blank characters of the Unicode standard, and what is done at blanks:
trimming a text and cutting it into words.
-/

namespace ScriptEngine

namespace Text

/-- Whether a character is blank. -/
def isBlank (c : Char) : Bool :=
  let n := c.toNat
  9 ≤ n && n ≤ 13 || n == 0x20 || n == 0x85 || n == 0xa0 || n == 0x1680 ||
    0x2000 ≤ n && n ≤ 0x200a || n == 0x2028 || n == 0x2029 || n == 0x202f || n == 0x205f || n == 0x3000

/-- The text without blanks at its ends. -/
def trim (text : String) : String :=
  String.ofList ((text.toList.dropWhile isBlank).reverse.dropWhile isBlank).reverse

def words.go (word : List Char) : List Char → List (List Char)
  | [] => if word.isEmpty then [] else [word.reverse]
  | c :: cs =>
    if isBlank c then
      if word.isEmpty then go [] cs else word.reverse :: go [] cs
    else
      go (c :: word) cs

/-- The words of a text: what is left when it is cut at every row of blanks. -/
def words (text : String) : List String := (words.go [] text.toList).map String.ofList

end Text

end ScriptEngine
