/-!
This module contains the cutting of a text at a separator and the search for a part of a text.
-/

namespace ScriptEngine

namespace Text

/--
Cuts `cs` at the leftmost separators that do not overlap, into at most `limit` pieces. The piece
that is being read is `piece`, last character first, and `skip` characters of a separator are still
to be passed over.
-/
def split.go (sep : List Char) (limit : Nat) (piece : List Char) (skip : Nat) :
    List Char → List (List Char)
  | [] => [piece.reverse]
  | c :: cs =>
    match skip with
    | k + 1 => go sep limit piece k cs
    | 0 =>
      if 1 < limit && sep.isPrefixOf (c :: cs) then
        piece.reverse :: go sep (limit - 1) [] (sep.length - 1) cs
      else
        go sep limit (c :: piece) 0 cs

def splitChars.go : Nat → List Char → List (List Char)
  | _, [] => [[]]
  | limit, c :: cs => if limit ≤ 1 then [c :: cs] else [c] :: go (limit - 1) cs

/-- Cuts a text at the empty separator, which stands before, between and after its characters. -/
def splitChars (limit : Nat) (cs : List Char) : List (List Char) :=
  if limit ≤ 1 then [cs] else [] :: splitChars.go (limit - 1) cs

/-- The pieces of a text between separators, at most `limit` of them. -/
def splitAtMost (limit : Nat) (text sep : String) : List String :=
  let pieces :=
    if sep.isEmpty then splitChars limit text.toList
    else split.go sep.toList limit [] 0 text.toList
  pieces.map String.ofList

/-- The pieces of a text between separators. -/
def split (text sep : String) : List String := splitAtMost (text.length + 2) text sep

/-- Whether a text begins with another. -/
def startsWith (text part : String) : Bool := part.toList.isPrefixOf text.toList

/-- Whether a text ends with another. -/
def endsWith (text part : String) : Bool := part.toList.isSuffixOf text.toList

def contains.go (part : List Char) : List Char → Bool
  | [] => part.isEmpty
  | c :: cs => part.isPrefixOf (c :: cs) || go part cs

/-- Whether a text has another as a part. -/
def contains (text part : String) : Bool := contains.go part.toList text.toList

end Text

end ScriptEngine
