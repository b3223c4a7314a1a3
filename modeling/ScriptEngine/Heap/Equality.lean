import ScriptEngine.Heap.Basic

/-!
This module contains the equality of values by structure, without their hooks. Two containers that
contain themselves cannot be told apart, so the comparison stops at a given nesting depth.
-/

namespace ScriptEngine

namespace Heap

/-- Whether two lists have the same length and pairwise the same elements. -/
def sameLists? {α : Type} (same? : α → α → Option Bool) : List α → List α → Option Bool
  | [], [] => some true
  | a :: as, b :: bs =>
    match same? a b with
    | some true => sameLists? same? as bs
    | answer => answer
  | _, _ => some false

/-- Whether two values have the same structure, if that shows within the nesting depth. -/
def same? (h : Heap) : Nat → Value → Value → Option Bool
  | 0, _, _ => none
  | depth + 1, a, b =>
    match a, b with
    | .undefined, .undefined => some true
    | .nil, .nil => some true
    | .bool x, .bool y => some (x == y)
    | .int x, .int y => some (x == y)
    | .float x, .float y => some (x == y)
    | .decimal x, .decimal y => some (x.same y)
    | .str x, .str y => some (x == y)
    | .bytes x, .bytes y => some (x == y || h.data x == h.data y)
    | .array x, .array y =>
      if x == y then some true
      else if (h.items x).size != (h.items y).size then some false
      else sameLists? (fun a b => h.same? depth a b) (h.items x).toList (h.items y).toList
    | .object x, .object y =>
      if x.sameInstance y then some true
      else if h.types.id (h.objectType x) != h.types.id (h.objectType y) then some false
      else if (h.members x).size != (h.members y).size then some false
      else
        sameLists? (fun a b => if a.1 == b.1 then h.same? depth a.2 b.2 else some false)
          (h.members x).entries (h.members y).entries
    | .func x, .func y => some (x == y)
    | .native x, .native y => some (x == y)
    | .bound t x f, .bound u y g =>
      if t == u then some true
      else
        match h.same? depth x y with
        | some true => h.same? depth f g
        | answer => answer
    | .type x, .type y => some (h.types.id x == h.types.id y)
    | .host x, .host y => some (x == y)
    | _, _ => some false

end Heap

end ScriptEngine
