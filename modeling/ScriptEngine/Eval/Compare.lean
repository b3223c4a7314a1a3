import ScriptEngine.Eval.Arithmetic
import ScriptEngine.Eval.Text
import ScriptEngine.Heap.Equality

/-!
This module contains the comparison of values: the three way comparison without hooks, equality
with a `__eq__` hook, and the comparison operators.
-/

namespace ScriptEngine

namespace Machine

/-- Calls a hook with the other operand. -/
def callHook (m : Machine) (hook operand : Value) : Run Value := m.invoke hook .undefined [operand]

/-- Asks a hook a question with the other operand. -/
def askHook (m : Machine) (hook operand : Value) : Run Bool := do
  m.isTruthy (← m.callHook hook operand)

/-- Whether two values are equal, by a `__eq__` of the first or else by a three way comparison. -/
def equalBy (m : Machine) (compare : Value → Value → Run Comparison) (a b : Value) : Run Bool := do
  match ← Run.findHook a "__eq__" with
  | some hook => m.askHook hook b
  | none => return (← compare a b) == .eq

/-- Compares items pairwise. The first that are not equal decide, then the lengths. -/
def compareItems (compare : Value → Value → Run Comparison) : List Value → List Value → Run Comparison
  | [], [] => return .eq
  | [], _ :: _ => return .lt
  | _ :: _, [] => return .gt
  | a :: as, b :: bs => do
    let c ← compare a b
    if c == .eq then compareItems compare as bs else return c

/-- Whether every member on the left has an equal one on the right. -/
def sameMembers (equal : Value → Value → Run Bool) (other : Members) : List (String × Value) → Run Bool
  | [] => return true
  | (name, a) :: rest => do
    match other.get? name with
    | none => return false
    | some b => if ← equal a b then sameMembers equal other rest else return false

/-- Compares two values of kinds that have no order. -/
def compareIdentity (m : Machine) (a b : Value) : Run Comparison := do
  let same ← Run.ofOption ((← Run.getHeap).same? m.fuel a b)
  return if same then .eq else .unrelated

/-- The order of two byte strings. -/
def bytesOrder : List UInt8 → List UInt8 → Ordering
  | [], [] => .eq
  | [], _ :: _ => .lt
  | _ :: _, [] => .gt
  | a :: as, b :: bs => (compare a.toNat b.toNat).then (bytesOrder as bs)

def compareValues.go (m : Machine) : Nat → Value → Value → Run Comparison
  | 0, _, _ => Run.exhausted
  | depth + 1, a, b => do
    match a, b with
    | .str x, .str y => return .ofOrdering (compare x y)
    | .bytes x, .bytes y =>
      if x == y then return .eq
      let heap ← Run.getHeap
      return .ofOrdering (bytesOrder (heap.data x).toList (heap.data y).toList)
    | .array x, .array y =>
      if x == y then return .eq
      let heap ← Run.getHeap
      compareItems (fun a b => go m depth a b) (heap.items x).toList (heap.items y).toList
    | .object x, .object y =>
      if x.sameInstance y then return .eq
      let heap ← Run.getHeap
      let xs := heap.members x
      let ys := heap.members y
      if xs.size != ys.size then return .unrelated
      let same ← sameMembers (m.equalBy fun a b => go m depth a b) ys xs.entries
      return if same then .eq else .unrelated
    | .bool x, .bool y => return .ofOrdering (compare x y)
    | .nil, .nil => return .eq
    | .undefined, .undefined => return .eq
    | .type _, _ | .func _, _ | .native _, _ | .bound .., _ | .host _, _ => m.compareIdentity a b
    | _, _ =>
      match Operands.promote? a b with
      | some operands => return operands.order
      | none => return .unrelated

/--
Compares two values without the hooks of the comparison operators. The members of objects are
compared for equality with their hooks.
-/
def compareValues (m : Machine) (a b : Value) : Run Comparison := compareValues.go m m.fuel a b

/-- Whether two values are equal. A `__eq__` of the first counts. -/
def valuesEqual (m : Machine) (a b : Value) : Run Bool := m.equalBy m.compareValues a b

/-- Whether a comparison operator holds between two values. A hook with its name counts. -/
def compareOp (m : Machine) (op : CompareOp) (a b : Value) : Run Bool := do
  match ← Run.findHook a op.hook with
  | some hook => m.askHook hook b
  | none =>
    match op with
    | .ne => return !(← m.valuesEqual a b)
    | .eq => m.valuesEqual a b
    | .lt => return (← m.compareValues a b) == .lt
    | .le => return (← m.compareValues a b).isAnyOf (.union .lt .eq)
    | .gt => return (← m.compareValues a b) == .gt
    | .ge => return (← m.compareValues a b).isAnyOf (.union .gt .eq)

end Machine

end ScriptEngine
