/-!
This module contains the results of comparing two values, as sets of flags. Values that can be
compared give one flag; the empty set says that they are neither equal nor ordered.
-/

namespace ScriptEngine

structure Comparison where
  equal : Bool
  less : Bool
  greater : Bool
deriving DecidableEq, Inhabited

namespace Comparison

/-- The two values are equal. -/
def eq : Comparison := ⟨true, false, false⟩

/-- The first value is less than the second. -/
def lt : Comparison := ⟨false, true, false⟩

/-- The first value is greater than the second. -/
def gt : Comparison := ⟨false, false, true⟩

/-- Neither equal nor ordered. -/
def unrelated : Comparison := ⟨false, false, false⟩

def union (a b : Comparison) : Comparison :=
  ⟨a.equal || b.equal, a.less || b.less, a.greater || b.greater⟩

def ofOrdering : Ordering → Comparison
  | .lt => lt
  | .eq => eq
  | .gt => gt

def ofOrdering? : Option Ordering → Comparison
  | none => unrelated
  | some o => ofOrdering o

/-- The ordering that a single flag stands for. -/
def ordering? (c : Comparison) : Option Ordering :=
  if c = lt then some .lt
  else if c = eq then some .eq
  else if c = gt then some .gt
  else none

/-- Whether all flags of `c` are among `accepted`, and there is one. -/
def isAnyOf (c accepted : Comparison) : Bool :=
  c != unrelated && (!c.equal || accepted.equal) && (!c.less || accepted.less) &&
    (!c.greater || accepted.greater)

/-- The flags as bits of a number. -/
def bits (c : Comparison) : Nat :=
  (if c.equal then 1 else 0) + (if c.less then 2 else 0) + (if c.greater then 4 else 0)

/-- The flags among the bits of a number. -/
def ofBits (n : Nat) : Comparison := ⟨n.testBit 0, n.testBit 1, n.testBit 2⟩

end Comparison

end ScriptEngine
