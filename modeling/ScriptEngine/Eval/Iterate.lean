import ScriptEngine.Eval.Frame
import ScriptEngine.Eval.Text

/-!
This module contains iteration. The items come from a range of words, from an `__iter__` hook, or
from a value of a kind that has items. The visitor of the items hands a result on from one item to
the next and says when to stop.
-/

namespace ScriptEngine

/-- What a visitor says after an item. -/
inductive Visit (σ : Type) where
  | next (acc : σ)
  | stop (acc : σ)

namespace Machine

variable {σ : Type}

/-- Visits `n` words in ascending order, with their numbers. -/
def visitWords (visit : σ → Value → Value → Run (Visit σ)) (acc : σ) : Nat → Int64 → Int64 → Run σ
  | 0, _, _ => return acc
  | n + 1, index, word => do
    match ← visit acc (.int index) (.int word) with
    | .stop acc => return acc
    | .next acc => visitWords visit acc n (index + 1) (word + 1)

def visitRange.go (visit : σ → Value → Value → Run (Visit σ)) (last : Int64) (inclusive : Bool) :
    Nat → σ → Int64 → Int64 → Run σ
  | 0, acc, _, _ => return acc
  | fuel + 1, acc, index, current =>
    if current < last ∨ inclusive = true ∧ current = last then do
      match ← visit acc (.int index) (.int current) with
      | .stop acc => return acc
      | .next acc =>
        let index := index + 1
        match Word.checkedAdd current 1 with
        | some next => go visit last inclusive fuel acc index next
        | none => return acc
    else
      return acc

/--
Visits the words of a range in ascending order, with their numbers, as long as the last bound is not
passed. After the greatest word there is none. There are no more words in the range than there are
between its bounds, and one.
-/
def visitRange (visit : σ → Value → Value → Run (Visit σ)) (acc : σ) (first last : Int64)
    (inclusive : Bool) : Run σ :=
  visitRange.go visit last inclusive ((last.toInt - first.toInt).natAbs + 1) acc 0 first

/-- Visits the members of an object that were there at the start. -/
def visitEntries (visit : σ → Value → Value → Run (Visit σ)) (acc : σ) : List (String × Value) → Run σ
  | [] => return acc
  | (key, value) :: rest => do
    let visited ← Run.lettingGo do
      Run.keep (.entries rest)
      visit acc (.str key) value
    match visited with
    | .stop acc => return acc
    | .next acc => visitEntries visit acc rest

/-- Visits the characters of a text, with their numbers. -/
def visitChars (visit : σ → Value → Value → Run (Visit σ)) (acc : σ) : List Char → Int64 → Run σ
  | [], _ => return acc
  | c :: cs, index => do
    match ← visit acc (.int index) (.str (String.singleton c)) with
    | .stop acc => return acc
    | .next acc => visitChars visit acc cs (index + 1)

/-- Visits as many items as there were at the start, each as it is when its turn comes. -/
def visitItems (m : Machine) (container : Value) (visit : σ → Value → Value → Run (Visit σ)) (acc : σ) :
    Nat → Int64 → Run σ
  | 0, _ => return acc
  | n + 1, index => do
    let item ← m.getIndex container (.int index)
    match ← visit acc (.int index) item with
    | .stop acc => return acc
    | .next acc => m.visitItems container visit acc n (index + 1)

/-- The item of a step of an iteration, if the step says that there is one. -/
def stepItem? (m : Machine) (answer : Value) : Run (Option Value) := do
  match (← Run.getHeap).items? answer with
  | some #[item, more] => if ← m.isTruthy more then return some item else return none
  | _ => return none

/-- Visits the items that a step function gives. -/
def visitSteps (m : Machine) (step : Value) (visit : σ → Value → Value → Run (Visit σ)) (acc : σ) :
    Nat → Int64 → Run σ
  | 0, _ => Run.exhausted
  | fuel + 1, index => do
    let answer ← m.invoke step .undefined []
    let visited ← Run.lettingGo do
      Run.hold answer
      match ← m.stepItem? answer with
      | none => return .stop acc
      | some item => visit acc (.int index) item
    match visited with
    | .stop acc => return acc
    | .next acc => m.visitSteps step visit acc fuel (index + 1)

/-- Visits the items of a value. -/
def iterateValue (m : Machine) (value : Value) (visit : σ → Value → Value → Run (Visit σ)) (acc : σ) :
    Run σ := do
  match ← Run.findHook value "__iter__" with
  | some hook =>
    let step ← m.invoke hook .undefined []
    Run.hold step
    if ← Run.isCallable step then m.visitSteps step visit acc m.fuel 0
    else Run.fail "__iter__ should return a callable value"
  | none =>
    match value with
    | .int n => visitWords visit acc n.toInt.toNat 0 0
    | .object handle => visitEntries visit acc ((← Run.getHeap).members handle).entries
    | .str s => visitChars visit acc s.toList 0
    | .array _ | .bytes _ =>
      m.visitItems value visit acc (((← Run.getHeap).length? value).getD 0) 0
    | other => Run.raise (.notIterable ((← Run.getHeap).typeName other))

def rangeBound (value : Value) (what : String) : Run Int64 :=
  match value with
  | .int i => return i
  | other => Run.mismatch ("Int range " ++ what) other

/-- Visits the items of a loop's source. -/
def iterate (m : Machine) (source : Source) (visit : σ → Value → Value → Run (Visit σ)) (acc : σ) :
    Run σ := do
  match source with
  | .range first last inclusive =>
    let first ← rangeBound (← m.eval first) "begin"
    let last ← rangeBound (← m.eval last) "end"
    visitRange visit acc first last inclusive
  | .iterable value =>
    let value ← m.evalHeld value
    m.iterateValue value visit acc

/-- Binds the variables of a loop. -/
def bindItem (value : String) (index : Option String) (i item : Value) : Run Unit := do
  Run.forceLocal value item
  match index with
  | some index => Run.forceLocal index i
  | none => return

/-- Runs `emit` for every item that passes the filter of a comprehension. -/
def comprehend (m : Machine) (head : Comprehension) (emit : Run Unit) : Run Unit :=
  match head with
  | .mk value index source filter =>
    let visit := fun (_ : Unit) (i item : Value) => (do
      bindItem value index i item
      let keep ← match filter with
        | some filter => m.isTruthy (← m.eval filter)
        | none => pure true
      if keep then emit
      return .next () : Run (Visit Unit))
    m.withBlock (m.iterate source visit ())

/-- Evaluates an array comprehension. -/
def evalArrayOf (m : Machine) (head : Comprehension) (item : Expr) : Run Value := do
  let ref ← Run.alloc (·.emptyArray)
  Run.hold (.array ref)
  m.comprehend head do
    let value ← m.eval item
    Run.modifyHeap (·.modifyItems ref (·.push value))
  return .array ref

/-- Evaluates an object comprehension. -/
def evalObjectOf (m : Machine) (head : Comprehension) (key value : Expr) : Run Value := do
  let handle ← Run.alloc (·.newObject .empty)
  Run.hold (.object handle)
  m.comprehend head (m.evalEntry handle key value)
  return .object handle

end Machine

end ScriptEngine
