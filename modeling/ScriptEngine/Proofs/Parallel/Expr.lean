import ScriptEngine.Eval.Expr
import ScriptEngine.Proofs.Parallel.Values
import ScriptEngine.Proofs.RangeLoops

/-!
This module contains the steps of the rules for expressions. They evaluate other expressions and
may put a call off, so they are at every level but that of calls.
-/

namespace ScriptEngine

namespace Parallel

variable {m m' : Machine} {l : Level} {α σ : Type}

section Assign

theorem assignTo (hl : l ≠ .call) (target : Target) (value : Value)
    : Parallel m m' l (m.assignTo target value) (m'.assignTo target value) := by
  unfold Machine.assignTo
  split
  . apply assignVar
  . apply bind (evalHeld hl _)
    intro owner
    apply setMember
  . apply bind (evalHeld hl _)
    intro owner
    apply bind (evalHeld hl _)
    intro key
    apply setIndex

theorem defineItems (hl : l ≠ .call) (rest : Bool) (names : List String) (items : List Value)
    : Parallel m m' l (Machine.defineItems rest names items) (Machine.defineItems rest names items) := by
  fun_induction Machine.defineItems rest names items with
  | case1 => apply Parallel.pure
  | case2 name items =>
    apply bind (newArray _)
    intro value
    apply defineLocal hl
  | case3 name items => exact defineLocal hl name _
  | case4 name names items _ ih =>
    apply bind (defineLocal hl name _)
    intro
    exact ih

theorem defineMembers (hl : l ≠ .call) (value : Value) (names : List String)
    : Parallel m m' l (m.defineMembers value names) (m'.defineMembers value names) := by
  induction names with
  | nil => apply Parallel.pure
  | cons name names ih =>
    unfold Machine.defineMembers
    apply bind (getMember value name)
    intro member
    apply bind (defineLocal hl name member)
    intro
    exact ih

theorem defineEntries (hl : l ≠ .call) (entries : List (String × Value))
    : Parallel m m' l (Machine.defineEntries entries) (Machine.defineEntries entries) := by
  induction entries with
  | nil => apply Parallel.pure
  | cons entry rest ih =>
    unfold Machine.defineEntries
    apply bind (defineLocal hl _ _)
    intro
    exact ih

theorem evalDefine (hl : l ≠ .call) (names : List String) (shape : Shape) (value : Expr)
    : Parallel m m' l (m.evalDefine names shape value) (m'.evalDefine names shape value) := by
  unfold Machine.evalDefine
  apply bind (evalHeld hl value)
  intro value
  dsimp only
  split
  . split
    . apply Parallel.pure
    . apply bind (defineLocal hl _ value)
      intro
      apply Parallel.pure
  . apply bind getHeap
    intro heap
    split
    . apply bind (defineItems hl _ names _)
      intro
      apply Parallel.pure
    . apply bind (mismatch _ value)
      intro
      apply Parallel.pure
  . apply bind (defineMembers hl value names)
    intro
    apply Parallel.pure

theorem evalDefineAll (hl : l ≠ .call) (value : Expr)
    : Parallel m m' l (m.evalDefineAll value) (m'.evalDefineAll value) := by
  unfold Machine.evalDefineAll
  apply bind (eval hl value)
  intro value
  split
  . apply bind getHeap
    intro heap
    apply bind (defineEntries hl _)
    intro
    apply Parallel.pure
  . apply mismatch

theorem evalIncrement [SameFuel m m'] (hl : l ≠ .call) (target : Target) (delta : Int64) (before : Bool)
    : Parallel m m' l (m.evalIncrement target delta before) (m'.evalIncrement target delta before) := by
  unfold Machine.evalIncrement
  apply bind (evalHeld hl _)
  intro old
  apply bind (binaryValues .add old _)
  intro new
  apply bind (hold new)
  intro
  apply bind (assignTo hl target new)
  intro
  apply Parallel.pure

end Assign

section Iterate

variable {visit visit' : σ → Value → Value → Run (Visit σ)}
variable (hv : ∀ acc i item, Parallel m m' l (visit acc i item) (visit' acc i item))
include hv

theorem visitWords (acc : σ) (n : Nat) (index word : Int64)
    : Parallel m m' l (Machine.visitWords visit acc n index word)
        (Machine.visitWords visit' acc n index word) := by
  induction n generalizing acc index word with
  | zero => apply Parallel.pure
  | succ n ih =>
    unfold Machine.visitWords
    apply bind (hv acc _ _)
    intro visited
    cases visited with
    | stop acc => exact .pure acc
    | next acc => apply ih

theorem visitEntries (acc : σ) (entries : List (String × Value))
    : Parallel m m' l (Machine.visitEntries visit acc entries)
        (Machine.visitEntries visit' acc entries) := by
  induction entries generalizing acc with
  | nil => apply Parallel.pure
  | cons entry rest ih =>
    unfold Machine.visitEntries
    apply bind
    . apply lettingGo
      apply bind (keep (.entries rest) rfl)
      intro
      apply hv
    . intro visited
      cases visited with
      | stop acc => exact .pure acc
      | next acc => apply ih

theorem visitChars (acc : σ) (cs : List Char) (index : Int64)
    : Parallel m m' l (Machine.visitChars visit acc cs index)
        (Machine.visitChars visit' acc cs index) := by
  induction cs generalizing acc index with
  | nil => apply Parallel.pure
  | cons c cs ih =>
    unfold Machine.visitChars
    apply bind (hv acc _ _)
    intro visited
    cases visited with
    | stop acc => exact .pure acc
    | next acc => apply ih

theorem visitItems (container : Value) (acc : σ) (n : Nat) (index : Int64)
    : Parallel m m' l (m.visitItems container visit acc n index)
        (m'.visitItems container visit' acc n index) := by
  induction n generalizing acc index with
  | zero => apply Parallel.pure
  | succ n ih =>
    unfold Machine.visitItems
    apply bind (getIndex container _)
    intro item
    apply bind (hv acc _ item)
    intro visited
    cases visited with
    | stop acc => exact .pure acc
    | next acc => apply ih

omit hv in
theorem stepItem? (answer : Value) : Parallel m m' l (m.stepItem? answer) (m'.stepItem? answer) := by
  unfold Machine.stepItem?
  apply bind getHeap
  intro heap
  -- The pattern of two items is an array, which `split` does not take apart.
  rcases heap.items? answer with _ | ⟨⟨_ | ⟨item, _ | ⟨more, _ | ⟨_, _⟩⟩⟩⟩⟩
  case some.cons.cons.nil =>
    apply bind (isTruthy more)
    intro more
    apply ite
    . apply Parallel.pure
    . apply Parallel.pure
  all_goals exact .pure none

theorem visitSteps (step : Value) (acc : σ) (fuel : Nat) (index : Int64)
    : Parallel m m' l (m.visitSteps step visit acc fuel index)
        (m'.visitSteps step visit' acc fuel index) := by
  induction fuel generalizing acc index with
  | zero => exact exhausted
  | succ fuel ih =>
    unfold Machine.visitSteps
    apply bind (invoke step .undefined [])
    intro answer
    apply bind
    . apply lettingGo
      apply bind (hold answer)
      intro
      apply bind (stepItem? answer)
      intro found
      cases found with
      | none => apply Parallel.pure
      | some item => apply hv
    . intro visited
      cases visited with
      | stop acc => exact .pure acc
      | next acc => apply ih

theorem iterateValue [SameFuel m m'] (value : Value) (acc : σ)
    : Parallel m m' l (m.iterateValue value visit acc) (m'.iterateValue value visit' acc) := by
  unfold Machine.iterateValue
  rw [fuel_eq m m']
  apply bind (findHook value "__iter__")
  intro found
  cases found with
  | some hook =>
    apply bind (invoke hook .undefined [])
    intro step
    apply bind (hold step)
    intro
    apply bind (isCallable step)
    intro callable
    apply ite
    . apply visitSteps hv
    . apply fail
  | none =>
    dsimp only
    split
    . apply visitWords hv
    . apply bind getHeap
      intro heap
      apply visitEntries hv
    . apply visitChars hv
    . apply bind getHeap
      intro heap
      apply visitItems hv
    . apply bind getHeap
      intro heap
      apply visitItems hv
    . apply bind getHeap
      intro heap
      apply raise

omit hv in
theorem rangeBound (value : Value) (what : String)
    : Parallel m m' l (Machine.rangeBound value what) (Machine.rangeBound value what) := by
  unfold Machine.rangeBound
  split
  . apply Parallel.pure
  . apply mismatch

theorem iterate [SameFuel m m'] (hl : l ≠ .call) (source : Source) (acc : σ)
    : Parallel m m' l (m.iterate source visit acc) (m'.iterate source visit' acc) := by
  unfold Machine.iterate
  split
  . apply bind (eval hl _)
    intro first
    apply bind (rangeBound first _)
    intro first
    apply bind (eval hl _)
    intro last
    apply bind (rangeBound last _)
    intro last
    rw [Machine.visitRange_eq, Machine.visitRange_eq]
    apply visitWords hv
  . apply bind (evalHeld hl _)
    intro value
    apply iterateValue hv

end Iterate

section Comprehensions

theorem bindItem (hl : l ≠ .call) (value : String) (index : Option String) (i item : Value)
    : Parallel m m' l (Machine.bindItem value index i item) (Machine.bindItem value index i item) := by
  unfold Machine.bindItem
  apply bind (forceLocal hl value item)
  intro
  split
  . apply forceLocal hl
  . apply Parallel.pure

variable [SameFuel m m']

theorem comprehend (hl : l ≠ .call) (head : Comprehension) {emit emit' : Run Unit}
    (he : Parallel m m' l emit emit')
    : Parallel m m' l (m.comprehend head emit) (m'.comprehend head emit') := by
  cases head with
  | mk value index source filter =>
    unfold Machine.comprehend
    apply withBlock
    apply iterate _ hl
    intro acc i item
    apply bind (bindItem hl value index i item)
    intro
    have emitted (keep : Bool)
        : let emitted (emit : Run Unit) : Run (Visit Unit) := do
            if keep then emit
            return .next ()
          Parallel m m' l (emitted emit) (emitted emit') := by
      apply ite
      . apply bind he
        intro
        apply Parallel.pure
      . apply Parallel.pure
    cases filter with
    | none =>
      apply bind (Parallel.pure true)
      exact emitted
    | some filter =>
      apply bind (eval hl filter)
      intro value
      apply bind (isTruthy value)
      exact emitted

theorem evalArrayOf (hl : l ≠ .call) (head : Comprehension) (item : Expr)
    : Parallel m m' l (m.evalArrayOf head item) (m'.evalArrayOf head item) := by
  unfold Machine.evalArrayOf
  apply bind (alloc _ fun h => .emptyArray h)
  intro ref
  apply bind (hold _)
  intro
  apply bind
  . apply comprehend hl
    apply bind (eval hl item)
    intro value
    exact modifyHeap _ fun h => .modifyItems h ref _
  . intro
    apply Parallel.pure

theorem evalObjectOf (hl : l ≠ .call) (head : Comprehension) (key value : Expr)
    : Parallel m m' l (m.evalObjectOf head key value) (m'.evalObjectOf head key value) := by
  unfold Machine.evalObjectOf
  apply bind (alloc _ fun h => .newObject h .empty)
  intro handle
  apply bind (hold _)
  intro
  apply bind (comprehend hl head (evalEntry hl handle key value))
  intro
  apply Parallel.pure

end Comprehensions

section Expr

theorem evalOptional (hl : l ≠ .call) (e : Option Expr)
    : Parallel m m' l (m.evalOptional e) (m'.evalOptional e) := by
  cases e with
  | none => apply Parallel.pure
  | some e => exact eval hl e

theorem evalItems (hl : l ≠ .call) (out : Array Value) (items : List ArrayItem)
    : Parallel m m' l (m.evalItems out items) (m'.evalItems out items) := by
  induction items generalizing out with
  | nil => apply Parallel.pure
  | cons item items ih =>
    cases item with
    | mk value condition spread =>
      unfold Machine.evalItems
      cases condition
      case' none => apply bind (Parallel.pure true)
      case' some condition =>
        apply bind (eval hl condition)
        intro condition
        apply bind (isTruthy condition)
      all_goals
        intro wanted
        apply ite
        . apply bind (eval hl value)
          intro value
          apply ite
          . apply bind getHeap
            intro heap
            split
            . apply bind (holdAll _)
              intro
              apply ih
            . apply mismatch
          . apply bind (hold value)
            intro
            apply ih
        . apply ih

theorem sliceValue (container : Value) (first last : Option Int64)
    : Parallel m m' l (Machine.sliceValue container first last)
        (Machine.sliceValue container first last) := by
  unfold Machine.sliceValue
  split
  . apply Parallel.pure
  . apply bind getHeap
    intro heap
    apply newArray
  . apply bind getHeap
    intro heap
    apply newBytes
  . apply mismatch

theorem evalBound (hl : l ≠ .call) (bound : Option Expr)
    : Parallel m m' l (m.evalBound bound) (m'.evalBound bound) := by
  cases bound with
  | none => apply Parallel.pure
  | some bound =>
    apply bind (eval hl bound)
    intro value
    split
    . apply Parallel.pure
    . apply Parallel.pure
    . apply Parallel.pure
    . apply mismatch

theorem makeClosure (code : FuncDef)
    : Parallel m m' l (Machine.makeClosure code) (Machine.makeClosure code) := by
  unfold Machine.makeClosure
  apply bind currentScope
  intro scope
  apply newClosure

theorem callableMember? (value : Value) (names : List String)
    : Parallel m m' l (m.callableMember? value names) (m'.callableMember? value names) := by
  induction names with
  | nil => apply Parallel.pure
  | cons name names ih =>
    unfold Machine.callableMember?
    apply bind (getMember value name)
    intro member
    apply bind (isCallable member)
    intro callable
    apply ite
    . apply Parallel.pure
    . exact ih

theorem evalCloser (value : Value) (closer : Closer)
    : Parallel m m' l (m.evalCloser value closer) (m'.evalCloser value closer) := by
  unfold Machine.evalCloser
  split
  . apply bind (makeClosure _)
    intro closure
    apply Parallel.pure
  . apply bind (callableMember? value _)
    intro found
    split
    . apply Parallel.pure
    . apply fail
  . apply bind (callableMember? value _)
    intro found
    split
    . apply Parallel.pure
    . apply fail

theorem evalUse (hl : l ≠ .call) (value : Expr) (closer : Closer)
    : Parallel m m' l (m.evalUse value closer) (m'.evalUse value closer) := by
  unfold Machine.evalUse
  apply bind (evalHeld hl value)
  intro value
  apply bind (evalCloser value closer)
  intro call
  apply bind (addBlockDefer hl _ _ true)
  intro
  apply Parallel.pure

theorem evalArgs (hl : l ≠ .call) (args : List Arg)
    : Parallel m m' l (m.evalArgs args) (m'.evalArgs args) := by
  unfold Machine.evalArgs
  apply mapM
  intro arg
  cases arg with
  | hole index => apply Parallel.pure
  | _ =>
    apply bind (evalHeld hl _)
    intro value
    apply Parallel.pure

theorem evalLogical (hl : l ≠ .call) (op : BinaryOp) (left right : Expr)
    : Parallel m m' l (m.evalLogical op left right) (m'.evalLogical op left right) := by
  unfold Machine.evalLogical
  apply bind (evalHeld hl left)
  intro value
  apply bind (binaryHook? op value)
  intro found
  split
  . apply bind (eval hl right)
    intro operand
    apply callHook
  . apply bind (isTruthy value)
    intro truthy
    apply ite
    . apply Parallel.pure
    . apply eval hl

theorem evalCoalesce (hl : l ≠ .call) (left right : Expr)
    : Parallel m m' l (m.evalCoalesce left right) (m'.evalCoalesce left right) := by
  have handled (exception : Value)
      : let handle (m : Machine) : Run Value := m.withBlock do
          Run.forceLocal "__err__" exception
          m.eval right
        Parallel m m' l (handle m) (handle m') := by
    apply withBlock
    apply bind (forceLocal hl _ exception)
    intro
    apply eval hl
  unfold Machine.evalCoalesce
  apply capture (fun e => !e.isFatal) (eval hl left)
  . intro value
    apply ite
    . apply handled
    . apply Parallel.pure
  . intro e he
    simp_all
  . intro e he
    simp only [Bool.not_eq_true'] at he
    simp only [he, Bool.false_eq_true, if_false]
    apply bind (exceptionValue e)
    intro exception
    apply handled
  . intro e he
    simp only [he, Bool.not_true]

theorem evalWhen (hl : l ≠ .call) (otherwise : Option Expr) (cases : List WhenCase)
    : Parallel m m' l (m.evalWhen otherwise cases) (m'.evalWhen otherwise cases) := by
  induction cases with
  | nil => exact evalOptional hl otherwise
  | cons c cases ih =>
    cases c with
    | mk condition action =>
      unfold Machine.evalWhen
      apply bind (evalHeld hl condition)
      intro condition
      apply bind (isTruthy condition)
      intro holds
      apply ite
      . apply eval hl
      . exact ih

variable [SameFuel m m']

theorem evalEntries (hl : l ≠ .call) (handle : Handle) (items : List ObjectItem)
    : Parallel m m' l (m.evalEntries handle items) (m'.evalEntries handle items) := by
  induction items with
  | nil => apply Parallel.pure
  | cons item items ih =>
    cases item with
    | entry key value =>
      apply bind (evalEntry hl handle key value)
      intro
      exact ih
    | spread source =>
      unfold Machine.evalEntries
      apply bind (eval hl source)
      intro source
      split
      . apply bind getHeap
        intro heap
        apply bind
        . apply modifyHeap
          intro h
          exact .setMembers h handle _
        . intro
          exact ih
      . apply mismatch

theorem evalObject (hl : l ≠ .call) (items : List ObjectItem)
    : Parallel m m' l (m.evalObject items) (m'.evalObject items) := by
  unfold Machine.evalObject
  apply bind (alloc _ fun h => .newObject h .empty)
  intro handle
  apply bind (hold _)
  intro
  apply bind (evalEntries hl handle items)
  intro
  apply Parallel.pure

theorem equalsAny (hl : l ≠ .call) (input : Value) (candidates : List Expr)
    : Parallel m m' l (m.equalsAny input candidates) (m'.equalsAny input candidates) := by
  induction candidates with
  | nil => apply Parallel.pure
  | cons candidate rest ih =>
    unfold Machine.equalsAny
    apply bind (eval hl candidate)
    intro candidate
    apply bind (valuesEqual input candidate)
    intro equal
    apply ite
    . apply Parallel.pure
    . exact ih

theorem withinBound (hl : l ≠ .call) (input : Value) (bound : Option Expr) (inside : Comparison)
    (included : Bool)
    : Parallel m m' l (m.withinBound input bound inside included)
        (m'.withinBound input bound inside included) := by
  unfold Machine.withinBound
  split
  . apply Parallel.pure
  . apply bind (eval hl _)
    intro bound
    apply bind (compareValues input bound)
    intro c
    apply Parallel.pure

theorem valueMatches (hl : l ≠ .call) (pattern : Pattern) (input : Value)
    : Parallel m m' l (m.valueMatches pattern input) (m'.valueMatches pattern input) := by
  unfold Machine.valueMatches
  split
  . apply equalsAny hl
  . apply bind (withinBound hl input _ _ _)
    intro above
    apply ite
    . apply withinBound hl
    . apply Parallel.pure

theorem evalWhenValue (hl : l ≠ .call) (input : Value) (otherwise : Option Expr) (cases : List MatchCase)
    : Parallel m m' l (m.evalWhenValue input otherwise cases) (m'.evalWhenValue input otherwise cases) := by
  induction cases with
  | nil => exact evalOptional hl otherwise
  | cons c cases ih =>
    cases c with
    | mk pattern result =>
      unfold Machine.evalWhenValue
      apply bind (valueMatches hl pattern input)
      intro holds
      apply ite
      . apply eval hl
      . exact ih

theorem evalCall (hl : l ≠ .call) (code : Call)
    : Parallel m m' l (m.evalCall code) (m'.evalCall code) := by
  unfold Machine.evalCall
  apply bind (evalHeld hl _)
  intro callee
  apply bind (evalArgs hl _)
  intro args
  apply ite
  . apply newNative
  . apply applyArgs

theorem evalNew (hl : l ≠ .call) (cls : Expr) (args : List Arg)
    : Parallel m m' l (m.evalNew cls args) (m'.evalNew cls args) := by
  unfold Machine.evalNew
  apply bind (evalType hl _ cls)
  intro type
  apply bind (evalArgs hl args)
  intro args
  apply bind (placeArgs _ args [])
  intro args
  apply construct

theorem evalBinary (hl : l ≠ .call) (op : BinaryOp) (left right : Expr)
    : Parallel m m' l (m.evalBinary op left right) (m'.evalBinary op left right) := by
  unfold Machine.evalBinary
  split
  . apply evalLogical hl
  . apply evalLogical hl
  . apply evalCoalesce hl
  . apply bind (evalHeld hl left)
    intro a
    apply bind (evalHeld hl right)
    intro b
    apply binaryValues

theorem evalChain (hl : l ≠ .call) (left : Value) (links : List Link)
    : Parallel m m' l (m.evalChain left links) (m'.evalChain left links) := by
  induction links generalizing left with
  | nil => apply Parallel.pure
  | cons link links ih =>
    cases link with
    | mk op right =>
      unfold Machine.evalChain
      apply bind (evalHeld hl right)
      intro right
      apply bind (compareOp op left right)
      intro holds
      apply ite
      . apply ih
      . apply Parallel.pure

theorem evalExpr (hl : l ≠ .call) (e : Expr) : Parallel m m' l (m.evalExpr e) (m'.evalExpr e) := by
  cases e with
  | int i => exact .pure (Value.int i)
  | float f => exact .pure (Value.float f)
  | decimal text =>
    unfold Machine.evalExpr
    dsimp only
    split
    . apply Parallel.pure
    . apply mismatch
  | str s => exact .pure (Value.str s)
  | bytes data => exact newBytes _
  | bool b => exact .pure (Value.bool b)
  | nil => exact .pure Value.nil
  | undefined => exact .pure Value.undefined
  | toStr operand =>
    apply bind (evalHeld hl operand)
    intro value
    apply bind (stringify value)
    intro text
    apply Parallel.pure
  | array items =>
    apply bind (evalItems hl _ items)
    intro items
    apply newArray
  | object items => exact evalObject hl items
  | func code => exact makeClosure code
  | ident name => exact lookup name
  | member owner name =>
    apply bind (evalHeld hl owner)
    intro owner
    apply getMember
  | index owner key =>
    apply bind (evalHeld hl owner)
    intro owner
    apply bind (evalHeld hl key)
    intro key
    apply getIndex
  | slice container first last =>
    apply bind (evalHeld hl container)
    intro container
    apply bind (evalBound hl first)
    intro first
    apply bind (evalBound hl last)
    intro last
    apply sliceValue
  | call code => exact evalCall hl code
  | new cls args => exact evalNew hl cls args
  | binary op left right => exact evalBinary hl op left right
  | unary op operand =>
    apply bind (evalHeld hl operand)
    intro value
    apply unaryValue
  | compare first rest =>
    apply bind (evalHeld hl first)
    intro first
    apply evalChain hl
  | assign target value =>
    apply bind (evalHeld hl value)
    intro value
    apply bind (assignTo hl target value)
    intro
    apply Parallel.pure
  | define names shape value => exact evalDefine hl names shape value
  | defineAll value => exact evalDefineAll hl value
  | increment target delta before => exact evalIncrement hl target delta before
  | arrayOf head item => exact evalArrayOf hl head item
  | objectOf head key value => exact evalObjectOf hl head key value
  | when cases otherwise => exact evalWhen hl otherwise cases
  | whenValue input cases otherwise =>
    apply bind (evalHeld hl input)
    intro input
    apply evalWhenValue hl
  | use value closer => exact evalUse hl value closer
  | load path => exact importModule path false

end Expr

end Parallel

end ScriptEngine
