import ScriptEngine.Eval.Operators
import ScriptEngine.Proofs.Parallel.Basic

/-!
This module contains the steps of the rules on values: the access to members and items, texts,
comparisons and operators. They do nothing to the context but call what the script defines for its
values, and so they are at every level.
-/

namespace ScriptEngine

namespace Parallel

variable {m m' : Machine} {l : Level} {α β : Type}

section Access

theorem isCallable (value : Value) : Parallel m m' l (Run.isCallable value) (Run.isCallable value) :=
  read fun s => s.heap.isCallable value

theorem makeMember (owner member : Value)
    : Parallel m m' l (Run.makeMember owner member) (Run.makeMember owner member) := by
  unfold Run.makeMember
  split
  . apply bind (alloc _ fun h => .newTag h)
    intro tag
    apply Parallel.pure
  . apply Parallel.pure

theorem typeMember? (type : TypeRef) (name : String)
    : Parallel m m' l (Run.typeMember? type name) (Run.typeMember? type name) :=
  read fun s => s.heap.types.findMember? type name

theorem extension? (type : TypeRef) (name : String)
    : Parallel m m' l (Run.extension? type name) (Run.extension? type name) :=
  read fun s => s.world.extensions.find? s.heap.types type name

theorem commonMember? (name : String)
    : Parallel m m' l (Run.commonMember? name) (Run.commonMember? name) := by
  unfold Run.commonMember?
  split
  . apply bind (newNative _)
    intro
    apply Parallel.pure
  . apply bind (newNative _)
    intro
    apply Parallel.pure
  . apply Parallel.pure

theorem ownMember? (owner : Value) (name : String)
    : Parallel m m' l (Run.ownMember? owner name) (Run.ownMember? owner name) := by
  unfold Run.ownMember?
  split
  . apply bind getHeap
    intro
    apply Parallel.pure
  . apply Parallel.pure

/-- A member that was found is a hook if it can be called. -/
theorem foundHook (owner : Value) (found : Option Value)
    : let hook : Run (Option Value) :=
        match found with
        | some member => do
          if ← Run.isCallable member then return some (← Run.makeMember owner member) else return none
        | none => return none
      Parallel m m' l hook hook := by
  cases found with
  | none => exact .pure none
  | some member =>
    apply bind (isCallable member)
    intro callable
    apply ite
    . apply bind (makeMember owner member)
      intro
      apply Parallel.pure
    . apply Parallel.pure

theorem findHook (owner : Value) (name : String)
    : Parallel m m' l (Run.findHook owner name) (Run.findHook owner name) := by
  unfold Run.findHook
  apply bind getHeap
  intro heap
  apply bind (ownMember? owner name)
  intro own
  cases own with
  | some member => exact foundHook owner (some member)
  | none =>
    apply bind (typeMember? _ name)
    intro inherited
    cases inherited with
    | some member => exact foundHook owner (some member)
    | none =>
      apply bind (extension? _ name)
      intro found
      apply foundHook

theorem setMember (owner : Value) (name : String) (value : Value)
    : Parallel m m' l (Run.setMember owner name value) (Run.setMember owner name value) := by
  unfold Run.setMember
  split
  . exact modifyHeap _ fun h => .setMember h _ name value
  . exact modifyHeap _ fun h => .setStatics h _ [(name, value)]
  . apply mismatch

theorem requireIndex (index : Value)
    : Parallel m m' l (Run.requireIndex index) (Run.requireIndex index) := by
  unfold Run.requireIndex
  split
  . apply Parallel.pure
  . apply mismatch

theorem requireSlot (index : Int64) (length : Nat)
    : Parallel m m' l (Run.requireSlot index length) (Run.requireSlot index length) := by
  unfold Run.requireSlot
  split
  . apply Parallel.pure
  . apply raise

/-- What is left of the lookup of a member when the type has no answer. -/
theorem lastMember (owner : Value) (type : TypeRef) (name : String)
    : let last : Run Value := do
        if let some member ← Run.commonMember? name then
          return ← Run.makeMember owner member
        if let some member ← Run.extension? type name then
          return ← Run.makeMember owner member
        return .undefined
      Parallel m m' l last last := by
  apply bind (commonMember? name)
  intro common
  cases common with
  | some member => exact makeMember owner member
  | none =>
    apply bind (extension? type name)
    intro found
    cases found with
    | some member => exact makeMember owner member
    | none => apply Parallel.pure

theorem memberByType (owner : Value) (name : String)
    : Parallel m m' l (m.memberByType owner name) (m'.memberByType owner name) := by
  unfold Machine.memberByType
  apply bind getHeap
  intro heap
  apply bind (typeMember? _ name)
  intro inherited
  cases inherited with
  | some member => exact makeMember owner member
  | none =>
    apply bind (typeMember? _ "__getAttr__")
    intro found
    cases found with
    | none => exact lastMember owner _ name
    | some getAttr =>
      apply bind (isCallable getAttr)
      intro callable
      apply ite
      . apply bind (invoke getAttr owner _)
        intro value
        apply ite
        . apply makeMember
        . apply lastMember
      . apply lastMember

theorem firstDefined {f f' : α → Run Value} (h : ∀ a, Parallel m m' l (f a) (f' a)) (as : List α)
    : Parallel m m' l (Machine.firstDefined f as) (Machine.firstDefined f' as) := by
  induction as with
  | nil => apply Parallel.pure
  | cons a as ih =>
    unfold Machine.firstDefined
    apply bind (h a)
    intro value
    apply ite
    . exact ih
    . apply Parallel.pure

theorem getStatic.go (view : TypeRef) (name : String) (fuel : Nat) (type : TypeRef)
    : Parallel m m' l (Machine.getStatic.go m view name fuel type)
        (Machine.getStatic.go m' view name fuel type) := by
  induction fuel generalizing type with
  | zero => exact exhausted
  | succ fuel ih =>
    unfold Machine.getStatic.go
    apply bind getHeap
    intro heap
    have inherited
        : let own : Machine → Run Value := fun m => do
            let value ← Machine.firstDefined (fun base => Machine.getStatic.go m view name fuel base)
              (heap.types.bases type)
            if !value.isUndefined then
              return value
            if heap.types.id view != heap.types.id type then
              return .undefined
            match ← Run.extension? BuiltinType.type.ref name with
            | some member => Run.makeMember (.type view) member
            | none => return .undefined
          Parallel m m' l (own m) (own m') := by
      apply bind (firstDefined ih _)
      intro value
      apply ite
      . apply Parallel.pure
      . apply ite
        . apply Parallel.pure
        . apply bind (extension? _ name)
          intro found
          cases found with
          | some member => apply makeMember
          | none => apply Parallel.pure
    dsimp only
    split
    . apply Parallel.pure
    . split
      . next getAttr _ =>
        apply bind (isCallable getAttr)
        intro callable
        apply ite
        . apply invoke
        . exact inherited
      . exact inherited

theorem getStatic (type : TypeRef) (name : String)
    : Parallel m m' l (m.getStatic type name) (m'.getStatic type name) := by
  apply getStatic.go

theorem getMember (owner : Value) (name : String)
    : Parallel m m' l (m.getMember owner name) (m'.getMember owner name) := by
  unfold Machine.getMember
  split
  . apply bind getHeap
    intro heap
    split
    . apply makeMember
    . apply memberByType
  . apply getStatic
  . apply bind getHeap
    intro heap
    dsimp only
    split
    . apply Parallel.pure
    . apply newArray
    . apply memberByType
  . apply memberByType

theorem getIndex (owner index : Value)
    : Parallel m m' l (m.getIndex owner index) (m'.getIndex owner index) := by
  unfold Machine.getIndex
  split
  . apply getMember
  . split
    . apply bind (requireIndex index)
      intro i
      apply bind getHeap
      intro heap
      apply Parallel.pure
    . apply bind (requireIndex index)
      intro i
      apply bind getHeap
      intro heap
      dsimp only
      split
      . apply Parallel.pure
      . apply Parallel.pure
    . apply bind (requireIndex index)
      intro i
      dsimp only
      split
      . apply Parallel.pure
      . apply Parallel.pure
    . apply bind (getMember _ "__getItem__")
      intro getItem
      apply bind (isCallable getItem)
      intro callable
      apply ite
      . apply invoke
      . apply Parallel.pure
    . apply Parallel.pure
    . apply mismatch

theorem setIndex (owner index value : Value)
    : Parallel m m' l (m.setIndex owner index value) (m'.setIndex owner index value) := by
  unfold Machine.setIndex
  split
  . apply setMember
  . split
    . apply bind (requireIndex index)
      intro i
      apply bind getHeap
      intro heap
      apply bind (requireSlot i _)
      intro slot
      exact modifyHeap _ fun h => .modifyItems h _ _
    . apply bind (requireIndex index)
      intro i
      split
      . apply mismatch
      . apply bind getHeap
        intro heap
        apply bind (requireSlot i _)
        intro slot
        exact modifyHeap _ fun h => .modifyData h _ _
    . apply bind (getMember _ "__setItem__")
      intro setItem
      apply bind (isCallable setItem)
      intro callable
      apply ite
      . apply bind (invoke setItem .undefined _)
        intro
        apply Parallel.pure
      . apply mismatch
    . apply mismatch

end Access

section Text

theorem isTruthy (value : Value) : Parallel m m' l (m.isTruthy value) (m'.isTruthy value) := by
  unfold Machine.isTruthy
  split
  . apply bind (findHook _ "__true__")
    intro found
    cases found with
    | some hook =>
      apply bind (invoke hook .undefined [])
      intro answer
      apply bind getHeap
      intro heap
      apply Parallel.pure
    | none =>
      apply bind getHeap
      intro heap
      apply Parallel.pure
  . apply bind getHeap
    intro heap
    apply Parallel.pure

variable [SameFuel m m']

theorem display (value : Value) : Parallel m m' l (m.display value) (m'.display value) := by
  unfold Machine.display
  rw [fuel_eq m m']
  apply bind getHeap
  intro heap
  apply ofOption

theorem stringify.go (depth : Nat) (value : Value)
    : Parallel m m' l (Machine.stringify.go m depth value) (Machine.stringify.go m' depth value) := by
  induction depth generalizing value with
  | zero => exact exhausted
  | succ depth ih =>
    unfold Machine.stringify.go
    split
    . apply Parallel.pure
    . apply bind getHeap
      intro heap
      apply bind (mapM ih _)
      intro parts
      apply Parallel.pure
    . apply bind (findHook _ "__str__")
      intro found
      cases found with
      | some hook =>
        apply bind (invoke hook .undefined [])
        intro answer
        apply display
      | none =>
        apply bind getHeap
        intro heap
        apply bind
        . apply mapM
          intro entry
          apply bind (ih entry.2)
          intro text
          apply Parallel.pure
        . intro parts
          apply Parallel.pure
    . apply bind (findHook _ "__str__")
      intro found
      cases found with
      | some hook =>
        apply bind (invoke hook .undefined [])
        intro answer
        apply display
      | none => apply display

theorem stringify (value : Value) : Parallel m m' l (m.stringify value) (m'.stringify value) := by
  unfold Machine.stringify
  rw [fuel_eq m m']
  apply stringify.go

theorem evalKey (hl : l ≠ .call) (key : Expr) : Parallel m m' l (m.evalKey key) (m'.evalKey key) := by
  unfold Machine.evalKey
  apply bind (evalHeld hl key)
  intro value
  apply stringify

theorem evalEntry (hl : l ≠ .call) (handle : Handle) (key value : Expr)
    : Parallel m m' l (m.evalEntry handle key value) (m'.evalEntry handle key value) := by
  unfold Machine.evalEntry
  apply lettingGo
  apply bind (evalKey hl key)
  intro name
  apply bind (eval hl value)
  intro member
  exact modifyHeap _ fun h => .setMember h _ name member

theorem fillPlaceholder (placeholder : String) (values : List Value)
    : Parallel m m' l (m.fillPlaceholder placeholder values) (m'.fillPlaceholder placeholder values) := by
  cases values with
  | nil => apply Parallel.pure
  | cons value values =>
    apply bind (stringify value)
    intro text
    apply Parallel.pure

theorem format.go (out : String) (values : List Value) (cs : List Char)
    : Parallel m m' l (Machine.format.go m out values cs) (Machine.format.go m' out values cs) := by
  fun_induction Machine.format.go m out values cs with
  | case1 =>
    rw [Machine.format.go]
    apply Parallel.pure
  | case2 out values cs ih =>
    rw [Machine.format.go]
    apply bind (fillPlaceholder _ values)
    intro filled
    apply ih
  | case3 out values cs ih =>
    rw [Machine.format.go]
    apply bind (fillPlaceholder _ values)
    intro filled
    apply ih
  | case4 out values cs ih =>
    rw [Machine.format.go]
    apply bind (fillPlaceholder _ values)
    intro filled
    apply ih
  | case5 out values cs ih =>
    rw [Machine.format.go]
    apply bind (fillPlaceholder _ values)
    intro filled
    apply ih
  | case6 out values cs ih =>
    rw [Machine.format.go]
    exact ih
  | case7 out values c cs h1 h2 h3 h4 h5 ih =>
    rw [Machine.format.go]
    . exact ih
    all_goals assumption

theorem format (template : String) (values : List Value)
    : Parallel m m' l (m.format template values) (m'.format template values) := by
  apply format.go

end Text

section Compare

theorem callHook (hook operand : Value)
    : Parallel m m' l (m.callHook hook operand) (m'.callHook hook operand) := by
  apply invoke

theorem askHook (hook operand : Value)
    : Parallel m m' l (m.askHook hook operand) (m'.askHook hook operand) := by
  unfold Machine.askHook
  apply bind (callHook hook operand)
  intro answer
  apply isTruthy

theorem equalBy {compare compare' : Value → Value → Run Comparison}
    (h : ∀ a b, Parallel m m' l (compare a b) (compare' a b)) (a b : Value)
    : Parallel m m' l (m.equalBy compare a b) (m'.equalBy compare' a b) := by
  unfold Machine.equalBy
  apply bind (findHook a "__eq__")
  intro found
  cases found with
  | some hook => exact askHook hook b
  | none =>
    apply bind (h a b)
    intro c
    apply Parallel.pure

theorem compareItems {compare compare' : Value → Value → Run Comparison}
    (h : ∀ a b, Parallel m m' l (compare a b) (compare' a b)) (as bs : List Value)
    : Parallel m m' l (Machine.compareItems compare as bs) (Machine.compareItems compare' as bs) := by
  induction as generalizing bs with
  | nil => cases bs <;> apply Parallel.pure
  | cons a as ih =>
    cases bs with
    | nil => apply Parallel.pure
    | cons b bs =>
      unfold Machine.compareItems
      apply bind (h a b)
      intro c
      apply ite
      . apply ih
      . apply Parallel.pure

theorem sameMembers {equal equal' : Value → Value → Run Bool}
    (h : ∀ a b, Parallel m m' l (equal a b) (equal' a b)) (other : Members)
    (entries : List (String × Value))
    : Parallel m m' l (Machine.sameMembers equal other entries)
        (Machine.sameMembers equal' other entries) := by
  induction entries with
  | nil => apply Parallel.pure
  | cons entry rest ih =>
    unfold Machine.sameMembers
    split
    . apply Parallel.pure
    . apply bind (h _ _)
      intro same
      apply ite
      . exact ih
      . apply Parallel.pure

variable [SameFuel m m']

theorem compareIdentity (a b : Value)
    : Parallel m m' l (m.compareIdentity a b) (m'.compareIdentity a b) := by
  unfold Machine.compareIdentity
  rw [fuel_eq m m']
  apply bind getHeap
  intro heap
  apply bind (ofOption _)
  intro same
  apply Parallel.pure

theorem compareValues.go (depth : Nat) (a b : Value)
    : Parallel m m' l (Machine.compareValues.go m depth a b) (Machine.compareValues.go m' depth a b) := by
  induction depth generalizing a b with
  | zero => exact exhausted
  | succ depth ih =>
    unfold Machine.compareValues.go
    split
    case h_1 => apply Parallel.pure
    case h_2 =>
      apply ite
      . apply Parallel.pure
      . apply bind getHeap
        intro heap
        apply Parallel.pure
    case h_3 =>
      apply ite
      . apply Parallel.pure
      . apply bind getHeap
        intro heap
        apply compareItems ih
    case h_4 =>
      apply ite
      . apply Parallel.pure
      . apply bind getHeap
        intro heap
        apply ite
        . apply Parallel.pure
        . apply bind (sameMembers (equalBy ih) _ _)
          intro same
          apply Parallel.pure
    case h_5 => apply Parallel.pure
    case h_6 => apply Parallel.pure
    case h_7 => apply Parallel.pure
    case h_13 =>
      split
      . apply Parallel.pure
      . apply Parallel.pure
    all_goals apply compareIdentity

theorem compareValues (a b : Value)
    : Parallel m m' l (m.compareValues a b) (m'.compareValues a b) := by
  unfold Machine.compareValues
  rw [fuel_eq m m']
  apply compareValues.go

theorem valuesEqual (a b : Value) : Parallel m m' l (m.valuesEqual a b) (m'.valuesEqual a b) := by
  apply equalBy compareValues

theorem compareOp (op : CompareOp) (a b : Value)
    : Parallel m m' l (m.compareOp op a b) (m'.compareOp op a b) := by
  unfold Machine.compareOp
  apply bind (findHook a op.hook)
  intro found
  cases found with
  | some hook => exact askHook hook b
  | none =>
    cases op
    case eq => exact valuesEqual a b
    case ne =>
      apply bind (valuesEqual a b)
      intro same
      apply Parallel.pure
    all_goals
      apply bind (compareValues a b)
      intro c
      apply Parallel.pure

end Compare

section Operators

theorem activationValue (a : Activation)
    : Parallel m m' l (Run.activationValue a) (Run.activationValue a) := by
  apply newArray

theorem exceptionValue (e : Error)
    : Parallel m m' l (Run.exceptionValue e) (Run.exceptionValue e) := by
  unfold Run.exceptionValue
  apply bind (mapM activationValue _)
  intro stack
  apply bind (newArray _)
  intro stack
  apply newObject

theorem repeatCount (unit : Nat) (count : Int64)
    : Parallel m m' l (Run.repeatCount unit count) (Run.repeatCount unit count) := by
  unfold Run.repeatCount
  split
  . apply Parallel.pure
  . apply ite
    . apply Parallel.pure
    . apply raise

/-- Notes say nothing about where an error arose. -/
theorem raiseWithHostNotes {e : Error} (he : e.backtrace = none) (operands : List Value)
    : Parallel m m' l (Run.withHostNotes e operands >>= Run.raiseError : Run α)
        (Run.withHostNotes e operands >>= Run.raiseError) := by
  unfold Run.withHostNotes
  simp only [bind_assoc]
  apply bind getSettings
  intro settings
  split
  . simp only [pure_bind]
    exact raiseError e he
  . simp only [bind_assoc, pure_bind]
    apply bind getHeap
    intro heap
    apply raiseError
    induction operands generalizing e with
    | nil => exact he
    | cons operand operands ih =>
      apply ih
      cases operand <;> exact he

theorem operandMismatch (op : BinaryOp) (left right : Value)
    : Parallel m m' l (Run.operandMismatch op left right : Run α)
        (Run.operandMismatch op left right) := by
  unfold Run.operandMismatch
  apply bind getHeap
  intro heap
  apply raiseWithHostNotes
  rfl

theorem binaryHook? (op : BinaryOp) (left : Value)
    : Parallel m m' l (Machine.binaryHook? op left) (Machine.binaryHook? op left) := by
  unfold Machine.binaryHook?
  split
  . apply findHook
  . apply Parallel.pure

theorem typeTest (left right : Value)
    : Parallel m m' l (m.typeTest left right) (m'.typeTest left right) := by
  unfold Machine.typeTest
  apply bind (findHook left "__is__")
  intro found
  cases found with
  | some hook => exact callHook hook right
  | none =>
    dsimp only
    split
    . apply bind getHeap
      intro heap
      apply Parallel.pure
    . apply mismatch

theorem unaryValue (op : UnaryOp) (operand : Value)
    : Parallel m m' l (m.unaryValue op operand) (m'.unaryValue op operand) := by
  unfold Machine.unaryValue
  split
  . apply bind (isTruthy _)
    intro truthy
    apply Parallel.pure
  . apply Parallel.pure
  . apply Parallel.pure
  . apply Parallel.pure
  . apply Parallel.pure
  . apply bind getHeap
    intro heap
    apply raiseWithHostNotes
    rfl

variable [SameFuel m m']

theorem combine? (op : BinaryOp) (left right : Value)
    : Parallel m m' l (m.combine? op left right) (m'.combine? op left right) := by
  unfold Machine.combine?
  split
  . apply bind (stringify right)
    intro text
    apply Parallel.pure
  . apply bind getHeap
    intro heap
    apply bind (newArray _)
    intro value
    apply Parallel.pure
  . apply bind getHeap
    intro heap
    apply bind (newBytes _)
    intro value
    apply Parallel.pure
  . apply bind (repeatCount _ _)
    intro count
    apply Parallel.pure
  . apply bind getHeap
    intro heap
    apply bind (repeatCount _ _)
    intro count
    apply bind (newArray _)
    intro value
    apply Parallel.pure
  . apply bind getHeap
    intro heap
    apply bind (format _ _)
    intro text
    apply Parallel.pure
  . apply Parallel.pure

theorem builtinBinary? (op : BinaryOp) (left right : Value)
    : Parallel m m' l (m.builtinBinary? op left right) (m'.builtinBinary? op left right) := by
  unfold Machine.builtinBinary?
  split
  . apply bind getSettings
    intro settings
    apply ofExcept
  . apply combine?

theorem binaryValues (op : BinaryOp) (left right : Value)
    : Parallel m m' l (m.binaryValues op left right) (m'.binaryValues op left right) := by
  unfold Machine.binaryValues
  apply ite
  . apply typeTest
  . apply bind (builtinBinary? op left right)
    intro value
    split
    . apply Parallel.pure
    . apply bind (binaryHook? op left)
      intro hook
      split
      . apply callHook
      . split
        . apply bind (stringify left)
          intro a
          apply bind (stringify _)
          intro b
          apply Parallel.pure
        . apply operandMismatch

end Operators

section Calls

theorem notCallable (value : Value)
    : Parallel m m' l (Run.notCallable value : Run α) (Run.notCallable value) := by
  unfold Run.notCallable
  apply bind getHeap
  intro heap
  apply raise

theorem construct (type : TypeRef) (args : List Value)
    : Parallel m m' l (m.construct type args) (m'.construct type args) := by
  unfold Machine.construct
  apply bind (alloc _ fun h => .newInstance h type .empty)
  intro handle
  apply bind (hold _)
  intro
  apply bind (getMember _ "__init__")
  intro init
  apply bind (isCallable init)
  intro callable
  apply ite
  . apply bind (invoke init .undefined args)
    intro
    apply Parallel.pure
  . apply Parallel.pure

variable [SameFuel m m']

theorem argNames (callee : Value) : Parallel m m' l (m.argNames callee) (m'.argNames callee) := by
  unfold Machine.argNames
  rw [fuel_eq m m']
  apply bind getHeap
  intro heap
  apply ofOption

theorem placeArgs (callee : Value) (args : List PendingArg) (supplied : List Value)
    : Parallel m m' l (m.placeArgs callee args supplied) (m'.placeArgs callee args supplied) := by
  unfold Machine.placeArgs
  dsimp only
  split
  . apply bind (argNames callee)
    intro params
    apply bind getHeap
    intro heap
    apply ofExcept
  . apply bind (Parallel.pure [])
    intro params
    apply bind getHeap
    intro heap
    apply ofExcept

theorem applyArgs (callee : Value) (args : List PendingArg) (supplied : List Value) (isOptional : Bool)
    : Parallel m m' l (m.applyArgs callee args supplied isOptional)
        (m'.applyArgs callee args supplied isOptional) := by
  unfold Machine.applyArgs
  apply bind (isCallable callee)
  intro callable
  apply ite
  . apply bind (placeArgs callee args supplied)
    intro args
    apply invoke
  . apply ite
    . apply Parallel.pure
    . apply notCallable

end Calls

section Threads

theorem startThread (callee : Value) (args : List Value)
    : Parallel m m' l (m.startThread callee args) (m'.startThread callee args) := by
  unfold Machine.startThread
  apply bind (isCallable callee)
  intro callable
  apply ite
  . apply notCallable
  . apply bind (spawn callee args)
    intro outcome
    apply bind getWorld
    intro world
    apply bind (alloc _ fun h => .newInstance h _ .empty)
    intro handle
    refine bind (modifyHeap _ fun h => ⟨rfl, .setReserved h handle _⟩) ?_
    intro
    apply Parallel.pure

theorem threadOutcome (handle : Handle)
    : Parallel m m' l (Run.threadOutcome handle) (Run.threadOutcome handle) := by
  unfold Run.threadOutcome
  apply bind getHeap
  intro heap
  split
  . apply Parallel.pure
  . apply raise

/-- Where an error arose on its thread is not where it is raised again. -/
theorem raiseThreadFailure (inner : Error)
    : Parallel m m' l (Run.threadFailure inner >>= Run.raiseError : Run α)
        (Run.threadFailure inner >>= Run.raiseError) := by
  unfold Run.threadFailure
  split
  . simp only [pure_bind]
    exact raiseError _ rfl
  . simp only [bind_assoc, pure_bind]
    apply bind (exceptionValue inner)
    intro payload
    exact raiseError _ rfl

theorem joinThread (handle : Handle)
    : Parallel m m' l (Run.joinThread handle) (Run.joinThread handle) := by
  unfold Run.joinThread
  apply bind (threadOutcome handle)
  intro outcome
  cases outcome with
  | ok value => exact .pure value
  | error e => exact raiseThreadFailure e

theorem threadError (handle : Handle)
    : Parallel m m' l (Run.threadError handle) (Run.threadError handle) := by
  unfold Run.threadError
  apply bind (threadOutcome handle)
  intro outcome
  cases outcome with
  | ok value => apply Parallel.pure
  | error e => exact exceptionValue e

end Threads

end Parallel

end ScriptEngine
