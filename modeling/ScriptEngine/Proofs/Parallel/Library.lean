import ScriptEngine.Library.Routines
import ScriptEngine.Proofs.Parallel.Stmt

/-!
This module contains the steps of the functions that are not written in the script, and of what a
call does before its function is entered. They do nothing to the context of their caller.
-/

namespace ScriptEngine

namespace Run

variable {α β : Type} {scope : ScopeRef}

/-- A computation that changes nothing but the heap, where of the scopes only one gets bindings. -/
def Fills (scope : ScopeRef) (x : Run α) : Prop :=
  ∀ s, ∃ a heap, x s = .ok a { s with heap := heap } ∧
    (∀ other, heap.scopes.Has other ↔ s.heap.scopes.Has other) ∧
    (∀ other n, other ≠ scope → heap.scopes.own? other n = s.heap.scopes.own? other n) ∧
    s.heap.Keeps heap

theorem fills_read {x : Run α} (hx : ∀ s, ∃ a, x s = .ok a s) : x.Fills scope := by
  intro s
  rcases hx s with ⟨a, ha⟩
  exact ⟨a, s.heap, ha, fun _ => Iff.rfl, fun _ _ _ => rfl, .refl _⟩

theorem fills_pure (a : α) : (pure a : Run α).Fills scope := fills_read fun _ => ⟨a, rfl⟩

theorem fills_alloc (f : Heap → α × Heap) (hf : ∀ h : Heap, h.Spares (f h).2) : (alloc f).Fills scope := by
  intro s
  refine ⟨(f s.heap).1, (f s.heap).2, rfl, ?_, ?_, (hf s.heap).keeps⟩
  . intro other
    rw [(hf s.heap).scopes]
  . intro other n _
    rw [(hf s.heap).scopes]

theorem Fills.bind {x : Run α} {f : α → Run β} (hx : x.Fills scope) (hf : ∀ a, (f a).Fills scope)
    : (x >>= f).Fills scope := by
  intro s
  rcases hx s with ⟨a, heap, hx, hhas, hown, hkeeps⟩
  rcases hf a { s with heap := heap } with ⟨b, heap', hf, hhas', hown', hkeeps'⟩
  refine ⟨b, heap', ?_, ?_, ?_, hkeeps.trans hkeeps'⟩
  . rw [bind_ok hx, hf]
  . intro other
    exact (hhas' other).trans (hhas other)
  . intro other n hother
    exact (hown' other n hother).trans (hown other n hother)

theorem bindIn_fills (name : String) (value : Value) : (bindIn scope name value).Fills scope := by
  intro s
  refine ⟨(), { s.heap with scopes := s.heap.scopes.force scope name value }, rfl, ?_, ?_, .ofSame ⟨rfl, rfl, rfl, rfl⟩⟩
  . intro other
    exact Scopes.has_force
  . intro other n hother
    unfold Scopes.force
    split
    . rfl
    . exact (Scopes.own?_put ..).trans (if_neg fun h => hother h.1)

theorem bindParams_fills (rest : Bool) (names : List String) (args : List Value)
    : (bindParams scope rest names args).Fills scope := by
  fun_induction bindParams scope rest names args with
  | case1 => exact fills_pure ()
  | case2 name args =>
    apply (fills_alloc _ fun h => .newArray h _).bind
    intro items
    apply bindIn_fills
  | case3 name args => apply bindIn_fills
  | case4 name names args _ ih =>
    apply (bindIn_fills name _).bind
    intro
    exact ih

theorem ownerInUse_reads (closure : Closure) (owner : TypeRef) (handle : Handle) (args : List Value) (s : State)
    : ∃ used, ownerInUse closure owner handle args s = .ok used s := by
  have hinherited : ∃ used, (do
      if s.heap.types.isSubOf (s.heap.inst handle).type owner then
        return true
      inUse (.type owner) (.scope closure.scope :: (Value.object handle).cells ++ args.flatMap Value.cells)
      : Run Bool) s = .ok used s := by
    split
    . exact ⟨_, rfl⟩
    . exact ⟨_, rfl⟩
  unfold ownerInUse
  rw [bind_ok (rfl : getHeap s = .ok s.heap s)]
  cases s.heap.scopes.lookup? closure.scope (s.heap.types.name owner) with
  | none => exact hinherited
  | some value =>
    cases value with
    | type type =>
      dsimp only
      by_cases htype : type = owner
      . rw [if_pos htype]
        exact ⟨true, rfl⟩
      . rw [if_neg htype]
        exact hinherited
    | _ => exact hinherited

theorem ownerInUse_fills (closure : Closure) (owner : TypeRef) (handle : Handle) (args : List Value)
    : (ownerInUse closure owner handle args).Fills scope :=
  fills_read (ownerInUse_reads closure owner handle args)

theorem bindReceiver_fills (closure : Closure) (this : Value) (args : List Value)
    : (bindReceiver scope closure this args).Fills scope := by
  unfold bindReceiver
  split
  . apply (ownerInUse_fills closure _ _ args).bind
    intro used
    split
    . apply (fills_alloc _ fun h => .superView h _ _).bind
      intro view
      apply (bindIn_fills "super" _).bind
      intro
      apply fills_pure
    . apply fills_pure
  . apply fills_pure

theorem callScope_opensScope (closure : Closure) (this : Value) (args : List Value)
    : (callScope closure this args).OpensScope id := by
  let fill (scope : ScopeRef) : Run Unit := do
    let this ← bindReceiver scope closure this args
    bindIn scope "this" this
    bindIn scope "arguments" (← newArray args.toArray)
    bindParams scope closure.code.rest closure.code.params args
  have hcall : callScope closure this args =
      alloc (·.newScope (some closure.scope)) >>= fun scope => fill scope >>= fun _ => pure scope := by
    simp only [callScope, fill, bind_assoc]
  have hfill (scope : ScopeRef) : (fill scope).Fills scope := by
    apply (bindReceiver_fills closure this args).bind
    intro this
    apply (bindIn_fills "this" this).bind
    intro
    apply (fills_alloc _ fun h => .newArray h _).bind
    intro arguments
    apply (bindIn_fills "arguments" arguments).bind
    intro
    apply bindParams_fills
  intro s
  have hmade := Scopes.made_add s.heap.scopes (some closure.scope)
  let scope := (s.heap.newScope (some closure.scope)).1
  rcases hfill scope { s with heap := (s.heap.newScope (some closure.scope)).2 }
    with ⟨_, heap, hfilled, hhas, hown, hkeeps⟩
  have hnew : s.heap.Keeps (s.heap.newScope (some closure.scope)).2 := .ofSame ⟨rfl, rfl, rfl, rfl⟩
  refine ⟨scope, heap, ?_, ⟨hmade.fresh, ?_, ?_⟩, hnew.trans hkeeps⟩
  . rw [hcall]
    show (fill scope >>= fun _ => pure scope) { s with heap := (s.heap.newScope (some closure.scope)).2 } = _
    rw [bind_ok hfilled, pure_apply]
  . intro other hother
    exact (hhas other).mpr (hmade.opened.has hother)
  . intro other hother n
    have hne : other ≠ scope := by
      intro heq
      rw [heq] at hother
      exact hmade.fresh hother
    exact (hown other n hne).trans (hmade.opened.own hother n)

theorem openCall_opensScope (ref : ClosureRef) (this : Value) (args : List Value)
    : (openCall ref this args).OpensScope Prod.snd := by
  intro s
  rcases callScope_opensScope (s.heap.closure ref) this args s with ⟨scope, heap, hscope, hopened⟩
  refine ⟨((s.heap.closure ref).code, scope), heap, ?_, hopened⟩
  show (callScope (s.heap.closure ref) this args >>= fun scope =>
    pure ((s.heap.closure ref).code, scope)) s = _
  rw [bind_ok hscope, pure_apply]

end Run

namespace Parallel

variable {m m' : Machine} {l : Level}

section Calls

theorem openNative (ref : NativeRef) (this : Value) (args : List Value)
    : Parallel m m' l (Run.openNative ref this args) (Run.openNative ref this args) := by
  unfold Run.openNative
  apply bind (hold this)
  intro
  apply bind (holdAll args)
  intro
  apply bind getHeap
  intro heap
  apply Parallel.pure

end Calls

section Functions

theorem print (text : String) : Parallel m m' l (Run.print text) (Run.print text) := by
  exact modifyWorld _ fun _ => ⟨rfl, rfl, rfl⟩

theorem println (text : String) : Parallel m m' l (Run.println text) (Run.println text) := by
  exact modifyWorld _ fun _ => ⟨rfl, rfl, rfl⟩

theorem wordArgs (args : List Value) : Parallel m m' l (Library.wordArgs args) (Library.wordArgs args) := by
  fun_induction Library.wordArgs args with
  | case1 => apply Parallel.pure
  | case2 i rest ih =>
    apply bind ih
    intro words
    apply Parallel.pure
  | case3 other => apply mismatch

theorem rangeArray (args : List Value)
    : Parallel m m' l (Library.rangeArray args) (Library.rangeArray args) := by
  unfold Library.rangeArray
  apply bind (wordArgs args)
  intro words
  apply bind
  . show Parallel m m' l (Library.rangeBounds words) (Library.rangeBounds words)
    unfold Library.rangeBounds
    split
    . apply Parallel.pure
    . apply Parallel.pure
    . apply Parallel.pure
    . apply fail
  . intro bounds
    apply ite
    . apply fail
    . apply newArray

variable [SameFuel m m']

theorem joinArgs (args : List Value)
    : Parallel m m' l (Library.joinArgs m args) (Library.joinArgs m' args) := by
  unfold Library.joinArgs
  apply bind (mapM stringify args)
  intro parts
  apply Parallel.pure

theorem pickFrom (wanted : Comparison) (best : Value) (items : List Value)
    : Parallel m m' l (Library.pick.go m wanted best items) (Library.pick.go m' wanted best items) := by
  induction items generalizing best with
  | nil => apply Parallel.pure
  | cons item items ih =>
    unfold Library.pick.go
    apply bind (compareValues item best)
    intro c
    apply ih

theorem pick (wanted : Comparison) (args : List Value)
    : Parallel m m' l (Library.pick m wanted args) (Library.pick m' wanted args) := by
  unfold Library.pick
  split
  case' h_1 =>
    apply bind getHeap
    intro heap
  all_goals
    apply bind (Parallel.pure _)
    intro items
    cases items with
    | nil => apply Parallel.pure
    | cons best rest => apply pickFrom

theorem runBuiltin (function : Builtin) (args : List Value)
    : Parallel m m' l (Library.runBuiltin m function args) (Library.runBuiltin m' function args) := by
  cases function with
  | println =>
    apply bind (joinArgs args)
    intro text
    apply bind (println text)
    intro
    apply Parallel.pure
  | print =>
    apply bind (joinArgs args)
    intro text
    apply bind (print text)
    intro
    apply Parallel.pure
  | str =>
    apply bind (stringify _)
    intro text
    apply Parallel.pure
  | int =>
    unfold Library.runBuiltin
    dsimp only
    split
    . apply Parallel.pure
    . apply mismatch
  | float =>
    unfold Library.runBuiltin
    dsimp only
    split
    . apply Parallel.pure
    . apply mismatch
  | len =>
    apply bind getHeap
    intro heap
    split
    . apply Parallel.pure
    . apply mismatch
  | type =>
    apply bind getHeap
    intro heap
    apply Parallel.pure
  | typeName =>
    apply bind getHeap
    intro heap
    apply Parallel.pure
  | range => exact rangeArray args
  | isUndefined => apply Parallel.pure
  | isCallable =>
    apply bind (isCallable _)
    intro callable
    apply Parallel.pure
  | isArray =>
    unfold Library.runBuiltin
    dsimp only
    split
    . apply Parallel.pure
    . apply Parallel.pure
  | isObject =>
    unfold Library.runBuiltin
    dsimp only
    split
    . apply Parallel.pure
    . apply Parallel.pure
  | spawn =>
    cases args with
    | nil => exact fail _
    | cons callee rest => exact startThread callee rest
  | load =>
    unfold Library.runBuiltin
    dsimp only
    split
    . apply bind getHeap
      intro heap
      apply importModule
    . apply mismatch
  | min => exact pick .lt args
  | max => exact pick .gt args

end Functions

section Methods

theorem strArg (args : List Value) (i : Nat) (what : String)
    : Parallel m m' l (Library.strArg args i what) (Library.strArg args i what) := by
  unfold Library.strArg
  split
  . apply Parallel.pure
  . apply mismatch

theorem callableArg (args : List Value) (i : Nat) (what : String)
    : Parallel m m' l (Library.callableArg args i what) (Library.callableArg args i what) := by
  unfold Library.callableArg
  apply bind (isCallable _)
  intro callable
  apply ite
  . apply Parallel.pure
  . apply mismatch

theorem thisStr (this : Value) : Parallel m m' l (Library.thisStr this) (Library.thisStr this) := by
  unfold Library.thisStr
  split
  . apply Parallel.pure
  . apply mismatch

theorem thisArray (this : Value) : Parallel m m' l (Library.thisArray this) (Library.thisArray this) := by
  unfold Library.thisArray
  split
  . apply Parallel.pure
  . apply mismatch

theorem thisItems (this : Value) : Parallel m m' l (Library.thisItems this) (Library.thisItems this) := by
  unfold Library.thisItems
  apply bind (thisArray this)
  intro ref
  apply bind getHeap
  intro heap
  apply Parallel.pure

theorem thisEntries (this : Value)
    : Parallel m m' l (Library.thisEntries this) (Library.thisEntries this) := by
  unfold Library.thisEntries
  split
  . apply bind getHeap
    intro heap
    apply Parallel.pure
  . apply mismatch

theorem thisBytes (this : Value) : Parallel m m' l (Library.thisBytes this) (Library.thisBytes this) := by
  unfold Library.thisBytes
  split
  . apply bind getHeap
    intro heap
    apply Parallel.pure
  . apply mismatch

theorem mapItem (mapper item : Value) (i : Nat)
    : Parallel m m' l (Library.mapItem m mapper item i) (Library.mapItem m' mapper item i) := by
  unfold Library.mapItem
  split
  . apply getMember
  . apply getIndex
  . apply bind (isCallable mapper)
    intro callable
    apply ite
    . apply invoke
    . apply mismatch

theorem mapItems (mapper : Value) (i : Nat) (out : Array Value) (items : List Value)
    : Parallel m m' l (Library.mapItems m mapper i out items) (Library.mapItems m' mapper i out items) := by
  induction items generalizing i out with
  | nil => apply Parallel.pure
  | cons item items ih =>
    unfold Library.mapItems
    apply bind
    . apply lettingGo
      apply bind (holdAll items)
      intro
      apply mapItem
    . intro value
      apply bind (hold value)
      intro
      apply ih

theorem filterItems (f : Value) (i : Nat) (out : Array Value) (items : List Value)
    : Parallel m m' l (Library.filterItems m f i out items) (Library.filterItems m' f i out items) := by
  induction items generalizing i out with
  | nil => apply Parallel.pure
  | cons item items ih =>
    unfold Library.filterItems
    apply bind
    . apply lettingGo
      apply bind (holdAll _)
      intro
      apply bind (invoke f .undefined _)
      intro answer
      apply isTruthy
    . intro kept
      apply ite
      . apply bind (hold item)
        intro
        apply ih
      . apply ih

theorem eachEntry (f this : Value) (entries : List (String × Value))
    : Parallel m m' l (Library.eachEntry m f this entries) (Library.eachEntry m' f this entries) := by
  induction entries with
  | nil => apply Parallel.pure
  | cons entry rest ih =>
    unfold Library.eachEntry
    apply bind
    . apply lettingGo
      apply bind (keep (.entries rest) rfl)
      intro
      apply invoke
    . intro
      exact ih

theorem callTimes (f : Value) (n : Nat) (i : Int64)
    : Parallel m m' l (Library.callTimes m f n i) (Library.callTimes m' f n i) := by
  induction n generalizing i with
  | zero => apply Parallel.pure
  | succ n ih =>
    unfold Library.callTimes
    apply bind (invoke f .undefined _)
    intro
    apply ih

theorem strArray (parts : List String)
    : Parallel m m' l (Library.strArray parts) (Library.strArray parts) := by
  apply newArray

theorem splitStr (s : String) (args : List Value)
    : Parallel m m' l (Library.splitStr s args) (Library.splitStr s args) := by
  unfold Library.splitStr
  apply ite
  . apply strArray
  . apply bind (strArg args 0 _)
    intro sep
    split
    . apply ite
      . apply strArray
      . apply strArray
    . apply strArray

theorem times (this : Value) (args : List Value)
    : Parallel m m' l (Library.times m this args) (Library.times m' this args) := by
  unfold Library.times
  split
  . apply ite
    . apply fail
    . apply ite
      . apply newArray
      . apply bind (callableArg args 0 _)
        intro f
        apply bind (callTimes f _ 0)
        intro
        apply Parallel.pure
  . apply mismatch

variable [SameFuel m m']

theorem containsItem (needle : Value) (items : List Value)
    : Parallel m m' l (Library.containsItem m needle items) (Library.containsItem m' needle items) := by
  induction items with
  | nil => apply Parallel.pure
  | cons item items ih =>
    unfold Library.containsItem
    apply bind (valuesEqual item needle)
    intro equal
    apply ite
    . apply Parallel.pure
    . exact ih

theorem runMethod (method : Method) (this : Value) (args : List Value)
    : Parallel m m' l (Library.runMethod m method this args) (Library.runMethod m' method this args) := by
  cases method with
  | arrayLen =>
    apply bind (thisItems this)
    intro items
    apply Parallel.pure
  | arrayPush =>
    apply bind (thisArray this)
    intro ref
    refine bind (modifyHeap _ fun h => .modifyItems h ref _) ?_
    intro
    apply Parallel.pure
  | arrayPop =>
    apply bind (thisArray this)
    intro ref
    apply bind getHeap
    intro heap
    refine bind (modifyHeap _ fun h => .modifyItems h ref _) ?_
    intro
    apply Parallel.pure
  | arrayMap =>
    apply bind (thisItems this)
    intro items
    apply bind (mapItems _ 0 _ items)
    intro items
    apply newArray
  | arrayFilter =>
    apply bind (thisItems this)
    intro items
    apply bind (callableArg args 0 _)
    intro f
    apply bind (filterItems f 0 _ items)
    intro items
    apply newArray
  | arrayJoin =>
    have joined (items : List Value) (sep : String)
        : let joined (m : Machine) : Run Value := do
            let parts ← items.mapM m.stringify
            return .str (sep.intercalate parts)
          Parallel m m' l (joined m) (joined m') := by
      apply bind (mapM stringify items)
      intro parts
      apply Parallel.pure
    apply bind (thisItems this)
    intro items
    apply ite
    . apply joined
    . apply bind (strArg args 0 _)
      intro sep
      apply joined
  | arrayContains =>
    apply bind (thisItems this)
    intro items
    apply bind (containsItem _ items)
    intro found
    apply Parallel.pure
  | strLen | strUpper | strLower | strTrim =>
    apply bind (thisStr this)
    intro s
    apply Parallel.pure
  | strSplit =>
    apply bind (thisStr this)
    intro s
    apply splitStr
  | strStartsWith | strEndsWith | strContains =>
    apply bind (thisStr this)
    intro s
    apply bind (strArg args 0 _)
    intro part
    apply Parallel.pure
  | objectKeys =>
    apply bind (thisEntries this)
    intro entries
    apply strArray
  | objectValues =>
    apply bind (thisEntries this)
    intro entries
    apply newArray
  | objectPairs =>
    apply bind (thisEntries this)
    intro entries
    apply bind (mapM (fun e => newObject _) entries)
    intro pairs
    apply newArray
  | objectEach =>
    apply bind (callableArg args 0 _)
    intro f
    apply bind (thisEntries this)
    intro entries
    apply bind (eachEntry f this entries)
    intro
    apply Parallel.pure
  | intTimes => exact times this args
  | bytesLen | bytesHex =>
    apply bind (thisBytes this)
    intro data
    apply Parallel.pure
  | bytesContains =>
    apply bind (thisBytes this)
    intro data
    split
    . apply Parallel.pure
    . apply Parallel.pure

end Methods

section Routines

theorem initBases (handle : Handle) (args : List Value) (bases : List TypeRef)
    : Parallel m m' l (Library.initBases m handle args bases) (Library.initBases m' handle args bases) := by
  induction bases with
  | nil => apply Parallel.pure
  | cons base bases ih =>
    unfold Library.initBases
    apply bind (typeMember? base _)
    intro init
    split
    . apply ite
      . apply bind (alloc _ fun h => .viewAs h handle base)
        intro view
        apply bind (invoke _ _ args)
        intro
        exact ih
      . exact ih
    . exact ih

theorem expectInstance (this : Value)
    : Parallel m m' l (Library.expectInstance this) (Library.expectInstance this) := by
  unfold Library.expectInstance
  split
  . apply Parallel.pure
  . apply mismatch

theorem runStep (next : HostCall) (ended : ArrayRef)
    : Parallel m m' l (Library.runStep m next ended) (Library.runStep m' next ended) := by
  unfold Library.runStep
  apply bind getHeap
  intro heap
  apply ite
  . apply bind (native next .undefined [])
    intro answer
    apply bind getHeap
    intro heap
    -- The pattern of one item is an array, which `split` does not take apart.
    rcases heap.items? answer with _ | ⟨⟨_ | ⟨item, _ | ⟨_, _⟩⟩⟩⟩
    case some.cons.nil => exact newArray _
    all_goals
      refine bind (modifyHeap _ fun h => .modifyItems h _ _) ?_
      intro
      apply newArray
  . apply newArray

variable [SameFuel m m']

theorem checkMust (this : Value) (checks : List Value)
    : Parallel m m' l (Library.checkMust m this checks) (Library.checkMust m' this checks) := by
  induction checks with
  | nil => apply Parallel.pure
  | cons check checks ih =>
    have checked (ok : Bool)
        : let checked (m : Machine) : Run Unit :=
            if ok then Library.checkMust m this checks else Run.raise (.assertion "'must' failed")
          Parallel m m' l (checked m) (checked m') := by
      apply ite
      . exact ih
      . apply raise
    unfold Library.checkMust
    apply bind (isCallable check)
    intro callable
    apply ite
    . apply bind (invoke check .undefined _)
      intro answer
      apply bind (isTruthy answer)
      exact checked
    . apply bind (valuesEqual this check)
      exact checked

theorem runRoutine (native : Native) (this : Value) (args : List Value)
    : Parallel m m' l (Library.runRoutine m native this args) (Library.runRoutine m' native this args) := by
  unfold Library.runRoutine
  split
  . apply runBuiltin
  . apply runMethod
  . apply bind (checkMust this args)
    intro
    apply Parallel.pure
  . apply ite
    . apply mismatch
    . apply Parallel.pure
  . apply applyArgs
  . split
    . apply bind (initBases _ args _)
      intro
      apply Parallel.pure
    . apply Parallel.pure
  . apply bind (expectInstance this)
    intro handle
    apply joinThread
  . apply bind (expectInstance this)
    intro handle
    apply threadError
  . apply Parallel.pure
  . apply runStep
  . apply Parallel.native
  . apply bind (expectInstance this)
    intro
    apply Parallel.native
  . apply bind (expectInstance this)
    intro
    apply bind (Parallel.native _ this args)
    intro
    apply Parallel.pure

end Routines

section Invoke

theorem invokeClosure (ref : ClosureRef) (this : Value) (args : List Value)
    : Parallel m m' l (m.invokeClosure ref this args) (m'.invokeClosure ref this args) := by
  let body (m : Machine) (call : FuncDef × ScopeRef) : Run Unit := do
    m.execAll call.1.body
    Run.finishFlow
  show Parallel m m' l
    (do Run.checkDepth; let call ← Run.openCall ref this args; m.withCall call.1.displayName call.2 (body m call))
    (do Run.checkDepth; let call ← Run.openCall ref this args; m'.withCall call.1.displayName call.2 (body m' call))
  apply function _ _ (Run.openCall_opensScope ref this args)
  intro call
  apply bind (execAll _)
  intro
  exact finishFlow

theorem invokeObject (callee : Value) (args : List Value)
    : let invoke (m : Machine) : Run Value := do
        if ← Run.isCallable callee then
          let call ← m.getMember callee "__call__"
          m.invoke call .undefined args
        else
          Run.notCallable callee
      Parallel m m' l (invoke m) (invoke m') := by
  apply bind (isCallable callee)
  intro callable
  apply ite
  . apply bind (getMember callee _)
    intro call
    apply invoke
  . apply notCallable

theorem invokeWith [SameFuel m m'] (callee this : Value) (args : List Value)
    : Parallel m m' l (m.invokeWith (Library.runRoutine m) callee this args)
        (m'.invokeWith (Library.runRoutine m') callee this args) := by
  induction callee generalizing this with
  | func ref => exact invokeClosure ref this args
  | native ref =>
    apply deeper (openNative ref this args)
    intro native
    apply runRoutine
  | bound tag receiver callee _ ih => exact ih receiver
  | type type => exact construct type args
  | object handle => exact invokeObject (.object handle) args
  | _ => exact notCallable _

end Invoke

end Parallel

end ScriptEngine
