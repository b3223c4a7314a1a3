import ScriptEngine.Engine.Setup
import ScriptEngine.Proofs.Frame

/-!
This module contains what becomes of a type that is read from objects. Every reading binds it to the
object once more. Calling it makes an instance however often it was read, but where a type has to
stand only one binding is taken off.
-/

namespace ScriptEngine

/-- A type that was read from receivers one after another, the last one first. -/
def Value.readFrom (type : TypeRef) : List (Nat × Value) → Value
  | [] => .type type
  | (tag, receiver) :: readings => .bound tag receiver (readFrom type readings)

namespace Value

variable {type : TypeRef} {readings : List (Nat × Value)}

theorem readFrom_isCallableKind : (readFrom type readings).isCallableKind = true := by
  cases readings <;> rfl

theorem unbind_readFrom_once (h : readings.length ≤ 1) : (readFrom type readings).unbind = .type type := by
  match readings with
  | [] => rfl
  | [_] => rfl
  | _ :: _ :: _ => simp at h

theorem unbind_readFrom_again (h : 2 ≤ readings.length)
    : ∃ tag receiver callee, (readFrom type readings).unbind = .bound tag receiver callee := by
  match readings with
  | [] => simp at h
  | [_] => simp at h
  | _ :: (tag, receiver) :: rest => exact ⟨tag, receiver, readFrom type rest, rfl⟩

end Value

namespace State

/-- The state in which one more value is held on to. -/
def holding (s : State) (value : Value) : State := { s with held := .value value :: s.held }

/-- The error that a function stands where something else has to. -/
def notAFunction (s : State) (expected : String) : Error :=
  .ofCause (.typeMismatch expected (s.heap.types.name BuiltinType.func.ref))

end State

theorem Run.bind_congr {α β : Type} {x x' : Run α} {s : State} (h : x s = x' s) (f : α → Run β)
    : (x >>= f) s = (x' >>= f) s := by
  rw [bind_apply, bind_apply, h]

theorem Run.checkExport_cases (exported : Bool) (s : State)
    : checkExport exported s = .ok () s ∨ checkExport exported s = .error (.raised (.ofCause .misplacedExport)) s := by
  have h : checkExport exported s = (if exported && !s.context.stack.isModuleTop then
      raise .misplacedExport else pure () : Run Unit) s := rfl
  rw [h]
  split
  . exact .inr rfl
  . exact .inl rfl

namespace Machine

/--
Wherever a type has to stand, an expression with the value `v` does the same as one with the value `w`.
The test whether a value is of a type is an operator, which a `__is__` of the value overrides.
-/
structure StandsFor (m : Machine) (v w : Value) : Prop where
  new (cls cls' : Expr) (args : List Arg) {s t : State} (hv : m.eval cls s = .ok v t)
    (hw : m.eval cls' s = .ok w t) : m.evalExpr (.new cls args) s = m.evalExpr (.new cls' args) s
  is (value : Value) (s : State) (hook : Run.findHook value "__is__" s = .ok none s)
    : m.binaryValues .is value v s = m.binaryValues .is value w s
  base (name : String) (exported : Bool) (before after : List Expr) (base base' : Expr)
    (members statics : List MemberDef) (s : State)
    (h : ∀ types u, m.evalBases before s = .ok types u →
      ∃ t, m.eval base u = .ok v t ∧ m.eval base' u = .ok w t)
    : m.execKind (.cls (.mk name exported (before ++ base :: after) members statics)) s =
        m.execKind (.cls (.mk name exported (before ++ base' :: after) members statics)) s
  extend (exported : Bool) (target target' : Expr) (items : List MemberDef) {s t : State}
    (hv : m.eval target s = .ok v t) (hw : m.eval target' s = .ok w t)
    : m.execKind (.extend exported target items) s = m.execKind (.extend exported target' items) s

/-- Wherever a type has to stand, an expression with the value `v` fails. -/
structure Rejects (m : Machine) (v : Value) : Prop where
  new (cls : Expr) (args : List Arg) {s t : State} (hv : m.eval cls s = .ok v t)
    : m.evalExpr (.new cls args) s =
        .error (.raised (t.notAFunction "a type after 'new'")) (t.holding v.unbind)
  is (value : Value) (s : State) (hook : Run.findHook value "__is__" s = .ok none s)
    : m.binaryValues .is value v s = .error (.raised (s.notAFunction "a type on the right of 'is'")) s
  base (name : String) {exported : Bool} (before after : List Expr) (base : Expr)
    (members statics : List MemberDef) {types : List TypeRef} {s t u : State}
    (hexport : Run.checkExport exported s = .ok () s) (hbefore : m.evalBases before s = .ok types u)
    (hv : m.eval base u = .ok v t)
    : m.execKind (.cls (.mk name exported (before ++ base :: after) members statics)) s =
        .error (.raised (t.notAFunction "a type as base class")) (t.holding v.unbind)
  extend {exported : Bool} (target : Expr) (items : List MemberDef) {s t : State}
    (hexport : Run.checkExport exported s = .ok () s) (hv : m.eval target s = .ok v t)
    : m.execKind (.extend exported target items) s =
        .error (.raised (t.notAFunction "a type to extend")) (t.holding v.unbind)

variable {m : Machine} {v w : Value} {type : TypeRef}

theorem evalType_type {e : Expr} {s t : State} (expected : String) (he : m.eval e s = .ok v t)
    (hv : v.unbind = .type type)
    : m.evalType expected e s = .ok type (t.holding (.type type)) := by
  unfold evalType
  rw [Run.bind_ok he, hv]
  rfl

theorem evalType_bound {e : Expr} {s t : State} (expected : String) {tag : Nat} {receiver callee : Value}
    (he : m.eval e s = .ok v t) (hv : v.unbind = .bound tag receiver callee)
    : m.evalType expected e s = .error (.raised (t.notAFunction expected)) (t.holding v.unbind) := by
  unfold evalType
  rw [Run.bind_ok he, hv]
  rfl

theorem evalType_congr {e e' : Expr} {s t : State} (expected : String) (hv : m.eval e s = .ok v t)
    (hw : m.eval e' s = .ok (.type type) t) (h : v.unbind = .type type)
    : m.evalType expected e s = m.evalType expected e' s := by
  rw [evalType_type expected hv h, evalType_type expected hw rfl]

theorem evalBases_append (before after : List Expr) (s : State)
    : m.evalBases (before ++ after) s =
        (m.evalBases before >>= fun types => m.evalBases after >>= fun types' => pure (types ++ types')) s := by
  induction before generalizing s with
  | nil =>
    have h : (m.evalBases after >>= fun types => pure ([] ++ types)) = m.evalBases after := bind_pure _
    show m.evalBases after s = (m.evalBases after >>= fun types => pure ([] ++ types)) s
    rw [h]
  | cons base before ih =>
    simp only [List.cons_append, evalBases, bind_assoc, pure_bind]
    rw [Run.bind_apply, Run.bind_apply]
    cases m.evalType "a type as base class" base s with
    | error halt t => rfl
    | ok type t =>
      dsimp only
      rw [Run.bind_congr (ih t)]
      simp only [bind_assoc, pure_bind]

theorem typeTest_apply {value : Value} {s : State} (hook : Run.findHook value "__is__" s = .ok none s)
    : m.binaryValues .is value v s =
        match v.unbind with
        | .type type => .ok (.bool (s.heap.types.isSubOf (s.heap.typeOf value) type)) s
        | other =>
          .error (.raised (.ofCause (.typeMismatch "a type on the right of 'is'" (s.heap.typeName other)))) s := by
  have his : (BinaryOp.is == BinaryOp.is) = true := rfl
  unfold binaryValues
  rw [if_pos his]
  unfold typeTest
  rw [Run.bind_ok hook]
  dsimp only
  cases v.unbind <;> rfl

theorem evalBases_congr {before after : List Expr} {base base' : Expr} {s : State}
    (h : ∀ types u, m.evalBases before s = .ok types u →
      m.evalType "a type as base class" base u = m.evalType "a type as base class" base' u)
    : m.evalBases (before ++ base :: after) s = m.evalBases (before ++ base' :: after) s := by
  rw [evalBases_append, evalBases_append, Run.bind_apply, Run.bind_apply]
  cases hbefore : m.evalBases before s with
  | error halt u => rfl
  | ok types u =>
    dsimp only
    apply Run.bind_congr
    simp only [evalBases]
    exact Run.bind_congr (h types u hbefore) _

theorem standsFor_of_unbind (h : v.unbind = .type type) : m.StandsFor v (.type type) := by
  constructor
  case new =>
    intro cls cls' args s t hv hw
    exact Run.bind_congr (evalType_congr _ hv hw h) _
  case is =>
    intro value s hook
    rw [typeTest_apply hook, typeTest_apply hook, h]
    rfl
  case base =>
    intro name exported before after base base' members statics s hbase
    show m.execClass (.mk name exported (before ++ base :: after) members statics) s =
      m.execClass (.mk name exported (before ++ base' :: after) members statics) s
    unfold execClass
    dsimp only
    rcases Run.checkExport_cases exported s with hexport | hexport
    . rw [Run.bind_ok hexport, Run.bind_ok hexport]
      apply Run.bind_congr
      apply evalBases_congr
      intro types u hbefore
      rcases hbase types u hbefore with ⟨t, hv, hw⟩
      exact evalType_congr _ hv hw h
    . rw [Run.bind_error hexport, Run.bind_error hexport]
  case extend =>
    intro exported target target' items s t hv hw
    show m.execExtend exported target items s = m.execExtend exported target' items s
    unfold execExtend
    rcases Run.checkExport_cases exported s with hexport | hexport
    . rw [Run.bind_ok hexport, Run.bind_ok hexport]
      exact Run.bind_congr (evalType_congr _ hv hw h) _
    . rw [Run.bind_error hexport, Run.bind_error hexport]

theorem rejects_of_unbind {tag : Nat} {receiver callee : Value} (h : v.unbind = .bound tag receiver callee)
    : m.Rejects v := by
  constructor
  case new =>
    intro cls args s t hv
    exact Run.bind_error (evalType_bound _ hv h)
  case is =>
    intro value s hook
    rw [typeTest_apply hook, h]
    rfl
  case base =>
    intro name exported before after base members statics types s t u hexport hbefore hv
    show m.execClass (.mk name exported (before ++ base :: after) members statics) s = _
    unfold execClass
    dsimp only
    rw [Run.bind_ok hexport]
    apply Run.bind_error
    rw [evalBases_append, Run.bind_ok hbefore]
    apply Run.bind_error
    exact Run.bind_error (evalType_bound _ hv h)
  case extend =>
    intro exported target items s t hexport hv
    show m.execExtend exported target items s = _
    unfold execExtend
    rw [Run.bind_ok hexport]
    exact Run.bind_error (evalType_bound _ hv h)

theorem invokeWith_readFrom (runNative : Native → Value → List Value → Run Value) (this : Value)
    (args : List Value) (readings : List (Nat × Value))
    : m.invokeWith runNative (.readFrom type readings) this args = m.construct type args := by
  induction readings generalizing this with
  | nil => rw [Value.readFrom, invokeWith]
  | cons reading readings ih => rw [Value.readFrom, invokeWith, ih]

theorem getMember_readFrom {handle : Handle} {name : String} {readings : List (Nat × Value)} {s : State}
    (h : (s.heap.members handle).get? name = some (.readFrom type readings))
    : m.getMember (.object handle) name s =
        .ok (.readFrom type ((s.heap.nextTag, .object handle) :: readings)) { s with heap := s.heap.newTag.2 } := by
  have hheap : Run.getHeap s = .ok s.heap s := rfl
  unfold getMember
  dsimp only
  rw [Run.bind_ok hheap, h]
  dsimp only
  unfold Run.makeMember
  rw [if_pos Value.readFrom_isCallableKind]
  rfl

end Machine

/--
A type that was read from objects, however often. It can be called like the type itself; it stands for
the type in `new`, in `is`, as a base and as what is extended if it was read at most once, and is
rejected there if it was read again.
-/
theorem read_types_stand_once (host : Host) (fuel : Nat) (m : Machine) (type : TypeRef)
    (readings : List (Nat × Value))
    : let v := Value.readFrom type readings
      (∀ handle name s, (s.heap.members handle).get? name = some v →
        m.getMember (.object handle) name s =
          .ok (.readFrom type ((s.heap.nextTag, .object handle) :: readings))
            { s with heap := s.heap.newTag.2 }) ∧
      (∀ this args, (host.above fuel m).invoke v this args = (host.above fuel m).invoke (.type type) this args ∧
        m.invokeWith (Library.runRoutine m) v this args = m.construct type args) ∧
      (readings.length ≤ 1 → m.StandsFor v (.type type)) ∧ (2 ≤ readings.length → m.Rejects v) := by
  intro v
  refine ⟨?_, ?_, ?_, ?_⟩
  . intro handle name s h
    exact Machine.getMember_readFrom h
  . intro this args
    refine ⟨?_, Machine.invokeWith_readFrom _ this args readings⟩
    rw [above_invoke, above_invoke, Machine.invokeWith_readFrom, Machine.invokeWith]
  . intro h
    exact Machine.standsFor_of_unbind (Value.unbind_readFrom_once h)
  . intro h
    rcases Value.unbind_readFrom_again h with ⟨tag, receiver, callee, hunbind⟩
    exact Machine.rejects_of_unbind hunbind

/-- A type, the same type read from an object, and that read once more. -/
theorem object_type_stands_once
    : let m := Host.none.machine 2
      let type := BuiltinType.object.ref
      let once := Value.readFrom type [(0, .nil)]
      let again := Value.readFrom type [(1, .nil), (0, .nil)]
      let s := Engine.stateAfter
        (do
          Run.forceLocal "T" (.type type)
          Run.forceLocal "once" once
          Run.forceLocal "again" again)
        (Engine.bareState {} .silent 0)
      m.eval (.ident "T") s = .ok (.type type) s ∧ m.eval (.ident "once") s = .ok once s ∧
        m.eval (.ident "again") s = .ok again s ∧
        m.evalExpr (.new (.ident "once") []) s = m.evalExpr (.new (.ident "T") []) s ∧
        m.evalExpr (.new (.ident "again") []) s =
          .error (.raised (s.notAFunction "a type after 'new'")) (s.holding once) := by
  intro m type once again s
  have htype : m.eval (.ident "T") s = .ok (.type type) s := rfl
  have honce : m.eval (.ident "once") s = .ok once s := rfl
  have hagain : m.eval (.ident "again") s = .ok again s := rfl
  have hstands : m.StandsFor once (.type type) :=
    (read_types_stand_once .none 1 m type [(0, .nil)]).2.2.1 (by decide)
  have hrejects : m.Rejects again :=
    (read_types_stand_once .none 1 m type [(1, .nil), (0, .nil)]).2.2.2 (by decide)
  exact ⟨htype, honce, hagain, hstands.new _ _ [] honce htype, hrejects.new _ [] hagain⟩

end ScriptEngine
