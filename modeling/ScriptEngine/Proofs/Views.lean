import ScriptEngine.Engine.Setup
import ScriptEngine.Engine.Machine
import ScriptEngine.Proofs.Members
import ScriptEngine.Proofs.Objects
import ScriptEngine.Proofs.Parallel.Library

/-!
This module contains objects and their views. However often a view is made of a view, it leads to the
instance itself, whose members and whose payload are those of all its views. So a method gets the instance
whatever it was called on, and what is written through one view is read through all others.
-/

namespace ScriptEngine

namespace Handle

variable {first handle : Handle}

/--
The receivers that are handed on, from one of them: the instance itself, what `super` is in the methods of
a class, and views for the initialisers of bases.
-/
inductive HandsOn (first : Handle) : Handle → Prop where
  | self : HandsOn first first
  | this {handle : Handle} (h : HandsOn first handle) : HandsOn first handle.realThis
  | super {handle : Handle} (h : HandsOn first handle) (heap : Heap) (owner : TypeRef)
      : HandsOn first (heap.superView handle owner).1
  | base {handle : Handle} (h : HandsOn first handle) (heap : Heap) (type : TypeRef)
      : HandsOn first (heap.viewAs handle type).1

/-- Whatever is handed on leads to the same instance. -/
theorem HandsOn.realThis_eq (h : first.HandsOn handle) : handle.realThis = first.realThis := by
  induction h with
  | self => rfl
  | this _ ih => exact ih
  | super _ _ _ ih => exact ih
  | base _ _ _ ih => exact ih

theorem real_eq_of_realThis (h : handle.realThis = first.realThis) : handle.real = first.real := by
  injection h

end Handle

namespace Heap

variable {h : Heap} {handle other : Handle}

/-- The member that is found in an object itself, or else in the type that its members are looked up in. -/
def member? (h : Heap) (handle : Handle) (name : String) : Option Value :=
  match (h.members handle).get? name with
  | some member => some member
  | none => h.types.findMember? (h.objectType handle) name

theorem Holds.congr (hholds : h.Holds handle) (hreal : other.realThis = handle.realThis) : h.Holds other := by
  unfold Holds
  rw [Handle.real_eq_of_realThis hreal]
  exact hholds

theorem inst_congr (hreal : other.realThis = handle.realThis) : h.inst other = h.inst handle := by
  unfold inst
  rw [Handle.real_eq_of_realThis hreal]

theorem members_congr (hreal : other.realThis = handle.realThis) : h.members other = h.members handle := by
  unfold members
  rw [inst_congr hreal]

theorem reserved?_congr (hreal : other.realThis = handle.realThis) : h.reserved? other = h.reserved? handle := by
  unfold reserved?
  rw [inst_congr hreal]

theorem inst_modify (hholds : h.Holds handle) (f : Instance → Instance)
    : ({ h with instances := h.instances.modify handle.real.index f } : Heap).inst handle = f (h.inst handle) := by
  unfold Holds at hholds
  unfold inst
  simp only [Array.getD_eq_getD_getElem?, Array.getElem?_modify, Array.getElem?_eq_getElem hholds]
  rfl

theorem members_setMember (hholds : h.Holds handle) (name : String) (value : Value)
    : (h.setMember handle name value).members handle = Members.set (h.members handle) name value := by
  unfold members setMember
  rw [inst_modify hholds]

theorem reserved?_setMember (hholds : h.Holds handle) (name : String) (value : Value)
    : (h.setMember handle name value).reserved? handle = h.reserved? handle := by
  unfold reserved? setMember
  rw [inst_modify hholds]

theorem reserved?_setReserved (hholds : h.Holds handle) (payload : Payload)
    : (h.setReserved handle payload).reserved? handle = some payload := by
  unfold reserved? setReserved
  rw [inst_modify hholds]

theorem members_setReserved (hholds : h.Holds handle) (payload : Payload)
    : (h.setReserved handle payload).members handle = h.members handle := by
  unfold members setReserved
  rw [inst_modify hholds]

end Heap

namespace Scopes

variable {t : Scopes} {ref other : ScopeRef} {name n : String} {value : Value}

theorem own?_force_self (href : t.Has ref) (hname : name ≠ placeholder) (value : Value)
    : (t.force ref name value).own? ref name = some value := by
  rw [force_eq hname, own?_put, if_pos ⟨rfl, rfl, href⟩]

theorem own?_force_of_name_ne (hn : n ≠ name) (ref other : ScopeRef) (value : Value)
    : (t.force ref name value).own? other n = t.own? other n := by
  unfold force
  split
  . rfl
  . rw [own?_put, if_neg]
    intro h
    exact hn h.2.1

theorem lookup?_of_own? (hname : name ≠ placeholder) (hown : t.own? ref name = some value)
    : t.lookup? ref name = some value := by
  unfold lookup? resolve? resolve?.go
  rw [if_neg hname, contains_eq, hown, Option.isSome_some, if_pos rfl, Option.bind_some, hown]

end Scopes

namespace Heap

variable {h : Heap} {scope : ScopeRef} {rest : Bool} {names : List String} {args : List Value} {receiver : Value}

def force (h : Heap) (scope : ScopeRef) (name : String) (value : Value) : Heap :=
  { h with scopes := h.scopes.force scope name value }

/-- The heap after values were bound to names in a scope. With `rest` the last name gets all that are left. -/
def bindAll (h : Heap) (scope : ScopeRef) (rest : Bool) : List String → List Value → Heap
  | [], _ => h
  | [name], values =>
    if rest then
      (h.newArray values.toArray).2.force scope name (h.newArray values.toArray).1
    else
      h.force scope name (values.headD .undefined)
  | name :: names, values => (h.force scope name (values.headD .undefined)).bindAll scope rest names values.tail

/-- The heap with what every call binds: the receiver, and a new array of all arguments. -/
def receive (h : Heap) (scope : ScopeRef) (receiver : Value) (args : List Value) : Heap :=
  let called := h.force scope "this" receiver
  (called.newArray args.toArray).2.force scope "arguments" (called.newArray args.toArray).1

theorem bindAll_cons {name : String} (hmore : names ≠ [])
    : h.bindAll scope rest (name :: names) args =
        (h.force scope name (args.headD .undefined)).bindAll scope rest names args.tail := by
  rw [bindAll]
  exact hmore

theorem bindAll_own (h : Heap) (scope : ScopeRef) (rest : Bool) (names : List String) (values : List Value) {n : String}
    (hn : n ∉ names)
    : (h.bindAll scope rest names values).scopes.own? scope n = h.scopes.own? scope n := by
  fun_induction bindAll h scope rest names values with
  | case1 => rfl
  | case2 => exact Scopes.own?_force_of_name_ne (by simpa using hn) scope scope _
  | case3 => exact Scopes.own?_force_of_name_ne (by simpa using hn) scope scope _
  | case4 h name names values _ ih =>
    rw [List.mem_cons, not_or] at hn
    rw [ih hn.2]
    exact Scopes.own?_force_of_name_ne hn.1 scope scope _

theorem has_receive : (h.receive scope receiver args).scopes.Has scope ↔ h.scopes.Has scope :=
  Scopes.has_force.trans Scopes.has_force

theorem receive_this (hscope : h.scopes.Has scope)
    : (h.receive scope receiver args).scopes.own? scope "this" = some receiver :=
  (Scopes.own?_force_of_name_ne (by decide) scope scope _).trans (Scopes.own?_force_self hscope (by decide) receiver)

theorem receive_arguments (hscope : h.scopes.Has scope)
    : (h.receive scope receiver args).scopes.own? scope "arguments" = some (.array ⟨h.arrays.size⟩) :=
  Scopes.own?_force_self (Scopes.has_force.mpr hscope) (by decide) _

theorem receive_own {n : String} (hthis : n ≠ "this") (harguments : n ≠ "arguments")
    : (h.receive scope receiver args).scopes.own? scope n = h.scopes.own? scope n :=
  (Scopes.own?_force_of_name_ne harguments scope scope _).trans (Scopes.own?_force_of_name_ne hthis scope scope _)

end Heap

/-- The state after a scope was made for a call. -/
def State.opened (s : State) (closure : Closure) : State :=
  { s with heap := (s.heap.newScope (some closure.scope)).2 }

namespace Run

variable {closure : Closure} {owner : TypeRef} {handle : Handle} {args : List Value} {s : State}

theorem bindParams_eq (scope : ScopeRef) (rest : Bool) (names : List String) (args : List Value) (s : State)
    : bindParams scope rest names args s = .ok () { s with heap := s.heap.bindAll scope rest names args } := by
  fun_induction bindParams scope rest names args generalizing s with
  | case1 => rfl
  | case2 name args hrest =>
    unfold Heap.bindAll
    rw [if_pos hrest]
    rfl
  | case3 name args hrest =>
    unfold Heap.bindAll
    rw [if_neg hrest]
    rfl
  | case4 name names args hmore ih =>
    rw [Heap.bindAll_cons hmore]
    exact ih { s with heap := s.heap.force scope name (args.headD .undefined) }

/-- The class of the receiver is in use, and so are its bases. -/
theorem ownerInUse_of_isSubOf {closure : Closure} {owner : TypeRef} {handle : Handle} {args : List Value}
    {s : State} (h : s.heap.types.isSubOf (s.heap.inst handle).type owner = true)
    : ownerInUse closure owner handle args s = .ok true s := by
  unfold ownerInUse
  rw [bind_ok (rfl : getHeap s = .ok s.heap s), if_pos h]
  cases s.heap.scopes.lookup? closure.scope (s.heap.types.name owner) with
  | none => rfl
  | some value =>
    cases value with
    | type ref =>
      dsimp only
      split <;> rfl
    | _ => rfl

/-- A method of a class gets the instance, and a view of it as `super`. -/
theorem bindReceiver_apply (scope : ScopeRef) (hown : closure.owner = some owner)
    (hused : ownerInUse closure owner handle args s = .ok true s)
    : bindReceiver scope closure (.object handle) args s =
        .ok (.object handle.realThis)
          { s with
            heap :=
              { (s.heap.superView handle owner).2 with
                scopes := s.heap.scopes.force scope "super" (.object (s.heap.superView handle owner).1) } } := by
  unfold bindReceiver
  rw [hown]
  dsimp only
  rw [bind_ok hused, ← (Heap.Spares.superView s.heap handle owner).scopes]
  rfl

/-- The scope of a call is a new one, which is filled when the receiver is known. -/
theorem callScope_eq {this receiver : Value} {received : Heap}
    (hreceiver : bindReceiver (s.heap.newScope (some closure.scope)).1 closure this args (s.opened closure) =
      .ok receiver { s with heap := received })
    : callScope closure this args s =
        let scope := (s.heap.newScope (some closure.scope)).1
        let filled := received.receive scope receiver args
        .ok scope { s with heap := filled.bindAll scope closure.code.rest closure.code.params args } := by
  have halloc : alloc (·.newScope (some closure.scope)) s =
      .ok (s.heap.newScope (some closure.scope)).1 (s.opened closure) := rfl
  unfold callScope
  rw [bind_ok halloc, bind_ok hreceiver]
  exact bind_ok (bindParams_eq ..)

theorem opened_has (closure : Closure) (s : State)
    : (s.opened closure).heap.scopes.Has (s.heap.newScope (some closure.scope)).1 :=
  (Scopes.has_add s.heap.scopes (some closure.scope) _).mpr (.inl rfl)

/-- What the names `this` and `super` stand for in a method of a class, unless a parameter has that name. -/
theorem callScope_binds (hown : closure.owner = some owner)
    (hused : ownerInUse closure owner handle args (s.opened closure) = .ok true (s.opened closure))
    : ∃ scope t, callScope closure (.object handle) args s = .ok scope t ∧
        ("this" ∉ closure.code.params → t.heap.scopes.lookup? scope "this" = some (.object handle.realThis)) ∧
        ("super" ∉ closure.code.params →
          t.heap.scopes.lookup? scope "super" =
            some (.object ((s.opened closure).heap.superView handle owner).1)) := by
  have hhas := opened_has closure s
  refine ⟨_, _, callScope_eq (bindReceiver_apply _ hown hused), ?_, ?_⟩
  . intro hparam
    apply Scopes.lookup?_of_own? (by decide)
    rw [Heap.bindAll_own _ _ _ _ _ hparam]
    exact Heap.receive_this (Scopes.has_force.mpr hhas)
  . intro hparam
    apply Scopes.lookup?_of_own? (by decide)
    rw [Heap.bindAll_own _ _ _ _ _ hparam, Heap.receive_own (by decide) (by decide)]
    exact Scopes.own?_force_self hhas (by decide) _

end Run

/-- What is called in the end, with its receiver, if a value is called that was read from something. -/
def Value.target : Value → Value → Value × Value
  | .bound _ receiver callee, _ => callee.target receiver
  | callee, this => (callee, this)

namespace Machine

variable {m m' : Machine} {handle : Handle} {args : List Value}

theorem invokeWith_target (m : Machine) (runNative : Native → Value → List Value → Run Value)
    (callee this : Value) (args : List Value)
    : m.invokeWith runNative callee this args =
        m.invokeWith runNative (callee.target this).1 (callee.target this).2 args := by
  fun_induction Value.target callee this with
  | case1 _ tag receiver callee ih =>
    rw [invokeWith]
    exact ih
  | case2 => rfl

theorem invokeClosure_opened {ref : ClosureRef} {this : Value} {scope : ScopeRef} {s t : State}
    (hdepth : s.context.depth < s.world.settings.maxDepth)
    (hscope : Run.callScope (s.heap.closure ref) this args s = .ok scope t)
    : m.invokeClosure ref this args s =
        m.withCall (s.heap.closure ref).code.displayName scope
          (do m.execAll (s.heap.closure ref).code.body; Run.finishFlow) t := by
  have hcheck : Run.checkDepth s = .ok () s := by
    rw [Run.checkDepth_apply, if_neg (by omega)]
  have hopen : Run.openCall ref this args s = .ok ((s.heap.closure ref).code, scope) t := by
    unfold Run.openCall
    rw [Run.bind_ok (rfl : Run.getHeap s = .ok s.heap s), Run.bind_ok hscope]
    rfl
  unfold invokeClosure
  rw [Run.bind_ok hcheck, Run.bind_ok hopen]

theorem getMember_found {handle : Handle} {name : String} {member : Value} {s : State}
    (hmember : s.heap.member? handle name = some member)
    : m.getMember (.object handle) name s = Run.makeMember (.object handle) member s := by
  unfold Heap.member? at hmember
  have hheap : Run.getHeap s = .ok s.heap s := rfl
  unfold getMember
  dsimp only
  rw [Run.bind_ok hheap]
  cases hown : (s.heap.members handle).get? name with
  | some own =>
    rw [hown] at hmember
    injection hmember with hmember
    rw [hmember]
  | none =>
    rw [hown] at hmember
    have htype : Run.typeMember? (s.heap.objectType handle) name s = .ok (some member) s := by
      unfold Run.typeMember?
      rw [Run.bind_ok hheap, ← hmember]
      rfl
    dsimp only
    unfold memberByType
    rw [Run.bind_ok hheap]
    dsimp only [Heap.typeOf]
    rw [Run.bind_ok htype]

/-- Two machines that call alike whatever is called on a handle of one instance. -/
def CallsAlike (m m' : Machine) (handle : Handle) : Prop :=
  ∀ callee (view : Handle) args, view.realThis = handle.realThis →
    m.invoke callee (.object view) args = m'.invoke callee (.object view) args

/-- The initialisers of the bases are called on nothing but views of the instance. -/
theorem CallsAlike.initBases_eq (h : m.CallsAlike m' handle) (args : List Value) (bases : List TypeRef)
    : Library.initBases m handle args bases = Library.initBases m' handle args bases := by
  induction bases with
  | nil => rfl
  | cons base bases ih =>
    unfold Library.initBases
    rw [ih]
    congr 1
    funext init
    cases init with
    | none => rfl
    | some init =>
      dsimp only
      split
      . funext s
        have hview : Run.alloc (·.viewAs handle base) s =
            .ok (s.heap.viewAs handle base).1 { s with heap := (s.heap.viewAs handle base).2 } := rfl
        rw [Run.bind_ok hview, Run.bind_ok hview, h init (s.heap.viewAs handle base).1 args rfl]
      . rfl

end Machine

/-- What holds of an object and of all handles that lead to the same instance. -/
structure Handle.LeadsHome (first : Handle) : Prop where
  /-- The instance itself is no view, and it leads to itself. -/
  home : first.realThis.view = none ∧ first.realThis.realThis = first.realThis
  shared {handle : Handle} (h : handle.realThis = first.realThis) (heap : Heap)
    : handle.sameInstance first.realThis = true ∧ heap.members handle = heap.members first.realThis ∧
        heap.reserved? handle = heap.reserved? first.realThis
  /-- A method gets `this` and `super` from its receiver, and hands them on, or views for initialisers. -/
  handed {handle : Handle} (h : first.HandsOn handle) : handle.realThis = first.realThis
  /-- What is read from a handle and can be called has that handle as receiver, -/
  read (handle : Handle) (member : Value) (hmember : member.isCallableKind = true) (s : State)
    : ∃ value t, Run.makeMember (.object handle) member s = .ok value t ∧
        ∀ this, value.target this = member.target (.object handle)
  /-- and so has everything that `super.__init__` calls, or a view of the same instance. -/
  initialised {m m' : Machine} {handle : Handle} {native : Native} {bases : List TypeRef}
      (hm : m.CallsAlike m' handle) (hnative : native.routine = .superInit bases) (args : List Value)
    : Library.runRoutine m native (.object handle) args = Library.runRoutine m' native (.object handle) args
  /-- A method of a class that is in use runs with the instance as `this` and a view of it as `super`. -/
  called {m : Machine} {runNative : Native → Value → List Value → Run Value} {callee this : Value}
      {ref : ClosureRef} {handle : Handle} {owner : TypeRef} {args : List Value} {s : State}
      (htarget : callee.target this = (.func ref, .object handle)) (hhandle : handle.realThis = first.realThis)
      (hdepth : s.context.depth < s.world.settings.maxDepth) (hown : (s.heap.closure ref).owner = some owner)
      (hused : Run.ownerInUse (s.heap.closure ref) owner handle args (s.opened (s.heap.closure ref)) =
        .ok true (s.opened (s.heap.closure ref)))
    : ∃ scope t,
        m.invokeWith runNative callee this args s =
          m.withCall (s.heap.closure ref).code.displayName scope
            (do m.execAll (s.heap.closure ref).code.body; Run.finishFlow) t ∧
        ("this" ∉ (s.heap.closure ref).code.params →
          t.heap.scopes.lookup? scope "this" = some (.object first.realThis)) ∧
        ("super" ∉ (s.heap.closure ref).code.params →
          t.heap.scopes.lookup? scope "super" =
            some (.object ((s.opened (s.heap.closure ref)).heap.superView handle owner).1))
  written {m : Machine} {s : State} {writer reader : Handle} (hholds : s.heap.Holds first)
      (hwriter : writer.realThis = first.realThis) (hreader : reader.realThis = first.realThis)
      (name : String) (value : Value)
    : ∃ t, Run.setMember (.object writer) name value s = .ok () t ∧
        (value.isUndefined = false →
          m.getMember (.object reader) name t = Run.makeMember (.object reader) value t) ∧
        (value.isUndefined = true → (t.heap.members reader).get? name = none) ∧
        t.heap.reserved? reader = s.heap.reserved? first
  /-- What the host keeps in an object. -/
  kept {heap : Heap} {writer reader : Handle} (hholds : heap.Holds first)
      (hwriter : writer.realThis = first.realThis) (hreader : reader.realThis = first.realThis)
      (payload : Payload)
    : (heap.setReserved writer payload).reserved? reader = some payload ∧
        (heap.setReserved writer payload).members reader = heap.members first

theorem Handle.leadsHome (first : Handle) : first.LeadsHome where
  home := ⟨rfl, rfl⟩
  shared {handle} h heap := by
    refine ⟨?_, Heap.members_congr h, Heap.reserved?_congr h⟩
    unfold Handle.sameInstance
    rw [Handle.real_eq_of_realThis h]
    exact beq_self_eq_true _
  handed h := h.realThis_eq
  read handle member hmember s := by
    unfold Run.makeMember
    rw [if_pos hmember]
    exact ⟨_, _, rfl, fun _ => rfl⟩
  initialised hm hnative args := by
    unfold Library.runRoutine
    rw [hnative]
    dsimp only
    rw [hm.initBases_eq]
  called {m runNative callee this ref handle owner args s} htarget hhandle hdepth hown hused := by
    rcases Run.callScope_binds hown hused with ⟨scope, t, hscope, hthis, hsuper⟩
    refine ⟨scope, t, ?_, ?_, hsuper⟩
    . rw [Machine.invokeWith_target, htarget, Machine.invokeWith]
      exact Machine.invokeClosure_opened hdepth hscope
    . rw [← hhandle]
      exact hthis
  written {m s writer reader} hholds hwriter hreader name value := by
    have hreader' : reader.realThis = writer.realThis := hreader.trans hwriter.symm
    have hholds' := hholds.congr hwriter
    have hmember : ((s.heap.setMember writer name value).members reader).get? name =
        if value.isUndefined then none else some value := by
      rw [Heap.members_congr hreader', Heap.members_setMember hholds', Members.get?_set, if_pos rfl]
    refine ⟨{ s with heap := s.heap.setMember writer name value }, rfl, ?_, ?_, ?_⟩
    . intro hvalue
      rw [hvalue] at hmember
      unfold Machine.getMember
      dsimp only
      rw [Run.bind_ok (rfl : Run.getHeap _ = .ok _ _), hmember]
      rfl
    . intro hvalue
      rw [hvalue] at hmember
      exact hmember
    . show (s.heap.setMember writer name value).reserved? reader = _
      rw [Heap.reserved?_congr hreader', Heap.reserved?_setMember hholds', Heap.reserved?_congr hwriter]
  kept {heap writer reader} hholds hwriter hreader payload := by
    have hreader' : reader.realThis = writer.realThis := hreader.trans hwriter.symm
    have hholds' := hholds.congr hwriter
    rw [Heap.reserved?_congr hreader', Heap.members_congr hreader', Heap.reserved?_setReserved hholds',
      Heap.members_setReserved hholds', Heap.members_congr hwriter]
    exact ⟨rfl, rfl⟩

/--
Views lead to the instance, whatever objects are made of one another. It is no view, and it shares its table of
members and its slot with all its views, and with no other object. Handles stand for such objects. However many calls
of `super` and of its initialiser lie in between, a method of a class that is in use has the instance as `this`,
unless a parameter is named so. What is written through one view is read through all others, unless it is `undefined`,
which removes the member.
-/
theorem views_lead_to_the_instance {store : Objects} {made : List Object} {o : Object} (hreached : store.Reached made)
    (ho : o ∈ made) (h : Heap) (first : Handle)
    : store.Linked made o ∧ h.ShowsObjects ∧ first.LeadsHome :=
  ⟨hreached.linked ho, h.showsObjects, first.leadsHome⟩

/-- An object of a class that has a base, with a method of the class. -/
def derivedObject : State :=
  let s := Engine.bareState {} .silent 100000
  let base := s.heap.newClass "B" []
  let derived := base.2.newClass "C" [base.1]
  let object := derived.2.newInstance derived.1 .empty
  let method := object.2.newClosure ⟨.mk (some "m") [] false [], ⟨0⟩, some derived.1⟩
  { s with heap := method.2 }

theorem view_of_a_view_leads_home
    : let s := derivedObject
      let m := Host.none.machine 3
      let first := Handle.ofInstance ⟨0⟩
      let view := s.heap.superView first ⟨14⟩
      let deep := view.2.superView view.1 ⟨13⟩
      let root := Objects.empty.withMembers ⟨14⟩ .empty
      let twice := (root.1.viewAs ⟨13⟩).viewAs ⟨12⟩
      (twice.this = some root.1 ∧
        ((root.2.setMember twice "x" (.int 5)).members (root.1.viewAs ⟨13⟩)).get? "x" = some (.int 5)) ∧
      deep.2.object deep.1 = (view.2.object view.1).viewAs (view.2.superType ⟨13⟩).1 ∧
      (∃ scope t,
        m.invokeWith (Library.runRoutine m) (.bound 7 (.object deep.1) (.func ⟨0⟩)) .undefined [] s =
          m.withCall "m" scope (do m.execAll []; Run.finishFlow) t ∧
        t.heap.scopes.lookup? scope "this" = some (.object first)) ∧
      ∃ t, Run.setMember (.object deep.1) "x" (.int 5) s = .ok () t ∧
        m.getMember (.object view.1) "x" t = .ok (.int 5) t := by
  intro s m first view deep root twice
  have hreached : root.2.Reached [twice, root.1.viewAs ⟨13⟩, root.1] :=
    ((Objects.Reached.empty.made ⟨14⟩ .empty).viewed List.mem_cons_self ⟨13⟩).viewed List.mem_cons_self ⟨12⟩
  rcases views_lead_to_the_instance hreached List.mem_cons_self view.2 first with ⟨hlinked, hshows, hleads⟩
  have hreader : root.1.viewAs ⟨13⟩ ∈ [twice, root.1.viewAs ⟨13⟩, root.1] := List.mem_cons_of_mem _ List.mem_cons_self
  refine ⟨⟨rfl, ?_⟩, (hshows.super view.1 ⟨13⟩).1, ?_, ?_⟩
  . rw [(hlinked.written hreader "x" (.int 5)).1 rfl, Members.get?_set, if_pos rfl]
    rfl
  . have htarget : (Value.bound 7 (.object deep.1) (.func ⟨0⟩)).target .undefined = (.func ⟨0⟩, .object deep.1) := rfl
    have hused : Run.ownerInUse (s.heap.closure ⟨0⟩) ⟨14⟩ deep.1 [] (s.opened (s.heap.closure ⟨0⟩)) =
        .ok true (s.opened (s.heap.closure ⟨0⟩)) :=
      Run.ownerInUse_of_isSubOf (by decide)
    rcases @hleads.called m (Library.runRoutine m) _ _ _ _ _ _ s htarget rfl (by decide) rfl hused
      with ⟨scope, t, hrun, hthis, _⟩
    exact ⟨scope, t, hrun, hthis (by decide)⟩
  . rcases @hleads.written m s deep.1 view.1 (by decide) rfl rfl "x" (.int 5) with ⟨t, hset, hread, _⟩
    exact ⟨t, hset, hread rfl⟩

/-- A method that gives the value of an expression. -/
def Expr.method (params : List String) (value : Expr) : Expr :=
  .func (.mk none params false [Stmt.ofKind (.ret (some value))])

/-- A call of a method without arguments. -/
def Expr.ask (receiver : Expr) (name : String) : Expr := .call (.mk (.member receiver name) [] false)

-- The initialiser of the topmost class writes to the instance, three views away.
example :
    let init (value : Expr) := MemberDef.mk (.str "__init__") (.method [] value)
    let up := Expr.ask (.ident "super") "__init__"
    let script := [
      Stmt.ofKind (.cls (.mk "A" false [] [init (.assign (.member (.ident "this") "n") (.int 7))] [])),
      Stmt.ofKind (.cls (.mk "B" false [.ident "A"] [init up] [])),
      Stmt.ofKind (.cls (.mk "C" false [.ident "B"] [init up] [])),
      Stmt.expr (.member (.new (.ident "C") []) "n")]
    ((Host.none.machine 30).evalBlock script).int? (Engine.bareState {} .silent 100000) = some 7 := by
  decide +kernel

/--
A method with a parameter that is named `this` does not get the instance; neither does one whose class is
no longer in use, called on a view. A member that is set to `undefined` is read from the class again.
-/
theorem instance_is_hidden
    : let m := Host.none.machine 20
      let s := Engine.bareState {} .silent 100000
      let shadowed := [
        Stmt.ofKind (.cls (.mk "C" false [] [.mk (.str "m") (.method ["this"] (.ident "this"))] [])),
        Stmt.expr (.call (.mk (.member (.new (.ident "C") []) "m") [.positional (.int 5)] false))]
      let outlived := [
        Stmt.ofKind (.cls (.mk "B" false [] [.mk (.str "x") (.int 2)] [])),
        Stmt.ofKind (.cls (.mk "C" false [.ident "B"]
          [.mk (.str "x") (.int 1), .mk (.str "go") (.method [] (.ask (.ident "super") "f"))] [])),
        Stmt.funcDecl "make" [] [
          Stmt.ofKind (.cls (.mk "T" false [] [] [.mk (.str "f") (.method [] (.member (.ident "this") "x"))])),
          Stmt.var "f" (.member (.ident "T") "f"),
          Stmt.assign (.ident "T") .nil,
          Stmt.ofKind (.ret (some (.ident "f")))],
        Stmt.var "c" (.new (.ident "C") []),
        Stmt.assign (.member (.ident "c") "f") (.call (.mk (.ident "make") [] false)),
        Stmt.expr (.ask (.ident "c") "go")]
      let removed := [
        Stmt.ofKind (.cls (.mk "D" false [] [.mk (.str "x") (.int 1)] [])),
        Stmt.var "d" (.new (.ident "D") []),
        Stmt.assign (.member (.ident "d") "x") .undefined,
        Stmt.expr (.member (.ident "d") "x")]
      (m.evalBlock shadowed).int? s = some 5 ∧ (m.evalBlock outlived).int? s = some 2 ∧
        (m.evalBlock removed).int? s = some 1 := by
  decide +kernel

end ScriptEngine
