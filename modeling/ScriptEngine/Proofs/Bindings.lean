import ScriptEngine.Proofs.Supers

/-!
This module contains how values are bound to names by their places: to the parameters of a function when it is called,
and to the names of a definition that takes an array apart. Both do the same to the heap. An array that collects values
is a new one, so that it is shared with nothing.
-/

namespace ScriptEngine

namespace Heap

variable {h h' g g' : Heap} {scope scope' : ScopeRef} {rest : Bool} {names : List String} {values : List Value}

/-- An array that was not there before, with the items that it has now. -/
structure MakesArray (h h' : Heap) (array : ArrayRef) (items : List Value) : Prop where
  fresh : h.arrays.size ≤ array.index
  items : h'.arrays[array.index]? = some items.toArray

/-- Names that got values by their places. -/
structure BindsAll (h h' : Heap) (scope : ScopeRef) (rest : Bool) (names : List String) (values : List Value) :
    Prop where
  /-- A name stands for the value at its place, or for `undefined` if there is none. -/
  value {i : Nat} {name : String} (hname : names[i]? = some name) (hplace : rest = false ∨ i + 1 < names.length)
    : h'.scopes.own? scope name = some (values.getD i .undefined)
  /-- The name at the end stands for a new array of the values that are left. -/
  rest {name : String} (hrest : rest = true) (hlast : names.getLast? = some name)
    : ∃ array, h'.scopes.own? scope name = some (.array array) ∧
        h.MakesArray h' array (values.drop (names.length - 1))

/-- Whether a name stands for the same in two scopes, where of an array only the items count. -/
def BindAlike (h : Heap) (scope : ScopeRef) (g : Heap) (scope' : ScopeRef) (name : String) : Prop :=
  ∃ v w, h.scopes.own? scope name = some v ∧ g.scopes.own? scope' name = some w ∧
    (v = w ∨ ∃ a b items, v = .array a ∧ w = .array b ∧ h.arrays[a.index]? = some items ∧
      g.arrays[b.index]? = some items)

theorem MakesArray.congr {array : ArrayRef} {items : List Value} (hmakes : h.MakesArray h' array items)
    (hsize : g.arrays.size ≤ h.arrays.size) (harray : g'.arrays[array.index]? = h'.arrays[array.index]?)
    : g.MakesArray g' array items where
  fresh := Nat.le_trans hsize hmakes.fresh
  items := harray.trans hmakes.items

/-- What the names stand for depends on no arrays but new ones. -/
theorem BindsAll.congr (hbinds : h.BindsAll h' scope rest names values) (hsize : g.arrays.size ≤ h.arrays.size)
    (hscopes : g'.scopes = h'.scopes) (harrays : ∀ i, h.arrays.size ≤ i → g'.arrays[i]? = h'.arrays[i]?)
    : g.BindsAll g' scope rest names values where
  value hname hplace := by
    rw [hscopes]
    exact hbinds.value hname hplace
  rest hrest hlast := by
    rcases hbinds.rest hrest hlast with ⟨array, hown, hmakes⟩
    rw [hscopes]
    exact ⟨array, hown, hmakes.congr hsize (harrays array.index hmakes.fresh)⟩

/-- The names before the last one do not depend on the arrays. -/
theorem BindsAll.dropLast (hbinds : h.BindsAll h' scope rest names values) (hscopes : g'.scopes = h'.scopes)
    : g.BindsAll g' scope false names.dropLast values where
  value {i name} hname _ := by
    have hlt := (List.getElem?_eq_some_iff.mp hname).1
    rw [List.length_dropLast] at hlt
    rw [List.getElem?_dropLast, if_pos hlt] at hname
    rw [hscopes]
    exact hbinds.value hname (.inr (by omega))
  rest hrest := by cases hrest

/-- The names and the values determine what every name stands for. -/
theorem BindsAll.bindAlike (hbinds : h.BindsAll h' scope rest names values)
    (hbinds' : g.BindsAll g' scope' rest names values) {name : String} (hname : name ∈ names)
    : h'.BindAlike scope g' scope' name := by
  rcases List.mem_iff_getElem?.mp hname with ⟨i, hi⟩
  by_cases hplace : rest = false ∨ i + 1 < names.length
  . exact ⟨_, _, hbinds.value hi hplace, hbinds'.value hi hplace, .inl rfl⟩
  . rw [not_or, Bool.not_eq_false] at hplace
    have hlast : names.getLast? = some name := by
      have hlt := (List.getElem?_eq_some_iff.mp hi).1
      rw [List.getLast?_eq_getElem?, ← hi]
      congr 1
      omega
    rcases hbinds.rest hplace.1 hlast with ⟨a, ha, hmakes⟩
    rcases hbinds'.rest hplace.1 hlast with ⟨b, hb, hmakes'⟩
    exact ⟨_, _, ha, hb, .inr ⟨a, b, _, rfl, rfl, hmakes.items, hmakes'.items⟩⟩

/-- The arrays that were there before stay as they were. -/
theorem bindAll_arrays (h : Heap) (scope : ScopeRef) (rest : Bool) (names : List String) (values : List Value) {i : Nat}
    (hi : i < h.arrays.size)
    : (h.bindAll scope rest names values).arrays[i]? = h.arrays[i]? := by
  fun_induction bindAll h scope rest names values with
  | case1 => rfl
  | case2 => exact Array.getElem?_push_lt hi |>.trans (Array.getElem?_eq_getElem hi).symm
  | case3 => rfl
  | case4 h name names values _ ih => exact ih hi

/-- The induction is on the names. A name keeps its value as the names after it are other ones. -/
theorem bindAll_bindsAll (rest : Bool) (names : List String) (values : List Value) (hscope : h.scopes.Has scope)
    (hnodup : names.Nodup) (hplaceholder : Scopes.placeholder ∉ names)
    : h.BindsAll (h.bindAll scope rest names values) scope rest names values := by
  have hfirst (values : List Value) : values.headD .undefined = values.getD 0 .undefined := by cases values <;> rfl
  fun_induction bindAll h scope rest names values with
  | case1 h values =>
    constructor
    . intro i name hname
      cases hname
    . intro name _ hlast
      cases hlast
  | case2 h name values hrest =>
    have hname : name ≠ Scopes.placeholder := Ne.symm (List.ne_of_not_mem_cons hplaceholder)
    constructor
    . intro i other _ hplace
      rcases hplace with hplace | hplace
      . cases hrest.symm.trans hplace
      . rw [List.length_singleton] at hplace
        omega
    . intro other _ hlast
      injection hlast with hlast
      rw [← hlast]
      exact ⟨_, Scopes.own?_force_self hscope hname _, Nat.le_refl _, Array.getElem?_push_size⟩
  | case3 h name values hrest =>
    have hname : name ≠ Scopes.placeholder := Ne.symm (List.ne_of_not_mem_cons hplaceholder)
    constructor
    . intro i other hi _
      cases i with
      | zero =>
        injection hi with hi
        rw [← hi, ← hfirst]
        exact Scopes.own?_force_self hscope hname _
      | succ i => cases hi
    . intro other hrest' _
      exact absurd hrest' hrest
  | case4 h name names values hmore ih =>
    have hname : name ≠ Scopes.placeholder := Ne.symm (List.ne_of_not_mem_cons hplaceholder)
    have hlength : 0 < names.length := List.length_pos_iff.mpr hmore
    rw [List.nodup_cons] at hnodup
    have hbinds := ih (Scopes.has_force.mpr hscope) hnodup.2 fun hmem => hplaceholder (List.mem_cons_of_mem name hmem)
    constructor
    . intro i other hi hplace
      cases i with
      | zero =>
        injection hi with hi
        rw [← hi, bindAll_own _ scope rest names values.tail hnodup.1, ← hfirst]
        exact Scopes.own?_force_self hscope hname _
      | succ i =>
        have htail : values.getD (i + 1) .undefined = values.tail.getD i .undefined := by cases values <;> rfl
        rw [htail]
        exact hbinds.value hi (hplace.imp_right Nat.lt_of_succ_lt_succ)
    . intro other hrest hlast
      rw [List.getLast?_cons_of_ne_nil hmore] at hlast
      rcases hbinds.rest hrest hlast with ⟨array, hown, hmakes⟩
      refine ⟨array, hown, hmakes.fresh, ?_⟩
      rw [hmakes.items, List.drop_tail, List.length_cons]
      congr 3
      omega

theorem arrays_modifyItems (array : ArrayRef) {i : Nat} (hi : i ≠ array.index) (f : Array Value → Array Value)
    : (h.modifyItems array f).arrays[i]? = h.arrays[i]? := by
  show (h.arrays.modify array.index f)[i]? = _
  rw [Array.getElem?_modify, if_neg (Ne.symm hi)]

end Heap

section Steps

variable {s : State}

theorem define_of_unbound {t : Scopes} {ref : ScopeRef} {name : String} (hunbound : t.own? ref name = none)
    (value : Value)
    : t.define ref name value = .ok (t.force ref name value) := by
  by_cases hname : name = Scopes.placeholder
  . rw [hname]
    rfl
  . rw [Scopes.define_eq hname, hunbound, Scopes.force_eq hname]
    rfl

theorem defineLocal_of_unbound {name : String} (hunbound : s.heap.scopes.own? s.scope name = none) (value : Value)
    : Run.defineLocal name value s = .ok () { s with heap := s.heap.force s.scope name value } := by
  rw [Run.defineLocal_apply, define_of_unbound hunbound]
  rfl

/-- A definition binds the items to its names, if they are not bound yet. -/
theorem defineItems_eq (rest : Bool) (names : List String) (items : List Value) (hnodup : names.Nodup)
    (hunbound : ∀ name ∈ names, s.heap.scopes.own? s.scope name = none)
    : Machine.defineItems rest names items s =
        .ok () { s with heap := s.heap.bindAll s.scope rest names items } := by
  fun_induction Machine.defineItems rest names items generalizing s with
  | case1 => rfl
  | case2 name items hrest =>
    unfold Heap.bindAll
    rw [if_pos hrest]
    exact defineLocal_of_unbound (s := { s with heap := (s.heap.newArray items.toArray).2 })
      (hunbound name (List.mem_singleton_self name)) _
  | case3 name items hrest =>
    unfold Heap.bindAll
    rw [if_neg hrest]
    exact defineLocal_of_unbound (hunbound name (List.mem_singleton_self name)) _
  | case4 name names items hmore ih =>
    rw [List.nodup_cons] at hnodup
    have hrest : ∀ other ∈ names,
        (s.heap.force s.scope name (items.headD .undefined)).scopes.own? s.scope other = none := by
      intro other hother
      have hne : other ≠ name := by
        rintro rfl
        exact hnodup.1 hother
      exact (Scopes.own?_force_of_name_ne hne ..).trans (hunbound other (List.mem_cons_of_mem name hother))
    rw [Run.bind_ok (defineLocal_of_unbound (hunbound name List.mem_cons_self) _), Heap.bindAll_cons hmore]
    exact ih (s := { s with heap := s.heap.force s.scope name (items.headD .undefined) }) hnodup.2 hrest

/-- Finding the receiver makes no array and no scope. -/
theorem bindReceiver_keeps (scope : ScopeRef) (closure : Closure) (this : Value) (args : List Value) (s : State)
    : ∃ receiver heap, Run.bindReceiver scope closure this args s = .ok receiver { s with heap := heap } ∧
        heap.arrays = s.heap.arrays ∧ ∀ other, heap.scopes.Has other ↔ s.heap.scopes.Has other := by
  have hthis : ∃ receiver heap, (pure this : Run Value) s = .ok receiver { s with heap := heap } ∧
      heap.arrays = s.heap.arrays ∧ ∀ other, heap.scopes.Has other ↔ s.heap.scopes.Has other :=
    ⟨this, s.heap, rfl, rfl, fun _ => Iff.rfl⟩
  cases hown : closure.owner with
  | none =>
    unfold Run.bindReceiver
    rw [hown]
    exact hthis
  | some owner =>
    cases this with
    | object handle =>
      rcases Run.ownerInUse_reads closure owner handle args s with ⟨used, hused⟩
      cases used with
      | true =>
        exact ⟨_, _, Run.bindReceiver_apply scope hown hused, s.heap.superView_arrays handle owner,
          fun _ => Scopes.has_force⟩
      | false =>
        unfold Run.bindReceiver
        rw [hown]
        dsimp only
        rw [Run.bind_ok hused]
        exact hthis
    | _ =>
      unfold Run.bindReceiver
      rw [hown]
      exact hthis

end Steps

/-- A scope that was made for a call, with the parameters and `arguments`, which is an array of all values. -/
structure Heap.CallsWith (h h' : Heap) (scope : ScopeRef) (rest : Bool) (names : List String) (values : List Value)
    (given : ArrayRef) : Prop where
  opened : h.scopes.Opened h'.scopes scope
  bindsAll : h.BindsAll h' scope rest names values
  arguments : h'.scopes.own? scope "arguments" = some (.array given) ∧ h.MakesArray h' given values
  /-- A change of that array leaves the parameters and all arrays that were there before the call, -/
  changed (f : Array Value → Array Value)
    : h.BindsAll (h'.modifyItems given f) scope rest names values ∧
        ∀ i, i < h.arrays.size → (h'.modifyItems given f).arrays[i]? = h.arrays[i]?
  /-- and a change of the array that collects values leaves all of them but itself, and `arguments`. -/
  restChanged {name : String} {array : ArrayRef} (hrest : rest = true) (hlast : names.getLast? = some name)
      (hown : h'.scopes.own? scope name = some (.array array)) (f : Array Value → Array Value)
    : h.BindsAll (h'.modifyItems array f) scope false names.dropLast values ∧
        h.MakesArray (h'.modifyItems array f) given values ∧
        ∀ i, i < h.arrays.size → (h'.modifyItems array f).arrays[i]? = h.arrays[i]?

/-- The array of all values is made before the values are bound, so it differs from the one that collects some. -/
theorem Heap.BindsAll.callsWith {h g h' : Heap} {scope : ScopeRef} {rest : Bool} {names : List String}
    {values : List Value} (hbinds : g.BindsAll h' scope rest names values)
    (hopened : h.scopes.Opened h'.scopes scope) (hsize : g.arrays.size = h.arrays.size + 1)
    (hgiven : h'.scopes.own? scope "arguments" = some (.array ⟨h.arrays.size⟩))
    (hitems : h'.arrays[h.arrays.size]? = some values.toArray)
    (hold : ∀ i, i < h.arrays.size → h'.arrays[i]? = h.arrays[i]?)
    : h.CallsWith h' scope rest names values ⟨h.arrays.size⟩ := by
  have hle : h.arrays.size ≤ g.arrays.size := by omega
  have hmakes : h.MakesArray h' ⟨h.arrays.size⟩ values := ⟨Nat.le_refl _, hitems⟩
  constructor
  case opened => exact hopened
  case bindsAll => exact hbinds.congr hle rfl fun _ _ => rfl
  case arguments => exact ⟨hgiven, hmakes⟩
  case changed =>
    intro f
    constructor
    . refine hbinds.congr hle ?_ ?_
      . rfl
      . intro i hi
        have hne : i ≠ h.arrays.size := by omega
        exact arrays_modifyItems ⟨h.arrays.size⟩ hne f
    . intro i hi
      have hne : i ≠ h.arrays.size := by omega
      exact (arrays_modifyItems ⟨h.arrays.size⟩ hne f).trans (hold i hi)
  case restChanged =>
    intro name array hrest hlast hown f
    rcases hbinds.rest hrest hlast with ⟨array', hown', hrested⟩
    have harray : array' = array := by
      rw [hown] at hown'
      injection hown' with hown'
      injection hown' with hown'
      exact hown'.symm
    have hfresh := hrested.fresh
    rw [harray] at hfresh
    refine ⟨hbinds.dropLast rfl, ?_, ?_⟩
    . apply hmakes.congr (Nat.le_refl _)
      have hne : h.arrays.size ≠ array.index := by omega
      exact arrays_modifyItems array hne f
    . intro i hi
      have hne : i ≠ array.index := by omega
      exact (arrays_modifyItems array hne f).trans (hold i hi)

theorem callScope_callsWith (closure : Closure) (this : Value) (args : List Value) (s : State)
    (hnodup : closure.code.params.Nodup) (hplaceholder : Scopes.placeholder ∉ closure.code.params)
    (harguments : "arguments" ∉ closure.code.params)
    : ∃ scope t given, Run.callScope closure this args s = .ok scope t ∧
        s.heap.CallsWith t.heap scope closure.code.rest closure.code.params args given := by
  let scope := (s.heap.newScope (some closure.scope)).1
  rcases bindReceiver_keeps scope closure this args (s.opened closure)
    with ⟨receiver, received, hreceiver, harrays, hscopes⟩
  have hcall := Run.callScope_eq hreceiver
  rcases Run.callScope_opensScope closure this args s with ⟨scope', heap', hcall', hopened, _⟩
  rw [hcall] at hcall'
  injection hcall' with hscope ht
  injection ht with hheap
  subst hscope hheap
  have hhas : received.scopes.Has scope := (hscopes scope).mpr (Run.opened_has closure s)
  have hfilled : (received.receive scope receiver args).scopes.Has scope := Heap.has_receive.mpr hhas
  have hbinds := Heap.bindAll_bindsAll closure.code.rest closure.code.params args hfilled hnodup hplaceholder
  have hpushed : (received.receive scope receiver args).arrays = s.heap.arrays.push args.toArray :=
    congrArg (·.push args.toArray) harrays
  have hsize : (received.receive scope receiver args).arrays.size = s.heap.arrays.size + 1 := by
    rw [hpushed, Array.size_push]
  refine ⟨scope, _, _, hcall, hbinds.callsWith hopened hsize ?_ ?_ ?_⟩
  . rw [Heap.bindAll_own _ scope _ _ args harguments, Heap.receive_arguments hhas, harrays]
    rfl
  . rw [Heap.bindAll_arrays _ scope _ _ args (by omega), hpushed, Array.getElem?_push_size]
  . intro i hi
    rw [Heap.bindAll_arrays _ scope _ _ args (by omega), hpushed, Array.getElem?_push_lt hi,
      Array.getElem?_eq_getElem hi]

theorem evalDefine_bindsAll {m : Machine} {names : List String} (rest : Bool) {values : List Value} {e : Expr}
    {s t : State} {array : ArrayRef} (hnodup : names.Nodup) (hplaceholder : Scopes.placeholder ∉ names)
    (heval : m.eval e s = .ok (.array array) t) (hitems : (t.heap.items array).toList = values)
    (hscope : t.heap.scopes.Has t.scope) (hunbound : ∀ name ∈ names, t.heap.scopes.own? t.scope name = none)
    : ∃ u, m.evalDefine names (.items rest) e s = .ok (.array array) u ∧ u.scope = t.scope ∧
        t.heap.BindsAll u.heap u.scope rest names values := by
  have hbinds := Heap.bindAll_bindsAll rest names values hscope hnodup hplaceholder
  rcases Run.hold_apply (.array array) t with ⟨held, hheld⟩
  have hvalue : m.evalHeld e s = .ok (.array array) { t with held := held } := by
    unfold Machine.evalHeld
    rw [Run.bind_ok heval, Run.bind_ok hheld]
    rfl
  have hdefine := defineItems_eq (s := { t with held := held }) rest names (t.heap.items array).toList hnodup hunbound
  rw [← hitems] at hbinds ⊢
  let u := { t with held := held, heap := t.heap.bindAll t.scope rest names (t.heap.items array).toList }
  refine ⟨u, ?_, rfl, hbinds⟩
  unfold Machine.evalDefine
  rw [Run.bind_ok hvalue]
  show (Machine.defineItems rest names (t.heap.items array).toList >>= fun _ => (pure (.array array) : Run Value))
    { t with held := held } = _
  rw [Run.bind_ok hdefine]
  rfl

/--
A call binds values to the parameters of a function as a definition binds the items of an array to its names. The
scope of the call, and the current scope if it binds none of the names, bind every name to the value at its place, and
the last one with `rest` to a new array of those that are left. In a call, `arguments` is a new array of all values,
and what is done to one of these arrays changes neither the other one nor what else there is.
-/
theorem parameters_and_definitions_bind_alike {names : List String} (rest : Bool) (values : List Value)
    (hnodup : names.Nodup) (hnames : Scopes.placeholder ∉ names ∧ "arguments" ∉ names)
    : (∀ (ref : ClosureRef) (this : Value) (s : State),
        (s.heap.closure ref).code.params = names → (s.heap.closure ref).code.rest = rest →
        ∃ scope t given, s.heap.CallsWith t.heap scope rest names values given ∧
          (s.context.depth < s.world.settings.maxDepth →
            ∀ (m : Machine) (runNative : Native → Value → List Value → Run Value),
              m.invokeWith runNative (.func ref) this values s =
                m.withCall (s.heap.closure ref).code.displayName scope
                  (do m.execAll (s.heap.closure ref).code.body; Run.finishFlow) t)) ∧
      ∀ (m : Machine) (e : Expr) (s t : State) (array : ArrayRef),
        m.eval e s = .ok (.array array) t → (t.heap.items array).toList = values →
        t.heap.scopes.Has t.scope → (∀ name ∈ names, t.heap.scopes.own? t.scope name = none) →
        ∃ u, m.evalExpr (.define names (.items rest) e) s = .ok (.array array) u ∧ u.scope = t.scope ∧
          t.heap.BindsAll u.heap u.scope rest names values ∧
          ∀ (h h' : Heap) (scope : ScopeRef) (given : ArrayRef), h.CallsWith h' scope rest names values given →
            ∀ name ∈ names, h'.BindAlike scope u.heap u.scope name := by
  constructor
  . intro ref this s hparams hrest
    rcases callScope_callsWith (s.heap.closure ref) this values s (hparams ▸ hnodup) (hparams ▸ hnames.1)
      (hparams ▸ hnames.2) with ⟨scope, t, given, hscope, hcalls⟩
    rw [hparams, hrest] at hcalls
    refine ⟨scope, t, given, hcalls, ?_⟩
    intro hdepth m runNative
    rw [Machine.invokeWith]
    exact Machine.invokeClosure_opened hdepth hscope
  . intro m e s t array heval hitems hscope hunbound
    rcases evalDefine_bindsAll rest hnodup hnames.1 heval hitems hscope hunbound with ⟨u, hdefine, hu, hbinds⟩
    refine ⟨u, ?_, hu, hbinds, ?_⟩
    . unfold Machine.evalExpr
      exact hdefine
    . intro h h' scope given hcalls name hname
      exact hcalls.bindsAll.bindAlike hbinds hname

/-- Of four values the last two are collected, in a call and in a definition. -/
theorem last_name_collects_values
    : let names := ["a", "b", "more"]
      let values := [Value.int 1, .int 2, .int 3, .int 4]
      let bare := Engine.bareState {} .silent 0
      let s := { bare with heap := (bare.heap.newClosure ⟨.mk none names true [], bare.scope, none⟩).2 }
      let m := Host.none.machine 8
      let items := Expr.array ([1, 2, 3, 4].map fun i => .mk (.int i) none false)
      (∃ scope t given array, s.heap.CallsWith t.heap scope true names values given ∧
        t.heap.scopes.own? scope "b" = some (.int 2) ∧ t.heap.scopes.own? scope "more" = some (.array array) ∧
        s.heap.MakesArray t.heap array [.int 3, .int 4] ∧
        m.invokeWith (Library.runRoutine m) (.func ⟨0⟩) .nil values s =
          m.withCall "<anonymous function>" scope (do m.execAll []; Run.finishFlow) t) ∧
      ∃ array t u, m.eval items s = .ok (.array array) t ∧
        m.evalExpr (.define names (.items true) items) s = .ok (.array array) u ∧
        u.heap.scopes.own? u.scope "b" = some (.int 2) ∧
        ∃ array, u.heap.scopes.own? u.scope "more" = some (.array array) ∧
          t.heap.MakesArray u.heap array [.int 3, .int 4] := by
  intro names values bare s m items
  have heval : ∃ array t, m.eval items s = .ok (.array array) t ∧ (t.heap.items array).toList = values ∧
      t.heap.scopes.Has t.scope ∧ ∀ name ∈ names, t.heap.scopes.own? t.scope name = none :=
    ⟨_, _, rfl, rfl, by decide, by decide⟩
  have hdepth : s.context.depth < s.world.settings.maxDepth := by decide
  clear_value m
  have hnodup : names.Nodup := by decide
  rcases parameters_and_definitions_bind_alike true values hnodup (by decide) with ⟨hcall, hdefine⟩
  constructor
  . rcases hcall ⟨0⟩ .nil s rfl rfl with ⟨scope, t, given, hcalls, hinvoke⟩
    rcases hcalls.bindsAll.rest rfl (rfl : names.getLast? = some "more") with ⟨array, hown, hmakes⟩
    have hsecond := hcalls.bindsAll.value (rfl : names[1]? = some "b") (.inr (by decide))
    exact ⟨scope, t, given, array, hcalls, hsecond, hown, hmakes, hinvoke hdepth m (Library.runRoutine m)⟩
  . rcases heval with ⟨array, t, heval, hitems, hscope, hunbound⟩
    rcases hdefine m items s t array heval hitems hscope hunbound with ⟨u, hdefine, _, hbinds, _⟩
    rcases hbinds.rest rfl (rfl : names.getLast? = some "more") with ⟨collected, hown, hmakes⟩
    have hsecond := hbinds.value (rfl : names[1]? = some "b") (.inr (by decide))
    exact ⟨array, t, u, heval, hdefine, hsecond, collected, hown, hmakes⟩

end ScriptEngine
