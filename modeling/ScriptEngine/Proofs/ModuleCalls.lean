import ScriptEngine.Engine.Setup
import ScriptEngine.Proofs.Run

/-!
This module contains the modules that an engine keeps, over any calls that import or drop modules. The
calls are made on any contexts of the engine, and the host may answer each of them differently, as long
as it leaves alone what is kept.
-/

namespace ScriptEngine

namespace State

/-- The timestamp of the module that is kept, or zero. -/
def stamp (s : State) (name : String) : Int64 := ((s.world.modules.get? name).map Module.modified).getD 0

/-- Whether an import asks the host. -/
def asks (s : State) (name : String) (forceReload : Bool) : Bool :=
  (s.world.modules.get? name).all fun kept => forceReload && kept.modified != 0

/-- The state in which an import asks the host. The value that is kept is held on to. -/
def asking (s : State) (name : String) : State :=
  match s.world.modules.get? name with
  | none => s
  | some kept => Engine.stateAfter (Run.hold kept.value) s

/-- Whether a module has another timestamp than the one that is kept. -/
def isNews (s : State) (name : String) (loaded : Module) : Bool :=
  (s.world.modules.get? name).all fun kept => loaded.modified != kept.modified

@[simp]
theorem asking_modules (s : State) (name : String) : (s.asking name).world.modules = s.world.modules := by
  unfold asking
  split
  . rfl
  . next kept _ =>
    rcases Run.hold_apply kept.value s with ⟨held, h⟩
    unfold Engine.stateAfter
    rw [h]

theorem asks_some {s : State} {name : String} {kept : Module} (h : s.world.modules.get? name = some kept)
    (forceReload : Bool)
    : s.asks name forceReload = true ↔ forceReload = true ∧ kept.modified ≠ 0 := by
  unfold asks
  rw [h]
  simp

theorem asks_eq_false_iff {s : State} {name : String} {forceReload : Bool}
    : s.asks name forceReload = false ↔
        ∃ kept, s.world.modules.get? name = some kept ∧ (forceReload = false ∨ kept.modified = 0) := by
  unfold asks
  cases s.world.modules.get? name with
  | none => simp
  | some kept => cases forceReload <;> simp

end State

/-- A call that a host makes on a context. -/
inductive ModuleCall where
  /-- Imports a module. -/
  | load (m : Machine) (name : String) (forceReload : Bool)
  /-- Drops a module. -/
  | forget (name : String)

namespace ModuleCall

/-- Makes a call. It gives the value of the module, if there is one. -/
def run : ModuleCall → Run (Option Value)
  | load m name forceReload => some <$> m.importModule name forceReload
  | forget name => Run.forgetModule name

/-- The importer leaves alone which modules are kept, however it ends. -/
def IsAloof : ModuleCall → Prop
  | load m _ _ =>
    ∀ ask, m.importer = some ask → ∀ name modified s,
      (Engine.stateAfter (ask name modified) s).world.modules = s.world.modules
  | forget _ => True

end ModuleCall

/-- Calls one after another. Only what is kept passes from each to the next, whatever else happens between them. -/
inductive ModuleCalls : Table Module → List (ModuleCall × State) → Table Module → Prop where
  | done (kept : Table Module) : ModuleCalls kept [] kept
  | call {s : State} {call : ModuleCall} {calls : List (ModuleCall × State)} {last : Table Module}
      (haloof : call.IsAloof) (hrest : ModuleCalls (Engine.stateAfter call.run s).world.modules calls last)
      : ModuleCalls s.world.modules ((call, s) :: calls) last

/--
An import asks the importer, which is told the timestamp that is kept, and the importer ends with
`answer`.
-/
def Machine.Hears (m : Machine) (name : String) (forceReload : Bool) (s : State)
    (answer : EStateM.Result Halt State (Option Module))
    : Prop :=
  s.asks name forceReload = true ∧
    ∃ ask, m.importer = some ask ∧ ask name (s.stamp name) (s.asking name) = answer

/-- What an import does in every case. -/
structure Machine.ImportLaws (m : Machine) (name : String) (forceReload : Bool) (s : State) : Prop where
  /-- A module that is kept is given if no reload is forced or it cannot change, whatever the host is. -/
  kept : ∀ kept, s.world.modules.get? name = some kept → forceReload = false ∨ kept.modified = 0 →
    ∀ m' : Machine, m'.importModule name forceReload s = .ok kept.value s
  /-- The importer is told the timestamp that is kept: what it would say to any other does not matter. -/
  told : ∀ m' : Machine, m'.loadModule name (s.stamp name) = m.loadModule name (s.stamp name) →
    m'.importModule name forceReload s = m.importModule name forceReload s
  /-- There is nobody to ask. -/
  unasked : s.asks name forceReload = true → m.importer = none →
    ∃ t, m.importModule name forceReload s = .error (.raised (.ofCause (.missingModule name))) t ∧
      t.world.modules = s.world.modules
  /-- The importer does not find the module. -/
  missing : ∀ t, m.Hears name forceReload s (.ok none t) →
    m.importModule name forceReload s = .error (.raised (.ofCause (.missingModule name))) t ∧
      t.world.modules = s.world.modules
  /-- The importer fails. -/
  failed : ∀ halt t, m.Hears name forceReload s (.error halt t) →
    m.importModule name forceReload s = .error halt t ∧ t.world.modules = s.world.modules
  /-- The importer reports the timestamp that is kept. -/
  unchanged : ∀ kept loaded t, s.world.modules.get? name = some kept →
    m.Hears name forceReload s (.ok (some loaded) t) → loaded.modified = kept.modified →
    m.importModule name forceReload s = .ok kept.value t ∧ t.world.modules = s.world.modules
  /-- The importer gives a module whose value is `undefined`. -/
  undefined : ∀ loaded t, m.Hears name forceReload s (.ok (some loaded) t) → s.isNews name loaded = true →
    loaded.value.isUndefined = true →
    m.importModule name forceReload s = .ok loaded.value t ∧ t.world.modules = s.world.modules
  /-- The importer gives any other module. -/
  stored : ∀ loaded t, m.Hears name forceReload s (.ok (some loaded) t) → s.isNews name loaded = true →
    loaded.value.isUndefined = false →
    m.importModule name forceReload s = .ok loaded.value (t.withModules (s.world.modules.put name loaded))
  /-- The modules of other names stay as they are. -/
  others : ∀ other, other ≠ name →
    (Engine.stateAfter (m.importModule name forceReload) s).world.modules.get? other =
      s.world.modules.get? other

/-- The module that an import puts in place of the one that is kept, if it does. -/
def Machine.stores? (m : Machine) (name : String) (forceReload : Bool) (s : State) : Option Module :=
  if s.asks name forceReload then
    match m.loadModule name (s.stamp name) (s.asking name) with
    | .ok loaded _ => if s.isNews name loaded && !loaded.value.isUndefined then some loaded else none
    | .error _ _ => none
  else
    none

namespace ModuleCall

/-- What a call does in every case. -/
def Lawful (s : State) : ModuleCall → Prop
  | load m name forceReload => m.ImportLaws name forceReload s
  | forget name =>
    Run.forgetModule name s =
      .ok ((s.world.modules.get? name).map Module.value) (s.withModules (s.world.modules.erase name))

/-- The module that a call puts under a name, or `some none` if it drops the one that is kept. -/
def change? (name : String) : ModuleCall × State → Option (Option Module)
  | (load m imported forceReload, s) => if imported = name then (m.stores? name forceReload s).map some else none
  | (forget dropped, _) => if dropped = name then some none else none

end ModuleCall

namespace Machine

variable {m : Machine} {name : String} {forceReload : Bool} {s t : State} {loaded : Module}

/-- Ends an import with what the host loaded. -/
def choose (kept : Option Module) (name : String) (loaded : Module) : Run Value :=
  match kept with
  | none => keepModule name loaded
  | some kept => if loaded.modified == kept.modified then pure kept.value else keepModule name loaded

theorem importModule_asking (m : Machine) (h : s.asks name forceReload = true)
    : m.importModule name forceReload s =
        (m.loadModule name (s.stamp name) >>= choose (s.world.modules.get? name) name) (s.asking name) := by
  unfold State.stamp State.asking
  cases hkept : s.world.modules.get? name with
  | none => exact importModule_none hkept forceReload
  | some kept =>
    rcases (State.asks_some hkept forceReload).mp h with ⟨hforce, hmodified⟩
    have hgiven : ¬((!true || kept.modified == 0) = true) := by simp [hmodified]
    have hhold : Run.hold kept.value s = .ok () (Engine.stateAfter (Run.hold kept.value) s) := by
      rcases Run.hold_apply kept.value s with ⟨held, h⟩
      unfold Engine.stateAfter
      rw [h]
    rw [hforce]
    unfold importModule
    rw [Run.bind_ok (rfl : Run.getWorld s = .ok s.world s), hkept]
    dsimp only
    rw [if_neg hgiven, Run.bind_ok hhold]
    rfl

theorem importModule_loaded (h : s.asks name forceReload = true)
    (hload : m.loadModule name (s.stamp name) (s.asking name) = .ok loaded t)
    : m.importModule name forceReload s = choose (s.world.modules.get? name) name loaded t := by
  rw [importModule_asking m h, Run.bind_ok hload]

theorem importModule_halted {halt : Halt} (h : s.asks name forceReload = true)
    (hload : m.loadModule name (s.stamp name) (s.asking name) = .error halt t)
    : m.importModule name forceReload s = .error halt t := by
  rw [importModule_asking m h, Run.bind_error hload]

theorem choose_kept {kept : Module} (hkept : s.world.modules.get? name = some kept)
    (hmodified : loaded.modified = kept.modified) (t : State)
    : choose (s.world.modules.get? name) name loaded t = .ok kept.value t := by
  rw [hkept]
  unfold choose
  dsimp only
  rw [if_pos (beq_iff_eq.mpr hmodified)]
  rfl

theorem choose_news (hnews : s.isNews name loaded = true) (t : State)
    : choose (s.world.modules.get? name) name loaded t = .ok loaded.value
        (if loaded.value.isUndefined then t else t.withModules (t.world.modules.put name loaded)) := by
  unfold State.isNews at hnews
  cases hkept : s.world.modules.get? name with
  | none => exact keepModule_apply name loaded t
  | some kept =>
    rw [hkept] at hnews
    have hmodified : ¬((loaded.modified == kept.modified) = true) := by
      simpa using hnews
    unfold choose
    dsimp only
    rw [if_neg hmodified]
    exact keepModule_apply name loaded t

theorem loadModule_none (h : m.importer = none) (modified : Int64) (s : State)
    : m.loadModule name modified s = .error (.raised (.ofCause (.missingModule name))) s := by
  unfold loadModule
  rw [h]
  rfl

section Answers

variable {ask : String → Int64 → Run (Option Module)} {modified : Int64}

theorem loadModule_found (h : m.importer = some ask) (hask : ask name modified s = .ok (some loaded) t)
    : m.loadModule name modified s = .ok loaded t := by
  unfold loadModule
  rw [h]
  exact Run.bind_ok hask

theorem loadModule_missing (h : m.importer = some ask) (hask : ask name modified s = .ok none t)
    : m.loadModule name modified s = .error (.raised (.ofCause (.missingModule name))) t := by
  unfold loadModule
  rw [h]
  exact Run.bind_ok hask

theorem loadModule_failed {halt : Halt} (h : m.importer = some ask)
    (hask : ask name modified s = .error halt t)
    : m.loadModule name modified s = .error halt t := by
  unfold loadModule
  rw [h]
  exact Run.bind_error hask

end Answers

section Aloof

variable (haloof : (ModuleCall.load m name forceReload).IsAloof)

include haloof

theorem loadModule_modules (modified : Int64) (s : State)
    : (Engine.stateAfter (m.loadModule name modified) s).world.modules = s.world.modules := by
  cases himporter : m.importer with
  | none =>
    unfold Engine.stateAfter
    rw [loadModule_none himporter]
  | some ask =>
    have hmodules := haloof ask himporter name modified s
    unfold Engine.stateAfter at hmodules ⊢
    cases hask : ask name modified s with
    | error halt t =>
      rw [loadModule_failed himporter hask]
      rw [hask] at hmodules
      exact hmodules
    | ok found t =>
      rw [hask] at hmodules
      cases found with
      | none =>
        rw [loadModule_missing himporter hask]
        exact hmodules
      | some loaded =>
        rw [loadModule_found himporter hask]
        exact hmodules

/-- An import replaces one module, or it leaves everything that is kept as it is. -/
theorem importModule_modules (s : State)
    : (Engine.stateAfter (m.importModule name forceReload) s).world.modules =
        match m.stores? name forceReload s with
        | none => s.world.modules
        | some loaded => s.world.modules.put name loaded := by
  have hmodules := loadModule_modules haloof (s.stamp name) (s.asking name)
  rw [State.asking_modules] at hmodules
  unfold stores?
  unfold Engine.stateAfter at hmodules ⊢
  cases hasks : s.asks name forceReload with
  | false =>
    rcases State.asks_eq_false_iff.mp hasks with ⟨kept, hkept, hstays⟩
    rw [importModule_kept hkept hstays]
    rfl
  | true =>
    rw [if_pos rfl]
    cases hload : m.loadModule name (s.stamp name) (s.asking name) with
    | error halt t =>
      rw [hload] at hmodules
      rw [importModule_halted hasks hload]
      exact hmodules
    | ok loaded t =>
      rw [hload] at hmodules
      rw [importModule_loaded hasks hload]
      dsimp only at hmodules ⊢
      cases hnews : s.isNews name loaded with
      | false =>
        unfold State.isNews at hnews
        cases hkept : s.world.modules.get? name with
        | none =>
          rw [hkept] at hnews
          cases hnews
        | some kept =>
          rw [hkept] at hnews
          have hmodified : loaded.modified = kept.modified := by simpa using hnews
          rw [← hkept, choose_kept hkept hmodified]
          exact hmodules
      | true =>
        rw [choose_news hnews]
        cases loaded.value.isUndefined with
        | true => exact hmodules
        | false =>
          show t.world.modules.put name loaded = s.world.modules.put name loaded
          rw [hmodules]

theorem Hears.modules {answer : EStateM.Result Halt State (Option Module)}
    (h : m.Hears name forceReload s answer)
    : (Engine.stateAfter (fun _ => answer) s).world.modules = s.world.modules := by
  rcases h with ⟨_, ask, himporter, hask⟩
  have hmodules := haloof ask himporter name (s.stamp name) (s.asking name)
  rw [State.asking_modules] at hmodules
  unfold Engine.stateAfter at hmodules ⊢
  rw [hask] at hmodules
  exact hmodules

theorem importModule_lawful (s : State) : m.ImportLaws name forceReload s := by
  constructor
  case kept =>
    intro kept hkept hstays m'
    exact importModule_kept hkept hstays
  case told =>
    intro m' hload
    cases hasks : s.asks name forceReload with
    | false =>
      rcases State.asks_eq_false_iff.mp hasks with ⟨kept, hkept, hstays⟩
      rw [importModule_kept hkept hstays, importModule_kept hkept hstays]
    | true => rw [importModule_asking m' hasks, importModule_asking m hasks, hload]
  case unasked =>
    intro hasks hnone
    exact ⟨s.asking name, importModule_halted hasks (loadModule_none hnone _ _), State.asking_modules s name⟩
  case missing =>
    intro t h
    rcases h with ⟨hasks, ask, himporter, hask⟩
    exact ⟨importModule_halted hasks (loadModule_missing himporter hask),
      Hears.modules haloof ⟨hasks, ask, himporter, hask⟩⟩
  case failed =>
    intro halt t h
    rcases h with ⟨hasks, ask, himporter, hask⟩
    exact ⟨importModule_halted hasks (loadModule_failed himporter hask),
      Hears.modules haloof ⟨hasks, ask, himporter, hask⟩⟩
  case unchanged =>
    intro kept loaded t hkept h hmodified
    rcases h with ⟨hasks, ask, himporter, hask⟩
    rw [importModule_loaded hasks (loadModule_found himporter hask), choose_kept hkept hmodified]
    exact ⟨rfl, Hears.modules haloof ⟨hasks, ask, himporter, hask⟩⟩
  case undefined =>
    intro loaded t h hnews hundefined
    rcases h with ⟨hasks, ask, himporter, hask⟩
    rw [importModule_loaded hasks (loadModule_found himporter hask), choose_news hnews, if_pos hundefined]
    exact ⟨rfl, Hears.modules haloof ⟨hasks, ask, himporter, hask⟩⟩
  case stored =>
    intro loaded t h hnews hdefined
    have hmodules : t.world.modules = s.world.modules := Hears.modules haloof h
    rcases h with ⟨hasks, ask, himporter, hask⟩
    rw [importModule_loaded hasks (loadModule_found himporter hask), choose_news hnews, hdefined, hmodules]
    rfl
  case others =>
    intro other hother
    rw [importModule_modules haloof]
    split
    . rfl
    . rw [Table.get?_put, if_neg hother]

end Aloof

end Machine

namespace ModuleCall

variable {call : ModuleCall} {s : State}

theorem stateAfter_map {α β : Type} (f : α → β) (x : Run α) (s : State)
    : Engine.stateAfter (f <$> x) s = Engine.stateAfter x s := by
  have hmap : (f <$> x) s = (x >>= fun a => pure (f a)) s := by rw [bind_pure_comp]
  unfold Engine.stateAfter
  rw [hmap, Run.bind_apply]
  cases x s with
  | ok a t => rfl
  | error halt t => rfl

theorem forgetModule_apply (name : String) (s : State)
    : Run.forgetModule name s =
        .ok ((s.world.modules.get? name).map Module.value) (s.withModules (s.world.modules.erase name)) :=
  rfl

theorem lawful (h : call.IsAloof) (s : State) : call.Lawful s := by
  cases call with
  | load m name forceReload => exact Machine.importModule_lawful h s
  | forget name => exact forgetModule_apply name s

/-- What a call leaves under a name. -/
theorem run_get? (h : call.IsAloof) (s : State) (name : String)
    : (Engine.stateAfter call.run s).world.modules.get? name =
        (change? name (call, s)).getD (s.world.modules.get? name) := by
  cases call with
  | load m imported forceReload =>
    unfold run change?
    dsimp only
    rw [stateAfter_map, Machine.importModule_modules h]
    by_cases hname : imported = name
    . rw [if_pos hname, hname]
      cases m.stores? name forceReload s with
      | none => rfl
      | some loaded =>
        dsimp only
        rw [Table.get?_put, if_pos rfl]
        rfl
    . rw [if_neg hname]
      split
      . rfl
      . rw [Table.get?_put, if_neg (Ne.symm hname)]
        rfl
  | forget dropped =>
    unfold change?
    dsimp only
    show (s.world.modules.erase dropped).get? name = _
    rw [Table.get?_erase]
    by_cases hname : dropped = name
    . rw [if_pos hname, if_pos hname.symm]
      rfl
    . rw [if_neg hname, if_neg (Ne.symm hname)]
      rfl

end ModuleCall

namespace ModuleCalls

variable {first last : Table Module} {calls : List (ModuleCall × State)}

theorem lawful (h : ModuleCalls first calls last) : ∀ call s, (call, s) ∈ calls → call.Lawful s := by
  induction h with
  | done kept =>
    intro call s hmem
    cases hmem
  | @call start first calls last haloof _ ih =>
    intro call s hmem
    cases hmem with
    | head => exact ModuleCall.lawful haloof start
    | tail _ hmem => exact ih call s hmem

/-- What stands under a name at the end is what the last call that changed it made of it. -/
theorem get?_last (h : ModuleCalls first calls last) (name : String)
    : last.get? name = ((calls.filterMap (ModuleCall.change? name)).getLast?).getD (first.get? name) := by
  induction h with
  | done kept => rfl
  | @call s call calls last haloof _ ih =>
    rw [ih, ModuleCall.run_get? haloof, List.filterMap_cons]
    cases ModuleCall.change? name (call, s) with
    | none => rfl
    | some change =>
      dsimp only [Option.getD_some]
      rw [List.getLast?_cons]
      rfl

end ModuleCalls

/--
The modules that an engine keeps, over any calls that import or drop modules. Every import obeys the
laws in the state in which it is made, and every call that drops a module gives its value. At the end
every name stands for what the last call that stored or dropped its module made of it.
-/
theorem module_calls_keep_modules {first last : Table Module} {calls : List (ModuleCall × State)}
    (h : ModuleCalls first calls last)
    : (∀ call s, (call, s) ∈ calls → call.Lawful s) ∧
        ∀ name, last.get? name =
          ((calls.filterMap (ModuleCall.change? name)).getLast?).getD (first.get? name) :=
  ⟨h.lawful, h.get?_last⟩

/-- A machine whose host gives the same answer to everybody who asks for a module. -/
def Machine.answering (found : Option Module) : Machine :=
  { Machine.spent with importer := some fun _ _ => pure found }

theorem answering_isAloof (found : Option Module) (name : String) (forceReload : Bool)
    : (ModuleCall.load (.answering found) name forceReload).IsAloof := by
  intro ask h
  injection h with h
  rw [← h]
  intro name modified s
  rfl

/--
A module is stored, stays since its timestamp does, and is stored again. One that is `undefined` and one
that is missing change nothing. It is dropped, and a module that cannot change takes its place.
-/
theorem reloaded_modules_are_kept
    : let bare := Engine.bareState {} .silent 0
      let kept (value modified : Int64) := (Table.empty.put "a" ⟨.int value, modified⟩ : Table Module)
      let load (found : Option Module) (forceReload : Bool) := ModuleCall.load (.answering found) "a" forceReload
      let calls :=
        [(load (some ⟨.int 5, 1⟩) false, bare), (load (some ⟨.int 6, 1⟩) true, bare.withModules (kept 5 1)),
          (load (some ⟨.int 7, 2⟩) true, bare.withModules (kept 5 1)),
          (load (some ⟨.undefined, 3⟩) true, bare.withModules (kept 7 2)),
          (load none true, bare.withModules (kept 7 2)),
          (ModuleCall.forget "a", bare.withModules (kept 7 2)), (load (some ⟨.int 8, 0⟩) true, bare),
          (load (some ⟨.int 9, 1⟩) true, bare.withModules (kept 8 0))]
      ∃ last, ModuleCalls .empty calls last ∧ (∀ call s, (call, s) ∈ calls → call.Lawful s) ∧
        last.get? "a" = some ⟨.int 8, 0⟩ := by
  intro bare kept load calls
  have hcalls : ModuleCalls .empty calls (kept 8 0) := by
    apply ModuleCalls.call (s := bare) (answering_isAloof _ _ _)
    apply ModuleCalls.call (s := bare.withModules (kept 5 1)) (answering_isAloof _ _ _)
    apply ModuleCalls.call (s := bare.withModules (kept 5 1)) (answering_isAloof _ _ _)
    apply ModuleCalls.call (s := bare.withModules (kept 7 2)) (answering_isAloof _ _ _)
    apply ModuleCalls.call (s := bare.withModules (kept 7 2)) (answering_isAloof _ _ _)
    refine @ModuleCalls.call (bare.withModules (kept 7 2)) (.forget "a") _ _ trivial ?_
    apply ModuleCalls.call (s := bare) (answering_isAloof _ _ _)
    apply ModuleCalls.call (s := bare.withModules (kept 8 0)) (answering_isAloof _ _ _)
    exact ModuleCalls.done _
  rcases module_calls_keep_modules hcalls with ⟨hlawful, hlast⟩
  refine ⟨kept 8 0, hcalls, hlawful, ?_⟩
  rw [hlast "a"]
  rfl

end ScriptEngine
