import Mathlib.Logic.Function.Basic
import ScriptEngine.Proofs.Conduct
import ScriptEngine.Proofs.Signals

/-!
This module contains which value the imports of a module give. An import looks for the module, asks
the host if it is not kept, and keeps what the host loaded. The steps of several threads interleave,
and the host may import a module while it loads it, so that the module is loaded more than once. All
imports give the same value if no load begins during another one. Otherwise they do so from the end of
the last load on.
-/

namespace ScriptEngine

/-- An engine whose threads load a module: how many loads each of them has begun and not ended. -/
structure Loading where
  state : State
  loads : Nat → Nat

/-- The module is not being loaded. -/
def Loading.Idle (c : Loading) : Prop := ∀ thread, c.loads thread = 0

/-- No more than one load is in progress. -/
def Loading.Single (c : Loading) : Prop :=
  ∃ thread, c.loads thread ≤ 1 ∧ ∀ other, other ≠ thread → c.loads other = 0

/--
A step of a thread, and the value that is given if it ends an import. If `alone` is set then no load
begins during another one.
-/
inductive ImportStep (name : String) (alone : Bool) : Loading → Option Value → Loading → Prop where
  /-- The module is kept. -/
  | found {c : Loading} {kept : Module} (h : c.state.world.modules.get? name = some kept)
      : ImportStep name alone c (some kept.value) c
  /-- The module is not kept, and the host is asked for it. -/
  | asked {c : Loading} (thread : Nat) (h : c.state.world.modules.get? name = none)
      (halone : alone = true → c.Idle)
      : ImportStep name alone c none { c with loads := Function.update c.loads thread (c.loads thread + 1) }
  /-- What the host loaded is kept, whatever was kept meanwhile. -/
  | gave {c : Loading} {t : State} {value : Value} (thread : Nat) {rest : Nat} (loaded : Module)
      (hloads : c.loads thread = rest + 1) (h : Machine.keepModule name loaded c.state = .ok value t)
      : ImportStep name alone c (some value) ⟨t, Function.update c.loads thread rest⟩
  | failed {c : Loading} (thread : Nat) {rest : Nat} (hloads : c.loads thread = rest + 1)
      : ImportStep name alone c none { c with loads := Function.update c.loads thread rest }
  /-- Something that is not about this module. -/
  | other {c : Loading} {t : State} (h : t.world.modules.get? name = c.state.world.modules.get? name)
      : ImportStep name alone c none { c with state := t }

/-- Steps of any threads in any order, and the values that the imports among them give. -/
inductive ImportRun (name : String) (alone : Bool) : Loading → List Value → Loading → Prop where
  | done (c : Loading) : ImportRun name alone c [] c
  | step {c d e : Loading} {given : Option Value} {values : List Value} (h : ImportStep name alone c given d)
      (hrest : ImportRun name alone d values e)
      : ImportRun name alone c (given.toList ++ values) e

theorem Machine.keepModule_cases {name : String} {loaded : Module} {value : Value} {s t : State}
    (h : keepModule name loaded s = .ok value t)
    : value = loaded.value ∧
        (value.isUndefined = true ∧ t = s ∨
          value.isUndefined = false ∧ t.world.modules.get? name = some loaded) := by
  rw [keepModule_apply] at h
  injection h with hvalue ht
  rw [← hvalue, ← ht]
  refine ⟨rfl, ?_⟩
  cases hundefined : loaded.value.isUndefined with
  | true => exact .inl ⟨rfl, rfl⟩
  | false =>
    right
    refine ⟨rfl, ?_⟩
    show (s.world.modules.put name loaded).get? name = some loaded
    rw [Table.get?_put, if_pos rfl]

section Steps

variable {name : String} {alone : Bool} {c d e : Loading} {given : Option Value} {values values' : List Value}
  {kept : Module}

theorem ImportRun.trans (h : ImportRun name alone c values d) (h' : ImportRun name alone d values' e)
    : ImportRun name alone c (values ++ values') e := by
  induction h with
  | done c => exact h'
  | step h _ ih =>
    rw [List.append_assoc]
    exact .step h (ih h')

theorem ImportStep.run (h : ImportStep name alone c given d) : ImportRun name alone c given.toList d := by
  rw [← List.append_nil given.toList]
  exact .step h (.done d)

theorem ImportStep.keeps (h : ImportStep name alone c given d) (hidle : c.Idle)
    (hkept : c.state.world.modules.get? name = some kept)
    : (∀ value, given = some value → value = kept.value) ∧ d.Idle ∧
        d.state.world.modules.get? name = some kept := by
  cases h with
  | found h =>
    rw [hkept] at h
    injection h with h
    refine ⟨?_, hidle, hkept⟩
    intro value hvalue
    injection hvalue with hvalue
    rw [← hvalue, h]
  | asked thread h =>
    rw [hkept] at h
    cases h
  | gave thread loaded hloads =>
    rw [hidle thread] at hloads
    cases hloads
  | failed thread hloads =>
    rw [hidle thread] at hloads
    cases hloads
  | other h => exact ⟨nofun, hidle, h.trans hkept⟩

theorem ImportRun.keeps (h : ImportRun name alone c values d) (hidle : c.Idle)
    (hkept : c.state.world.modules.get? name = some kept)
    : (∀ value ∈ values, value = kept.value) ∧ d.Idle ∧ d.state.world.modules.get? name = some kept := by
  induction h with
  | done c => exact ⟨nofun, hidle, hkept⟩
  | step h _ ih =>
    rcases h.keeps hidle hkept with ⟨hgiven, hidle, hkept⟩
    rcases ih hidle hkept with ⟨hvalues, hend⟩
    refine ⟨?_, hend⟩
    intro value hvalue
    rcases List.mem_append.mp hvalue with hvalue | hvalue
    . exact hgiven value (Option.mem_toList.mp hvalue)
    . exact hvalues value hvalue

theorem Loading.Idle.single (h : c.Idle) : c.Single :=
  ⟨0, by rw [h 0]; exact Nat.zero_le 1, fun other _ => h other⟩

theorem Loading.Idle.begun (h : c.Idle) (thread : Nat)
    : Loading.Single { c with loads := Function.update c.loads thread (c.loads thread + 1) } := by
  refine ⟨thread, ?_, ?_⟩
  . have hone : Function.update c.loads thread (c.loads thread + 1) thread = 1 := by
      rw [Function.update_self, h thread]
    exact Nat.le_of_eq hone
  . intro other hother
    dsimp only
    rw [Function.update_of_ne hother]
    exact h other

theorem Loading.Single.ended {thread rest : Nat} (h : c.Single) (hloads : c.loads thread = rest + 1) (t : State)
    : Loading.Idle ⟨t, Function.update c.loads thread rest⟩ := by
  rcases h with ⟨only, hone, hnone⟩
  -- The load that ends is the only one.
  have honly : thread = only := by
    by_contra hne
    rw [hnone thread hne] at hloads
    cases hloads
  intro other
  dsimp only
  by_cases hother : other = thread
  . rw [hother, Function.update_self]
    rw [← honly, hloads] at hone
    omega
  . rw [Function.update_of_ne hother]
    rw [honly] at hother
    exact hnone other hother

theorem ImportRun.shared (h : ImportRun name true c values d) (hsingle : c.Single)
    (hnone : c.state.world.modules.get? name = none)
    : ∃ shared, ∀ value ∈ values, value.isUndefined = false → value = shared := by
  induction h with
  | done c => exact ⟨.undefined, nofun⟩
  | step h hrest ih =>
    cases h with
    | found h =>
      rw [hnone] at h
      cases h
    | asked thread _ halone => exact ih ((halone rfl).begun thread) hnone
    | gave thread loaded hloads h =>
      have hidle := hsingle.ended hloads
      -- Nothing is kept of `undefined`, and any other value is kept for all imports that follow.
      rcases Machine.keepModule_cases h with ⟨hvalue, ⟨hundefined, ht⟩ | ⟨_, hkept⟩⟩
      . rw [ht] at ih
        rcases ih (hidle _).single hnone with ⟨shared, hshared⟩
        refine ⟨shared, ?_⟩
        intro value hmem hdefined
        rcases List.mem_cons.mp hmem with heq | hmem
        . rw [heq, hundefined] at hdefined
          cases hdefined
        . exact hshared value hmem hdefined
      . rcases hrest.keeps (hidle _) hkept with ⟨hvalues, _⟩
        refine ⟨loaded.value, ?_⟩
        intro value hmem _
        rcases List.mem_cons.mp hmem with heq | hmem
        . rw [heq, hvalue]
        . exact hvalues value hmem
    | failed thread hloads => exact ih (hsingle.ended hloads _).single hnone
    | other h => exact ih hsingle (h.trans hnone)

end Steps

/-- What happens to a module from one state to another is what import steps do, whatever else loads it. -/
def State.Imports (name : String) (s t : State) : Prop :=
  ∀ loads, ∃ given, ImportRun name false ⟨s, loads⟩ given ⟨t, loads⟩

namespace State.Imports

variable {name : String} {s t u : State}

theorem of_get? (h : t.world.modules.get? name = s.world.modules.get? name) : s.Imports name t := by
  intro loads
  exact ⟨[], (ImportStep.other (c := ⟨s, loads⟩) h).run⟩

theorem of_modules (h : t.world.modules = s.world.modules) : s.Imports name t :=
  of_get? (congrArg (·.get? name) h)

theorem trans (h : s.Imports name t) (h' : t.Imports name u) : s.Imports name u := by
  intro loads
  rcases h loads with ⟨given, hrun⟩
  rcases h' loads with ⟨given', hrun'⟩
  exact ⟨given ++ given', hrun.trans hrun'⟩

theorem loaded {loaded : Module} {value : Value} (hnone : s.world.modules.get? name = none)
    (h : s.Imports name t) (hkeep : Machine.keepModule name loaded t = .ok value u) (loads : Nat → Nat)
    : ∃ given, ImportRun name false ⟨s, loads⟩ (given ++ [value]) ⟨u, loads⟩ := by
  let begun := Function.update loads 0 (loads 0 + 1)
  have hasked : ImportStep name false ⟨s, loads⟩ none ⟨s, begun⟩ := .asked 0 hnone nofun
  rcases h begun with ⟨given, hload⟩
  have hloads : begun 0 = loads 0 + 1 := Function.update_self ..
  have hgave : ImportStep name false ⟨t, begun⟩ (some value) ⟨u, Function.update begun 0 (loads 0)⟩ :=
    .gave 0 loaded hloads hkeep
  have hended : Function.update begun 0 (loads 0) = loads := by
    rw [Function.update_idem, Function.update_eq_self]
  rw [hended] at hgave
  exact ⟨given, .step hasked (hload.trans hgave.run)⟩

end State.Imports

theorem imports_conduct (name : String) : Conduct fun _ s _ t => State.Imports name s t where
  calm h := .of_modules h.modules
  calmed h h' := h.trans (.of_modules h'.modules)
  trans h h' := h.trans h'
  later h h' := h.trans h'
  handled h := h
  ofCall h := h
  ofExpr _ h := h
  raise _ := .of_modules rfl
  located h := h
  force _ _ _ := .of_modules rfl
  assign _ := .of_modules rfl
  frame {_ s _ _ heap kind scope} _ h _ :=
    .trans (t := State.enter { s with heap := heap } kind scope) (.of_modules rfl) (h.trans (.of_modules rfl))
  broken {_ s _ heap kind scope} _ h :=
    .trans (t := State.enter { s with heap := heap } kind scope) (.of_modules rfl) h
  fork {_ s _ _ context heap held} _ h :=
    .trans (t := { s with heap := heap, context := context, held := held }) (.of_modules rfl)
      (h.trans (.of_modules rfl))
  alone h := h

/-- The functions and the importer of a host change a module only by importing it. -/
def Host.OnlyImports (name : String) (host : Host) : Prop := host.Conducts fun _ s _ t => State.Imports name s t

/-- The host that gives up when it is asked to load a module again. -/
def Host.loadingOnce (host : Host) : Host :=
  { host with
    importer := host.importer.map fun load => fun m name modified =>
      if modified = 0 then load m name modified else Run.exhausted }

section LoadingOnce

variable {name : String} {host : Host} {m m' : Machine}

theorem loadingOnce_conducts {R : Level → State → Outcome → State → Prop} (hhost : host.Conducts R)
    : host.loadingOnce.Conducts R where
  native := hhost.native
  importer hm load h name modified := by
    rcases Option.map_eq_some_iff.mp h with ⟨asked, hasked, hload⟩
    rw [← hload]
    dsimp only
    split
    . exact hhost.importer hm hasked name modified
    . exact Run.exhausted_obeys

theorem loadingOnce_loadModule {fuel : Nat} {module : String} {modified : Int64} {loaded : Module} {s t : State}
    (h : (host.loadingOnce.above fuel m).loadModule module modified s = .ok loaded t)
    : modified = 0 := by
  by_contra hmodified
  unfold Machine.loadModule Host.above Host.loadingOnce at h
  cases himporter : host.importer with
  | none =>
    simp only [himporter] at h
    cases h
  | some load =>
    simp only [himporter, Option.map_some, if_neg hmodified] at h
    cases h

theorem loadingOnce_importModule (hhost : host.OnlyImports name) (fuel : Nat)
    (hm : m.Conducts fun _ s _ t => s.Imports name t) (module : String) (forceReload : Bool)
    : ((host.loadingOnce.above fuel m).importModule module forceReload).Obeys fun s _ t => s.Imports name t := by
  have hload := loadModule_obeys (imports_conduct name) (loadingOnce_conducts hhost) fuel hm module
  intro s o t h
  rcases Run.gives_importModule h with ⟨_, _, ht⟩ | ⟨hnone, h⟩ | ⟨kept, hmodified, held, h⟩
  . rw [ht]
    exact .of_modules rfl
  . rcases Run.gives_bind h with ⟨h, _⟩ | ⟨loaded, u, hu, h⟩
    . exact hload 0 s o t h
    . have hloaded : s.Imports name u := hload 0 s .ok u (.ok hu)
      have hkeep := Machine.keepModule_apply module loaded u
      rcases Run.gives_ok h hkeep with ⟨_, ht⟩
      rw [← ht] at hkeep
      by_cases hname : module = name
      . rw [hname] at hnone hkeep
        intro loads
        rcases hloaded.loaded hnone hkeep loads with ⟨given, hrun⟩
        exact ⟨_, hrun⟩
      . refine hloaded.trans (.of_get? ?_)
        rw [ht]
        split
        . rfl
        . exact (Table.get?_put ..).trans (if_neg (Ne.symm hname))
  -- A module that is kept is not loaded again.
  . rcases Run.gives_bind h with ⟨h, _⟩ | ⟨loaded, u, hu, _⟩
    . exact .trans (t := { s with held := held }) (.of_modules rfl) (hload kept.modified _ o t h)
    . exact absurd (loadingOnce_loadModule hu) hmodified

theorem loadingOnce_machine_conducts (hhost : host.OnlyImports name) (n : Nat)
    : (host.loadingOnce.machine n).Conducts fun _ s _ t => s.Imports name t :=
  machine_conducts (imports_conduct name) (loadingOnce_conducts hhost)
    (fun _ fuel hm => loadingOnce_importModule hhost fuel hm) n

theorem loadingOnce_machine_loads (hhost : host.OnlyImports name) (n : Nat) (module : String) (modified : Int64)
    : ((host.loadingOnce.machine n).loadModule module modified).Obeys fun s _ t => s.Imports name t := by
  cases n with
  | zero =>
    intro s o t h
    exact absurd h (Run.not_gives_exhausted rfl)
  | succ n =>
    have hm := loadingOnce_machine_conducts hhost n
    exact loadModule_obeys (imports_conduct name) (loadingOnce_conducts hhost) n hm module modified

theorem loadingOnce_loadModule_follows (hhost : host.GivesUp) (hm : m.Follows False True m') (fuel : Nat)
    (name : String) (modified : Int64)
    : Run.Follows False True 0 ((host.above fuel m).loadModule name modified)
        ((host.loadingOnce.above fuel m').loadModule name modified) := by
  unfold Machine.loadModule Host.above Host.loadingOnce
  cases himporter : host.importer with
  | none => exact Run.raiseError_follows _
  | some load =>
    dsimp only [Option.map_some]
    split
    . exact (hhost.importer hm himporter name modified).bind (Run.found_follows name)
    . intro s _
      exact .inr ⟨trivial, s, rfl⟩

theorem loadingOnce_follows (hhost : host.GivesUp) (n : Nat)
    : (host.machine n).Follows False True (host.loadingOnce.machine n) := by
  induction n with
  | zero => exact spent_follows
  | succ n ih => exact { above_follows hhost ih n with loadModule := loadingOnce_loadModule_follows hhost ih n }

end LoadingOnce

section Imports

variable {name : String} {m : Machine} {value : Value} {s t : State}

theorem importModule_ok (h : m.importModule name false s = .ok value t)
    : (∃ kept, s.world.modules.get? name = some kept ∧ kept.value = value ∧ t = s) ∨
        (s.world.modules.get? name = none ∧ ∃ loaded u, m.loadModule name 0 s = .ok loaded u ∧
          Machine.keepModule name loaded u = .ok value t) := by
  cases hkept : s.world.modules.get? name with
  | some kept =>
    rw [Machine.importModule_kept hkept (.inl rfl)] at h
    injection h with hvalue ht
    exact .inl ⟨kept, rfl, hvalue, ht.symm⟩
  | none =>
    rw [Machine.importModule_none hkept] at h
    cases hu : m.loadModule name 0 s with
    | ok loaded u => exact .inr ⟨rfl, loaded, u, rfl, (Run.bind_ok hu).symm.trans h⟩
    | error halt u =>
      rw [Run.bind_error hu] at h
      cases h

theorem importModule_gives (hload : (m.loadModule name 0).Obeys fun s _ t => s.Imports name t)
    (h : m.importModule name false s = .ok value t) (loads : Nat → Nat)
    : ∃ given, ImportRun name false ⟨s, loads⟩ (given ++ [value]) ⟨t, loads⟩ := by
  rcases importModule_ok h with ⟨kept, hkept, hvalue, ht⟩ | ⟨hnone, loaded, u, hu, hkeep⟩
  . rw [← hvalue, ht]
    exact ⟨[], (ImportStep.found hkept).run⟩
  . exact (hload s .ok u (.ok hu)).loaded hnone hkeep loads

theorem importModule_keeps (h : m.importModule name false s = .ok value t) (hdefined : value.isUndefined = false)
    : ∃ kept, t.world.modules.get? name = some kept ∧ kept.value = value := by
  rcases importModule_ok h with ⟨kept, hkept, hvalue, ht⟩ | ⟨_, loaded, u, _, hkeep⟩
  . rw [ht]
    exact ⟨kept, hkept, hvalue⟩
  . rcases Machine.keepModule_cases hkeep with ⟨hvalue, ⟨hundefined, _⟩ | ⟨_, hloaded⟩⟩
    . rw [hundefined] at hdefined
      cases hdefined
    . exact ⟨loaded, hloaded, hvalue.symm⟩

end Imports

/--
What `x` does to a module is what import steps do, unless `x'` gives up because a module is to be loaded
again.
-/
def TakesImportSteps {α : Type} (name : String) (x x' : Run α) (s : State) : Prop :=
  ∀ t, x.Ends s t → s.Imports name t ∨ ∃ u, x' s = .error .exhausted u

theorem takesImportSteps {α : Type} {name : String} {x x' : Run α} {s : State}
    (hx : Run.Follows False True 0 x x') (hx' : x'.Obeys fun s _ t => s.Imports name t)
    : TakesImportSteps name x x' s := by
  intro t h
  rcases hx s nofun with ⟨heq, _⟩ | ⟨_, hgave⟩
  . left
    rcases (h.congr heq.symm).gives with ⟨o, h⟩
    exact hx' s o t h
  . exact .inr hgave

/--
The imports of a module. Whatever is evaluated changes the module by import steps only. After an import
that gave a value, and whatever such steps follow, imports give that value. Of any threads that import
a module which is kept and not being loaded, all get the value that is kept; and if no load of the
module begins during another one then all get the same value.
-/
theorem imports_share_instance (host : Host) (name : String) (himports : host.OnlyImports name)
    (hgives : host.GivesUp) (n : Nat) (s : State)
    : let m := host.machine n
      let once := host.loadingOnce.machine n
      (∀ stmt, TakesImportSteps name (m.exec stmt) (once.exec stmt) s) ∧
      (∀ callee this args,
        TakesImportSteps name (m.invoke callee this args) (once.invoke callee this args) s) ∧
      (∀ stmts, TakesImportSteps name (m.evalBlock stmts) (once.evalBlock stmts) s) ∧
      (∀ stmts, TakesImportSteps name (m.runModule stmts) (once.runModule stmts) s) ∧
      (∀ value t, m.importModule name false s = .ok value t →
        (∀ loads, ∃ given, ImportRun name false ⟨s, loads⟩ (given ++ [value]) ⟨t, loads⟩) ∨
          ∃ u, once.importModule name false s = .error .exhausted u) ∧
      (∀ value t u, m.importModule name false s = .ok value t → value.isUndefined = false → t.Imports name u →
        ∀ k, (host.machine k).importModule name false u = .ok value u) ∧
      (∀ c given d kept, ImportRun name false c given d → c.Idle →
        c.state.world.modules.get? name = some kept → ∀ value ∈ given, value = kept.value) ∧
      (∀ c given d, ImportRun name true c given d → c.Idle →
        ∀ value ∈ given, ∀ value' ∈ given, value.isUndefined = false → value'.isUndefined = false →
          value = value') := by
  intro m once
  have hR := imports_conduct name
  have hm : once.Conducts fun _ s _ t => s.Imports name t := loadingOnce_machine_conducts himports n
  have hfollows : m.Follows False True once := loadingOnce_follows hgives n
  refine ⟨?_, ?_, ?_, ?_, ?_, ?_, ?_, ?_⟩
  . intro stmt
    exact takesImportSteps (hfollows.exec stmt) (hm.exec stmt)
  . intro callee this args
    exact takesImportSteps (hfollows.invoke callee this args) (hm.invoke callee this args)
  . intro stmts
    exact takesImportSteps (evalBlock_follows hfollows stmts) (evalBlock_obeys hR hm stmts)
  . intro stmts
    exact takesImportSteps (runModule_follows hfollows stmts) (runModule_obeys hR hm stmts)
  . intro value t h
    rcases importModule_follows hfollows name false s nofun with ⟨heq, _⟩ | ⟨_, hgave⟩
    . exact .inl (importModule_gives (loadingOnce_machine_loads himports n name 0) (heq.trans h))
    . exact .inr hgave
  . intro value t u h hdefined hlater k
    rcases importModule_keeps h hdefined with ⟨kept, hkept, hvalue⟩
    rcases hlater fun _ => 0 with ⟨given, hrun⟩
    rw [← hvalue]
    exact Machine.importModule_kept (hrun.keeps (fun _ => rfl) hkept).2.2 (.inl rfl)
  . intro c given d kept hrun hidle hkept
    exact (hrun.keeps hidle hkept).1
  . intro c given d hrun hidle value hvalue value' hvalue' hdefined hdefined'
    cases hkept : c.state.world.modules.get? name with
    | some kept =>
      have hgiven := (hrun.keeps hidle hkept).1
      rw [hgiven value hvalue, hgiven value' hvalue']
    | none =>
      rcases hrun.shared hidle.single hkept with ⟨shared, hshared⟩
      rw [hshared value hvalue hdefined, hshared value' hvalue' hdefined']

/-- The value that a computation gives, if that is not `undefined`. -/
def Run.defined? (x : Run Value) (s : State) : Option Value :=
  match x s with
  | .ok value _ => if value.isUndefined then none else some value
  | .error _ _ => none

theorem Run.ok_of_defined {x : Run Value} {s : State} (h : (x.defined? s).isSome)
    : ∃ value, x s = .ok value (Engine.stateAfter x s) ∧ value.isUndefined = false := by
  unfold defined? at h
  unfold Engine.stateAfter
  split at h
  . next value t hx =>
    rw [hx]
    cases hundefined : value.isUndefined with
    | true => simp [hundefined] at h
    | false => exact ⟨value, rfl, hundefined⟩
  . cases h

/-- A module that is imported by the host, by a script, and by the host again. -/
theorem scripted_imports_share_instance
    : let host := Host.scripted fun _ => some []
      let m := host.machine 9
      let s := Engine.bareState {} .silent 0
      host.OnlyImports "a" ∧ host.GivesUp ∧
        ∃ value t u, m.importModule "a" false s = .ok value t ∧ value.isUndefined = false ∧
          (m.evalBlock [Stmt.expr (.load "a")]).Ends t u ∧ m.importModule "a" false u = .ok value u := by
  intro host m s
  have himports : host.OnlyImports "a" := scripted_conducts (imports_conduct "a")
  have hgives : host.GivesUp := scripted_follows
  let once := host.loadingOnce.machine 9
  let t := Engine.stateAfter (m.importModule "a" false) s
  let stmts := [Stmt.expr (.load "a")]
  have hfirst : ((m.importModule "a" false).defined? s).isSome := by decide +kernel
  have hagain : ((m.evalBlock stmts).defined? t).isSome := by decide +kernel
  have honce : ((once.evalBlock stmts).defined? t).isSome := by decide +kernel
  rcases Run.ok_of_defined hfirst with ⟨value, hvalue, hdefined⟩
  rcases Run.ok_of_defined hagain with ⟨_, hu, _⟩
  rcases Run.ok_of_defined honce with ⟨_, honce, _⟩
  refine ⟨himports, hgives, value, t, _, hvalue, hdefined, .ok hu, ?_⟩
  rcases (imports_share_instance host "a" himports hgives 9 t).2.2.1 stmts _ (.ok hu) with hsteps | ⟨_, hgave⟩
  . exact (imports_share_instance host "a" himports hgives 9 s).2.2.2.2.2.1 value t _ hvalue hdefined hsteps 9
  . rw [hgave] at honce
    cases honce

-- The exception: the host imports the module while it loads it, and both get a value of their own.
example :
    let body := [Stmt.assign (.ident "first") (.bool false), Stmt.assign (.ident "inner") (.load "a")]
    let host := Host.scripted fun _ => some [Stmt.ofKind (.whileDo none (.ident "first") body)]
    let s := Engine.stateAfter (do Run.setGlobal "first" (.bool true); Run.setGlobal "inner" .nil)
      (Engine.bareState {} .silent 0)
    (match (host.machine 20).importModule "a" false s with
      | .ok (.object outer) t =>
        match t.heap.scopes.lookup? t.world.globals "inner" with
        | some (.object inner) => some (outer == inner)
        | _ => none
      | _ => none) = some false := by
  decide +kernel

end ScriptEngine
