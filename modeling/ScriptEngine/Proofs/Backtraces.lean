import ScriptEngine.Proofs.Contexts

/-!
This module contains what backtraces tell about the frames. In every run there is one module at the bottom of the
frames, and blocks and functions are above it. A backtrace has one entry for each function, the innermost one first, and
a last one for the module. The position of an entry is the one that was reached in the blocks of that function.
-/

namespace ScriptEngine

namespace FrameKind

/-- The kinds of the frames of a context: one module at the bottom, and blocks and functions above it. -/
def OnModule (kinds : List FrameKind) : Prop := ∃ above, kinds = above ++ [root] ∧ root ∉ above

def functionName? : FrameKind → Option String
  | function name => some name
  | root | block => none

/-- The name under which the frame of a function or a module is listed. -/
def entryName? : FrameKind → Option String
  | function name => some name
  | root => some "<module>"
  | block => none

theorem onModule_iff {kinds : List FrameKind}
    : OnModule kinds ↔ kinds.getLast? = some root ∧ root ∉ kinds.dropLast := by
  unfold OnModule
  constructor
  . intro h
    rcases h with ⟨above, rfl, habove⟩
    rw [List.getLast?_concat, List.dropLast_concat]
    exact ⟨rfl, habove⟩
  . intro h
    rcases List.getLast?_eq_some_iff.mp h.1 with ⟨above, rfl⟩
    rw [List.dropLast_concat] at h
    exact ⟨above, rfl, h.2⟩

instance : DecidablePred OnModule := fun _ => decidable_of_iff _ onModule_iff.symm

theorem OnModule.cons {kinds : List FrameKind} (h : OnModule kinds) {kind : FrameKind} (hkind : kind ≠ root)
    : OnModule (kind :: kinds) := by
  rcases h with ⟨above, rfl, habove⟩
  exact ⟨kind :: above, rfl, List.not_mem_cons_of_ne_of_not_mem hkind.symm habove⟩

theorem OnModule.entryNames {kinds : List FrameKind} (h : OnModule kinds)
    : kinds.filterMap entryName? = kinds.filterMap functionName? ++ ["<module>"] := by
  rcases h with ⟨above, rfl, habove⟩
  have hnames : above.filterMap entryName? = above.filterMap functionName? := by
    apply List.filterMap_congr
    intro kind hkind
    cases kind with
    | root => exact absurd hkind habove
    | block | function => rfl
  have hfunctions : [root].filterMap functionName? = [] := rfl
  rw [List.filterMap_append, List.filterMap_append, hnames, hfunctions, List.append_nil]
  rfl

/-- Only the last frame is that of the module. -/
theorem OnModule.not_mem_take {kinds : List FrameKind} (h : OnModule kinds) {last : Nat} (hlast : last < kinds.length)
    : root ∉ kinds.take last := by
  rcases h with ⟨above, rfl, habove⟩
  rw [List.length_append, List.length_singleton] at hlast
  rw [List.take_append_of_le_length (Nat.le_of_lt_succ hlast)]
  exact fun hmem => habove (List.mem_of_mem_take hmem)

end FrameKind

namespace Stack

/-- How many functions are active inside of a frame, whose place is counted from the current frame. -/
def functionsInside (frames : List Frame) (last : Nat) : Nat := (frames.take last).countP fun f => f.kind.isFunction

/--
The frames from `first` out to `last` are those of one activation, if the last one is that of its function or module.
The activation ends where there is no further frame or where the next function inside has its frame.
-/
structure Activates (frames : List Frame) (first last : Nat) : Prop where
  le : first ≤ last
  same {i : Nat} {f : Frame} (hfirst : first ≤ i) (hlast : i < last) (hf : frames[i]? = some f)
    : f.kind.isFunction = false
  next {i : Nat} {f : Frame} (hi : first = i + 1) (hf : frames[i]? = some f) : f.kind.isFunction = true

/-- What a backtrace tells about the frames. -/
structure Mirrors (frames : List Frame) (entries : List Activation) : Prop where
  /-- The functions are listed, the innermost one first, and then the module. -/
  names : entries.map Activation.function = (frames.map Frame.kind).filterMap FrameKind.functionName? ++ ["<module>"]
  /-- The position of an entry is that of the innermost frame of the activation. -/
  positions {last : Nat} {frame : Frame} {name : String} (hframe : frames[last]? = some frame)
      (hname : frame.kind.entryName? = some name)
    : ∃ first top, Activates frames first last ∧ frames[first]? = some top ∧
        entries[functionsInside frames last]? = some ⟨name, top.position⟩

section Entries

variable {frames : List Frame} {f frame : Frame} {first last : Nat} {name : String}

theorem Activates.current (frames : List Frame) : Activates frames 0 0 where
  le := Nat.le_refl 0
  same _ hlast := absurd hlast (Nat.not_lt_zero _)
  next hi := nomatch hi

/-- The activation of the current frame has one more frame inside, unless a function starts there. -/
theorem Activates.extend (h : Activates frames 0 last) (hf : f.kind.isFunction = false)
    : Activates (f :: frames) 0 (last + 1) where
  le := Nat.zero_le _
  same {i g} _ hlast hg := by
    cases i with
    | zero =>
      injection hg with hg
      rw [← hg]
      exact hf
    | succ i => exact h.same (Nat.zero_le i) (Nat.lt_of_succ_lt_succ hlast) hg
  next hi := nomatch hi

/-- The activations of other frames have no more frames. -/
theorem Activates.shift (h : Activates frames first last) (hf : first = 0 → f.kind.isFunction = true)
    : Activates (f :: frames) (first + 1) (last + 1) where
  le := Nat.succ_le_succ h.le
  same {i g} hfirst hlast hg := by
    cases i with
    | zero => exact absurd hfirst (Nat.not_succ_le_zero first)
    | succ i => exact h.same (Nat.le_of_succ_le_succ hfirst) (Nat.lt_of_succ_lt_succ hlast) hg
  next {i g} hi hg := by
    injection hi with hi
    cases i with
    | zero =>
      injection hg with hg
      rw [← hg]
      exact hf hi
    | succ i => exact h.next hi hg

theorem functionsInside_function (hf : f.kind.isFunction = true)
    : functionsInside (f :: frames) (last + 1) = functionsInside frames last + 1 :=
  List.countP_cons_of_pos hf

theorem functionsInside_other (hf : f.kind.isFunction = false)
    : functionsInside (f :: frames) (last + 1) = functionsInside frames last :=
  List.countP_cons_of_neg (Bool.eq_false_iff.mp hf)

/-- The first entry comes from the current frame if that is of a function or a module. -/
theorem backtrace_go_current (pending : Option Position) (hname : f.kind.entryName? = some name)
    : (backtrace.go pending (f :: frames))[0]? = some ⟨name, pending.getD f.position⟩ := by
  rw [backtrace.go]
  cases hkind : f.kind with
  | block =>
    rw [hkind] at hname
    cases hname
  | root | function =>
    rw [hkind] at hname
    injection hname with hname
    rw [← hname]
    rfl

/-- The entry of a frame. A position that is pending is taken if no other function is inside. -/
theorem backtrace_go_entry (pending : Option Position) (hframe : frames[last]? = some frame)
    (hname : frame.kind.entryName? = some name) (hroot : .root ∉ (frames.map Frame.kind).take last)
    : ∃ first top, Activates frames first last ∧ frames[first]? = some top ∧
        (backtrace.go pending frames)[functionsInside frames last]? =
          some ⟨name, if first = 0 then pending.getD top.position else top.position⟩ := by
  induction frames generalizing last pending with
  | nil => cases hframe
  | cons f frames ih =>
    cases last with
    | zero =>
      injection hframe with hframe
      rw [← hframe] at hname
      exact ⟨0, f, .current _, rfl, backtrace_go_current pending hname⟩
    | succ last =>
      rw [List.map_cons, List.take_succ_cons, List.mem_cons, not_or] at hroot
      cases hkind : f.kind with
      | root => exact absurd hkind.symm hroot.1
      | function inside =>
        have hf : f.kind.isFunction = true := by
          rw [hkind]
          rfl
        rcases ih none hframe hroot.2 with ⟨first, top, hactivates, htop, hentry⟩
        refine ⟨first + 1, top, hactivates.shift fun _ => hf, htop, ?_⟩
        rw [functionsInside_function hf, backtrace.go, hkind]
        show (backtrace.go none frames)[functionsInside frames last]? = _
        rw [hentry]
        cases first <;> rfl
      | block =>
        have hf : f.kind.isFunction = false := by
          rw [hkind]
          rfl
        rcases ih (some (pending.getD f.position)) hframe hroot.2 with ⟨first, top, hactivates, htop, hentry⟩
        rw [functionsInside_other hf, backtrace.go, hkind]
        dsimp only
        rw [hentry]
        cases first with
        | zero => exact ⟨0, f, hactivates.extend hf, rfl, rfl⟩
        | succ first => exact ⟨first + 2, top, hactivates.shift nofun, htop, rfl⟩

end Entries

theorem map_function_go (pending : Option Position) (frames : List Frame)
    : (backtrace.go pending frames).map Activation.function =
        (frames.map Frame.kind).filterMap FrameKind.entryName? := by
  fun_induction backtrace.go pending frames with
  | case1 => rfl
  | case2 pending frame frames pos name hkind ih | case3 pending frame frames pos hkind ih =>
    rw [List.map_cons, ih, List.map_cons, List.filterMap_cons, hkind]
    rfl
  | case4 pending frame frames pos hkind ih =>
    rw [ih, List.map_cons, List.filterMap_cons, hkind]
    rfl

/-- The backtrace of frames with a module at the bottom. -/
theorem mirrors_backtrace (s : Stack) (hs : FrameKind.OnModule (s.frames.map Frame.kind))
    : Mirrors s.frames s.backtrace where
  names := by
    unfold backtrace
    rw [map_function_go, hs.entryNames]
  positions {last frame name} hframe hname := by
    have hlast : last < (s.frames.map Frame.kind).length := by
      rw [List.length_map]
      exact (List.getElem?_eq_some_iff.mp hframe).1
    rcases backtrace_go_entry none hframe hname (hs.not_mem_take hlast) with ⟨first, top, hactivates, htop, hentry⟩
    refine ⟨first, top, hactivates, htop, hentry.trans ?_⟩
    cases first <;> rfl

end Stack

def Context.OnModule (c : Context) : Prop := FrameKind.OnModule (c.stack.frames.map Frame.kind)

/-- All contexts of a thread, the running one and those that wait, have a module at the bottom of their frames. -/
def State.OnModules (s : State) : Prop := ∀ c ∈ s.contexts, c.OnModule

instance : DecidablePred State.OnModules := fun s =>
  inferInstanceAs (Decidable (∀ c ∈ s.contexts, FrameKind.OnModule (c.stack.frames.map Frame.kind)))

section Runs

variable {s t : State}

theorem new_onModule (scope : ScopeRef) (position : Position) (exports : Handle)
    : (Context.new scope position exports).OnModule :=
  ⟨[], rfl, List.not_mem_nil⟩

theorem Context.OnModule.enter {c : Context} (hc : c.OnModule) (kind : FrameKind) (hkind : kind ≠ .root)
    (scope : ScopeRef)
    : (c.enter kind scope).OnModule :=
  FrameKind.OnModule.cons hc hkind

theorem State.OnModules.running (hs : s.OnModules) : s.context.OnModule := hs s.context (.head _)

theorem State.OnModules.withContext (hs : s.OnModules) {c : Context} (hc : c.OnModule)
    : (s.withContext c).OnModules := by
  unfold OnModules contexts at hs ⊢
  rw [List.forall_mem_cons] at hs ⊢
  exact ⟨hc, hs.2⟩

theorem State.SameCalls.onModules (h : s.SameCalls t) (hs : s.OnModules) : t.OnModules := by
  have hkinds : t.context.stack.frames.map Frame.kind = s.context.stack.frames.map Frame.kind := by
    have hmap (stack : Stack) : stack.frames.map Frame.kind = stack.outline.map Prod.fst := by
      unfold Stack.outline
      rw [List.map_map]
      rfl
    rw [hmap, hmap, h.outline]
  unfold OnModules contexts Context.OnModule at hs ⊢
  rw [List.forall_mem_cons] at hs ⊢
  rw [hkinds, h.waiting]
  exact hs

/-- The regime that knows the frames of all contexts. -/
def Regime.modules : Regime where
  Allows _ s := s.OnModules
  Keeps s t := s.SameCalls t
  ofSame h := h
  settings h := h.settings
  trans h h' := h.trans h'
  allows hs h := h.onModules hs
  mono hs := hs
  room hs _ := hs
  block scope hs := by
    apply hs.withContext
    exact hs.running.enter .block nofun scope
  deeper {s} hs := by
    have hrunning : s.context.OnModule := hs.running
    exact hs.withContext hrunning
  function {s} name scope hs := by
    have hrunning : (s.withDepth (s.context.depth + 1)).context.OnModule := hs.running
    apply hs.withContext
    exact hrunning.enter (.function name) nofun scope
  left h := h.left
  returned h := h.returned
  letGo h := h.letGo
  fork hs hforks := by
    rcases hforks with ⟨scope, position, exports, rfl, _⟩
    unfold State.OnModules
    rw [contexts_start, List.forall_mem_cons]
    exact ⟨new_onModule scope position exports, hs⟩
  back h := .back h

end Runs

/-- The functions and the importer of a host leave the frames to the machine. -/
def Host.KeepsModules (host : Host) : Prop := host.Heeds .modules True False

/-- What two machines do is related by `P`, whatever they are asked to evaluate or to run. -/
structure Machine.Related (P : ∀ {α : Type}, Run α → Run α → Prop) (m m' : Machine) : Prop where
  eval (e : Expr) : P (m.eval e) (m'.eval e)
  exec (stmt : Stmt) : P (m.exec stmt) (m'.exec stmt)
  invoke (callee this : Value) (args : List Value) : P (m.invoke callee this args) (m'.invoke callee this args)
  construct (type : TypeRef) (args : List Value) : P (m.construct type args) (m'.construct type args)
  importModule (name : String) (force : Bool) : P (m.importModule name force) (m'.importModule name force)
  evalBlock (stmts : List Stmt) : P (m.evalBlock stmts) (m'.evalBlock stmts)
  runModule (stmts : List Stmt) : P (m.runModule stmts) (m'.runModule stmts)

theorem Machine.Heeds.related {R : Regime} {m m' : Machine} {P : ∀ {α : Type}, Run α → Run α → Prop}
    (hm : m.Heeds R True False m') (hP : ∀ {α : Type} {x x' : Run α}, x.Heeds R True False 0 x' → P x x')
    : m.Related P m' where
  eval e := hP (hm.eval e)
  exec stmt := hP (hm.exec stmt)
  invoke callee this args := hP (hm.invoke callee this args)
  construct type args := hP (Parallel.heeds hm (l := .call) (.construct type args))
  importModule name force := hP (importModule_heeds hm name force)
  evalBlock stmts := hP (evalBlock_heeds hm stmts)
  runModule stmts := hP (runModule_heeds hm stmts)

/--
Backtraces and the frames. A context starts with the frame of a module. Whatever is evaluated from there on, in each
context there is one module at the bottom of the frames all along, and blocks and functions are above it. In whatever
order they are, the backtrace lists the functions, the innermost one first, and then the module, each with the position
of the innermost frame that belongs to it.
-/
theorem backtraces_mirror_frames (host : Host) (hhost : host.KeepsModules) (n : Nat)
    : (∀ s : State, s.waiting = [] → (∃ scope position exports, s.context = .new scope position exports) →
        s.OnModules) ∧
      (∀ s : State, s.OnModules → ∀ alarm,
        (host.machine n).Related (fun x x' => x' s = x s ∧ ∀ t, x.Ends s t → t.OnModules)
          (host.checking (Machine.asserting State.OnModules alarm) n)) ∧
      (∀ s : State, s.OnModules →
        ∃ entries, Run.backtrace s = .ok entries s ∧ Stack.Mirrors s.context.stack.frames entries) ∧
      ∀ stack : Stack, FrameKind.OnModule (stack.frames.map Frame.kind) →
        Stack.Mirrors stack.frames stack.backtrace := by
  refine ⟨?_, ?_, ?_, Stack.mirrors_backtrace⟩
  . intro s hwaiting ⟨scope, position, exports, hnew⟩
    unfold State.OnModules State.contexts
    rw [hwaiting, hnew, List.forall_mem_singleton]
    exact new_onModule scope position exports
  . intro s hs alarm
    have hallows : ∀ t, Regime.modules.Allows 0 t → t.OnModules := fun _ ht => ht
    apply (asserting_heeds hhost hallows alarm n).related
    intro α x x' hx
    refine ⟨hx.eq hs, ?_⟩
    intro t ht
    exact (hx.keeps hs ht).onModules hs
  . intro s hs
    exact ⟨_, rfl, s.context.stack.mirrors_backtrace hs.running⟩

/-- A function that fails in a block, called in a block of another function. -/
theorem nested_calls_are_mirrored
    : let host := Host.scripted fun _ => some []
      let s := Engine.bareState {} .silent 0
      let frame (kind : FrameKind) (line : Nat) := Frame.mk kind ⟨0⟩ ⟨"main", line⟩ []
      let stack : Stack :=
        ⟨frame .block 9, [frame (.function "inner") 8, frame .block 5, frame (.function "outer") 4, frame .root 3]⟩
      let entries : List Activation :=
        [⟨"inner", ⟨"main", 9⟩⟩, ⟨"outer", ⟨"main", 5⟩⟩, ⟨"<module>", ⟨"main", 3⟩⟩]
      let call (name : String) (line : Nat) (body : Stmt) :=
        Stmt.mk ⟨"main", line⟩
          (.expr (.call (.mk (.func (.mk (some name) [] false [.mk ⟨"main", line + 1⟩ (.block [body])])) [] false)))
      let stmt := call "outer" 3 (call "inner" 5 (.mk ⟨"main", 9⟩ (.throw (.str "failed"))))
      host.KeepsModules ∧ s.OnModules ∧ FrameKind.OnModule (stack.frames.map Frame.kind) ∧
        stack.backtrace = entries ∧ Stack.Mirrors stack.frames entries ∧
        (match (host.machine 16).exec stmt s with
          | .error (.raised e) _ => e.backtrace
          | _ => none) = some entries ∧
        ∀ alarm, (host.checking (Machine.asserting State.OnModules alarm) 16).exec stmt s =
          (host.machine 16).exec stmt s := by
  intro host s frame stack entries call stmt
  have hhost : host.KeepsModules := scripted_heeds .modules
  have h := backtraces_mirror_frames host hhost 16
  have hs : s.OnModules := h.1 s rfl ⟨_, _, _, rfl⟩
  have hstack : FrameKind.OnModule (stack.frames.map Frame.kind) := by decide
  refine ⟨hhost, hs, hstack, rfl, h.2.2.2 stack hstack, by decide +kernel, ?_⟩
  intro alarm
  exact ((h.2.1 s hs alarm).exec stmt).1

end ScriptEngine
