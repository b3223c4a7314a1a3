import ScriptEngine.Proofs.Regime
import ScriptEngine.Proofs.Supers
import ScriptEngine.Proofs.Tracking

/-!
This module contains calls that go up a chain of classes by way of `super`. What a call depends on is
observed by machines that get some answers from outside: for `super.name ()`, wherever `super` is a certain
view, and for calls of certain functions. A call that depends on just one of these answers, which is given in
one state, has made just one such call: every call gives tags and scopes away, so that no state comes again.
-/

namespace ScriptEngine

/-- Answers to the evaluation of `super.name ()`, at every level. -/
abbrev SuperAnswers := Nat → Run Value

abbrev CallAnswers := Nat → ClosureRef → Value → List Value → Run Value

abbrev Lineage := List (TypeRef × ClosureRef)

/-- A call of a function of the script on an object, by the machine of some level. -/
structure Dispatch where
  level : Nat
  method : ClosureRef
  receiver : Handle
  args : List Value
  state : State

/-- The end of a computation that started in `s`, after what it held on to was let go. -/
def State.letGo {α : Type} (s : State) : EStateM.Result Halt State α → EStateM.Result Halt State α
  | .ok a t => .ok a { t with held := s.held }
  | .error halt t => .error halt { t with held := s.held }

theorem lettingGo_apply {α : Type} (x : Run α) (s : State) : Run.lettingGo x s = s.letGo (x s) := by
  unfold Run.lettingGo State.letGo
  cases x s <;> rfl

theorem State.letGo_letGo {α : Type} (s t : State) (r : EStateM.Result Halt State α)
    : s.letGo (t.letGo r) = s.letGo r := by
  cases r <;> rfl

/-- An evaluation has let everything go already. -/
theorem lettingGo_eval {m m' : Machine} (h : ∀ e, m'.eval e = Run.lettingGo (m.evalExpr e)) (e : Expr)
    : Run.lettingGo (m'.eval e) = m'.eval e := by
  funext s
  rw [h, lettingGo_apply, lettingGo_apply, State.letGo_letGo]

namespace State

def super? (s : State) : Option Handle := (s.heap.scopes.lookup? s.scope "super").bind Value.object?

theorem lookup_of_super? {s : State} {view : Handle} (h : s.super? = some view)
    : s.heap.scopes.lookup? s.scope "super" = some (.object view) := by
  unfold super? at h
  cases hlookup : s.heap.scopes.lookup? s.scope "super" with
  | none =>
    rw [hlookup] at h
    cases h
  | some value =>
    rw [hlookup] at h
    cases value with
    | object handle =>
      injection h with h
      rw [h]
    | _ => cases h

/-- The state in which a function is called that was read from an object. -/
def calling (s : State) (receiver : Handle) (method : ClosureRef) : State :=
  (s.withTag (s.heap.nextTag + 1)).holding (.bound s.heap.nextTag (.object receiver) (.func method))

end State

theorem State.calling_keeps (s : State) (receiver : Handle) (method : ClosureRef)
    : s.heap.Keeps (s.calling receiver method).heap :=
  .ofSame ⟨rfl, rfl, rfl, rfl⟩

def Expr.superCall (name : String) : Expr := .ask (.ident "super") name

def Expr.isSuperCall (name : String) : Expr → Bool
  | .call (.mk (.member (.ident "super") n) [] false) => n == name
  | _ => false

theorem Expr.eq_superCall {name : String} {e : Expr} (h : e.isSuperCall name = true)
    : e = superCall name := by
  unfold isSuperCall at h
  split at h
  . rw [beq_iff_eq] at h
    rw [h]
    rfl
  . cases h

namespace Machine

/-- Answers `super.name ()` with `asked` wherever `super` is `view`. -/
def asking (name : String) (view : Handle) (asked : SuperAnswers) (m : Machine) : Machine :=
  { m with
    eval := fun e s =>
      if e.isSuperCall name ∧ s.super? = some view then Run.lettingGo (asked m.fuel) s else m.eval e s }

/-- Answers calls of `methods` with `called`. -/
def handing (methods : List ClosureRef) (called : CallAnswers) (m : Machine) : Machine :=
  { m with
    invoke := fun callee this args =>
      match callee.target this with
      | (.func ref, receiver) =>
        if ref ∈ methods then Run.lettingGo (called m.fuel ref receiver args) else m.invoke callee this args
      | _ => m.invoke callee this args }

end Machine

namespace Host

def handed (host : Host) (methods : List ClosureRef) (called : CallAnswers) : Nat → Machine :=
  host.checking (Machine.handing methods called)

def answered (host : Host) (name : String) (view : Handle) (asked : SuperAnswers) (methods : List ClosureRef)
    (called : CallAnswers)
    : Nat → Machine :=
  host.checking fun m => (m.handing methods called).asking name view asked

/-- The answers that functions give by themselves. -/
def calls (host : Host) : CallAnswers := fun level ref this args =>
  (host.machine level).invokeClosure ref this args

end Host

namespace Dispatch

def run (d : Dispatch) (m : Machine) : EStateM.Result Halt State Value :=
  m.invokeClosure d.method (.object d.receiver) d.args d.state

def answer (d : Dispatch) (called : CallAnswers) : EStateM.Result Halt State Value :=
  d.state.letGo (called d.level d.method (.object d.receiver) d.args d.state)

def closure (d : Dispatch) : Closure := d.state.heap.closure d.method

/-- What `super` is bound to if the function is a method of a class. -/
def super (d : Dispatch) (owner : TypeRef) : Handle :=
  ((d.state.opened d.closure).heap.superView d.receiver owner).1

def Allowed (d : Dispatch) : Prop := d.state.context.depth < d.state.world.settings.maxDepth

/-- The body of the function runs in `scope`, from `t` on, with `this` as it is given. -/
structure Opens (d : Dispatch) (this : Handle) (scope : ScopeRef) (t : State) : Prop where
  run (m : Machine) : d.run m =
    m.withCall d.closure.code.displayName scope (do m.execAll d.closure.code.body; Run.finishFlow) t
  this : t.heap.scopes.lookup? scope "this" = some (.object this)

end Dispatch

namespace Host

/-- A call during which `super.name ()` is evaluated once, and none of `methods` is called besides. -/
structure AsksOnce (host : Host) (name : String) (methods : List ClosureRef) (d : Dispatch) (view : Handle)
    (level : Nat) (u : State) : Prop where
  /-- With the answer that it has, the call ends as it does whatever other answers there are, -/
  only (asked : SuperAnswers) (called : CallAnswers)
      (h : Run.lettingGo (asked level) u = (host.machine (level + 1)).eval (.superCall name) u)
    : d.run (host.answered name view asked methods called d.level) = d.run (host.machine d.level)
  /-- and with some other answer it does not. -/
  matters : ∃ r, ∀ asked called, Run.lettingGo (asked level) u = u.letGo r →
    d.run (host.answered name view asked methods called d.level) ≠ d.run (host.machine d.level)

/-- A call during which `super.name ()` is not evaluated, and none of `methods` is called. -/
def AsksNever (host : Host) (name : String) (methods : List ClosureRef) (d : Dispatch) (view : Handle)
    : Prop :=
  ∀ asked called,
    d.run (host.answered name view asked methods called d.level) = d.run (host.machine d.level)

/-- A call during which one of `methods` is called, once. -/
structure CallsOnce (host : Host) (methods : List ClosureRef) (d d' : Dispatch) : Prop where
  only (called : CallAnswers) (h : d'.answer called = d'.answer host.calls)
    : d.run (host.handed methods called d.level) = d.run (host.machine d.level)
  matters : ∃ r, ∀ called, d'.answer called = d'.state.letGo r →
    d.run (host.handed methods called d.level) ≠ d.run (host.machine d.level)

def CallsNever (host : Host) (methods : List ClosureRef) (d : Dispatch) : Prop :=
  ∀ called, d.run (host.handed methods called d.level) = d.run (host.machine d.level)

/--
A call of the first of some functions, during which the others are called, each once, in this order and all
with the same `this`, and none of `methods` besides.
-/
inductive Climbs (host : Host) (methods : List ClosureRef) (this : Handle)
    : List ClosureRef → Dispatch → Prop where
  | last {d : Dispatch} {scope : ScopeRef} {t : State} (hopens : d.Opens this scope t)
      (hnever : host.CallsNever methods d)
    : Climbs host methods this [d.method] d
  | next {d d' : Dispatch} {scope : ScopeRef} {t : State} {rest : List ClosureRef}
      (hopens : d.Opens this scope t) (honce : host.CallsOnce methods d d')
      (hrest : Climbs host methods this rest d')
    : Climbs host methods this (d.method :: rest) d

end Host

section Answers

variable {host : Host} {name : String} {view : Handle} {methods : List ClosureRef} {n : Nat}
variable {called : CallAnswers}

theorem handed_eval (host : Host) (methods : List ClosureRef)
    (called : CallAnswers) (n : Nat) (e : Expr)
    : (host.handed methods called (n + 1)).eval e =
        Run.lettingGo ((host.handed methods called n).evalExpr e) :=
  above_eval host n (host.handed methods called n) e

theorem handed_invoke {callee this receiver : Value} {ref : ClosureRef} (args : List Value)
    (htarget : callee.target this = (.func ref, receiver)) (href : ref ∈ methods)
    : (host.handed methods called (n + 1)).invoke callee this args =
        Run.lettingGo (called n ref receiver args) := by
  show (Machine.handing methods called (host.above n _)).invoke callee this args = _
  unfold Machine.handing
  dsimp only
  rw [htarget]
  exact if_pos href

/-- A call of a function gets the answer that the function gives by itself. -/
theorem lettingGo_calls {callee this receiver : Value} {ref : ClosureRef} (host : Host) (n : Nat) (args : List Value)
    (htarget : callee.target this = (.func ref, receiver))
    : Run.lettingGo (host.calls n ref receiver args) = (host.machine (n + 1)).invoke callee this args := by
  show _ = (host.above n (host.machine n)).invoke callee this args
  rw [above_invoke, Machine.invokeWith_target, htarget, Machine.invokeWith]
  rfl

/-- With the answers that functions give by themselves, the machines do what they do. -/
theorem handed_calls (host : Host) (methods : List ClosureRef) (n : Nat)
    : host.handed methods host.calls n = host.machine n := by
  induction n with
  | zero => rfl
  | succ n ih =>
    show Machine.handing methods host.calls (host.above n (host.handed methods host.calls n)) = _
    rw [ih]
    have hinvoke : (Machine.handing methods host.calls (host.above n (host.machine n))).invoke =
        (host.above n (host.machine n)).invoke := by
      funext callee this args
      unfold Machine.handing
      dsimp only
      split
      . next ref receiver htarget =>
        split
        . exact lettingGo_calls host n args htarget
        . rfl
      . rfl
    show { host.above n (host.machine n) with
      invoke := (Machine.handing methods host.calls (host.above n (host.machine n))).invoke } = _
    rw [hinvoke]
    rfl

/-- With the answers that `super.name ()` gets anyway, nothing changes. -/
theorem answered_handed (host : Host) (name : String) (view : Handle) (methods : List ClosureRef)
    (called : CallAnswers) (n : Nat)
    : host.answered name view (fun level => (host.handed methods called (level + 1)).eval (.superCall name))
        methods called n = host.handed methods called n := by
  induction n with
  | zero => rfl
  | succ n ih =>
    unfold Host.answered at ih ⊢
    unfold Host.checking
    rw [ih]
    have heval : (Machine.asking name view
          (fun level => (host.handed methods called (level + 1)).eval (.superCall name))
          (host.handed methods called (n + 1))).eval =
        (host.handed methods called (n + 1)).eval := by
      funext e s
      unfold Machine.asking
      dsimp only
      split
      . next h =>
        rw [Expr.eq_superCall h.1]
        exact congrFun (lettingGo_eval (handed_eval host methods called n) (.superCall name)) s
      . rfl
    show { host.handed methods called (n + 1) with
      eval := (Machine.asking name view
        (fun level => (host.handed methods called (level + 1)).eval (.superCall name))
        (host.handed methods called (n + 1))).eval } = _
    rw [heval]

/-- Answers for other meanings of `super` are not asked for. -/
theorem answered_congr (asked asked' : SuperAnswers)
    (h : ∀ level s, s.super? = some view → asked level s = asked' level s) (n : Nat)
    : host.answered name view asked methods called n = host.answered name view asked' methods called n := by
  induction n with
  | zero => rfl
  | succ n ih =>
    unfold Host.answered at ih ⊢
    unfold Host.checking
    rw [ih]
    unfold Machine.asking
    congr 1
    funext e s
    split
    . next hasks =>
      rw [lettingGo_apply, lettingGo_apply, h _ s hasks.2]
    . rfl

end Answers

/-- A machine calls what an expression without arguments names, after it was read from an object. -/
theorem Machine.eval_ask {m₁ m₂ m₃ : Machine} {e : Expr} {handle : Handle} {name : String} {ref : ClosureRef}
    {s t : State} (h₂ : ∀ e, m₂.eval e = Run.lettingGo (m₁.evalExpr e))
    (h₃ : ∀ e, m₃.eval e = Run.lettingGo (m₂.evalExpr e)) (he : m₁.eval e s = .ok (.object handle) t)
    (hheld : t.held = s.held) (hmember : t.heap.member? handle name = some (.func ref))
    : m₃.eval (.ask e name) s =
        s.letGo
          (m₂.invoke (.bound t.heap.nextTag (.object handle) (.func ref)) .undefined []
            (t.calling handle ref)) := by
  let callee := Value.bound t.heap.nextTag (.object handle) (.func ref)
  have hread := (eval_member h₂ he hheld hmember).1 rfl
  have hcallee : m₂.evalHeld (.member e name) s = .ok callee (t.calling handle ref) := by
    unfold evalHeld
    rw [Run.bind_ok hread]
    rfl
  have hargs : m₂.evalArgs [] (t.calling handle ref) = .ok [] (t.calling handle ref) := rfl
  have hcall : m₂.evalExpr (.ask e name) s = m₂.invoke callee .undefined [] (t.calling handle ref) := by
    unfold evalExpr Expr.ask
    dsimp only
    unfold evalCall
    dsimp only [Call.callee, Call.args]
    rw [Run.bind_ok hcallee, Run.bind_ok hargs]
    rfl
  rw [h₃, lettingGo_apply, hcall]

namespace Host

variable {host : Host} {name : String} {methods : List ClosureRef} {d : Dispatch} {view : Handle} {k : Nat}
variable {u : State}

theorem handed_superCall {ref : ClosureRef} (called : CallAnswers) (k : Nat) (href : ref ∈ methods)
    (hview : u.super? = some view) (hmember : u.heap.member? view name = some (.func ref))
    : (host.handed methods called (k + 3)).eval (.superCall name) u =
        u.letGo (Dispatch.answer ⟨k + 1, ref, view, [], u.calling view ref⟩ called) := by
  have hident := Machine.eval_ident (handed_eval host methods called k) (State.lookup_of_super? hview)
  have hcall := Machine.eval_ask (handed_eval host methods called (k + 1))
    (handed_eval host methods called (k + 2)) hident rfl hmember
  unfold Expr.superCall
  rw [hcall, handed_invoke (n := k + 1) [] rfl href, lettingGo_apply]
  rfl

theorem AsksOnce.super?_eq {level : Nat} (h : host.AsksOnce name methods d view level u)
    : u.super? = some view := by
  apply Classical.byContradiction
  intro hnot
  rcases h.matters with ⟨r, hr⟩
  let anyway (level : Nat) : Run Value := (host.machine (level + 1)).eval (.superCall name)
  let asked (level : Nat) : Run Value := fun s => if s.super? = some view then anyway level s else r
  have hasked : Run.lettingGo (asked level) u = u.letGo r := by
    rw [lettingGo_apply]
    show u.letGo (if _ then _ else _) = _
    rw [if_neg hnot]
  have hanyway : Run.lettingGo (anyway level) u = anyway level u :=
    congrFun (lettingGo_eval (above_eval host level (host.machine level)) (.superCall name)) u
  apply hr asked host.calls hasked
  rw [answered_congr asked anyway fun _ _ hs => if_pos hs]
  exact h.only anyway host.calls hanyway

/-- A call that asks `super` once calls what `super` finds, once. -/
theorem AsksOnce.callsOnce {ref : ClosureRef} (h : host.AsksOnce name methods d view (k + 2) u)
    (href : ref ∈ methods) (hmember : u.heap.member? view name = some (.func ref))
    : host.CallsOnce methods d ⟨k + 1, ref, view, [], u.calling view ref⟩ := by
  let anyway (called : CallAnswers) (level : Nat) : Run Value :=
    (host.handed methods called (level + 1)).eval (.superCall name)
  have hanswer (called : CallAnswers)
      : Run.lettingGo (anyway called (k + 2)) u =
          u.letGo (Dispatch.answer ⟨k + 1, ref, view, [], u.calling view ref⟩ called) := by
    show Run.lettingGo ((host.handed methods called (k + 3)).eval (.superCall name)) u = _
    rw [lettingGo_apply, handed_superCall called k href h.super?_eq hmember, State.letGo_letGo]
  constructor
  case only =>
    intro called hcalled
    rw [← answered_handed host name view]
    apply h.only
    show Run.lettingGo (anyway called (k + 2)) u = _
    rw [hanswer, hcalled, ← handed_superCall host.calls k href h.super?_eq hmember, handed_calls]
  case matters =>
    rcases h.matters with ⟨r, hr⟩
    refine ⟨r, ?_⟩
    intro called hcalled
    rw [← answered_handed host name view]
    apply hr
    show Run.lettingGo (anyway called (k + 2)) u = _
    rw [hanswer, hcalled, State.letGo_letGo]

theorem AsksNever.callsNever (h : host.AsksNever name methods d view) : host.CallsNever methods d := by
  intro called
  rw [← answered_handed host name view]
  exact h _ called

end Host

section Meanwhile

variable {host : Host} {name : String} {methods : List ClosureRef} {level : Nat} {u : State}

/-- If `super.name ()` is answered as it is anyway in all states but one, then nothing changes before that one. -/
theorem answered_tracks (hhost : host.Tracks Heap.Keeps (·.Keeps u.heap)) (name : String) (view : Handle)
    (methods : List ClosureRef) {asked : SuperAnswers}
    (hasked : ∀ n s, s = u ∨ asked n s = (host.machine (n + 1)).eval (.superCall name) s) (n : Nat)
    : (host.machine n).Tracks Heap.Keeps (·.Keeps u.heap) (host.answered name view asked methods host.calls n) := by
  have hR : Heap.Track Heap.Keeps (·.Keeps u.heap) := Heap.Keeps.track .trans
  induction n with
  | zero => exact spent_tracks hR
  | succ n ih =>
    have hself := machine_tracks hR hhost (n + 1)
    have habove := above_tracks hR ih n (hhost.native ih) fun _ h => hhost.importer ih h
    exact { habove with
      eval := by
        intro e s
        show _ ∨ (if _ then Run.lettingGo (asked n) s else _) = _ ∧ _
        split
        . next hasks =>
          rw [Expr.eq_superCall hasks.1]
          rcases hasked n s with hs | hanyway
          . rw [hs]
            exact .inl (.refl _)
          . have hsame : Run.lettingGo (asked n) s = (host.machine (n + 1)).eval (.superCall name) s := by
              rw [lettingGo_apply, hanyway, ← lettingGo_apply]
              exact congrFun (lettingGo_eval (above_eval host n (host.machine n)) (.superCall name)) s
            rw [hsame]
            exact hself.eval (.superCall name) s
        . exact habove.eval e s
      invoke := by
        intro callee this args
        show Run.Tracks _ _ _ (match callee.target this with | (.func ref, receiver) => _ | _ => _)
        split
        . next ref receiver htarget =>
          split
          . show Run.Tracks _ _ _ (Run.lettingGo (host.calls n ref receiver args))
            rw [lettingGo_calls host n args htarget]
            exact hself.invoke callee this args
          . exact habove.invoke callee this args
        . exact habove.invoke callee this args }

/-- Until a call asks `super`, it keeps in the heap what every evaluation keeps there. -/
theorem Host.AsksOnce.keeps {d : Dispatch} {view : Handle} {scope : ScopeRef} {t : State}
    (hhost : host.Tracks Heap.Keeps (·.Keeps u.heap)) (hallowed : d.Allowed)
    (hscope : Run.callScope d.closure (.object d.receiver) d.args d.state = .ok scope t)
    (honce : host.AsksOnce name methods d view level u)
    : t.heap.Keeps u.heap := by
  -- Otherwise the call would end as it does with every answer in `u`, but then no answer there would matter.
  classical
  rcases honce.matters with ⟨r, hr⟩
  let asked (n : Nat) : Run Value := fun s => if s = u then r else (host.machine (n + 1)).eval (.superCall name) s
  have hasked : Run.lettingGo (asked level) u = u.letGo r := by
    rw [lettingGo_apply]
    exact congrArg u.letGo (if_pos rfl)
  have hothers (n : Nat) (s : State) : s = u ∨ asked n s = (host.machine (n + 1)).eval (.superCall name) s := by
    by_cases hs : s = u
    . exact .inl hs
    . exact .inr (if_neg hs)
  have htracks := answered_tracks hhost name view methods hothers d.level
  have hrun (m : Machine) : d.run m = m.withCall d.closure.code.displayName scope
      (do m.execAll d.closure.code.body; Run.finishFlow) t := Machine.invokeClosure_opened hallowed hscope
  have hR : Heap.Track Heap.Keeps (·.Keeps u.heap) := Heap.Keeps.track .trans
  have hfuel : SameFuel (host.machine d.level) (host.answered name view asked methods host.calls d.level) :=
    ⟨htracks.fuel⟩
  have hbody := Parallel.tracks hR htracks (.bind (.execAll d.closure.code.body) fun _ => .finishFlow)
  rcases withCall_tracks hR htracks d.closure.code.displayName scope hbody t with hbefore | ⟨hsame, _⟩
  . exact hbefore
  . have hdiffers := hr asked host.calls hasked
    rw [hrun, hrun] at hdiffers
    exact absurd hsame hdiffers

end Meanwhile

namespace Heap

variable {first : Int} {h h' : Heap} {name : String} {cls next : TypeRef} {ref : ClosureRef}
variable {handle : Handle} {chain : Lineage}

/-- A class that declares a method of a name, with `this` and `super` as calls bind them. -/
structure Declares (h : Heap) (first : Int) (name : String) (cls : TypeRef) (method : ClosureRef) : Prop where
  isClass : h.types.IsClass first cls
  member : h.types.ownMember? cls name = some (.func method)
  made : method.index < h.closures.size
  owner : (h.closure method).owner = some cls
  params : "this" ∉ (h.closure method).code.params ∧ "super" ∉ (h.closure method).code.params

inductive Chain (h : Heap) (first : Int) (name : String) : Lineage → Prop where
  | root {cls : TypeRef} {ref : ClosureRef} (hdeclares : h.Declares first name cls ref)
    : Chain h first name [(cls, ref)]
  | derived {cls next : TypeRef} {ref ref' : ClosureRef} {rest : Lineage}
      (hdeclares : h.Declares first name cls ref) (hbases : h.types.bases cls = [next])
      (hrest : Chain h first name ((next, ref') :: rest))
    : Chain h first name ((cls, ref) :: (next, ref') :: rest)

theorem Declares.keeps (hdeclares : h.Declares first name cls ref) (hkeeps : h.Keeps h')
    : h'.Declares first name cls ref := by
  rcases hkeeps.closure hdeclares.made with ⟨hmade, hclosure⟩
  exact {
    isClass := hdeclares.isClass.extends hkeeps.types
    member := (hkeeps.declared hdeclares.isClass.1 name).trans hdeclares.member
    made := hmade
    owner := by
      rw [hclosure]
      exact hdeclares.owner
    params := by
      rw [hclosure]
      exact hdeclares.params }

theorem Chain.keeps (hchain : h.Chain first name chain) (hkeeps : h.Keeps h') : h'.Chain first name chain := by
  induction hchain with
  | root hdeclares => exact .root (hdeclares.keeps hkeeps)
  | derived hdeclares hbases _ ih =>
    refine .derived (hdeclares.keeps hkeeps) ?_ ih
    rw [hkeeps.types.bases hdeclares.isClass.1]
    exact hbases

theorem Chain.declares (hchain : h.Chain first name ((cls, ref) :: chain))
    : h.Declares first name cls ref := by
  cases hchain with
  | root hdeclares => exact hdeclares
  | derived hdeclares => exact hdeclares

theorem Declares.findMember?_eq (hdeclares : h.Declares first name cls ref)
    : h.types.findMember? cls name = some (.func ref) := by
  unfold Types.findMember? Types.findMember?.go
  rw [hdeclares.member]

theorem Chain.superMember?_eq {ref' : ClosureRef}
    (hchain : h.Chain first name ((cls, ref) :: (next, ref') :: chain))
    (hown : (h.members handle).get? name = none)
    : h.superMember? handle cls name = some (.func ref') := by
  cases hchain with
  | derived _ hbases hnext =>
    have hfound := hnext.declares.findMember?_eq
    unfold superMember?
    rw [hown, hbases, Option.none_or, List.findSome?_cons, hfound]

def Instantiates (h : Heap) (handle : Handle) (cls : TypeRef) : Prop :=
  h.Holds handle ∧ h.types.Derives (h.inst handle).type cls

theorem Instantiates.keeps (hinst : h.Instantiates handle cls) (hkeeps : h.Keeps h')
    : h'.Instantiates handle cls := by
  rcases hkeeps.type hinst.1 with ⟨hholds, htype⟩
  refine ⟨hholds, ?_⟩
  rw [htype]
  apply Relation.ReflTransGen.mono _ _ _ hinst.2
  intro ref base hbase
  rw [hkeeps.types.bases (Types.has_of_mem_bases hbase)]
  exact hbase

theorem Instantiates.congr {other : Handle} (hinst : h.Instantiates handle cls)
    (hreal : other.realThis = handle.realThis)
    : h.Instantiates other cls := by
  refine ⟨hinst.1.congr hreal, ?_⟩
  rw [inst_congr hreal]
  exact hinst.2

theorem Instantiates.base (hinst : h.Instantiates handle cls) (hbases : h.types.bases cls = [next])
    : h.Instantiates handle next := by
  refine ⟨hinst.1, .tail hinst.2 ?_⟩
  rw [hbases]
  exact List.mem_singleton_self next

end Heap

/--
Calls of the methods of a chain, from one class to its base. Each of them evaluates `super.name ()` once,
while the object has no member of this name itself, and calls none of `methods` besides; the one of the root
calls none at all. The limit on active calls allows all of them. That the heap keeps what it has until `super` is
asked is `Host.AsksOnce.keeps` if the host keeps it.
-/
inductive Host.Asks (host : Host) (name : String) (methods : List ClosureRef)
    : Lineage → Dispatch → Prop where
  | root {cls : TypeRef} {d : Dispatch} (hallowed : d.Allowed)
      (hnever : host.AsksNever name methods d (d.super cls))
    : Asks host name methods [(cls, d.method)] d
  | derived {cls next : TypeRef} {ref : ClosureRef} {rest : Lineage} {d : Dispatch} {k : Nat} {u t : State}
      {scope : ScopeRef} (hallowed : d.Allowed)
      (honce : host.AsksOnce name methods d (d.super cls) (k + 2) u)
      (hscope : Run.callScope d.closure (.object d.receiver) d.args d.state = .ok scope t)
      (hkeeps : t.heap.Keeps u.heap) (hown : (u.heap.members d.receiver).get? name = .none)
      (hrest : Asks host name methods ((next, ref) :: rest)
        ⟨k + 1, ref, d.super cls, [], u.calling (d.super cls) ref⟩)
    : Asks host name methods ((cls, d.method) :: (next, ref) :: rest) d

theorem Host.Asks.once {host : Host} {name : String} {methods : List ClosureRef} {d : Dispatch} {cls : TypeRef}
    {ref : ClosureRef} {link : TypeRef × ClosureRef} {rest : Lineage}
    (h : host.Asks name methods ((cls, ref) :: link :: rest) d)
    : ∃ k u scope t, host.AsksOnce name methods d (d.super cls) (k + 2) u ∧
        Run.callScope d.closure (.object d.receiver) d.args d.state = .ok scope t := by
  cases h with
  | derived _ honce hscope => exact ⟨_, _, _, _, honce, hscope⟩

/-- What the scope of a call of a method of `cls` binds, and what the heap keeps when it is filled. -/
structure Dispatch.Opened (d : Dispatch) (cls : TypeRef) (scope : ScopeRef) (t : State) : Prop where
  filled : Run.callScope d.closure (.object d.receiver) d.args d.state = .ok scope t
  opens : d.Opens d.receiver.realThis scope t
  super : t.heap.scopes.lookup? scope "super" = some (.object (d.super cls))
  isSuper : t.heap.IsSuper (d.super cls) d.receiver cls
  context : t.context = d.state.context
  world : t.world = d.state.world
  instances : t.heap.instances = d.state.heap.instances
  keeps : d.state.heap.Keeps t.heap

section Chains

variable {host : Host} {first : Int} {name : String} {methods : List ClosureRef} {d : Dispatch} {origin : Heap}
variable {cls : TypeRef} {chain : Lineage} (hfirst : 13 ≤ first)
include hfirst

/-- An object of a class that derives from another one is one of its instances, whatever was made since. -/
theorem Heap.Instantiates.isSubOf {h : Heap} {handle : Handle} (hinst : origin.Instantiates handle cls)
    (hcls : origin.types.Has cls) (hdefined : origin.types.Defined first) (hkeeps : origin.Keeps h)
    : h.types.isSubOf (h.inst handle).type cls = true := by
  rcases hdefined.sound hfirst with ⟨n, hsound⟩
  have htype : origin.types.Has (origin.inst handle).type := by
    cases Relation.ReflTransGen.cases_head hinst.2 with
    | inl heq =>
      rw [heq]
      exact hcls
    | inr h =>
      rcases h with ⟨base, hbase, _⟩
      exact Types.has_of_mem_bases hbase
  rw [(hkeeps.type hinst.1).2]
  have hderives := (hinst.keeps hkeeps).2
  rw [(hkeeps.type hinst.1).2] at hderives
  exact (hkeeps.types.layeredBelow hsound.layered).isSubOf_of_derives htype hderives

/-- A class is in use while its methods are called on instances of it, or of classes that derive from it. -/
theorem Dispatch.opened (hallowed : d.Allowed) (hdefined : origin.types.Defined first)
    (hkeeps : origin.Keeps d.state.heap) (hdeclares : origin.Declares first name cls d.method)
    (hinst : origin.Instantiates d.receiver cls)
    : ∃ scope t, d.Opened cls scope t := by
  have hdeclared := hdeclares.keeps hkeeps
  have hsub := hinst.isSubOf hfirst hdeclares.isClass.1 hdefined hkeeps
  have hused : Run.ownerInUse d.closure cls d.receiver d.args (d.state.opened d.closure) =
      .ok true (d.state.opened d.closure) := Run.ownerInUse_of_isSubOf hsub
  rcases Run.callScope_binds hdeclared.owner hused with ⟨scope, t, hscope, hthis, hsuper⟩
  rcases Run.callScope_tables hdeclared.owner hused hscope with ⟨hcontext, hworld, hsame⟩
  let opened := (d.state.opened d.closure).heap
  have hview : (opened.superView d.receiver cls).2.IsSuper (d.super cls) d.receiver cls :=
    Heap.superView_isSuper (h := opened) hfirst hdeclared.isClass d.receiver
  exact ⟨scope, t, {
    filled := hscope
    opens := ⟨fun m => Machine.invokeClosure_opened hallowed hscope, hthis hdeclared.params.1⟩
    super := hsuper hdeclared.params.2
    isSuper := hview.extends (Heap.Keeps.ofSame hsame).types
    context := hcontext
    world := hworld
    instances := hsame.instances.trans (Heap.superView_instances opened d.receiver cls)
    keeps := Run.callScope_keeps hscope }⟩

theorem Host.Asks.climbs (h : host.Asks name methods chain d) (hname : name ≠ "__init__")
    (hmethods : ∀ link ∈ chain, link.2 ∈ methods) (hdefined : origin.types.Defined first)
    (hkeeps : origin.Keeps d.state.heap) (hchain : origin.Chain first name chain)
    (hinst : ∀ link ∈ chain.head?, origin.Instantiates d.receiver link.1)
    : host.Climbs methods d.receiver.realThis (chain.map Prod.snd) d := by
  -- The view that `super` is belongs to the instance, so that the next call has the same `this`.
  induction h with
  | root hallowed hnever =>
    rcases Dispatch.opened hfirst hallowed hdefined hkeeps hchain.declares (hinst _ rfl) with ⟨scope, t, hopened⟩
    exact .last hopened.opens hnever.callsNever
  | @derived cls next ref rest d k u t' scope' hallowed honce hscope hmeanwhile hown hrest ih =>
    rcases Dispatch.opened hfirst hallowed hdefined hkeeps hchain.declares (hinst _ rfl) with ⟨scope, t, hopened⟩
    have hfilled := hopened.filled
    rw [hscope] at hfilled
    injection hfilled with _ ht
    rw [ht] at hmeanwhile
    have hu := (hkeeps.trans hopened.keeps).trans hmeanwhile
    have hisSuper := hopened.isSuper.extends hmeanwhile.types
    have hmember := (hisSuper.member?_eq hfirst hdefined hu.types hchain.declares.isClass.1 hname).trans
      ((hchain.keeps hu).superMember?_eq hown)
    have hcalls := honce.callsOnce (hmethods _ (.tail _ (.head _))) hmember
    refine .next hopened.opens hcalls ?_
    cases hchain with
    | derived _ hbases hnext =>
      apply ih
      . intro link hlink
        exact hmethods link (.tail _ hlink)
      . exact hu.trans (u.calling_keeps (d.super cls) ref)
      . exact hnext
      . intro link hlink
        injection hlink with hlink
        rw [← hlink]
        exact ((hinst _ rfl).base hbases).congr rfl

end Chains

end ScriptEngine
