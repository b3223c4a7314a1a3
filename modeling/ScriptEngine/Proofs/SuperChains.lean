import ScriptEngine.Proofs.Climbing
import ScriptEngine.Proofs.Statements

/-!
This module contains chains of classes in which every method calls the one of its base by way of `super`.
-/

namespace ScriptEngine

def Stmt.handOn (name : String) : Stmt := .ofKind (.ret (some (.superCall name)))

/-- Methods that hand on to the next one, up to that of the root, which does nothing. -/
def Heap.HandsOn (h : Heap) (name : String) : Lineage → Prop
  | [] => False
  | [(_, ref)] => (h.closure ref).code.body = []
  | (_, ref) :: next :: rest => (h.closure ref).code.body = [.handOn name] ∧ HandsOn h name (next :: rest)

namespace Machine

variable {m : Machine}

/-- A body runs in a state of its own, and the call ends by how the body ends. -/
theorem withCall_starts (name : String) (scope : ScopeRef) (t : State)
    : ∃ e : State, e.heap = t.heap ∧ e.world = t.world ∧
        e.context = t.context.called.enter (.function name) scope ∧
        ∀ (m : Machine) (body : Run Unit),
          (∀ v, body e = .error .exhausted v → ∃ w, m.withCall name scope body t = .error .exhausted w) ∧
          (∀ v, body e = .ok () v → v.context.stack.top.defers = [] → (∀ s, m.release [] [] s = .ok none s) →
            m.withCall name scope body t =
              .ok v.context.retVal (v.leave.shallower.resume t.context)) := by
  rcases Run.hold_apply t.context.retVal (t.withFlow .normal) with ⟨held, hheld⟩
  let start : State := { t.withFlow .normal with held := held }.withRetVal .undefined
  let e : State := (start.withDepth (t.context.depth + 1)).enter (.function name) scope
  refine ⟨e, rfl, rfl, rfl, ?_⟩
  intro m body
  have hcall : m.withCall name scope body t =
      Run.finishing (·.resume t.context)
        (do Run.deeper (m.withFrame (.function name) scope body); Run.retVal) start := by
    rw [withCall_apply]
    unfold Run.finishing
    rw [Run.bind_ok hheld, Run.bind_ok (rfl : Run.setRetVal .undefined _ = .ok () start)]
    rfl
  have hframe : m.withFrame (.function name) scope body (start.withDepth (t.context.depth + 1)) =
      (Run.capture body >>= fun r => leaveFrame >>= fun calls =>
        m.release (raisedValues r) calls >>= settle r) e := rfl
  constructor
  . intro v hbody
    have hwhole : m.withFrame (.function name) scope body (start.withDepth (t.context.depth + 1)) =
        .error .exhausted v := by
      rw [hframe, Run.bind_error (Run.capture_halted hbody nofun)]
    have hdeeper : Run.deeper (m.withFrame (.function name) scope body) start = .error .exhausted v := by
      rw [Run.deeper_apply]
      unfold Run.finishing
      rw [show start.context.depth = t.context.depth from rfl, hwhole]
    refine ⟨v, ?_⟩
    rw [hcall]
    unfold Run.finishing
    rw [Run.bind_error hdeeper]
  . intro v hbody hdefers hrelease
    have hwhole : m.withFrame (.function name) scope body (start.withDepth (t.context.depth + 1)) =
        .ok () v.leave := by
      have hleft : m.release (raisedValues (.ok () : Except Error Unit)) [] v.leave = .ok none v.leave :=
        hrelease v.leave
      rw [withFrame_captured (Run.capture_ok hbody), hdefers, Run.bind_ok hleft]
      rfl
    have hdeeper : Run.deeper (m.withFrame (.function name) scope body) start =
        .ok () v.leave.shallower := by
      rw [Run.deeper_apply]
      unfold Run.finishing
      rw [show start.context.depth = t.context.depth from rfl, hwhole]
    rw [hcall]
    unfold Run.finishing
    rw [Run.bind_ok hdeeper]
    rfl

section HandOn

variable {m m' : Machine} {name : String} {e w : State}
variable (hexec : ∀ stmt, m'.exec stmt = Run.lettingGo (m.execStmt stmt))
include hexec

theorem exec_handOn (name : String) (e : State)
    : m'.exec (.handOn name) e =
        (e.atPosition .unknown).ending
          (m.execKind (.ret (some (.superCall name))) (e.atPosition .unknown)) := by
  rw [hexec, ← lettingGo_locating]
  rfl

theorem handOn_exhausted (heval : m.eval (.superCall name) (e.atPosition .unknown) = .error .exhausted w)
    : ∃ w', (do m'.execAll [.handOn name]; Run.finishFlow : Run Unit) e = .error .exhausted w' := by
  have hkind : m.execKind (.ret (some (.superCall name))) (e.atPosition .unknown) = .error .exhausted w :=
    Run.bind_error heval
  have hran := exec_handOn hexec name e
  rw [hkind] at hran
  unfold execAll
  exact ⟨_, Run.bind_error (Run.bind_error hran)⟩

theorem handOn_ok {v : Value} (heval : m.eval (.superCall name) (e.atPosition .unknown) = .ok v w)
    : (do m'.execAll [.handOn name]; Run.finishFlow : Run Unit) e =
        .ok () { (w.withRetVal v).withFlow .normal with held := e.held } := by
  let returned : State := { (w.withRetVal v).withFlow .ret with held := e.held }
  have hkind : m.execKind (.ret (some (.superCall name))) (e.atPosition .unknown) =
      .ok () ((w.withRetVal v).withFlow .ret) := by
    unfold execKind evalOptional
    dsimp only
    rw [Run.bind_ok heval]
    rfl
  have hran := exec_handOn hexec name e
  rw [hkind] at hran
  have hall : m'.execAll [.handOn name] e = .ok () returned := by
    unfold execAll
    rw [Run.bind_ok hran]
    rfl
  rw [Run.bind_ok hall]
  rfl

end HandOn

/-- A method that hands on ends with what `super.name ()` gives, in the context of its caller. -/
theorem handOn_ends (display : String) (scope : ScopeRef) (t : State) (name : String)
    : ∃ (u : State) (after : Value → State → State), u.heap = t.heap ∧ u.world = t.world ∧ u.scope = scope ∧
        u.context.depth = t.context.depth + 1 ∧
        (∀ v w, w.context = u.context → (after v w).context = t.context) ∧
        ∀ m m' : Machine, (∀ stmt, m'.exec stmt = Run.lettingGo (m.execStmt stmt)) →
          (∀ s, m'.release [] [] s = .ok none s) →
          let call := m'.withCall display scope (do m'.execAll [.handOn name]; Run.finishFlow) t
          (∀ w, m.eval (.superCall name) u = .error .exhausted w → ∃ w', call = .error .exhausted w') ∧
          (∀ v w, m.eval (.superCall name) u = .ok v w → w.context = u.context →
            call = .ok v (after v w)) := by
  rcases withCall_starts display scope t with ⟨e, hheap, hworld, hcontext, hends⟩
  let after (v : Value) (w : State) : State :=
    ({ (w.withRetVal v).withFlow .normal with held := e.held } : State).leave.shallower.resume t.context
  refine ⟨e.atPosition .unknown, after, hheap, hworld, ?_, ?_, ?_, ?_⟩
  . show e.context.stack.top.scope = scope
    rw [hcontext]
    rfl
  . show e.context.depth = _
    rw [hcontext]
    rfl
  . intro v w hw
    have hw : w.context = (e.atPosition .unknown).context := hw
    show Context.mk w.context.stack.pop t.context.retVal t.context.flow w.context.exports (w.context.depth - 1) = _
    rw [hw]
    show Context.mk (e.atPosition .unknown).context.stack.pop _ _ e.context.exports (e.context.depth - 1) = _
    unfold State.atPosition
    rw [hcontext]
    rfl
  . intro m m' hexec hrelease
    constructor
    . intro w heval
      rcases handOn_exhausted hexec heval with ⟨w', hbody⟩
      exact (hends m' _).1 w' hbody
    . intro v w heval hw
      apply (hends m' _).2 _ (handOn_ok hexec heval) _ hrelease
      show w.context.stack.top.defers = []
      rw [hw]
      show e.context.stack.top.defers = []
      rw [hcontext]
      rfl

end Machine

section HandingOn

variable {host : Host} {name : String} {methods : List ClosureRef} {d : Dispatch} {view this : Handle}
variable {scope : ScopeRef} {t : State} {k : Nat}

theorem answered_eval {asked : SuperAnswers} {called : CallAnswers} {u : State} (n : Nat)
    (hview : u.super? = some view)
    : (host.answered name view asked methods called (n + 1)).eval (.superCall name) u =
        Run.lettingGo (asked n) u := by
  have hcall : (Expr.superCall name).isSuperCall name = true := beq_self_eq_true name
  exact if_pos ⟨hcall, hview⟩

/-- A call of a method that hands on, once it is known what `super.name ()` gives there. -/
theorem Dispatch.Opens.handsOn (hopens : d.Opens this scope t) (hbody : d.closure.code.body = [.handOn name])
    (hlevel : d.level = k + 4) (hsuper : t.heap.scopes.lookup? scope "super" = some (.object view))
    : ∃ u, u.heap = t.heap ∧ u.world = t.world ∧ u.context.depth = t.context.depth + 1 ∧
        u.super? = some view ∧
        ∀ v w, (host.machine (k + 3)).eval (.superCall name) u = .ok v w → w.context = u.context →
          (∀ methods, host.AsksOnce name methods d view (k + 2) u) ∧
            ∃ w', d.run (host.machine d.level) = .ok v w' ∧ w'.context = t.context := by
  rcases Machine.handOn_ends d.closure.code.displayName scope t name
    with ⟨u, after, hheap, hworld, hscope, hdepth, hafter, hends⟩
  have hview : u.super? = some view := by
    unfold State.super?
    rw [hheap, hscope, hsuper]
    rfl
  have hrun (m : Machine) : d.run m = m.withCall d.closure.code.displayName scope
      (do m.execAll [.handOn name]; Run.finishFlow) t := by
    rw [hopens.run, hbody]
  refine ⟨u, hheap, hworld, hdepth, hview, ?_⟩
  intro v w heval hw
  have hreal : d.run (host.machine d.level) = .ok v (after v w) := by
    have hstep := hends (host.machine (k + 3)) (host.machine (k + 4)) (above_exec host (k + 3) _) fun _ => rfl
    rw [hlevel, hrun]
    exact hstep.2 v w heval hw
  refine ⟨?_, after v w, hreal, hafter v w hw⟩
  intro methods
  -- With answers from outside, too, all that the call depends on is the answer in this state.
  have hstep (asked : SuperAnswers) (called : CallAnswers) :=
    let machine := host.answered name view asked methods called
    hends (machine (k + 3)) (machine (k + 4)) (above_exec host (k + 3) (machine (k + 3))) fun _ => rfl
  constructor
  case only =>
    intro asked called hasked
    rw [hreal, hlevel, hrun]
    apply (hstep asked called).2 v w _ hw
    rw [answered_eval (k + 2) hview, hasked, heval]
  case matters =>
    refine ⟨.error .exhausted u, ?_⟩
    intro asked called hasked
    have hstops := (hstep asked called).1 u
    rw [answered_eval (k + 2) hview, hasked] at hstops
    rcases hstops rfl with ⟨w', hw'⟩
    rw [hreal, hlevel, hrun, hw']
    nofun

theorem Dispatch.Opens.doesNothing (hopens : d.Opens this scope t) (hbody : d.closure.code.body = [])
    (hlevel : d.level = k + 1)
    : (∀ methods, host.AsksNever name methods d view) ∧
        ∃ w, d.run (host.machine d.level) = .ok .undefined w ∧ w.context = t.context := by
  rcases Machine.withCall_starts d.closure.code.displayName scope t with ⟨e, _, _, hcontext, hends⟩
  have hrun (m : Machine) (hrelease : ∀ s, m.release [] [] s = .ok none s) : d.run m =
      .ok .undefined ((e.withFlow .normal).leave.shallower.resume t.context) := by
    have hbody' : (do m.execAll []; Run.finishFlow : Run Unit) e = .ok () (e.withFlow .normal) := by
      show Run.finishFlow e = _
      unfold Run.finishFlow
      rw [Run.bind_ok (rfl : Run.takeFlow e = .ok e.context.flow (e.withFlow .normal)), hcontext]
      rfl
    have hdefers : (e.withFlow .normal).context.stack.top.defers = [] := by
      show e.context.stack.top.defers = []
      rw [hcontext]
      rfl
    rw [hopens.run, hbody, (hends m _).2 _ hbody' hdefers hrelease]
    show EStateM.Result.ok e.context.retVal _ = _
    rw [hcontext]
    rfl
  rw [hlevel]
  refine ⟨?_, _, hrun (host.machine (k + 1)) fun _ => rfl, ?_⟩
  . intro methods asked called
    rw [hlevel, hrun _ fun _ => rfl, hrun _ fun _ => rfl]
  . show Context.mk e.context.stack.pop t.context.retVal t.context.flow e.context.exports (e.context.depth - 1) = _
    rw [hcontext]
    rfl

end HandingOn

theorem Heap.HandsOn.keeps {h h' : Heap} {first : Int} {name : String} {chain : Lineage}
    (hhands : h.HandsOn name chain) (hchain : h.Chain first name chain) (hkeeps : h.Keeps h')
    : h'.HandsOn name chain := by
  induction hchain with
  | root hdeclares =>
    unfold HandsOn at hhands ⊢
    rw [(hkeeps.closure hdeclares.made).2]
    exact hhands
  | derived hdeclares _ _ ih =>
    unfold HandsOn at hhands ⊢
    rw [(hkeeps.closure hdeclares.made).2]
    exact ⟨hhands.1, ih hhands.2⟩

/-- A call of the method of `cls`, from which on all methods hand on to the next one, as they did in `origin`. -/
structure Dispatch.Relays (d : Dispatch) (origin : Heap) (first : Int) (name : String) (cls : TypeRef)
    (rest : Lineage)
    : Prop where
  defined : origin.types.Defined first
  keeps : origin.Keeps d.state.heap
  chain : origin.Chain first name ((cls, d.method) :: rest)
  hands : origin.HandsOn name ((cls, d.method) :: rest)
  inst : origin.Instantiates d.receiver cls
  own : (d.state.heap.members d.receiver).get? name = none
  depth : d.state.context.depth + rest.length < d.state.world.settings.maxDepth

section Relays

variable {host : Host} {origin : Heap} {first : Int} {name : String} {d : Dispatch} {cls : TypeRef} {rest : Lineage}
variable (hfirst : 13 ≤ first)

theorem Dispatch.Relays.allowed (h : d.Relays origin first name cls rest) : d.Allowed :=
  Nat.lt_of_le_of_lt (Nat.le_add_right _ _) h.depth

include hfirst

theorem Dispatch.Relays.opened (h : d.Relays origin first name cls rest) : ∃ scope t, d.Opened cls scope t :=
  Dispatch.opened hfirst h.allowed h.defined h.keeps h.chain.declares h.inst

/-- The next method is called on a view of the same object, one call further in. -/
theorem Dispatch.Relays.next {next : TypeRef} {ref : ClosureRef} {scope : ScopeRef} {t u : State}
    (h : d.Relays origin first name cls ((next, ref) :: rest)) (hname : name ≠ "__init__")
    (hopened : d.Opened cls scope t) (hheap : u.heap = t.heap) (hworld : u.world = t.world)
    (hdepth : u.context.depth = t.context.depth + 1) (level : Nat)
    : t.heap.Keeps u.heap ∧ (u.heap.members d.receiver).get? name = none ∧
        u.heap.member? (d.super cls) name = some (.func ref) ∧
        Dispatch.Relays ⟨level, ref, d.super cls, [], u.calling (d.super cls) ref⟩ origin first name next rest := by
  have hsame : t.heap.Keeps u.heap := by
    rw [hheap]
    exact .refl _
  have hu := (h.keeps.trans hopened.keeps).trans hsame
  have hown : (u.heap.members d.receiver).get? name = none := by
    unfold Heap.members Heap.inst
    rw [hheap, hopened.instances]
    exact h.own
  have hisSuper := hopened.isSuper.extends hsame.types
  have hmember := (hisSuper.member?_eq hfirst h.defined hu.types h.chain.declares.isClass.1 hname).trans
    ((h.chain.keeps hu).superMember?_eq hown)
  refine ⟨hsame, hown, hmember, ?_⟩
  cases h.chain with
  | derived _ hbases hrest =>
    exact {
      defined := h.defined
      keeps := hu.trans (u.calling_keeps (d.super cls) ref)
      chain := hrest
      hands := h.hands.2
      inst := (h.inst.base hbases).congr rfl
      own := hown
      depth := by
        have hlimit := h.depth
        rw [List.length_cons] at hlimit
        show u.context.depth + rest.length < u.world.settings.maxDepth
        rw [hdepth, hworld, hopened.context, hopened.world]
        omega }

/-- Methods that hand on ask `super` once each, however many there are. -/
theorem Dispatch.Relays.asks (h : d.Relays origin first name cls rest) (hname : name ≠ "__init__") {j : Nat}
    (hlevel : d.level = 3 * rest.length + 3 + j) (methods : List ClosureRef)
    : host.Asks name methods ((cls, d.method) :: rest) d ∧
        ∃ v w, d.run (host.machine d.level) = .ok v w ∧ w.context = d.state.context := by
  -- By induction on the chain, for how a method ends depends on how the next one does.
  induction rest generalizing d cls with
  | nil =>
    rcases h.opened hfirst with ⟨scope, t, hopened⟩
    have hlevel : d.level = (j + 2) + 1 := by
      rw [hlevel, List.length_nil]
      omega
    rcases hopened.opens.doesNothing (h.hands.keeps h.chain h.keeps) hlevel with ⟨hnever, w, hrun, hw⟩
    exact ⟨.root h.allowed (hnever methods), _, w, hrun, hw.trans hopened.context⟩
  | cons link rest ih =>
    rcases link with ⟨next, ref⟩
    let k := 3 * rest.length + 2 + j
    have hlevel : d.level = k + 4 := by
      rw [hlevel, List.length_cons]
      omega
    rcases h.opened hfirst with ⟨scope, t, hopened⟩
    have hhands := h.hands.keeps h.chain h.keeps
    rcases hopened.opens.handsOn hhands.1 hlevel hopened.super with ⟨u, hheap, hworld, hdepth, hview, hends⟩
    rcases h.next hfirst hname hopened hheap hworld hdepth (k + 1) with ⟨hkeeps, hown, hmember, hrest⟩
    let d' : Dispatch := ⟨k + 1, ref, d.super cls, [], u.calling (d.super cls) ref⟩
    rcases ih hrest (show k + 1 = _ by omega) with ⟨hasks, v, w, hrun, hw⟩
    have heval : (host.machine (k + 3)).eval (.superCall name) u = u.letGo (d'.answer host.calls) := by
      rw [← handed_calls host [ref]]
      exact Host.handed_superCall host.calls k (List.mem_singleton_self ref) hview hmember
    have hanswer : d'.answer host.calls = .ok v { w with held := d'.state.held } :=
      congrArg d'.state.letGo hrun
    rw [hanswer] at heval
    rcases hends v _ heval hw with ⟨honce, w', hrun', hw'⟩
    exact ⟨.derived h.allowed (honce methods) hopened.filled hkeeps hown hasks, v, w', hrun',
      hw'.trans hopened.context⟩

end Relays

namespace Heap

variable {first : Int} {h : Heap} {name : String} {chain : Lineage}

/-- The classes of a chain come before those that derive from them, and each has a method of its own. -/
theorem Chain.nodup (hchain : h.Chain first name chain) (ht : h.types.Layered)
    : (chain.map Prod.snd).Nodup ∧
        ∀ link ∈ chain, (h.closure link.2).owner = some link.1 ∧
          ∀ head ∈ chain.head?, link.1.index ≤ head.1.index := by
  induction hchain with
  | root hdeclares =>
    refine ⟨List.nodup_cons.mpr ⟨List.not_mem_nil, List.nodup_nil⟩, ?_⟩
    intro link hlink
    rw [List.mem_singleton.mp hlink]
    refine ⟨hdeclares.owner, ?_⟩
    rintro head ⟨⟩
    exact Nat.le_refl _
  | @derived cls next ref ref' rest hdeclares hbases _ ih =>
    rcases ih with ⟨hnodup, hlinks⟩
    have hlt : next.index < cls.index := by
      apply ht
      rw [hbases]
      exact List.mem_singleton_self next
    have hbelow (link : TypeRef × ClosureRef) (hlink : link ∈ (next, ref') :: rest)
        : link.1.index < cls.index :=
      Nat.lt_of_le_of_lt ((hlinks link hlink).2 _ rfl) hlt
    constructor
    . rw [List.map_cons, List.nodup_cons]
      refine ⟨?_, hnodup⟩
      intro hmem
      rcases List.mem_map.mp hmem with ⟨link, hlink, heq⟩
      have howner := (hlinks link hlink).1
      rw [heq, hdeclares.owner] at howner
      injection howner with howner
      have hindex := hbelow link hlink
      rw [← howner] at hindex
      exact Nat.lt_irrefl _ hindex
    . intro link hlink
      rcases List.mem_cons.mp hlink with heq | hlink
      . rw [heq]
        refine ⟨hdeclares.owner, ?_⟩
        rintro head ⟨⟩
        exact Nat.le_refl _
      . refine ⟨(hlinks link hlink).1, ?_⟩
        rintro head ⟨⟩
        exact Nat.le_of_lt (hbelow link hlink)

end Heap

/-- An instance of the most derived class of a chain, without a member of the name of the methods. -/
structure Heap.IsHeir (h : Heap) (first : Int) (name : String) (handle : Handle) (links : Lineage)
    : Prop where
  defined : h.types.Defined first
  chain : h.Chain first name links
  holds : h.Holds handle
  real : handle.view = none
  type : ∀ link ∈ links.head?, (h.inst handle).type = link.1
  own : (h.members handle).get? name = none

/-- What `super` gives, and what calls by way of it do. -/
structure Host.SuperLaw (host : Host) (first : Int) : Prop where
  /--
  In a method of a class that is in use, `super` is a view of the object. As long as it is, `super.name` is
  the object's own member, or else the first one in the bases of the class, bound to the view if it is of a
  kind that can be called.
  -/
  resolved {closure : Closure} {owner : TypeRef} {handle : Handle} {args : List Value} {s : State}
      (hdefined : s.heap.types.Defined first) (hcls : s.heap.types.IsClass first owner)
      (hown : closure.owner = some owner)
      (hused : Run.ownerInUse closure owner handle args (s.opened closure) = .ok true (s.opened closure))
      (hparam : "super" ∉ closure.code.params)
    : ∃ (view : Handle) (scope : ScopeRef) (t : State),
        Run.callScope closure (.object handle) args s = .ok scope t ∧ view.realThis = handle.realThis ∧
        t.heap.scopes.lookup? scope "super" = some (.object view) ∧
        ∀ (u : State) (name : String) (member : Value) (k : Nat), t.heap.types.Extends u.heap.types →
          u.super? = some view → name ≠ "__init__" → u.heap.superMember? handle owner name = some member →
            (host.machine (k + 2)).eval (.member (.ident "super") name) u =
              if member.isCallableKind then
                .ok (.bound u.heap.nextTag (.object view) member) (u.withTag (u.heap.nextTag + 1))
              else
                .ok member u
  /-- Whatever is evaluated, the classes and functions that there are stay as they are, -/
  kept (hhost : host.Carries Heap.Keeps) (n : Nat) : (host.machine n).Carries Heap.Keeps
  /-- also up to where a call asks `super`. -/
  keptMeanwhile {name : String} {methods : List ClosureRef} {d : Dispatch} {view : Handle} {level : Nat}
      {scope : ScopeRef} {t u : State} (hhost : host.Tracks Heap.Keeps (·.Keeps u.heap)) (hallowed : d.Allowed)
      (hscope : Run.callScope d.closure (.object d.receiver) d.args d.state = .ok scope t)
      (honce : host.AsksOnce name methods d view level u)
    : t.heap.Keeps u.heap
  /-- The machines that get answers do what they do anyway if they get the answers that functions give. -/
  transparent (methods : List ClosureRef) (n : Nat) : host.handed methods host.calls n = host.machine n
  /-- A call on an instance of the most derived class runs all methods of the chain, each once. -/
  climbs {name : String} {cls : TypeRef} {ref : ClosureRef} {rest : Lineage} {receiver : Expr}
      {handle : Handle} {k : Nat} {s t : State} (hname : name ≠ "__init__")
      (hreceiver : (host.machine (k + 1)).eval receiver s = .ok (.object handle) t)
      (hheir : t.heap.IsHeir first name handle ((cls, ref) :: rest))
      (hasks : host.Asks name (ref :: rest.map Prod.snd) ((cls, ref) :: rest)
        ⟨k + 1, ref, handle, [], t.calling handle ref⟩)
    : let d : Dispatch := ⟨k + 1, ref, handle, [], t.calling handle ref⟩
      let methods := ref :: rest.map Prod.snd
      (host.machine (k + 3)).eval (.ask receiver name) s = s.letGo (d.answer host.calls) ∧
        host.Climbs methods handle.realThis methods d ∧ methods.Nodup
  /-- Where the methods do nothing but call the next one, the limit on active calls alone decides. -/
  relayed {name : String} {cls : TypeRef} {ref : ClosureRef} {rest : Lineage} {receiver : Expr}
      {handle : Handle} {j : Nat} {s t : State} (hname : name ≠ "__init__")
      (hreceiver : (host.machine (3 * rest.length + 3 + j)).eval receiver s = .ok (.object handle) t)
      (hheir : t.heap.IsHeir first name handle ((cls, ref) :: rest))
      (hhands : t.heap.HandsOn name ((cls, ref) :: rest))
      (hdepth : t.context.depth + rest.length < t.world.settings.maxDepth)
    : let d : Dispatch := ⟨3 * rest.length + 3 + j, ref, handle, [], t.calling handle ref⟩
      let methods := ref :: rest.map Prod.snd
      (∃ v w, (host.machine (3 * rest.length + 5 + j)).eval (.ask receiver name) s = .ok v w ∧
        w.context = t.context) ∧ host.Climbs methods handle.realThis methods d

theorem eval_held {host : Host} {n : Nat} {e : Expr} {value : Value} {s t : State}
    (h : (host.machine (n + 1)).eval e s = .ok value t)
    : t.held = s.held := by
  have heval : s.letGo ((host.machine n).evalExpr e s) = .ok value t := by
    rw [← lettingGo_apply, ← above_eval host n]
    exact h
  cases hvalue : (host.machine n).evalExpr e s with
  | ok v u =>
    rw [hvalue] at heval
    injection heval with _ ht
    rw [← ht]
  | error halt u =>
    rw [hvalue] at heval
    injection heval

section Heirs

variable {host : Host} {first : Int} {name : String} {cls : TypeRef} {ref : ClosureRef} {rest : Lineage}
variable {receiver : Expr} {handle : Handle} {k : Nat} {s t : State} (hfirst : 13 ≤ first)
include hfirst

omit hfirst in
theorem Heap.IsHeir.instantiates (hheir : t.heap.IsHeir first name handle ((cls, ref) :: rest))
    : t.heap.Instantiates handle cls := by
  refine ⟨hheir.holds, ?_⟩
  rw [show (t.heap.inst handle).type = cls from hheir.type _ rfl]
  exact .refl

omit hfirst in
theorem Heap.IsHeir.eval_ask (hheir : t.heap.IsHeir first name handle ((cls, ref) :: rest))
    (hreceiver : (host.machine (k + 1)).eval receiver s = .ok (.object handle) t)
    : (host.machine (k + 3)).eval (.ask receiver name) s =
        s.letGo (Dispatch.answer ⟨k + 1, ref, handle, [], t.calling handle ref⟩ host.calls) := by
  have htype : t.heap.objectType handle = cls := by
    unfold Heap.objectType
    rw [hheir.real]
    exact hheir.type _ rfl
  have hmember : t.heap.member? handle name = some (.func ref) := by
    unfold Heap.member?
    rw [hheir.own, htype]
    exact hheir.chain.declares.findMember?_eq
  have hheld := eval_held hreceiver
  rw [← handed_calls host [ref]] at hreceiver ⊢
  have hcall := Machine.eval_ask (handed_eval host [ref] host.calls (k + 1))
    (handed_eval host [ref] host.calls (k + 2)) hreceiver hheld hmember
  rw [hcall, handed_invoke (n := k + 1) [] rfl (List.mem_singleton_self ref), lettingGo_apply]
  rfl

omit hfirst in
theorem Heap.IsHeir.relays (hheir : t.heap.IsHeir first name handle ((cls, ref) :: rest))
    (hhands : t.heap.HandsOn name ((cls, ref) :: rest))
    (hdepth : t.context.depth + rest.length < t.world.settings.maxDepth) (level : Nat)
    : Dispatch.Relays ⟨level, ref, handle, [], t.calling handle ref⟩ t.heap first name cls rest where
  defined := hheir.defined
  keeps := t.calling_keeps handle ref
  chain := hheir.chain
  hands := hhands
  inst := hheir.instantiates
  own := hheir.own
  depth := hdepth

theorem Heap.IsHeir.climbs {level : Nat} (hheir : t.heap.IsHeir first name handle ((cls, ref) :: rest))
    (hname : name ≠ "__init__")
    (hasks : host.Asks name (ref :: rest.map Prod.snd) ((cls, ref) :: rest)
      ⟨level, ref, handle, [], t.calling handle ref⟩)
    : host.Climbs (ref :: rest.map Prod.snd) handle.realThis (ref :: rest.map Prod.snd)
        ⟨level, ref, handle, [], t.calling handle ref⟩ := by
  apply hasks.climbs hfirst hname _ hheir.defined (t.calling_keeps handle ref) hheir.chain
  . rintro link ⟨⟩
    exact hheir.instantiates
  . intro link hlink
    exact List.mem_map_of_mem hlink

end Heirs

/--
`super` goes to the bases of the class that a method was declared in, whatever the class of the object is. So
in a chain of classes whose methods call `super` once each, every method runs once, from the most derived
class to the root, with the instance as `this`.
-/
theorem super_resolves_from_the_class (host : Host) {first : Int} (hfirst : 13 ≤ first)
    : host.SuperLaw first where
  resolved {closure owner handle args s} hdefined hcls hown hused hparam := by
    let opened := (s.opened closure).heap
    rcases Run.callScope_binds hown hused with ⟨scope, t, hscope, _, hsuper⟩
    rcases Run.callScope_tables hown hused hscope with ⟨_, _, hsame⟩
    have hview : t.heap.IsSuper (opened.superView handle owner).1 handle owner :=
      (Heap.superView_isSuper (h := opened) hfirst hcls handle).extends (Heap.Keeps.ofSame hsame).types
    have hkeeps := Run.callScope_keeps hscope
    refine ⟨(opened.superView handle owner).1, scope, t, hscope, rfl, hsuper hparam, ?_⟩
    intro u name member k hextends hasked hname hmember
    have hu := hkeeps.types.trans hextends
    rw [← (hview.extends hextends).member?_eq hfirst hdefined hu hcls.1 hname] at hmember
    have hident := Machine.eval_ident (above_eval host k (host.machine k)) (State.lookup_of_super? hasked)
    have hread := Machine.eval_member (above_eval host (k + 1) (host.machine (k + 1))) hident rfl hmember
    split
    . next hkind => exact hread.1 hkind
    . next hkind => exact hread.2 (Bool.eq_false_iff.mpr hkind)
  kept hhost n := machine_carries (Heap.Keeps.track fun _ hnever => hnever) hhost n
  keptMeanwhile hhost hallowed hscope honce := honce.keeps hhost hallowed hscope
  transparent := handed_calls host
  climbs {name cls ref rest receiver handle k s t} hname hreceiver hheir hasks := by
    rcases hheir.defined.sound hfirst with ⟨n, hsound⟩
    have hnodup := (hheir.chain.nodup hsound.layered).1
    exact ⟨hheir.eval_ask hreceiver, hheir.climbs hfirst hname hasks, hnodup⟩
  relayed {name cls ref rest receiver handle j s t} hname hreceiver hheir hhands hdepth := by
    let k := 3 * rest.length + 2 + j
    have hlevel : 3 * rest.length + 3 + j = k + 1 := by omega
    have hlevel' : 3 * rest.length + 5 + j = k + 3 := by omega
    rcases (hheir.relays hhands hdepth (k + 1)).asks hfirst hname hlevel.symm (ref :: rest.map Prod.snd)
      with ⟨hasks, v, w, hrun, hw⟩
    rw [hlevel] at hreceiver
    rw [hlevel, hlevel']
    refine ⟨⟨v, { w with held := s.held }, ?_, hw⟩, hheir.climbs hfirst hname hasks⟩
    have hanswer : Dispatch.answer ⟨k + 1, ref, handle, [], t.calling handle ref⟩ host.calls =
        .ok v { w with held := (t.calling handle ref).held } :=
      congrArg (t.calling handle ref).letGo hrun
    rw [hheir.eval_ask hreceiver, hanswer]
    rfl

def Types.withMethod (t : Types) (name : String) (bases : List TypeRef) (member : String)
    (method : ClosureRef) : Types :=
  (t.newClass name bases).2.setMember (t.newClass name bases).1 member (.func method)

theorem Types.Defined.withMethod {first : Int} {t : Types} {name member : String} {bases : List TypeRef}
    {method : ClosureRef} (h : t.Defined first) (hbases : ∀ base ∈ bases, t.Has base)
    (hview : (t.newClass name bases).2.isSuperView (t.newClass name bases).1 = false)
    : (t.withMethod name bases member method).Defined first := by
  apply Relation.ReflTransGen.tail (Relation.ReflTransGen.tail h (.newClass hbases))
  exact .setMember (((newClass_made t name bases).has _).mpr (.inl rfl)) hview

def threeClasses : State :=
  let method (owner : TypeRef) (body : List Stmt) : Closure := ⟨.mk none [] false body, ⟨0⟩, some owner⟩
  let s := Engine.bareState {} .silent 100000
  { s with
    heap :=
      { s.heap with
        types :=
          let t := s.heap.types.withMethod "A" [] "n" ⟨0⟩
          let t := t.withMethod "B" [⟨13⟩] "n" ⟨1⟩
          t.withMethod "C" [⟨14⟩] "n" ⟨2⟩
        closures := #[method ⟨13⟩ [], method ⟨14⟩ [.handOn "n"], method ⟨15⟩ [.handOn "n"]]
        instances := #[⟨⟨15⟩, .empty, none⟩]
        scopes := s.heap.scopes.force ⟨0⟩ "c" (.object (.ofInstance ⟨0⟩)) } }

theorem threeClasses_defined : threeClasses.heap.types.Defined 100000 := by
  apply Types.Defined.withMethod
  . apply Types.Defined.withMethod
    . apply Types.Defined.withMethod
      . exact .refl
      . decide
      . decide
    . decide
    . decide
  . decide
  . decide

theorem threeClasses_chain : threeClasses.heap.Chain 100000 "n" [(⟨15⟩, ⟨2⟩), (⟨14⟩, ⟨1⟩), (⟨13⟩, ⟨0⟩)] := by
  apply Heap.Chain.derived
  . exact ⟨⟨by decide, by decide⟩, rfl, by decide, rfl, by decide⟩
  . rfl
  . apply Heap.Chain.derived
    . exact ⟨⟨by decide, by decide⟩, rfl, by decide, rfl, by decide⟩
    . rfl
    . apply Heap.Chain.root
      exact ⟨⟨by decide, by decide⟩, rfl, by decide, rfl, by decide⟩

theorem three_methods_climb
    : let host := Host.none
      let s := threeClasses
      let c := Handle.ofInstance ⟨0⟩
      let d : Dispatch := ⟨9, ⟨2⟩, c, [], s.calling c ⟨2⟩⟩
      let inB := s.heap.closure ⟨1⟩
      (13 : Int) ≤ 100000 ∧
        (∃ v w, (host.machine 11).eval (.ask (.ident "c") "n") s = .ok v w ∧ w.context = s.context) ∧
        host.Climbs [⟨2⟩, ⟨1⟩, ⟨0⟩] c [⟨2⟩, ⟨1⟩, ⟨0⟩] d ∧
        (host.machine 11).Carries Heap.Keeps ∧
        (∃ view level scope t u, Run.callScope d.closure (.object c) [] d.state = .ok scope t ∧
          host.AsksOnce "n" [⟨2⟩, ⟨1⟩, ⟨0⟩] d view level u ∧ t.heap.Keeps u.heap) ∧
        ∃ (view : Handle) (scope : ScopeRef) (t : State),
          Run.callScope inB (.object c) [] s = .ok scope t ∧ view.realThis = c ∧
          let u := t.enter (.function "n") scope
          (host.machine 2).eval (.member (.ident "super") "n") u =
            .ok (.bound u.heap.nextTag (.object view) (.func ⟨0⟩)) (u.withTag (u.heap.nextTag + 1)) := by
  intro host s c d inB
  have hlaw := super_resolves_from_the_class host (by decide : (13 : Int) ≤ 100000)
  let bases : Lineage := [(⟨14⟩, ⟨1⟩), (⟨13⟩, ⟨0⟩)]
  have hreceiver : (host.machine (3 * bases.length + 3 + 0)).eval (.ident "c") s = .ok (.object c) s :=
    Machine.eval_ident (above_eval host 8 (host.machine 8)) rfl
  have hheir : s.heap.IsHeir 100000 "n" c ((⟨15⟩, ⟨2⟩) :: bases) := {
    defined := threeClasses_defined
    chain := threeClasses_chain
    holds := by decide
    real := rfl
    type := by
      rintro link ⟨⟩
      rfl
    own := rfl }
  have hrelayed := hlaw.relayed (by decide) hreceiver hheir ⟨rfl, rfl, rfl⟩ (by decide)
  have hkept : (host.machine 11).Carries Heap.Keeps :=
    have hR : Heap.Track Heap.Keeps fun _ => False := Heap.Keeps.track fun _ hnever => hnever
    hlaw.kept ((none_tracks hR).carries hR) 11
  have hrelays := hheir.relays ⟨rfl, rfl, rfl⟩ (by decide) 9
  have hasks : host.Asks "n" [⟨2⟩, ⟨1⟩, ⟨0⟩] ((⟨15⟩, ⟨2⟩) :: bases) d :=
    (hrelays.asks (j := 0) (by decide) (by decide) rfl [⟨2⟩, ⟨1⟩, ⟨0⟩]).1
  refine ⟨by decide, hrelayed.1, hrelayed.2, hkept, ?_, ?_⟩
  . rcases hasks.once with ⟨k, u, scope, t, honce, hscope⟩
    have hmet := hlaw.keptMeanwhile (none_tracks (Heap.Keeps.track .trans)) hrelays.allowed hscope honce
    exact ⟨d.super ⟨15⟩, k + 2, scope, t, u, hscope, honce, hmet⟩
  have hinB : s.heap.Chain 100000 "n" [(⟨14⟩, ⟨1⟩), (⟨13⟩, ⟨0⟩)] := by
    cases threeClasses_chain with
    | derived _ _ hrest => exact hrest
  have hused : Run.ownerInUse inB ⟨14⟩ c [] (s.opened inB) = .ok true (s.opened inB) :=
    Run.ownerInUse_of_isSubOf (by decide)
  rcases hlaw.resolved threeClasses_defined hinB.declares.isClass rfl hused hinB.declares.params.2
    with ⟨view, scope, t, hscope, hreal, hlookup, hread⟩
  rcases Run.callScope_tables rfl hused hscope with ⟨_, _, hsame⟩
  have hown : (t.heap.members c).get? "n" = none := by
    unfold Heap.members Heap.inst
    rw [hsame.instances, Heap.superView_instances]
    rfl
  have hmember : t.heap.superMember? c ⟨14⟩ "n" = some (.func ⟨0⟩) :=
    (hinB.keeps (Run.callScope_keeps hscope)).superMember?_eq hown
  have hview : (t.enter (.function "n") scope).super? = some view := by
    show (t.heap.scopes.lookup? scope "super").bind Value.object? = some view
    rw [hlookup]
    rfl
  exact ⟨view, scope, t, hscope, hreal, hread _ "n" (.func ⟨0⟩) 0 (.refl _) hview (by decide) hmember⟩

/--
A parameter hides `super`, and so does an outer name for a method whose class is no longer in use. A member
that is an object does not come bound, whether it can be called or not. A method that writes the member itself
does not get to the method of the base, and one that calls it in two ways runs it twice.
-/
theorem super_is_hidden
    : let m := Host.none.machine 30
      let s := Engine.bareState {} .silent 100000
      let member (name : String) (value : Expr) := MemberDef.mk (.str name) value
      let cls (name : String) (bases : List Expr) (members : List MemberDef) :=
        Stmt.ofKind (.cls (.mk name false bases members []))
      let new (name : String) := Expr.new (.ident name) []
      let body (stmts : List Stmt) := Expr.func (.mk none [] false stmts)
      let readX := Expr.method ["super"] (.member (.ident "super") "x")
      let shadowed := [
        cls "B" [] [member "x" (.int 1)],
        cls "C" [.ident "B"] [member "go" readX],
        cls "D" [] [member "x" (.int 5)],
        Stmt.expr (.call (.mk (.member (new "C") "go") [.positional (new "D")] false))]
      let outlived := [
        cls "B" [] [member "x" (.int 1)],
        cls "D" [] [member "x" (.int 5)],
        Stmt.var "super" (new "D"),
        Stmt.funcDecl "make" [] [
          Stmt.ofKind (.cls (.mk "T" false [.ident "B"] []
            [member "f" (.method [] (.member (.ident "super") "x"))])),
          Stmt.var "f" (.member (.ident "T") "f"),
          Stmt.assign (.ident "T") .nil,
          Stmt.ofKind (.ret (some (.ident "f")))],
        Stmt.var "d" (new "D"),
        Stmt.assign (.member (.ident "d") "f") (.call (.mk (.ident "make") [] false)),
        Stmt.expr (.ask (.ident "d") "f")]
      let unbound := [
        cls "K" [] [member "__call__" (body []), member "x" (.int 3)],
        cls "B" [] [member "n" (new "K")],
        cls "C" [.ident "B"] [member "go" (.method [] (.member (.member (.ident "super") "n") "x"))],
        Stmt.expr (.ask (new "C") "go")]
      let counting (stmts : List Stmt) := [
        Stmt.var "runs" (.int 0),
        cls "A" [] [member "n" (body [Stmt.assign (.ident "runs") (.binary .add (.ident "runs") (.int 1))])],
        cls "B" [.ident "A"] [member "n" (body (stmts ++ [Stmt.expr (.superCall "n")]))],
        Stmt.expr (.ask (new "B") "n"),
        Stmt.expr (.ident "runs")]
      (m.evalBlock shadowed).int? s = some 5 ∧ (m.evalBlock outlived).int? s = some 5 ∧
        (m.evalBlock unbound).int? s = some 3 ∧
        (m.evalBlock (counting [Stmt.assign (.member (.ident "this") "n") (body [])])).int? s = some 0 ∧
        (m.evalBlock (counting [Stmt.expr (.ask (new "A") "n")])).int? s = some 2 := by
  decide +kernel

end ScriptEngine
