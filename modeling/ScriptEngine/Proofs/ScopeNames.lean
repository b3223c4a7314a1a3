import ScriptEngine.Engine.Basic
import ScriptEngine.Proofs.Interleaving

/-!
This module contains which names evaluations bind. An expression or a statement may define names in
the current scope; apart from that, a scope that was there before gets no new name and loses none,
since everything else is bound in scopes that are made for it. Other threads define names in scopes of
theirs meanwhile, and nowhere else, for the same reason.
-/

namespace ScriptEngine

namespace Scopes

variable {t t' : Scopes}

/--
The scopes that are there bind the same names afterwards, with whatever values, apart from names that are bound from
elsewhere. These may be new, but no name is lost.
-/
def SameNames (foreign : ScopeRef → String → Prop) (t t' : Scopes) : Prop :=
  ∀ ref, t.Has ref → ∀ name,
    ((t.own? ref name).isSome → (t'.own? ref name).isSome) ∧
    (¬foreign ref name → (t'.own? ref name).isSome = (t.own? ref name).isSome)

/-- Nothing is bound from elsewhere. -/
def noNames : ScopeRef → String → Prop := fun _ _ => False

theorem bound_of_resolve? {ref target : ScopeRef} {name : String} (h : t.resolve? ref name = some target)
    : (t.own? target name).isSome := by
  have hgo (fuel : Nat) (ref : ScopeRef) (h : resolve?.go t name fuel ref = some target)
      : (t.own? target name).isSome := by
    induction fuel generalizing ref with
    | zero => cases h
    | succ fuel ih =>
      unfold resolve?.go at h
      split at h
      . next hown =>
        injection h with h
        rw [← h]
        exact hown
      . split at h
        . exact ih _ h
        . cases h
  unfold resolve? at h
  split at h
  . cases h
  . exact hgo _ ref h

theorem sameNames_assign {ref : ScopeRef} {name : String} {value : Value} (h : t.assign ref name value = .ok t')
    (other : ScopeRef) (n : String)
    : (t'.own? other n).isSome = (t.own? other n).isSome := by
  by_cases hname : name = placeholder
  . rw [hname, assign_placeholder] at h
    injection h with h
    rw [h]
  . rw [assign_eq hname] at h
    split at h
    . next target htarget =>
      -- The binding that is written is there.
      injection h with h
      rw [← h]
      exact isSome_own?_put (bound_of_resolve? htarget) other n
    . cases h

theorem has_assign {ref : ScopeRef} {name : String} {value : Value} (h : t.assign ref name value = .ok t')
    (other : ScopeRef)
    : t'.Has other ↔ t.Has other := by
  by_cases hname : name = placeholder
  . rw [hname, assign_placeholder] at h
    injection h with h
    rw [h]
  . rw [assign_eq hname] at h
    split at h
    . injection h with h
      rw [← h]
      exact has_put
    . cases h

theorem isSome_own?_force {ref other : ScopeRef} {n : String} (h : (t.own? other n).isSome) (name : String)
    (value : Value)
    : ((t.force ref name value).own? other n).isSome := by
  unfold force
  split
  . exact h
  . rw [own?_put]
    split
    . rfl
    . exact h

theorem own?_force_of_not {ref other : ScopeRef} {name n : String} (h : ¬(other = ref ∧ n = name)) (value : Value)
    : (t.force ref name value).own? other n = t.own? other n := by
  unfold force
  split
  . rfl
  . rw [own?_put, if_neg]
    intro heq
    exact h ⟨heq.1, heq.2.1⟩

end Scopes

namespace Stack

theorem scope_eq_of_outline {s t : Stack} (h : t.outline = s.outline) : t.top.scope = s.top.scope := by
  injection h with h _
  injection h

end Stack

/--
Nothing is bound in the scopes that were there before, except that names may be defined in the
current one above the level of calls, and elsewhere by others.
-/
structure State.NamesKept (foreign : ScopeRef → String → Prop) (l : Level) (s : State) (o : Outcome) (t : State) :
    Prop where
  globals : t.world.globals = s.world.globals
  has {ref : ScopeRef} (h : s.heap.scopes.Has ref) : t.heap.scopes.Has ref
  bound {ref : ScopeRef} (h : s.heap.scopes.Has ref) {name : String} (hbound : (s.heap.scopes.own? ref name).isSome)
    : (t.heap.scopes.own? ref name).isSome
  names {ref : ScopeRef} (h : s.heap.scopes.Has ref) (hcurrent : l ≠ .call → ref ≠ s.scope) {name : String}
      (hforeign : ¬foreign ref name)
    : (t.heap.scopes.own? ref name).isSome = (s.heap.scopes.own? ref name).isSome
  outline (ho : o ≠ .died) : t.context.stack.outline = s.context.stack.outline

namespace State.NamesKept

variable {foreign : ScopeRef → String → Prop} {l : Level} {s t u : State} {o o' : Outcome}

theorem ofCalm (h : s.Calm t) : NamesKept foreign l s o t where
  globals := h.globals
  has href := by
    rw [h.scopes]
    exact href
  bound _ _ hbound := by
    rw [h.scopes]
    exact hbound
  names _ _ _ _ := by rw [h.scopes]
  outline _ := h.outline

theorem trans (h : NamesKept foreign l s o t) (ho : o ≠ .died) (h' : NamesKept foreign l t o' u)
    : NamesKept foreign l s o' u where
  globals := h'.globals.trans h.globals
  has href := h'.has (h.has href)
  bound href _ hbound := h'.bound (h.has href) (h.bound href hbound)
  names href hcurrent name hforeign := by
    -- The current scope stays the same, so what may be defined does, too.
    have hscope : t.scope = s.scope := Stack.scope_eq_of_outline (h.outline ho)
    rw [h'.names (h.has href) (by rwa [hscope]) hforeign, h.names href hcurrent hforeign]
  outline ho' := (h'.outline ho').trans (h.outline ho)

theorem outcome (h : NamesKept foreign l s o t) (ho : o ≠ .died) : NamesKept foreign l s o' t :=
  ⟨h.globals, h.has, h.bound, h.names, fun _ => h.outline ho⟩

theorem sameNames (h : NamesKept foreign .call s o t) : s.heap.scopes.SameNames foreign t.heap.scopes :=
  fun _ href _ => ⟨h.bound href, h.names href nofun⟩

/-- What happens in a scope that was opened, seen from outside. -/
theorem opened {heap : Heap} {context : Context} {held : List Held}
    (hopened : s.heap.scopes.Opened heap.scopes context.stack.top.scope)
    (h : NamesKept foreign l { s with heap := heap, context := context, held := held } o t) {t' : State}
    (hheap : t'.heap = t.heap) (hworld : t'.world = t.world)
    (houtline : o ≠ .died → t'.context.stack.outline = s.context.stack.outline)
    : NamesKept foreign .call s o t' := by
  have hown {ref : ScopeRef} (href : s.heap.scopes.Has ref) (name : String)
      : heap.scopes.own? ref name = s.heap.scopes.own? ref name :=
    hopened.own href name
  constructor
  case globals =>
    rw [hworld]
    exact h.globals
  case has =>
    intro ref href
    rw [hheap]
    exact h.has (hopened.has href)
  case bound =>
    intro ref href name hbound
    rw [hheap]
    rw [← hown href] at hbound
    exact h.bound (hopened.has href) hbound
  case names =>
    intro ref href _ name hforeign
    -- Names are defined in the scope that was opened, which is none of those from before.
    have hne : ref ≠ context.stack.top.scope := by
      intro heq
      rw [heq] at href
      exact hopened.fresh href
    rw [hheap, h.names (hopened.has href) (fun _ => hne) hforeign]
    exact congrArg Option.isSome (hown href name)
  case outline => exact houtline

end State.NamesKept

theorem namesKept_conduct (foreign : ScopeRef → String → Prop) : Conduct (State.NamesKept foreign) where
  calm h := .ofCalm h
  calmed {l s t u o} h h' :=
    ⟨h'.globals.trans h.globals, fun href => by rw [h'.scopes]; exact h.has href,
      fun href name hbound => by rw [h'.scopes]; exact h.bound href hbound,
      fun href hcurrent name hforeign => by rw [h'.scopes]; exact h.names href hcurrent hforeign,
      fun ho => h'.outline.trans (h.outline ho)⟩
  trans h h' := h.trans nofun h'
  later h h' := (h.trans nofun h').outcome nofun
  handled h := h.outcome nofun
  ofCall h := ⟨h.globals, h.has, h.bound, fun href _ => h.names href nofun, h.outline⟩
  ofExpr hl h := ⟨h.globals, h.has, h.bound, fun href hcurrent => h.names href fun _ => hcurrent hl, h.outline⟩
  raise _ := .ofCalm ⟨rfl, rfl, rfl, rfl⟩
  located h := h.outcome nofun
  force s name value := by
    refine ⟨rfl, Scopes.has_force.mpr, ?_, ?_, fun _ => rfl⟩
    . intro ref _ n hbound
      exact Scopes.isSome_own?_force hbound name value
    . intro ref _ hcurrent n _
      exact congrArg Option.isSome (Scopes.own?_force_of_not (fun heq => hcurrent nofun heq.1) value)
  assign h := by
    refine ⟨rfl, (Scopes.has_assign h _).mpr, ?_, ?_, fun _ => rfl⟩
    . intro ref _ n hbound
      exact (Scopes.sameNames_assign h ref n).trans hbound
    . intro ref _ _ n _
      exact Scopes.sameNames_assign h ref n
  frame {_ s _ _ _ _ _} hopened h _ :=
    State.NamesKept.opened (s := s) hopened h rfl rfl fun ho => Stack.outline_pop (h.outline ho)
  broken {_ s _ _ _ _} hopened h := State.NamesKept.opened (s := s) hopened h rfl rfl fun ho => absurd rfl ho
  fork {_ s _ _ _ _ _} hforks h := by
    rcases hforks with ⟨scope, position, exports, rfl, hopened, _⟩
    exact State.NamesKept.opened (s := s) hopened h rfl rfl fun _ => rfl
  alone h := ⟨h.globals, h.has, h.bound, h.names, fun _ => rfl⟩

/-- The functions and the importer of a host bind no names in the scopes that are there, whatever others bind. -/
def Host.KeepsNames (host : Host) : Prop := ∀ foreign, host.Conducts (State.NamesKept foreign)

/-- Other threads bind names nowhere else in the scopes that are there. -/
def Others.BindOnly (others : Others) (foreign : ScopeRef → String → Prop) : Prop :=
  others.Conducts (State.NamesKept foreign)

theorem none_bindOnly (foreign : ScopeRef → String → Prop) : Others.none.BindOnly foreign where
  step _ := .ofCalm ⟨rfl, rfl, rfl, rfl⟩
  stop _ := .ofCalm ⟨rfl, rfl, rfl, rfl⟩
  spawn hm := hm.spawn

theorem among_keepsNames {host : Host} (hnames : host.KeepsNames) {others : Others}
    {foreign : ScopeRef → String → Prop} (hothers : others.BindOnly foreign) (n : Nat)
    : (host.among others n).Conducts (State.NamesKept foreign) := by
  apply machine_among_conducts (namesKept_conduct foreign) (hnames foreign) hothers
  intro s modules
  exact ⟨rfl, id, fun _ _ => id, fun _ _ _ _ => rfl, fun _ => rfl⟩

/-- Whether a statement runs as a whole in blocks of its own. -/
def StmtKind.isEnclosed : StmtKind → Bool
  | .block _ | .loop .. | .forEach .. | .attempt .. => true
  | _ => false

theorem execEnclosed_obeys {R : Level → State → Outcome → State → Prop} (hR : Conduct R) {m : Machine}
    (hm : m.Conducts R) (pos : Position) {kind : StmtKind} (h : kind.isEnclosed = true)
    : (m.execStmt (.mk pos kind)).Obeys (R .call) := by
  apply Run.Obeys.bind hR
  . apply Run.obeys_of_calm hR
    intro s
    exact ⟨(), s.withContext _, rfl, rfl, rfl, rfl, rfl⟩
  . intro
    apply Run.Obeys.locating hR
    cases kind with
    | block body => exact execBlock_obeys hR hm body
    | loop label start check next body =>
      exact withBlock_obeys hR hm (Parallel.obeysAlone hR hm (.startLoop label start check next body))
    | forEach label index value source body =>
      exact withBlock_obeys hR hm (Parallel.obeysAlone hR hm (.iterateEach label index value source body))
    | attempt body handler cleanup => exact execAttempt_obeys hR hm body handler cleanup
    | _ => cases h

theorem Engine.ends_run (m : Machine) (stmts : List Stmt) (s : State)
    : ∃ context heap, s.Forks context heap ∧ ∀ t, (Engine.run m stmts).Ends s t →
        ∃ u, (m.runModule stmts).Ends
            { s with heap := heap, context := context, held := .context s.context :: s.held } u ∧
          t = { u with context := s.context, held := s.held } := by
  rcases Run.newContext_apply .unknown s with ⟨context, heap, hforks, hnew⟩
  refine ⟨context, heap, hforks, ?_⟩
  intro t h
  rcases Run.ends_bind (h.congr (Run.bind_ok hnew)) with ⟨e, h⟩ | ⟨r, v, hr, h⟩
  . rw [Run.inContext_apply] at h
    split at h <;> cases h
  . rw [Run.inContext_apply] at hr
    split at hr
    . next result u hu =>
      injection hr with hr hv
      rw [← hr, ← hv] at h
      refine ⟨u, Run.ends_capture (.ok hu), ?_⟩
      cases result <;> exact Run.ends_pure h
    . next halt u hu =>
      injection hr with hr hv
      rw [← hr, ← hv] at h
      rcases h with ⟨_, h⟩ | ⟨e, h⟩
      . cases h
      . injection h with h _
        rw [h] at hu
        exact absurd hu (Run.capture_ne_raised _ _ _ _)

/--
What a machine does to the scopes that are there. Wherever it ends, also when it is stopped on the way, they bind the
names that they bound, apart from those that are bound from elsewhere.
-/
structure Machine.KeepsNames (m : Machine) (foreign : ScopeRef → String → Prop) (s : State) : Prop where
  called (callee this : Value) (args : List Value) (o : Outcome) (t : State)
      (h : (m.invoke callee this args).Gives s o t)
    : s.heap.scopes.SameNames foreign t.heap.scopes
  /-- Statements with blocks of their own. -/
  enclosed (pos : Position) (kind : StmtKind) (hkind : kind.isEnclosed = true) (o : Outcome) (t : State)
      (h : (m.exec (.mk pos kind)).Gives s o t)
    : s.heap.scopes.SameNames foreign t.heap.scopes
  /-- All other statements, which define names in the current scope. -/
  executed (stmt : Stmt) (o : Outcome) (t : State) (h : (m.exec stmt).Gives s o t)
    : s.heap.scopes.SameNames (fun ref name => ref = s.scope ∨ foreign ref name) t.heap.scopes
  /-- What a thread does to the scopes from before it began. -/
  spawned (callee : Value) (args : List Value) (o : Outcome) (t : State) (h : (m.runThread callee args).Gives s o t)
    : s.heap.scopes.SameNames foreign t.heap.scopes
  /-- The names that a module defines are in a scope that was not there. -/
  run (stmts : List Stmt)
    : ∃ context heap,
        ¬s.heap.scopes.Has context.stack.top.scope ∧
        heap.scopes.parent? context.stack.top.scope = some s.world.globals ∧
        ∀ t, (Engine.run m stmts).Ends s t →
          s.heap.scopes.SameNames foreign t.heap.scopes ∧ t.world.globals = s.world.globals ∧
          ∃ u, (m.runModule stmts).Ends
            { s with heap := heap, context := context, held := .context s.context :: s.held } u ∧
            t = { u with context := s.context, held := s.held }

theorem run_keepsNames {m : Machine} {foreign : ScopeRef → String → Prop}
    (hm : m.Conducts (State.NamesKept foreign)) (stmts : List Stmt) (s : State)
    : ∃ context heap,
        ¬s.heap.scopes.Has context.stack.top.scope ∧
        heap.scopes.parent? context.stack.top.scope = some s.world.globals ∧
        ∀ t, (Engine.run m stmts).Ends s t →
          s.heap.scopes.SameNames foreign t.heap.scopes ∧ t.world.globals = s.world.globals ∧
          ∃ u, (m.runModule stmts).Ends
            { s with heap := heap, context := context, held := .context s.context :: s.held } u ∧
            t = { u with context := s.context, held := s.held } := by
  rcases Engine.ends_run m stmts s with ⟨context, heap, hforks, hrun⟩
  have hmodule := runModule_obeys (namesKept_conduct foreign) hm stmts
  have hkept {u : State} {o : Outcome}
      (hu : (m.runModule stmts).Gives
        { s with heap := heap, context := context, held := .context s.context :: s.held } o u) :=
    (namesKept_conduct foreign).fork hforks (hmodule _ o u hu)
  rcases hforks with ⟨scope, position, exports, rfl, hopened, hparent⟩
  refine ⟨.new scope position exports, heap, hopened.fresh, hparent, ?_⟩
  intro t h
  rcases hrun t h with ⟨u, hu, rfl⟩
  rcases hu.gives with ⟨o, hgives⟩
  have hkept := hkept hgives
  exact ⟨hkept.sameNames, hkept.globals, u, hu, rfl⟩

theorem enclosed_obeys {R : Level → State → Outcome → State → Prop} (hR : Conduct R) {host : Host} {others : Others}
    (hothers : others.Conducts R) (hm : ∀ n, (host.among others n).Conducts R) (n : Nat) (pos : Position)
    {kind : StmtKind} (h : kind.isEnclosed = true)
    : ((host.among others n).exec (.mk pos kind)).Obeys (R .call) := by
  cases n with
  | zero => exact Run.exhausted_obeys
  | succ n =>
    apply hothers.around hR
    rw [above_exec]
    exact (execEnclosed_obeys hR (hm n) pos h).lettingGo hR

/-- The names that each scope binds, in the order in which the scopes were made. -/
def Scopes.listing (t : Scopes) : List (List String) := t.nodes.toList.map fun scope => scope.bindings.keys

def Run.listingAfter {α : Type} (x : Run α) (s : State) : Option (List (List String)) :=
  match x s with
  | .ok _ t => some t.heap.scopes.listing
  | .error _ _ => none

theorem Run.ends_of_listingAfter {α : Type} {x : Run α} {s : State} {listing : List (List String)}
    (h : x.listingAfter s = some listing)
    : ∃ t, x.Ends s t ∧ t.heap.scopes.listing = listing := by
  unfold listingAfter at h
  split at h
  . next t hx =>
    injection h with h
    exact ⟨t, .ok hx, h⟩
  . cases h

namespace Others

/-- Another thread, which defines a name in the scope of a call of its own. -/
def defining (scope : ScopeRef) (name : String) : Others where
  step s := s.withScopes (s.heap.scopes.force scope name .nil)
  stops _ := false
  spawn _ _ _ := pure (.ok .nil)

theorem defining_bindOnly (scope : ScopeRef) (name : String)
    : (defining scope name).BindOnly fun ref n => ref = scope ∧ n = name where
  step s := by
    refine ⟨rfl, Scopes.has_force.mpr, ?_, ?_, fun _ => rfl⟩
    . intro ref _ n hbound
      exact Scopes.isSome_own?_force hbound name .nil
    . intro ref _ _ n hforeign
      exact congrArg Option.isSome (Scopes.own?_force_of_not hforeign .nil)
  stop _ := .ofCalm ⟨rfl, rfl, rfl, rfl⟩
  spawn _ _ _ := Run.pure_obeys (namesKept_conduct _) _

end Others

end ScriptEngine
