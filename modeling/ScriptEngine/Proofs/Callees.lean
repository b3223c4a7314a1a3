import Mathlib.Logic.Relation
import ScriptEngine.Proofs.Contexts
import ScriptEngine.Proofs.Fatal
import ScriptEngine.Proofs.Views

/-!
This module contains what a call of a value comes to. A bound value leads to its callee and an object to its
`__call__`, which may be any value, so that the way ends in something that runs, ends in something that does
not, or does not end. A value counts as one that can be called as soon as there is a first step of this way.
-/

namespace ScriptEngine

open Relation

/-- A value that is called, with the receiver it is called with. -/
structure Callee where
  value : Value
  this : Value

/-- The values that a call runs: functions of the script, other functions and types. -/
def Value.runs : Value → Bool
  | .func _ | .native _ | .type _ => true
  | _ => false

namespace Heap

/-- One step on the way from a value that is called to what runs. A member that is an object is not bound. -/
inductive CallLink (h : Heap) : Callee → Callee → Prop where
  | bound (tag : Nat) (receiver callee this : Value)
    : CallLink h ⟨.bound tag receiver callee, this⟩ ⟨callee, receiver⟩
  | member {handle : Handle} {member : Value} (this : Value) (hmember : h.member? handle "__call__" = some member)
    : CallLink h ⟨.object handle, this⟩ ⟨member, if member.isCallableKind then .object handle else .undefined⟩

/-- Every step on the way from a value is followed by another one. -/
def Endless (h : Heap) (a : Callee) : Prop := ∀ b, ReflTransGen h.CallLink a b → ∃ c, h.CallLink b c

variable {h : Heap} {a b c : Callee}

theorem isCallable_object (handle : Handle)
    : h.isCallable (.object handle) = (h.member? handle "__call__").isSome := by
  unfold isCallable member?
  dsimp only
  rw [Members.contains_eq]
  cases (h.members handle).get? "__call__" <;> rfl

/-- A value can be called if it runs or if there is a first step. -/
theorem isCallable_iff (a : Callee)
    : h.isCallable a.value = true ↔ a.value.runs = true ∨ ∃ b, h.CallLink a b := by
  rcases a with ⟨value, this⟩
  dsimp only
  constructor
  case mp =>
    intro hcallable
    cases value with
    | func ref => exact .inl rfl
    | native ref => exact .inl rfl
    | type ref => exact .inl rfl
    | bound tag receiver callee => exact .inr ⟨_, .bound tag receiver callee this⟩
    | object handle =>
      rw [isCallable_object, Option.isSome_iff_exists] at hcallable
      rcases hcallable with ⟨member, hmember⟩
      exact .inr ⟨_, .member this hmember⟩
    | _ => cases hcallable
  case mpr =>
    rintro (hruns | ⟨b, hlink⟩)
    . cases value with
      | func ref => rfl
      | native ref => rfl
      | type ref => rfl
      | _ => cases hruns
    . cases hlink with
      | bound => rfl
      | member _ hmember =>
        rw [isCallable_object, hmember]
        rfl

theorem CallLink.unique (hb : h.CallLink a b) (hc : h.CallLink a c) : b = c := by
  cases hb with
  | bound =>
    cases hc
    rfl
  | member _ hmember =>
    cases hc with
    | member _ hother =>
      rw [hmember] at hother
      injection hother with hother
      rw [hother]

/-- A way that comes back to where it started does not end. -/
theorem endless_of_cycle (hcycle : TransGen h.CallLink a a) : h.Endless a := by
  intro b hb
  have hcycle : TransGen h.CallLink b b := by
    induction hb with
    | refl => exact hcycle
    | tail _ hlink ih =>
      rcases TransGen.head'_iff.mp ih with ⟨c, hnext, hback⟩
      rw [hlink.unique hnext]
      exact .tail' hback hnext
  rcases TransGen.head'_iff.mp hcycle with ⟨c, hlink, _⟩
  exact ⟨c, hlink⟩

theorem Endless.next (hendless : h.Endless a) (hlink : h.CallLink a b) : h.Endless b := by
  intro c hc
  exact hendless c (.head hlink hc)

/-- What leads to something that runs can be called. -/
theorem isCallable_of_leads (hleads : ReflTransGen h.CallLink a b) (hruns : b.value.runs = true)
    : h.isCallable a.value = true := by
  rw [isCallable_iff]
  rcases hleads.cases_head with heq | ⟨c, hlink, _⟩
  . rw [heq]
    exact .inl hruns
  . exact .inr ⟨c, hlink⟩

theorem isCallable_of_steps (hsteps : TransGen h.CallLink a b) : h.isCallable a.value = true := by
  rw [isCallable_iff]
  rcases TransGen.head'_iff.mp hsteps with ⟨c, hlink, _⟩
  exact .inr ⟨c, hlink⟩

/-- The way of a value that can be called ends in something that runs, ends in a value that cannot, or goes on. -/
theorem way_of_isCallable (hcallable : h.isCallable a.value = true)
    : (∃ b, ReflTransGen h.CallLink a b ∧ b.value.runs = true) ∨
      (∃ b, TransGen h.CallLink a b ∧ h.isCallable b.value = false) ∨ h.Endless a := by
  by_cases hendless : h.Endless a
  . exact .inr (.inr hendless)
  . unfold Endless at hendless
    push Not at hendless
    rcases hendless with ⟨b, hleads, hlast⟩
    by_cases hruns : b.value.runs = true
    . exact .inl ⟨b, hleads, hruns⟩
    . right; left
      have hrefused : ¬h.isCallable b.value = true := by
        rw [isCallable_iff]
        rintro (h | ⟨c, hlink⟩)
        . exact hruns h
        . exact hlast c hlink
      rcases reflTransGen_iff_eq_or_transGen.mp hleads with heq | hsteps
      . rw [heq] at hrefused
        exact absurd hcallable hrefused
      . exact ⟨b, hsteps, Bool.eq_false_iff.mpr hrefused⟩

end Heap

/-- Tags were given away, and nothing else has changed. -/
def State.withTag (s : State) (tag : Nat) : State := { s with heap := { s.heap with nextTag := tag } }

/-- The way of a call does not depend on the tags. -/
theorem Heap.CallLink.withTag {s : State} {a b : Callee} (hlink : s.heap.CallLink a b) (tag : Nat)
    : (s.withTag tag).heap.CallLink a b := by
  cases hlink with
  | bound tag receiver callee this => exact .bound tag receiver callee this
  | member this hmember => exact .member this hmember

theorem Heap.Endless.withTag {s : State} {a : Callee} (hendless : s.heap.Endless a) (tag : Nat)
    : (s.withTag tag).heap.Endless a := by
  intro b hb
  have hback (b c : Callee) (hlink : (s.withTag tag).heap.CallLink b c) : s.heap.CallLink b c :=
    hlink.withTag s.heap.nextTag
  rcases hendless b (ReflTransGen.mono hback _ _ hb) with ⟨c, hlink⟩
  exact ⟨c, hlink.withTag tag⟩

section Calls

variable {host : Host} {n : Nat} {args : List Value} {s : State} {a b : Callee}

theorem lettingGo_congr {α : Type} {x y : Run α} {t : State} (h : x s = y t) (hheld : t.held = s.held)
    : Run.lettingGo x s = Run.lettingGo y t := by
  unfold Run.lettingGo
  rw [h, hheld]

/-- After a call, nothing more is held on to than before. -/
theorem lettingGo_invoke (callee this : Value)
    : Run.lettingGo ((host.machine n).invoke callee this args) = (host.machine n).invoke callee this args := by
  cases n with
  | zero => rfl
  | succ n =>
    have hlevel : host.machine (n + 1) = host.above n (host.machine n) := rfl
    funext s
    rw [hlevel, above_invoke]
    unfold Run.lettingGo
    cases (host.machine n).invokeWith (Library.runRoutine (host.machine n)) callee this args s <;> rfl

theorem invoke_bound (tag : Nat) (receiver callee this : Value)
    : (host.machine n).invoke (.bound tag receiver callee) this args = (host.machine n).invoke callee receiver args := by
  cases n with
  | zero => rfl
  | succ n =>
    have hlevel : host.machine (n + 1) = host.above n (host.machine n) := rfl
    rw [hlevel, above_invoke, above_invoke, Machine.invokeWith]

/-- A call of an object is a call of its `__call__`, one level further down. -/
theorem invoke_member (host : Host) {handle : Handle} {member : Value} (this : Value)
    (hmember : s.heap.member? handle "__call__" = some member)
    : ∃ tag, ∀ n args,
        (host.machine (n + 1)).invoke (.object handle) this args s =
          (host.machine n).invoke member (if member.isCallableKind then .object handle else .undefined) args
            (s.withTag tag) := by
  have hcallable : Run.isCallable (.object handle) s = .ok true s := by
    unfold Run.isCallable
    rw [Run.bind_ok (rfl : Run.getHeap s = .ok s.heap s), Heap.isCallable_object, hmember]
    rfl
  have hinvoke {tag : Nat} {call this' : Value} (n : Nat) (args : List Value)
      (hcall : Run.makeMember (.object handle) member s = .ok call (s.withTag tag))
      (hnext : (host.machine n).invoke call .undefined args = (host.machine n).invoke member this' args)
      : (host.machine (n + 1)).invoke (.object handle) this args s =
          (host.machine n).invoke member this' args (s.withTag tag) := by
    have hlevel : host.machine (n + 1) = host.above n (host.machine n) := rfl
    rw [hlevel, above_invoke, ← lettingGo_invoke, ← hnext]
    apply lettingGo_congr (t := s.withTag tag)
    . rw [Machine.invokeWith, Run.bind_ok hcallable, if_pos rfl]
      rw [Run.bind_ok ((Machine.getMember_found hmember).trans hcall)]
    . rfl
  cases hkind : member.isCallableKind with
  | true =>
    have hcall : Run.makeMember (.object handle) member s =
        .ok (.bound s.heap.nextTag (.object handle) member) (s.withTag (s.heap.nextTag + 1)) := by
      unfold Run.makeMember
      rw [if_pos hkind]
      rfl
    exact ⟨_, fun n args => hinvoke n args hcall (invoke_bound ..)⟩
  | false =>
    have hcall : Run.makeMember (.object handle) member s = .ok member (s.withTag s.heap.nextTag) := by
      unfold Run.makeMember
      rw [if_neg (by rw [hkind]; exact Bool.false_ne_true)]
      rfl
    exact ⟨_, fun n args => hinvoke n args hcall rfl⟩

/-- One step on the way of a call takes at most one level. -/
theorem Heap.CallLink.invoke (host : Host) (hlink : s.heap.CallLink a b)
    : ∃ k tag, ∀ n args,
        (host.machine (n + k)).invoke a.value a.this args s =
          (host.machine n).invoke b.value b.this args (s.withTag tag) := by
  cases hlink with
  | bound tag receiver callee this =>
    refine ⟨0, s.heap.nextTag, ?_⟩
    intro n args
    dsimp only
    rw [Nat.add_zero, invoke_bound]
    rfl
  | member this hmember =>
    rcases invoke_member host this hmember with ⟨tag, hinvoke⟩
    exact ⟨1, tag, hinvoke⟩

/-- The call of a value is the call of everything that it leads to. -/
theorem invoke_of_leads (host : Host) (hleads : ReflTransGen s.heap.CallLink a b)
    : ∃ k tag, ∀ n args,
        (host.machine (n + k)).invoke a.value a.this args s =
          (host.machine n).invoke b.value b.this args (s.withTag tag) := by
  induction hleads with
  | refl =>
    refine ⟨0, s.heap.nextTag, ?_⟩
    intro n args
    rfl
  | tail _ hlink ih =>
    rcases ih with ⟨k, tag, hinvoke⟩
    rcases (hlink.withTag tag).invoke host with ⟨k', tag', hnext⟩
    refine ⟨k' + k, tag', ?_⟩
    intro n args
    rw [← Nat.add_assoc, hinvoke, hnext]
    rfl

/-- A value that cannot be called is refused by its name, and the state stays. -/
theorem invoke_notCallable (this : Value) {callee : Value} (hcallable : s.heap.isCallable callee = false)
    : (host.machine (n + 1)).invoke callee this args s =
        .error (.raised (.ofCause (.notCallable (s.heap.typeName callee)))) s := by
  have hlevel : host.machine (n + 1) = host.above n (host.machine n) := rfl
  have hrefused : (host.machine n).invokeWith (Library.runRoutine (host.machine n)) callee this args s =
      Run.notCallable callee s := by
    cases callee with
    | func ref => cases hcallable
    | native ref => cases hcallable
    | bound tag receiver callee => cases hcallable
    | type ref => cases hcallable
    | object handle =>
      have hcheck : Run.isCallable (.object handle) s = .ok false s := by
        rw [← hcallable]
        rfl
      rw [Machine.invokeWith, Run.bind_ok hcheck]
      rfl
    | _ => rfl
  rw [hlevel, above_invoke, lettingGo_congr hrefused rfl]
  rfl

/-- A call whose way does not end gives up with every number of steps. -/
theorem Heap.Endless.givesUp (hendless : s.heap.Endless a) (n : Nat) (args : List Value)
    : ((host.machine n).invoke a.value a.this args).GivesUp s := by
  rcases a with ⟨value, this⟩
  induction n generalizing s value this with
  | zero => exact ⟨s, rfl⟩
  | succ n ih =>
    -- A bound value leads to a part of itself, so an object comes after finitely many steps.
    induction value generalizing this with
    | bound tag receiver callee _ ihcallee =>
      rw [invoke_bound]
      exact ihcallee _ (hendless.next (.bound tag receiver callee this))
    | object handle =>
      rcases hendless _ .refl with ⟨b, hlink⟩
      cases hlink with
      | member _ hmember =>
        rcases invoke_member host this hmember with ⟨tag, hinvoke⟩
        have hnext := (hendless.next (.member this hmember)).withTag tag
        unfold Run.GivesUp
        rw [hinvoke]
        exact ih _ _ hnext
    | _ =>
      rcases hendless _ .refl with ⟨b, hlink⟩
      cases hlink

end Calls

/--
What a call comes to. A value that leads to something that runs can be called, and its call is the call of
what it leads to. A value that cannot be called is refused, and nothing changes. There are two more cases, in
which a value counts as one that can be called for the first step of its way alone: the way ends in a value
that is refused, or neither the way nor the call ends.
-/
theorem calls_follow_their_links (host : Host) (s : State) (value this : Value)
    : let a : Callee := ⟨value, this⟩
      let refused callee := Error.ofCause (.notCallable (s.heap.typeName callee))
      (∀ b, ReflTransGen s.heap.CallLink a b → b.value.runs = true →
        s.heap.isCallable value = true ∧
          ∃ k tag, ∀ n args,
            (host.machine (n + k)).invoke value this args s =
              (host.machine n).invoke b.value b.this args (s.withTag tag)) ∧
      (s.heap.isCallable value = false →
        ∀ n args, (host.machine (n + 1)).invoke value this args s = .error (.raised (refused value)) s) ∧
      (∀ b, TransGen s.heap.CallLink a b → s.heap.isCallable b.value = false →
        s.heap.isCallable value = true ∧
          ∃ k tag, ∀ n args,
            (host.machine (n + 1 + k)).invoke value this args s =
              .error (.raised (refused b.value)) (s.withTag tag)) ∧
      (s.heap.Endless a →
        s.heap.isCallable value = true ∧ ∀ n args, ((host.machine n).invoke value this args).GivesUp s) ∧
      (s.heap.isCallable value = true →
        (∃ b, ReflTransGen s.heap.CallLink a b ∧ b.value.runs = true) ∨
        (∃ b, TransGen s.heap.CallLink a b ∧ s.heap.isCallable b.value = false) ∨ s.heap.Endless a) := by
  intro a refused
  refine ⟨?_, ?_, ?_, ?_, ?_⟩
  . intro b hleads hruns
    exact ⟨Heap.isCallable_of_leads hleads hruns, invoke_of_leads host hleads⟩
  . intro hcallable n args
    exact invoke_notCallable this hcallable
  . intro b hleads hrefused
    rcases invoke_of_leads host hleads.to_reflTransGen with ⟨k, tag, hinvoke⟩
    refine ⟨Heap.isCallable_of_steps hleads, k, tag, ?_⟩
    intro n args
    exact (hinvoke (n + 1) args).trans (invoke_notCallable (s := s.withTag tag) b.this hrefused)
  . intro hendless
    exact ⟨(Heap.isCallable_iff a).mpr (.inr (hendless a .refl)), hendless.givesUp⟩
  . intro hcallable
    exact Heap.way_of_isCallable (a := a) hcallable

/-- An object that leads to a type by way of another one, one that leads to a number, and one that leads to itself. -/
theorem linked_objects_are_called
    : let object := BuiltinType.object.ref
      let s := Engine.stateAfter
        (do
          let direct ← Run.alloc (·.newInstance object (.ofList [("__call__", .type object)]))
          let _ ← Run.alloc (·.newInstance object (.ofList [("__call__", .object direct)]))
          let _ ← Run.alloc (·.newInstance object (.ofList [("__call__", .int 5)]))
          let self ← Run.alloc (·.newInstance object .empty)
          Run.setMember (.object self) "__call__" (.object self))
        (Engine.bareState {} .silent 0)
      let entry (i : Nat) : Callee := ⟨.object (.ofInstance ⟨i⟩), .undefined⟩
      let made : Callee := ⟨.type object, .object (.ofInstance ⟨0⟩)⟩
      let five : Callee := ⟨.int 5, .undefined⟩
      (ReflTransGen s.heap.CallLink (entry 1) made ∧ ∃ k tag, ∀ n,
        (Host.none.machine (n + k)).invoke (entry 1).value .undefined [] s =
          (Host.none.machine n).invoke made.value made.this [] (s.withTag tag)) ∧
      (TransGen s.heap.CallLink (entry 2) five ∧ s.heap.isCallable (entry 2).value = true ∧ ∃ k tag, ∀ n,
        (Host.none.machine (n + 1 + k)).invoke (entry 2).value .undefined [] s =
          .error (.raised (.ofCause (.notCallable "Int"))) (s.withTag tag)) ∧
      (s.heap.Endless (entry 3) ∧ s.heap.isCallable (entry 3).value = true ∧
        ∀ n, ((Host.none.machine n).invoke (entry 3).value .undefined []).GivesUp s) ∧
      s.heap.isCallable five.value = false ∧
        (Host.none.machine 1).invoke five.value .undefined [] s =
          .error (.raised (.ofCause (.notCallable "Int"))) s := by
  intro object s entry made five
  have hfirst : s.heap.CallLink (entry 1) (entry 0) := .member .undefined rfl
  have hmade : ReflTransGen s.heap.CallLink (entry 1) made := .head hfirst (.single (.member .undefined rfl))
  have hfive : TransGen s.heap.CallLink (entry 2) five := .single (.member .undefined rfl)
  have hself : s.heap.CallLink (entry 3) (entry 3) := .member .undefined rfl
  have hendless : s.heap.Endless (entry 3) := Heap.endless_of_cycle (.single hself)
  refine ⟨⟨hmade, ?_⟩, ⟨hfive, ?_⟩, ⟨hendless, ?_⟩, rfl, ?_⟩
  . rcases ((calls_follow_their_links .none s (entry 1).value .undefined).1 made hmade rfl).2
      with ⟨k, tag, hinvoke⟩
    exact ⟨k, tag, fun n => hinvoke n []⟩
  . rcases (calls_follow_their_links .none s (entry 2).value .undefined).2.2.1 five hfive rfl
      with ⟨hcallable, k, tag, hinvoke⟩
    exact ⟨hcallable, k, tag, fun n => hinvoke n []⟩
  . rcases (calls_follow_their_links .none s (entry 3).value .undefined).2.2.2.1 hendless
      with ⟨hcallable, hgives⟩
    exact ⟨hcallable, fun n => hgives n []⟩
  . exact (calls_follow_their_links .none s five.value .undefined).2.1 rfl 0 []

-- An optional call of an instance of such a class is refused, and not left out.
example :
    let number := ClassDef.mk "C" false [] [.mk (.str "__call__") (.int 5)] []
    let script := [Stmt.ofKind (.cls number), Stmt.expr (.call (.mk (.new (.ident "C") []) [] true))]
    ((Host.none.machine 20).evalBlock script).cause? (Engine.bareState {} .silent 100) =
      some (.notCallable "Int") := by
  decide +kernel

end ScriptEngine
