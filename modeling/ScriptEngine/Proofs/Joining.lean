import Mathlib.Logic.Function.Basic
import Mathlib.Logic.Relation
import ScriptEngine.Engine.Setup
import ScriptEngine.Proofs.Frame
import ScriptEngine.Proofs.Members

/-!
This module contains how the outcome of a spawned call gets to those that ask its handle for it. The
thread sends the outcome once. Whoever asks the handle takes a lock, receives the outcome if nobody
has received it yet, and keeps it for those that ask later. However the steps interleave, all of them
get the one outcome that the thread sent.
-/

namespace ScriptEngine

/-- What is received from a thread. -/
inductive Received where
  | outcome (result : Except Error Value)
  /-- The thread is gone and has sent nothing. -/
  | exited

/-- How far the thread is. -/
inductive ThreadStage where
  | running
  | sent (result : Except Error Value)
  /-- The thread broke down before it had an outcome. -/
  | died

/-- How far one of those is that ask the handle. -/
inductive AskerStage where
  | idle
  /-- Waits for the lock. -/
  | waiting
  /-- Has the lock and looks whether the outcome was received before. -/
  | looking
  | receiving
  /-- Has received something and is about to keep it. -/
  | keeping (received : Received)
  | reading
  /-- Got what was kept, if anything was, and has released the lock. -/
  | finished (got : Option Received)

/-- A spawned thread and those that ask its handle, of which there may be any number. -/
structure Joining where
  thread : ThreadStage
  /-- What was sent and not received yet. -/
  channel : Option (Except Error Value)
  /-- What was received, once it is kept. -/
  slot : Option Received
  /-- Who has the lock. -/
  lock : Option Nat
  askers : Nat → AskerStage
  /-- How often something was received. -/
  receipts : Nat

namespace Joining

/-- A thread that was just spawned. -/
def start : Joining where
  thread := .running
  channel := none
  slot := none
  lock := none
  askers _ := .idle
  receipts := 0

/-- The next stage of one of those that ask. -/
def move (p : Joining) (i : Nat) (stage : AskerStage) : Joining :=
  { p with askers := Function.update p.askers i stage }

inductive Step (p : Joining) : Joining → Prop where
  | send (r : Except Error Value) (h : p.thread = .running)
      : Step p { p with thread := .sent r, channel := some r }
  | die (h : p.thread = .running) : Step p { p with thread := .died }
  | ask {i : Nat} (h : p.askers i = .idle) : Step p (p.move i .waiting)
  | acquire {i : Nat} (h : p.askers i = .waiting) (hfree : p.lock = none)
      : Step p { p.move i .looking with lock := some i }
  | pending {i : Nat} (h : p.askers i = .looking) (hslot : p.slot = none) : Step p (p.move i .receiving)
  | done {i : Nat} (h : p.askers i = .looking) (hslot : p.slot.isSome) : Step p (p.move i .reading)
  | receive {i : Nat} {r : Except Error Value} (h : p.askers i = .receiving) (hchannel : p.channel = some r)
      : Step p { p.move i (.keeping (.outcome r)) with channel := none, receipts := p.receipts + 1 }
  /-- Nothing was sent, and nothing will be. -/
  | disconnected {i : Nat} (h : p.askers i = .receiving) (hchannel : p.channel = none)
      (hthread : p.thread ≠ .running)
      : Step p (p.move i (.keeping .exited))
  | keep {i : Nat} {received : Received} (h : p.askers i = .keeping received)
      : Step p { p.move i .reading with slot := some received }
  | read {i : Nat} (h : p.askers i = .reading) : Step p { p.move i (.finished p.slot) with lock := none }

variable {p q : Joining} {i j : Nat} {r : Except Error Value} {stage : AskerStage}

/-- Any steps in any order. -/
def Reaches : Joining → Joining → Prop := Relation.ReflTransGen Step

/-- What holds of one of those that ask at its stage. -/
def Fits (p : Joining) (i : Nat) : AskerStage → Prop
  | .idle => True
  | .waiting => True
  | .looking => p.lock = some i
  | .receiving => p.lock = some i ∧ p.slot = none
  | .keeping received =>
    p.lock = some i ∧ p.channel = none ∧ p.slot = none ∧ ∃ r, received = .outcome r ∧ p.thread = .sent r
  | .reading => p.lock = some i ∧ p.slot.isSome
  | .finished got => ∃ r, got = some (.outcome r) ∧ p.thread = .sent r

/-- Where the outcome is. -/
inductive Carries (p : Joining) : Prop where
  | awaited (hthread : p.thread = .running) (hchannel : p.channel = none) (hslot : p.slot = none)
      (hreceipts : p.receipts = 0)
  | sent {r : Except Error Value} (hthread : p.thread = .sent r) (hchannel : p.channel = some r)
      (hslot : p.slot = none) (hreceipts : p.receipts = 0)
  | received {i : Nat} {r : Except Error Value} (hthread : p.thread = .sent r) (hchannel : p.channel = none)
      (hslot : p.slot = none) (hreceipts : p.receipts = 1) (hasker : p.askers i = .keeping (.outcome r))
  | kept {r : Except Error Value} (hthread : p.thread = .sent r) (hchannel : p.channel = none)
      (hslot : p.slot = some (.outcome r)) (hreceipts : p.receipts = 1)

structure Sound (p : Joining) : Prop where
  fits (i : Nat) : p.Fits i (p.askers i)
  carries : p.Carries

theorem sound_start : start.Sound where
  fits _ := trivial
  carries := .awaited rfl rfl rfl rfl

theorem fits_move (hq : q.askers = Function.update p.askers i stage) (hi : q.Fits i stage)
    (hother : ∀ j, j ≠ i → q.Fits j (p.askers j)) (j : Nat)
    : q.Fits j (q.askers j) := by
  rw [hq]
  by_cases hj : j = i
  . rw [hj, Function.update_self]
    exact hi
  . rw [Function.update_of_ne hj]
    exact hother j hj

/-- Those without the lock do not see what happens under it. -/
theorem fits_unlocked (h : p.Fits j stage) (hlock : p.lock ≠ some j) (hthread : q.thread = p.thread)
    : q.Fits j stage := by
  cases stage with
  | idle => trivial
  | waiting => trivial
  | looking => exact absurd h hlock
  | receiving => exact absurd h.1 hlock
  | keeping received => exact absurd h.1 hlock
  | reading => exact absurd h.1 hlock
  | finished got =>
    rcases h with ⟨r, hgot, h⟩
    exact ⟨r, hgot, hthread.trans h⟩

/-- Only one of those that ask has the lock. -/
theorem fits_locked (h : p.Fits j stage) (hlock : p.lock = some i) (hj : j ≠ i) (hthread : q.thread = p.thread)
    : q.Fits j stage := by
  apply fits_unlocked h _ hthread
  rw [hlock]
  intro heq
  injection heq with heq
  exact hj heq.symm

/-- The outcome stays where it is when one of those that ask moves on that does not carry it. -/
theorem Carries.stays (h : p.Carries) (hidle : ∀ received, p.askers i ≠ .keeping received)
    (haskers : q.askers = Function.update p.askers i stage) (hthread : q.thread = p.thread)
    (hchannel : q.channel = p.channel) (hslot : q.slot = p.slot) (hreceipts : q.receipts = p.receipts)
    : q.Carries := by
  cases h with
  | awaited h1 h2 h3 h4 =>
    exact .awaited (hthread.trans h1) (hchannel.trans h2) (hslot.trans h3) (hreceipts.trans h4)
  | sent h1 h2 h3 h4 =>
    exact .sent (hthread.trans h1) (hchannel.trans h2) (hslot.trans h3) (hreceipts.trans h4)
  | kept h1 h2 h3 h4 =>
    exact .kept (hthread.trans h1) (hchannel.trans h2) (hslot.trans h3) (hreceipts.trans h4)
  | @received j r h1 h2 h3 h4 hasker =>
    refine .received (i := j) (hthread.trans h1) (hchannel.trans h2) (hslot.trans h3) (hreceipts.trans h4) ?_
    rw [haskers, Function.update_of_ne]
    . exact hasker
    . intro hj
      rw [hj] at hasker
      exact hidle _ hasker

/-- Nothing was received from a thread that runs. -/
theorem Carries.of_running (h : p.Carries) (hthread : p.thread = .running)
    : p.slot = none ∧ p.receipts = 0 := by
  cases h with
  | awaited _ _ hslot hreceipts => exact ⟨hslot, hreceipts⟩
  | sent h => rw [hthread] at h; cases h
  | received h => rw [hthread] at h; cases h
  | kept h => rw [hthread] at h; cases h

theorem Fits.sent (h : p.Fits j stage) (hthread : p.thread = .running)
    (hq : q.lock = p.lock ∧ q.slot = p.slot)
    : q.Fits j stage := by
  cases stage with
  | idle => trivial
  | waiting => trivial
  | looking => exact hq.1.trans h
  | receiving => exact ⟨hq.1.trans h.1, hq.2.trans h.2⟩
  | keeping received =>
    rcases h with ⟨_, _, _, r, _, h⟩
    rw [hthread] at h
    cases h
  | reading => exact ⟨hq.1.trans h.1, by rw [hq.2]; exact h.2⟩
  | finished got =>
    rcases h with ⟨r, _, h⟩
    rw [hthread] at h
    cases h

theorem Step.sound (h : Step p q) (hp : p.Sound) (hq : q.thread ≠ .died) : q.Sound := by
  have hfits (j : Nat) : p.Fits j (p.askers j) := hp.fits j
  cases h with
  | send r h =>
    have hnothing := hp.carries.of_running h
    exact ⟨fun j => (hfits j).sent h ⟨rfl, rfl⟩, .sent rfl rfl hnothing.1 hnothing.2⟩
  | die h => exact absurd rfl hq
  | @ask i h =>
    constructor
    case fits => exact fits_move rfl trivial fun j _ => hfits j
    case carries => exact hp.carries.stays (by rw [h]; nofun) rfl rfl rfl rfl rfl
  | @acquire i h hfree =>
    constructor
    case fits =>
      apply fits_move rfl
      . show some i = some i
        rfl
      . intro j _
        exact fits_unlocked (hfits j) (by rw [hfree]; nofun) rfl
    case carries => exact hp.carries.stays (by rw [h]; nofun) rfl rfl rfl rfl rfl
  | @pending i h hslot =>
    have hi := hfits i
    rw [h] at hi
    constructor
    case fits => exact fits_move rfl ⟨hi, hslot⟩ fun j _ => hfits j
    case carries => exact hp.carries.stays (by rw [h]; nofun) rfl rfl rfl rfl rfl
  | @done i h hslot =>
    have hi := hfits i
    rw [h] at hi
    constructor
    case fits => exact fits_move rfl ⟨hi, hslot⟩ fun j _ => hfits j
    case carries => exact hp.carries.stays (by rw [h]; nofun) rfl rfl rfl rfl rfl
  | @receive i r h hchannel =>
    have hi := hfits i
    rw [h] at hi
    cases hp.carries with
    | sent hthread hsent hslot hreceipts =>
      rw [hchannel] at hsent
      injection hsent with hsent
      rw [← hsent] at hthread
      constructor
      case fits =>
        apply fits_move rfl
        . exact ⟨hi.1, rfl, hslot, r, rfl, hthread⟩
        . intro j hj
          exact fits_locked (hfits j) hi.1 hj rfl
      case carries =>
        refine .received (i := i) hthread rfl hslot ?_ (Function.update_self ..)
        rw [hreceipts]
    | awaited _ hnone => rw [hnone] at hchannel; cases hchannel
    | received _ hnone => rw [hnone] at hchannel; cases hchannel
    | kept _ hnone => rw [hnone] at hchannel; cases hchannel
  | @disconnected i h hchannel hthread =>
    have hi := hfits i
    rw [h] at hi
    cases hp.carries with
    | awaited hrunning => exact absurd hrunning hthread
    | sent _ hsent => rw [hchannel] at hsent; cases hsent
    | @received j r _ _ _ _ hasker =>
      -- Whoever received the outcome still has the lock.
      have hj := hfits j
      rw [hasker] at hj
      have hlock := hj.1
      rw [hi.1] at hlock
      injection hlock with hlock
      rw [← hlock, h] at hasker
      cases hasker
    | kept _ _ hslot =>
      rw [hi.2] at hslot
      cases hslot
  | @keep i received h =>
    have hi := hfits i
    rw [h] at hi
    rcases hi with ⟨hlock, hchannel, hslot, r, hreceived, hthread⟩
    cases hp.carries with
    | received _ _ _ hreceipts =>
      constructor
      case fits =>
        apply fits_move rfl
        . exact ⟨hlock, rfl⟩
        . intro j hj
          exact fits_locked (hfits j) hlock hj rfl
      case carries =>
        refine .kept hthread hchannel ?_ hreceipts
        rw [hreceived]
    | awaited hrunning => rw [hthread] at hrunning; cases hrunning
    | sent _ hsent => rw [hchannel] at hsent; cases hsent
    | kept _ _ hkept => rw [hslot] at hkept; cases hkept
  | @read i h =>
    have hi := hfits i
    rw [h] at hi
    rcases hi with ⟨hlock, hkept⟩
    cases hp.carries with
    | @kept r hthread hchannel hslot hreceipts =>
      constructor
      case fits =>
        apply fits_move rfl
        . exact ⟨r, hslot, hthread⟩
        . intro j hj
          exact fits_locked (hfits j) hlock hj rfl
      case carries => exact hp.carries.stays (by rw [h]; nofun) rfl rfl rfl rfl rfl
    | awaited _ _ hslot => rw [hslot] at hkept; cases hkept
    | sent _ _ hslot => rw [hslot] at hkept; cases hkept
    | received _ _ hslot => rw [hslot] at hkept; cases hkept

/-- A thread that died stays dead. -/
theorem Step.alive (h : Step p q) (hq : q.thread ≠ .died) : p.thread ≠ .died := by
  intro hp
  cases h with
  | send r h => rw [hp] at h; cases h
  | die h => exact hq rfl
  | ask h => exact hq hp
  | acquire h hfree => exact hq hp
  | pending h hslot => exact hq hp
  | done h hslot => exact hq hp
  | receive h hchannel => exact hq hp
  | disconnected h hchannel hthread => exact hq hp
  | keep h => exact hq hp
  | read h => exact hq hp

theorem Reaches.sound (h : start.Reaches p) (hp : p.thread ≠ .died) : p.Sound := by
  induction h with
  | refl => exact sound_start
  | tail _ hstep ih => exact hstep.sound (ih (hstep.alive hp)) hp

theorem Carries.receipts_le (h : p.Carries) : p.receipts ≤ 1 := by
  cases h with
  | awaited _ _ _ hreceipts => rw [hreceipts]; exact Nat.zero_le 1
  | sent _ _ _ hreceipts => rw [hreceipts]; exact Nat.zero_le 1
  | received _ _ _ hreceipts => exact Nat.le_of_eq hreceipts
  | kept _ _ _ hreceipts => exact Nat.le_of_eq hreceipts

end Joining

/-- What can be asked of the handle of a spawned call. -/
inductive JoinRequest where
  | join
  | await
  | error
  /-- The host joins the call itself. -/
  | value
deriving DecidableEq

namespace JoinRequest

/-- The method that a script calls for a request. -/
def method? : JoinRequest → Option HostMethod
  | join => some ⟨"join", [], .join⟩
  | await => some ⟨"await", [], .join⟩
  | error => some ⟨"error", [], .joinError⟩
  | value => none

/-- Asks a handle. -/
def ask (request : JoinRequest) (m : Machine) (handle : Handle) : Run Value :=
  match request.method? with
  | some f =>
    Library.runRoutine m ⟨Engine.threadClass.name ++ "." ++ f.name, f.params, f.routine⟩ (.object handle) []
  | none => Run.joinValue (.object handle)

end JoinRequest

/--
An object with the message of an error, and with the value that was raised if there is one. A member
that is `undefined` is not there.
-/
def State.Describes (s : State) (e : Error) (x : Value) : Prop :=
  ∃ handle, x = .object handle ∧ (s.heap.members handle).get? "message" = some (.str e.message) ∧
    ((s.heap.members handle).get? "value").getD .undefined = e.payload.getD .undefined

/-- A failure of a thread that hands on an error. What it carries is there in the state `t`. -/
structure Error.HandsOn (f e : Error) (t : State) : Prop where
  cause : f.cause = .threadFailed
  notFatal : f.isFatal = false
  message : f.message = e.message
  payload {x : Value} (h : e.payload = some x) : f.payload = some x
  exception (h : e.payload = none) : ∃ x, f.payload = some x ∧ t.Describes e x

/-- What those that ask get for an outcome, and that the handle still has it afterwards. -/
inductive JoinRequest.Gets (handle : Handle) (s : State)
    : JoinRequest → Except Error Value → EStateM.Result Halt State Value → Prop
  | value {request : JoinRequest} {v : Value} (hrequest : request ≠ .error)
    : Gets handle s request (.ok v) (.ok v s)
  | nothing {v : Value} : Gets handle s .error (.ok v) (.ok .nil s)
  | failure {request : JoinRequest} {e f : Error} {t : State} (hrequest : request ≠ .error)
    (hf : f.HandsOn e t) (ht : t.heap.reserved? handle = some (.outcome (.error e)))
    : Gets handle s request (.error e) (.error (.raised f) t)
  | exception {e : Error} {x : Value} {t : State} (hx : t.Describes e x)
    (ht : t.heap.reserved? handle = some (.outcome (.error e)))
    : Gets handle s .error (.error e) (.ok x t)

section Answers

variable {s t : State} {handle : Handle}

theorem newArray_apply (items : Array Value) (s : State)
    : Run.newArray items s = .ok (s.heap.newArray items).1 { s with heap := (s.heap.newArray items).2 } :=
  rfl

theorem activations_instances (backtrace : List Activation) (s : State)
    : ∃ values t, backtrace.mapM Run.activationValue s = .ok values t ∧
        t.heap.instances = s.heap.instances := by
  induction backtrace generalizing s with
  | nil => exact ⟨[], s, rfl, rfl⟩
  | cons a backtrace ih =>
    have ha : Run.activationValue a s = .ok _ _ := newArray_apply _ s
    rcases ih _ with ⟨values, t, h, ht⟩
    rw [List.mapM_cons, Run.bind_ok ha, Run.bind_ok h]
    exact ⟨_, t, rfl, ht⟩

/-- The exception object of an error is a new object. -/
theorem exceptionValue_apply (e : Error) (s : State)
    : ∃ stack t, Run.exceptionValue e s = .ok (.object (.ofInstance ⟨s.heap.instances.size⟩)) t ∧
        t.heap.instances = s.heap.instances.push ⟨BuiltinType.object.ref, Members.ofList
          ([("message", .str e.message), ("stack", stack)] ++ e.payload.toList.map fun x => ("value", x)),
          none⟩ := by
  rcases activations_instances (e.backtrace.getD []) s with ⟨values, t, h, ht⟩
  have hstack := newArray_apply values.toArray t
  unfold Run.exceptionValue
  rw [Run.bind_ok h, Run.bind_ok hstack, ← ht]
  exact ⟨_, _, rfl, rfl⟩

theorem members_push {instances : Array Instance} {i : Instance} (ht : t.heap.instances = instances.push i)
    : t.heap.members (.ofInstance ⟨instances.size⟩) = i.members := by
  unfold Heap.members Heap.inst
  rw [ht]
  simp [Handle.ofInstance]

/-- What is kept in an object stays when a new object is made. -/
theorem reserved_push {i : Instance} {payload : Payload} (hs : s.heap.reserved? handle = some payload)
    (ht : t.heap.instances = s.heap.instances.push i)
    : t.heap.reserved? handle = some payload := by
  unfold Heap.reserved? Heap.inst at hs ⊢
  rw [Array.getD_eq_getD_getElem?] at hs ⊢
  rw [ht, Array.getElem?_push]
  by_cases hsize : handle.real.index = s.heap.instances.size
  . rw [hsize, Array.getElem?_eq_none (Nat.le_refl _)] at hs
    cases hs
  . rw [if_neg hsize]
    exact hs

theorem exceptionValue_describes (e : Error) (s : State)
    : ∃ x t, Run.exceptionValue e s = .ok x t ∧ t.Describes e x ∧
        ∀ handle payload, s.heap.reserved? handle = some payload → t.heap.reserved? handle = some payload := by
  rcases exceptionValue_apply e s with ⟨stack, t, h, ht⟩
  refine ⟨_, t, h, ⟨_, rfl, ?_, ?_⟩, fun handle payload hs => reserved_push hs ht⟩
  . rw [members_push ht]
    cases e.payload with
    | none => simp [Members.ofList, Members.get?_set, Value.isUndefined]
    | some x => simp [Members.ofList, Members.get?_set, Value.isUndefined]
  . rw [members_push ht]
    cases e.payload with
    | none =>
      simp [Members.ofList, Members.get?_set]
      rfl
    | some x => cases x <;> simp [Members.ofList, Members.get?_set, Value.isUndefined]

theorem threadFailure_handsOn (e : Error) (s : State)
    : ∃ f t, Run.threadFailure e s = .ok f t ∧ f.HandsOn e t ∧
        ∀ handle payload, s.heap.reserved? handle = some payload → t.heap.reserved? handle = some payload := by
  unfold Run.threadFailure
  cases hpayload : e.payload with
  | some x =>
    refine ⟨_, s, rfl, ?_, fun _ _ hs => hs⟩
    constructor
    case cause => rfl
    case notFatal => rfl
    case message => rfl
    case payload =>
      intro y hy
      rw [← hy, hpayload]
      rfl
    case exception =>
      intro hnone
      rw [hpayload] at hnone
      cases hnone
  | none =>
    rcases exceptionValue_describes e s with ⟨x, t, hx, hdescribes, hkept⟩
    refine ⟨.threadFailed e x, t, Run.bind_ok hx, ?_, hkept⟩
    constructor
    case cause => rfl
    case notFatal => rfl
    case message => rfl
    case payload =>
      intro y hy
      rw [hpayload] at hy
      cases hy
    case exception => exact fun _ => ⟨x, rfl, hdescribes⟩

theorem threadOutcome_apply {r : Except Error Value} (h : s.heap.reserved? handle = some (.outcome r))
    : Run.threadOutcome handle s = .ok r s := by
  unfold Run.threadOutcome
  rw [Run.bind_ok (rfl : Run.getHeap s = .ok s.heap s), h]
  rfl

theorem ask_error (m : Machine) (handle : Handle) : JoinRequest.ask .error m handle = Run.threadError handle := rfl

theorem ask_join {request : JoinRequest} (h : request ≠ .error) (m : Machine) (handle : Handle)
    : request.ask m handle = Run.joinThread handle := by
  cases request with
  | error => exact absurd rfl h
  | join => rfl
  | await => rfl
  | value => rfl

/-- Whoever asks a handle gets the outcome that it has. -/
theorem ask_gets {r : Except Error Value} (h : s.heap.reserved? handle = some (.outcome r)) (m : Machine)
    (request : JoinRequest)
    : request.Gets handle s r (request.ask m handle s) := by
  have hr := threadOutcome_apply h
  by_cases hrequest : request = .error
  . rw [hrequest, ask_error]
    unfold Run.threadError
    rw [Run.bind_ok hr]
    cases r with
    | ok v => exact .nothing
    | error e =>
      rcases exceptionValue_describes e s with ⟨x, t, hx, hdescribes, hkept⟩
      dsimp only
      rw [hx]
      exact .exception hdescribes (hkept _ _ h)
  . rw [ask_join hrequest]
    unfold Run.joinThread
    rw [Run.bind_ok hr]
    cases r with
    | ok v => exact .value hrequest
    | error e =>
      rcases threadFailure_handsOn e s with ⟨f, t, hf, hhands, hkept⟩
      dsimp only
      rw [Run.bind_ok hf]
      exact .failure hrequest hhands (hkept _ _ h)

theorem reserved_setReserved {h : Heap} (hsize : handle.real.index < h.instances.size) (payload : Payload)
    : (h.setReserved handle payload).reserved? handle = some payload := by
  unfold Heap.reserved? Heap.inst Heap.setReserved
  simp only [Array.getD_eq_getD_getElem?, Array.getElem?_modify, Array.getElem?_eq_getElem hsize]
  rfl

/-- The handle of a spawned call has the outcome that the call ended with. -/
theorem startThread_keeps {m : Machine} {callee value : Value} {args : List Value}
    (h : m.startThread callee args s = .ok value t)
    : ∃ handle r u, value = .object handle ∧ m.spawn callee args s = .ok r u ∧
        t.heap.reserved? handle = some (.outcome r) := by
  unfold Machine.startThread at h
  rw [Run.bind_ok (rfl : Run.isCallable callee s = .ok _ s)] at h
  cases hcallable : s.heap.isCallable callee with
  | false =>
    rw [hcallable] at h
    rcases Run.ok_of_bind h with ⟨_, _, _, h⟩
    injection h
  | true =>
    rw [hcallable] at h
    rcases Run.ok_of_bind h with ⟨r, u, hspawn, h⟩
    injection h with hvalue ht
    refine ⟨_, r, u, hvalue.symm, hspawn, ?_⟩
    rw [← ht]
    apply reserved_setReserved
    exact Array.size_push .. ▸ Nat.lt_succ_self _

end Answers

/--
Those that ask the handle of a spawned call. The outcome is received once at most, and everyone whose
asking comes to an end has got the outcome that the thread sent: never that it is still awaited, and never
that the thread is gone without one. What they make of it is its value, or a failure that can be
handled and hands the error on; or, if they ask for the error, nothing or its exception object.
-/
theorem askers_get_the_outcome (p : Joining) (hp : Joining.start.Reaches p) (hthread : p.thread ≠ .died)
    : p.receipts ≤ 1 ∧
      (∀ i received, p.askers i = .keeping received → received ≠ .exited) ∧
      (∀ i got, p.askers i = .finished got → ∃ r, got = some (.outcome r) ∧ p.thread = .sent r ∧
        ∀ (m : Machine) (handle : Handle) (s : State), s.heap.reserved? handle = some (.outcome r) →
          ∀ request : JoinRequest, request.Gets handle s r (request.ask m handle s)) ∧
      (∀ (m : Machine) (callee value : Value) (args : List Value) (s t : State),
        m.startThread callee args s = .ok value t →
          ∃ handle r u, value = .object handle ∧ m.spawn callee args s = .ok r u ∧
            t.heap.reserved? handle = some (.outcome r)) := by
  have hsound := hp.sound hthread
  refine ⟨hsound.carries.receipts_le, ?_, ?_, ?_⟩
  . intro i received hi
    have hfits := hsound.fits i
    rw [hi] at hfits
    rcases hfits with ⟨_, _, _, r, hreceived, _⟩
    rw [hreceived]
    nofun
  . intro i got hi
    have hfits := hsound.fits i
    rw [hi] at hfits
    rcases hfits with ⟨r, hgot, hsent⟩
    exact ⟨r, hgot, hsent, fun m handle s h request => ask_gets h m request⟩
  . intro m callee value args s t h
    exact startThread_keeps h

/-- One asks before the thread has sent a failure that nothing could handle, and another one afterwards. -/
theorem two_askers_get_the_outcome
    : let r : Except Error Value := .error (.ofCause .misplacedExport)
      let handle := Handle.ofInstance ⟨0⟩
      let bare := Engine.bareState {} .silent 0
      let s : State := { bare with heap := { bare.heap with
        instances := #[⟨BuiltinType.object.ref, .empty, some (.outcome r)⟩] } }
      ∃ p, Joining.start.Reaches p ∧ p.receipts ≤ 1 ∧ p.askers 0 = .finished (some (.outcome r)) ∧
        p.askers 1 = .finished (some (.outcome r)) ∧ s.heap.reserved? handle = some (.outcome r) ∧
        JoinRequest.await.Gets handle s r (JoinRequest.await.ask Machine.spent handle s) := by
  intro r handle bare s
  have hasked : Joining.start.Reaches _ := .tail .refl (.ask (i := 0) rfl)
  have hlocked := hasked.tail (.acquire (i := 0) rfl rfl)
  have hwaits := hlocked.tail (.pending (i := 0) rfl rfl)
  have hsent := hwaits.tail (.send r rfl)
  have hreceived := hsent.tail (.receive (i := 0) rfl rfl)
  have hkept := hreceived.tail (.keep (i := 0) rfl)
  have hfirst := hkept.tail (.read (i := 0) rfl)
  have hagain := hfirst.tail (.ask (i := 1) rfl)
  have hrelocked := hagain.tail (.acquire (i := 1) rfl rfl)
  have hfound := hrelocked.tail (.done (i := 1) rfl rfl)
  have hsecond := hfound.tail (.read (i := 1) rfl)
  rcases askers_get_the_outcome _ hsecond nofun with ⟨hreceipts, _, hgets, _⟩
  rcases hgets 0 _ rfl with ⟨r', hr, _, hask⟩
  injection hr with hr
  injection hr with hr
  rw [← hr] at hask
  exact ⟨_, hsecond, hreceipts, rfl, rfl, rfl, hask Machine.spent handle s rfl .await⟩

end ScriptEngine
