import ScriptEngine.Proofs.LoopSteps
import ScriptEngine.Proofs.ScriptedHost
import ScriptEngine.Proofs.Signals

/-!
This module contains that all loops of the language go through the same steps, whether they check a
condition before or after their body or take their items from a source of one kind or another, and
what follows for the signals with which they end.
-/

namespace ScriptEngine

/-- Where a loop stands among its items. -/
inductive Cursor where
  /-- The loop has a condition and no items. -/
  | none
  | words (n : Nat) (index word : Int64)
  | entries (rest : List (String × Value))
  | chars (rest : List Char) (index : Int64)
  | items (container : Value) (n : Nat) (index : Int64)
  | steps (step : Value) (index : Int64)

/-- Where a loop stands after the next item. -/
def Cursor.after : Cursor → Cursor
  | none => none
  | words n index word => words (n - 1) (index + 1) (word + 1)
  | entries rest => entries rest.tail
  | chars rest index => chars rest.tail (index + 1)
  | items container n index => items container (n - 1) (index + 1)
  | steps step index => steps step (index + 1)

namespace Machine

variable (m : Machine)

/-- Finds the items of a value. -/
def openValue (value : Value) : Run Cursor := do
  match ← Run.findHook value "__iter__" with
  | some hook =>
    let step ← m.invoke hook .undefined []
    Run.hold step
    if ← Run.isCallable step then return .steps step 0
    else Run.fail "__iter__ should return a callable value"
  | none =>
    match value with
    | .int n => return .words n.toInt.toNat 0 0
    | .object handle => return .entries ((← Run.getHeap).members handle).entries
    | .str s => return .chars s.toList 0
    | .array _ | .bytes _ => return .items value (((← Run.getHeap).length? value).getD 0) 0
    | other => Run.raise (.notIterable ((← Run.getHeap).typeName other))

/-- Finds the items of a loop's source. -/
def openSource (source : Source) : Run Cursor := do
  match source with
  | .range first last inclusive =>
    let first ← rangeBound (← m.eval first) "begin"
    let last ← rangeBound (← m.eval last) "end"
    return .words (rangeSize first last inclusive) 0 first
  | .iterable value =>
    let value ← m.evalHeld value
    m.openValue value

/-- Binds the variables of a loop to the next item, and says whether there was one. -/
def bindNext (value : String) (index : Option String) : Cursor → Run Bool
  | .none | .words 0 _ _ | .entries [] | .chars [] _ | .items _ 0 _ => return false
  | .words (_ + 1) i word => do
    bindItem value index (.int i) (.int word)
    return true
  | .entries ((key, item) :: rest) => do
    Run.keep (.entries rest)
    bindItem value index (.str key) item
    return true
  | .chars (c :: _) i => do
    bindItem value index (.int i) (.str (String.singleton c))
    return true
  | .items container (_ + 1) i => do
    let item ← m.getIndex container (.int i)
    bindItem value index (.int i) item
    return true
  | .steps step i => do
    let answer ← m.invoke step .undefined []
    Run.hold answer
    match ← m.stepItem? answer with
    | none => return false
    | some item =>
      bindItem value index (.int i) item
      return true

/-- Where a loop goes on if a condition holds. -/
def goOnIf (condition : Run Bool) (cursor : Cursor) : Run (Option Cursor) := do
  if ← condition then return some cursor else return none

/-- A loop over the items of a source. -/
def eachLoop (label index : Option String) (value : String) (source : Source) (body : List Stmt) :
    Loop Cursor where
  label := label
  start := do return .check (← m.openSource source)
  check cursor := goOnIf (m.bindNext value index cursor) cursor.after
  body := m.execBlock body
  next := pure ()

/-- A loop with a start, a condition and a step. -/
def forLoop (label : Option String) (start check next : Option Expr) (body : List Stmt) : Loop Cursor where
  label := label
  start := do
    let _ ← m.evalOptional start
    return .check .none
  check := goOnIf (m.checkHolds check)
  body := m.execBlock body
  next := do
    let _ ← m.evalOptional next

/-- A loop with a condition that is checked first. -/
def whileLoop (label : Option String) (check : Expr) (body : List Stmt) : Loop Cursor where
  label := label
  start := pure (.check .none)
  check := goOnIf do m.isTruthy (← m.evalHeld check)
  body := m.execBlock body
  next := pure ()

/-- A loop with a condition that is checked after the body. -/
def doWhileLoop (label : Option String) (check : Expr) (body : List Stmt) : Loop Cursor where
  label := label
  start := pure (.body .none)
  check := goOnIf (m.checkHolds (some check))
  body := m.execBlock body
  next := pure ()

/-- The loop that a statement stands for, if it is one. -/
def loopOf : StmtKind → Option (Loop Cursor)
  | .loop label start check next body => some (m.forLoop label start check next body)
  | .forEach label index value source body => some (m.eachLoop label index value source body)
  | .whileDo label check body => some (m.whileLoop label check body)
  | .doWhile label check body => some (m.doWhileLoop label check body)
  | _ => none

/-- What a loop does with an item. -/
def visitItem (label index : Option String) (value : String) (body : List Stmt) (_ : Unit)
    (i item : Value) : Run (Visit Unit) := do
  bindItem value index i item
  m.execBlock body
  if ← Run.leavesLoop label then return .stop () else return .next ()

/-- Runs the body of a loop for an item if there is one. -/
def visitIf (label : Option String) (body : List Stmt) (found : Bool) : Run (Visit Unit) := do
  if found then
    m.execBlock body
    if ← Run.leavesLoop label then return .stop () else return .next ()
  else
    return .stop ()

end Machine

/-- Where a loop stands after the visit of an item. -/
def Visit.stage (cursor : Cursor) : Visit Unit → Stage Cursor
  | .stop _ => .done
  | .next _ => .check cursor

section Rounds

variable {m : Machine}

theorem goOnIf_leads {loop : Loop Cursor} {c d : Cursor} {condition : Run Bool}
    (h : loop.check c = Machine.goOnIf condition d)
    : loop.Leads (.check c) condition fun holds => if holds then .body d else .done := by
  intro s
  have hcheck : loop.check c s = Machine.goOnIf condition d s := by
    rw [h]
  cases hcondition : condition s with
  | error halt t => exact (Loop.Step.checkFails (hcheck.trans (Run.bind_error hcondition))).error
  | ok holds t =>
    have hcheck := hcheck.trans (Run.bind_ok hcondition)
    cases holds with
    | true => exact (Loop.Step.holds hcheck).ok rfl
    | false => exact (Loop.Step.ended hcheck).ok rfl

section Each

variable (m) (label index : Option String) (value : String) (source : Source) (body : List Stmt)

/-- A computation goes through the rounds of a loop over items from where the loop stands. -/
def Machine.Visits (c : Cursor) (x : Run Unit) : Prop :=
  (m.eachLoop label index value source body).Leads (.check c) x fun _ => .done

theorem visitIf_leads (c : Cursor)
    : (m.eachLoop label index value source body).Leads (.check c)
        (m.bindNext value index c >>= m.visitIf label body) (Visit.stage c.after) := by
  apply (goOnIf_leads rfl).bind
  intro found
  cases found with
  | false => exact Loop.pure_leads _ rfl
  | true =>
    show (m.eachLoop label index value source body).Leads (.body c.after) (do
      m.execBlock body
      if ← Run.leavesLoop label then return Visit.stop () else return Visit.next ()) (Visit.stage c.after)
    rw [← bind_assoc]
    apply (Loop.body_leads c.after).bind
    intro leaves
    cases leaves with
    | true => exact Loop.pure_leads _ rfl
    | false => exact Loop.Leads.of_check rfl (Loop.pure_leads _ rfl)

variable {m label index value source body}

/-- An item is visited, and then those after it. -/
theorem visit_leads {c : Cursor} {x : Run (Visit Unit)} {f : Visit Unit → Run Unit}
    (hx : (m.eachLoop label index value source body).Leads (.check c) x (Visit.stage c.after))
    (hstop : f (.stop ()) = pure ()) (hnext : m.Visits label index value source body c.after (f (.next ())))
    : m.Visits label index value source body c (x >>= f) := by
  apply hx.bind
  intro visited
  cases visited with
  | stop acc =>
    rw [hstop]
    exact Loop.pure_leads _ rfl
  | next acc => exact hnext

/-- There is no item left. -/
theorem over_leads {c : Cursor} (h : m.bindNext value index c = pure false)
    : m.Visits label index value source body c (pure ()) := by
  intro s
  have hcheck : (m.eachLoop label index value source body).check c s = .ok none s := by
    show Machine.goOnIf (m.bindNext value index c) c.after s = _
    rw [h]
    rfl
  exact (Loop.Step.ended hcheck).ok rfl

theorem visitItem_leads {c : Cursor} {i item : Value}
    (h : m.bindNext value index c = do
      Machine.bindItem value index i item
      return true)
    : (m.eachLoop label index value source body).Leads (.check c)
        (m.visitItem label index value body () i item) (Visit.stage c.after) := by
  have hvisit := visitIf_leads m label index value source body c
  rw [h, bind_assoc] at hvisit
  exact hvisit

theorem visitWords_leads (n : Nat) (i word : Int64)
    : m.Visits label index value source body (.words n i word)
        (Machine.visitWords (m.visitItem label index value body) () n i word) := by
  induction n generalizing i word with
  | zero => exact over_leads rfl
  | succ n ih =>
    unfold Machine.visitWords
    apply visit_leads (visitItem_leads rfl)
    . rfl
    . exact ih (i + 1) (word + 1)

theorem visitChars_leads (cs : List Char) (i : Int64)
    : m.Visits label index value source body (.chars cs i)
        (Machine.visitChars (m.visitItem label index value body) () cs i) := by
  induction cs generalizing i with
  | nil => exact over_leads rfl
  | cons c cs ih =>
    unfold Machine.visitChars
    apply visit_leads (visitItem_leads rfl)
    . rfl
    . exact ih (i + 1)

theorem visitEntries_leads (entries : List (String × Value))
    : m.Visits label index value source body (.entries entries)
        (Machine.visitEntries (m.visitItem label index value body) () entries) := by
  induction entries with
  | nil => exact over_leads rfl
  | cons entry rest ih =>
    unfold Machine.visitEntries
    have h := visitIf_leads m label index value source body (.entries (entry :: rest))
    simp only [Machine.bindNext, bind_assoc, pure_bind] at h
    apply visit_leads h.lettingGo
    . rfl
    . exact ih

theorem visitItems_leads (container : Value) (n : Nat) (i : Int64)
    : m.Visits label index value source body (.items container n i)
        (m.visitItems container (m.visitItem label index value body) () n i) := by
  induction n generalizing i with
  | zero => exact over_leads rfl
  | succ n ih =>
    unfold Machine.visitItems
    have h := visitIf_leads m label index value source body (.items container (n + 1) i)
    simp only [Machine.bindNext, bind_assoc, pure_bind] at h
    rw [← bind_assoc]
    apply visit_leads h
    . rfl
    . exact ih (i + 1)

theorem visitSteps_leads (step : Value) (fuel : Nat) (i : Int64)
    : m.Visits label index value source body (.steps step i)
        (m.visitSteps step (m.visitItem label index value body) () fuel i) := by
  induction fuel generalizing i with
  | zero => exact Loop.exhausted_leads
  | succ fuel ih =>
    unfold Machine.visitSteps
    have h := visitIf_leads m label index value source body (.steps step i)
    rw [← bind_assoc]
    apply visit_leads
    . apply Loop.Leads.lettingGo_after
      refine (congrArg (fun x => Loop.Leads _ _ x _) ?_).mp h
      simp only [Machine.bindNext, bind_assoc]
      apply bind_congr
      intro answer
      apply bind_congr
      intro
      apply bind_congr
      intro found
      cases found with
      | none => rfl
      | some item => exact bind_assoc _ _ _
    . rfl
    . exact ih (i + 1)

/-- Visits the items from where the loop stands. -/
def Machine.visitAll (m : Machine) (visit : Unit → Value → Value → Run (Visit Unit)) : Cursor → Run Unit
  | .none => return
  | .words n index word => visitWords visit () n index word
  | .entries rest => visitEntries visit () rest
  | .chars rest index => visitChars visit () rest index
  | .items container n index => m.visitItems container visit () n index
  | .steps step index => m.visitSteps step visit () m.fuel index

theorem visitAll_leads (c : Cursor)
    : m.Visits label index value source body c (m.visitAll (m.visitItem label index value body) c) := by
  cases c with
  | none => exact over_leads rfl
  | words n i word => exact visitWords_leads n i word
  | entries rest => exact visitEntries_leads rest
  | chars rest i => exact visitChars_leads rest i
  | items container n i => exact visitItems_leads container n i
  | steps step i => exact visitSteps_leads step m.fuel i

end Each

theorem iterateValue_eq (visit : Unit → Value → Value → Run (Visit Unit)) (value : Value)
    : m.iterateValue value visit () = m.openValue value >>= m.visitAll visit := by
  unfold Machine.iterateValue Machine.openValue
  rw [bind_assoc]
  apply bind_congr
  intro hook
  cases hook with
  | some hook =>
    simp only [bind_assoc]
    apply bind_congr
    intro step
    apply bind_congr
    intro
    apply bind_congr
    intro callable
    cases callable <;> rfl
  | none => cases value <;> rfl

theorem iterate_eq (visit : Unit → Value → Value → Run (Visit Unit)) (source : Source)
    : m.iterate source visit () = m.openSource source >>= m.visitAll visit := by
  unfold Machine.iterate Machine.openSource
  cases source with
  | range first last inclusive =>
    simp only [bind_assoc, pure_bind, Machine.visitRange_eq]
    rfl
  | iterable value =>
    simp only [bind_assoc, iterateValue_eq]

theorem runLoop_leads (label : Option String) (start check next : Option Expr) (body : List Stmt) (fuel : Nat)
    : (m.forLoop label start check next body).Leads (.check .none) (m.runLoop label check next body fuel)
        fun _ => .done := by
  induction fuel with
  | zero => exact Loop.exhausted_leads
  | succ fuel ih =>
    unfold Machine.runLoop
    apply (goOnIf_leads rfl).bind
    intro holds
    cases holds with
    | false => exact Loop.pure_leads _ rfl
    | true =>
      rw [if_pos rfl, ← bind_assoc]
      apply (Loop.body_leads Cursor.none).bind
      intro leaves
      cases leaves with
      | true => exact Loop.pure_leads _ rfl
      | false =>
        have hnext := (Loop.next_leads Cursor.none).bind fun _ => ih
        unfold Machine.forLoop at hnext
        rw [bind_assoc] at hnext
        exact hnext

theorem runDoWhile_leads (label : Option String) (check : Expr) (body : List Stmt) (fuel : Nat)
    : (m.doWhileLoop label check body).Leads (.body .none) (m.runDoWhile label check body fuel)
        fun _ => .done := by
  induction fuel with
  | zero => exact Loop.exhausted_leads
  | succ fuel ih =>
    unfold Machine.runDoWhile
    rw [← bind_assoc]
    apply (Loop.body_leads Cursor.none).bind
    intro leaves
    cases leaves with
    | true => exact Loop.pure_leads _ rfl
    | false =>
      apply Loop.Leads.of_check rfl
      apply (goOnIf_leads rfl).bind
      intro holds
      cases holds with
      | false => exact Loop.pure_leads _ rfl
      | true => exact ih

theorem runWhile_leads (label : Option String) (check : Expr) (body : List Stmt) (fuel : Nat)
    : (m.whileLoop label check body).Leads (.check .none) (m.runWhile label check body fuel)
        fun _ => .done := by
  induction fuel with
  | zero => exact Loop.exhausted_leads
  | succ fuel ih =>
    unfold Machine.runWhile
    refine Loop.Leads.bind
      (?_ : Loop.Leads _ _ _ fun again => if again then .next Cursor.none else .done) ?_
    . apply Loop.Leads.lettingGo
      rw [← bind_assoc]
      apply (goOnIf_leads rfl).bind
      intro holds
      cases holds with
      | false => exact Loop.pure_leads _ rfl
      | true =>
        rw [if_pos rfl, ← bind_assoc]
        apply (Loop.body_leads Cursor.none).bind
        intro leaves
        cases leaves with
        | true => exact Loop.pure_leads _ rfl
        | false => exact Loop.pure_leads _ rfl
    . intro again
      cases again with
      | false => exact Loop.pure_leads _ rfl
      | true => exact Loop.Leads.of_check rfl ih

end Rounds

section Expressions

variable {m : Machine} {l : Level}

theorem openValue_parallel (value : Value) : Parallel m m l (m.openValue value) (m.openValue value) := by
  unfold Machine.openValue
  apply Parallel.bind (.findHook value "__iter__")
  intro found
  cases found with
  | some hook =>
    apply Parallel.bind (.invoke hook .undefined [])
    intro step
    apply Parallel.bind (.hold step)
    intro
    apply Parallel.bind (.isCallable step)
    intro callable
    apply Parallel.ite
    . apply Parallel.pure
    . apply Parallel.fail
  | none =>
    dsimp only
    split
    . apply Parallel.pure
    . apply Parallel.bind .getHeap
      intro heap
      apply Parallel.pure
    . apply Parallel.pure
    . apply Parallel.bind .getHeap
      intro heap
      apply Parallel.pure
    . apply Parallel.bind .getHeap
      intro heap
      apply Parallel.pure
    . apply Parallel.bind .getHeap
      intro heap
      apply Parallel.raise

theorem openSource_parallel (hl : l ≠ .call) (source : Source)
    : Parallel m m l (m.openSource source) (m.openSource source) := by
  unfold Machine.openSource
  split
  . apply Parallel.bind (.eval hl _)
    intro first
    apply Parallel.bind (.rangeBound first _)
    intro first
    apply Parallel.bind (.eval hl _)
    intro last
    apply Parallel.bind (.rangeBound last _)
    intro last
    apply Parallel.pure
  . apply Parallel.bind (.evalHeld hl _)
    intro value
    apply openValue_parallel

theorem bindNext_parallel (hl : l ≠ .call) (value : String) (index : Option String) (c : Cursor)
    : Parallel m m l (m.bindNext value index c) (m.bindNext value index c) := by
  have hbind (i item : Value) : Parallel m m l
      (Machine.bindItem value index i item >>= fun _ => pure true)
      (Machine.bindItem value index i item >>= fun _ => pure true) :=
    .bind (.bindItem hl value index i item) fun _ => .pure true
  unfold Machine.bindNext
  split
  case h_6 => exact hbind _ _
  case h_7 =>
    apply Parallel.bind (.keep _ rfl)
    intro
    exact hbind _ _
  case h_8 => exact hbind _ _
  case h_9 =>
    apply Parallel.bind (.getIndex _ _)
    intro item
    exact hbind _ _
  case h_10 =>
    apply Parallel.bind (.invoke _ .undefined [])
    intro answer
    apply Parallel.bind (.hold answer)
    intro
    apply Parallel.bind (.stepItem? answer)
    intro found
    cases found with
    | none => exact .pure false
    | some item => exact hbind _ _
  all_goals exact .pure false

end Expressions

/-- The loop starts with a check or with its body, and only the body leaves signals. -/
structure Loop.Calm {κ : Type} (loop : Loop κ) : Prop where
  start {s t : State} {stage : Stage κ} (h : loop.start s = .ok stage t)
    : t.context.flow = s.context.flow ∧ ∃ c, stage = .check c ∨ stage = .body c
  check (c : κ) : (loop.check c).Quiet
  next : loop.next.Quiet

theorem Loop.Calm.admits {κ : Type} {loop : Loop κ} (hcalm : loop.Calm) {s t : State} {stage : Stage κ}
    (h : loop.start s = .ok stage t) (hs : s.context.flow = .normal)
    : stage.Admits loop.label t.context.flow ∧ ¬stage.Over := by
  rcases hcalm.start h with ⟨hflow, c, hstage | hstage⟩
  . rw [hstage]
    exact ⟨hflow.trans hs, not_false⟩
  . rw [hstage]
    exact ⟨hflow.trans hs, not_false⟩

section Statements

variable {m : Machine} (hm : m.Respects Context.FlowKept)
include hm

theorem quiet_of_parallel {α : Type} {x : Run α} (h : Parallel m m .expr x x) : x.Quiet := by
  intro s t ht
  exact (h.leavesAlone flowKept_discipline hm s t ht nofun).1

theorem goOnIf_quiet {condition : Run Bool} (h : Parallel m m .expr condition condition) (c : Cursor)
    : (Machine.goOnIf condition c).Quiet := by
  apply quiet_of_parallel hm
  apply h.bind
  intro holds
  apply Parallel.ite
  . apply Parallel.pure
  . apply Parallel.pure

/-- Loops start quietly. -/
theorem start_quiet {α : Type} {x : Run α} {goal : α → Stage Cursor} {s t : State} {stage : Stage Cursor}
    (hx : Parallel m m .expr x x) (hgoal : ∀ a, ∃ c, goal a = .check c ∨ goal a = .body c)
    (h : (do return goal (← x) : Run (Stage Cursor)) s = .ok stage t)
    : t.context.flow = s.context.flow ∧ ∃ c, stage = .check c ∨ stage = .body c := by
  rw [Run.bind_apply] at h
  cases hr : x s with
  | error halt u =>
    rw [hr] at h
    injection h
  | ok a u =>
    rw [hr] at h
    injection h with hstage ht
    rw [← hstage, ← ht]
    exact ⟨quiet_of_parallel hm hx s u (.ok hr), hgoal a⟩

theorem loopOf_calm {kind : StmtKind} {loop : Loop Cursor} (h : m.loopOf kind = some loop) : loop.Calm := by
  have hpure : (pure () : Run Unit).Quiet := quiet_of_parallel hm (.pure ())
  cases kind with
  | loop label start check next body =>
    injection h with h
    rw [← h]
    constructor
    case start => exact start_quiet hm (.evalOptional Level.expr_ne_call start) fun _ => ⟨.none, .inl rfl⟩
    case check => exact goOnIf_quiet hm (.checkHolds Level.expr_ne_call check)
    case next =>
      apply quiet_of_parallel hm
      apply Parallel.bind (.evalOptional Level.expr_ne_call next)
      intro
      apply Parallel.pure
  | forEach label index value source body =>
    injection h with h
    rw [← h]
    constructor
    case start => exact start_quiet hm (openSource_parallel Level.expr_ne_call source) fun c => ⟨c, .inl rfl⟩
    case check => exact fun c => goOnIf_quiet hm (bindNext_parallel Level.expr_ne_call value index c) c.after
    case next => exact hpure
  | whileDo label check body =>
    injection h with h
    rw [← h]
    constructor
    case start => exact start_quiet hm (.pure ()) fun _ => ⟨.none, .inl rfl⟩
    case check =>
      apply goOnIf_quiet hm
      apply Parallel.bind (.evalHeld Level.expr_ne_call check)
      intro value
      exact .isTruthy value
    case next => exact hpure
  | doWhile label check body =>
    injection h with h
    rw [← h]
    constructor
    case start => exact start_quiet hm (.pure ()) fun _ => ⟨.none, .inr rfl⟩
    case check => exact goOnIf_quiet hm (.checkHolds Level.expr_ne_call (some check))
    case next => exact hpure
  | _ => cases h

end Statements

/-- Whether a statement is a loop with a block of its own around it. -/
def StmtKind.loopsInBlock : StmtKind → Bool
  | .loop .. => true
  | .forEach .. => true
  | _ => false

/-- Every loop of the language is in steps. -/
theorem execKind_runs {m : Machine} {kind : StmtKind} {loop : Loop Cursor} (h : m.loopOf kind = some loop)
    : ∃ rounds, loop.Runs rounds ∧
        m.execKind kind = if kind.loopsInBlock then m.withBlock rounds else rounds := by
  cases kind with
  | loop label start check next body =>
    injection h with h
    rw [← h]
    exact ⟨_, Loop.runs_bind rfl fun _ => runLoop_leads label start check next body m.fuel, rfl⟩
  | forEach label index value source body =>
    injection h with h
    rw [← h]
    refine ⟨m.iterate source (m.visitItem label index value body) (), ?_, rfl⟩
    rw [iterate_eq]
    exact Loop.runs_bind rfl visitAll_leads
  | whileDo label check body =>
    injection h with h
    rw [← h]
    exact ⟨_, (runWhile_leads label check body m.fuel).runs rfl, rfl⟩
  | doWhile label check body =>
    injection h with h
    rw [← h]
    exact ⟨_, (runDoWhile_leads label check body m.fuel).runs rfl, rfl⟩
  | _ => cases h

section Frames

variable {m : Machine}

/-- The state at another statement. -/
def State.atPosition (s : State) (pos : Position) : State :=
  s.withContext { s.context with
    stack := { s.context.stack with top := { s.context.stack.top with position := pos } } }

/-- The state in a new block. -/
def State.inBlock (s : State) : State :=
  let made := s.heap.newScope (some s.scope)
  State.enter { s with heap := made.2 } .block made.1

theorem settle_ok {α : Type} {r : Except Error α} {deferred : Option Error} {s t : State} {a : α}
    (h : Machine.settle r deferred s = .ok a t)
    : r = .ok a ∧ t = s := by
  unfold Machine.settle at h
  split at h
  . injection h
  . injection h
  . injection h with ha ht
    rw [ha, ht]
    exact ⟨rfl, rfl⟩

/-- A block that is left with a result leaves the signal of its body. -/
theorem withBlock_ok (hm : m.Respects Context.FlowKept) {α : Type} {x : Run α} {s t : State} {a : α}
    (h : m.withBlock x s = .ok a t)
    : ∃ u, x s.inBlock = .ok a u ∧ t.context.flow = u.context.flow := by
  have h : (Run.capture x >>= fun r => Machine.leaveFrame >>= fun calls =>
      m.release (Machine.raisedValues r) calls >>= Machine.settle r) s.inBlock = .ok a t := h
  rcases Run.ok_of_bind h with ⟨r, u, hx, h⟩
  have h : (m.release (Machine.raisedValues r) u.context.stack.top.defers >>= Machine.settle r) u.leave =
      .ok a t := h
  rcases Run.ok_of_bind h with ⟨deferred, v, hrelease, h⟩
  rcases settle_ok h with ⟨hr, ht⟩
  rw [hr] at hx
  rw [ht]
  exact ⟨u, Run.captured_ok hx, (hm.release _ _ _ _ (.ok hrelease) nofun).1⟩

/-- The state in which a loop starts. -/
def State.atLoop (s : State) (pos : Position) (kind : StmtKind) : State :=
  if kind.loopsInBlock then (s.atPosition pos).inBlock else s.atPosition pos

theorem locating_ok {α : Type} {x : Run α} {s t : State} {a : α} (h : Run.locating x s = .ok a t)
    : x s = .ok a t := by
  rcases Run.ok_of_bind h with ⟨r, u, hx, h⟩
  cases r with
  | ok b =>
    injection h with hb ht
    rw [← hb, ← ht]
    exact Run.captured_ok hx
  | error e =>
    rcases Run.ok_of_bind h with ⟨e', v, _, h⟩
    injection h

/-- A loop that ends leaves the signal of its rounds. -/
theorem exec_ok {host : Host} {n : Nat} (hm : (host.machine n).Respects Context.FlowKept) {pos : Position}
    {kind : StmtKind} {rounds : Run Unit} {s t : State}
    (hkind : (host.machine n).execKind kind =
      if kind.loopsInBlock then (host.machine n).withBlock rounds else rounds)
    (h : (host.machine (n + 1)).exec (.mk pos kind) s = .ok () t)
    : ∃ u, rounds (s.atLoop pos kind) = .ok () u ∧ t.context.flow = u.context.flow := by
  have hexec : (host.machine (n + 1)).exec (.mk pos kind) =
      Run.lettingGo ((host.machine n).execStmt (.mk pos kind)) := above_exec host n (host.machine n) _
  rw [hexec] at h
  rcases Run.ok_of_lettingGo h with ⟨u, h, ht⟩
  have h : (host.machine n).execKind kind (s.atPosition pos) = .ok () u := locating_ok h
  rw [hkind] at h
  rw [ht]
  unfold State.atLoop
  split at h
  . next hblock =>
    rw [if_pos hblock]
    rcases withBlock_ok hm h with ⟨v, hv, hflow⟩
    exact ⟨v, hv, hflow⟩
  . next hblock =>
    rw [if_neg hblock]
    exact ⟨u, h, rfl⟩

end Frames

/--
Every loop takes the signals that are meant for it. It goes on after one that tells it to go on, and
ends without a signal after one that tells it to end. It ends at once with a signal that is not
meant for it, and with no other signal.
-/
theorem loops_take_their_signals (host : Host) (hflow : host.KeepsFlow) (n : Nat) (pos : Position)
    (kind : StmtKind) (loop : Loop Cursor) (hloop : (host.machine n).loopOf kind = some loop)
    : let m := host.machine n
      (∃ rounds, loop.Runs rounds ∧
        m.execKind kind = if kind.loopsInBlock then m.withBlock rounds else rounds) ∧
      (∀ s t, s.context.flow = .normal → (host.machine (n + 1)).exec (.mk pos kind) s = .ok () t →
        ∃ stage u events v, loop.start (s.atLoop pos kind) = .ok stage u ∧
          loop.Steps stage u events .done v ∧ t.context.flow = v.context.flow ∧
          (t.context.flow = .normal ∨ t.context.flow.Escapes loop.label ∧
            ∃ front, events = front ++ [.body (some t.context.flow)])) ∧
      (∀ stage u events final v, loop.Steps stage u events final v → final.Over →
        ∀ front f back, events = front ++ .body (some f) :: back →
          Loop.Answers loop.label f back final v.context.flow) := by
  intro m
  have hm : m.Respects Context.FlowKept := machine_respects flowKept_discipline hflow n
  have hcalm := loopOf_calm hm hloop
  rcases execKind_runs hloop with ⟨rounds, hruns, hkind⟩
  refine ⟨⟨rounds, hruns, hkind⟩, ?_, ?_⟩
  . intro s t hs h
    rcases exec_ok hm hkind h with ⟨w, hw, hflow⟩
    have hnormal : (s.atLoop pos kind).context.flow = .normal := by
      unfold State.atLoop
      split
      . exact hs
      . exact hs
    rcases hruns (s.atLoop pos kind) with ⟨halt, u, _, h⟩ | ⟨stage, u, hstart, hled⟩
    . rw [h] at hw
      injection hw
    . rw [hw] at hled
      cases hled with
      | @ok events _ _ v held hsteps hdone =>
        rw [hdone] at hsteps
        refine ⟨stage, u, events, v, hstart, hsteps, hflow, ?_⟩
        rw [hflow]
        rcases hcalm.admits hstart hnormal with ⟨hadmits, hgoes⟩
        rcases hsteps.admits hcalm.check hcalm.next hadmits with hends | hescapes
        . exact .inl hends
        . by_cases hends : v.context.flow = .normal
          . exact .inl hends
          . exact .inr ⟨hescapes, hsteps.escaped hcalm.check hcalm.next hadmits hgoes hends⟩
  . intro stage u events final v h hover front f back hevents
    exact h.answers hover hevents

/-- The signal that a computation leaves. -/
def Run.signal? (x : Run Unit) (s : State) : Option Flow :=
  match x s with
  | .ok _ t => some t.context.flow
  | .error _ _ => none

theorem Run.ok_of_signal {x : Run Unit} {s : State} {f : Flow} (h : x.signal? s = some f)
    : ∃ t, x s = .ok () t ∧ t.context.flow = f := by
  unfold signal? at h
  cases hx : x s with
  | ok a t =>
    rw [hx] at h
    injection h with h
    exact ⟨t, rfl, h⟩
  | error halt t =>
    rw [hx] at h
    cases h

/-- A loop over a range that is left by a jump out of the loop around it. -/
theorem scripted_loops_take_their_signals
    : let host := Host.scripted fun _ => some []
      let m := host.machine 8
      let source := Source.range (.int 1) (.int 3) true
      let body := [Stmt.ofKind (.breakLoop (some "outer"))]
      let loop := m.eachLoop none (some "i") "x" source body
      host.KeepsFlow ∧ m.loopOf (.forEach none (some "i") "x" source body) = some loop ∧
        ∃ stage u front v,
          loop.Steps stage u (front ++ [.body (some (.jump .breakLoop (some "outer")))]) .done v := by
  intro host m source body loop
  have hflow : host.KeepsFlow := scripted_respects flowKept_discipline
  let s := Engine.bareState {} .silent 0
  let kind := StmtKind.forEach none (some "i") "x" source body
  have hsignal : ((host.machine 9).exec (.mk .unknown kind)).signal? s =
      some (.jump .breakLoop (some "outer")) := by
    decide +kernel
  rcases Run.ok_of_signal hsignal with ⟨t, ht, hjump⟩
  rcases (loops_take_their_signals host hflow 8 .unknown kind loop rfl).2.1 s t rfl ht
    with ⟨stage, u, events, v, _, hsteps, _, hends | ⟨_, front, hevents⟩⟩
  . rw [hjump] at hends
    cases hends
  . rw [hevents, hjump] at hsteps
    exact ⟨hflow, rfl, stage, u, front, v, hsteps⟩

-- The loop around it takes the signal and goes on with its own check and step.
example :
    let inner := Stmt.ofKind (.forEach none none "x" (.range (.int 1) (.int 3) true)
      [Stmt.ofKind (.continueLoop (some "outer"))])
    let outer := Stmt.ofKind (.forEach (some "outer") none "y" (.iterable (.str "ab")) [inner])
    ((Host.none.machine 9).exec outer).signal? (Engine.bareState {} .silent 0) = some .normal := by
  decide +kernel

end ScriptEngine
