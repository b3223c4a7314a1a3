import ScriptEngine.Proofs.Frames
import ScriptEngine.Proofs.LoopSignals

/-!
This module contains in which frames the parts of a statement run. Apart from calls, a statement runs nothing
but its parts, and each of them in a number of blocks that can be read off the statement.
-/

namespace ScriptEngine

/-- The kinds of all frames, the innermost one first. -/
def State.kinds (s : State) : List FrameKind := s.context.stack.frames.map Frame.kind

theorem State.kinds_enter (s : State) (kind : FrameKind) (scope : ScopeRef)
    : (s.enter kind scope).kinds = kind :: s.kinds := rfl

/-- When a frame is left, those around it are left over. -/
theorem State.kinds_leave {s t : State} {kind : FrameKind} (h : t.kinds = kind :: s.kinds)
    : t.leave.kinds = s.kinds := by
  have hbelow : t.context.stack.below.map Frame.kind = s.kinds := by
    injection h
  show t.context.stack.pop.frames.map Frame.kind = s.kinds
  rw [← hbelow]
  unfold Stack.pop
  split
  . next hempty =>
    rw [hempty] at hbelow
    exact nomatch hbelow
  . next hframes =>
    rw [hframes]
    rfl

section Parts

/-- Parts of a statement, each with the number of blocks that it runs in. -/
abbrev Parts := List (Stmt × Nat)

/-- One more block around all parts. -/
def Parts.inBlock (parts : Parts) : Parts := parts.map fun part => (part.1, part.2 + 1)

/-- Statements that run in a block of their own. -/
def Parts.ofBlock (body : List Stmt) : Parts := Parts.inBlock (body.map fun stmt => (stmt, 0))

/-- The parts of the arms of an `if`. What an arm defines first puts one block around all that follows. -/
def IfArm.parts (otherwise : List Stmt) : List IfArm → Parts
  | [] => .ofBlock otherwise
  | .mk none _ body :: arms => Parts.ofBlock body ++ parts otherwise arms
  | .mk (some _) _ body :: arms => Parts.inBlock (Parts.ofBlock body ++ parts otherwise arms)

def SwitchCase.parts : SwitchCase → Parts
  | .mk _ body _ => .ofBlock body

def Handler.parts : Handler → Parts
  | .mk _ body => .ofBlock body

/-- The statements that a statement runs without a call in between. -/
def StmtKind.parts : StmtKind → Parts
  | .block body | .whileDo _ _ body | .doWhile _ _ body => .ofBlock body
  | .loop _ _ _ _ body | .forEach _ _ _ _ body => Parts.inBlock (.ofBlock body)
  | .cond arms otherwise => IfArm.parts (otherwise.getD []) arms
  | .switch _ cases otherwise => cases.flatMap SwitchCase.parts ++ Parts.ofBlock (otherwise.getD [])
  | .attempt body handler cleanup =>
    Parts.ofBlock body ++ (handler.toList.flatMap Handler.parts ++ Parts.ofBlock (cleanup.getD []))
  | .fallback stmt body => (stmt, 0) :: Parts.ofBlock body
  | _ => []

def Stmt.parts : Stmt → Parts
  | .mk _ kind => kind.parts

end Parts

namespace Run

variable {α β : Type} {kinds : List FrameKind}

/-- In these frames both computations do the same, and they are in these frames again when they end. -/
structure SameIn (kinds : List FrameKind) (x x' : Run α) : Prop where
  same {s : State} (hs : s.kinds = kinds) : x' s = x s
  keeps {s t : State} (hs : s.kinds = kinds) (h : x.Ends s t) : t.kinds = kinds

theorem sameIn_of_leaves {l : Level} {x : Run α} (hx : x.Leaves (Context.FramesKept l)) : SameIn kinds x x where
  same _ := rfl
  keeps {s t} hs h := by
    rw [← hs]
    exact (hx s t h).1.preserved.kinds

theorem SameIn.bind {x x' : Run α} {f f' : α → Run β} (hx : SameIn kinds x x')
    (hf : ∀ a, SameIn kinds (f a) (f' a))
    : SameIn kinds (x >>= f) (x' >>= f') where
  same {s} hs := by
    rw [bind_apply, bind_apply, hx.same hs]
    cases h : x s with
    | ok a t => exact (hf a).same (hx.keeps hs (.ok h))
    | error halt t => rfl
  keeps {s t} hs h := by
    rcases ends_bind h with ⟨e, h⟩ | ⟨a, u, hu, h⟩
    . exact hx.keeps hs (.raised h)
    . exact (hf a).keeps (hx.keeps hs (.ok hu)) h

theorem SameIn.capture {x x' : Run α} (hx : SameIn kinds x x')
    : SameIn kinds (Run.capture x) (Run.capture x') where
  same {s} hs := by
    unfold Run.capture
    rw [hx.same hs]
  keeps hs h := hx.keeps hs (ends_capture h)

theorem SameIn.lettingGo {x x' : Run α} (hx : SameIn kinds x x')
    : SameIn kinds (Run.lettingGo x) (Run.lettingGo x') where
  same {s} hs := by
    unfold Run.lettingGo
    rw [hx.same hs]
  keeps hs h := by
    rcases ends_lettingGo h with ⟨u, hu, ht⟩
    rw [ht]
    exact hx.keeps (t := u) hs hu

/-- An error that is located at the current position. -/
theorem SameIn.locating {x x' : Run α} (hx : SameIn kinds x x')
    : SameIn kinds (Run.locating x) (Run.locating x') := by
  apply hx.capture.bind
  intro r
  apply sameIn_of_leaves (l := .call)
  cases r with
  | ok a => exact pure_leaves framesKept_discipline a
  | error e =>
    apply leaves_of_same framesKept_discipline
    intro s t h
    have h : (raiseError (s.located e) : Run α).Ends s t := h
    rw [ends_raiseError h]

theorem sameIn_ofCaptured (r : Except Error α) : SameIn kinds (ofCaptured r) (ofCaptured r) :=
  sameIn_of_leaves (l := .call) (ofCaptured_leaves framesKept_discipline r)

theorem SameIn.ite {c : Prop} [Decidable c] {x x' y y' : Run α} (hx : SameIn kinds x x') (hy : SameIn kinds y y')
    : SameIn kinds (if c then x else y) (if c then x' else y') := by
  split
  . exact hx
  . exact hy

end Run

namespace Machine

/-- The machine that runs statements in another way. -/
def withExec (m : Machine) (exec : Stmt → Run Unit) : Machine := { m with exec := exec }

/-- In these frames and the blocks of the parts, the other way to run the parts makes no difference. -/
def Shares (m : Machine) (exec : Stmt → Run Unit) (kinds : List FrameKind) (parts : Parts) : Prop :=
  ∀ part ∈ parts, ∀ t : State, t.kinds = List.replicate part.2 .block ++ kinds → exec part.1 t = m.exec part.1 t

section Values

variable (m : Machine) (exec : Stmt → Run Unit)

/-! Values are computed without statements, apart from those of the functions that are called. -/

theorem stringify_withExec : (m.withExec exec).stringify = m.stringify := by
  have hgo (depth : Nat) : stringify.go (m.withExec exec) depth = stringify.go m depth := by
    induction depth with
    | zero => rfl
    | succ depth ih =>
      funext value
      unfold stringify.go
      rw [ih]
      rfl
  exact hgo m.fuel

theorem compareValues_withExec : (m.withExec exec).compareValues = m.compareValues := by
  have hgo (depth : Nat) : compareValues.go (m.withExec exec) depth = compareValues.go m depth := by
    induction depth with
    | zero => rfl
    | succ depth ih =>
      funext a b
      unfold compareValues.go
      rw [ih]
      rfl
  exact hgo m.fuel

theorem getStatic_withExec : (m.withExec exec).getStatic = m.getStatic := by
  have hgo (view : TypeRef) (name : String) (depth : Nat)
      : getStatic.go (m.withExec exec) view name depth = getStatic.go m view name depth := by
    induction depth with
    | zero => rfl
    | succ depth ih =>
      funext type
      unfold getStatic.go
      rw [ih]
      rfl
  funext type name
  exact congrFun (hgo type name (type.index + 1)) type

theorem getIndex_withExec : (m.withExec exec).getIndex = m.getIndex := by
  funext owner index
  unfold getIndex getMember
  rw [getStatic_withExec]
  rfl

theorem valueMatches_withExec : (m.withExec exec).valueMatches = m.valueMatches := by
  have hequal : (m.withExec exec).valuesEqual = m.valuesEqual := by
    unfold valuesEqual
    rw [compareValues_withExec]
    rfl
  have hany (input : Value) (values : List Expr)
      : (m.withExec exec).equalsAny input values = m.equalsAny input values := by
    induction values with
    | nil => rfl
    | cons candidate rest ih =>
      unfold equalsAny
      rw [ih, hequal]
      rfl
  funext pattern input
  cases pattern with
  | oneOf values => exact hany input values
  | within min max includeMin includeMax =>
    unfold valueMatches withinBound
    rw [compareValues_withExec]
    rfl

theorem evalKey_withExec : (m.withExec exec).evalKey = m.evalKey := by
  unfold evalKey
  rw [stringify_withExec]
  rfl

theorem execClass_withExec : (m.withExec exec).execClass = m.execClass := by
  have hmembers (owner : TypeRef) (defs : List MemberDef)
      : (m.withExec exec).evalMembers owner defs = m.evalMembers owner defs := by
    induction defs with
    | nil => rfl
    | cons member defs ih =>
      cases member with
      | mk key value =>
        unfold evalMembers
        rw [ih, evalKey_withExec]
        rfl
  have hbases (bases : List Expr) : (m.withExec exec).evalBases bases = m.evalBases bases := by
    induction bases with
    | nil => rfl
    | cons base bases ih =>
      unfold evalBases
      rw [ih]
      rfl
  funext code
  cases code with
  | mk name exported bases members statics =>
    unfold execClass
    simp only [hmembers, hbases]

theorem execExtend_withExec : (m.withExec exec).execExtend = m.execExtend := by
  have hextensions (exported : Bool) (id : Int) (items : List MemberDef)
      : (m.withExec exec).execExtensions exported id items = m.execExtensions exported id items := by
    induction items with
    | nil => rfl
    | cons item items ih =>
      cases item with
      | mk key value =>
        unfold execExtensions
        rw [ih, evalKey_withExec]
        rfl
  funext exported target items
  unfold execExtend
  simp only [hextensions]
  rfl

theorem execAssert_withExec : (m.withExec exec).execAssert = m.execAssert := by
  funext condition message
  unfold execAssert
  rw [stringify_withExec]
  rfl

theorem execThrow_withExec : (m.withExec exec).execThrow = m.execThrow := by
  funext value
  unfold execThrow
  rw [stringify_withExec]
  rfl

end Values

variable {m : Machine} {exec : Stmt → Run Unit} {kinds : List FrameKind} {parts parts' : Parts}

theorem Shares.left (h : m.Shares exec kinds (parts ++ parts')) : m.Shares exec kinds parts := by
  intro part hpart
  exact h part (List.mem_append_left parts' hpart)

theorem Shares.right (h : m.Shares exec kinds (parts ++ parts')) : m.Shares exec kinds parts' := by
  intro part hpart
  exact h part (List.mem_append_right parts hpart)

theorem Shares.inBlock (h : m.Shares exec kinds parts.inBlock) : m.Shares exec (.block :: kinds) parts := by
  intro part hpart t ht
  apply h (part.1, part.2 + 1) (List.mem_map_of_mem hpart)
  rw [ht, List.replicate_succ', List.append_assoc]
  rfl

section Steps

variable (hm : m.Respects Context.FramesKept)
include hm

/-- What a machine does without statements, it does in the frames that it started in. -/
theorem sameIn_of_parallel {α : Type} {l : Level} {x : Run α} (h : Parallel m m l x x) : Run.SameIn kinds x x :=
  Run.sameIn_of_leaves (h.leavesAlone framesKept_discipline hm)

theorem withBlock_sameIn {α : Type} {x x' : Run α} (hx : Run.SameIn (.block :: kinds) x x')
    : Run.SameIn kinds (m.withBlock x) ((m.withExec exec).withBlock x') := by
  apply (sameIn_of_parallel (l := .call) hm .currentScope).bind
  intro outer
  apply (Run.sameIn_of_leaves (l := .call) ((Run.alloc_onlyHeap _).leaves framesKept_discipline)).bind
  intro scope
  constructor
  case same =>
    intro s hs
    have henter : (s.enter .block scope).kinds = .block :: kinds := by
      rw [State.kinds_enter, hs]
    have hcapture : Run.capture x' (s.enter .block scope) = Run.capture x (s.enter .block scope) :=
      hx.capture.same henter
    show (Run.capture x' >>= _) (s.enter .block scope) = (Run.capture x >>= _) (s.enter .block scope)
    rw [Run.bind_apply, Run.bind_apply, hcapture]
    rfl
  case keeps =>
    intro s t hs h
    rcases ends_withFrame h with ⟨u, raised, calls, hu, ht⟩
    have henter : (s.enter .block scope).kinds = .block :: kinds := by
      rw [State.kinds_enter, hs]
    have hleave : u.leave.kinds = s.kinds := by
      apply State.kinds_leave
      rw [hx.keeps henter hu, hs]
    exact (Run.sameIn_of_leaves (hm.release raised calls)).keeps (hleave.trans hs) ht

theorem exec_sameIn {stmt : Stmt} (h : m.Shares exec kinds [(stmt, 0)])
    : Run.SameIn kinds (m.exec stmt) (exec stmt) where
  same {s} hs := h (stmt, 0) (List.mem_singleton_self _) s hs
  keeps hs ht := (sameIn_of_parallel hm (.exec stmt)).keeps hs ht

theorem execAll_sameIn {stmts : List Stmt} (h : m.Shares exec kinds (stmts.map fun stmt => (stmt, 0)))
    : Run.SameIn kinds (m.execAll stmts) ((m.withExec exec).execAll stmts) := by
  induction stmts with
  | nil => exact sameIn_of_parallel (l := .call) hm (.pure ())
  | cons stmt stmts ih =>
    have h : m.Shares exec kinds ([(stmt, 0)] ++ stmts.map fun stmt => (stmt, 0)) := h
    unfold execAll
    apply (exec_sameIn hm h.left).bind
    intro
    apply (sameIn_of_parallel (l := .call) hm .flow).bind
    intro flow
    apply Run.SameIn.ite
    . exact ih h.right
    . exact sameIn_of_parallel (l := .call) hm (.pure ())

theorem execBlock_sameIn {stmts : List Stmt} (h : m.Shares exec kinds (.ofBlock stmts))
    : Run.SameIn kinds (m.execBlock stmts) ((m.withExec exec).execBlock stmts) :=
  withBlock_sameIn hm (execAll_sameIn hm h.inBlock)

theorem execOptional_sameIn {body : Option (List Stmt)} (h : m.Shares exec kinds (.ofBlock (body.getD [])))
    : Run.SameIn kinds (m.execOptional body) ((m.withExec exec).execOptional body) := by
  cases body with
  | none => exact sameIn_of_parallel (l := .call) hm (.pure ())
  | some body => exact execBlock_sameIn hm h

theorem runLoop_sameIn (label : Option String) (check next : Option Expr) {body : List Stmt} (fuel : Nat)
    (h : m.Shares exec kinds (.ofBlock body))
    : Run.SameIn kinds (m.runLoop label check next body fuel)
        ((m.withExec exec).runLoop label check next body fuel) := by
  induction fuel with
  | zero => exact sameIn_of_parallel (l := .call) hm .exhausted
  | succ fuel ih =>
    unfold runLoop
    apply (sameIn_of_parallel hm (.checkHolds Level.stmt_ne_call check)).bind
    intro holds
    apply Run.SameIn.ite
    . apply (execBlock_sameIn hm h).bind
      intro
      apply (sameIn_of_parallel hm (.leavesLoop label)).bind
      intro leaves
      apply Run.SameIn.ite
      . apply (sameIn_of_parallel hm (.evalOptional Level.stmt_ne_call next)).bind
        intro
        exact ih
      . exact sameIn_of_parallel (l := .call) hm (.pure ())
    . exact sameIn_of_parallel (l := .call) hm (.pure ())

theorem runWhile_sameIn (label : Option String) (check : Expr) {body : List Stmt} (fuel : Nat)
    (h : m.Shares exec kinds (.ofBlock body))
    : Run.SameIn kinds (m.runWhile label check body fuel)
        ((m.withExec exec).runWhile label check body fuel) := by
  induction fuel with
  | zero => exact sameIn_of_parallel (l := .call) hm .exhausted
  | succ fuel ih =>
    unfold runWhile
    apply Run.SameIn.bind
    . apply Run.SameIn.lettingGo
      apply (sameIn_of_parallel hm (.evalHeld Level.stmt_ne_call check)).bind
      intro value
      apply (sameIn_of_parallel (l := .call) hm (.isTruthy value)).bind
      intro holds
      apply Run.SameIn.ite
      . apply (execBlock_sameIn hm h).bind
        intro
        apply (sameIn_of_parallel hm (.leavesLoop label)).bind
        intro leaves
        exact sameIn_of_parallel (l := .call) hm (.pure _)
      . exact sameIn_of_parallel (l := .call) hm (.pure _)
    . intro again
      apply Run.SameIn.ite
      . exact ih
      . exact sameIn_of_parallel (l := .call) hm (.pure ())

theorem runDoWhile_sameIn (label : Option String) (check : Expr) {body : List Stmt} (fuel : Nat)
    (h : m.Shares exec kinds (.ofBlock body))
    : Run.SameIn kinds (m.runDoWhile label check body fuel)
        ((m.withExec exec).runDoWhile label check body fuel) := by
  induction fuel with
  | zero => exact sameIn_of_parallel (l := .call) hm .exhausted
  | succ fuel ih =>
    unfold runDoWhile
    apply (execBlock_sameIn hm h).bind
    intro
    apply (sameIn_of_parallel hm (.leavesLoop label)).bind
    intro leaves
    apply Run.SameIn.ite
    . apply (sameIn_of_parallel hm (.checkHolds Level.stmt_ne_call (some check))).bind
      intro holds
      apply Run.SameIn.ite
      . exact ih
      . exact sameIn_of_parallel (l := .call) hm (.pure ())
    . exact sameIn_of_parallel (l := .call) hm (.pure ())

section Visits

variable {visit visit' : Unit → Value → Value → Run (Visit Unit)}
variable (hvisit : ∀ i item, Run.SameIn kinds (visit () i item) (visit' () i item))
include hvisit

theorem visitWords_sameIn (n : Nat) (index word : Int64)
    : Run.SameIn kinds (visitWords visit () n index word) (visitWords visit' () n index word) := by
  induction n generalizing index word with
  | zero => exact sameIn_of_parallel (l := .call) hm (.pure ())
  | succ n ih =>
    unfold visitWords
    apply (hvisit _ _).bind
    intro visited
    cases visited with
    | stop => exact sameIn_of_parallel (l := .call) hm (.pure ())
    | next => apply ih

theorem visitEntries_sameIn (entries : List (String × Value))
    : Run.SameIn kinds (visitEntries visit () entries) (visitEntries visit' () entries) := by
  induction entries with
  | nil => exact sameIn_of_parallel (l := .call) hm (.pure ())
  | cons entry rest ih =>
    unfold visitEntries
    apply Run.SameIn.bind
    . apply Run.SameIn.lettingGo
      apply (sameIn_of_parallel (l := .call) hm (.keep (.entries rest) rfl)).bind
      intro
      apply hvisit
    . intro visited
      cases visited with
      | stop => exact sameIn_of_parallel (l := .call) hm (.pure ())
      | next => exact ih

theorem visitChars_sameIn (cs : List Char) (index : Int64)
    : Run.SameIn kinds (visitChars visit () cs index) (visitChars visit' () cs index) := by
  induction cs generalizing index with
  | nil => exact sameIn_of_parallel (l := .call) hm (.pure ())
  | cons c cs ih =>
    unfold visitChars
    apply (hvisit _ _).bind
    intro visited
    cases visited with
    | stop => exact sameIn_of_parallel (l := .call) hm (.pure ())
    | next => apply ih

theorem visitItems_sameIn (container : Value) (n : Nat) (index : Int64)
    : Run.SameIn kinds (m.visitItems container visit () n index)
        ((m.withExec exec).visitItems container visit' () n index) := by
  induction n generalizing index with
  | zero => exact sameIn_of_parallel (l := .call) hm (.pure ())
  | succ n ih =>
    unfold visitItems
    rw [getIndex_withExec]
    apply (sameIn_of_parallel (l := .call) hm (.getIndex container _)).bind
    intro item
    apply (hvisit _ item).bind
    intro visited
    cases visited with
    | stop => exact sameIn_of_parallel (l := .call) hm (.pure ())
    | next => apply ih

theorem visitSteps_sameIn (step : Value) (fuel : Nat) (index : Int64)
    : Run.SameIn kinds (m.visitSteps step visit () fuel index)
        ((m.withExec exec).visitSteps step visit' () fuel index) := by
  induction fuel generalizing index with
  | zero => exact sameIn_of_parallel (l := .call) hm .exhausted
  | succ fuel ih =>
    unfold visitSteps
    apply (sameIn_of_parallel (l := .call) hm (.invoke step .undefined [])).bind
    intro answer
    apply Run.SameIn.bind
    . apply Run.SameIn.lettingGo
      apply (sameIn_of_parallel (l := .call) hm (.hold answer)).bind
      intro
      apply (sameIn_of_parallel (l := .call) hm (.stepItem? answer)).bind
      intro found
      cases found with
      | none => exact sameIn_of_parallel (l := .call) hm (.pure _)
      | some item => apply hvisit
    . intro visited
      cases visited with
      | stop => exact sameIn_of_parallel (l := .call) hm (.pure ())
      | next => apply ih

theorem visitAll_sameIn (c : Cursor)
    : Run.SameIn kinds (m.visitAll visit c) ((m.withExec exec).visitAll visit' c) := by
  cases c with
  | none => exact sameIn_of_parallel (l := .call) hm (.pure ())
  | words n index word => exact visitWords_sameIn hm hvisit n index word
  | entries rest => exact visitEntries_sameIn hm hvisit rest
  | chars rest index => exact visitChars_sameIn hm hvisit rest index
  | items container n index => exact visitItems_sameIn hm hvisit container n index
  | steps step index => exact visitSteps_sameIn hm hvisit step m.fuel index

theorem iterate_sameIn (source : Source)
    : Run.SameIn kinds (m.iterate source visit ()) ((m.withExec exec).iterate source visit' ()) := by
  rw [iterate_eq, iterate_eq]
  apply (sameIn_of_parallel hm (openSource_parallel Level.stmt_ne_call source)).bind
  intro c
  exact visitAll_sameIn hm hvisit c

end Visits

theorem execForEach_sameIn (label index : Option String) (value : String) (source : Source) {body : List Stmt}
    (h : m.Shares exec kinds (Parts.inBlock (.ofBlock body)))
    : Run.SameIn kinds (m.execForEach label index value source body)
        ((m.withExec exec).execForEach label index value source body) := by
  apply withBlock_sameIn hm
  apply iterate_sameIn hm
  intro i item
  apply (sameIn_of_parallel hm (.bindItem Level.stmt_ne_call value index i item)).bind
  intro
  apply (execBlock_sameIn hm h.inBlock).bind
  intro
  apply (sameIn_of_parallel hm (.leavesLoop label)).bind
  intro leaves
  apply Run.SameIn.ite
  . exact sameIn_of_parallel (l := .call) hm (.pure _)
  . exact sameIn_of_parallel (l := .call) hm (.pure _)

theorem execLoop_sameIn (label : Option String) (start check next : Option Expr) {body : List Stmt}
    (h : m.Shares exec kinds (Parts.inBlock (.ofBlock body)))
    : Run.SameIn kinds (m.execLoop label start check next body)
        ((m.withExec exec).execLoop label start check next body) := by
  apply withBlock_sameIn hm
  apply (sameIn_of_parallel hm (.evalOptional Level.stmt_ne_call start)).bind
  intro
  exact runLoop_sameIn hm label check next m.fuel h.inBlock

theorem execIf_sameIn {otherwise : Option (List Stmt)} {arms : List IfArm}
    (h : m.Shares exec kinds (IfArm.parts (otherwise.getD []) arms))
    : Run.SameIn kinds (m.execIf otherwise arms) ((m.withExec exec).execIf otherwise arms) := by
  induction arms generalizing kinds with
  | nil => exact execOptional_sameIn hm h
  | cons arm arms ih =>
    cases arm with
    | mk start condition body =>
      have harm {kinds : List FrameKind}
          (h : m.Shares exec kinds (Parts.ofBlock body ++ IfArm.parts (otherwise.getD []) arms))
          : Run.SameIn kinds
              (do if ← m.isTruthy (← m.evalHeld condition) then m.execBlock body else m.execIf otherwise arms)
              (do
                if ← m.isTruthy (← m.evalHeld condition) then (m.withExec exec).execBlock body
                else (m.withExec exec).execIf otherwise arms) := by
        apply (sameIn_of_parallel hm (.evalHeld Level.stmt_ne_call condition)).bind
        intro value
        apply (sameIn_of_parallel (l := .call) hm (.isTruthy value)).bind
        intro holds
        apply Run.SameIn.ite
        . exact execBlock_sameIn hm h.left
        . exact ih h.right
      cases start with
      | none => exact harm h
      | some start =>
        apply withBlock_sameIn hm
        apply (sameIn_of_parallel hm (.eval Level.stmt_ne_call start)).bind
        intro
        exact harm h.inBlock

theorem execSwitch_sameIn (input : Value) {otherwise : Option (List Stmt)} {cases : List SwitchCase}
    (h : m.Shares exec kinds (cases.flatMap SwitchCase.parts ++ Parts.ofBlock (otherwise.getD [])))
    : Run.SameIn kinds (m.execSwitch input otherwise cases)
        ((m.withExec exec).execSwitch input otherwise cases) := by
  induction cases with
  | nil => exact execOptional_sameIn hm h
  | cons c cases ih =>
    cases c with
    | mk pattern body fallsThrough =>
      rw [List.flatMap_cons, List.append_assoc] at h
      unfold execSwitch
      rw [valueMatches_withExec]
      apply (sameIn_of_parallel hm (.valueMatches Level.stmt_ne_call pattern input)).bind
      intro holds
      apply Run.SameIn.ite
      . apply (execBlock_sameIn hm h.left).bind
        intro
        apply (sameIn_of_parallel (l := .call) hm .flow).bind
        intro flow
        apply Run.SameIn.ite
        . exact ih h.right
        . exact sameIn_of_parallel (l := .call) hm (.pure ())
      . exact ih h.right

theorem execGuarded_sameIn {body body' : Run Unit} {handler : Option Handler} (hbody : Run.SameIn kinds body body')
    (h : m.Shares exec kinds (handler.toList.flatMap Handler.parts))
    : Run.SameIn kinds (m.execGuarded body handler) ((m.withExec exec).execGuarded body' handler) := by
  apply hbody.capture.bind
  intro r
  cases r with
  | ok a => exact Run.sameIn_ofCaptured (.ok a)
  | error e =>
    cases handler with
    | none => exact Run.sameIn_ofCaptured (.error e)
    | some handler =>
      cases handler with
      | mk name stmts =>
        have h : m.Shares exec kinds (.ofBlock stmts) := by
          rw [Option.toList_some, List.flatMap_singleton] at h
          exact h
        apply Run.SameIn.ite
        . exact Run.sameIn_ofCaptured (.error e)
        . apply (sameIn_of_parallel (l := .call) hm (.holdAll _)).bind
          intro
          apply (sameIn_of_parallel (l := .call) hm (.exceptionValue e)).bind
          intro exception
          apply withBlock_sameIn hm
          apply (sameIn_of_parallel hm (.forceLocal Level.stmt_ne_call name exception)).bind
          intro
          exact execAll_sameIn hm h.inBlock

theorem execAttempt_sameIn {body : List Stmt} {handler : Option Handler} {cleanup : Option (List Stmt)}
    (hbody : m.Shares exec kinds (.ofBlock body))
    (hhandler : m.Shares exec kinds (handler.toList.flatMap Handler.parts))
    (hcleanup : m.Shares exec kinds (.ofBlock (cleanup.getD [])))
    : Run.SameIn kinds (m.execAttempt body handler cleanup)
        ((m.withExec exec).execAttempt body handler cleanup) := by
  apply Run.SameIn.bind
  . apply Run.SameIn.capture
    apply Run.SameIn.lettingGo
    exact execGuarded_sameIn hm (execBlock_sameIn hm hbody) hhandler
  . intro result
    cases cleanup with
    | none => exact Run.sameIn_ofCaptured result
    | some cleanup =>
      apply (sameIn_of_parallel (l := .call) hm .retVal).bind
      intro retVal
      apply (sameIn_of_parallel hm .takeFlow).bind
      intro pending
      apply (sameIn_of_parallel (l := .call) hm (.hold retVal)).bind
      intro
      apply (sameIn_of_parallel (l := .call) hm (.holdAll _)).bind
      intro
      apply (execBlock_sameIn hm hcleanup).bind
      intro
      apply (sameIn_of_parallel (l := .call) hm .flow).bind
      intro flow
      apply Run.SameIn.ite
      . apply (sameIn_of_parallel hm (.setFlow pending)).bind
        intro
        apply (sameIn_of_parallel hm (.setRetVal retVal)).bind
        intro
        exact Run.sameIn_ofCaptured result
      . exact sameIn_of_parallel (l := .call) hm (.pure ())

/-- A statement runs nothing but its parts, in the frames that it runs in and the blocks around them. -/
theorem execKind_sameIn {kind : StmtKind} (h : m.Shares exec kinds kind.parts)
    : Run.SameIn kinds (m.execKind kind) ((m.withExec exec).execKind kind) := by
  cases kind with
  | block body => exact execBlock_sameIn hm h
  | cond arms otherwise => exact execIf_sameIn hm h
  | loop label start check next body => exact execLoop_sameIn hm label start check next h
  | forEach label index value source body => exact execForEach_sameIn hm label index value source h
  | whileDo label check body => exact runWhile_sameIn hm label check m.fuel h
  | doWhile label check body => exact runDoWhile_sameIn hm label check m.fuel h
  | switch value cases otherwise =>
    apply (sameIn_of_parallel hm (.evalHeld Level.stmt_ne_call value)).bind
    intro value
    exact execSwitch_sameIn hm value h
  | attempt body handler cleanup => exact execAttempt_sameIn hm h.left h.right.left h.right.right
  | fallback stmt body =>
    have h : m.Shares exec kinds ([(stmt, 0)] ++ Parts.ofBlock body) := h
    apply execGuarded_sameIn hm (exec_sameIn hm h.left)
    rw [Option.toList_some, List.flatMap_singleton]
    exact h.right
  | cls code =>
    show Run.SameIn kinds (m.execClass code) ((m.withExec exec).execClass code)
    rw [execClass_withExec]
    exact sameIn_of_parallel hm (.execClass code)
  | extend exported target items =>
    show Run.SameIn kinds (m.execExtend exported target items) ((m.withExec exec).execExtend exported target items)
    rw [execExtend_withExec]
    exact sameIn_of_parallel hm (.execExtend exported target items)
  | assert condition message =>
    show Run.SameIn kinds (m.execAssert condition message) ((m.withExec exec).execAssert condition message)
    rw [execAssert_withExec]
    exact sameIn_of_parallel hm (.execAssert Level.stmt_ne_call condition message)
  | throw value =>
    show Run.SameIn kinds (m.execThrow value) ((m.withExec exec).execThrow value)
    rw [execThrow_withExec]
    exact sameIn_of_parallel hm (.execThrow Level.stmt_ne_call value)
  | _ => exact sameIn_of_parallel hm (.execKind _ rfl)

theorem execStmt_sameIn {stmt : Stmt} (h : m.Shares exec kinds stmt.parts)
    : Run.SameIn kinds (m.execStmt stmt) ((m.withExec exec).execStmt stmt) := by
  cases stmt with
  | mk pos kind =>
    apply (sameIn_of_parallel hm (.setPosition pos)).bind
    intro
    exact (execKind_sameIn hm h).locating

end Steps

/--
From a state, a computation comes to run a statement in another state: it would do something else if that
were run in another way, even if nothing else was.
-/
def Enters {α : Type} (m : Machine) (x : Machine → Run α) (s : State) (inner : Stmt) (t : State) : Prop :=
  ∃ exec, (∀ stmt u, ¬(stmt = inner ∧ u = t) → exec stmt u = m.exec stmt u) ∧ x (m.withExec exec) s ≠ x m s

/-- What stops the inner statement stops the computation, so the statement is run. -/
theorem enters_of_halts {α : Type} {x : Machine → Run α} {s t : State} {inner : Stmt}
    (h : ∀ exec halt u, (∀ e, halt ≠ .raised e) → exec inner t = .error halt u →
      x (m.withExec exec) s = .error halt u)
    : m.Enters x s inner t := by
  classical
  let halting (halt : Halt) (stmt : Stmt) (u : State) : EStateM.Result Halt State Unit :=
    if stmt = inner ∧ u = t then .error halt t else m.exec stmt u
  have hother (halt : Halt) (stmt : Stmt) (u : State) (hne : ¬(stmt = inner ∧ u = t))
      : halting halt stmt u = m.exec stmt u := if_neg hne
  have hhalts (halt : Halt) (hhalt : ∀ e, halt ≠ .raised e)
      : x (m.withExec (halting halt)) s = .error halt t := h _ halt t hhalt (if_pos ⟨rfl, rfl⟩)
  by_cases hdied : x m s = .error .died t
  . refine ⟨halting .exhausted, hother .exhausted, ?_⟩
    rw [hhalts .exhausted fun _ => nofun, hdied]
    nofun
  . refine ⟨halting .died, hother .died, ?_⟩
    rw [hhalts .died fun _ => nofun]
    exact Ne.symm hdied

theorem block_enters (m : Machine) (pos : Position) (stmt : Stmt) (stmts : List Stmt) (s : State)
    : m.Enters (·.execStmt (.mk pos (.block (stmt :: stmts)))) s stmt (s.atPosition pos).inBlock := by
  apply enters_of_halts
  intro exec halt u hhalt hstmt
  have hall : (m.withExec exec).execAll (stmt :: stmts) (s.atPosition pos).inBlock = .error halt u := by
    unfold execAll
    exact Run.bind_error hstmt
  have hblock : (m.withExec exec).execBlock (stmt :: stmts) (s.atPosition pos) = .error halt u := by
    show (Run.capture _ >>= _) (s.atPosition pos).inBlock = .error halt u
    exact Run.bind_error (Run.capture_halted hall hhalt)
  show (Run.capture _ >>= _) (s.atPosition pos) = .error halt u
  exact Run.bind_error (Run.capture_halted hblock hhalt)

theorem module_enters (m : Machine) (stmt : Stmt) (stmts : List Stmt) (s : State)
    : m.Enters (·.runModule (stmt :: stmts)) s stmt s := by
  apply enters_of_halts
  intro exec halt u hhalt hstmt
  have hall : (m.withExec exec).execAll (stmt :: stmts) s = .error halt u := by
    unfold execAll
    exact Run.bind_error hstmt
  exact Run.bind_error (Run.capture_halted (Run.bind_error hall) hhalt)

theorem shares_of_not_part {inner : Stmt} {t : State}
    (hexec : ∀ stmt u, ¬(stmt = inner ∧ u = t) → exec stmt u = m.exec stmt u)
    (hpart : ¬∃ d, (inner, d) ∈ parts ∧ t.kinds = List.replicate d .block ++ kinds)
    : m.Shares exec kinds parts := by
  intro part hmem u hu
  apply hexec
  rintro ⟨rfl, rfl⟩
  exact hpart ⟨part.2, hmem, hu⟩

theorem execStmt_enters (hm : m.Respects Context.FramesKept) {outer inner : Stmt} {s t : State}
    (h : m.Enters (·.execStmt outer) s inner t)
    : ∃ d, (inner, d) ∈ outer.parts ∧ t.kinds = List.replicate d .block ++ s.kinds := by
  rcases h with ⟨exec, hexec, hdiffers⟩
  apply Classical.byContradiction
  intro hpart
  exact hdiffers ((execStmt_sameIn hm (shares_of_not_part hexec hpart)).same rfl)

/-- A module runs nothing but its statements, in the frames that it starts in. -/
theorem runModule_enters (hm : m.Respects Context.FramesKept) {stmts : List Stmt} {inner : Stmt} {s t : State}
    (h : m.Enters (·.runModule stmts) s inner t)
    : inner ∈ stmts ∧ t.kinds = s.kinds := by
  rcases h with ⟨exec, hexec, hdiffers⟩
  apply Classical.byContradiction
  intro hnone
  apply hdiffers
  have hshares : m.Shares exec s.kinds (stmts.map fun stmt => (stmt, 0)) := by
    apply shares_of_not_part hexec
    rintro ⟨d, hmem, ht⟩
    rcases List.mem_map.mp hmem with ⟨stmt, hstmt, heq⟩
    injection heq with heq hd
    rw [← hd] at ht
    rw [heq] at hstmt
    exact hnone ⟨hstmt, ht⟩
  have hbody : Run.SameIn s.kinds (do m.execAll stmts; Run.finishFlow)
      (do (m.withExec exec).execAll stmts; Run.finishFlow) := by
    apply (execAll_sameIn hm hshares).bind
    intro
    exact sameIn_of_parallel hm .finishFlow
  have hcapture := hbody.capture.same (s := s) rfl
  show (Run.capture _ >>= _) s = (Run.capture _ >>= _) s
  rw [Run.bind_apply, Run.bind_apply, hcapture]
  rfl

end Machine

/--
Running a statement comes to running another one without a call in between. The levels that are left go
down by one for every statement around the other one.
-/
inductive Host.Reaches (host : Host) : Nat → Stmt → State → Nat → Stmt → State → Prop where
  | here (n : Nat) (stmt : Stmt) (s : State) : Reaches host n stmt s n stmt s
  | inside {n k : Nat} {outer inner last : Stmt} {s t u : State}
      (henters : (host.machine n).Enters (·.execStmt outer) s inner t) (hrest : Reaches host n inner t k last u)
      : Reaches host (n + 1) outer s k last u

/-- A statement is nested in another one, with this number of blocks around it. -/
inductive Stmt.Nested : Stmt → Stmt → Nat → Prop where
  | here (stmt : Stmt) : Nested stmt stmt 0
  | inside {outer mid inner : Stmt} {d e : Nat} (hpart : (mid, d) ∈ outer.parts) (hrest : Nested mid inner e)
      : Nested outer inner (e + d)

/-- The frames of a statement that is reached are the blocks around it and the frames of the outer one. -/
theorem Host.Reaches.nested {host : Host} (hframes : host.KeepsFrames) {n k : Nat} {outer last : Stmt} {s u : State}
    (h : host.Reaches n outer s k last u)
    : ∃ d, outer.Nested last d ∧ u.kinds = List.replicate d .block ++ s.kinds := by
  induction h with
  | here n stmt s => exact ⟨0, .here stmt, rfl⟩
  | inside henters _ ih =>
    rcases Machine.execStmt_enters (machine_respects framesKept_discipline hframes _) henters
      with ⟨d, hpart, ht⟩
    rcases ih with ⟨e, hnested, hu⟩
    refine ⟨e + d, .inside hpart hnested, ?_⟩
    rw [hu, ht, ← List.append_assoc, List.replicate_append_replicate]

end ScriptEngine
