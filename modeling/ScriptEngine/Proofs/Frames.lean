import ScriptEngine.Engine.Setup
import ScriptEngine.Proofs.Depth
import ScriptEngine.Proofs.ScriptedHost

/-!
This module contains what evaluations leave of the frames of their context. A call leaves all frames
as they were. An expression may put calls off until the current frame ends, and a statement also
until the function ends, whose frame is the nearest boundary; nothing else in a frame changes, apart
from the position of the current one.
-/

namespace ScriptEngine

namespace Frame

/-- The same frame, with more calls put off until it ends. -/
def Grown (f g : Frame) : Prop := ∃ calls, g = { f with defers := calls ++ f.defers }

theorem Grown.refl (f : Frame) : f.Grown f := ⟨[], rfl⟩

theorem Grown.trans {f g h : Frame} (hg : f.Grown g) (hh : g.Grown h) : f.Grown h := by
  rcases hg with ⟨calls, rfl⟩
  rcases hh with ⟨calls', rfl⟩
  refine ⟨calls' ++ calls, ?_⟩
  rw [List.append_assoc]

theorem Grown.kind {f g : Frame} (h : f.Grown g) : g.kind = f.kind := by
  rcases h with ⟨calls, rfl⟩
  rfl

theorem Grown.scope {f g : Frame} (h : f.Grown g) : g.scope = f.scope := by
  rcases h with ⟨calls, rfl⟩
  rfl

theorem Grown.position {f g : Frame} (h : f.Grown g) : g.position = f.position := by
  rcases h with ⟨calls, rfl⟩
  rfl

/-- The same, with another position. -/
def Moved (f g : Frame) : Prop := ∃ position, Grown { f with position := position } g

theorem Grown.moved {f g : Frame} (h : f.Grown g) : f.Moved g := ⟨f.position, h⟩

theorem Moved.trans {f g h : Frame} (hg : f.Moved g) (hh : g.Moved h) : f.Moved h := by
  rcases hg with ⟨position, calls, rfl⟩
  rcases hh with ⟨position', calls', rfl⟩
  refine ⟨position', calls' ++ calls, ?_⟩
  rw [List.append_assoc]

theorem Moved.kind {f g : Frame} (h : f.Moved g) : g.kind = f.kind := by
  rcases h with ⟨position, h⟩
  exact h.kind

end Frame

namespace Stack

/-- The same frames, with more calls put off until the innermost function of them ends. -/
inductive BoundaryGrown : List Frame → List Frame → Prop where
  | nil : BoundaryGrown [] []
  | boundary {f g : Frame} {frames : List Frame} (hf : f.kind.isBoundary = true) (h : f.Grown g)
      : BoundaryGrown (f :: frames) (g :: frames)
  | block {f : Frame} {frames frames' : List Frame} (hf : f.kind.isBoundary = false)
      (h : BoundaryGrown frames frames') : BoundaryGrown (f :: frames) (f :: frames')

theorem BoundaryGrown.refl (frames : List Frame) : BoundaryGrown frames frames := by
  induction frames with
  | nil => exact nil
  | cons f frames ih =>
    cases hf : f.kind.isBoundary with
    | true => exact boundary hf (.refl f)
    | false => exact block hf ih

theorem BoundaryGrown.trans {as bs cs : List Frame} (hb : BoundaryGrown as bs) (hc : BoundaryGrown bs cs)
    : BoundaryGrown as cs := by
  induction hb generalizing cs with
  | nil => exact hc
  | boundary hf h =>
    cases hc with
    | boundary _ h' => exact boundary hf (h.trans h')
    | block hg _ =>
      rw [h.kind, hf] at hg
      exact absurd hg nofun
  | block hf h ih =>
    cases hc with
    | boundary hg _ =>
      rw [hf] at hg
      exact absurd hg nofun
    | block _ h' => exact block hf (ih h')

theorem addDefer_grown (call : Deferred) (frames : List Frame)
    : BoundaryGrown frames (addDefer.go call frames) := by
  induction frames with
  | nil => exact .nil
  | cons f frames ih =>
    unfold addDefer.go
    cases hf : f.kind.isBoundary with
    | true => exact .boundary hf ⟨[call], rfl⟩
    | false => exact .block hf ih

/-- What a computation leaves of the frames. -/
def Kept : Level → Stack → Stack → Prop
  | .call, s, t => t = s
  | .expr, s, t => s.top.Grown t.top ∧ t.below = s.below
  | .stmt, s, t =>
    s.top.Moved t.top ∧
      if s.top.kind.isBoundary then t.below = s.below else BoundaryGrown s.below t.below

theorem Kept.refl (l : Level) (s : Stack) : s.Kept l s := by
  cases l with
  | call => rfl
  | expr => exact ⟨.refl _, rfl⟩
  | stmt =>
    refine ⟨(Frame.Grown.refl _).moved, ?_⟩
    split
    . rfl
    . exact .refl _

theorem Kept.trans {l : Level} {s t u : Stack} (ht : s.Kept l t) (hu : t.Kept l u) : s.Kept l u := by
  cases l with
  | call => exact Eq.trans hu ht
  | expr => exact ⟨ht.1.trans hu.1, hu.2.trans ht.2⟩
  | stmt =>
    rcases ht with ⟨hmoved, ht⟩
    rcases hu with ⟨hmoved', hu⟩
    refine ⟨hmoved.trans hmoved', ?_⟩
    rw [hmoved.kind] at hu
    split
    . next hf =>
      rw [if_pos hf] at ht hu
      exact hu.trans ht
    . next hf =>
      rw [if_neg hf] at ht hu
      exact ht.trans hu

theorem Kept.ofCall {l : Level} {s t : Stack} (h : s.Kept .call t) : s.Kept l t := by
  have h : t = s := h
  rw [h]
  exact refl l s

theorem Kept.ofExpr {l : Level} {s t : Stack} (hl : l ≠ .call) (h : s.Kept .expr t) : s.Kept l t := by
  cases l with
  | call => exact absurd rfl hl
  | expr => exact h
  | stmt =>
    rcases h with ⟨hgrown, hbelow⟩
    refine ⟨hgrown.moved, ?_⟩
    rw [hbelow]
    split
    . rfl
    . exact .refl _

theorem pop_of_below {s t : Stack} (h : t.below = s.frames) : t.pop = s := by
  unfold pop
  rw [h]
  rfl

/-- What a statement in a block does to the frames around the block. -/
theorem Kept.pop {l : Level} {s t : Stack} {frame : Frame} (hframe : frame.kind = .block)
    (h : (s.push frame).Kept l t)
    : s.Kept l t.pop := by
  cases l with
  | call =>
    have h : t = s.push frame := h
    rw [h]
    exact pop_of_below rfl
  | expr =>
    rw [pop_of_below h.2]
    exact refl .expr s
  | stmt =>
    have h : BoundaryGrown s.frames t.below := by
      have h := h.2
      rw [push, hframe] at h
      exact h
    unfold Stack.pop
    unfold frames at h
    split
    . next hbelow =>
      rw [hbelow] at h
      cases h
    . next top below hbelow =>
      rw [hbelow] at h
      cases h with
      | boundary hf hgrown =>
        refine ⟨hgrown.moved, ?_⟩
        rw [if_pos hf]
      | block hf hgrown =>
        refine ⟨(Frame.Grown.refl _).moved, ?_⟩
        rw [if_neg]
        . exact hgrown
        . rw [hf]
          nofun

theorem Kept.addDefer (s : Stack) (call : Deferred) : s.Kept .stmt (s.addDefer call) := by
  unfold Stack.addDefer frames addDefer.go ofFrames
  cases hf : s.top.kind.isBoundary with
  | true =>
    refine ⟨⟨s.top.position, [call], rfl⟩, ?_⟩
    rw [if_pos hf]
    rfl
  | false =>
    refine ⟨(Frame.Grown.refl _).moved, ?_⟩
    rw [if_neg (by simp [hf])]
    exact addDefer_grown call s.below

end Stack

/-- What a computation leaves of the frames and of the number of active calls. -/
def Context.FramesKept (l : Level) (c d : Context) : Prop := c.stack.Kept l d.stack ∧ d.depth = c.depth

theorem framesKept_discipline : Discipline Context.FramesKept where
  refl l c := ⟨.refl l _, rfl⟩
  trans h1 h2 := ⟨h1.1.trans h2.1, h2.2.trans h1.2⟩
  ofCall h := ⟨.ofCall h.1, h.2⟩
  ofExpr hl h := ⟨.ofExpr hl h.1, h.2⟩
  block scope h := ⟨.pop rfl h.1, h.2⟩
  addBlockDefer c call := ⟨⟨⟨[call], rfl⟩, rfl⟩, rfl⟩
  addDefer c call := ⟨.addDefer c.stack call, rfl⟩
  setFlow c flow := ⟨.refl .stmt _, rfl⟩
  setRetVal c value := ⟨.refl .stmt _, rfl⟩
  setPosition c pos := by
    refine ⟨⟨⟨pos, .refl _⟩, ?_⟩, rfl⟩
    split
    . rfl
    . exact .refl _
  function {c d e} name scope hd he := by
    have hbelow : d.stack.below = c.stack.frames := hd.1.2
    have hstack : e.stack = d.stack.pop := he.1
    -- The body and the calls that it put off each keep the depth, which was one more for them.
    have hdepth : e.depth = c.depth + 1 := he.2.trans hd.2
    refine ⟨?_, Nat.sub_eq_of_eq_add hdepth⟩
    show e.stack = c.stack
    rw [hstack, Stack.pop_of_below hbelow]
  native h := ⟨h.1, Nat.sub_eq_of_eq_add h.2⟩
  cleared hc h := h
  released h := h

namespace Stack

/-- The place of the frame of the innermost function or module, counted from the current frame. -/
def boundary (s : Stack) : Nat := s.frames.findIdx fun f => f.kind.isBoundary

/-- What can be told of all frames after an evaluation, the current one being the first. -/
structure Preserved (l : Level) (s t : Stack) : Prop where
  length : t.frames.length = s.frames.length
  kinds : t.frames.map Frame.kind = s.frames.map Frame.kind
  scopes : t.frames.map Frame.scope = s.frames.map Frame.scope
  /-- Only a statement changes a position, and only that of the current frame. -/
  positions : t.below.map Frame.position = s.below.map Frame.position ∧
    (l ≠ .stmt → t.top.position = s.top.position)
  /-- Calls are put off until the current frame or the current function ends. -/
  defers (i : Nat) (f g : Frame) (hf : s.frames[i]? = some f) (hg : t.frames[i]? = some g)
    : ∃ calls, g.defers = calls ++ f.defers ∧ (calls ≠ [] → i = 0 ∨ i = s.boundary)

theorem BoundaryGrown.maps {β : Type} {as bs : List Frame} (h : BoundaryGrown as bs) (field : Frame → β)
    (hfield : ∀ f g : Frame, f.Grown g → field g = field f)
    : bs.map field = as.map field := by
  induction h with
  | nil => rfl
  | boundary hf h => rw [List.map_cons, List.map_cons, hfield _ _ h]
  | block hf h ih => rw [List.map_cons, List.map_cons, ih]

theorem BoundaryGrown.defers {as bs : List Frame} (h : BoundaryGrown as bs) {i : Nat} {f g : Frame}
    (hf : as[i]? = some f) (hg : bs[i]? = some g)
    : ∃ calls, g.defers = calls ++ f.defers ∧
        (calls ≠ [] → i = as.findIdx fun f => f.kind.isBoundary) := by
  induction h generalizing i with
  | nil =>
    rw [List.getElem?_nil] at hf
    injection hf
  | boundary hb h =>
    cases i with
    | zero =>
      injection hf with hf
      injection hg with hg
      rcases h with ⟨calls, h⟩
      refine ⟨calls, ?_, ?_⟩
      . rw [← hf, ← hg, h]
      . intro _
        rw [List.findIdx_cons, hb]
        rfl
    | succ i =>
      rw [List.getElem?_cons_succ] at hf hg
      rw [hf] at hg
      injection hg with hg
      refine ⟨[], ?_, ?_⟩
      . rw [hg]
        rfl
      . intro h
        exact absurd rfl h
  | block hb h ih =>
    cases i with
    | zero =>
      injection hf with hf
      injection hg with hg
      refine ⟨[], ?_, ?_⟩
      . rw [← hf, ← hg]
        rfl
      . intro h
        exact absurd rfl h
    | succ i =>
      rw [List.getElem?_cons_succ] at hf hg
      rcases ih hf hg with ⟨calls, hcalls, hplace⟩
      refine ⟨calls, hcalls, ?_⟩
      intro h
      rw [List.findIdx_cons, hb, hplace h]
      rfl

/-- The frames below the current one. -/
theorem Kept.below {s t : Stack} (h : s.Kept .stmt t) : BoundaryGrown s.below t.below := by
  have h := h.2
  split at h
  . rw [h]
    exact .refl _
  . exact h

theorem Kept.stmt_preserved {s t : Stack} (h : s.Kept .stmt t) : s.Preserved .stmt t := by
  rcases h.1 with ⟨position, calls, htop⟩
  have hbelow := h.below
  constructor
  case length =>
    have hlength := congrArg List.length (hbelow.maps Frame.kind fun f g h => h.kind)
    rw [List.length_map, List.length_map] at hlength
    unfold frames
    rw [List.length_cons, List.length_cons, hlength]
  case kinds =>
    unfold frames
    rw [List.map_cons, List.map_cons, hbelow.maps Frame.kind fun f g h => h.kind, htop]
  case scopes =>
    unfold frames
    rw [List.map_cons, List.map_cons, hbelow.maps Frame.scope fun f g h => h.scope, htop]
  case positions =>
    refine ⟨hbelow.maps Frame.position fun f g h => h.position, ?_⟩
    intro h
    exact absurd rfl h
  case defers =>
    intro i f g hf hg
    cases i with
    | zero =>
      injection hf with hf
      injection hg with hg
      refine ⟨calls, ?_, fun _ => .inl rfl⟩
      rw [← hf, ← hg, htop]
    | succ i =>
      unfold frames at hf hg
      rw [List.getElem?_cons_succ] at hf hg
      unfold boundary frames
      rw [List.findIdx_cons]
      have hbelow := h.2
      split at hbelow
      . -- The current frame is the function's own, so the others are as they were.
        rw [hbelow, hf] at hg
        injection hg with hg
        refine ⟨[], ?_, ?_⟩
        . rw [hg]
          rfl
        . intro h
          exact absurd rfl h
      . next htop =>
        rcases hbelow.defers hf hg with ⟨calls, hcalls, hplace⟩
        refine ⟨calls, hcalls, ?_⟩
        intro h
        rw [Bool.eq_false_iff.mpr htop, hplace h]
        exact .inr rfl

theorem Kept.preserved {l : Level} {s t : Stack} (h : s.Kept l t) : s.Preserved l t := by
  cases l with
  | stmt => exact h.stmt_preserved
  | expr =>
    rcases h with ⟨⟨calls, htop⟩, hbelow⟩
    have hstmt := (Kept.ofExpr Level.stmt_ne_call ⟨⟨calls, htop⟩, hbelow⟩).stmt_preserved
    refine ⟨hstmt.length, hstmt.kinds, hstmt.scopes, ⟨hstmt.positions.1, ?_⟩, hstmt.defers⟩
    intro _
    rw [htop]
  | call =>
    have hstmt := (Kept.refl .stmt s).stmt_preserved
    have h : t = s := h
    rw [h]
    exact ⟨hstmt.length, hstmt.kinds, hstmt.scopes, ⟨hstmt.positions.1, fun _ => rfl⟩, hstmt.defers⟩

end Stack

/-- The functions and the importer of a host leave the frames and the number of calls alone. -/
def Host.KeepsFrames (host : Host) : Prop := host.Respects Context.FramesKept

/--
However an evaluation ends, the frames are those from before it and as many calls are active, and the
limit on active calls is never exceeded in it.
-/
theorem evaluation_keeps_frames (host : Host) (hframes : host.KeepsFrames) (hdepth : host.KeepsDepth)
    (n : Nat) (s : State)
    : (∀ stmt t, ((host.machine n).exec stmt).Ends s t →
        s.context.stack.Preserved .stmt t.context.stack ∧ t.context.depth = s.context.depth) ∧
      (∀ e t, ((host.machine n).eval e).Ends s t →
        s.context.stack.Preserved .expr t.context.stack ∧ t.context.depth = s.context.depth) ∧
      (∀ callee this args t, ((host.machine n).invoke callee this args).Ends s t →
        t.context.stack = s.context.stack ∧ t.context.depth = s.context.depth) ∧
      (∀ type args t, ((host.machine n).construct type args).Ends s t →
        t.context.stack = s.context.stack ∧ t.context.depth = s.context.depth) ∧
      (s.context.depth ≤ s.world.settings.maxDepth → ∀ alarm,
        let looking := host.checking (Machine.bounded alarm) n
        (∀ stmt, looking.exec stmt s = (host.machine n).exec stmt s) ∧
        (∀ e, looking.eval e s = (host.machine n).eval e s) ∧
        (∀ callee this args, looking.invoke callee this args s = (host.machine n).invoke callee this args s) ∧
        (∀ type args, looking.construct type args s = (host.machine n).construct type args s)) := by
  have hm : (host.machine n).Respects Context.FramesKept := machine_respects framesKept_discipline hframes n
  refine ⟨?_, ?_, ?_, ?_, ?_⟩
  . intro stmt t h
    have hkept := hm.exec stmt s t h
    exact ⟨hkept.1.preserved, hkept.2⟩
  . intro e t h
    have hkept := hm.eval e s t h
    exact ⟨hkept.1.preserved, hkept.2⟩
  . intro callee this args t h
    exact hm.invoke callee this args s t h
  . intro type args t h
    exact Parallel.leavesAlone framesKept_discipline hm (l := .call) (.construct type args) s t h
  . intro hs alarm
    have hfollows := bounded_follows hdepth alarm n
    refine ⟨?_, ?_, ?_, ?_⟩
    . intro stmt
      exact (hfollows.exec stmt).eq hs
    . intro e
      exact (hfollows.eval e).eq hs
    . intro callee this args
      exact (hfollows.invoke callee this args).eq hs
    . intro type args
      exact (Parallel.follows hfollows (l := .call) (.construct type args)).eq hs

/-- A statement that leaves its function, run where no more calls may be active. -/
theorem scripted_keeps_frames
    : let host := Host.scripted fun _ => some []
      let s := (Engine.bareState { maxDepth := 1 } .silent 0).withDepth 1
      let stmt := Stmt.mk ⟨"main", 3⟩ (.ret (some (.int 7)))
      let t := Engine.stateAfter ((host.machine 5).exec stmt) s
      host.KeepsFrames ∧ host.KeepsDepth ∧ ((host.machine 5).exec stmt).Ends s t ∧ t.context.flow = .ret ∧
        s.context.stack.Preserved .stmt t.context.stack ∧
        ∀ alarm, (host.checking (Machine.bounded alarm) 5).exec stmt s = (host.machine 5).exec stmt s := by
  intro host s stmt t
  have hframes : host.KeepsFrames := scripted_respects framesKept_discipline
  have hdepth : host.KeepsDepth := scripted_follows
  have hs : s.context.depth ≤ s.world.settings.maxDepth := by decide
  have hends : ((host.machine 5).exec stmt).Ends s t := .ok rfl
  have h := evaluation_keeps_frames host hframes hdepth 5 s
  refine ⟨hframes, hdepth, hends, rfl, ?_, ?_⟩
  . exact (h.1 stmt t hends).1
  . intro alarm
    exact (h.2.2.2.2 hs alarm).1 stmt

end ScriptEngine
