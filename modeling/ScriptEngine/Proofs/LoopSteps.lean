import ScriptEngine.Proofs.Orderly

/-!
This module contains the course of a loop in steps: a condition is checked or an item is taken, the
body runs, and something is evaluated before the next check. The signals that the body leaves decide
between the steps, and how they do so is proved here for all loops at once.
-/

namespace ScriptEngine

namespace Flow

variable (label : Option String)

/-- No signal, or one that tells the loop with this label to go on. -/
def GoesOn (f : Flow) : Prop :=
  f = .normal ∨ ∃ target, f = .jump .continueLoop target ∧ (target = none ∨ target = label)

/-- A signal that tells the loop with this label to end. -/
def Breaks (f : Flow) : Prop :=
  ∃ target, f = .jump .breakLoop target ∧ (target = none ∨ target = label)

/-- A signal that is not meant for the loop with this label. -/
def Escapes (f : Flow) : Prop :=
  f = .ret ∨ ∃ kind name, f = .jump kind (some name) ∧ some name ≠ label

end Flow

/-- What a loop does next. A cursor says where it stands among its items. -/
inductive Stage (κ : Type) where
  | check (cursor : κ)
  | body (cursor : κ)
  | next (cursor : κ)
  | done
  | failed (halt : Halt)

/-- The signals that may be pending at a stage. -/
def Stage.Admits {κ : Type} (label : Option String) : Stage κ → Flow → Prop
  | .check _, f => f = .normal
  | .body _, f => f = .normal
  | .next _, f => f = .normal
  | .done, f => f = .normal ∨ f.Escapes label
  | .failed _, _ => True

/-- The loop is done or has failed. -/
def Stage.Over {κ : Type} : Stage κ → Prop
  | .done => True
  | .failed _ => True
  | _ => False

/-- A loop by what it runs at its stages. -/
structure Loop (κ : Type) where
  label : Option String
  /-- Evaluates what stands before the first round. -/
  start : Run (Stage κ)
  /-- Checks the condition or takes an item. There is no cursor if the loop is over. -/
  check : κ → Run (Option κ)
  body : Run Unit
  /-- Evaluates what stands between two rounds. -/
  next : Run Unit

/-- The three ways in which a loop takes the signal of its body. -/
theorem Run.leavesLoop_cases (label : Option String) (s : State)
    : (s.context.flow.GoesOn label ∧ Run.leavesLoop label s = .ok false (s.withFlow .normal)) ∨
      (s.context.flow.Breaks label ∧ Run.leavesLoop label s = .ok true (s.withFlow .normal)) ∨
      (s.context.flow.Escapes label ∧ Run.leavesLoop label s = .ok true s) := by
  rw [Run.leavesLoop_apply]
  cases hflow : s.context.flow with
  | normal =>
    have hs : s.withFlow .normal = s := by
      rw [← hflow]
      rfl
    rw [hs]
    exact .inl ⟨.inl rfl, rfl⟩
  | ret => exact .inr (.inr ⟨.inl rfl, rfl⟩)
  | jump kind target =>
    dsimp only
    by_cases htarget : target = none ∨ target = label
    . have hmeant : (target.isNone || target == label) = true := by
        simpa using htarget
      rw [if_pos hmeant]
      cases kind with
      | breakLoop => exact .inr (.inl ⟨⟨target, rfl, htarget⟩, rfl⟩)
      | continueLoop => exact .inl ⟨.inr ⟨target, rfl, htarget⟩, rfl⟩
    . have hforeign : ¬(target.isNone || target == label) = true := by
        simpa using htarget
      rw [if_neg hforeign]
      cases target with
      | none => exact absurd (.inl rfl) htarget
      | some name => exact .inr (.inr ⟨.inr ⟨kind, name, rfl, fun h => htarget (.inr h)⟩, rfl⟩)

namespace Loop

variable {κ : Type} {loop : Loop κ}

/-- What a step has run, and the signal that the body left unless it failed. -/
inductive Event where
  | check
  | body (left : Option Flow)
  | next

inductive Step (loop : Loop κ) : Stage κ → State → Event → Stage κ → State → Prop
  | holds {c d : κ} {s t : State} (h : loop.check c s = .ok (some d) t)
    : Step loop (.check c) s .check (.body d) t
  | ended {c : κ} {s t : State} (h : loop.check c s = .ok none t)
    : Step loop (.check c) s .check .done t
  | checkFails {c : κ} {s t : State} {halt : Halt} (h : loop.check c s = .error halt t)
    : Step loop (.check c) s .check (.failed halt) t
  | goesOn {c : κ} {s t : State} (h : loop.body s = .ok () t) (hf : t.context.flow.GoesOn loop.label)
    : Step loop (.body c) s (.body (some t.context.flow)) (.next c) (t.withFlow .normal)
  | breaks {c : κ} {s t : State} (h : loop.body s = .ok () t) (hf : t.context.flow.Breaks loop.label)
    : Step loop (.body c) s (.body (some t.context.flow)) .done (t.withFlow .normal)
  | escapes {c : κ} {s t : State} (h : loop.body s = .ok () t) (hf : t.context.flow.Escapes loop.label)
    : Step loop (.body c) s (.body (some t.context.flow)) .done t
  | bodyFails {c : κ} {s t : State} {halt : Halt} (h : loop.body s = .error halt t)
    : Step loop (.body c) s (.body none) (.failed halt) t
  | proceeds {c : κ} {s t : State} (h : loop.next s = .ok () t)
    : Step loop (.next c) s .next (.check c) t
  | nextFails {c : κ} {s t : State} {halt : Halt} (h : loop.next s = .error halt t)
    : Step loop (.next c) s .next (.failed halt) t

/-- Steps one after the other. What the loop itself holds on to may change in between. -/
inductive Steps (loop : Loop κ) : Stage κ → State → List Event → Stage κ → State → Prop
  | refl (stage : Stage κ) (s : State) : Steps loop stage s [] stage s
  | cons {stage mid final : Stage κ} {s u t : State} {event : Event} {events : List Event}
    (held : List Held) (h : loop.Step stage { s with held := held } event mid u)
    (rest : Steps loop mid u events final t)
    : Steps loop stage s (event :: events) final t

theorem Step.steps {stage final : Stage κ} {s t : State} {event : Event}
    (h : loop.Step stage s event final t)
    : loop.Steps stage s [event] final t :=
  .cons s.held h (.refl final t)

theorem Steps.trans {stage mid final : Stage κ} {s u t : State} {events events' : List Event}
    (h : loop.Steps stage s events mid u) (h' : loop.Steps mid u events' final t)
    : loop.Steps stage s (events ++ events') final t := by
  induction h with
  | refl => exact h'
  | cons held hstep _ ih => exact .cons held hstep (ih h')

/-- Steps do not depend on what is held on to before them. -/
theorem Steps.release {stage final : Stage κ} {s t : State} {events : List Event} {held : List Held}
    (h : loop.Steps stage { s with held := held } events final t)
    : ∃ held, loop.Steps stage s events final { t with held := held } := by
  cases h with
  | refl => exact ⟨s.held, .refl stage s⟩
  | cons held' hstep rest => exact ⟨t.held, .cons held' hstep rest⟩

/-- A loop whose condition and step leave the signal alone is at each stage with a signal that fits it. -/
theorem Step.admits (hcheck : ∀ c, (loop.check c).Quiet) (hnext : loop.next.Quiet)
    {stage final : Stage κ} {s t : State} {event : Event} (h : loop.Step stage s event final t)
    (hs : stage.Admits loop.label s.context.flow)
    : final.Admits loop.label t.context.flow := by
  cases h with
  | holds h => exact (hcheck _ s t (.ok h)).trans hs
  | ended h => exact .inl ((hcheck _ s t (.ok h)).trans hs)
  | checkFails h => trivial
  | goesOn h hf => rfl
  | breaks h hf => exact .inl rfl
  | escapes h hf => exact .inr hf
  | bodyFails h => trivial
  | proceeds h => exact (hnext s t (.ok h)).trans hs
  | nextFails h => trivial

theorem Steps.admits (hcheck : ∀ c, (loop.check c).Quiet) (hnext : loop.next.Quiet)
    {stage final : Stage κ} {s t : State} {events : List Event} (h : loop.Steps stage s events final t)
    (hs : stage.Admits loop.label s.context.flow)
    : final.Admits loop.label t.context.flow := by
  induction h with
  | refl => exact hs
  | cons held hstep _ ih => exact ih (hstep.admits hcheck hnext hs)

/-- Nothing runs in a loop that is done. -/
theorem Steps.of_done {final : Stage κ} {s t : State} {events : List Event}
    (h : loop.Steps .done s events final t)
    : events = [] ∧ final = .done ∧ t = s := by
  cases h with
  | refl => exact ⟨rfl, rfl, rfl⟩
  | cons held hstep rest => cases hstep

theorem Steps.of_failed {final : Stage κ} {s t : State} {events : List Event} {halt : Halt}
    (h : loop.Steps (.failed halt) s events final t)
    : events = [] ∧ final = .failed halt ∧ t = s := by
  cases h with
  | refl => exact ⟨rfl, rfl, rfl⟩
  | cons held hstep rest => cases hstep

/-- The next round is checked for, unless the step before it fails. -/
theorem Steps.of_next {final : Stage κ} {c : κ} {s t : State} {events : List Event}
    (h : loop.Steps (.next c) s events final t) (hfinal : final.Over)
    : (events = [.next] ∧ ∃ halt, final = .failed halt) ∨ ∃ rest, events = .next :: .check :: rest := by
  cases h with
  | refl => cases hfinal
  | cons held hstep rest =>
    cases hstep with
    | proceeds h =>
      right
      cases rest with
      | refl => cases hfinal
      | cons held hstep rest => cases hstep <;> exact ⟨_, rfl⟩
    | nextFails h =>
      rcases rest.of_failed with ⟨hevents, hfinal, _⟩
      exact .inl ⟨by rw [hevents], _, hfinal⟩

/-- What a loop did after its body left a signal, up to its end with the signal `last`. -/
inductive Answers (label : Option String) (f : Flow) : List Event → Stage κ → Flow → Prop
  /-- The loop goes on with its step and its check. -/
  | proceeds {rest : List Event} {final : Stage κ} {last : Flow} (hf : f.GoesOn label)
    : Answers label f (.next :: .check :: rest) final last
  | fails {halt : Halt} {last : Flow} (hf : f.GoesOn label) : Answers label f [.next] (.failed halt) last
  /-- The loop takes the signal and ends at once. -/
  | breaks (hf : f.Breaks label) : Answers label f [] .done .normal
  /-- The loop ends at once and leaves the signal. -/
  | escapes (hf : f.Escapes label) : Answers label f [] .done f

/-- What the loop does at once with the signal of its body. -/
theorem Step.of_body {stage final : Stage κ} {s t : State} {f : Flow}
    (h : loop.Step stage s (.body (some f)) final t)
    : (f.GoesOn loop.label ∧ ∃ c, final = .next c) ∨
        (f.Breaks loop.label ∧ final = .done ∧ t.context.flow = .normal) ∨
        (f.Escapes loop.label ∧ final = .done ∧ t.context.flow = f) := by
  cases h with
  | goesOn h hf => exact .inl ⟨hf, _, rfl⟩
  | breaks h hf => exact .inr (.inl ⟨hf, rfl, rfl⟩)
  | escapes h hf => exact .inr (.inr ⟨hf, rfl, rfl⟩)

/-- What follows after a body has left a signal. -/
theorem Steps.answers {stage final : Stage κ} {s t : State} {events front back : List Event} {f : Flow}
    (h : loop.Steps stage s events final t) (hfinal : final.Over)
    (hevents : events = front ++ .body (some f) :: back)
    : Answers loop.label f back final t.context.flow := by
  induction h generalizing front with
  | refl => cases front <;> cases hevents
  | cons held hstep rest ih =>
    cases front with
    | cons event front =>
      injection hevents with _ hevents
      exact ih hfinal hevents
    | nil =>
      injection hevents with hevent hevents
      rw [hevent] at hstep
      rw [hevents] at rest
      rcases hstep.of_body with ⟨hf, c, hmid⟩ | ⟨hf, hmid, hflow⟩ | ⟨hf, hmid, hflow⟩
      . rw [hmid] at rest
        rcases rest.of_next hfinal with ⟨hback, halt, hfailed⟩ | ⟨more, hback⟩
        . rw [hback, hfailed]
          exact .fails hf
        . rw [hback]
          exact .proceeds hf
      . rw [hmid] at rest
        rcases rest.of_done with ⟨hback, hdone, ht⟩
        rw [hback, hdone, ht, hflow]
        exact .breaks hf
      . rw [hmid] at rest
        rcases rest.of_done with ⟨hback, hdone, ht⟩
        rw [hback, hdone, ht, hflow]
        exact .escapes hf

/-- A signal that is left by a loop is the one that its body left last. -/
theorem Steps.escaped (hcheck : ∀ c, (loop.check c).Quiet) (hnext : loop.next.Quiet)
    {stage : Stage κ} {s t : State} {events : List Event}
    (h : loop.Steps stage s events .done t) (hstage : stage.Admits loop.label s.context.flow)
    (hstarts : ¬stage.Over) (ht : t.context.flow ≠ .normal)
    : ∃ front, events = front ++ [.body (some t.context.flow)] := by
  generalize hdone : Stage.done = final at h
  induction h with
  | refl =>
    rw [← hdone] at hstarts
    exact absurd trivial hstarts
  | @cons stage mid final s u t event events held hstep rest ih =>
    have hmid := hstep.admits hcheck hnext hstage
    cases mid with
    | done =>
      rcases rest.of_done with ⟨hevents, _, hu⟩
      rw [hu] at ht
      rw [hevents, hu]
      cases hstep with
      | ended h => exact absurd ((hcheck _ _ _ (.ok h)).trans hstage) ht
      | breaks h hf => exact absurd rfl ht
      | escapes h hf => exact ⟨[], rfl⟩
    | failed halt =>
      rw [rest.of_failed.2.1] at hdone
      injection hdone
    | _ =>
      rcases ih hmid id ht hdone with ⟨front, hevents⟩
      rw [hevents]
      exact ⟨event :: front, rfl⟩

section Leads

variable {α β : Type} {stage : Stage κ} {x : Run α} {goal : α → Stage κ} {s : State}

/--
How a computation that goes through the steps of a loop ends: at a stage that depends on its result, with
a failure of the loop, or given up. What is held on to in the end does not count.
-/
inductive Led (loop : Loop κ) (stage : Stage κ) (s : State) (goal : α → Stage κ)
    : EStateM.Result Halt State α → Prop
  | ok {events : List Event} {final : Stage κ} {a : α} {t : State} (held : List Held)
    (h : loop.Steps stage s events final t) (hfinal : final = goal a)
    : Led loop stage s goal (.ok a { t with held := held })
  | error {events : List Event} {halt : Halt} {t : State} (held : List Held)
    (h : loop.Steps stage s events (.failed halt) t)
    : Led loop stage s goal (.error halt { t with held := held })
  | gaveUp (t : State) : Led loop stage s goal (.error .exhausted t)

/-- A computation goes through the steps of a loop, from one stage to another. -/
def Leads (loop : Loop κ) (stage : Stage κ) (x : Run α) (goal : α → Stage κ) : Prop :=
  ∀ s, loop.Led stage s goal (x s)

theorem Step.ok {event : Event} {final : Stage κ} {a : α} {t : State}
    (h : loop.Step stage s event final t) (hfinal : final = goal a)
    : loop.Led stage s goal (.ok a t) :=
  .ok t.held h.steps hfinal

theorem Step.error {event : Event} {halt : Halt} {t : State} (h : loop.Step stage s event (.failed halt) t)
    : loop.Led stage s goal (.error halt t) :=
  .error t.held h.steps

theorem exhausted_leads : loop.Leads stage (Run.exhausted : Run α) goal := by
  intro s
  exact .gaveUp s

theorem pure_leads (a : α) (h : stage = goal a) : loop.Leads stage (pure a) goal := by
  intro s
  exact .ok s.held (.refl stage s) h

theorem next_leads (c : κ) : loop.Leads (.next c) loop.next fun _ => .check c := by
  intro s
  cases h : loop.next s with
  | error halt t => exact (Step.nextFails h).error
  | ok a t => exact (Step.proceeds h).ok rfl

theorem body_leads (c : κ)
    : loop.Leads (.body c) (loop.body >>= fun _ => Run.leavesLoop loop.label) fun leaves =>
        if leaves then .done else .next c := by
  intro s
  cases h : loop.body s with
  | error halt t =>
    rw [Run.bind_error h]
    exact (Step.bodyFails h).error
  | ok a t =>
    rw [Run.bind_ok h]
    rcases Run.leavesLoop_cases loop.label t with ⟨hf, hleaves⟩ | ⟨hf, hleaves⟩ | ⟨hf, hleaves⟩
    . rw [hleaves]
      exact (Step.goesOn h hf).ok rfl
    . rw [hleaves]
      exact (Step.breaks h hf).ok rfl
    . rw [hleaves]
      exact (Step.escapes h hf).ok rfl

theorem Led.after {mid : Stage κ} {u : State} {events : List Event} {held : List Held}
    {r : EStateM.Result Halt State α} (h : loop.Led mid { u with held := held } goal r)
    (hsteps : loop.Steps stage s events mid u)
    : loop.Led stage s goal r := by
  cases h with
  | @ok _ _ _ t held h hfinal =>
    rcases h.release with ⟨held', h⟩
    exact .ok (t := { t with held := held' }) held (hsteps.trans h) hfinal
  | @error _ _ t held h =>
    rcases h.release with ⟨held', h⟩
    exact .error (t := { t with held := held' }) held (hsteps.trans h)
  | gaveUp t => exact .gaveUp t

theorem Led.lettingGo {u : State} (h : loop.Led stage s goal (x u))
    : loop.Led stage s goal (Run.lettingGo x u) := by
  unfold Run.lettingGo
  generalize x u = r at h
  cases h with
  | @ok _ _ _ t held h hfinal => exact .ok (t := t) u.held h hfinal
  | @error _ _ t held h => exact .error (t := t) u.held h
  | gaveUp t => exact .gaveUp _

theorem Leads.bind {f : α → Run β} {goal' : β → Stage κ} (hx : loop.Leads stage x goal)
    (hf : ∀ a, loop.Leads (goal a) (f a) goal')
    : loop.Leads stage (x >>= f) goal' := by
  intro s
  specialize hx s
  rw [Run.bind_apply]
  generalize x s = r at hx ⊢
  cases hx with
  | ok held h hfinal =>
    rw [hfinal] at h
    exact (hf _ _).after h
  | error held h => exact .error held h
  | gaveUp t => exact .gaveUp t

theorem Leads.lettingGo (hx : loop.Leads stage x goal) : loop.Leads stage (Run.lettingGo x) goal := by
  intro s
  exact (hx s).lettingGo

/-- What is held on to from the middle of a computation on may be let go of. -/
theorem Leads.lettingGo_after {y : Run β} {f : β → Run α} (h : loop.Leads stage (y >>= f) goal)
    : loop.Leads stage (y >>= fun b => Run.lettingGo (f b)) goal := by
  intro s
  specialize h s
  rw [Run.bind_apply] at h ⊢
  cases hy : y s with
  | error halt t =>
    rw [hy] at h
    cases h with
    | error held h => exact .error held h
    | gaveUp t => exact .gaveUp t
  | ok b t =>
    rw [hy] at h
    exact h.lettingGo

/-- A loop that evaluates nothing between its rounds. -/
theorem Leads.of_check (hnext : loop.next = pure ()) {c : κ} (hx : loop.Leads (.check c) x goal)
    : loop.Leads (.next c) x goal := by
  have h : loop.Leads (.next c) (loop.next >>= fun _ => x) goal := (next_leads c).bind fun _ => hx
  rw [hnext, pure_bind] at h
  exact h

/-- A computation starts as a loop does, and goes through its steps from then on. -/
def Runs (loop : Loop κ) (x : Run Unit) : Prop :=
  ∀ s, (∃ halt t, loop.start s = .error halt t ∧ x s = .error halt t) ∨
    ∃ stage t, loop.start s = .ok stage t ∧ loop.Led stage t (fun _ => .done) (x s)

theorem Leads.runs {x : Run Unit} (h : loop.Leads stage x fun _ => .done) (hstart : loop.start = pure stage)
    : loop.Runs x := by
  intro s
  right
  rw [hstart]
  exact ⟨stage, s, rfl, h s⟩

theorem runs_bind {x : Run α} {f : α → Run Unit} (hstart : loop.start = do return goal (← x))
    (hf : ∀ a, loop.Leads (goal a) (f a) fun _ => .done)
    : loop.Runs (x >>= f) := by
  intro s
  rw [hstart, Run.bind_apply, Run.bind_apply]
  cases x s with
  | error halt t => exact .inl ⟨halt, t, rfl, rfl⟩
  | ok a t => exact .inr ⟨goal a, t, rfl, hf a t⟩

end Leads

end Loop

end ScriptEngine
