import ScriptEngine.Fault.Error

/-!
This module contains the reports that a host gets when a module fails.
-/

namespace ScriptEngine

/-- The kinds of failures that a host tells apart. -/
inductive Severity where
  /-- An exception that nothing handled. -/
  | runtime
  /-- A misuse of the language that nothing can handle. -/
  | fatal
  /-- The failure of a spawned call that was joined. -/
  | thread
deriving DecidableEq, Inhabited

structure Report where
  severity : Severity
  error : Error
deriving Inhabited

namespace Report

def ofError (e : Error) : Report :=
  if e.isFatal then ⟨.fatal, e⟩
  else if e.cause = .threadFailed then ⟨.thread, e⟩
  else ⟨.runtime, e⟩

/-- The wording of a report. -/
def text (r : Report) : String :=
  let intro :=
    match r.severity with
    | .runtime => ""
    | .fatal => "fatal: "
    | .thread => "thread failed: "
  intro ++ r.error.message ++ r.error.place

/-- One line for every active function, innermost first. -/
def backtrace (r : Report) : String := Activation.lines (r.error.backtrace.getD [])

end Report

end ScriptEngine
