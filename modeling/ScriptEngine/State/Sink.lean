/-!
This module contains the places that the output of scripts goes to.
-/

namespace ScriptEngine

inductive Sink where
  /-- The output goes to the terminal, which keeps no record of it. -/
  | console
  /-- The output is kept. -/
  | buffer (text : String)
  /-- The output is dropped. -/
  | silent
deriving DecidableEq, Inhabited

namespace Sink

def print (text : String) : Sink → Sink
  | buffer kept => buffer (kept ++ text)
  | sink => sink

def println (text : String) (sink : Sink) : Sink := sink.print (text ++ "\n")

/-- What was kept so far. -/
def output : Sink → String
  | buffer kept => kept
  | _ => ""

/-- Takes what was kept so far out of the sink. -/
def take : Sink → String × Sink
  | buffer kept => (kept, buffer "")
  | sink => ("", sink)

def isCapturing : Sink → Bool
  | buffer _ => true
  | _ => false

end Sink

end ScriptEngine
