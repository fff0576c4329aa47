/-!
# The log

Whether the events of graphs are logged, and how: a global switch, the level from which records
are kept, and the handlers that write them. Switching the log on makes sure that there is a
handler; switching it off leaves the handlers.
-/

namespace DiffGraph

/-- The state of the log. -/
structure Logging where
  enabled : Bool
  level : Int
  handlers : Nat
deriving Repr, DecidableEq

namespace Logging

/-- The level of the records of events. -/
def debugLevel : Int := 10

/-- The log before anything is done with it. -/
def initial : Logging := ⟨false, 0, 0⟩

/-- Switches the log on from a level, or off. -/
def enable (flag : Bool) (level : Int) (log : Logging) : Logging :=
  if flag then ⟨true, level, max log.handlers 1⟩ else ⟨false, 0, log.handlers⟩

def clearHandlers (log : Logging) : Logging := { log with handlers := 0 }

/-- Makes a part of the log ready for use. Where the log is on but has lost its handlers, it is
switched on again. -/
def prepare (log : Logging) : Logging :=
  if log.enabled && log.handlers == 0 then log.enable true debugLevel else log

@[simp] theorem enabled_enable (flag : Bool) (level : Int) (log : Logging) :
    (log.enable flag level).enabled = flag := by
  cases flag <;> rfl

end Logging

end DiffGraph
