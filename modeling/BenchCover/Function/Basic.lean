import BenchCover.Function.Registry
import BenchCover.Profile.Duration

/-!
# Functions

The nodes of call graphs: functions of the profiled program with the times spent in them.
-/

namespace BenchCover

/-- **A function of the profiled program.** -/
structure Function where
  id : FunctionId
  name : String
  /-- The time spent in the function itself. -/
  selfTime : Duration
  /-- The time spent in the function and in all that it calls. -/
  totalTime : Duration
  deriving DecidableEq, Repr

namespace Function

/-- The function of a name, with the registry that knows the name. -/
def register (registry : Registry) (name : String) (selfTime totalTime : Duration) :
    Registry × Function :=
  let (registry, id) := registry.register name
  (registry, { id, name := Text.trimmed name, selfTime, totalTime })

def display (f : Function) : String :=
  s!"Function(id={f.id},name={f.name},self={f.selfTime.display},total={f.totalTime.display})"

end Function

end BenchCover
