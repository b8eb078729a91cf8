/-!
# The states of a loop

What both backends publish to other threads about a loop.
-/

namespace Alyrn

/-- The states of an event loop, on either backend. -/
inductive LoopState where
  | created
  | running
  | stopping
  | stopped
  deriving DecidableEq, Repr

/-- `Stopping` or `Stopped`. -/
def LoopState.isStopping : LoopState → Bool
  | .stopping | .stopped => true
  | .created | .running => false

def LoopState.requestStop : LoopState → LoopState
  | .created | .running => .stopping
  | state => state

end Alyrn
