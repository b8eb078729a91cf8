import Mathlib.Tactic.Common

/-!
# Operation lifecycles

The order in which an operation publishes its result, gives up its resource and resumes its
continuation. Each transition succeeds at most once, and only after the one before it.
-/

namespace Alyrn

/-- `SingleResultLifecycle`: the result and the release are coupled. -/
inductive SingleResultLifecycle where
  | pending
  | resultReady
  | releaseAuthorized
  | continuationAuthorized
  deriving DecidableEq, Repr

namespace SingleResultLifecycle

def tryAuthorizeResult : SingleResultLifecycle → Option SingleResultLifecycle
  | .pending => some .resultReady
  | _ => none

def tryAuthorizeRelease : SingleResultLifecycle → Option SingleResultLifecycle
  | .resultReady => some .releaseAuthorized
  | _ => none

def tryAuthorizeContinuation : SingleResultLifecycle → Option SingleResultLifecycle
  | .releaseAuthorized => some .continuationAuthorized
  | _ => none

end SingleResultLifecycle

/-- `SplitReleaseLifecycle`: the result and the end of the physical request are separate events,
and the release waits for both. -/
structure SplitReleaseLifecycle where
  logicalResult : Bool := false
  physicalTerminal : Bool := false
  releaseAuthorized : Bool := false
  continuationAuthorized : Bool := false
  deriving DecidableEq, Repr

namespace SplitReleaseLifecycle

variable (l : SplitReleaseLifecycle)

def recordLogicalResult : Option SplitReleaseLifecycle :=
  if l.logicalResult then none else some { l with logicalResult := true }

def markPhysicalTerminal : Option SplitReleaseLifecycle :=
  if l.physicalTerminal then none else some { l with physicalTerminal := true }

def tryAuthorizeRelease : Option SplitReleaseLifecycle :=
  if !l.logicalResult || !l.physicalTerminal || l.releaseAuthorized then none
  else some { l with releaseAuthorized := true }

def tryAuthorizeContinuation : Option SplitReleaseLifecycle :=
  if !l.releaseAuthorized || l.continuationAuthorized then none
  else some { l with continuationAuthorized := true }

end SplitReleaseLifecycle

end Alyrn
