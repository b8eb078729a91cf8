import Alyrn.Result

/-!
# Stream lifecycle

The state of a connected stream that both backends share: whether the resource is open, and how
far each direction has been shut down. A failed check of a transition is `none`.
-/

namespace Alyrn.Net

inductive ResourceState where
  | opened
  | closing
  | closed
  deriving DecidableEq, Repr

/-- `ReadState` and `WriteState`, which go through the same three stages: usable, being shut down,
shut down. -/
inductive HalfState where
  | usable
  | shutdownPreparing
  | shutdown
  deriving DecidableEq, Repr

/-- The descriptor and the two halves of a stream. -/
structure StreamLifecycle where
  resource : ResourceState := .opened
  read : HalfState := .usable
  write : HalfState := .usable
  deriving DecidableEq, Repr

namespace StreamLifecycle

variable (l : StreamLifecycle)

def validateResource : Except Error Unit :=
  match l.resource with
  | .closing => .error ECANCELED
  | .closed => .error EBADF
  | .opened => .ok ()

/-- `ValidateRead`: a read side that is shut down still validates. -/
def validateRead : Except Error Unit := do
  l.validateResource
  if l.read = .shutdownPreparing then .error EBUSY else .ok ()

def validateWrite : Except Error Unit := do
  l.validateResource
  match l.write with
  | .shutdown => .error EPIPE
  | .shutdownPreparing => .error EBUSY
  | .usable => .ok ()

def isReadShutdown : Bool := l.read = .shutdown

/-- `PrepareCloseRead`: `true` means that the caller now owes the shutdown of the read side. -/
def prepareCloseRead (readPending : Bool) : Except Error (Bool × StreamLifecycle) := do
  l.validateRead
  match l.read with
  | .shutdown => .ok (false, l)
  | .shutdownPreparing => .error EBUSY
  | .usable =>
    if readPending then .error EBUSY else .ok (true, { l with read := .shutdownPreparing })

def commitCloseRead : Option StreamLifecycle :=
  if l.resource = .opened ∧ l.read = .shutdownPreparing then some { l with read := .shutdown }
  else none

def abortCloseReadPreparation : Option StreamLifecycle :=
  if l.resource = .opened ∧ l.read = .shutdownPreparing then some { l with read := .usable }
  else none

/-- `PrepareShutdown`: `true` means that the caller now owes the shutdown of the write side. -/
def prepareShutdown (writePending : Bool) : Except Error (Bool × StreamLifecycle) := do
  l.validateResource
  match l.write with
  | .shutdown => .ok (false, l)
  | .shutdownPreparing => .error EBUSY
  | .usable =>
    if writePending then .error EBUSY else .ok (true, { l with write := .shutdownPreparing })

def commitShutdown : Option StreamLifecycle :=
  if l.resource = .opened ∧ l.write = .shutdownPreparing then some { l with write := .shutdown }
  else none

def abortShutdownPreparation : Option StreamLifecycle :=
  if l.resource = .opened ∧ l.write = .shutdownPreparing then some { l with write := .usable }
  else none

/-- `PrepareClose`: `false` means that the resource was closed before. -/
def prepareClose : Except Error (Bool × StreamLifecycle) :=
  match l.resource with
  | .closed => .ok (false, l)
  | .closing => .error EBUSY
  | .opened =>
    if l.read = .shutdownPreparing ∨ l.write = .shutdownPreparing then .error EBUSY
    else .ok (true, { l with resource := .closing })

def abortClosePreparation : Option StreamLifecycle :=
  if l.resource = .closing then some { l with resource := .opened } else none

def markClosed : StreamLifecycle := { l with resource := .closed }

end StreamLifecycle

end Alyrn.Net
