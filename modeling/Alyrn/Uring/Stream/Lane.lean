import Mathlib.Logic.Function.Basic
import Alyrn.Uring.Op

/-!
# One lane of a stream

A uring stream has a read lane and a write lane. A lane is the slot for one pending operation with
the deadline bookkeeping around it. The two lanes run the same code on their own fields, so one
definition stands for `BeginReadOperation` and `BeginWriteOperation`, and so on.

The lane here also holds what hangs on it: the awaiters of its operations, which stand in the
frames of the waiting coroutines, the callbacks it has registered with the loop's timers, and the
requests that the kernel still has to complete. Awaiters are numbered in the order they are made.

A failed check is `none`.
-/

namespace Alyrn.Uring

inductive Dir where
  | read
  | write
  deriving DecidableEq, Repr

def Dir.cancelKind : Dir → OpKind
  | .read => .streamReadCancelComplete
  | .write => .streamWriteCancelComplete

def Dir.hosts : Dir → OpKind → Bool
  | .read, .readComplete | .read, .recvComplete | .read, .recvCopyComplete => true
  | .write, .writeComplete | .write, .sendZeroCopyComplete => true
  | _, _ => false

inductive ReservationKind where
  | none
  | single
  | multiple
  deriving DecidableEq, Repr

inductive ZeroCopySendUsage where
  | unknown
  | zeroCopy
  | copied
  deriving DecidableEq, Repr

/-! ## Awaiters -/

/-- An awaiter of `Read`, `Recv`, `Send` or `SendZeroCopy`; its operation's kind tells which. -/
structure Awaiter where
  op : Op
  buffer : List UInt8 := []
  timedOut : Bool := false
  /-- `Recv(buffer)`: the reservation in the buffer, and the bytes committed to it. -/
  reservation : ReservationKind := .none
  committed : Option ℕ := Option.none
  /-- `Recv()`: the result, which is a buffer of so many bytes. -/
  outcome : Option (Except Error ℕ) := Option.none
  split : SplitReleaseLifecycle := {}
  usage : ZeroCopySendUsage := .unknown
  notificationReceived : Bool := false

/-- What the provided buffers and the allocator answer to a completion of `Recv()`. -/
structure PoolAnswer where
  slot : Bool := true
  acquired : Bool := true
  copied : Bool := true
  deriving DecidableEq, Repr

def toSizeResult (result : Option ℤ) (timedOut : Bool) : Option (Except Error ℕ) := do
  let result ← result
  if timedOut then some (.error ETIMEDOUT)
  else if result < 0 then some (.error (negErrno result))
  else some (.ok result.toNat)

/-- The result of `Recv()` for a completion. -/
def recvCopyOutcome (timedOut : Bool) (e : CompletionEvent) (p : PoolAnswer) : Except Error ℕ :=
  if timedOut then .error ETIMEDOUT
  else if e.result < 0 then .error (negErrno e.result)
  else if e.result = 0 then .ok 0
  else if !(e.hasSelectedBuffer && p.slot) || e.bufferMore then .error EPROTO
  else if !p.acquired then .error EPROTO
  else if !p.copied then .error ENOMEM
  else .ok e.result.toNat

namespace Awaiter

variable (a : Awaiter)

def awaitResume : Option (Except Error ℕ) :=
  match a.op.kind with
  | .recvCopyComplete => a.outcome
  | .sendZeroCopyComplete =>
    match a.op.result with
    | Option.none => some (.error EIO)
    | some result => toSizeResult (some result) a.timedOut
  | _ => toSizeResult a.op.result a.timedOut

def finishReservation (result : Except Error ℕ) : Option Awaiter :=
  if a.reservation = .none then Option.none
  else some { a with reservation := .none, committed := result.toOption }

/-- What the roll-back of an operation that was not submitted does with the reservation. -/
def abandon (e : Error) : Option Awaiter :=
  if a.op.kind = .recvComplete then a.finishReservation (.error e) else some a

def finish (outcome : Except Error ℕ) : Option Awaiter :=
  if a.outcome.isSome then Option.none else some { a with outcome := some outcome }

/-- What an awaiter keeps of a result that ends its call at once. -/
def setImmediate (result : Except Error ℕ) : Option Awaiter := do
  let op ← a.op.setImmediate result
  if a.op.kind = .recvCopyComplete then finish { a with op } result else some { a with op }

/-- The awaiter's own part of `OnComplete`, before `Complete…Operation`. -/
def onComplete (timedOut : Bool) (e : CompletionEvent) (p : PoolAnswer) : Option Awaiter :=
  match a.op.kind with
  | .readComplete | .writeComplete => some { a with timedOut }
  | .recvComplete => do
    let result ← toSizeResult a.op.result timedOut
    { a with timedOut }.finishReservation result
  | .recvCopyComplete => do
    let op ← a.op.tryAuthorizeCoupledResult
    { a with op, timedOut }.finish (recvCopyOutcome timedOut e p)
  | _ => Option.none

/-- The awaiter's own part of `SendZeroCopyAwaiter::OnComplete`. -/
def onSendZeroCopy (timedOut : Bool) (e : CompletionEvent) : Option Awaiter :=
  if e.notification then
    match a.split.markPhysicalTerminal with
    | Option.none => some a
    | some split => some { a with
        split, notificationReceived := true,
        usage := if e.zeroCopyWasCopied then .copied else .zeroCopy }
  else
    match a.split.recordLogicalResult with
    | Option.none => some a
    | some split => do
      let op ← a.op.setResult e.result
      -- without `F_MORE` no notification follows, and the request ends here
      let split := if e.more then split else split.markPhysicalTerminal.getD split
      some { a with op, timedOut, split }

def authorizeRelease : Option Awaiter :=
  if a.op.kind = .sendZeroCopyComplete then
    a.split.tryAuthorizeRelease.map fun split => { a with split }
  else
    a.op.tryAuthorizeCoupledRelease.map fun op => { a with op }

def authorizeContinuation : Option Awaiter :=
  if a.op.kind = .sendZeroCopyComplete then
    a.split.tryAuthorizeContinuation.map fun split => { a with split }
  else
    some a

end Awaiter

/-! ## Lanes -/

/-- The callbacks a lane registers with the loop's timers. -/
inductive TimerCallback where
  | deadline
  | retry
  deriving DecidableEq, Repr

structure Timer where
  id : ℕ
  expiration : ℕ
  callback : TimerCallback
  generation : ℕ
  deriving DecidableEq, Repr

structure Lane where
  pending : Option ℕ := none
  deadline : Option ℕ := none
  timer : Option ℕ := none
  timerGeneration : ℕ := 0
  cancelOp : Op
  /-- `…_deadline_target_`; its owner and finalizer are those of the awaiter. -/
  target : Option ℕ := none
  cancelRequested : Bool := false
  cancelSubmitted : Bool := false
  cancelTerminal : Bool := false
  primaryTerminal : Bool := false
  timedOut : Bool := false
  awaiters : ℕ → Awaiter
  started : ℕ := 0
  results : List (ℕ × Except Error ℕ) := []
  timers : List Timer := []
  nextTimer : ℕ := 0
  /-- The operations whose completion the kernel owes, those whose notification it owes, and the
  cancel requests it has not answered. -/
  primaries : List ℕ := []
  notifications : List ℕ := []
  cancels : ℕ := 0
  /-- What the kernel reports to have accepted, send by send. -/
  sent : List (ℕ × List UInt8) := []

namespace Lane

def make (d : Dir) : Lane where
  cancelOp := { kind := d.cancelKind }
  awaiters := fun _ => { op := { kind := .none } }

variable (x : Lane)

/-- No operation is pending and no deadline target is left. -/
def free : Bool := x.pending.isNone && x.target.isNone

def setAwaiter (n : ℕ) (a : Awaiter) : Lane := { x with awaiters := Function.update x.awaiters n a }

def makeAwaiter (a : Awaiter) : Lane :=
  { x with awaiters := Function.update x.awaiters x.started a, started := x.started + 1 }

/-- What the abort and the end of an operation leave. -/
def reset : Lane :=
  { x with
    target := none, cancelRequested := false, cancelSubmitted := false, cancelTerminal := false,
    primaryTerminal := false, timedOut := false }

/-! ### Timers -/

def cancelDeadlineTimer : Lane :=
  { x with
    timerGeneration := x.timerGeneration + 1
    timer := none
    timers := x.timers.filter fun t => x.timer ≠ some t.id }

/-- The loop's `RunAfter`, when it succeeds. -/
def runAfter (expiration : ℕ) (callback : TimerCallback) (generation : ℕ) : Lane :=
  { x with
    timer := some x.nextTimer
    nextTimer := x.nextTimer + 1
    timers := x.timers ++ [⟨x.nextTimer, expiration, callback, generation⟩] }

/-- `ArmReadDeadlineTimer`, `ArmWriteDeadlineTimer`; `ok` tells whether the loop registers the
timer. -/
def armDeadlineTimer (now : ℕ) (ok : Bool) : Bool × Lane :=
  match x.deadline with
  | none => (true, x)
  | some deadline =>
    if x.target.isNone || x.cancelRequested then (true, x)
    else
      let x := { x with timerGeneration := x.timerGeneration + 1 }
      if ok then (true, x.runAfter (now + (deadline - now)) .deadline x.timerGeneration)
      else (false, x)

/-! ### Beginning and ending an operation -/

def beginOperation (n now : ℕ) (ok : Bool) : Option (Except Error Unit × Lane) :=
  if x.target.isSome then none
  else
    let x := { x.reset with cancelOp := x.cancelOp.beginNextRequest, target := some n }
    if x.deadline.any (· ≤ now) then some (.error ETIMEDOUT, x)
    else
      let (armed, x) := x.armDeadlineTimer now ok
      some (if armed then .ok () else .error ENOMEM, x)

def abortOperation (n : ℕ) : Option Lane :=
  if x.target = some n then some x.cancelDeadlineTimer.reset else none

/-- The continuation of the operation moves to the cancel operation. -/
def handOver (n : ℕ) : Lane :=
  let a := x.awaiters n
  match a.op.handle with
  | none => x
  | some handle =>
    { x with cancelOp := { x.cancelOp with handle := some handle } }.setAwaiter n
      { a with op := { a.op with handle := none } }

/-! ### Expiry -/

/-- `SubmitReadDeadlineCancel`, `SubmitWriteDeadlineCancel`; `answer` is the error of `SubmitOp`,
if there is one. -/
def submitDeadlineCancel (answer : Option Error) : Option (Except Error Unit × Lane) :=
  if x.target.isNone then none
  else if x.cancelSubmitted then some (.ok (), x)
  else
    let x := { x with cancelOp := x.cancelOp.beginNextRequest }
    match answer with
    | some e => some (.error e, x)
    | none => some (.ok (), { x with cancelSubmitted := true, cancels := x.cancels + 1 })

def retryDelay : ℕ := 1000000

/-- `ScheduleReadDeadlineCancelRetry`, `ScheduleWriteDeadlineCancelRetry`. -/
def scheduleDeadlineCancelRetry (generation now : ℕ) (ok : Bool) : Bool × Lane :=
  if ok then (true, x.runAfter (now + retryDelay) .retry generation) else (false, x)

/-- The loop's answers to a timer callback: the error of `SubmitOp`, and whether a retry timer can
be registered. -/
structure TimerAnswers where
  submit : Option Error := none
  retry : Bool := true
  deriving DecidableEq, Repr

/-- The common end of the timer callbacks: submit the cancel request, or try again later, or stop
the loop. The flag is the request to stop. -/
def submitOrRetry (generation now : ℕ) (ans : TimerAnswers) : Option (Bool × Lane) := do
  let (cancelled, x) ← x.submitDeadlineCancel ans.submit
  match cancelled with
  | .ok _ => some (false, x)
  | .error _ =>
    let (scheduled, x) := x.scheduleDeadlineCancelRetry generation now ans.retry
    some (!scheduled, x)

def handleDeadline (generation now : ℕ) (ans : TimerAnswers) : Option (Bool × Lane) :=
  if generation ≠ x.timerGeneration then some (false, x)
  else
    let x := { x with timer := none }
    if x.target.isNone || x.primaryTerminal || x.cancelSubmitted then some (false, x)
    else { x with timedOut := true, cancelRequested := true }.submitOrRetry generation now ans

def retryDeadlineCancel (generation now : ℕ) (ans : TimerAnswers) : Option (Bool × Lane) :=
  if generation ≠ x.timerGeneration then some (false, x)
  else
    let x := { x with timer := none }
    if x.target.isNone || x.primaryTerminal || x.cancelSubmitted then some (false, x)
    else x.submitOrRetry generation now ans

/-- The loop runs a registered timer; it has left the timer queue by then. -/
def fire (t : Timer) (now : ℕ) (ans : TimerAnswers) : Option (Bool × Lane) :=
  let x := { x with timers := x.timers.erase t }
  match t.callback with
  | .deadline => x.handleDeadline t.generation now ans
  | .retry => x.retryDeadlineCancel t.generation now ans

def setDeadline (deadline : Option ℕ) (now : ℕ) (ok : Bool) : Except Error Unit × Lane :=
  let x := { x.cancelDeadlineTimer with deadline }
  if x.target.isSome && !x.cancelRequested then
    let (armed, x) := x.armDeadlineTimer now ok
    (if armed then .ok () else .error ENOMEM, x)
  else (.ok (), x)

end Lane

end Alyrn.Uring
