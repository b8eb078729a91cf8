import Alyrn.Backend.LoopState
import Alyrn.Lib.Transition
import Alyrn.Uring.Op

/-!
# Connect

One `ConnectAwaiter` of the uring connector, from its construction to its destruction, on its owner
loop. The connect timeout cancels the connect by a second request; both completions name the
awaiter, so the continuation moves to the cancel operation if that one is still in flight when the
connect completes.

The parts of the loop that the awaiter meets are in the state: its registered timers, its two
requests in the kernel, and its works in the completion queue. Timers may fire at any moment. What
the loop, the kernel and the socket calls answer is part of the action.
-/

namespace Alyrn.Uring

/-- The callbacks of the two timers. -/
inductive ConnectTimer where
  | timeout
  | retry
  deriving DecidableEq, Repr

/-- The operation whose continuation is queued. -/
inductive ConnectWork where
  | connect
  | cancel
  deriving DecidableEq, Repr

/-- Answers of the socket calls after a successful connect. -/
structure SocketAnswers where
  nonBlocking : Option Error := none
  tcpOptions : Option Error := none
  deriving DecidableEq, Repr

/-- The connect's completion as it was handled; `observed` if the timeout had been observed. -/
structure ConnectCompletion where
  result : ℤ
  answers : SocketAnswers
  observed : Bool
  deriving DecidableEq, Repr

/-- The awaiter, its operations and what the kernel and the loop hold of it. -/
structure ConnectAwaiter where
  connectOp : Op := { kind := .connect }
  cancelOp : Op := { kind := .connectCancelComplete }
  hasTimeout : Bool
  timer : Option ℕ := none
  fdOpen : Bool := false
  timedOut : Bool := false
  connectTerminal : Bool := false
  cancelSubmitted : Bool := false
  cancelTerminal : Bool := false
  /-- `result_`; a stream is its only value. -/
  result : Option (Except Error Unit) := none
  timers : List (ℕ × ConnectTimer) := []
  nextTimer : ℕ := 0
  connectInFlight : Bool := false
  cancelInFlight : Bool := false
  queue : List ConnectWork := []
  loopState : LoopState := .running
  started : Bool := false
  submitted : Bool := false
  completion : Option ConnectCompletion := none
  /-- The error with which the call ended without a connect request. -/
  localError : Option Error := none
  resumed : List (Except Error Unit) := []
  sockets : ℕ := 0
  closes : ℕ := 0
  streams : ℕ := 0
  destroyed : Bool := false
  aborted : Bool := false

namespace ConnectAwaiter

variable (s : ConnectAwaiter)

def submitOp (answer : Option Error) : Option Error :=
  if s.loopState.isStopping then some ECANCELED else answer

def runAfter (callback : ConnectTimer) : ConnectAwaiter :=
  { s with timers := s.timers ++ [(s.nextTimer, callback)]
           timer := some s.nextTimer
           nextTimer := s.nextTimer + 1 }

def cancelTimer : ConnectAwaiter :=
  match s.timer with
  | some id => { s with timers := s.timers.filter (·.1 ≠ id), timer := none }
  | none => s

def closeFd : ConnectAwaiter :=
  if s.fdOpen then { s with fdOpen := false, closes := s.closes + 1 } else s

def releasePhysicalRequest : ConnectAwaiter := s.cancelTimer.closeFd

def setResult (r : Except Error Unit) : Option ConnectAwaiter :=
  if s.result.isSome then none else some { s with result := some r }

/-- The two authorizations and the release that follow the result. -/
def finish : Option ConnectAwaiter := do
  let op ← s.connectOp.tryAuthorizeCoupledResult
  let op ← op.tryAuthorizeCoupledRelease
  some { s with connectOp := op }.releasePhysicalRequest

/-- `await_resume`, and the destructor at the end of the full expression. -/
def resume : Option ConnectAwaiter := do
  let r ← s.result
  let s := { s with result := none, resumed := s.resumed ++ [r] }
  if s.connectOp.handle.isSome && !s.connectOp.completed then none
  else if s.cancelSubmitted && !s.cancelTerminal then none
  else some { s.cancelTimer.closeFd with destroyed := true }

def completeInline (e : Error) : Option ConnectAwaiter := do
  let s ← { s with localError := some e }.setResult (.error e)
  let s ← s.finish
  s.resume

structure StartAnswers where
  socket : Option Error := none
  timer : Option Error := none
  submit : Option Error := none
  deriving DecidableEq, Repr

def submitConnect (answer : Option Error) : Option ConnectAwaiter :=
  match s.submitOp answer with
  | none =>
    some { s with connectOp := { s.connectOp with handle := some 0 }
                  connectInFlight := true, submitted := true }
  | some e => s.completeInline e

def awaitSuspend (ans : StartAnswers) : Option ConnectAwaiter :=
  let s := { s with started := true }
  if s.loopState.isStopping then s.completeInline ECANCELED
  else
    match ans.socket with
    | some e => s.completeInline e
    | none =>
      let s := { s with fdOpen := true, sockets := s.sockets + 1 }
      if s.hasTimeout then
        match ans.timer with
        | some e => s.completeInline e
        | none => (s.runAfter .timeout).submitConnect ans.submit
      else s.submitConnect ans.submit

/-- What a completed connect yields if the timeout was not observed. -/
def outcome (result : ℤ) (ans : SocketAnswers) : Except Error Unit :=
  if result < 0 then .error (negErrno result)
  else
    match ans.nonBlocking with
    | some e => .error e
    | none =>
      match ans.tcpOptions with
      | some e => .error e
      | none => .ok ()

/-- The result of a completed connect; a stream takes the descriptor. -/
def connected (result : ℤ) (ans : SocketAnswers) : Option ConnectAwaiter :=
  if s.timedOut then s.setResult (.error ETIMEDOUT)
  else
    match outcome result ans with
    | .error e => s.setResult (.error e)
    | .ok _ => { s with fdOpen := false, streams := s.streams + 1 }.setResult (.ok ())

/-- The end of `OnComplete`: the continuation waits for the cancel's completion. -/
def moveContinuation : Option ConnectAwaiter :=
  if s.cancelSubmitted && !s.cancelTerminal then
    -- `Handle` and `SetHandle` check for a handle
    s.connectOp.handle.map fun h =>
      { s with cancelOp := { s.cancelOp with handle := some h }
               connectOp := { s.connectOp with handle := none } }
  else some s

def onComplete (result : ℤ) (ans : SocketAnswers) : Option ConnectAwaiter := do
  let completion := some ⟨result, ans, s.timedOut⟩
  let s := { s with connectTerminal := true, completion }.cancelTimer
  let s ← s.connected result ans
  let s ← s.finish
  s.moveContinuation

def handleConnectCqe (result : ℤ) (ans : SocketAnswers) : Option ConnectAwaiter := do
  if s.connectOp.completed then some s
  else
    let op ← s.connectOp.recordCqe result
    let s ← { s with connectOp := op }.onComplete result ans
    if s.connectOp.handle.isSome then
      let op ← s.connectOp.authorizeResume
      some { s with connectOp := op, queue := s.queue ++ [.connect] }
    else some s

/-- `HandleCqe` for the cancel, with `OnCancelComplete`. -/
def handleCancelCqe (result : ℤ) : Option ConnectAwaiter := do
  if s.cancelOp.completed then some s
  else
    let op ← s.cancelOp.recordCqe result
    let s := { s with cancelOp := op, cancelTerminal := true }
    if s.connectTerminal && s.cancelOp.handle.isSome then
      let op ← s.cancelOp.authorizeResume
      some { s with cancelOp := op, queue := s.queue ++ [.cancel] }
    else some s

structure CancelAnswers where
  submit : Option Error := none
  retry : Option Error := none
  deriving DecidableEq, Repr

def submitCancel (ans : CancelAnswers) : ConnectAwaiter :=
  let s := { s with cancelOp := s.cancelOp.beginNextRequest }
  match s.submitOp ans.submit with
  | none => { s with cancelSubmitted := true, cancelInFlight := true }
  | some _ =>
    if s.loopState.isStopping then s
    else
      match ans.retry with
      | none => s.runAfter .retry
      | some _ => { s with loopState := s.loopState.requestStop }

def onTimeout (ans : CancelAnswers) : ConnectAwaiter :=
  if s.connectTerminal || s.cancelSubmitted then s
  else { s with timedOut := true }.submitCancel ans

def onRetry (ans : CancelAnswers) : ConnectAwaiter :=
  if !s.connectTerminal && !s.cancelSubmitted then s.submitCancel ans else s

/-- A timer fires: the queue removes it, and its callback clears `timer_`. -/
def fire (id : ℕ) (callback : ConnectTimer) (ans : CancelAnswers) : ConnectAwaiter :=
  let s := { s with timers := s.timers.filter (·.1 ≠ id), timer := none }
  match callback with
  | .timeout => s.onTimeout ans
  | .retry => s.onRetry ans

/-- The loop runs a work of the awaiter: `Run` checks for a handle. -/
def runWork (work : ConnectWork) : Option ConnectAwaiter :=
  let op := match work with
    | .connect => s.connectOp
    | .cancel => s.cancelOp
  if op.handle.isSome then s.resume else none

/-! ## The system -/

/-- The call, the completions, the timers and the loop. -/
inductive Action where
  | connect (ans : StartAnswers)
  | connectCqe (result : ℤ) (ans : SocketAnswers)
  | cancelCqe (result : ℤ)
  | fire (id : ℕ) (callback : ConnectTimer) (ans : CancelAnswers)
  | requestStop
  | runNext
  deriving Repr

def orAbort (s : ConnectAwaiter) : Option ConnectAwaiter → ConnectAwaiter
  | some s' => s'
  | none => { s with aborted := true }

def step (a : Action) (s : ConnectAwaiter) : Option ConnectAwaiter :=
  if s.aborted then none
  else
    match a with
    | .connect ans => if s.started then none else some (s.orAbort (s.awaitSuspend ans))
    | .connectCqe result ans =>
      if s.connectInFlight then
        some (s.orAbort ({ s with connectInFlight := false }.handleConnectCqe result ans))
      else none
    | .cancelCqe result =>
      if s.cancelInFlight then
        some (s.orAbort ({ s with cancelInFlight := false }.handleCancelCqe result))
      else none
    | .fire id callback ans =>
      if (id, callback) ∈ s.timers then some (s.fire id callback ans) else none
    | .requestStop => some { s with loopState := s.loopState.requestStop }
    | .runNext =>
      match s.queue with
      | work :: rest => some (s.orAbort ({ s with queue := rest }.runWork work))
      | [] => none

def system : Transition.System ConnectAwaiter Action where
  init s := ∃ hasTimeout loopState, s = { hasTimeout, loopState }
  step := step

end ConnectAwaiter

end Alyrn.Uring
