import Alyrn.Lib.Transition
import Alyrn.Net.AcceptSourceState
import Alyrn.Uring.Listener
import Alyrn.Uring.Op
import Alyrn.Uring.SourceControl

/-!
# AcceptSource

The multishot accept source of the uring backend, with the listener it accepts from. An accepted
connection waits in the bounded queue, or in the overflow list if the kernel accepted it after the
queue had filled; a stream is its descriptor here.

One step of the system is one entry into the source or the listener from their owner loop. A
failed check, or a null pointer that is followed, aborts.

`TryTakeNext` can resume admission, whose failed submission delivers again, so the delivery is
recursive in the source text. `deliverNext` counts the nesting down and aborts at zero; the
nesting never gets there.
-/

namespace Alyrn.Uring

open Net Transition

/-- What becomes of a connection the kernel has accepted: `MakeStream` wraps it, `MakeStream`
fails and closes it, or the queue has no memory for it. -/
inductive Wrapped where
  | stream
  | failed
  | noMemory
  deriving DecidableEq, Repr

/-- The source with its awaiters, their results and its listener. -/
structure AcceptSource where
  ctl : SourceControl AcceptSourceStateMachine
  listener : Listener
  loopStopping : Bool
  multishotEnabled : Bool
  events : List ℕ
  overflow : List ℕ
  pendingNext : Option ℕ
  pendingStop : Option ℕ
  /-- The calls of `Next()` and `Stop()` so far, which number their awaiters. -/
  nextCalls : ℕ
  stopCalls : ℕ
  nexts : List (ℕ × NextResult ℕ)
  stops : List (ℕ × Except Error Unit)
  /-- The deliveries that took a result: the awaiter parked when the call began, and the one it
  found when it had the result. -/
  deliveries : List (Option ℕ × Option ℕ)
  /-- The descriptors that `MakeStream` has wrapped, in the order of their completions. -/
  accepted : List ℕ

namespace AcceptSource

def make (listener : Listener) (loopStopping : Bool) (state : AcceptSourceStateMachine) :
    AcceptSource where
  ctl := .create state
  listener := listener
  loopStopping := loopStopping
  multishotEnabled := true
  events := []
  overflow := []
  pendingNext := none
  pendingStop := none
  nextCalls := 0
  stopCalls := 0
  nexts := []
  stops := []
  deliveries := []
  accepted := []

def create (listener : Listener) (loopStopping : Bool) (options : AcceptSourceOptions) :
    Except Error AcceptSource :=
  if loopStopping then .error ECANCELED
  else if listener.closed = true ∨ listener.fdOpen = false then .error EBADF
  else if listener.pendingAccepts ≠ 0 ∨ listener.pendingClose.isSome ∨
    listener.acceptSource.isSome then .error EBUSY
  else (AcceptSourceStateMachine.create options).map (make listener loopStopping)

variable (s : AcceptSource)

abbrev machine : AcceptSourceStateMachine := s.ctl.state

def abort : AcceptSource := { s with ctl := { s.ctl with aborted := true } }

def setMachine (m : AcceptSourceStateMachine) : AcceptSource :=
  { s with ctl := { s.ctl with state := m } }

/-- The listener's descriptor can no longer be used. -/
def listenerClosed : Bool := s.listener.closed = true ∨ s.listener.fdOpen = false

/-- `NextAwaiter::Complete`, and the immediate results of `await_suspend`. -/
def completeNext (awaiter : ℕ) (r : NextResult ℕ) : AcceptSource :=
  { s with nexts := complete s.nexts awaiter r }

def completeStop (awaiter : ℕ) (r : Except Error Unit) : AcceptSource :=
  { s with stops := complete s.stops awaiter r }

def requestBackendStop (error : Option Error) : AcceptSource :=
  { s with ctl := s.ctl.requestBackendStop AcceptSourceStateMachine.requestStop error }

def requestBackendPause : AcceptSource :=
  { s with
    ctl := s.ctl.requestBackendPause AcceptSourceStateMachine.requestPause
      AcceptSourceStateMachine.requestStop }

def startOperation : Option Error × AcceptSource :=
  if s.listenerClosed then (some EBADF, s)
  else if s.loopStopping then (some ECANCELED, s)
  else if s.ctl.submitted then (none, s)
  else if s.machine.canArm = false then (none, s)
  else
    match s.machine.tryArm with
    | none => (none, s)
    | some m =>
      match (s.setMachine m).ctl.submitOp with
      | (none, ctl) =>
        (none, { s with
          ctl := { ctl with submitted := true, inFlight := true }
          listener := { s.listener with pendingAccepts := s.listener.pendingAccepts + 1 } })
      | (some e, ctl) =>
        match ctl.state.completeMultishotEvent .none .terminal with
        | .ok m => (some e, { s with ctl := { ctl with state := m } })
        | .error _ => (some e, ({ s with ctl } : AcceptSource).abort)

def start : Option Error × AcceptSource :=
  if s.machine.state ≠ .idle then (some EALREADY, s)
  else if s.listenerClosed then (some EBADF, s)
  else if s.listener.pendingAccepts ≠ 0 ∨ s.listener.acceptSource.isSome then (some EBUSY, s)
  else
    match s.machine.start with
    | .error e => (some e, s)
    | .ok m =>
      let s := { s.setMachine m with listener := { s.listener with acceptSource := some .this } }
      match s.startOperation with
      | (none, s) => (none, s)
      | (some e, s) => (some e, s.requestBackendStop (some e))

def beginStop : Except Error Bool × AcceptSource :=
  let s := s.setMachine s.machine.requestStop
  if s.ctl.submitted = false ∧ s.ctl.cancelSubmitted = false then (.ok false, s)
  else if s.ctl.submitted then
    match s.ctl.startCancel with
    | (some e, ctl) => (.error e, { s with ctl })
    | (none, ctl) => (.ok true, { s with ctl })
  else (.ok true, s)

def completeStopIfReady : AcceptSource :=
  match s.pendingStop with
  | none => s
  | some awaiter =>
    if s.ctl.submitted = true ∨ s.ctl.cancelSubmitted = true then s
    else { s with pendingStop := none }.completeStop awaiter (.ok ())

def releaseListenerReservation : AcceptSource :=
  if s.machine.state = .terminal ∧ s.listener.acceptSource = some .this then
    { s with listener := { s.listener with acceptSource := none } }
  else s

/-! ## Delivery -/

section

-- the nested call of `DeliverNextIfReady`
variable (deliver : AcceptSource → AcceptSource)

def ensureSubmissionWith : AcceptSource :=
  if s.listener.closed = true ∨ s.machine.state ≠ .active ∨ s.ctl.submitted = true ∨
    s.ctl.cancelSubmitted = true then s
  else
    match s.startOperation with
    | (none, s) => s
    | (some e, s) => deliver (s.requestBackendStop (some e))

def maybeResumeWith : AcceptSource :=
  -- overflowed connections are taken before admission resumes
  if s.ctl.terminalError.isSome ∨ s.listener.closed = true ∨ s.ctl.cancelSubmitted = true ∨
    s.overflow ≠ [] then s
  else
    match s.machine.tryResume with
    | none => s
    | some m => (s.setMachine m).ensureSubmissionWith deliver

def tryTakeNextWith : Option (NextResult ℕ) × AcceptSource :=
  match s.events with
  | stream :: events =>
    let s := { s with events }
    match s.machine.consumeEvent with
    | none => (some .endOfStream, s.abort)
    | some m =>
      let s := s.setMachine m
      (some (.event stream), if s.machine.state = .paused then s.maybeResumeWith deliver
        else s.ensureSubmissionWith deliver)
  | [] =>
    match s.overflow with
    | stream :: overflow =>
      let s := { s with overflow }
      (some (.event stream),
        if overflow = [] ∧ s.machine.state = .paused then s.maybeResumeWith deliver else s)
    | [] =>
      if s.machine.state = .terminal then
        (some (match s.ctl.terminalError with
          | some e => .error e
          | none => .endOfStream), s.releaseListenerReservation)
      else (none, s)

def deliverNextWith : AcceptSource :=
  if s.pendingNext.isNone then s
  else
    match s.tryTakeNextWith deliver with
    | (none, t) => t
    | (some r, t) =>
      let t := { t with deliveries := t.deliveries ++ [(s.pendingNext, t.pendingNext)] }
      match t.pendingNext with
      | some awaiter => { t with pendingNext := none }.completeNext awaiter r
      -- a nested delivery has taken the awaiter: a null pointer
      | none => t.abort

end

/-- `DeliverNextIfReady` with at most `depth` nested calls. -/
def deliverNext : ℕ → AcceptSource → AcceptSource
  | 0, s => s.abort
  | depth + 1, s => s.deliverNextWith (deliverNext depth)

def deliverNextIfReady : AcceptSource → AcceptSource := deliverNext 2

def ensureSubmission : AcceptSource := s.ensureSubmissionWith deliverNextIfReady

def maybeResume : AcceptSource := s.maybeResumeWith deliverNextIfReady

def tryTakeNext : Option (NextResult ℕ) × AcceptSource := s.tryTakeNextWith deliverNextIfReady

/-! ## Completions -/

/-- The branch of `OnCompletion` for an accepted connection: whether it produced an event. -/
def onAccepted (stream : ℕ) (wrapped : Wrapped) : Bool × AcceptSource :=
  match wrapped with
  -- the failure belongs to the connection: the source keeps accepting
  | .failed => (false, s)
  | .noMemory => (false, s.requestBackendStop (some ENOMEM))
  | .stream =>
    if s.overflow ≠ [] ∨ s.machine.options.eventCapacity ≤ s.machine.queuedEvents then
      -- the kernel accepted this connection before the pause landed: keep it
      (false, { s with overflow := s.overflow ++ [stream] }.requestBackendPause)
    else (true, { s with events := s.events ++ [stream] })

def isMultishotUnsupported (result : ℤ) : Bool := result = -EINVAL ∨ result = -EOPNOTSUPP

/-- The branch of `OnCompletion` for the failed end of a request. -/
def onFailure (result : ℤ) : AcceptSource :=
  let stopping := s.machine.state = .stopping ∨ s.machine.state = .pausing ∨
    s.machine.state = .paused ∨ s.machine.state = .draining ∨ s.machine.state = .terminal
  if ¬ stopping ∧ s.multishotEnabled = true ∧ isMultishotUnsupported result = true then
    -- retry with ordinary accepts
    { s with multishotEnabled := false }
  else if ¬ stopping ∧ isAcceptedConnectionError (negErrno result) = false then
    s.requestBackendStop (some (negErrno result))
  else s

/-- The first lines of `OnCompletion`: the last completion of a request ends it. -/
def endRequest (more : Bool) : AcceptSource :=
  if more then s
  else
    let s := { s with ctl := { s.ctl with submitted := false } }
    if s.listener.pendingAccepts = 0 then s.abort
    else { s with
      listener := { s.listener with pendingAccepts := s.listener.pendingAccepts - 1 } }

/-- The branches of `OnCompletion`: whether an event was produced. -/
def handleResult (event : CompletionEvent) (wrapped : Wrapped) : Bool × AcceptSource :=
  if 0 ≤ event.result then s.onAccepted event.result.toNat wrapped
  else if event.more = false then (false, s.onFailure event.result)
  else (false, s)

def recordEvent (produced more : Bool) : AcceptSource :=
  match s.machine.completeMultishotEvent (if produced then .produced else .none)
    (if more then .more else .terminal) with
  | .ok m => s.setMachine m
  | .error e => s.requestBackendStop (some e)

/-- `OnCompletion` after the record: pause, resubmit, deliver, resume. -/
def afterResult (more : Bool) : AcceptSource :=
  let s := if s.machine.state = .active ∧
      s.machine.options.eventCapacity ≤ s.machine.queuedEvents then s.requestBackendPause else s
  let s := if more = false ∧ s.machine.state = .active ∧ s.ctl.terminalError.isNone then
    s.ensureSubmission else s
  let s := maybeResume (deliverNextIfReady s)
  let s := if more then s else { s with listener := s.listener.notifyCloseProgress }
  s.completeStopIfReady

def onCompletion (event : CompletionEvent) (wrapped : Wrapped) : AcceptSource :=
  let (produced, s) := (s.endRequest event.more).handleResult event wrapped
  (s.recordEvent produced event.more).afterResult event.more

def onCancelComplete (result : ℤ) : AcceptSource :=
  let ctl := { s.ctl with cancelSubmitted := false }
  let ctl := if isExpectedCancelCqeResult result then ctl
    else { ctl with terminalError := ctl.terminalError.or (some (negErrno result)) }
  (maybeResume { s with ctl }).completeStopIfReady

def onListenerClosed : AcceptSource :=
  (deliverNextIfReady (s.setMachine s.machine.requestStop)).completeStopIfReady

/-! ## Calls of the application -/

def next : AcceptSource :=
  let awaiter := s.nextCalls
  let s := { s with nextCalls := awaiter + 1 }
  if s.pendingNext.isSome then s.completeNext awaiter (.error EBUSY)
  else
    match if s.machine.state = .idle then s.start else (none, s) with
    | (some e, s) => s.completeNext awaiter (.error e)
    | (none, s) =>
      match s.tryTakeNext with
      | (some r, s) => s.completeNext awaiter r
      | (none, s) => { s with pendingNext := some awaiter }

def stop : AcceptSource :=
  let awaiter := s.stopCalls
  let s := { s with stopCalls := awaiter + 1 }
  if s.pendingStop.isSome then s.completeStop awaiter (.error EBUSY)
  else if s.ctl.submitted = false ∧ s.ctl.cancelSubmitted = false then
    let s := deliverNextIfReady (s.setMachine s.machine.requestStop)
    s.releaseListenerReservation.completeStop awaiter (.ok ())
  else
    match { s with pendingStop := some awaiter }.beginStop with
    | (.error e, s) => { s with pendingStop := none }.completeStop awaiter (.error e)
    | (.ok false, s) => { s with pendingStop := none }.completeStop awaiter (.ok ())
    | (.ok true, s) => s

def commitClose : AcceptSource :=
  let s := { s with listener := { s.listener with closed := true } }
  if s.listener.acceptSource = some .this then s.onListenerClosed else s

/-- `Listener::Close()`: `await_suspend` of a new close awaiter. -/
def closeListener : AcceptSource :=
  let awaiter := s.listener.closeCalls
  let s := { s with listener := { s.listener with closeCalls := awaiter + 1 } }
  if s.listener.pendingClose.isSome then
    { s with listener := s.listener.completeClose awaiter (.error EBUSY) }
  else if s.listenerClosed then
    { s with listener := s.listener.completeClose awaiter (.ok ()) }
  else if s.listener.pendingAccepts = 0 then
    let s := s.commitClose
    let (r, listener) := s.listener.closeFd
    { s with listener := listener.completeClose awaiter r }
  else
    match s.ctl.submitOp with
    | (some e, ctl) => { s with ctl, listener := s.listener.completeClose awaiter (.error e) }
    | (none, ctl) =>
      -- closed only now: a failed preparation leaves an active source unchanged
      commitClose { s with
        ctl
        listener := { s.listener with pendingClose := some (awaiter, {}) } }

/-! ## The system -/

/-- The entries into a source and its listener, each with the answers of the `SubmitOp` calls it
makes. -/
inductive Action where
  | acceptCqe (event : CompletionEvent) (wrapped : Wrapped) (answers : List (Option Error))
  | cancelCqe (result : ℤ) (answers : List (Option Error))
  | next (answers : List (Option Error))
  | stop (answers : List (Option Error))
  | closeListener (answers : List (Option Error))
  /-- The completion of the cancel request of a listener close. -/
  | closeCqe
  | stopLoop
  /-- Another accept on the listener begins or ends. -/
  | reserve
  | release
  /-- Another source takes or gives up the listener. -/
  | otherStart
  | otherEnd
  deriving DecidableEq, Repr

/-- An entry into the source itself, by the program or by its own completions. -/
def Action.ofSource : Action → Bool
  | .acceptCqe .. | .cancelCqe .. | .next _ | .stop _ => true
  | _ => false

/-- What the kernel has done by the time it posts an accept completion. -/
def kernelAccept (event : CompletionEvent) (wrapped : Wrapped) : AcceptSource :=
  { s with
    ctl := { s.ctl with inFlight := event.more }
    accepted := if 0 ≤ event.result ∧ wrapped ≠ .failed then s.accepted ++ [event.result.toNat]
      else s.accepted }

def withAnswers (answers : List (Option Error)) : AcceptSource :=
  { s with ctl := { s.ctl with answers } }

def closeInFlight : Bool :=
  match s.listener.pendingClose with
  | some (_, convergence) => !convergence.cancelRequestTerminal
  | none => false

/-- One entry. The kernel completes only what is in flight. -/
def step (a : Action) (s : AcceptSource) : Option AcceptSource :=
  if s.ctl.aborted then none
  else
    match a with
    | .acceptCqe event wrapped answers =>
      if s.ctl.inFlight then
        some (((s.kernelAccept event wrapped).withAnswers answers).onCompletion event wrapped)
      else none
    | .cancelCqe result answers =>
      if s.ctl.cancelInFlight then
        some (({ s with ctl := { s.ctl with cancelInFlight := false } }.withAnswers
          answers).onCancelComplete result)
      else none
    | .next answers => some (s.withAnswers answers).next
    | .stop answers => some (s.withAnswers answers).stop
    | .closeListener answers => some (s.withAnswers answers).closeListener
    | .closeCqe =>
      if s.closeInFlight then some { s with listener := s.listener.onCloseCancelComplete }
      else none
    | .stopLoop => some { s with loopStopping := true }
    | .reserve =>
      if s.listenerClosed = true ∨ s.listener.acceptSource = some .this then none
      else some { s with
        listener := { s.listener with pendingAccepts := s.listener.pendingAccepts + 1 } }
    | .release =>
      if s.ctl.submitted.toNat < s.listener.pendingAccepts then
        some { s with listener := s.listener.releaseAccept }
      else none
    | .otherStart =>
      if s.listenerClosed = true ∨ s.listener.pendingAccepts ≠ 0 ∨
        s.listener.acceptSource.isSome then none
      else some { s with listener := { s.listener with acceptSource := some .other } }
    | .otherEnd =>
      if s.listener.acceptSource = some .other then
        some { s with listener := { s.listener with acceptSource := none } }
      else none

/-- An accept source with valid options on any listener that lets one be created. -/
def system : System AcceptSource Action where
  init s := ∃ listener loopStopping options, create listener loopStopping options = .ok s
  step := step

end AcceptSource

end Alyrn.Uring
