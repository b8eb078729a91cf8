import Alyrn.Uring.AcceptSource
import Alyrn.Uring.Op

/-!
# A listener on its loop

The uring listener with everything that uses its descriptor: the calls of `Accept()`, the accept
source created on it, and the calls of `Close()`. The kernel holds their requests; the loop resumes
a coroutine through the `resume_work` of its operation.

One step of the system is one entry of the loop or of the program: a call, a completion, the
resumption of a work. What the loop and the kernel answer is part of the action, and works are
resumed in any order. One accept source exists at a time.

A failed check ends the process: the state is aborted, and has no further step. So does an entry
into a source whose listener has been destroyed.
-/

namespace Alyrn.Uring

open Net Transition

/-- A work of the loop: the `resume_work` of an accept or of a close. -/
inductive ListenerWork where
  | accept (n : ℕ)
  | close (k : ℕ)
  deriving DecidableEq, Repr

/-- An `AcceptAwaiter`; a stream is its descriptor. -/
structure Accepter where
  op : Op := { kind := .acceptComplete }
  reservation : Bool := false
  result : Option (Except Error ℕ) := none

/-- A `CloseAwaiter`, but for what the listener has of it while it waits. -/
structure ListenerCloser where
  op : Op := { kind := .listenerCloseComplete }
  continuation : Option ℕ := none

/-- A listener with its source, its `Accept()` calls and its closes. -/
structure Listening where
  source : AcceptSource
  live : Bool := false
  accepters : ℕ → Accepter := fun _ => {}
  acceptCalls : ℕ := 0
  /-- The accept requests of `Accept()` that the kernel has not answered. -/
  accepts : List ℕ := []
  acceptResults : List (ℕ × Except Error ℕ) := []
  closers : ℕ → ListenerCloser := fun _ => {}
  /-- The cancel requests of closes that the kernel has not answered. -/
  closeRequests : List ℕ := []
  closeResults : List (ℕ × Except Error Unit) := []
  works : List ListenerWork := []
  destroyed : Bool := false

def AcceptSource.vacant (listener : Listener) (loopStopping : Bool) : AcceptSource :=
  .make listener loopStopping
    { options := {}, state := .idle, queuedEvents := 0, armedRequests := 0 }

namespace Listening

def make (closeResult : Except Error Unit) (loopStopping : Bool) : Listening where
  source := .vacant (.make closeResult) loopStopping

variable (s : Listening)

abbrev listener : Listener := s.source.listener

def abort : Listening := { s with source := s.source.abort }

def setListener (l : Listener) : Listening := { s with source := { s.source with listener := l } }

def setAccepter (n : ℕ) (a : Accepter) : Listening :=
  { s with accepters := Function.update s.accepters n a }

def setCloser (k : ℕ) (c : ListenerCloser) : Listening :=
  { s with closers := Function.update s.closers k c }

/-- `ScheduleCompletion`: a work that is queued is not queued again. -/
def scheduleCompletion (w : ListenerWork) : Listening :=
  if w ∈ s.works then s else { s with works := s.works ++ [w] }

/-- The state after an entry into the source or the listener. A close that has gone on in it, in
`CloseAwaiter::TryComplete`, has its continuation in its work, which is scheduled unless the
close's own completion is being handled. -/
def entered (own : Bool) (source : AcceptSource) : Listening :=
  match s.listener.pendingClose, source.listener.pendingClose with
  | some (k, _), none =>
    let c := s.closers k
    let s := { s with source }.setCloser k { c with op := { c.op with handle := c.continuation } }
    if own then s else s.scheduleCompletion (.close k)
  | _, _ => { s with source }

/-! ## Accept -/

def releaseListenerReservation (n : ℕ) : Option Listening :=
  let a := s.accepters n
  if !a.reservation then some s
  else if s.listener.pendingAccepts = 0 then none
  else some ((s.setAccepter n { a with reservation := false }).entered false
    { s.source with listener := s.listener.releaseAccept })

/-- The result of an accept is there, and its reservation is released. -/
def publishAccept (n : ℕ) (op : Op) (r : Except Error ℕ) : Option Listening := do
  let op ← op.tryAuthorizeCoupledResult
  let op ← op.tryAuthorizeCoupledRelease
  (s.setAccepter n { s.accepters n with op, result := some r }).releaseListenerReservation n

def completeInline (n : ℕ) (r : Except Error ℕ) : Option Listening := do
  let s ← s.publishAccept n (s.accepters n).op r
  some { s with acceptResults := s.acceptResults ++ [(n, r)] }

def accept (submit : Option Error) : Option Listening :=
  let n := s.acceptCalls
  let s := { s with acceptCalls := n + 1 }.setAccepter n {}
  if s.source.listenerClosed then s.completeInline n (.error EBADF)
  else if s.listener.acceptSource.isSome then s.completeInline n (.error EBUSY)
  else
    let s := s.setListener { s.listener with pendingAccepts := s.listener.pendingAccepts + 1 }
    match submit with
    | none => some ({ s with accepts := s.accepts ++ [n] }.setAccepter n
        { op := { kind := .acceptComplete, handle := some n }, reservation := true })
    -- the handle is cleared again
    | some e => (s.setAccepter n { reservation := true }).completeInline n (.error e)

/-- `AcceptAwaiter::OnComplete`; `configured` is the error of `MakeStream`, if any. -/
def onAcceptComplete (n : ℕ) (result : ℤ) (configured : Option Error) : Option Listening := do
  let a := s.accepters n
  let op ← a.op.recordCqe result
  if !a.reservation then none
  else s.publishAccept n op <|
    if result < 0 then .error (negErrno result)
    else
      match configured with
      | some e => .error e
      | none => .ok result.toNat

def handleAcceptCqe (n : ℕ) (result : ℤ) (configured : Option Error) : Option Listening :=
  if (s.accepters n).op.completed then some s
  else do
    let s ← s.onAcceptComplete n result configured
    let a := s.accepters n
    if a.op.handle.isNone then some s
    else
      let op ← a.op.authorizeResume
      some ((s.setAccepter n { a with op }).scheduleCompletion (.accept n))

/-! ## Close -/

def returnClose (k : ℕ) : Option Listening := do
  let r ← (s.listener.closes.find? (·.1 = k)).map Prod.snd
  some { s with closeResults := s.closeResults ++ [(k, r)] }

def close (submit : Option Error) : Option Listening :=
  let k := s.listener.closeCalls
  let s := { s with source := (s.source.withAnswers [submit]).closeListener }.setCloser k {}
  if s.listener.pendingClose.map Prod.fst = some k then
    some ({ s with closeRequests := s.closeRequests ++ [k] }.setCloser k { continuation := some k })
  else s.returnClose k

/-- `HandleCqe` for the cancel request of a close: `CloseAwaiter::OnCancelComplete`. -/
def handleCloseCqe (k : ℕ) (result : ℤ) : Option Listening :=
  let c := s.closers k
  if c.op.completed then some s
  else do
    let op ← c.op.recordCqe result
    let s := s.setCloser k { c with op }
    -- a close that has gone on has left the listener
    let s := if s.listener.pendingClose.map Prod.fst = some k then
      s.entered true { s.source with listener := s.listener.onCloseCancelComplete } else s
    if (s.closers k).op.handle.isSome then some (s.scheduleCompletion (.close k)) else some s

/-! ## The source, and the end -/

def createSource (options : AcceptSourceOptions) : Listening :=
  match AcceptSource.create s.listener s.source.loopStopping options with
  | .error _ => s
  | .ok source => { s with source, live := true }

def destroySource : Option Listening :=
  let state := s.source.machine.state
  if s.source.pendingNext.isSome = true ∨ s.source.pendingStop.isSome = true ∨
    s.source.ctl.submitted = true ∨ s.source.ctl.cancelSubmitted = true ∨
    (state ≠ .idle ∧ state ≠ .draining ∧ state ≠ .terminal) then none
  else
    let l := if s.listener.acceptSource = some .this then { s.listener with acceptSource := none }
      else s.listener
    some { s with source := .vacant l s.source.loopStopping, live := false }

def destructible : Bool :=
  s.listener.pendingAccepts = 0 ∧ s.listener.pendingClose = none ∧ s.listener.acceptSource = none

/-- `Work::Run`: the coroutine in the work is resumed; a work without one fails its check. -/
def runWork : ListenerWork → Option Listening
  | .accept n => do
    let m ← (s.accepters n).op.handle
    let r ← (s.accepters m).result
    some { s with acceptResults := s.acceptResults ++ [(m, r)] }
  | .close k => do
    let m ← (s.closers k).op.handle
    s.returnClose m

/-! ## The system -/

/-- The calls, the completions and the loop. -/
inductive Action where
  | accept (submit : Option Error)
  | acceptCqe (n : ℕ) (result : ℤ) (configured : Option Error)
  | close (submit : Option Error)
  | closeCqe (k : ℕ) (result : ℤ)
  | createSource (options : AcceptSourceOptions)
  | source (a : AcceptSource.Action)
  | destroySource
  | resume (w : ListenerWork)
  | stopLoop
  | destroy
  deriving DecidableEq, Repr

/-- One entry. The kernel completes only what is in flight. -/
def step (a : Action) (s : Listening) : Option Listening :=
  if s.source.ctl.aborted then none
  else
    match a with
    | .accept submit => if s.destroyed then none else some ((s.accept submit).getD s.abort)
    | .acceptCqe n result configured =>
      if n ∈ s.accepts then
        some (({ s with accepts := s.accepts.erase n }.handleAcceptCqe n result configured).getD
          s.abort)
      else none
    | .close submit => if s.destroyed then none else some ((s.close submit).getD s.abort)
    | .closeCqe k result =>
      if k ∈ s.closeRequests then
        some (({ s with closeRequests := s.closeRequests.erase k }.handleCloseCqe k result).getD
          s.abort)
      else none
    | .createSource options =>
      if s.destroyed = true ∨ s.live = true then none else some (s.createSource options)
    | .source a =>
      if s.live = true ∧ a.ofSource = true then
        if s.destroyed then some s.abort
        else (AcceptSource.step a s.source).map (s.entered false)
      else none
    | .destroySource =>
      if s.destroyed = true ∨ s.live = false then none else some (s.destroySource.getD s.abort)
    | .resume w =>
      if w ∈ s.works then some (({ s with works := s.works.erase w }.runWork w).getD s.abort)
      else none
    | .stopLoop => some { s with source := { s.source with loopStopping := true } }
    | .destroy =>
      if s.destroyed then none
      else some (if s.destructible then { s with destroyed := true } else s.abort)

/-- A new listener on a running or a stopping loop. -/
def system : System Listening Action where
  init s := ∃ closeResult loopStopping, s = make closeResult loopStopping
  step := step

end Listening

end Alyrn.Uring
