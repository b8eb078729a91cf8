import Mathlib.Logic.Function.Basic
import Alyrn.Backend.LoopState
import Alyrn.Detail.OperationLifecycle
import Alyrn.Lib.Transition
import Alyrn.Net.StreamLifecycle

/-!
# Stream of the epoll backend

An operation tries the socket first. If it would block, the operation takes the slot of its
direction, has the channel watch it, and arms the deadline; from then on readiness, a hang-up, an
error, the deadline and a close compete for it.

The kernel's part of a direction is `ready` (the socket has become ready since it last would have
blocked), `reported` (an edge that epoll has yet to deliver) and `polled` (an event that the loop
has taken from epoll and has yet to dispatch). `EPOLL_CTL_ADD` and `EPOLL_CTL_MOD` report the
readiness there is.

A call comes with the answers of the socket calls it makes; when they are used up the socket would
block. An interrupted call is repeated at once and leaves no trace. Awaiters are numbered in the
order of the calls of their direction. A failed check is `none`.
-/

namespace Alyrn.Epoll

open Net Transition

/-- The two directions of a stream. -/
inductive Side where
  | read
  | write
  deriving DecidableEq, Repr

/-- The awaiters of `Read`, `Recv(buffer)`, `Recv()` and `Write`. -/
inductive OperationKind where
  | read
  | recv
  | recvCopy
  | write
  deriving DecidableEq, Repr

def OperationKind.side : OperationKind → Side
  | .write => .write
  | .read | .recv | .recvCopy => .read

/-- A `Recv` reserves room in a buffer. -/
def OperationKind.reserves : OperationKind → Bool
  | .recv | .recvCopy => true
  | .read | .write => false

/-! ## Awaiters -/

/-- An awaiter, with the results it was given. -/
structure Awaiter where
  kind : OperationKind
  /-- The bytes that a `Write` has left to send. -/
  left : ℕ := 0
  lifecycle : SingleResultLifecycle := .pending
  result : Option (Except Error ℕ) := none
  reservationActive : Bool := false
  /-- `await_suspend` returned `true`. -/
  suspended : Bool := false
  /-- The results given, and whether a continuation was scheduled for them. -/
  results : List (Except Error ℕ × Bool) := []
  /-- It was destroyed while it waited. -/
  dropped : Bool := false

/-- The loop over `TryWrite`. -/
def tryWrite : ℕ → List (Except Error ℕ) → ℕ × Option (Except Error ℕ)
  | 0, _ => (0, some (.ok 0))
  | left, [] => (left, none)
  | left, .error e :: _ => (left, some (.error e))
  | left, .ok 0 :: _ => (left, some (.error EPIPE))
  | left, .ok n :: answers => tryWrite (left - n) answers

namespace Awaiter

variable (a : Awaiter)

/-- `IoResultState::SetResult`. -/
def setResult (r : Except Error ℕ) : Option Awaiter :=
  if a.result.isSome ∨ r = .error 0 then none else some { a with result := some r }

/-- `FinishAttempt` of a `Recv`; the others only keep the result. -/
def finishAttempt (r : Except Error ℕ) : Option Awaiter :=
  if a.kind.reserves then
    if a.reservationActive then { a with reservationActive := false }.setResult r else none
  else a.setResult r

/-- `CompleteResultImpl`. -/
def completeResult (r : Except Error ℕ) : Option Awaiter := do
  let lifecycle ← a.lifecycle.tryAuthorizeResult
  { a with lifecycle }.finishAttempt r

def completeStoredInline : Option Awaiter := do
  let lifecycle ← a.lifecycle.tryAuthorizeResult
  let lifecycle ← lifecycle.tryAuthorizeRelease
  some { a with lifecycle }

/-- What the socket calls come to: the bytes left, and the result unless the socket would block. -/
def tryIo (answers : List (Except Error ℕ)) : ℕ × Option (Except Error ℕ) :=
  if a.kind = .write then tryWrite a.left answers else (a.left, answers.head?)

end Awaiter

/-! ## One direction -/

/-- A timer that the loop holds for the stream. -/
structure Timer where
  expiration : ℕ
  generation : ℕ
  deriving DecidableEq, Repr

/-- One direction: its awaiter, its deadline and its readiness. -/
structure Lane where
  pending : Option ℕ := none
  deadline : Option ℕ := none
  timer : Option Timer := none
  timerGeneration : ℕ := 0
  /-- `channel_.IsReading()`, `channel_.IsWriting()`. -/
  interest : Bool := false
  ready : Bool := false
  reported : Bool := false
  polled : Bool := false
  timers : List Timer := []
  awaiters : ℕ → Awaiter := fun _ => { kind := .read }
  started : ℕ := 0

namespace Lane

variable (x : Lane)

def setAwaiter (n : ℕ) (a : Awaiter) : Lane := { x with awaiters := Function.update x.awaiters n a }

/-- `EPOLL_CTL_ADD` or `EPOLL_CTL_MOD`. -/
def rechecked : Lane := { x with reported := x.interest && (x.reported || x.ready) }

/-- `EnableReading` and `DisableReading`, `EnableWriting` and `DisableWriting`, where needed. -/
def setInterest (b : Bool) : Lane :=
  if x.interest = b then x else { x with interest := b }.rechecked

/-- Epoll has an event for the loop. -/
def hasEvent (edge : Bool) : Bool := if edge then x.reported else x.interest && x.ready

/-- `CancelReadDeadline`, `CancelWriteDeadline`. -/
def cancelDeadline : Lane :=
  { x with
    timerGeneration := x.timerGeneration + 1
    timer := none
    timers := x.timers.filter fun t => x.timer ≠ some t }

/-- `CompleteRead`, `CompleteWrite`. A read keeps its interest unless the result is terminal. -/
def complete (d : Side) (r : Except Error ℕ) : Option Lane :=
  match x.pending with
  | none => some x
  | some n => do
    let x := x.cancelDeadline
    let a ← (x.awaiters n).completeResult r
    let lifecycle ← a.lifecycle.tryAuthorizeRelease
    let x := { x with pending := none }
    let x := if d = .write ∨ r.toOption.getD 0 = 0 then x.setInterest false else x
    let lifecycle ← lifecycle.tryAuthorizeContinuation
    some (x.setAwaiter n { a with lifecycle, results := a.results ++ [(r, true)] })

/-- `ArmReadDeadline`, `ArmWriteDeadline`; `ok` tells whether the loop registers the timer. -/
def armDeadline (d : Side) (now : ℕ) (ok : Bool) : Option (Bool × Lane) :=
  match x.pending, x.deadline with
  | some _, some deadline =>
    if deadline ≤ now then (x.complete d (.error ETIMEDOUT)).map (true, ·)
    else
      let x := { x with timerGeneration := x.timerGeneration + 1 }
      let t : Timer := ⟨deadline, x.timerGeneration⟩
      if ok then some (true, { x with timer := some t, timers := x.timers ++ [t] })
      else some (false, x)
  | _, _ => some (true, x)

/-- An operation whose deadline cannot be armed fails. -/
def armOrFail (d : Side) (now : ℕ) (ok : Bool) : Option Lane := do
  let (armed, x) ← x.armDeadline d now ok
  if armed then some x else x.complete d (.error ENOMEM)

/-- `SuspendForRead`, and the like in `WriteAwaiter::await_suspend`. -/
def suspend (d : Side) (n now : ℕ) (ok : Bool) : Option Lane :=
  let x := x.setAwaiter n { x.awaiters n with suspended := true }
  ({ x with pending := some n }.setInterest true).armOrFail d now ok

/-- The call has its result and is not suspended. -/
def returnInline (n : ℕ) (r : Except Error ℕ) (a : Option Awaiter) : Option Lane := do
  let a ← a
  let a ← a.completeStoredInline
  some (x.setAwaiter n { a with results := a.results ++ [(r, false)] })

def completeInline (n : ℕ) (r : Except Error ℕ) : Option Lane :=
  x.returnInline n r ((x.awaiters n).setResult r)

/-- `await_suspend` after its checks; `reserved` is the answer of `PrepareReservation`. -/
def launch (d : Side) (n now : ℕ) (reserved : Bool) (answers : List (Except Error ℕ)) (ok : Bool) :
    Option Lane :=
  let a := x.awaiters n
  if a.kind.reserves ∧ reserved = false then x.completeInline n (.error ENOMEM)
  else
    let a := { a with reservationActive := a.kind.reserves }
    let (left, r) := a.tryIo answers
    let x := x.setAwaiter n { a with left }
    match r with
    | some r => x.returnInline n r ((x.awaiters n).finishAttempt r)
    | none => { x with ready := false }.suspend d n now ok

/-- `OnReady` of the awaiter that waits. -/
def onReady (d : Side) (n : ℕ) (answers : List (Except Error ℕ)) : Option Lane :=
  let a := x.awaiters n
  let (left, r) := a.tryIo answers
  let x := x.setAwaiter n { a with left }
  match r with
  | some r => x.complete d r
  | none => some { x with ready := false }

/-- `HandleRead`, `HandleWrite`. A level-triggered channel stops reading for nobody. -/
def handleReady (d : Side) (edge : Bool) (answers : List (Except Error ℕ)) : Option Lane :=
  match x.pending with
  | none => some (if d = .read ∧ edge = false then x.setInterest false else x)
  | some n => x.onReady d n answers

/-- The loop has dispatched the event. -/
def dispatchReady (d : Side) (edge : Bool) (answers : List (Except Error ℕ)) : Option Lane :=
  (x.handleReady d edge answers).map fun x => { x with polled := false }

/-- `HandleReadDeadline`, `HandleWriteDeadline`. -/
def handleDeadline (d : Side) (generation : ℕ) : Option Lane :=
  if generation ≠ x.timerGeneration then some x
  else { x with timer := none }.complete d (.error ETIMEDOUT)

/-- `SetReadDeadline`, `SetWriteDeadline`. -/
def setDeadline (d : Side) (deadline : Option ℕ) (now : ℕ) (ok : Bool) : Option Lane :=
  { x.cancelDeadline with deadline }.armOrFail d now ok

/-- The destructors of the awaiters. -/
def drop (n : ℕ) : Lane :=
  if x.pending = some n then
    let x := x.cancelDeadline.setAwaiter n { x.awaiters n with dropped := true }
    { x with pending := none }.setInterest false
  else x

end Lane

/-! ## The stream -/

/-- Both lanes and what they share. -/
structure Stream where
  lanes : Side → Lane := fun _ => {}
  lifecycle : StreamLifecycle := {}
  /-- `socket_.fd()` is a descriptor. -/
  fdOpen : Bool := true
  /-- `channel_.IsEdgeTriggered()`. -/
  edge : Bool
  loopState : LoopState := .running
  now : ℕ := 0
  destroyed : Bool := false
  aborted : Bool := false

namespace Stream

variable (s : Stream)

/-- A change of one direction. If it changes the interest, epoll looks at both. -/
def onLane (d : Side) (f : Lane → Option Lane) : Option Stream := do
  let x ← f (s.lanes d)
  let other (y : Lane) := if x.interest = (s.lanes d).interest then y else y.rechecked
  some { s with lanes := fun d' => if d' = d then x else other (s.lanes d') }

def validate : Side → Except Error Unit
  | .read => s.lifecycle.validateRead
  | .write => s.lifecycle.validateWrite

/-- `BeginRead`, and the checks of `WriteAwaiter::await_suspend`: the result of a call that ends
there. -/
def refusal (d : Side) : Option (Except Error ℕ) :=
  if s.loopState.isStopping then some (.error ECANCELED)
  else
    match s.validate d with
    | .error e => some (.error e)
    | .ok _ =>
      if !s.fdOpen then some (.error EBADF)
      else if d = .read ∧ s.lifecycle.isReadShutdown then some (.ok 0)
      else if (s.lanes d).pending.isSome then some (.error EBUSY)
      else none

/-- `await_suspend` of a new awaiter. -/
def start (kind : OperationKind) (left : ℕ) (reserved : Bool) (answers : List (Except Error ℕ))
    (ok : Bool) : Option Stream :=
  s.onLane kind.side fun x =>
    let n := x.started
    let x := { x.setAwaiter n { kind, left } with started := n + 1 }
    match s.refusal kind.side with
    | some r => x.completeInline n r
    | none => x.launch kind.side n s.now reserved answers ok

def completeBoth (read write : Except Error ℕ) : Option Stream := do
  let s ← s.onLane .read (·.complete .read read)
  s.onLane .write (·.complete .write write)

/-- `CloseNow`: of `Close`, of the destructor and of a loop that stops. -/
def closeNow : Option Stream :=
  match s.lifecycle.prepareClose with
  | .error _ | .ok (false, _) => some s
  | .ok (true, lifecycle) => do
    let s ← { s with lifecycle }.completeBoth (.error ECANCELED) (.error ECANCELED)
    some { s with
      lanes := fun d => (s.lanes d).setInterest false
      fdOpen := false, lifecycle := s.lifecycle.markClosed }

/-- `shutdown` is the error of the system call, `done` what follows its success. -/
def halfClose (prepare : Except Error (Bool × StreamLifecycle))
    (abort commit : StreamLifecycle → Option StreamLifecycle) (shutdown : Option Error)
    (done : Stream → Option Stream) : Option Stream :=
  if !s.fdOpen then some s
  else
    match prepare with
    | .error _ | .ok (false, _) => some s
    | .ok (true, l) =>
      match shutdown with
      | some _ => (abort l).map fun lifecycle => { s with lifecycle }
      | none => (commit l).bind fun lifecycle => done { s with lifecycle }

def closeRead (shutdown : Option Error) : Option Stream :=
  s.halfClose (s.lifecycle.prepareCloseRead (s.lanes .read).pending.isSome)
    (·.abortCloseReadPreparation) (·.commitCloseRead) shutdown
    (·.onLane .read fun x => some (x.setInterest false))

def closeWrite (shutdown : Option Error) : Option Stream :=
  s.halfClose (s.lifecycle.prepareShutdown (s.lanes .write).pending.isSome)
    (·.abortShutdownPreparation) (·.commitShutdown) shutdown some

/-- `ErrorFromSocketErrorEvent`, with the error that the socket holds. -/
def errorFromSocketErrorEvent (error : Error) : Error := if error = 0 then EIO else error

/-- `Channel::HandleEventUnchecked` with the callbacks of the stream. -/
def handleEvent (hup : Bool) (error : Option Error) (reads writes : List (Except Error ℕ)) :
    Option Stream := do
  let readable := (s.lanes .read).polled
  let writable := (s.lanes .write).polled
  let s ← (if hup && !readable then s.completeBoth (.ok 0) (.error EPIPE) else some s)
  let e := .error (errorFromSocketErrorEvent (error.getD 0))
  let s ← (if error.isSome then s.completeBoth e e else some s)
  let s ← (if readable then s.onLane .read (·.dispatchReady .read s.edge reads) else some s)
  if writable then s.onLane .write (·.dispatchReady .write s.edge writes) else some s

/-! ## The system -/

/-- The calls, the clock, the kernel and the loop. -/
inductive Action where
  | start (kind : OperationKind) (left : ℕ) (reserved : Bool) (answers : List (Except Error ℕ))
      (ok : Bool)
  | setDeadline (d : Side) (deadline : Option ℕ) (ok : Bool)
  | closeRead (shutdown : Option Error)
  | closeWrite (shutdown : Option Error)
  /-- `Close`, or the loop stops. -/
  | close
  | destroyAwaiter (d : Side) (n : ℕ)
  | destroy
  | requestStop
  | advanceClock (elapsed : ℕ)
  /-- The loop runs the callback of a timer. -/
  | fire (d : Side) (t : Timer)
  /-- The socket becomes ready. -/
  | becomeReady (d : Side)
  /-- `epoll_wait` reports what there is, and perhaps more. -/
  | poll (more : Side → Bool)
  | dispatch (hup : Bool) (error : Option Error) (reads writes : List (Except Error ℕ))

/-- A system call does not fail with errno 0. -/
def proper (answers : List (Except Error ℕ)) : Bool := answers.all (· ≠ .error 0)

/-- A step; a failed check ends the process. -/
def perform : Action → Option Stream
  | .start kind left reserved answers ok => s.start kind left reserved answers ok
  | .setDeadline d deadline ok => s.onLane d (·.setDeadline d deadline s.now ok)
  | .closeRead shutdown => s.closeRead shutdown
  | .closeWrite shutdown => s.closeWrite shutdown
  | .close => s.closeNow
  | .destroyAwaiter d n => s.onLane d fun x => some (x.drop n)
  | .destroy => s.closeNow.map fun s => { s with destroyed := true }
  | .requestStop => some { s with loopState := s.loopState.requestStop }
  | .advanceClock elapsed => some { s with now := s.now + elapsed }
  | .fire d t =>
    s.onLane d fun x => { x with timers := x.timers.erase t }.handleDeadline d t.generation
  | .becomeReady d =>
    s.onLane d fun x => some { x with ready := true, reported := x.reported || x.interest }
  | .poll more =>
    some { s with lanes := fun d =>
      { s.lanes d with
        polled := (s.lanes d).polled || (s.lanes d).hasEvent s.edge || more d
        reported := false } }
  | .dispatch hup error reads writes => s.handleEvent hup error reads writes

def enabled : Action → Bool
  | .start _ _ _ answers _ => proper answers
  | .fire d t => t ∈ (s.lanes d).timers ∧ t.expiration ≤ s.now
  | .dispatch _ _ reads writes => proper reads && proper writes
  | _ => true

def step (a : Action) (s : Stream) : Option Stream :=
  if s.aborted = false ∧ s.destroyed = false ∧ s.enabled a = true then
    some ((s.perform a).getD { s with aborted := true })
  else none

def system : System Stream Action where
  init s := ∃ edge, s = { edge }
  step := step

end Stream

end Alyrn.Epoll
