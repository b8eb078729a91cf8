import Alyrn.Backend.LoopState
import Alyrn.Lib.Transition
import Alyrn.Net.StreamLifecycle
import Alyrn.Uring.Listener
import Alyrn.Uring.Stream.Lane
import Alyrn.Uring.WorkQueues

/-!
# Stream

The uring stream on its owner loop: two lanes, the close that waits for both, and the loop's work
queues, through which every continuation is resumed.

One step of the system is one entry of the loop or of the program into the stream: a call, a
completion, a timer callback, or the resumption of the next work. The program calls while the loop
runs its code (`WorkQueues.inUserCode`). What the loop, the kernel and the allocator answer is part
of the action. Works that have nothing to do with the stream are `other` works.

A failed check ends the process: the state is `aborted`, and has no further step. So does the use of
a work that stands in a destroyed stream.
-/

namespace Alyrn.Uring

open Net Transition Function

/-- A work of the loop: the `resume_work` of an operation of a lane, of a lane's cancel operation or
of a close, or another work. -/
inductive Work where
  | op (d : Dir) (n : ℕ)
  | cancel (d : Dir)
  | close (k : ℕ)
  | other (i : ℕ)
  deriving DecidableEq, Repr

/-- An awaiter of `Close()`. -/
structure Closer where
  op : Op := { kind := .streamCloseComplete }
  convergence : FdCloseConvergence := {}
  continuation : Option ℕ := none
  attached : Bool := true
  result : Option (Except Error Unit) := none

/-- The part of a stream that its lanes share, with its loop. -/
structure Shared where
  fdOpen : Bool := true
  lifecycle : StreamLifecycle := {}
  pendingClose : Option ℕ := none
  zeroCopyWritesEnabled : Bool := false
  closers : ℕ → Closer := fun _ => {}
  closeCalls : ℕ := 0
  /-- The cancel requests of closes that the kernel has not answered. -/
  closeRequests : List ℕ := []
  closeResults : List (ℕ × Except Error Unit) := []
  closeResult : Except Error Unit
  queues : WorkQueues Work := .init
  loopState : LoopState := .running
  now : ℕ

/-- Both lanes and what they share. -/
structure Stream where
  lanes : Dir → Lane
  shared : Shared
  destroyed : Bool := false
  aborted : Bool := false

namespace Shared

variable (h : Shared)

def scheduleCompletion (w : Work) : Shared := { h with queues := h.queues.scheduleCompletion w }

def requestStop : Shared := { h with loopState := h.loopState.requestStop }

def closeFd : Except Error Unit × Shared :=
  (if h.fdOpen then h.closeResult else .ok (),
    { h with fdOpen := false, lifecycle := h.lifecycle.markClosed })

/-- `CloseAwaiter::TryComplete`; `own` tells that the close's own completion is being handled,
after which the loop schedules its work. -/
def tryComplete (k : ℕ) (own operationsPending : Bool) : Shared :=
  let c := h.closers k
  if !c.attached then h
  else
    match c.convergence.tryAuthorizeClose operationsPending with
    | none => h
    | some convergence =>
      let (r, h) := { h with pendingClose := none }.closeFd
      let c := { c with
        convergence, result := some r, attached := false
        op := { c.op with handle := c.continuation } }
      let h := { h with closers := update h.closers k c }
      if own then h else h.scheduleCompletion (.close k)

def notifyCloseProgress (operationsPending : Bool) : Shared :=
  match h.pendingClose with
  | none => h
  | some k => h.tryComplete k false operationsPending

/-- `SubmitOp`: a stopping loop takes no new requests, deadline cancels excepted. -/
def submitAnswer (answer : Option Error) : Option Error :=
  if h.loopState.isStopping then some ECANCELED else answer

end Shared

namespace Stream

variable (s : Stream)

def setLane (d : Dir) (x : Lane) : Stream := { s with lanes := update s.lanes d x }

def updateLane (d : Dir) (f : Lane → Lane) : Stream := s.setLane d (f (s.lanes d))

def operationsPending : Bool := (s.lanes .read).pending.isSome || (s.lanes .write).pending.isSome

def notifyCloseProgress : Stream :=
  { s with shared := s.shared.notifyCloseProgress s.operationsPending }

/-! ## The operation slots -/

def validate (d : Dir) : Except Error Unit := do
  if s.shared.loopState.isStopping then .error ECANCELED
  match d with
  | .read => s.shared.lifecycle.validateRead
  | .write => s.shared.lifecycle.validateWrite
  if s.shared.fdOpen then .ok () else .error EBADF

def validateAvailable (d : Dir) : Except Error Unit := do
  s.validate d
  if (s.lanes d).pending.isSome then .error EBUSY else .ok ()

def reserve (d : Dir) (n : ℕ) : Except Error Stream := do
  s.validateAvailable d
  .ok (s.updateLane d fun x => { x with pending := some n })

def release (d : Dir) (n : ℕ) : Stream :=
  if (s.lanes d).pending = some n then
    (s.updateLane d fun x => { x with pending := none }).notifyCloseProgress
  else s

/-! ## The end of an operation -/

def finalizer (d : Dir) (n : ℕ) : Option Stream := do
  let a ← ((s.lanes d).awaiters n).authorizeRelease
  let s := (s.updateLane d (·.setAwaiter n a)).release d n
  let a ← ((s.lanes d).awaiters n).authorizeContinuation
  some (s.updateLane d (·.setAwaiter n a))

def finalizeOperation (d : Dir) : Option Stream := do
  let x := s.lanes d
  let n ← x.target
  if !x.primaryTerminal || (x.cancelSubmitted && !x.cancelTerminal) then none
  else
    let s ← s.finalizer d n
    some (s.updateLane d fun x => x.cancelDeadlineTimer.reset)

def completeOperation (d : Dir) (n : ℕ) : Option Stream :=
  if (s.lanes d).target ≠ some n then none
  else
    let s := s.updateLane d fun x => { x with primaryTerminal := true }.cancelDeadlineTimer
    let x := s.lanes d
    if x.cancelSubmitted && !x.cancelTerminal then some (s.updateLane d (·.handOver n))
    else s.finalizeOperation d

/-- `CompleteDeadlineCancel`; the flag is `resume_continuation`. -/
def completeDeadlineCancel (d : Dir) : Option (Bool × Stream) := do
  if !(s.lanes d).cancelSubmitted then none
  else
    let s := s.updateLane d fun x => { x with cancelTerminal := true }
    let x := s.lanes d
    if !x.primaryTerminal then some (false, s)
    else
      let resume := x.cancelOp.handle.isSome
      let s ← s.finalizeOperation d
      some (resume, s)

/-! ## Starting an operation

`await_suspend` of the awaiters. A call that does not suspend goes on at once with
`await_resume`. -/

/-- The loop's answers to a new operation: whether the deadline timer can be registered, and the
error of `SubmitOp`. -/
structure StartAnswers where
  timer : Bool := true
  submit : Option Error := none
  deriving DecidableEq, Repr

def StartAnswers.valid (ans : StartAnswers) : Bool := ans.submit ≠ some 0

def resumeOperation (d : Dir) (n : ℕ) : Option Stream := do
  let r ← ((s.lanes d).awaiters n).awaitResume
  some (s.updateLane d fun x => { x with results := x.results ++ [(n, r)] })

def returnImmediate (d : Dir) (n : ℕ) (result : Except Error ℕ) : Option Stream := do
  let a ← ((s.lanes d).awaiters n).setImmediate result
  (s.updateLane d (·.setAwaiter n a)).resumeOperation d n

/-- The roll-back of a started operation that was not submitted. -/
def rollBack (d : Dir) (n : ℕ) (e : Error) : Option Stream := do
  let x ← (s.lanes d).abortOperation n
  let s := (s.setLane d x).release d n
  let a ← ((s.lanes d).awaiters n).abandon e
  (s.updateLane d (·.setAwaiter n a)).returnImmediate d n (.error e)

/-- From `Begin…Operation` on. A send with zero copy keeps its handle when the submission fails, the
other operations clear it. -/
def launch (d : Dir) (n : ℕ) (ans : StartAnswers) : Option Stream := do
  let (begun, x) ← (s.lanes d).beginOperation n s.shared.now ans.timer
  let s := s.setLane d x
  match begun with
  | .error e => s.rollBack d n e
  | .ok _ =>
    let a := x.awaiters n
    let suspended := s.updateLane d (·.setAwaiter n { a with op := { a.op with handle := some n } })
    match s.shared.submitAnswer ans.submit with
    | none => some (suspended.updateLane d fun x => { x with primaries := x.primaries ++ [n] })
    | some e =>
      if a.op.kind = .sendZeroCopyComplete then suspended.rollBack d n e else s.rollBack d n e

/-- `ReadAwaiter::await_suspend`, for a buffer of `length` bytes. -/
def read (length : ℕ) (ans : StartAnswers) : Option Stream :=
  let n := (s.lanes .read).started
  let s := s.updateLane .read (·.makeAwaiter { op := { kind := .readComplete } })
  match s.validateAvailable .read with
  | .error e => s.returnImmediate .read n (.error e)
  | .ok _ =>
    if s.shared.lifecycle.isReadShutdown then s.returnImmediate .read n (.ok 0)
    else
      match s.reserve .read n with
      | .error e => s.returnImmediate .read n (.error e)
      | .ok s =>
        if length = 0 then (s.release .read n).returnImmediate .read n (.ok 0)
        else s.launch .read n ans

/-- `RecvAwaiter::await_suspend`; `reservation` is what `PrepareReservation` finds. -/
def recv (reservation : ReservationKind) (ans : StartAnswers) : Option Stream :=
  let n := (s.lanes .read).started
  let s := s.updateLane .read (·.makeAwaiter { op := { kind := .recvComplete } })
  match s.validateAvailable .read with
  | .error e => s.returnImmediate .read n (.error e)
  | .ok _ =>
    if s.shared.lifecycle.isReadShutdown then s.returnImmediate .read n (.ok 0)
    else
      match s.reserve .read n with
      | .error e => s.returnImmediate .read n (.error e)
      | .ok s =>
        if reservation = .none then (s.release .read n).returnImmediate .read n (.error ENOMEM)
        else
          (s.updateLane .read fun x => x.setAwaiter n { x.awaiters n with reservation }).launch
            .read n ans

/-- `RecvCopyAwaiter::await_suspend`; `pool` is the error of the shared buffer pool, if any. -/
def recvCopy (pool : Option Error) (ans : StartAnswers) : Option Stream :=
  let n := (s.lanes .read).started
  let s := s.updateLane .read (·.makeAwaiter { op := { kind := .recvCopyComplete } })
  match s.validateAvailable .read with
  | .error e => s.returnImmediate .read n (.error e)
  | .ok _ =>
    if s.shared.lifecycle.isReadShutdown then s.returnImmediate .read n (.ok 0)
    else
      match pool with
      | some e => s.returnImmediate .read n (.error e)
      | none =>
        match s.reserve .read n with
        | .error e => s.returnImmediate .read n (.error e)
        | .ok s => s.launch .read n ans

/-- `SendAwaiter::await_suspend` and `SendZeroCopyAwaiter::await_suspend`. -/
def startSend (kind : OpKind) (buffer : List UInt8) (ans : StartAnswers) : Option Stream :=
  let n := (s.lanes .write).started
  let s := s.updateLane .write (·.makeAwaiter { op := { kind }, buffer })
  if buffer.isEmpty then
    match s.validateAvailable .write with
    | .error e => s.returnImmediate .write n (.error e)
    | .ok _ => s.returnImmediate .write n (.ok 0)
  else
    match s.reserve .write n with
    | .error e => s.returnImmediate .write n (.error e)
    | .ok s => s.launch .write n ans

def send (buffer : List UInt8) (ans : StartAnswers) : Option Stream :=
  s.startSend .writeComplete buffer ans

def sendZeroCopy (buffer : List UInt8) (ans : StartAnswers) : Option Stream :=
  s.startSend .sendZeroCopyComplete buffer ans

/-! ## Completions -/

/-- `apply_disposition` for an operation of a lane: the continuation is authorized and scheduled. -/
def scheduleContinuation (d : Dir) (n : ℕ) : Option Stream := do
  let a := (s.lanes d).awaiters n
  let op ← a.op.authorizeResume
  let s := s.updateLane d (·.setAwaiter n { a with op })
  if op.handle.isSome then some { s with shared := s.shared.scheduleCompletion (.op d n) }
  else some s

/-- A completion of `Read`, `Recv` or `Send`: `HandleCqe` with `OnComplete` of the awaiter. -/
def handleSingleShot (d : Dir) (n : ℕ) (e : CompletionEvent) (p : PoolAnswer) : Option Stream :=
  let a := (s.lanes d).awaiters n
  if a.op.completed then some s
  else do
    let op ← a.op.recordCqe e.result
    let a ← { a with op }.onComplete (s.lanes d).timedOut e p
    let s ← (s.updateLane d (·.setAwaiter n a)).completeOperation d n
    if ((s.lanes d).awaiters n).op.handle.isSome then s.scheduleContinuation d n else some s

/-- A completion of `SendZeroCopy`: `SendZeroCopyAwaiter::OnComplete`. -/
def handleSendZeroCopy (n : ℕ) (e : CompletionEvent) : Option Stream :=
  let a := (s.lanes .write).awaiters n
  if e.notification && a.split.physicalTerminal then some s
  else do
    let a ← a.onSendZeroCopy (s.lanes .write).timedOut e
    let s := s.updateLane .write (·.setAwaiter n a)
    let s ← if a.split.physicalTerminal then s.completeOperation .write n else some s
    if ((s.lanes .write).awaiters n).split.continuationAuthorized then
      s.scheduleContinuation .write n
    else some s

def handleCqe (d : Dir) (n : ℕ) (e : CompletionEvent) (p : PoolAnswer) : Option Stream :=
  if ((s.lanes d).awaiters n).op.kind = .sendZeroCopyComplete then s.handleSendZeroCopy n e
  else s.handleSingleShot d n e p

/-- `HandleCqe` for a cancel operation: `DeadlineCancelOp::OnComplete`. -/
def handleCancelCqe (d : Dir) (result : ℤ) : Option Stream :=
  let op := (s.lanes d).cancelOp
  if op.completed then some s
  else do
    let op ← op.recordCqe result
    let (resume, s) ← (s.updateLane d fun x => { x with cancelOp := op }).completeDeadlineCancel d
    if resume && (s.lanes d).cancelOp.handle.isSome then
      some { s with shared := s.shared.scheduleCompletion (.cancel d) }
    else some s

/-- `HandleCqe` for the cancel request of a close: `CloseAwaiter::OnCancelComplete`. -/
def handleCloseCqe (k : ℕ) (result : ℤ) : Option Stream :=
  let c := s.shared.closers k
  if c.op.completed then some s
  else do
    let op ← c.op.recordCqe result
    let c := { c with op, convergence := { c.convergence with cancelRequestTerminal := true } }
    let h := { s.shared with closers := update s.shared.closers k c }.tryComplete k true
      s.operationsPending
    let h := if (h.closers k).op.handle.isSome then h.scheduleCompletion (.close k) else h
    some { s with shared := h }

/-! ## Close, half-close and the other calls -/

def resumeClose (k : ℕ) : Option Stream := do
  let r ← (s.shared.closers k).result
  some { s with shared := { s.shared with closeResults := s.shared.closeResults ++ [(k, r)] } }

def returnClose (k : ℕ) (r : Except Error Unit) : Option Stream :=
  { s with shared := { s.shared with
      closers := update s.shared.closers k { s.shared.closers k with result := some r } }
    }.resumeClose k

def close (submit : Option Error) : Option Stream :=
  let k := s.shared.closeCalls
  let s := { s with shared := { s.shared with
    closeCalls := k + 1, closers := update s.shared.closers k {} } }
  if s.shared.pendingClose.isSome then s.returnClose k (.error EBUSY)
  else
    match s.shared.lifecycle.prepareClose with
    | .error e => s.returnClose k (.error e)
    | .ok (false, _) => s.returnClose k (.ok ())
    | .ok (true, lifecycle) =>
      let h := { s.shared with lifecycle }
      if !s.operationsPending then
        let (r, h) := h.closeFd
        { s with shared := h }.returnClose k r
      else
        match h.submitAnswer submit with
        | none =>
          some { s with shared := { h with
            pendingClose := some k
            closers := update h.closers k { h.closers k with continuation := some k }
            closeRequests := h.closeRequests ++ [k] } }
        | some e => do
          let lifecycle ← h.lifecycle.abortClosePreparation
          { s with shared := { h with lifecycle } }.returnClose k (.error e)

/-- `CloseRead`; `shutdown` is the error of the system call. -/
def closeRead (shutdown : Option Error) : Option Stream :=
  if !s.shared.fdOpen then some s
  else
    match s.shared.lifecycle.prepareCloseRead (s.lanes .read).pending.isSome with
    | .error _ | .ok (false, _) => some s
    | .ok (true, l) => do
      let lifecycle ← if shutdown.isSome then l.abortCloseReadPreparation else l.commitCloseRead
      some { s with shared := { s.shared with lifecycle } }

def closeWrite (shutdown : Option Error) : Option Stream :=
  if !s.shared.fdOpen then some s
  else
    match s.shared.lifecycle.prepareShutdown (s.lanes .write).pending.isSome with
    | .error _ | .ok (false, _) => some s
    | .ok (true, l) => do
      let lifecycle ← if shutdown.isSome then l.abortShutdownPreparation else l.commitShutdown
      some { s with shared := { s.shared with lifecycle } }

/-- `SetReadDeadline` and `SetWriteDeadline`, with their results. -/
def setLaneDeadline (d : Dir) (deadline : Option ℕ) (ok : Bool) : Except Error Unit × Stream :=
  let (r, x) := (s.lanes d).setDeadline deadline s.shared.now ok
  (r, s.setLane d x)

def setReadDeadline (deadline : Option ℕ) (ok : Bool) : Except Error Unit × Stream :=
  s.setLaneDeadline .read deadline ok

def setWriteDeadline (deadline : Option ℕ) (ok : Bool) : Except Error Unit × Stream :=
  s.setLaneDeadline .write deadline ok

def setDeadline (deadline : Option ℕ) (readOk writeOk : Bool) : Except Error Unit × Stream :=
  match s.setReadDeadline deadline readOk with
  | (.error e, s) => (.error e, s)
  | (.ok _, s) => s.setWriteDeadline deadline writeOk

def destructible : Bool :=
  (s.lanes .read).free && (s.lanes .write).free && s.shared.pendingClose.isNone

/-! ## Resuming works -/

/-- `Work::Run`: the coroutine in the work is resumed; a work without one fails its check. -/
def runWork : Work → Option Stream
  | .op d n => do
    let m ← ((s.lanes d).awaiters n).op.handle
    s.resumeOperation d m
  | .cancel d =>
    if s.destroyed then none
    else do
      let m ← (s.lanes d).cancelOp.handle
      s.resumeOperation d m
  | .close k => do
    let m ← (s.shared.closers k).op.handle
    s.resumeClose m
  | .other _ => some s

/-! ## The system -/

/-- The calls, the completions, the timers and the loop. -/
inductive Action where
  | read (length : ℕ) (ans : StartAnswers)
  | recv (reservation : ReservationKind) (ans : StartAnswers)
  | recvCopy (pool : Option Error) (ans : StartAnswers)
  | send (buffer : List UInt8) (ans : StartAnswers)
  | sendZeroCopy (buffer : List UInt8) (ans : StartAnswers)
  | setReadDeadline (deadline : Option ℕ) (ok : Bool)
  | setWriteDeadline (deadline : Option ℕ) (ok : Bool)
  | setDeadline (deadline : Option ℕ) (readOk writeOk : Bool)
  | setZeroCopyWritesEnabled (enabled : Bool)
  | close (submit : Option Error)
  | closeRead (shutdown : Option Error)
  | closeWrite (shutdown : Option Error)
  | destroy
  | schedule (i : ℕ) (completion : Bool)
  | requestStop
  /-- The kernel completes an operation, a notification, a cancel request, a close. -/
  | cqe (d : Dir) (n : ℕ) (e : CompletionEvent) (p : PoolAnswer)
  | notification (n : ℕ) (e : CompletionEvent)
  | cancelCqe (d : Dir) (result : ℤ)
  | closeCqe (k : ℕ) (result : ℤ)
  /-- A completion begins to run callbacks; one of them is a timer of the stream. -/
  | callbacks
  | fire (d : Dir) (t : Timer) (ans : Lane.TimerAnswers)
  | advanceClock (elapsed : ℕ)
  /-- The loop begins a turn, resumes the next work, ends what it does. -/
  | beginTurn
  | runNext
  | advance
  /-- The submission after a completion fails, and the loop stops. -/
  | flushFailed
  deriving DecidableEq

def orAbort (r : Option Stream) : Stream := r.getD { s with aborted := true }

def call (r : Option Stream) : Option Stream :=
  if s.shared.queues.inUserCode ∧ s.destroyed = false then some (s.orAbort r) else none

/-- A completion is handled between two others, and the queue is drained after it. -/
def completion (r : Option Stream) : Option Stream :=
  if s.shared.queues.turn = .poll then
    let s := s.orAbort r
    some { s with shared := { s.shared with queues := { s.shared.queues with turn := .drain 0 } } }
  else none

/-- The kernel takes back a request: one primary completion, and for a zero-copy send with `F_MORE`
a notification still to come. What a send reports as accepted is at most what it offered. -/
def kernelCompletes (d : Dir) (n : ℕ) (e : CompletionEvent) : Option Stream :=
  let x := s.lanes d
  let a := x.awaiters n
  if n ∈ x.primaries ∧ e.notification = false ∧ (d = .write → e.result ≤ a.buffer.length) then
    some (s.setLane d { x with
      primaries := x.primaries.erase n
      notifications := if a.op.kind = .sendZeroCopyComplete ∧ e.more then x.notifications ++ [n]
        else x.notifications
      sent := x.sent ++ [(n, a.buffer.take e.result.toNat)] })
  else none

def setQueues (q : WorkQueues Work) : Stream := { s with shared := { s.shared with queues := q } }

def step (a : Action) (s : Stream) : Option Stream :=
  if s.aborted then none
  else
    match a with
    | .read length ans => if ans.valid then s.call (s.read length ans) else none
    | .recv reservation ans => if ans.valid then s.call (s.recv reservation ans) else none
    | .recvCopy pool ans =>
      if ans.valid ∧ pool ≠ some 0 then s.call (s.recvCopy pool ans) else none
    | .send buffer ans => if ans.valid then s.call (s.send buffer ans) else none
    | .sendZeroCopy buffer ans => if ans.valid then s.call (s.sendZeroCopy buffer ans) else none
    | .setReadDeadline deadline ok => s.call (s.setReadDeadline deadline ok).2
    | .setWriteDeadline deadline ok => s.call (s.setWriteDeadline deadline ok).2
    | .setDeadline deadline readOk writeOk => s.call (s.setDeadline deadline readOk writeOk).2
    | .setZeroCopyWritesEnabled enabled =>
      s.call (some { s with shared := { s.shared with zeroCopyWritesEnabled := enabled } })
    | .close submit => s.call (s.close submit)
    | .closeRead shutdown => s.call (s.closeRead shutdown)
    | .closeWrite shutdown => s.call (s.closeWrite shutdown)
    -- a destructor whose checks fail ends the process, so it is no step of a run
    | .destroy => if s.destructible then s.call (some { s with destroyed := true }) else none
    | .schedule i completion =>
      if s.shared.queues.inUserCode then
        some (s.setQueues (if completion then s.shared.queues.scheduleCompletion (.other i)
          else s.shared.queues.schedule (.other i)))
      else none
    | .requestStop => some { s with shared := s.shared.requestStop }
    | .cqe d n e p => do
      let s ← s.kernelCompletes d n e
      s.completion (s.handleCqe d n e p)
    | .notification n e =>
      let x := s.lanes .write
      if n ∈ x.notifications ∧ e.notification = true then
        let s := s.setLane .write { x with notifications := x.notifications.erase n }
        s.completion (s.handleCqe .write n e {})
      else none
    | .cancelCqe d result =>
      let x := s.lanes d
      if 0 < x.cancels then
        let s := s.setLane d { x with cancels := x.cancels - 1 }
        s.completion (s.handleCancelCqe d result)
      else none
    | .closeCqe k result =>
      if k ∈ s.shared.closeRequests then
        let s := { s with shared := { s.shared with
          closeRequests := s.shared.closeRequests.erase k } }
        s.completion (s.handleCloseCqe k result)
      else none
    | .callbacks =>
      if s.shared.queues.turn = .poll then
        some (s.setQueues { s.shared.queues with turn := .callbacks })
      else none
    | .fire d t ans =>
      if s.shared.queues.turn = .callbacks ∧ t ∈ (s.lanes d).timers ∧
          t.expiration ≤ s.shared.now then
        some (s.orAbort (((s.lanes d).fire t s.shared.now ans).map fun (stop, x) =>
          let s := s.setLane d x
          if stop then { s with shared := s.shared.requestStop } else s))
      else none
    | .advanceClock elapsed =>
      some { s with shared := { s.shared with now := s.shared.now + elapsed } }
    | .beginTurn =>
      if s.shared.queues.turn = .poll then
        some (s.setQueues { s.shared.queues with turn := .runReady 0 0 })
      else none
    | .runNext => do
      let (w, q) ← s.shared.queues.next
      let s := s.setQueues q
      some (s.orAbort (s.runWork w))
    | .advance => do
      let q ← s.shared.queues.advance
      some (s.setQueues q)
    | .flushFailed =>
      if s.shared.queues.turn = .drain 0 then
        let s := s.setQueues { s.shared.queues with turn := .poll }
        some { s with shared := s.shared.requestStop }
      else none

def make (closeResult : Except Error Unit) (zeroCopy : Bool) (now : ℕ) : Stream where
  lanes := Lane.make
  shared := { closeResult, zeroCopyWritesEnabled := zeroCopy, now }

def system : System Stream Action where
  init s := ∃ closeResult zeroCopy now, s = make closeResult zeroCopy now
  step := step

end Stream

end Alyrn.Uring
