import Mathlib.Algebra.Group.Nat.Defs
import Alyrn.Lib.Slice
import Alyrn.Lib.Transition
import Alyrn.Net.Awaiters
import Alyrn.Net.RecvSourceState

/-!
# RecvSource of the epoll backend

The receive source that reads a socket when its channel becomes readable. The armed request of the
admission machine is the channel's read interest; payloads are received into the source's own
buffers, queued, and handed out on lease.

One step of the system is one entry from the owner loop. A readiness callback comes with the
answers of the `recv` calls it makes; when they are used up the socket would block. A call that was
interrupted is repeated at once and leaves no trace.
-/

namespace Alyrn.Epoll

open Net Transition

structure RecvSourceOptions where
  source : Net.RecvSourceOptions := {}
  bufferSize : ℕ := 16 * 1024
  deriving DecidableEq, Repr

def RecvSourceOptions.valid (o : RecvSourceOptions) : Bool :=
  o.source.valid ∧ o.source.pendingDepth = 1 ∧ 0 < o.bufferSize ∧
    o.source.bufferCapacity ≤ 2 ^ 32 - 1

def isWouldBlock (error : Error) : Bool := error = EAGAIN ∨ error = EWOULDBLOCK

/-- A filled buffer, queued or with the application. -/
structure BufferLease where
  bufferId : ℕ
  size : ℕ
  deriving DecidableEq, Repr

/-- What a `recv` call returns, and for data whether the queue finds memory for its event. -/
inductive RecvOutcome where
  | data (bytes : List UInt8)
  | noMemory (bytes : List UInt8)
  | endOfFile
  | fail (error : Error)
  deriving DecidableEq, Repr

/-- The source with its awaiters and the results they got. -/
structure RecvSource where
  state : RecvSourceStateMachine
  reading : Bool
  events : List BufferLease
  terminalError : Option Error
  pendingNext : Option ℕ
  pendingStop : Option ℕ
  bufferSize : ℕ
  storage : List UInt8
  availableBuffers : List ℕ
  loopStopping : Bool
  aborted : Bool
  leases : List BufferLease
  /-- The calls of `Next()` and `Stop()` so far, which number their awaiters. -/
  nextCalls : ℕ
  stopCalls : ℕ
  nexts : List (ℕ × NextResult (List UInt8))
  stops : List (ℕ × Except Error Unit)
  /-- The payloads of all `recv` calls that returned data. -/
  received : List (List UInt8)
  deriving DecidableEq, Repr

namespace RecvSource

def make (state : RecvSourceStateMachine) (bufferSize : ℕ) (loopStopping : Bool) : RecvSource where
  state := state
  reading := false
  events := []
  terminalError := none
  pendingNext := none
  pendingStop := none
  bufferSize := bufferSize
  storage := List.replicate (state.options.bufferCapacity * bufferSize) 0
  availableBuffers := (List.range state.options.bufferCapacity).reverse
  loopStopping := loopStopping
  aborted := false
  leases := []
  nextCalls := 0
  stopCalls := 0
  nexts := []
  stops := []
  received := []

/-- `Create` on the loop thread with a descriptor; the storage is allocated. -/
def create (options : RecvSourceOptions) (loopStopping : Bool) : Except Error RecvSource :=
  if options.valid = false then .error EINVAL
  else if (2 ^ 64 - 1) / options.bufferSize < options.source.bufferCapacity then .error EOVERFLOW
  else (RecvSourceStateMachine.create options.source).map (make · options.bufferSize loopStopping)

variable (s : RecvSource)

def abort : RecvSource := { s with aborted := true }

def check (m : Option RecvSourceStateMachine) : RecvSource :=
  match m with
  | some state => { s with state }
  | none => s.abort

def payload (lease : BufferLease) : List UInt8 :=
  s.storage.slice (lease.bufferId * s.bufferSize) lease.size

/-! ## Admission -/

def ensureAdmission : RecvSource :=
  if s.state.state ≠ .active ∨ s.state.armedRequests ≠ 0 then s
  else
    match s.state.tryArm with
    | some state => { s with state, reading := true }
    | none => s

def completeReadiness : RecvSource :=
  let s := { s with reading := false }
  if s.state.armedRequests ≠ 0 then
    s.check (s.state.completeMultishotEvent .none .terminal).toOption
  else s

def requestBackendPause : RecvSource := (s.check s.state.requestPause.toOption).completeReadiness

/-! ## Delivery -/

def tryTakeNext : Option (NextResult (List UInt8)) × RecvSource :=
  match s.events with
  | lease :: events =>
    let s := { s with events, leases := s.leases ++ [lease] }.check s.state.acquireEvent
    let s := if s.state.state = .paused then { s with state := s.state.tryResume.getD s.state }
      else s
    (some (.event (s.payload lease)), s.ensureAdmission)
  | [] =>
    if s.state.state = .terminal then
      (some (match s.terminalError with
        | some e => .error e
        | none => .endOfStream), s)
    else (none, s)

/-- `NextAwaiter::Complete`, and the immediate results of `await_suspend`. -/
def completeNext (awaiter : ℕ) (r : NextResult (List UInt8)) : RecvSource :=
  { s with nexts := complete s.nexts awaiter r }

def completeStop (awaiter : ℕ) (r : Except Error Unit) : RecvSource :=
  { s with stops := complete s.stops awaiter r }

def deliverNextIfReady : RecvSource :=
  match s.pendingNext with
  | none => s
  | some awaiter =>
    match s.tryTakeNext with
    | (none, s) => s
    | (some r, s) => { s with pendingNext := none }.completeNext awaiter r

def completeStopIfReady : RecvSource :=
  match s.pendingStop with
  | none => s
  | some awaiter =>
    if s.state.state ≠ .terminal ∨ s.state.armedRequests ≠ 0 then s
    else { s with pendingStop := none }.completeStop awaiter (.ok ())

def requestBackendStop (error : Option Error) : RecvSource :=
  { s with
    terminalError := s.terminalError.or error
    state := s.state.requestStop }.completeReadiness.deliverNextIfReady.completeStopIfReady

def returnBuffer (bufferId : ℕ) : RecvSource :=
  if bufferId < s.state.options.bufferCapacity ∧
      s.availableBuffers.length < s.state.options.bufferCapacity then
    ({ s with availableBuffers := bufferId :: s.availableBuffers }.check
      s.state.releaseLease).ensureAdmission.deliverNextIfReady.completeStopIfReady
  else s.abort

/-! ## Readiness -/

/-- The body of the loop in `OnReady` for data in buffer `bufferId`; the flag tells whether the
loop goes on. -/
def onData (bufferId : ℕ) (bytes : List UInt8) (memory : Bool) : Bool × RecvSource :=
  let s := { s with
    storage := s.storage.splice (bufferId * s.bufferSize) bytes
    received := s.received ++ [bytes] }
  match s.state.completeMultishotEvent .produced .more with
  | .error e => (false, s.requestBackendStop (some e))
  | .ok state =>
    let s := { s with state, availableBuffers := s.availableBuffers.tail }
    if memory then
      let lease : BufferLease := { bufferId, size := bytes.length }
      let s := { s with events := s.events ++ [lease] }
      if s.pendingNext.isSome then (false, s.deliverNextIfReady) else (true, s)
    else
      -- the temporary lease returns its buffer before the handler runs
      let s := s.returnBuffer bufferId
      (false, (s.check s.state.discardQueuedEvent).requestBackendStop (some ENOMEM))

/-- The loop of `OnReady`, with the answers of its `recv` calls. -/
def onReadyLoop : List RecvOutcome → RecvSource → RecvSource
  | outcomes, s =>
    if s.state.state ≠ .active then s
    else if s.state.canQueueEvent = false then s.requestBackendPause
    else
      match s.availableBuffers, outcomes with
      | [], _ => s.requestBackendPause
      | _, [] => s
      | bufferId :: _, outcome :: outcomes =>
        match outcome with
        | .fail e => if isWouldBlock e then s else s.requestBackendStop (some e)
        | .endOfFile => s.requestBackendStop none
        | .data bytes =>
          match s.onData bufferId bytes true with
          | (true, s) => onReadyLoop outcomes s
          | (false, s) => s
        | .noMemory bytes => (s.onData bufferId bytes false).2

def onReady (outcomes : List RecvOutcome) : RecvSource :=
  if s.state.state ≠ .active ∨ s.state.armedRequests = 0 then s else onReadyLoop outcomes s

/-! ## Calls of the application -/

def start : Option Error × RecvSource :=
  match s.state.start with
  | .error e => (some e, s)
  | .ok state =>
    let s := { s with state }.ensureAdmission
    (if s.state.armedRequests = 0 then some ENOBUFS else none, s)

/-- `Next()`: `await_suspend` of a new awaiter. -/
def next : RecvSource :=
  let awaiter := s.nextCalls
  let s := { s with nextCalls := awaiter + 1 }
  if s.pendingNext.isSome then s.completeNext awaiter (.error EBUSY)
  else if s.state.state = .idle ∧ s.loopStopping = true then
    s.completeNext awaiter (.error ECANCELED)
  else
    match if s.state.state = .idle then s.start else (none, s) with
    | (some e, s) => s.completeNext awaiter (.error e)
    | (none, s) =>
      match s.tryTakeNext with
      | (some r, s) => s.completeNext awaiter r
      | (none, s) =>
        match { s with pendingNext := some awaiter }.ensureAdmission.tryTakeNext with
        | (some r, s) => { s with pendingNext := none }.completeNext awaiter r
        | (none, s) => s

def beginStop : Bool × RecvSource :=
  let s := { s with state := s.state.requestStop }.completeReadiness.deliverNextIfReady
  (s.state.state ≠ .terminal, s)

def requestStop : RecvSource := s.beginStop.2

def stop : RecvSource :=
  let awaiter := s.stopCalls
  let s := { s with stopCalls := awaiter + 1 }
  if s.pendingStop.isSome then s.completeStop awaiter (.error EBUSY)
  else
    match { s with pendingStop := some awaiter }.beginStop with
    | (true, s) => s
    | (false, s) => { s with pendingStop := none }.completeStop awaiter (.ok ())

/-! ## The system -/

/-- The channel's callbacks and the application's calls. -/
inductive Action where
  | ready (outcomes : List RecvOutcome)
  /-- The close and the error callback of the channel; `SO_ERROR` has been read. -/
  | close
  | error (error : Error)
  | next
  | release (i : ℕ)
  | requestStop
  | stop
  | loopStop
  deriving DecidableEq, Repr

/-- A `recv` call returns at least one byte and at most a buffer. -/
def RecvOutcome.fits (bufferSize : ℕ) : RecvOutcome → Bool
  | .data bytes | .noMemory bytes => 0 < bytes.length ∧ bytes.length ≤ bufferSize
  | _ => true

def step (a : Action) (s : RecvSource) : Option RecvSource :=
  if s.aborted then none
  else
    match a with
    | .ready outcomes =>
      if outcomes.all (RecvOutcome.fits s.bufferSize) then some (s.onReady outcomes) else none
    | .close => some (s.requestBackendStop none)
    | .error e => some (s.requestBackendStop (some e))
    | .next => some s.next
    | .release i =>
      match s.leases[i]? with
      | some lease =>
        some (returnBuffer { s with leases := s.leases.eraseIdx i } lease.bufferId)
      | none => none
    | .requestStop => some s.requestStop
    | .stop => some s.stop
    | .loopStop => some (requestBackendStop { s with loopStopping := true } none)

def system : System RecvSource Action where
  init s := ∃ (options : RecvSourceOptions) (loopStopping : Bool),
    create options loopStopping = .ok s
  step := step

end RecvSource

end Alyrn.Epoll
