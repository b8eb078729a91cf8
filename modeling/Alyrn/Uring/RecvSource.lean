import Alyrn.Lib.RingBuffer
import Alyrn.Lib.Transition
import Alyrn.Net.Awaiters
import Alyrn.Net.RecvSourceState
import Alyrn.Uring.ProvidedBufferPool
import Alyrn.Uring.SourceControl

/-!
# RecvSource

The multishot receive source of the uring backend. A payload takes one of three ways to its
consumer: straight to a `Next()` that waits, through the bounded queue (copied into a slot of the
source's own storage), or through the overflow list (copied to the heap).

One step of the system is one entry into the source from its owner loop: a receive or a cancel
completion, `Next()`, the release of a lease, `RequestStop()` or `Stop()`. A failed check aborts.

`TryTakeNext` can resume admission, whose failed submission delivers again, so the delivery is
recursive in the source text. `deliverNext` counts the nesting down and aborts at zero; the
nesting never gets there.
-/

namespace Alyrn.Uring

open Net Transition

structure RecvSourceOptions where
  source : Net.RecvSourceOptions := {}
  bufferSize : ℕ := 0
  deriving DecidableEq, Repr

def RecvSourceOptions.valid (o : RecvSourceOptions) : Bool :=
  o.source.valid ∧ o.source.pendingDepth = 1 ∧ o.bufferSize ≤ 2 ^ 32 - 1 ∧
    o.source.bufferCapacity ≤ 32 * 1024 ∧
    o.source.bufferCapacity &&& (o.source.bufferCapacity - 1) = 0

/-- The state of a pool buffer. -/
structure SlotState where
  leaseCount : ℕ := 0
  active : Bool := false
  kernelDone : Bool := false
  deriving DecidableEq, Repr

/-! ## Borrowed buffers -/

/-- The provided buffers that the source has borrowed from the pool: `slots_`,
`active_slot_count_` and `buffer_pool_`. `none` is a failed check. -/
structure BufferSlots where
  slots : List SlotState
  activeSlotCount : ℕ
  pool : ProvidedBufferPool
  deriving DecidableEq, Repr

namespace BufferSlots

variable (b : BufferSlots) (id : ℕ)

def slot : SlotState := b.slots[id]?.getD {}

def setSlot (st : SlotState) : BufferSlots := { b with slots := b.slots.set id st }

def returnIfReclaimable : Option BufferSlots :=
  if (b.slot id).active = false ∨ (b.slot id).kernelDone = false ∨ (b.slot id).leaseCount ≠ 0 then
    some b
  else
    match b.pool.giveBack id with
    | none => none
    | some pool =>
      if b.activeSlotCount = 0 then none
      else some ({ b with activeSlotCount := b.activeSlotCount - 1, pool }.setSlot id {})

def acquireBuffer (size : ℕ) : Except Error BufferSlots :=
  if b.slots.length ≤ id ∨ b.pool.bufferSize < size then .error EPROTO
  else if (b.slot id).active then .error EPROTO
  else
    match b.pool.acquire id with
    | none => .error EPROTO
    | some pool =>
      .ok ({ b with pool, activeSlotCount := b.activeSlotCount + 1 }.setSlot id
        { active := true, kernelDone := false, leaseCount := 1 })

def markKernelDone : Option BufferSlots :=
  if b.slots.length ≤ id ∨ (b.slot id).active = false ∨ (b.slot id).kernelDone then none
  else (b.setSlot id { b.slot id with kernelDone := true }).returnIfReclaimable id

def markKernelDoneAll : List ℕ → BufferSlots → Option BufferSlots
  | [], b => some b
  | id :: ids, b =>
    if (b.slot id).active ∧ (b.slot id).kernelDone = false then
      (b.markKernelDone id).bind (markKernelDoneAll ids)
    else markKernelDoneAll ids b

def markActiveSlotsKernelDone : Option BufferSlots :=
  if b.activeSlotCount = 0 then some b else markKernelDoneAll (List.range b.slots.length) b

def releaseSlotLease : Option BufferSlots :=
  if b.slots.length ≤ id ∨ (b.slot id).active = false ∨ (b.slot id).leaseCount = 0 then none
  else
    (b.setSlot id { b.slot id with leaseCount := (b.slot id).leaseCount - 1 }).returnIfReclaimable
      id

/-- What the handlers of an empty and of a failed completion do with a selected buffer. -/
def settle : Option BufferSlots :=
  if (b.slot id).active then b.markKernelDone id
  else
    match b.pool.acquire id with
    | none => some b
    | some pool => (pool.giveBack id).map fun pool => { b with pool }

end BufferSlots

/-! ## The source -/

/-- A queued payload, in its copy slot. -/
structure PendingEvent where
  copySlot : ℕ := 0
  size : ℕ := 0
  deriving DecidableEq, Repr

/-- A live lease on the source's own storage, with the bytes it showed when it was handed out. -/
structure Lease where
  copySlot : ℕ
  size : ℕ
  bytes : List UInt8
  deriving DecidableEq, Repr

/-- The source with its buffers, its awaiters and their results. -/
structure RecvSource where
  ctl : SourceControl RecvSourceStateMachine
  events : RingBuffer PendingEvent
  buffers : BufferSlots
  queuedPayloads : List UInt8
  copyFree : List ℕ
  overflow : List (List UInt8)
  bufferSize : ℕ
  pendingNext : Option ℕ
  pendingStop : Option ℕ
  /-- The leases on the source's storage that the application holds. -/
  leases : List Lease
  /-- The calls of `Next()` and `Stop()` so far, which number their awaiters. -/
  nextCalls : ℕ
  stopCalls : ℕ
  nexts : List (ℕ × NextResult (List UInt8))
  stops : List (ℕ × Except Error Unit)
  /-- The payloads of all completions with a positive result and a valid selected buffer. -/
  received : List (List UInt8)

namespace RecvSource

def make (state : RecvSourceStateMachine) (pool : ProvidedBufferPool) : RecvSource where
  ctl := .create state
  events := .empty state.options.eventCapacity {}
  buffers := { slots := List.replicate pool.capacity {}, activeSlotCount := 0, pool }
  queuedPayloads := List.replicate (state.options.bufferCapacity * pool.bufferSize) 0
  copyFree := (List.range state.options.bufferCapacity).reverse
  overflow := []
  bufferSize := pool.bufferSize
  pendingNext := none
  pendingStop := none
  leases := []
  nextCalls := 0
  stopCalls := 0
  nexts := []
  stops := []
  received := []

def create (options : RecvSourceOptions) (loop : SharedBuffers) : Except Error RecvSource :=
  if options.valid = false then .error EINVAL
  else
    match RecvSourceStateMachine.create options.source with
    | .error e => .error e
    | .ok state =>
      let capacity := options.source.bufferCapacity
      -- a size of 0 adopts the size of the loop's buffers
      let size := if options.bufferSize = 0 then loop.size else options.bufferSize
      match loop.getSharedProvidedBufferPool size (min capacity maxRearmWorkingSet) with
      | .error e => .error (if e = ENOENT then EOPNOTSUPP else e)
      | .ok pool => if pool.capacity < capacity then .error EINVAL else .ok (make state pool)

variable (s : RecvSource)

abbrev machine : RecvSourceStateMachine := s.ctl.state

def abort : RecvSource := { s with ctl := { s.ctl with aborted := true } }

def setMachine (m : RecvSourceStateMachine) : RecvSource :=
  { s with ctl := { s.ctl with state := m } }

def onBuffers (f : BufferSlots → Option BufferSlots) : RecvSource :=
  match f s.buffers with
  | some buffers => { s with buffers }
  | none => s.abort

/-- `NextAwaiter::Complete`, and the immediate results of `await_suspend`. -/
def completeNext (awaiter : ℕ) (r : NextResult (List UInt8)) : RecvSource :=
  { s with nexts := complete s.nexts awaiter r }

def completeStop (awaiter : ℕ) (r : Except Error Unit) : RecvSource :=
  { s with stops := complete s.stops awaiter r }

def requestBackendStop (error : Option Error) : RecvSource :=
  { s with ctl := s.ctl.requestBackendStop RecvSourceStateMachine.requestStop error }

def requestBackendPause : RecvSource :=
  { s with
    ctl := s.ctl.requestBackendPause RecvSourceStateMachine.requestPause
      RecvSourceStateMachine.requestStop }

def startOperation : Option Error × RecvSource :=
  if s.ctl.submitted then (none, s)
  else
    match s.machine.tryArm with
    | none => (none, s)
    | some m =>
      match (s.setMachine m).ctl.submitOp with
      | (none, ctl) => (none, { s with ctl := { ctl with submitted := true, inFlight := true } })
      | (some e, ctl) =>
        match ctl.state.completeMultishotEvent .none .terminal with
        | .ok m => (some e, { s with ctl := { ctl with state := m } })
        | .error _ => (some e, ({ s with ctl } : RecvSource).abort)

def start : Option Error × RecvSource :=
  match s.machine.start with
  | .error e => (some e, s)
  | .ok m =>
    match (s.setMachine m).startOperation with
    | (none, s) => (none, s)
    | (some e, s) => (some e, s.requestBackendStop (some e))

def beginStop : Except Error Bool × RecvSource :=
  let s := s.setMachine s.machine.requestStop
  let waiting (s : RecvSource) : Bool :=
    s.machine.state ≠ .terminal ∨ s.ctl.submitted = true ∨ s.ctl.cancelSubmitted = true
  if s.ctl.submitted then
    match s.ctl.startCancel with
    | (some e, ctl) => (.error e, { s with ctl })
    | (none, ctl) => (.ok (waiting { s with ctl }), { s with ctl })
  else (.ok (waiting s), s)

def completeStopIfReady : RecvSource :=
  match s.pendingStop with
  | none => s
  | some awaiter =>
    if s.ctl.submitted = true ∨ s.ctl.cancelSubmitted = true ∨ s.machine.state ≠ .terminal then s
    else { s with pendingStop := none }.completeStop awaiter (.ok ())

/-! ## Payload storage -/

def payload (copySlot size : ℕ) : List UInt8 :=
  s.queuedPayloads.slice (copySlot * s.bufferSize) size

def copyAndReleasePoolSlot (id size : ℕ) : ℕ × RecvSource :=
  match s.copyFree, s.buffers.pool.slot id with
  | copySlot :: copyFree, some src =>
    if s.bufferSize < size then (0, s.abort)
    else
      (copySlot, { s with
        copyFree
        queuedPayloads := s.queuedPayloads.splice (copySlot * s.bufferSize)
          (src.take size) }.onBuffers (·.releaseSlotLease id))
  | _, _ => (0, s.abort)

/-- `MakeQueuedLease`: from here on the application holds the slot. -/
def makeQueuedLease (copySlot size : ℕ) : RecvSource :=
  if copySlot * s.bufferSize + size ≤ s.queuedPayloads.length then
    { s with leases := s.leases ++ [{ copySlot, size, bytes := s.payload copySlot size }] }
  else s.abort

def queueEvent (id size : ℕ) : RecvSource :=
  let (copySlot, s) := s.copyAndReleasePoolSlot id size
  match s.events.push? { copySlot, size } with
  | some events => { s with events }
  | none => s.abort

def keepOverflow (id size : ℕ) : RecvSource :=
  match s.buffers.pool.slot id with
  | none => s.abort
  | some src =>
    if s.bufferSize < size then s.abort
    else
      let s := s.onBuffers (·.releaseSlotLease id)
      { s with overflow := s.overflow ++ [src.take size] }

/-! ## Delivery -/

section

-- the nested call of `DeliverNextIfReady`
variable (deliver : RecvSource → RecvSource)

def ensureSubmissionWith : RecvSource :=
  if s.machine.state ≠ .active ∨ s.ctl.submitted = true ∨ s.ctl.cancelSubmitted = true then s
  else
    match s.startOperation with
    | (none, s) => s
    | (some e, s) => deliver (s.requestBackendStop (some e))

def maybeResumeWith : RecvSource :=
  -- overflowed completions are consumed before new data may arrive
  if s.ctl.terminalError.isSome ∨ s.ctl.cancelSubmitted = true ∨ s.overflow ≠ [] then s
  else
    match s.machine.tryResume with
    | none => s
    | some m => (s.setMachine m).ensureSubmissionWith deliver

def tryTakeNextWith : Option (NextResult (List UInt8)) × RecvSource :=
  match s.events.pop? with
  | some (pending, events) =>
    let s := { s with events }
    match s.machine.acquireEvent with
    | none => (some .endOfStream, s.abort)
    | some m =>
      let r := NextResult.event (s.payload pending.copySlot pending.size)
      let s := (s.setMachine m).makeQueuedLease pending.copySlot pending.size
      (some r, if s.machine.state = .paused then s.maybeResumeWith deliver else s)
  | none =>
    match s.overflow with
    | payload :: overflow =>
      let s := { s with overflow }
      (some (.event payload),
        if overflow = [] ∧ s.machine.state = .paused then s.maybeResumeWith deliver else s)
    | [] =>
      if s.machine.state = .terminal then
        (some (match s.ctl.terminalError with
          | some e => .error e
          | none => .endOfStream), s)
      else (none, s)

def deliverNextWith : RecvSource :=
  if s.pendingNext.isNone then s
  else
    match s.tryTakeNextWith deliver with
    | (none, s) => s
    | (some r, s) =>
      match s.pendingNext with
      | some awaiter => { s with pendingNext := none }.completeNext awaiter r
      -- a nested delivery has taken the awaiter: a null pointer
      | none => s.abort

end

/-- `DeliverNextIfReady` with at most `depth` nested calls. -/
def deliverNext : ℕ → RecvSource → RecvSource
  | 0, s => s.abort
  | depth + 1, s => s.deliverNextWith (deliverNext depth)

def deliverNextIfReady : RecvSource → RecvSource := deliverNext 2

def ensureSubmission : RecvSource := s.ensureSubmissionWith deliverNextIfReady

def maybeResume : RecvSource := s.maybeResumeWith deliverNextIfReady

def tryTakeNext : Option (NextResult (List UInt8)) × RecvSource :=
  s.tryTakeNextWith deliverNextIfReady

/-! ## Completions -/

/-- `direct_delivery`: the payload goes straight to the parked awaiter. -/
def directDelivery : Bool :=
  s.pendingNext.isSome ∧ s.events.count = 0 ∧ s.overflow = [] ∧ s.machine.state = .active

/-- Copies the payload and completes the parked awaiter with a lease on the copy. -/
def deliverDirect (id size : ℕ) : RecvSource :=
  let (copySlot, s) := s.copyAndReleasePoolSlot id size
  let s := s.makeQueuedLease copySlot size
  match s.pendingNext with
  | some awaiter =>
    { s with pendingNext := none }.completeNext awaiter (.event (s.payload copySlot size))
  | none => s.abort

/-- The payload of an acquired buffer; the flag tells whether the completion was recorded. -/
def acceptPayload (id size : ℕ) (more : Bool) : Bool × RecvSource :=
  if s.directDelivery = false ∧ (s.overflow ≠ [] ∨ s.machine.canQueueEvent = false) then
    -- the kernel completed this receive before the pause landed: keep its bytes
    (false, (s.keepOverflow id size).requestBackendPause)
  else
    match s.machine.completeMultishotEvent (if s.directDelivery then .delivered else .produced)
      (if more then .more else .terminal) with
    | .error e => (false, (s.onBuffers (·.releaseSlotLease id)).requestBackendStop (some e))
    | .ok m =>
      (true, if s.directDelivery then (s.setMachine m).deliverDirect id size
        else (s.setMachine m).queueEvent id size)

/-- The branch of `OnCompletion` for a positive result: whether the completion was recorded, and
its error. -/
def onPayload (event : CompletionEvent) (validBuffer : Bool) :
    Bool × Option Error × RecvSource :=
  let id := event.selectedBufferId
  let size := event.result.toNat
  if validBuffer = false ∨ event.bufferMore = true then (false, some EPROTO, s)
  else
    match s.buffers.acquireBuffer id size with
    | .error e => (false, some e, s)
    | .ok buffers =>
      let (recorded, s) :=
        ({ s with buffers }.onBuffers (·.markKernelDone id)).acceptPayload id size event.more
      (recorded, none, s)

/-- The buffer of a completion without a payload goes back to the pool. -/
def settleBuffer (event : CompletionEvent) (validBuffer : Bool) : RecvSource :=
  if event.bufferMore = false ∧ validBuffer = true then
    s.onBuffers (·.settle event.selectedBufferId)
  else s

/-- The branch for an empty completion: the peer has finished sending. -/
def onEmpty (event : CompletionEvent) (validBuffer : Bool) : Option Error × RecvSource :=
  let s := s.settleBuffer event validBuffer
  (if event.bufferMore then some EPROTO else none,
    if event.more then s else s.requestBackendStop none)

/-- The branch for a failed completion. -/
def onFailure (event : CompletionEvent) (validBuffer : Bool) : Option Error × RecvSource :=
  let s := s.settleBuffer event validBuffer
  let stopping := s.machine.state = .stopping ∨ s.machine.state = .pausing ∨
    s.machine.state = .paused ∨ s.machine.state = .draining ∨ s.machine.state = .terminal
  (if event.bufferMore then some EPROTO else none,
    if ¬ stopping ∧ (event.result ≠ -ENOBUFS ∨ event.more = true) then
      s.requestBackendStop (some (negErrno event.result))
    else s)

/-- The record of a completion that produced no event. -/
def recordRequest (more : Bool) : RecvSource :=
  match s.machine.completeMultishotEvent .none (if more then .more else .terminal) with
  | .ok m => s.setMachine m
  | .error e =>
    { s with ctl := { s.ctl with terminalError := some e } }.requestBackendStop (some e)

/-- The first lines of `OnCompletion`: the last completion of a request ends it. -/
def endRequest (more : Bool) : RecvSource :=
  if more then s else { s with ctl := { s.ctl with submitted := false } }

def validBuffer (event : CompletionEvent) : Bool :=
  event.hasSelectedBuffer ∧ event.selectedBufferId < s.buffers.pool.capacity

/-- The branches of `OnCompletion`, up to the record of the completion. -/
def handleResult (event : CompletionEvent) : RecvSource :=
  let (recorded, error, s) :=
    if 0 < event.result then s.onPayload event (s.validBuffer event)
    else if event.result = 0 then (false, s.onEmpty event (s.validBuffer event))
    else (false, s.onFailure event (s.validBuffer event))
  let s := match error with
    | some e => s.requestBackendStop (some e)
    | none => s
  if recorded then s else s.recordRequest event.more

/-- `OnCompletion` after the record: pause, resubmit, deliver, resume. -/
def afterResult (more : Bool) : RecvSource :=
  let s := if more then s else s.onBuffers (·.markActiveSlotsKernelDone)
  let s := if s.machine.state = .active ∧
      s.machine.options.eventCapacity ≤ s.machine.queuedEvents then s.requestBackendPause else s
  let s := if more = false ∧ s.machine.state = .active ∧ s.ctl.terminalError.isNone then
    s.ensureSubmission else s
  (maybeResume (deliverNextIfReady s)).completeStopIfReady

def onCompletion (event : CompletionEvent) : RecvSource :=
  ((s.endRequest event.more).handleResult event).afterResult event.more

def onCancelComplete (result : ℤ) : RecvSource :=
  let ctl := { s.ctl with cancelSubmitted := false }
  let ctl := if isExpectedCancelCqeResult result then ctl
    else { ctl with terminalError := ctl.terminalError.or (some (negErrno result)) }
  (maybeResume { s with ctl }).completeStopIfReady

/-! ## Calls of the application -/

def next : RecvSource :=
  let awaiter := s.nextCalls
  let s := { s with nextCalls := awaiter + 1 }
  if s.pendingNext.isSome then s.completeNext awaiter (.error EBUSY)
  else
    match if s.machine.state = .idle then s.start else (none, s) with
    | (some e, s) => s.completeNext awaiter (.error e)
    | (none, s) =>
      match s.tryTakeNext with
      | (some r, s) => s.completeNext awaiter r
      | (none, s) => { s with pendingNext := some awaiter }

def returnQueuedPayload (i copySlot : ℕ) : RecvSource :=
  let s := { s with leases := s.leases.eraseIdx i, copyFree := copySlot :: s.copyFree }
  match s.machine.releaseLease with
  | none => s.abort
  | some m =>
    let s := s.setMachine m
    if s.machine.state = .active ∧ s.ctl.submitted = true ∧ s.pendingStop.isNone then s
    else s.ensureSubmission.completeStopIfReady

def requestStop : RecvSource := s.beginStop.2

def stop : RecvSource :=
  let awaiter := s.stopCalls
  let s := { s with stopCalls := awaiter + 1 }
  if s.pendingStop.isSome then s.completeStop awaiter (.error EBUSY)
  else if s.machine.state = .terminal ∧ s.ctl.submitted = false ∧ s.ctl.cancelSubmitted = false then
    s.completeStop awaiter (.ok ())
  else
    match { s with pendingStop := some awaiter }.beginStop with
    | (.error e, s) => { s with pendingStop := none }.completeStop awaiter (.error e)
    | (.ok false, s) => { s with pendingStop := none }.completeStop awaiter (.ok ())
    | (.ok true, s) => s

/-! ## The system -/

/-- The entries into a source, each with the answers of the `SubmitOp` calls it makes. -/
inductive Action where
  /-- A completion of the receive request; the kernel has put `bytes` into the selected buffer. -/
  | recvCqe (event : CompletionEvent) (bytes : List UInt8) (answers : List (Option Error))
  | cancelCqe (result : ℤ) (answers : List (Option Error))
  | next (answers : List (Option Error))
  | release (i : ℕ) (answers : List (Option Error))
  | requestStop (answers : List (Option Error))
  | stop (answers : List (Option Error))
  deriving DecidableEq, Repr

/-- What the kernel has done by the time it posts a receive completion. -/
def kernelRecv (event : CompletionEvent) (bytes : List UInt8) : RecvSource :=
  { s with
    ctl := { s.ctl with inFlight := event.more }
    buffers := if s.validBuffer event then
      { s.buffers with pool := s.buffers.pool.kernelFill event.selectedBufferId bytes }
      else s.buffers
    received := if 0 < event.result ∧ s.validBuffer event = true then s.received ++ [bytes]
      else s.received }

def withAnswers (answers : List (Option Error)) : RecvSource :=
  { s with ctl := { s.ctl with answers } }

/-- One entry into the source. The kernel completes only what is in flight. -/
def step (a : Action) (s : RecvSource) : Option RecvSource :=
  if s.ctl.aborted then none
  else
    match a with
    | .recvCqe event bytes answers =>
      if s.ctl.inFlight then
        some (((s.kernelRecv event bytes).withAnswers answers).onCompletion event)
      else none
    | .cancelCqe result answers =>
      if s.ctl.cancelInFlight then
        some (({ s with ctl := { s.ctl with cancelInFlight := false } }.withAnswers
          answers).onCancelComplete result)
      else none
    | .next answers => some (s.withAnswers answers).next
    | .release i answers =>
      match s.leases[i]? with
      | some lease => some ((s.withAnswers answers).returnQueuedPayload i lease.copySlot)
      | none => none
    | .requestStop answers => some (s.withAnswers answers).requestStop
    | .stop answers => some (s.withAnswers answers).stop

/-- A receive source with valid options on a loop whose shared pool, if any, is well formed. -/
def system : System RecvSource Action where
  init s := ∃ (options : RecvSourceOptions) (loop : SharedBuffers),
    (∀ p, loop.pool = some p → p.WellFormed) ∧ create options loop = .ok s
  step := step

end RecvSource

end Alyrn.Uring
