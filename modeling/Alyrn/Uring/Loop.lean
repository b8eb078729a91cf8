import Alyrn.Backend.LoopState
import Alyrn.Lib.Transition
import Alyrn.Uring.Op
import Alyrn.Uring.WorkQueues

/-!
# The uring loop

`Loop` after a successful `Init`: the entries that it has prepared for the ring, its counters of
them, its two work queues, and `Run` from its beginning to the moment it publishes `kStopped`.

An entry is prepared by `SubmitOp`, goes to the kernel when `FlushSubmit` finds it accepted, and
ends with its terminal completion. The loop counts prepared and submitted entries, and keeps two
flags for its own poll of the wake descriptor, which is not an operation of the program.

One step is one call of the program into the loop, one work, or one part of the loop's own code
between which the program may run. What the kernel answers is part of the action.
-/

namespace Alyrn.Uring

structure CompletionDisposition where
  kernelRequestTerminal : Bool
  decrementInflight : Bool
  resumeContinuation : Bool
  deriving DecidableEq, Repr

def isStreamOperation : OpKind → Bool
  | .readComplete | .recvComplete | .recvCopyComplete | .writeComplete
  | .sendZeroCopyComplete => true
  | _ => false

def isStreamDeadlineCancel : OpKind → Bool
  | .streamReadCancelComplete | .streamWriteCancelComplete => true
  | _ => false

/-- A request, prepared or in the kernel. -/
structure Entry where
  op : ℕ
  kind : OpKind
  lifecycle : SplitReleaseLifecycle := {}
  deriving DecidableEq, Repr

namespace Entry

/-- The kernel contract: a zero-copy send has its primary completion first, and a notification
only after that. -/
def expects (e : Entry) (event : CompletionEvent) : Bool :=
  match completionModelFor e.kind with
  | .singleShot | .eventStream => true
  | .splitRelease => event.notification = e.lifecycle.logicalResult

/-- The kernel contract: the terminal completion is the only one, the one of a multishot request
without `F_MORE`, or the primary without `F_MORE` or the notification of a zero-copy send. -/
def endsWith (e : Entry) (event : CompletionEvent) : Bool :=
  match completionModelFor e.kind with
  | .singleShot => true
  | .eventStream => !event.more
  | .splitRelease => event.notification || !event.more

/-- The entry after a completion that was not terminal. -/
def continued (e : Entry) : Entry :=
  match completionModelFor e.kind with
  | .singleShot | .eventStream => e
  | .splitRelease => { e with lifecycle := { e.lifecycle with logicalResult := true } }

/-- `DispatchCompletion`; `resume` if the handler of the operation leaves a continuation to be
resumed. -/
def dispatchCompletion (e : Entry) (event : CompletionEvent) (resume : Bool) :
    CompletionDisposition :=
  match completionModelFor e.kind with
  | .singleShot => ⟨true, true, resume⟩
  | .eventStream => ⟨!event.more, !event.more, false⟩
  | .splitRelease =>
    let terminal :=
      if event.notification then e.lifecycle.markPhysicalTerminal.isSome
      else
        match e.lifecycle.recordLogicalResult with
        | some l => !event.more && l.markPhysicalTerminal.isSome
        | none => false
    ⟨terminal, terminal, resume⟩

end Entry

/-- Where `Run()` stands. -/
inductive RunStage where
  | created
  | running
  /-- `BeginShutdown`: the participants are asked to stop. -/
  | shutdown
  | draining
  /-- `DrainPostedAndClose`, about to look at the posted callbacks. -/
  | closing
  | callbacks
  | readying
  | stopped
  deriving DecidableEq, Repr

/-- What runs in the middle of the loop's own code. -/
inductive Handling where
  | none
  | dispatching (e : Entry) (event : CompletionEvent)
  /-- The posted callbacks, at the beginning of `Run` or at a completion of the wake poll. -/
  | posted (wake : Bool)
  /-- Nothing: the operation of the completion was settled before. -/
  | ignored
  deriving DecidableEq, Repr

/-- The loop's counters, and the entries they count. -/
structure Loop where
  state : LoopState := .created
  stage : RunStage := .created
  handling : Handling := .none
  queues : WorkQueues ℕ := ⟨[], [], .poll⟩
  pendingSubmit : ℕ := 0
  inflight : ℕ := 0
  wakePending : Bool := false
  wakeInflight : Bool := false
  cancelAllPending : Bool := false
  posted : ℕ := 0
  postClosed : Bool := false
  prepared : List Entry := []
  submitted : List Entry := []
  settled : List ℕ := []
  /-- The entries ever prepared, and the terminal completions handled. -/
  everPrepared : ℕ := 0
  terminals : ℕ := 0
  aborted : Bool := false

namespace Loop

def wakeOp : ℕ := 0
def cancelAllOp : ℕ := 1

variable (l : Loop)

/-- `PendingSubmitCount` and `InflightCount`: the unsigned differences, which are only compared
with zero. -/
def pendingSubmitCount : ℤ := l.pendingSubmit - l.wakePending.toNat
def inflightCount : ℤ := l.inflight - l.wakeInflight.toNat

def hasReadyWork : Bool := l.queues.ready ≠ [] ∨ l.queues.completionReady ≠ []

def isDrained : Bool := !l.hasReadyWork ∧ l.pendingSubmitCount = 0 ∧ l.inflightCount = 0

/-! ## Submission -/

/-- The loop has counted `n` entries as accepted by `ring_.Submit()`. -/
def accept (n : ℕ) : Loop :=
  let count := min n l.pendingSubmit
  let moved := l.wakePending && 0 < count
  { l with
    prepared := l.prepared.drop n
    submitted := l.submitted ++ l.prepared.take n
    pendingSubmit := l.pendingSubmit - count
    inflight := l.inflight + count
    wakePending := l.wakePending && !moved
    wakeInflight := l.wakeInflight || moved }

/-- `FlushSubmit` with the answers of `ring_.Submit()`; after them the ring accepts everything. -/
def flushSubmit : List (Except Error ℕ) → Loop → Option Error × Loop
  | [], l => (none, if l.pendingSubmit = 0 then l else l.accept l.prepared.length)
  | answer :: answers, l =>
    if l.pendingSubmit = 0 then (none, l)
    else
      match answer with
      | .error e => (some e, l)
      | .ok n => if n = 0 then (some EAGAIN, l) else flushSubmit answers (l.accept n)

/-- Answers to `SubmitOp`: whether the submission queue is full, before and after a flush. -/
structure SqeAnswers where
  full : Bool := false
  flush : List (Except Error ℕ) := []
  stillFull : Bool := false
  deriving DecidableEq, Repr

/-- A prepared entry; `op` is fresh, or `BeginNextRequest` was called. -/
def prepare (op : ℕ) (kind : OpKind) : Loop :=
  { l with
    prepared := l.prepared ++ [{ op, kind }]
    pendingSubmit := l.pendingSubmit + 1
    everPrepared := l.everPrepared + 1 }

def submitOp (op : ℕ) (kind : OpKind) (ans : SqeAnswers) : Option Error × Loop :=
  if l.state.isStopping && op ≠ cancelAllOp && op ≠ wakeOp && !isStreamDeadlineCancel kind then
    (some ECANCELED, l)
  else if ans.full then
    match flushSubmit ans.flush l with
    | (some e, l) => (some e, l)
    | (none, l) => if ans.stillFull then (some ENOSPC, l) else (none, l.prepare op kind)
  else (none, l.prepare op kind)

def beginNextRequest (op : ℕ) : Loop := { l with settled := l.settled.filter (· ≠ op) }

def armWakePoll (ans : SqeAnswers) : Option Error × Loop :=
  match l.submitOp wakeOp .wake ans with
  | (none, l) => (none, { l with wakePending := true })
  | (some e, l) => (some e, l)

def requestStop : Loop := { l with state := l.state.requestStop }

def cancelPendingOperations (ans : SqeAnswers) : Option Error × Loop :=
  if l.cancelAllPending || (l.pendingSubmitCount = 0 ∧ l.inflightCount = 0) then (none, l)
  else
    match (l.beginNextRequest cancelAllOp).submitOp cancelAllOp .cancelAll ans with
    | (none, l) => (none, { l with cancelAllPending := true })
    | (some e, l) => (some e, l)

/-! ## Completions -/

def applyDisposition (d : CompletionDisposition) : Option Loop :=
  if d.kernelRequestTerminal && !d.decrementInflight then none
  else if d.decrementInflight then
    if 0 < l.inflight then some { l with inflight := l.inflight - 1, terminals := l.terminals + 1 }
    else none
  else some l

def resumeContinuation (e : Entry) (d : CompletionDisposition) : Loop :=
  if d.resumeContinuation then { l with queues := l.queues.scheduleCompletion e.op } else l

/-- `HandleCqe` up to the handler: the completion `event` of entry `e`. -/
def handleCqe (e : Entry) (event : CompletionEvent) : Option Loop :=
  if e.op = wakeOp then
    (l.applyDisposition ⟨true, true, false⟩).map fun l =>
      -- `DrainWakeFd` and `RunPosted`
      { l with wakeInflight := false, posted := 0, handling := .posted true }
  else if e.op = cancelAllOp then
    some { l with
      cancelAllPending := false, settled := e.op :: l.settled, handling := .dispatching e event }
  else if completionModelFor e.kind = .singleShot then
    -- `TryRecordCqeCompletion`: a settled slot ends the handling
    if e.op ∈ l.settled then some { l with handling := .ignored }
    else some { l with settled := e.op :: l.settled, handling := .dispatching e event }
  else some { l with handling := .dispatching e event }

def onCqeHandled (answers : List (Except Error ℕ)) : Loop :=
  match flushSubmit answers l with
  | (none, l) => { l with queues := { l.queues with turn := .drain 0 } }
  | (some _, l) => l.requestStop

def afterPosted (ans : SqeAnswers) : Loop :=
  if l.state = .running then
    match (l.beginNextRequest wakeOp).armWakePoll ans with
    | (none, l) => l
    | (some _, l) => l.requestStop
  else l

def endCqe (resume : Bool) (arm : SqeAnswers) (answers : List (Except Error ℕ)) : Option Loop :=
  match l.handling with
  | .none => some l
  | .dispatching e event =>
    let d := e.dispatchCompletion event resume
    (l.applyDisposition d).map fun l =>
      { l.resumeContinuation e d with handling := .none }.onCqeHandled answers
  | .posted true => some (({ l with handling := .none }.afterPosted arm).onCqeHandled answers)
  | .posted false => some { l with handling := .none }
  | .ignored => some ({ l with handling := .none }.onCqeHandled answers)

/-! ## The system -/

/-- A callback, a handler or a work of the program runs, or the loop does not run yet. -/
def inUserCode : Bool :=
  l.stage = .created ∨ l.stage = .shutdown ∨ l.stage = .callbacks ∨ l.handling ≠ .none ∨
    l.queues.inUserCode

def atRest : Bool := l.handling = .none ∧ l.queues.turn = .poll

def live : List Entry := l.prepared ++ l.submitted

/-- What a caller of `SubmitOp` knows: the operation is its own and is not live. A deadline cancel
is prepared only while the operation that it cancels is live. -/
def mayPrepare (op : ℕ) (kind : OpKind) : Bool :=
  op ≠ wakeOp ∧ op ≠ cancelAllOp ∧ (∀ e ∈ l.live, e.op ≠ op) ∧
    (isStreamDeadlineCancel kind → ∃ e ∈ l.live, isStreamOperation e.kind)

/-- The steps of the loop, the kernel and other threads. -/
inductive Action where
  | submit (op : ℕ) (kind : OpKind) (ans : SqeAnswers)
  | schedule (work : ℕ)
  | scheduleCompletion (work : ℕ)
  | post
  | requestStop
  | run
  /-- `FlushSubmit` at the beginning of `PollCompletions` and `WaitCompletionsFor`. -/
  | flush (answers : List (Except Error ℕ))
  /-- The completion `event` of the entry at position `i` in the kernel. -/
  | cqe (i : ℕ) (event : CompletionEvent)
  | endCqe (resume : Bool) (arm : SqeAnswers) (answers : List (Except Error ℕ))
  | runReady
  /-- The next work of `RunReady` or `DrainCompletionReady`. -/
  | runNext
  /-- The end of `RunReady` or `DrainCompletionReady`. -/
  | advance
  /-- `Run` leaves its loop and begins the shutdown. -/
  | leave
  | endShutdown
  | cancelPending (ans : SqeAnswers)
  | drained
  /-- `DrainPostedAndClose` takes a batch, or closes; `Run` then publishes `kStopped`. -/
  | takePosted
  | endCallbacks
  | endReady
  deriving Repr

def kernelCompletes (i : ℕ) (e : Entry) (event : CompletionEvent) : Loop :=
  { l with
    submitted := if e.endsWith event then l.submitted.eraseIdx i
      else l.submitted.set i e.continued }

def orAbort (l : Loop) : Option Loop → Loop
  | some l' => l'
  | none => { l with aborted := true }

def step (a : Action) (l : Loop) : Option Loop :=
  if l.aborted then none
  else
    match a with
    | .submit op kind ans =>
      if l.inUserCode && l.mayPrepare op kind then
        some ((l.beginNextRequest op).submitOp op kind ans).2
      else none
    | .schedule work =>
      if l.inUserCode then some { l with queues := l.queues.schedule work } else none
    | .scheduleCompletion work =>
      if l.inUserCode then some { l with queues := l.queues.scheduleCompletion work } else none
    | .post => some (if l.postClosed then l else { l with posted := l.posted + 1 })
    | .requestStop => some l.requestStop
    | .run =>
      if l.stage = .created then
        some { l with
          state := if l.state = .created then .running else l.state
          stage := .running, posted := 0, handling := .posted false }
      else none
    | .flush answers =>
      if l.atRest && (l.stage = .running ∨ l.stage = .draining) then
        match flushSubmit answers l with
        | (none, l) => some l
        | (some _, l) => some (if l.stage = .running then l.requestStop else l)
      else none
    | .cqe i event =>
      match l.submitted[i]? with
      | some e =>
        if l.atRest && (l.stage = .running ∨ l.stage = .draining) && e.expects event then
          some (l.orAbort ((l.kernelCompletes i e event).handleCqe e event))
        else none
      | none => none
    | .endCqe resume arm answers =>
      if l.handling ≠ .none then some (l.orAbort (l.endCqe resume arm answers)) else none
    | .runReady =>
      if l.atRest && (l.stage = .running ∨ l.stage = .draining ∨ l.stage = .readying) then
        some { l with queues := { l.queues with turn := .runReady 0 0 } }
      else none
    | .runNext => l.queues.next.map fun r => { l with queues := r.2 }
    | .advance => l.queues.advance.map fun queues => { l with queues }
    | .leave =>
      if l.atRest && l.stage = .running && l.state ≠ .running then
        some { l with stage := .shutdown }
      else none
    | .endShutdown => if l.stage = .shutdown then some { l with stage := .draining } else none
    | .cancelPending ans =>
      if l.atRest && l.stage = .draining then some (l.cancelPendingOperations ans).2 else none
    | .drained =>
      if l.atRest && l.stage = .draining && l.isDrained then some { l with stage := .closing }
      else none
    | .takePosted =>
      if l.stage = .closing then
        if l.posted = 0 then
          some { l with postClosed := true, state := .stopped, stage := .stopped }
        else some { l with posted := 0, stage := .callbacks }
      else none
    | .endCallbacks => if l.stage = .callbacks then some { l with stage := .readying } else none
    | .endReady =>
      if l.atRest && l.stage = .readying && !l.hasReadyWork then some { l with stage := .closing }
      else none

/-- A loop after `Init`, which has prepared the poll of the wake descriptor. -/
def init : Loop := { ({} : Loop).prepare wakeOp .wake with wakePending := true }

def system : Transition.System Loop Action where
  init l := l = init
  step := step

end Loop

end Alyrn.Uring
