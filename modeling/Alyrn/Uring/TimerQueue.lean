import Alyrn.Backend.LoopState
import Alyrn.Detail.TimerIndex
import Alyrn.Lib.Transition
import Alyrn.Result

/-!
# The timer queue of the uring loop

Logical timers live in an ordered index; the loop is woken by at most two kernel timeouts. The
*driver* is armed for the earliest timer. An earlier timer moves it by a timeout *update*, sent
through the control operation. On a kernel that rejects updates the control operation carries a
second timeout instead, the *fallback*.

`driver` and `control` are the kernel's side: a request stays there until its completion is handled.
The kernel applies an update at some moment before it completes, so that the driver may complete
at the new deadline before the update's completion is seen.

`ProcessExpired` is cut into steps, since the callbacks it runs may add and cancel timers: `pop`
takes the next due timer, the calls made by its callback follow, `callbackReturns` ends it, and
`endPass` leaves the loop. Between two entries of the owner loop the phase is `idle`.
-/

namespace Alyrn.Uring

inductive ControlRequest where
  /-- Move the driver to `deadline`; `answer` is the kernel's answer once it has acted. -/
  | update (deadline : ℕ) (answer : Option ℤ)
  | timeout (deadline : ℕ)
  deriving DecidableEq, Repr

/-- Where the expiry of timers stands. -/
inductive TimerPhase where
  | idle
  /-- In `ProcessExpired`, which read the clock as `now`. -/
  | expiring (now : ℕ)
  /-- The callback of `t` is running. -/
  | running (now : ℕ) (t : Detail.Timer)
  deriving DecidableEq, Repr

namespace TimerPhase

/-- The clock reading of the current pass over the expired timers. -/
def pass : TimerPhase → Option ℕ
  | .idle => none
  | .expiring now | .running now _ => some now

/-- The program runs: between two entries of the loop, or in a callback. -/
def inUserCode : TimerPhase → Bool
  | .idle | .running .. => true
  | .expiring _ => false

/-- `processing_timer_`: the repeating timer whose callback is running. -/
def processingTimer : TimerPhase → Option Detail.Timer
  | .running _ t => if t.repeats then some t else none
  | _ => none

end TimerPhase

/-- The timer queue, with its loop's state and the kernel's requests. -/
structure TimerQueue where
  timers : Detail.TimerIndex := .empty
  active : List Detail.Timer := []
  processingTimerCancelled : Bool := false
  driverArmed : Bool := false
  controlPending : Bool := false
  controlIsFallback : Bool := false
  fallbackArmed : Bool := false
  timeoutUpdateSupported : Bool := true
  driverDeadline : ℕ := 0
  requestedDeadline : ℕ := 0
  nextSequence : ℕ := 0
  phase : TimerPhase := .idle
  now : ℕ := 0
  loopState : LoopState := .created
  driver : Option ℕ := none
  control : Option ControlRequest := none
  aborted : Bool := false

namespace TimerQueue

variable (q : TimerQueue)

/-! ## Requests -/

def submitOp (answer : Option Error) : Option Error :=
  if q.loopState.isStopping then some ECANCELED else answer

def arm (deadline : ℕ) (answer : Option Error) : Option Error × TimerQueue :=
  match q.submitOp answer with
  | some e => (some e, q)
  | none => (none, { q with driverArmed := true, driverDeadline := deadline,
                            driver := some deadline })

def armFallback (deadline : ℕ) (answer : Option Error) : Option Error × TimerQueue :=
  match q.submitOp answer with
  | some e => (some e, { q with controlIsFallback := false })
  | none => (none, { q with controlIsFallback := true, controlPending := true,
                            fallbackArmed := true, control := some (.timeout deadline) })

def update (deadline : ℕ) (answer : Option Error) : Option Error × TimerQueue :=
  match q.submitOp answer with
  | some e => (some e, { q with controlIsFallback := false, requestedDeadline := 0 })
  | none => (none, { q with controlIsFallback := false, requestedDeadline := deadline,
                            controlPending := true, control := some (.update deadline none) })

def reconcile (answer : Option Error) : Option Error × TimerQueue :=
  if q.controlPending then (none, q)
  else if !q.driverArmed then
    match q.timers.earliest with
    | some t => q.arm t.expiration answer
    | none => (none, q)
  else
    match q.timers.earliest with
    | some t =>
      if t.expiration < q.driverDeadline then
        if q.timeoutUpdateSupported then q.update t.expiration answer
        else if !q.fallbackArmed then q.armFallback t.expiration answer
        else (none, q)
      else (none, q)
    | none => (none, q)

def reconcileOrStop (answer : Option Error) : TimerQueue :=
  match q.reconcile answer with
  | (none, q) => q
  | (some _, q) => { q with loopState := q.loopState.requestStop }

/-! ## Calls

A result of `none` is a failed check. -/

def link (t : Detail.Timer) : TimerQueue :=
  { q with timers := q.timers.insert t, active := t :: q.active }

def unlink (sequence : ℕ) : TimerQueue :=
  { q with timers := q.timers.filter (·.sequence ≠ sequence)
           active := q.active.filter (·.sequence ≠ sequence) }

def indexed (sequence : ℕ) : Bool := q.timers.toList.any (·.sequence = sequence)

def owned (sequence : ℕ) : Bool := q.active.any (·.sequence = sequence)

def addTimer (deadline interval : ℕ) (answer : Option Error) :
    Option (Except Error ℕ × TimerQueue) :=
  let sequence := q.nextSequence
  let q := { q with nextSequence := q.nextSequence + 1 }
  if q.owned sequence ∨ q.indexed sequence then some (.error EEXIST, q)
  else
    match (q.link ⟨sequence, deadline, interval⟩).reconcile answer with
    | (none, q) => some (.ok sequence, q)
    | (some e, q) => if q.indexed sequence then some (.error e, q.unlink sequence) else none

def addAfter (delay : ℕ) (answer : Option Error) : Option (Except Error ℕ × TimerQueue) :=
  q.addTimer (q.now + delay) 0 answer

def cancel (sequence : ℕ) (answer : Option Error) : Option (Except Error Unit × TimerQueue) :=
  if q.phase.processingTimer.any (·.sequence = sequence) then
    some (.ok (), { q with processingTimerCancelled := true })
  else if !q.owned sequence then some (.error ENOENT, q)
  else if q.indexed sequence then some (.ok (), (q.unlink sequence).reconcileOrStop answer)
  else none

def discardAll : TimerQueue :=
  { q with timers := .empty, active := [], driverArmed := false, controlPending := false,
           controlIsFallback := false, fallbackArmed := false, driverDeadline := 0,
           requestedDeadline := 0 }

/-! ## Completions -/

/-- The common end of the completion handlers: a timeout that expired starts a pass over the due
timers, any other result only reconciles. -/
def afterCompletion (result : ℤ) (answer : Option Error) : TimerQueue :=
  if result = -ETIME then { q with phase := .expiring q.now } else q.reconcileOrStop answer

def handleDriverComplete (result : ℤ) (answer : Option Error) : TimerQueue :=
  { q with driverArmed := false, driverDeadline := 0 }.afterCompletion result answer

def handleControlComplete (result : ℤ) (answer : Option Error) : TimerQueue :=
  let q := { q with controlPending := false }
  if q.controlIsFallback then
    { q with controlIsFallback := false, fallbackArmed := false }.afterCompletion result answer
  else if result = 0 then
    { q with driverDeadline := q.requestedDeadline }.reconcileOrStop answer
  else { q with timeoutUpdateSupported := false }.reconcileOrStop answer

/-- `ProcessExpired` takes a due timer and runs it. -/
def pop (now : ℕ) : Option TimerQueue :=
  match q.timers.earliest with
  | some t =>
    if t.expiration ≤ now then
      if q.owned t.sequence then
        some { q with timers := q.timers.pop
                      active := q.active.filter (·.sequence ≠ t.sequence)
                      processingTimerCancelled := !t.repeats && q.processingTimerCancelled
                      phase := .running now t }
      else none
    else none
  | none => none

def callbackReturns (now : ℕ) (t : Detail.Timer) : Option TimerQueue :=
  let cancelled := q.processingTimerCancelled
  let q := { q with phase := .expiring now }
  if !t.repeats then some q
  else
    let q := { q with processingTimerCancelled := false }
    if cancelled then some q
    else if q.owned t.sequence ∨ q.indexed t.sequence then none
    else some (q.link (t.restart now))

/-! ## The system -/

inductive Action where
  | addTimer (deadline interval : ℕ) (answer : Option Error)
  | addAfter (delay : ℕ) (answer : Option Error)
  | cancel (sequence : ℕ) (answer : Option Error)
  | driverCqe (result : ℤ) (answer : Option Error)
  | controlCqe (result : ℤ) (answer : Option Error)
  | kernelUpdates (result : ℤ)
  | pop
  | callbackReturns
  | endPass (answer : Option Error)
  | discardAll
  /-- A timer of another loop takes a sequence number. -/
  | timerElsewhere
  | advanceClock (d : ℕ)
  | run
  | requestStop
  deriving Repr

def orAbort (q : TimerQueue) : Option TimerQueue → TimerQueue
  | some q' => q'
  | none => { q with aborted := true }

/-- A timeout expires at its deadline, not before; other results come at any time. -/
def mayComplete (deadline : ℕ) (result : ℤ) : Bool := result ≠ -ETIME || deadline ≤ q.now

def passDone (now : ℕ) : Bool := q.timers.earliest.all (now < ·.expiration)

def step (a : Action) (q : TimerQueue) : Option TimerQueue :=
  if q.aborted then none
  else
    match a with
    | .addTimer deadline interval answer =>
      if q.phase.inUserCode then some (q.orAbort ((q.addTimer deadline interval answer).map (·.2)))
      else none
    | .addAfter delay answer =>
      if q.phase.inUserCode then some (q.orAbort ((q.addAfter delay answer).map (·.2))) else none
    | .cancel sequence answer =>
      if q.phase.inUserCode then some (q.orAbort ((q.cancel sequence answer).map (·.2))) else none
    | .driverCqe result answer =>
      match q.phase, q.driver with
      | .idle, some deadline =>
        if q.mayComplete deadline result then
          some ({ q with driver := none }.handleDriverComplete result answer)
        else none
      | _, _ => none
    | .controlCqe result answer =>
      match q.phase, q.control with
      | .idle, some (.timeout deadline) =>
        if q.mayComplete deadline result then
          some ({ q with control := none }.handleControlComplete result answer)
        else none
      | .idle, some (.update _ (some given)) =>
        if given = result then some ({ q with control := none }.handleControlComplete result answer)
        else none
      | _, _ => none
    | .kernelUpdates result =>
      match q.control with
      | some (.update deadline none) =>
        if result = 0 then
          if q.driver.isSome then
            some { q with control := some (.update deadline (some 0)), driver := some deadline }
          else none
        else some { q with control := some (.update deadline (some result)) }
      | _ => none
    | .pop =>
      match q.phase with
      | .expiring now => if q.passDone now then none else some (q.orAbort (q.pop now))
      | _ => none
    | .callbackReturns =>
      match q.phase with
      | .running now t => some (q.orAbort (q.callbackReturns now t))
      | _ => none
    | .endPass answer =>
      match q.phase with
      | .expiring now =>
        if q.passDone now then some ({ q with phase := .idle }.reconcileOrStop answer) else none
      | _ => none
    | .discardAll =>
      if q.phase = .idle ∧ q.loopState.isStopping ∧ q.driver = none ∧ q.control = none then
        some q.discardAll
      else none
    | .timerElsewhere => some { q with nextSequence := q.nextSequence + 1 }
    | .advanceClock d => some { q with now := q.now + d }
    | .run => if q.loopState = .created then some { q with loopState := .running } else none
    | .requestStop => some { q with loopState := q.loopState.requestStop }

/-- A new queue at time `now`, when `sequence` timers have been made in the process. -/
def make (now sequence : ℕ) : TimerQueue := { now, nextSequence := sequence }

def system : Transition.System TimerQueue Action where
  init q := ∃ now sequence, q = make now sequence
  step := step

end TimerQueue

end Alyrn.Uring
