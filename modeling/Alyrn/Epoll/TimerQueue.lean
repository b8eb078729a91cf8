import Alyrn.Detail.TimerIndex
import Alyrn.Lib.Transition

/-!
# The timer queue of the epoll loop

Timers are registered by their sequence in `active_timers_` and ordered by their expiration in
`timers_`. One timerfd is set for the earliest of them; when it becomes readable the loop calls
`HandleRead`, which runs the callbacks of the timers that are due.

`HandleRead` is cut into steps, since the callbacks it runs may add and cancel timers: `handleRead`,
for each timer `pop` and `callbackReturns`, and `endRead`. The loop may call `HandleRead` although
the timerfd has been set anew since it was polled.

Times are in nanoseconds. The timerfd itself does not fail.
-/

namespace Alyrn.Epoll

/-- Where `AddTimer` throws when memory is short. -/
inductive AddTimerThrow where
  | acquire
  | emplace
  deriving DecidableEq, Repr

/-- The queue, its timerfd and the round under way. -/
structure TimerQueue where
  timers : Detail.TimerIndex := .empty
  activeTimers : List Detail.Timer := []
  processingTimer : Option Detail.Timer := none
  processingTimerCancelled : Bool := false
  timerfd : Option ℕ := none
  nextSequence : ℕ := 0
  /-- `now` of the `HandleRead` under way. -/
  round : Option ℕ := none
  now : ℕ := 0
  destroyed : Bool := false
  aborted : Bool := false

namespace TimerQueue

variable (q : TimerQueue)

/-- `SetTimerfd` works in microseconds, and waits for 100 of them at least. -/
def resetTimerfd (expiration : ℕ) : TimerQueue :=
  { q with timerfd := some (q.now + max ((expiration - q.now) / 1000) 100 * 1000) }

/-- A timerfd that has expired is disarmed by the read. -/
def readTimerfd : TimerQueue := { q with timerfd := q.timerfd.filter (q.now < ·) }

/-- Sets the timerfd for the earliest timer, if there is one. -/
def resetToEarliest : TimerQueue :=
  match q.timers.earliest with
  | some t => q.resetTimerfd t.expiration
  | none => q

/-- The timer with this sequence is linked into the index. -/
def indexed (sequence : ℕ) : Bool := q.timers.toList.any (·.sequence = sequence)

def active (sequence : ℕ) : Bool := q.activeTimers.any (·.sequence = sequence)

/-- Takes the timer with this sequence out of the index and of `active_timers_`. -/
def unlink (sequence : ℕ) : TimerQueue :=
  { q with timers := q.timers.filter (·.sequence ≠ sequence)
           activeTimers := q.activeTimers.filter (·.sequence ≠ sequence) }

/-! ## Calls

A result of `none` is a failed check. -/

/-- Returns the new timer's id, or nothing when it throws. -/
def addTimer (when_ interval : ℕ) (throws : Option AddTimerThrow) :
    Option (Option ℕ × TimerQueue) :=
  if throws = some .acquire then some (none, q)
  else
    let t : Detail.Timer := ⟨q.nextSequence, when_, interval⟩
    let earliestChanged := q.timers.earliest.all (t.expiration < ·.expiration)
    let q := { q with nextSequence := q.nextSequence + 1 }
    if q.indexed t.sequence then none
    else
      let q := { q with timers := q.timers.insert t }
      -- nothing takes the timer out of the index again
      if throws = some .emplace then some (none, q)
      else if q.active t.sequence then none
      else
        let q := { q with activeTimers := t :: q.activeTimers }
        some (some t.sequence, if earliestChanged then q.resetTimerfd t.expiration else q)

def cancel (sequence : ℕ) : Option TimerQueue :=
  if q.active sequence then
    let earliestRemoved := q.timers.earliest.any (·.sequence = sequence)
    if q.indexed sequence then
      let q := q.unlink sequence
      some (if earliestRemoved then q.resetToEarliest else q)
    else none
  else if q.processingTimer.any (·.sequence = sequence) then
    some { q with processingTimerCancelled := true }
  else some q

/-! ## Expiry -/

def handleRead : TimerQueue := { q with round := some q.now }.readTimerfd

/-- `HandleRead` takes a due timer and starts its callback. -/
def pop (now : ℕ) : Option TimerQueue :=
  match q.timers.earliest with
  | some t =>
    if t.expiration ≤ now then
      if q.active t.sequence then
        some { q with timers := q.timers.pop
                      activeTimers := q.activeTimers.filter (·.sequence ≠ t.sequence)
                      processingTimer := some t
                      processingTimerCancelled := false }
      else none
    else none
  | none => none

def callbackReturns (now : ℕ) (t : Detail.Timer) : Option TimerQueue :=
  let cancelled := q.processingTimerCancelled
  let q := { q with processingTimer := none, processingTimerCancelled := false }
  if t.repeats && !cancelled then
    let t := t.restart now
    if q.indexed t.sequence ∨ q.active t.sequence then none
    else some { q with timers := q.timers.insert t, activeTimers := t :: q.activeTimers }
  else some q

def endRead : TimerQueue := { q with round := none }.resetToEarliest

def destroy : Option TimerQueue :=
  q.timers.toList.foldlM
    (fun q t => if q.active t.sequence then some (q.unlink t.sequence) else none)
    { q with destroyed := true }

/-! ## The system -/

inductive Action where
  | addTimer (when_ interval : ℕ) (throws : Option AddTimerThrow)
  | cancel (sequence : ℕ)
  | handleRead
  | pop
  | callbackReturns
  | endRead
  | destroy
  /-- A timer of another loop takes a sequence number. -/
  | timerElsewhere
  | advanceClock (d : ℕ)
  deriving Repr

def orAbort (q : TimerQueue) : Option TimerQueue → TimerQueue
  | some q' => q'
  | none => { q with aborted := true }

/-- The program runs: outside `HandleRead`, or in a callback. -/
def inUserCode : Bool := q.round.isNone || q.processingTimer.isSome

/-- No timer is due in the round. -/
def roundDone (now : ℕ) : Bool := q.timers.earliest.all (now < ·.expiration)

def step (a : Action) (q : TimerQueue) : Option TimerQueue :=
  if q.aborted || q.destroyed then none
  else
    match a with
    | .addTimer when_ interval throws =>
      if q.inUserCode then some (q.orAbort ((q.addTimer when_ interval throws).map (·.2))) else none
    | .cancel sequence => if q.inUserCode then some (q.orAbort (q.cancel sequence)) else none
    | .handleRead => if q.round.isNone then some q.handleRead else none
    | .pop =>
      match q.round, q.processingTimer with
      | some now, none => if q.roundDone now then none else some (q.orAbort (q.pop now))
      | _, _ => none
    | .callbackReturns =>
      match q.round, q.processingTimer with
      | some now, some t => some (q.orAbort (q.callbackReturns now t))
      | _, _ => none
    | .endRead =>
      match q.round, q.processingTimer with
      | some now, none => if q.roundDone now then some q.endRead else none
      | _, _ => none
    | .destroy => if q.round.isNone then some (q.orAbort q.destroy) else none
    | .timerElsewhere => some { q with nextSequence := q.nextSequence + 1 }
    | .advanceClock d => some { q with now := q.now + d }

/-- A new queue at time `now`, when `sequence` timers have been made in the process. -/
def make (now sequence : ℕ) : TimerQueue := { now, nextSequence := sequence }

def system : Transition.System TimerQueue Action where
  init q := ∃ now sequence, q = make now sequence
  step := step

end TimerQueue

end Alyrn.Epoll
