import Mathlib.Tactic.Common

/-!
# The work queues of a uring loop

A loop has two FIFO queues of works. `completionReady` holds what completions and timers have
scheduled, `ready` everything else. The loop alternates between handling completions, each of
which is followed by a bounded drain of the completion queue, and a bounded turn over both queues.

A work is an intrusive node: it stands in at most one place of one queue, and pushing a queued
node changes nothing.
-/

namespace Alyrn.Uring

/-- `kMaxReadyWorkPerTurn` and `kMaxCompletionWorkPerTurn`. -/
def maxReadyWorkPerTurn : ℕ := 256
def maxCompletionWorkPerTurn : ℕ := 64

inductive Turn where
  | poll
  /-- A completion of the timer driver or of the wake descriptor runs callbacks. -/
  | callbacks
  /-- `DrainCompletionReady`, with the works resumed so far. -/
  | drain (resumed : ℕ)
  /-- `RunReady`, with the works and the completion works resumed so far. -/
  | runReady (resumed completionResumed : ℕ)
  deriving DecidableEq, Repr

/-- The two ready queues and the turn of `RunReady`. -/
structure WorkQueues (ω : Type) where
  completionReady : List ω
  ready : List ω
  turn : Turn
  deriving Repr

namespace WorkQueues

variable {ω : Type}

/-- A running loop before its first completion runs the callbacks posted so far. -/
def init : WorkQueues ω := ⟨[], [], .callbacks⟩

variable (q : WorkQueues ω)

/-- Code of the program runs: callbacks, or a coroutine that the loop has resumed. -/
def inUserCode : Bool :=
  match q.turn with
  | .callbacks => true
  | .drain resumed => 0 < resumed
  | .runReady resumed _ => 0 < resumed
  | .poll => false

def next : Option (ω × WorkQueues ω) :=
  match q.turn, q.completionReady, q.ready with
  | .drain resumed, w :: ws, _ =>
    if resumed < maxCompletionWorkPerTurn then
      some (w, { q with completionReady := ws, turn := .drain (resumed + 1) })
    else none
  | .runReady resumed completionResumed, w :: ws, [] =>
    if resumed < maxReadyWorkPerTurn then
      some (w, { q with
        completionReady := ws, turn := .runReady (resumed + 1) (completionResumed + 1) })
    else none
  | .runReady resumed completionResumed, w :: ws, r :: rs =>
    if resumed < maxReadyWorkPerTurn then
      -- completion works come first, but not more than their share while others wait
      if completionResumed < maxCompletionWorkPerTurn then
        some (w, { q with
          completionReady := ws, turn := .runReady (resumed + 1) (completionResumed + 1) })
      else some (r, { q with ready := rs, turn := .runReady (resumed + 1) completionResumed })
    else none
  | .runReady resumed completionResumed, [], r :: rs =>
    if resumed < maxReadyWorkPerTurn then
      some (r, { q with ready := rs, turn := .runReady (resumed + 1) completionResumed })
    else none
  | _, _, _ => none

/-- The end of a completion's handling, or of a turn that has nothing left to run. -/
def advance : Option (WorkQueues ω) :=
  match q.turn with
  | .callbacks => some { q with turn := .drain 0 }
  | .drain _ | .runReady _ _ => if q.next.isNone then some { q with turn := .poll } else none
  | .poll => none

variable [DecidableEq ω]

def linked (w : ω) : Bool := w ∈ q.completionReady ∨ w ∈ q.ready

def schedule (w : ω) : WorkQueues ω := if q.linked w then q else { q with ready := q.ready ++ [w] }

def scheduleCompletion (w : ω) : WorkQueues ω :=
  if q.linked w then q else { q with completionReady := q.completionReady ++ [w] }

end WorkQueues

end Alyrn.Uring
