import Mathlib.Data.List.Basic
import Alyrn.Backend.LoopState
import Alyrn.Lib.Transition
import Alyrn.Result

/-!
# Posting to a loop

`Loop::Post` of both backends: a queue under a mutex, an eventfd that the post which finds the queue
empty signals, and the owner thread, which drains the eventfd and then takes the whole queue.

The atomic steps are those of the code: the critical section of a post, its write to the eventfd,
the owner's drain of the eventfd, its critical section that takes the queue, and each callback.

The two backends differ in three places. The uring loop has no wake descriptor before `Init`, and
therefore takes the queue once when `Run` begins. It watches the descriptor by a one-shot poll,
which it arms again after each wakeup while it runs. And it still handles wakeups while it drains
its stopped operations.
-/

namespace Alyrn.Backend

/-- The backend of the loop. -/
inductive Kind where
  | epoll
  | uring
  deriving DecidableEq, Repr

/-- The parts of `Run`. -/
inductive Place where
  | main
  /-- `BeginShutdown` and the draining of operations or pending work. -/
  | shutdown
  | closing
  deriving DecidableEq, Repr

/-- Where the owner thread stands. -/
inductive Control where
  | created
  /-- Outside the posted callbacks; in `closing`, about to enter the critical section. -/
  | at (place : Place)
  /-- About to take the queue; `rearm` if the wake poll is to be armed afterwards. -/
  | take (rearm : Bool) (place : Place)
  | batch (rearm : Bool) (place : Place)
  /-- The queue is closed, `kStopped` is not published yet. -/
  | closed
  | stopped
  deriving DecidableEq, Repr

/-- Where `Run` begins: the uring loop takes what was posted before `Init`. -/
def Kind.entry : Kind → Control
  | .epoll => .at .main
  | .uring => .take false .main

/-- The wake poll has to be armed again after each wakeup. -/
def Kind.oneShot : Kind → Bool
  | .epoll => false
  | .uring => true

/-- The owner is about to take the queue. -/
def Control.taking : Control → Bool
  | .take .. => true
  | _ => false

/-- The mailbox of a loop. Callbacks are numbered in the order of their `Post` calls. -/
structure Mailbox where
  kind : Kind
  state : LoopState := .created
  control : Control := .created
  fdOpen : Bool
  armed : Bool
  signalled : Bool := false
  closed : Bool := false
  posted : List ℕ := []
  batch : List ℕ := []
  posts : ℕ := 0
  /-- The posts that have found the queue empty and are about to signal. -/
  posters : List ℕ := []
  stoppers : ℕ := 0
  accepted : List ℕ := []
  rejected : List ℕ := []
  ran : List ℕ := []
  deriving Repr

namespace Mailbox

variable (s : Mailbox)

/-- The critical section of `Post`. -/
def post : Mailbox :=
  let n := s.posts
  let s := { s with posts := n + 1 }
  if s.closed then { s with rejected := s.rejected ++ [n] }
  else
    { s with posters := if s.posted.isEmpty then n :: s.posters else s.posters
             posted := s.posted ++ [n]
             accepted := s.accepted ++ [n] }

/-- `Wake`: the write to the eventfd, if there is one. -/
def wake : Mailbox := { s with signalled := s.signalled || s.fdOpen }

def requestStop : Mailbox :=
  if s.state = .created ∨ s.state = .running then
    { s with state := .stopping, stoppers := s.stoppers + 1 }
  else s

/-- The critical section in which the owner takes the posted callbacks. -/
def swap : Mailbox := { s with batch := s.posted, posted := [] }

/-- `Run` begins: an uninitialised uring loop returns at once, and a loop that has run does not run
again. -/
def run : Option Mailbox :=
  if s.fdOpen ∧ (s.state = .created ∨ s.state = .stopping) then
    some { s with state := if s.state = .created then .running else s.state
                  control := s.kind.entry }
  else none

def drainWakeup (place : Place) : Mailbox :=
  { s with signalled := false, armed := s.armed && !s.kind.oneShot
           control := .take s.kind.oneShot place }

def batchDone (rearm : Bool) (place : Place) (answer : Option Error) : Mailbox :=
  let s := { s with control := .at place }
  if rearm ∧ s.state = .running then
    match answer with
    | none => { s with armed := true }
    | some _ => s.requestStop
  else s

/-- The steps of the posters, of a stopping thread and of the owner. -/
inductive Action where
  | post
  | signal (n : ℕ)
  | requestStop
  | stopSignal
  | init
  | run
  | wakeup
  | take
  | callback
  | batchDone (answer : Option Error)
  | leave
  | drainPostedAndClose
  | close
  | publishStopped
  deriving Repr

def step (a : Action) (s : Mailbox) : Option Mailbox :=
  match a with
  | .post => some s.post
  | .signal n => if n ∈ s.posters then some { s.wake with posters := s.posters.erase n } else none
  | .requestStop => some s.requestStop
  | .stopSignal => if 0 < s.stoppers then some { s.wake with stoppers := s.stoppers - 1 } else none
  | .init =>
    if s.control = .created ∧ s.fdOpen = false then some { s with fdOpen := true, armed := true }
    else none
  | .run => if s.control = .created then s.run else none
  | .wakeup =>
    match s.control with
    | .at .main => if s.armed then some (s.drainWakeup .main) else none
    | .at .shutdown => if s.armed ∧ s.kind = .uring then some (s.drainWakeup .shutdown) else none
    | _ => none
  | .take =>
    match s.control with
    | .take rearm place => some { s.swap with control := .batch rearm place }
    | _ => none
  | .callback =>
    match s.control, s.batch with
    | .batch _ _, c :: rest => some { s with ran := s.ran ++ [c], batch := rest }
    | _, _ => none
  | .batchDone answer =>
    match s.control, s.batch with
    | .batch rearm place, [] => some (s.batchDone rearm place answer)
    | _, _ => none
  | .leave =>
    if s.control = .at .main ∧ s.state ≠ .running then some { s with control := .at .shutdown }
    else none
  | .drainPostedAndClose =>
    if s.control = .at .shutdown then some { s with control := .at .closing } else none
  | .close =>
    if s.control = .at .closing then
      if s.posted.isEmpty then some { s with closed := true, control := .closed }
      else some { s.swap with control := .batch false .closing }
    else none
  | .publishStopped =>
    if s.control = .closed then some { s with state := .stopped, control := .stopped } else none

/-- A new loop: the epoll loop has its wake descriptor from the start. -/
def make : Kind → Mailbox
  | .epoll => { kind := .epoll, fdOpen := true, armed := true }
  | .uring => { kind := .uring, fdOpen := false, armed := false }

def system (kind : Kind) : Transition.System Mailbox Action where
  init s := s = make kind
  step := step

end Mailbox

end Alyrn.Backend
