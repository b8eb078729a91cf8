import Alyrn.Lib.Transition

/-!
# The state shared by a spawned root and its join handle

`SpawnState` stands inside the frame of the spawned root coroutine. Two parties use it at the same
time: the root, which stores its result and finishes, and the owner of the join handle, which polls,
waits, parks a waiter, and at last releases the handle. Whoever comes last destroys the frame.

Both parties are sequential; `Root` and `Owner` say what each does next, and one step of the system
is one atomic access of one of them, sequentially consistent. Each access to the state is marked by
`touch`: an access after the destruction of the frame is a `fault`.

The owner consumes the result at most once, by `Wait` or by `co_await`, and releases the handle by
`Detach`, by its destructor or by an assignment. `ResultSlot<void>` is the slot at `Unit`.
-/

namespace Alyrn.Coro

/-- The phase word of the shared state. -/
inductive Phase where
  | runningJoinable
  | waiterParked
  | runningDetached
  | finished
  | completedWaiterScheduled
  deriving DecidableEq, Repr

/-- Where the spawned task stands. -/
inductive Root where
  /-- The task runs; the next access is `StoreResult`. -/
  | body
  | finish
  /-- `notify_one`, after `kFinished` was published. -/
  | notify
  /-- The store of `kCompletedWaiterScheduled`. -/
  | publish
  | loadScheduler
  | schedule
  | clear
  | destroy
  | done
  deriving DecidableEq, Repr

/-- Where the holder of the join handle stands. -/
inductive Owner where
  | holding
  | waitLoad
  | waitCompare
  | waitBlocked
  | waitTake
  | joinReady
  /-- `TryParkWaiter` writes the scheduler and the waiter. -/
  | parkPrepare
  | parkExchange
  | parkUndo
  /-- Suspended until the waiter's work is run. -/
  | parked
  | joinTake
  /-- The compare-exchange of `ReleaseHandle`. -/
  | releasing
  | destroying
  | gone
  deriving DecidableEq, Repr

/-- The state shared by a spawned task and its join handle. -/
structure SpawnState (α : Type) where
  phase : Phase := .runningJoinable
  /-- The value of the engaged `ResultSlot`. -/
  result : Option α := none
  waiterScheduler : Bool := false
  waiterHandle : Bool := false
  rootHandle : Bool := true
  root : Root := .body
  owner : Owner := .holding
  consumed : Bool := false
  /-- `waiter_resume_` stands in the queue of its scheduler. -/
  queued : Bool := false
  /-- How often a waiter was parked, and how often one was scheduled. -/
  parks : ℕ := 0
  scheduled : ℕ := 0
  taken : List α := []
  destroyed : ℕ := 0
  /-- The state was accessed after its frame had been destroyed. -/
  fault : Bool := false
  aborted : Bool := false
  deriving Repr

namespace SpawnState

variable {α : Type} (s : SpawnState α)

/-- An access to the frame, a fault once the frame is destroyed. -/
def touch : SpawnState α := { s with fault := s.fault || 0 < s.destroyed }

def abort : SpawnState α := { s with aborted := true }

def destroyFrame : SpawnState α := { s with destroyed := s.destroyed + 1 }

/-! ## The root -/

def storeResult (value : α) : SpawnState α :=
  let s := s.touch
  if s.result.isSome then s.abort else { s with result := some value, root := .finish }

/-- The next access of `Finish` and `SpawnFinalAwaiter::await_suspend`. -/
def rootStep : Option (SpawnState α) :=
  let t := s.touch
  match s.root with
  | .body | .done => none
  | .finish =>
    match s.phase with
    | .runningJoinable => some { t with phase := .finished, root := .notify }
    | .waiterParked => some { t with root := .publish }
    | .runningDetached => some { t with root := .clear }
    | .finished | .completedWaiterScheduled => some t.abort
  | .notify =>
    let owner := if s.owner = .waitBlocked then .waitCompare else s.owner
    some { t with owner, root := .done }
  | .publish => some { t with phase := .completedWaiterScheduled, root := .loadScheduler }
  | .loadScheduler => some (if s.waiterScheduler then { t with root := .schedule } else t.abort)
  | .schedule => some { t with queued := true, scheduled := s.scheduled + 1, root := .done }
  | .clear => some { t with rootHandle := false, root := .destroy }
  | .destroy => some { t.destroyFrame with root := .done }

/-! ## The owner -/

def takeResult : SpawnState α :=
  match s.result with
  | some value => { s with taken := s.taken ++ [value], owner := .holding }
  | none => s.abort

/-- The next access of the join handle's holder. -/
def ownerStep : Option (SpawnState α) :=
  let t := s.touch
  match s.owner with
  | .holding | .waitBlocked | .gone => none
  | .waitLoad =>
    match s.phase with
    | .runningJoinable => some { t with owner := .waitCompare }
    | .finished => some { t with owner := .waitTake }
    | _ => some t.abort
  | .waitCompare =>
    some { t with owner := if s.phase = .runningJoinable then .waitBlocked else .waitLoad }
  | .waitTake | .joinTake => some t.takeResult
  | .joinReady =>
    some { t with owner := if s.phase = .finished then .joinTake else .parkPrepare }
  | .parkPrepare =>
    some { t with waiterScheduler := true, waiterHandle := true, owner := .parkExchange }
  | .parkExchange =>
    match s.phase with
    | .runningJoinable =>
      some { t with phase := .waiterParked, parks := s.parks + 1, owner := .parked }
    | _ => some { t with owner := .parkUndo }
  | .parkUndo => some { t with waiterScheduler := false, waiterHandle := false, owner := .joinTake }
  | .parked =>
    -- the scheduler runs the waiter's work, which reads the handle in the state
    if s.queued then
      some (if s.waiterHandle then { t with queued := false, owner := .joinTake } else t.abort)
    else none
  | .releasing =>
    match s.phase with
    | .runningJoinable => some { t with phase := .runningDetached, owner := .gone }
    | .finished | .completedWaiterScheduled => some { t with owner := .destroying }
    | .waiterParked | .runningDetached => some t.abort
  | .destroying =>
    some (if s.rootHandle then { t.destroyFrame with rootHandle := false, owner := .gone }
      else t.abort)

/-! ## The system -/

/-- One access by the root or the owner, or a call of the owner. -/
inductive Action (α : Type) where
  | returns (value : α)
  | root
  | owner
  | poll
  | wait
  | join
  | release
  | wake
  deriving Repr

def step (a : Action α) (s : SpawnState α) : Option (SpawnState α) :=
  if s.fault || s.aborted then none
  else
    match a with
    | .returns value => if s.root = .body then some (s.storeResult value) else none
    | .root => s.rootStep
    | .owner => s.ownerStep
    | .poll => if s.owner = .holding then some s.touch else none
    | .wait =>
      if s.owner = .holding ∧ !s.consumed then some { s with consumed := true, owner := .waitLoad }
      else none
    | .join =>
      if s.owner = .holding ∧ !s.consumed then some { s with consumed := true, owner := .joinReady }
      else none
    | .release => if s.owner = .holding then some { s with owner := .releasing } else none
    | .wake => if s.owner = .waitBlocked then some { s with owner := .waitCompare } else none

def system (α : Type) : Transition.System (SpawnState α) (Action α) where
  init s := s = {}
  step := step

end SpawnState

end Alyrn.Coro
