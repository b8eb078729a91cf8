import Mathlib.Logic.Function.Basic
import Alyrn.Lib.Transition

/-!
# Dispatch in the epoll loop

`Loop::Run` polls, collects the addresses of the ready channels in `active_channels_`, and calls
`HandleEventUnchecked` on each of them. The callbacks that run in between are arbitrary code of the
owner thread: timer callbacks run inside the dispatch of the timer descriptor, posted callbacks
inside the dispatch of the wakeup descriptor. What they can do to channels are the calls of `Op`.

`objects` is the memory: which channel lives at an address. `channels` is the poller's map, `epoll`
the kernel's interest list with its `data.ptr`. A descriptor belongs to one resource, so that no
second channel is attached to a descriptor that has one, and a channel is not destroyed while it
is registered.
-/

namespace Alyrn.Epoll

open Function

/-- `ChannelState`: what the poller keeps in a channel's `index_`. -/
inductive ChannelState where
  | new
  | added
  | deleted
  deriving DecidableEq, Repr

/-- A set of epoll events. -/
structure Events where
  read : Bool := false
  write : Bool := false
  error : Bool := false
  hup : Bool := false
  deriving DecidableEq, Repr

def Events.none : Events := {}

/-- A `Channel` object. -/
structure Channel where
  /-- A moved-from channel has no descriptor. -/
  fd : Option ℕ
  events : Events := .none
  revents : Events := .none
  index : ChannelState := .new
  deriving DecidableEq, Repr

def Channel.isNoneEvent (c : Channel) : Bool := c.events = .none

/-- Where the loop thread stands. -/
inductive DispatchPhase where
  /-- In `DoPendingWork`, or outside `Run`. -/
  | working
  /-- In the loop over `active_channels_`, between two channels. -/
  | dispatching
  | handling (address : ℕ)
  deriving DecidableEq, Repr

def DispatchPhase.inUserCode : DispatchPhase → Bool
  | .working | .handling _ => true
  | .dispatching => false

/-- The channels by address, the poller's map and the kernel's. -/
structure Loop where
  objects : ℕ → Option Channel := fun _ => none
  channels : ℕ → Option ℕ := fun _ => none
  epoll : ℕ → Option ℕ := fun _ => none
  active : List ℕ := []
  phase : DispatchPhase := .working
  /-- The calls of `HandleEventUnchecked` so far: the address, and whether the poller had the
  channel at that moment. -/
  invoked : List (ℕ × Bool) := []
  aborted : Bool := false

namespace Loop

variable (l : Loop)

def hasChannel (address : ℕ) : Bool :=
  (l.objects address).any fun c => c.fd.any fun fd => l.channels fd = some address

def setObject (address : ℕ) (c : Channel) : Loop :=
  { l with objects := update l.objects address (some c) }

/-! ## The poller

`epoll_ctl` fails, and with it a check, if `ADD` finds the descriptor or the others do not. -/

def ctlAdd (fd address : ℕ) : Option Loop :=
  if (l.epoll fd).isSome then none
  else some { l with epoll := update l.epoll fd (some address) }

def ctlDel (fd : ℕ) : Option Loop :=
  if (l.epoll fd).isSome then some { l with epoll := update l.epoll fd none } else none

def updateChannel (address fd : ℕ) (c : Channel) : Option Loop :=
  match c.index with
  | .new =>
    ({ l with channels := update l.channels fd (some address) }.setObject address
      { c with index := .added }).ctlAdd fd address
  | .deleted => (l.setObject address { c with index := .added }).ctlAdd fd address
  | .added =>
    if c.isNoneEvent then (l.setObject address { c with index := .deleted }).ctlDel fd
    else if (l.epoll fd).isSome then some (l.setObject address c)
    else none

def removeChannel (address fd : ℕ) (c : Channel) : Option Loop :=
  let l := { l with channels := update l.channels fd none }.setObject address
    { c with index := .new }
  if c.index = .added then l.ctlDel fd else some l

/-! ## Channel calls -/

/-- `EnableReading`, `DisableWriting`, `DisableAll` and so on: a new set of events, and `Update`. -/
def setEvents (address fd : ℕ) (c : Channel) (events : Events) : Option Loop :=
  l.updateChannel address fd { c with events }

def remove (address fd : ℕ) (c : Channel) : Option Loop :=
  if c.isNoneEvent then l.removeChannel address fd c else none

/-- `DetachChannel` of a stream, a listener, a source, a connect or the wakeup channel. -/
def detachChannel (address fd : ℕ) (c : Channel) : Option Loop := do
  let l ← if c.isNoneEvent then some l else l.setEvents address fd c .none
  if l.hasChannel address then (l.objects address).bind (l.remove address fd ·) else some l

/-- The move of a channel to `target`. -/
def move (address target : ℕ) (c : Channel) : Option Loop :=
  if c.index = .new then some ((l.setObject target c).setObject address { fd := none }) else none

/-! ## The system -/

/-- What user code does to a channel. -/
inductive Op where
  | create (fd : ℕ)
  | setEvents (events : Events)
  | remove
  | detach
  | move (target : ℕ)
  | destroy
  deriving DecidableEq, Repr

inductive Action where
  /-- `epoll_wait` reports the descriptors with their events. -/
  | poll (ready : List (ℕ × Events))
  | dispatch
  | handled
  | endRound
  | user (address : ℕ) (op : Op)
  deriving Repr

def orAbort (l : Loop) : Option Loop → Loop
  | some l' => l'
  | none => { l with aborted := true }

/-- A call of the owner's code; `none` if the code does not make it. -/
def user (address : ℕ) (op : Op) : Option Loop :=
  match op with
  | .create fd =>
    if (l.objects address).isNone then some (l.setObject address { fd := some fd }) else none
  | .destroy =>
    if (l.objects address).isSome ∧ l.hasChannel address = false then
      some { l with objects := update l.objects address none }
    else none
  | .setEvents events => do
    let c ← l.objects address
    let fd ← c.fd
    -- a descriptor has one channel
    if c.index = .new ∧ (l.channels fd).isSome then none
    else some (l.orAbort (l.setEvents address fd c events))
  | .remove => do
    let c ← l.objects address
    let fd ← c.fd
    if l.hasChannel address then some (l.orAbort (l.remove address fd c)) else none
  | .detach => do
    let c ← l.objects address
    let fd ← c.fd
    if c.index = .new ∧ c.isNoneEvent = false then none
    else some (l.orAbort (l.detachChannel address fd c))
  | .move target => do
    let c ← l.objects address
    if target ≠ address ∧ (l.objects target).all (·.index = .new) then
      some (l.orAbort (l.move address target c))
    else none

/-- `FillActiveChannels`, for the next descriptor. -/
def fillActive (l : Loop) (fd : ℕ) (revents : Events) : Option Loop := do
  let address ← l.epoll fd
  let c ← l.objects address
  some { l.setObject address { c with revents } with active := l.active ++ [address] }

def poll : List (ℕ × Events) → Loop → Option Loop
  | [], l => some l
  | (fd, revents) :: ready, l => (l.fillActive fd revents).bind (poll ready)

def step (a : Action) (l : Loop) : Option Loop :=
  if l.aborted then none
  else
    match a with
    | .poll ready =>
      if l.phase = .working then poll ready { l with active := [], phase := .dispatching } else none
    | .dispatch =>
      match l.phase, l.active with
      | .dispatching, address :: rest =>
        some { l with active := rest, phase := .handling address
                      invoked := l.invoked ++ [(address, l.hasChannel address)] }
      | _, _ => none
    | .handled =>
      match l.phase with
      | .handling _ => some { l with phase := .dispatching }
      | _ => none
    | .endRound =>
      if l.phase = .dispatching ∧ l.active = [] then some { l with phase := .working } else none
    | .user address op => if l.phase.inUserCode then l.user address op else none

def system : Transition.System Loop Action where
  init l := l = {}
  step := step

end Loop

end Alyrn.Epoll
