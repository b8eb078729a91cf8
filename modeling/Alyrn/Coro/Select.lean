import Mathlib.Logic.Function.Basic
import Alyrn.Lib.Transition
import Alyrn.Coro.Channel

/-!
# Channels and Selects on one scheduler

All channels of a scheduler with everything that may wait on them: the awaiters of plain sends and
receives, and the registrations of Selects. A channel keeps its waiters in two queues,
`queues c .send` (`senders_`) and `queues c .receive` (`receivers_`). Completing a registration
cancels the other registrations of its Select, which sit in the queues of any channels.

Everything runs on the owning scheduler: an operation runs to its end before the next one starts,
and a woken waiter is scheduled, never resumed inline. A failed check ends the run.

The histories say what the operations did. A hand-off to a registration that no longer takes part is
counted in `dropped`.
-/

namespace Alyrn.Coro

open Transition Function

/-- The two wait queues of a channel. -/
inductive Direction where
  | send
  | receive
  deriving DecidableEq, Repr

/-- What waits in a queue: a plain awaiter, or a registration of a Select. -/
inductive Waiter where
  | plain (id : ℕ)
  | case (select index : ℕ)
  deriving DecidableEq, Repr

/-- `SendAwaiter` and `ReceiveAwaiter`; only a sender has a value. -/
structure Plain (V : Type) where
  channel : ℕ
  direction : Direction
  value : Option V
  waiting : Bool
  /-- `result_`: the value a receiver got, if any. -/
  result : Option (Option V)
  /-- The value a sender was made with, also after it was taken. -/
  given : Option V := none

/-- A case of a Select. -/
inductive Case (V : Type) where
  | send (channel : ℕ) (value : V)
  | receive (channel : ℕ)
  | default

/-- The flags of a `SelectSendRegistration` or `SelectReceiveRegistration`. -/
structure Registration where
  active : Bool := true
  queued : Bool := false
  valueTaken : Bool := false
  deriving DecidableEq, Repr

/-- The phases of a Select. -/
inductive SelectPhase where
  | arming
  | waiting
  | scheduled
  deriving DecidableEq, Repr

/-- A `SelectAwaiter` with its registrations and its `SelectState`. -/
structure Select (V : Type) where
  cases : List (Case V)
  registrations : ℕ → Registration
  winner : Option ℕ
  phase : SelectPhase
  outputs : ℕ → Option (Option V)

def Select.create {V : Type} (cases : List (Case V)) : Select V where
  cases
  registrations _ := {}
  winner := none
  phase := .arming
  outputs _ := none

/-- What a waiter resumes: a suspended operation or a Select. -/
inductive Continuation where
  | plain (id : ℕ)
  | select (id : ℕ)
  deriving DecidableEq, Repr

/-- The channels, their wait queues and all who may wait in them. -/
structure World (V : Type) where
  channels : ℕ → Channel V
  queues : ℕ → Direction → List Waiter
  plains : ℕ → Plain V
  plainCount : ℕ
  selects : ℕ → Select V
  selectCount : ℕ
  scheduled : List Continuation
  admitted : ℕ → List V
  received : ℕ → List V
  ended : ℕ → Bool
  dropped : ℕ
  aborted : Option Check

namespace World

variable {V : Type} (w : World V)

/-! ## The pieces of a channel -/

def setChannel (c : ℕ) (ch : Channel V) : World V :=
  { w with channels := update w.channels c ch }

def setQueue (c : ℕ) (d : Direction) (q : List Waiter) : World V :=
  { w with queues := update w.queues c (update (w.queues c) d q) }

def setPlain (id : ℕ) (p : Plain V) : World V :=
  { w with plains := update w.plains id p }

def setSelect (sel : ℕ) (s : Select V) : World V :=
  { w with selects := update w.selects sel s }

def setRegistration (sel i : ℕ) (r : Registration) : World V :=
  w.setSelect sel { w.selects sel with
    registrations := update (w.selects sel).registrations i r }

/-- The continuation is queued on its loop. -/
def schedule (k : Continuation) : World V :=
  { w with scheduled := w.scheduled ++ [k] }

/-- History: the channel has admitted `v`. -/
def accept (c : ℕ) (v : V) : World V :=
  { w with admitted := update w.admitted c (w.admitted c ++ [v]) }

/-- History: the channel has handed out `v`. -/
def receipt (c : ℕ) (v : V) : World V :=
  { w with received := update w.received c (w.received c ++ [v]) }

/-- History: a receiver of the channel was told that it is closed. -/
def finish (c : ℕ) : World V := { w with ended := update w.ended c true }

/-- `PushBuffer`: the value's send is admitted. -/
def pushBuffer (c : ℕ) (v : V) : Except Check (World V) :=
  ((w.channels c).pushBuffer v).map fun ch => (w.setChannel c ch).accept c v

def popBuffer (c : ℕ) : Except Check (V × World V) :=
  (w.channels c).popBuffer.map fun (v, ch) => (v, w.setChannel c ch)

/-- `PushBack` on a queue; a waiter that is in a queue of this kind already is refused. -/
def enqueue (c : ℕ) (d : Direction) (s : Waiter) : Except Check (World V) :=
  if s ∈ w.queues c d then .error .queuedTwice else .ok (w.setQueue c d (w.queues c d ++ [s]))

def notQueued : Direction → Check
  | .send => .senderNotQueued
  | .receive => .receiverNotQueued

/-- The waiter's record says that it is no longer queued. -/
def cancelled : Waiter → World V
  | .plain id => w.setPlain id { w.plains id with waiting := false }
  | .case sel i => w.setRegistration sel i
      { (w.selects sel).registrations i with active := false, queued := false }

def cancelWaiter (c : ℕ) (d : Direction) (s : Waiter) : Except Check (World V) :=
  if s ∈ w.queues c d then
    .ok ((w.setQueue c d ((w.queues c d).filter (· ≠ s))).cancelled s)
  else .error (notQueued d)

/-! ## Completing a Select -/

/-- `Cancel()` of a registration; a default case has nothing to cancel. -/
def cancelRegistration (sel i : ℕ) : Except Check (World V) :=
  let r := (w.selects sel).registrations i
  let cancelAt (c : ℕ) (d : Direction) : Except Check (World V) :=
    if r.active = false then .ok w
    else if r.queued then w.cancelWaiter c d (.case sel i)
    else .ok (w.setRegistration sel i { r with active := false })
  match (w.selects sel).cases[i]? with
  | some (.send c _) => cancelAt c .send
  | some (.receive c) => cancelAt c .receive
  | _ => .ok w

def cancelLosers (sel winner : ℕ) : List ℕ → World V → Except Check (World V)
  | [], w => .ok w
  | i :: is, w =>
    if i = winner then cancelLosers sel winner is w
    else (w.cancelRegistration sel i).bind (cancelLosers sel winner is)

/-- A Select that is parked is scheduled; one that still arms goes on by itself. -/
def resumeIfWaiting (sel : ℕ) : World V :=
  if (w.selects sel).phase = .waiting then
    (w.setSelect sel { w.selects sel with phase := .scheduled }).schedule (.select sel)
  else w

/-- What follows a successful `TryWin`: the losers are cancelled and a parked Select is woken. -/
def caseCompleted (sel i : ℕ) : Except Check (World V) :=
  (cancelLosers sel i (List.range (w.selects sel).cases.length) w).map (·.resumeIfWaiting sel)

/-- A registration is completed: `TryWin`, then `effect`, then the rest of the Select. A
registration that is not active, or whose Select has a winner, drops what it was given. -/
def completeCase (sel i : ℕ) (effect : World V → World V) : Except Check (World V) :=
  let s := w.selects sel
  let r := s.registrations i
  if r.active = false then .ok { w with dropped := w.dropped + 1 }
  else
    let w := w.setRegistration sel i { r with active := false, queued := false }
    if s.winner.isSome then .ok { w with dropped := w.dropped + 1 }
    else (effect (w.setSelect sel { w.selects sel with winner := some i })).caseCompleted sel i

/-! ## The waiter interface -/

/-- The value of a queued sender, which is taken once. -/
def takeValue : Waiter → Except Check (V × World V)
  | .plain id =>
    match (w.plains id).value with
    | some v => .ok (v, w.setPlain id { w.plains id with value := none })
    | none => .error .valueTakenTwice
  | .case sel i =>
    let r := (w.selects sel).registrations i
    if r.valueTaken then .error .valueTakenTwice
    else match (w.selects sel).cases[i]? with
      | some (.send _ v) => .ok (v, w.setRegistration sel i { r with valueTaken := true })
      | _ => .error .invalidCase

/-- `Complete`, `CompleteValue` and `CompleteClosed` of a plain awaiter. -/
def completePlain (id : ℕ) (result : Option V) : Except Check (World V) :=
  let p := w.plains id
  if p.waiting = false then .error .notWaiting
  else .ok ((w.setPlain id { p with waiting := false, result := some result }).schedule (.plain id))

/-- The sender's operation succeeds. -/
def complete : Waiter → Except Check (World V)
  | .plain id => w.completePlain id none
  | .case sel i => w.completeCase sel i id

def writeOutput (sel i : ℕ) (v : Option V) (w : World V) : World V :=
  w.setSelect sel { w.selects sel with
    outputs := update (w.selects sel).outputs i (some v) }

/-- The receiver gets `v`. -/
def completeValue (c : ℕ) (r : Waiter) (v : V) : Except Check (World V) :=
  match r with
  | .plain id => (w.receipt c v).completePlain id (some v)
  | .case sel i => w.completeCase sel i fun w => (w.writeOutput sel i (some v)).receipt c v

/-- The receiver learns that the channel is closed. -/
def completeClosed (c : ℕ) (r : Waiter) : Except Check (World V) :=
  match r with
  | .plain id => (w.finish c).completePlain id none
  | .case sel i => w.completeCase sel i fun w => (w.writeOutput sel i none).finish c

/-- `NotifyClosed()` of a sender: a check that fails, unless the registration is out of date. -/
def notifyClosed : Waiter → Except Check (World V)
  | .plain _ => .error .sendOnClosed
  | .case sel i =>
    let s := w.selects sel
    let r := s.registrations i
    if r.active = false then .ok { w with dropped := w.dropped + 1 }
    else if s.winner.isSome then
      .ok { w.setRegistration sel i { r with active := false, queued := false } with
        dropped := w.dropped + 1 }
    else .error .sendOnClosed

/-! ## The operations of a channel -/

/-- A value goes to the receiver `r` without touching the buffer. -/
def handOver (c : ℕ) (r : Waiter) (v : V) : Except Check (World V) :=
  (w.accept c v).completeValue c r v

def trySend (c : ℕ) (v : V) : Except Check (Bool × World V) :=
  if (w.channels c).closed then .error .sendOnClosed
  else match w.queues c .receive with
    | r :: rest => ((w.setQueue c .receive rest).handOver c r v).map (true, ·)
    | [] =>
      if (w.channels c).size = (w.channels c).capacity then .ok (false, w)
      else (w.pushBuffer c v).map (true, ·)

/-- The front of a nonempty buffer; its oldest waiting sender takes the freed place. -/
def receiveBuffered (c : ℕ) : Except Check (V × World V) := do
  let (v, w) ← w.popBuffer c
  match w.queues c .send with
  | [] => .ok (v, w)
  | s :: rest =>
    let (x, w) ← (w.setQueue c .send rest).takeValue s
    let w ← w.pushBuffer c x
    let w ← w.complete s
    .ok (v, w)

/-- `TryReceive`: `none` if the receive would block, else the value or the end of the stream. It is
also how a `ReceiveAwaiter` looks for a value before it suspends. -/
def tryReceive (c : ℕ) : Except Check (Option (Option V) × World V) :=
  if (w.channels c).size ≠ 0 then do
    let (v, w) ← w.receiveBuffered c
    .ok (some (some v), w.receipt c v)
  else match w.queues c .send with
    | s :: rest => do
      let (v, w) ← (w.setQueue c .send rest).takeValue s
      let w ← (w.accept c v).complete s
      .ok (some (some v), w.receipt c v)
    | [] => if (w.channels c).closed then .ok (some none, w.finish c) else .ok (none, w)

def send (c : ℕ) (v : V) : Except Check (World V) := do
  let (sent, w) ← w.trySend c v
  let id := w.plainCount
  let w := { w with plainCount := id + 1 }
  if sent then
    .ok (w.setPlain id
      { channel := c, direction := .send, value := none, waiting := false, result := some none
        given := some v })
  else
    let w := w.setPlain id
      { channel := c, direction := .send, value := some v, waiting := true, result := none
        given := some v }
    w.enqueue c .send (.plain id)

def receive (c : ℕ) : Except Check (World V) := do
  let (got, w) ← w.tryReceive c
  let id := w.plainCount
  let w := { w with plainCount := id + 1 }
  let w := w.setPlain id
    { channel := c, direction := .receive, value := none, waiting := got.isNone, result := got }
  if got.isSome then .ok w else w.enqueue c .receive (.plain id)

def destroyPlain (id : ℕ) : Except Check (World V) :=
  let p := w.plains id
  if p.waiting then w.cancelWaiter p.channel p.direction (.plain id) else .ok w

def closeSenders (c : ℕ) : ℕ → World V → Except Check (World V)
  | 0, w => .ok w
  | n + 1, w =>
    match w.queues c .send with
    | [] => .ok w
    | s :: rest => ((w.setQueue c .send rest).notifyClosed s).bind (closeSenders c n)

def closeReceivers (c : ℕ) : ℕ → World V → Except Check (World V)
  | 0, w => .ok w
  | n + 1, w =>
    match w.queues c .receive with
    | [] => .ok w
    | r :: rest => ((w.setQueue c .receive rest).completeClosed c r).bind (closeReceivers c n)

/-- `Close`. Every turn of its loops takes a waiter out, so that the lengths of the queues bound
their number. -/
def close (c : ℕ) : Except Check (World V) := do
  if (w.channels c).closed then .error .closeOfClosed
  else
    let w := w.setChannel c { w.channels c with closed := true }
    let w ← closeSenders c (w.queues c .send).length w
    if (w.channels c).size ≠ 0 then .ok w
    else closeReceivers c (w.queues c .receive).length w

/-! ## Select -/

/-- The case can be committed at once. -/
def ready : Case V → Bool
  | .send c _ => (w.channels c).closed ∨ w.queues c .receive ≠ [] ∨
      (w.channels c).size ≠ (w.channels c).capacity
  | .receive c => (w.channels c).closed ∨ w.queues c .send ≠ [] ∨ (w.channels c).size ≠ 0
  | .default => false

def readyCases (cases : List (Case V)) : List ℕ :=
  (List.range cases.length).filter fun i => (cases[i]?).any w.ready

def fallback (cases : List (Case V)) : Option ℕ :=
  cases.findIdx? fun | .default => true | _ => false

/-- The ready case that `choice` picks. -/
def chooseReadyCase (cases : List (Case V)) (choice : ℕ) : Option ℕ :=
  (w.readyCases cases)[choice % (w.readyCases cases).length]?

def commitSelectSend (c : ℕ) (s : Waiter) : Except Check (World V) :=
  if (w.channels c).closed then w.notifyClosed s
  else match w.queues c .receive with
    | r :: rest => do
      let (v, w) ← (w.setQueue c .receive rest).takeValue s
      let w ← w.handOver c r v
      w.complete s
    | [] =>
      if (w.channels c).size = (w.channels c).capacity then .error .senderNotReady
      else do
        let (v, w) ← w.takeValue s
        let w ← w.pushBuffer c v
        w.complete s

def commitSelectReceive (c : ℕ) (r : Waiter) : Except Check (World V) :=
  if (w.channels c).size ≠ 0 then do
    let (v, w) ← w.receiveBuffered c
    w.completeValue c r v
  else match w.queues c .send with
    | s :: rest => do
      let (v, w) ← (w.setQueue c .send rest).takeValue s
      let w ← w.handOver c r v
      w.complete s
    | [] => if (w.channels c).closed then w.completeClosed c r else .error .receiverNotReady

/-- A ready case is committed without waiting. -/
def commitCase (sel i : ℕ) : Except Check (World V) :=
  match (w.selects sel).cases[i]? with
  | some (.send c _) => w.commitSelectSend c (.case sel i)
  | some (.receive c) => w.commitSelectReceive c (.case sel i)
  | some .default =>
    if (w.selects sel).winner.isSome then .ok w
    else (w.setSelect sel { w.selects sel with winner := some i }).caseCompleted sel i
  | none => .error .invalidCase

def arm (sel i : ℕ) : Except Check (World V) :=
  let r := (w.selects sel).registrations i
  let armAt (c : ℕ) (d : Direction) : Except Check (World V) :=
    if r.active = false then .error .armedInactive
    else if r.queued then .error .armedTwice
    else if (w.channels c).closed then .error .registeredOnClosed
    else (w.setRegistration sel i { r with queued := true }).enqueue c d (.case sel i)
  match (w.selects sel).cases[i]? with
  | some (.send c _) => armAt c .send
  | some (.receive c) => armAt c .receive
  | _ => .ok w

def armRegistrations (sel : ℕ) : List ℕ → World V → Except Check (World V)
  | [], w => .ok w
  | i :: is, w => (w.arm sel i).bind (armRegistrations sel is)

def markWaiting (sel : ℕ) : Except Check (World V) :=
  if (w.selects sel).phase ≠ .arming then .error .notArming
  else if (w.selects sel).winner.isSome then .error .completedBeforeWaiting
  else .ok (w.setSelect sel { w.selects sel with phase := .waiting })

def select (cases : List (Case V)) (choice : ℕ) : Except Check (World V) :=
  let sel := w.selectCount
  let w := { w with selectCount := sel + 1 }.setSelect sel
    (Select.create cases)
  match w.chooseReadyCase cases choice with
  | some i => w.commitCase sel i
  | none =>
    match fallback cases with
    | some i => w.commitCase sel i
    | none => do
      let w ← armRegistrations sel (List.range cases.length) w
      if (w.selects sel).winner.isSome then .ok w else w.markWaiting sel

def destroyRegistrations (sel : ℕ) : List ℕ → World V → Except Check (World V)
  | [], w => .ok w
  | i :: is, w =>
    let destroyAt (c : ℕ) (d : Direction) : Except Check (World V) :=
      if ((w.selects sel).registrations i).queued then w.cancelWaiter c d (.case sel i) else .ok w
    (match (w.selects sel).cases[i]? with
      | some (.send c _) => destroyAt c .send
      | some (.receive c) => destroyAt c .receive
      | _ => .ok w).bind (destroyRegistrations sel is)

def destroySelect (sel : ℕ) : Except Check (World V) :=
  destroyRegistrations sel (List.range (w.selects sel).cases.length) w

/-! ## Every sequence of operations -/

/-- The calls of the application. -/
inductive Action (V : Type) where
  | trySend (c : ℕ) (v : V)
  | tryReceive (c : ℕ)
  | send (c : ℕ) (v : V)
  | receive (c : ℕ)
  | destroyPlain (id : ℕ)
  | close (c : ℕ)
  | select (cases : List (Case V)) (choice : ℕ)
  | destroySelect (sel : ℕ)

def perform : Action V → Except Check (World V)
  | .trySend c v => (w.trySend c v).map Prod.snd
  | .tryReceive c => (w.tryReceive c).map Prod.snd
  | .send c v => w.send c v
  | .receive c => w.receive c
  | .destroyPlain id => w.destroyPlain id
  | .close c => w.close c
  | .select cases choice => w.select cases choice
  | .destroySelect sel => w.destroySelect sel

def step (a : Action V) (w : World V) : Option (World V) :=
  if w.aborted.isSome then none
  else match w.perform a with
    | .ok w' => some w'
    | .error e => some { w with aborted := some e }

def create (capacity : ℕ → ℕ) : World V where
  channels c := .create (capacity c)
  queues _ _ := []
  plains _ := { channel := 0, direction := .send, value := none, waiting := false, result := none }
  plainCount := 0
  selects _ := .create []
  selectCount := 0
  scheduled := []
  admitted _ := []
  received _ := []
  ended _ := false
  dropped := 0
  aborted := none

def system (V : Type) : System (World V) (Action V) where
  init w := ∃ capacity, w = create capacity
  step := step

end World

end Alyrn.Coro
