import Alyrn.Lib.Transition
import Alyrn.Result

/-!
# RuntimeControl

The lifecycle of a runtime: `Start`, `Run`, `Stop` and `RequestStop` over the lifecycle mutex and
the atomic `stop_requested_`. The epoll and the uring class have the same text except for the
accept mode they give their workers, which the lifecycle does not read.

One control thread runs `Start()`, `Run()` and `Stop()` in any order; any number of other threads
call `RequestStop()` or request a stop through the token given to `Run()`. Every mutex critical
section and every atomic load or store is one step, so a `RequestStop()` is two steps: it
publishes the flag (`store`), then takes the lock (`lock`).
-/

namespace Alyrn.Runtime

open Transition

/-- The states of a runtime. -/
inductive LifecycleState where
  | created
  | starting
  | running
  | draining
  | stopping
  | stopped
  deriving DecidableEq, Repr

/-- What the builder gives a `RuntimeControl`, as far as the lifecycle reads it. -/
structure Config where
  workerCount : ℕ
  hasConnectionHandler : Bool
  shutdownGrace : ℤ
  deriving DecidableEq, Repr

/-- The options that `Start` gives its worker group, as far as the group reads them. -/
structure WorkerGroupOptions where
  workerNum : ℕ
  shutdownGrace : ℤ
  deriving DecidableEq, Repr

def groupOptions (cfg : Config) : WorkerGroupOptions where
  workerNum := cfg.workerCount
  shutdownGrace := cfg.shutdownGrace

/-- The calls a `RuntimeControl` makes on its worker group, with the lifecycle state in which an
immediate stop was asked for. -/
inductive WorkerCall where
  | requestDrain
  | requestStop (atState : LifecycleState)
  deriving DecidableEq, Repr

/-- Where the control thread is; `run` tells whether `Run()` made the call. -/
inductive ControlPc where
  | idle
  /-- `workers->Start()` is running. -/
  | groupStart (run : Bool)
  /-- The group failed to start; the lock that goes back to `created` is next. -/
  | startAbort (run : Bool) (error : Error)
  /-- The lock that publishes the group is next. -/
  | startCommit (run : Bool)
  /-- The load of the flag at the end of `Start` is next. -/
  | startLoad (run : Bool)
  /-- `Start` replays a recorded request: the two halves of its own `RequestStop()`. -/
  | replayStore (run : Bool)
  | replayLock (run : Bool)
  /-- `Run` constructs its stop callback. -/
  | register
  /-- The callback runs inside its own construction, the token being already stopped. -/
  | callbackStore
  | callbackLock
  | waitForStop
  | stopLock (run : Bool)
  | join (run : Bool)
  | finish (run : Bool)
  deriving DecidableEq, Repr

/-- The stop token given to `Run()`: not requested, requested before a callback was registered,
with a registered callback, or with its callback started. -/
inductive Token where
  | quiet
  | pending
  | registered
  | fired
  deriving DecidableEq, Repr

/-- An external `RequestStop()` under way: called, or with the flag published and the lock still
to be taken. -/
inductive CallPc where
  | called
  | published
  deriving DecidableEq, Repr

/-- The runtime's state, the control thread's position and the stop requests. -/
structure RuntimeControl where
  state : LifecycleState
  stopRequested : Bool
  joining : Bool
  workers : Option WorkerGroupOptions
  pc : ControlPc
  token : Token
  /-- The external `RequestStop()` calls under way, those of the token's callback included. -/
  calls : List CallPc
  /-- Every worker thread has exited, so that joining them returns. -/
  exited : Bool
  log : List WorkerCall
  /-- External stop requests made so far: `RequestStop()`, the token, or `Stop()`. -/
  requests : ℕ
  /-- What the last finished call of the control thread returned. -/
  result : Option (Except Error Unit)

def RuntimeControl.create : RuntimeControl where
  state := .created
  stopRequested := false
  joining := false
  workers := none
  pc := .idle
  token := .quiet
  calls := []
  exited := false
  log := []
  requests := 0
  result := none

namespace RuntimeControl

variable (cfg : Config)

def beginStopLocked (s : RuntimeControl) : RuntimeControl :=
  if 0 < cfg.shutdownGrace then
    { s with state := .draining, log := s.log ++ [.requestDrain] }
  else
    { s with state := .stopping, log := s.log ++ [.requestStop s.state] }

def requestStopLocked (s : RuntimeControl) : RuntimeControl :=
  match s.state with
  | .running => beginStopLocked cfg s
  | .draining =>
    -- a second request cuts the grace period short
    { s with state := .stopping, log := s.log ++ [.requestStop .draining] }
  | _ => s

/-- The first critical section of `Start`; `run` tells whether `Run()` called it, `fresh` whether
that `Run()` brings a token of its own. -/
def startLocked (run fresh : Bool) (s : RuntimeControl) : RuntimeControl :=
  if s.state ≠ .created then
    { s with result := some (.error EALREADY) }
  else if cfg.workerCount = 0 ∨ cfg.hasConnectionHandler = false then
    { s with result := some (.error EINVAL) }
  else
    { s with
      stopRequested := false
      state := .starting
      token := if fresh then .quiet else s.token
      pc := .groupStart run }

/-- What follows `Start`: `Run` goes on, a plain `Start()` returns. -/
def afterStart (run : Bool) (s : RuntimeControl) : RuntimeControl :=
  if run then { s with pc := .register } else { s with pc := .idle, result := some (.ok ()) }

/-- What follows `Stop`: `Run` destroys its stop callback; both return. -/
def afterStop (run : Bool) (s : RuntimeControl) : RuntimeControl :=
  { s with
    pc := .idle
    token := if run ∧ s.token = .registered then .quiet else s.token
    result := some (.ok ()) }

def stopLocked (run : Bool) (s : RuntimeControl) : RuntimeControl :=
  if s.state = .created ∨ s.state = .stopped ∨ s.state = .starting ∨ s.joining = true then
    afterStop run s
  else
    let s' : RuntimeControl := { s with stopRequested := true }
    let s' := if s'.state = .running then beginStopLocked cfg s' else s'
    { s' with joining := true, pc := .join run }

/-- How the start of the worker group ends. -/
inductive GroupStart where
  | ok
  | failed (error : Error)
  | threw
  deriving DecidableEq, Repr

/-- The next atomic step of the control thread; blocked steps have no successor. -/
def control (o : GroupStart) (s : RuntimeControl) : Option RuntimeControl :=
  match s.pc with
  | .idle => none
  | .groupStart run =>
    match o with
    | .ok => some { s with pc := .startCommit run }
    | .failed e => some { s with pc := .startAbort run e }
    -- the exception leaves `Start` with the state still at `starting`
    | .threw => some { s with pc := .idle, result := none }
  | .startAbort _ e =>
    some { s with
      stopRequested := false, state := .created, pc := .idle, result := some (.error e) }
  | .startCommit run =>
    some { s with
      workers := some (groupOptions cfg), state := .running, pc := .startLoad run }
  | .startLoad run =>
    if s.stopRequested then some { s with pc := .replayStore run } else some (afterStart run s)
  | .replayStore run => some { s with stopRequested := true, pc := .replayLock run }
  | .replayLock run => some (afterStart run (requestStopLocked cfg s))
  | .register =>
    match s.token with
    | .quiet => some { s with token := .registered, pc := .waitForStop }
    | .registered => none
    | _ => some { s with token := .fired, pc := .callbackStore }
  | .callbackStore => some { s with stopRequested := true, pc := .callbackLock }
  | .callbackLock => some { requestStopLocked cfg s with pc := .waitForStop }
  | .waitForStop => if s.stopRequested then some { s with pc := .stopLock true } else none
  | .stopLock run => some (stopLocked cfg run s)
  | .join run => if s.exited then some { s with pc := .finish run } else none
  | .finish run =>
    some (afterStop run { s with workers := none, joining := false, state := .stopped })

inductive Action where
  /-- The control thread calls `Start()`, `Run()` or `Stop()`. -/
  | start
  | run (fresh : Bool)
  | stop
  | control (o : GroupStart)
  /-- Another thread calls `RequestStop()`, or requests a stop through the token. -/
  | requestStop
  | requestToken
  /-- The external call at position `i` publishes the flag, or takes the lock. -/
  | store (i : ℕ)
  | lock (i : ℕ)
  /-- The workers, asked to drain or to stop, have all exited. -/
  | workersExit
  deriving DecidableEq, Repr

def step (a : Action) (s : RuntimeControl) : Option RuntimeControl :=
  match a with
  | .start => if s.pc = .idle then some (startLocked cfg false false s) else none
  | .run fresh => if s.pc = .idle then some (startLocked cfg true fresh s) else none
  | .stop =>
    if s.pc = .idle then
      some { s with pc := .stopLock false, requests := s.requests + 1 }
    else none
  | .control o => control cfg o s
  | .requestStop =>
    some { s with calls := s.calls ++ [.called], requests := s.requests + 1 }
  | .requestToken =>
    match s.token with
    | .quiet => some { s with token := .pending, requests := s.requests + 1 }
    | .registered =>
      -- the callback runs on the requesting thread
      some { s with
        token := .fired, calls := s.calls ++ [.called], requests := s.requests + 1 }
    | _ => none
  | .store i =>
    if s.calls[i]? = some .called then
      some { s with stopRequested := true, calls := s.calls.set i .published }
    else none
  | .lock i =>
    if s.calls[i]? = some .published then
      some (requestStopLocked cfg { s with calls := s.calls.eraseIdx i })
    else none
  | .workersExit => if s.log ≠ [] then some { s with exited := true } else none

def system : System RuntimeControl Action where
  init s := s = create
  step := step cfg

end RuntimeControl

end Alyrn.Runtime
