import Alyrn.Runtime.Drain
import Alyrn.Runtime.Worker

/-!
# WorkerGroup

A runtime with its worker threads: `RuntimeControl` takes the steps of its own module, the body of
`workers->Start()` is written out here, and every worker thread takes its own steps in between.

`WorkerGroup::Start` creates the workers one after the other and waits for each to publish its
start. An error or an exception makes it stop the group: all workers are asked to stop, then all
are joined, then the group is emptied. What `RuntimeControl` asks of its group it asks of every
worker. Workers that were joined and destroyed are kept in `retired`.
-/

namespace Alyrn.Runtime

open Transition

/-- The parts of a call of the control thread that concern the worker group. -/
inductive Phase where
  | elsewhere
  | group
  | abort
  | commit
  | joining
  | finishing
  deriving DecidableEq, Repr

def ControlPc.phase : ControlPc → Phase
  | .groupStart _ => .group
  | .startAbort _ _ => .abort
  | .startCommit _ => .commit
  | .join _ => .joining
  | .finish _ => .finishing
  | _ => .elsewhere

/-- Where the control thread is inside `WorkerGroup::Start`; `stop` and `join` are the two parts
of its `Stop()`, with the failure that is reported afterwards. -/
inductive GroupPc where
  | idle
  | create
  | wait
  | stop (failure : RuntimeControl.GroupStart)
  | join (failure : RuntimeControl.GroupStart)
  deriving DecidableEq, Repr

/-- What an allocation or the creation of a worker thread does: memory may run out before the
group owns the worker, and `std::jthread` may throw afterwards. -/
inductive Creation where
  | ok
  | noMemory
  | noThread
  deriving DecidableEq, Repr

/-- The runtime with its worker group. -/
structure Host where
  control : RuntimeControl
  group : GroupPc
  workerStarted : List Bool
  workers : List Worker
  /-- The started workers of the groups that were destroyed. -/
  retired : List Worker
  threads : ℕ

namespace Host

def create : Host where
  control := .create
  group := .idle
  workerStarted := []
  workers := []
  retired := []
  threads := 0

variable (b : Backend) (cfg : Config) (hooks : Hooks)

def ask : WorkerCall → Worker → Worker
  | .requestDrain, w => w.requestDrain
  | .requestStop _, w => w.stop

/-- The workers after the calls that the control has newly made. -/
def asked (s : Host) (c : RuntimeControl) : List Worker :=
  (c.log.drop s.control.log.length).foldl (fun ws call => ws.map (ask call)) s.workers

/-- A step of `RuntimeControl`, with what it does to the workers: `Join()` between its two
critical sections, and the destructor of the group after the last one. -/
def follow (s : Host) (c : RuntimeControl) : Host :=
  let ws := s.asked c
  match s.control.pc.phase, c.pc.phase with
  | .joining, .finishing => { s with control := c, workers := ws.map Worker.join }
  | .finishing, .elsewhere =>
    { s with control := c, workers := [], retired := s.retired ++ ws.map Worker.stop }
  | _, _ => { s with control := c, workers := ws }

def allOver (s : Host) : Bool := s.workers.all Worker.gone

/-- `workers->Start()` returns to `RuntimeControl::Start`. -/
def groupReturns (o : RuntimeControl.GroupStart) (s : Host) : Option Host :=
  (RuntimeControl.control cfg o s.control).map fun c => { s with control := c, group := .idle }

/-- The next step of `RuntimeControl::Start` from the allocation of the flags to the return of
`WorkerGroup::Start`. -/
def groupStep (o : Creation) (s : Host) : Option Host :=
  match s.group with
  | .idle =>
    if o = .ok then
      some { s with workerStarted := List.replicate cfg.workerCount false, group := .create }
    else s.groupReturns cfg .threw
  | .create =>
    let i := s.workers.length
    if i = (groupOptions cfg).workerNum then s.groupReturns cfg .ok
    else match o with
      | .ok => some { s with
          workers := s.workers ++ [.create b i], group := .wait, threads := s.threads + 1 }
      | .noMemory => some { s with group := .stop .threw }
      | .noThread => some { s with
          workers := s.workers ++ [.threadless b i], group := .stop .threw }
  | .wait =>
    -- `Worker::Start` waits until its thread has published the result or is asked to stop
    match s.workers.getLast? with
    | none => none
    | some w =>
      match w.published with
      | some none => some { s with group := .create }
      | some (some e) => some { s with group := .stop (.failed e) }
      | none => if w.stopRequested then some { s with group := .stop (.failed ECANCELED) } else none
  | .stop failure => some { s with workers := s.workers.map Worker.stop, group := .join failure }
  | .join failure =>
    if s.allOver then
      groupReturns cfg failure { s with
        workers := []
        retired := s.retired ++ (s.workers.filter Worker.started).map Worker.join }
    else none

inductive Action where
  | control (a : RuntimeControl.Action)
  | group (o : Creation)
  | worker (i : ℕ) (a : WorkerAction)
  deriving DecidableEq, Repr

/-- The control thread takes its own steps outside `workers->Start()`, and its workers have
exited only when all of them have. -/
def controlEnabled (s : Host) : RuntimeControl.Action → Bool
  | .control _ => s.control.pc.phase ≠ .group
  | .workersExit => s.allOver
  | _ => true

def step (a : Action) (s : Host) : Option Host :=
  match a with
  | .control a =>
    if s.controlEnabled a then (RuntimeControl.step cfg a s.control).map s.follow else none
  | .group o => if s.control.pc.phase = .group then s.groupStep b cfg o else none
  | .worker i a =>
    match s.workers[i]? with
    | none => none
    | some w => (w.step b hooks a s.workerStarted).map fun (flags, w) =>
        { s with workerStarted := flags, workers := s.workers.set i w }

def system : System Host Action where
  init s := s = create
  step := step b cfg hooks

end Host

/-! ## What the control does, as its group sees it -/

namespace RuntimeControl

variable {cfg : Config} {c c' : RuntimeControl}

/-- Nothing that concerns the group changes, except for the state and the phase. -/
structure Keeps (c c' : RuntimeControl) : Prop where
  log : c'.log = c.log
  exited : c'.exited = c.exited
  workers : c'.workers = c.workers

theorem Keeps.trans {c'' : RuntimeControl} (h : Keeps c c') (h' : Keeps c' c'') : Keeps c c'' :=
  ⟨h'.log.trans h.log, h'.exited.trans h.exited, h'.workers.trans h.workers⟩

/-- The steps of the control thread, as the group sees them. -/
inductive Advances (c c' : RuntimeControl) : Prop where
  | stays (h : Keeps c c') (state : c'.state = c.state) (phase : c'.pc.phase = c.pc.phase)
  | starts (h : Keeps c c') (was : c.state = .created) (pos : c.pc.phase = .elsewhere)
      (state : c'.state = .starting) (phase : c'.pc.phase = .group)
  | aborts (h : Keeps c c') (pos : c.pc.phase = .abort) (state : c'.state = .created)
      (phase : c'.pc.phase = .elsewhere)
  | commits (log : c'.log = c.log) (exited : c'.exited = c.exited) (pos : c.pc.phase = .commit)
      (state : c'.state = .running) (phase : c'.pc.phase = .elsewhere)
  /-- One call on every worker, which begins the stop or cuts the drain short. -/
  | asks (call : WorkerCall) (log : c'.log = c.log ++ [call]) (exited : c'.exited = c.exited)
      (workers : c'.workers = c.workers) (was : c.state = .running ∨ c.state = .draining)
      (state : c'.state = .draining ∨ c'.state = .stopping)
      (phase : c'.pc.phase = c.pc.phase ∨ c.pc.phase = .elsewhere ∧ c'.pc.phase = .joining)
  | joins (h : Keeps c c') (was : c.state = .draining ∨ c.state = .stopping)
      (pos : c.pc.phase = .elsewhere) (state : c'.state = c.state) (phase : c'.pc.phase = .joining)
  | joined (h : Keeps c c') (gone : c.exited = true) (pos : c.pc.phase = .joining)
      (state : c'.state = c.state) (phase : c'.pc.phase = .finishing)
  | finishes (log : c'.log = c.log) (exited : c'.exited = c.exited) (workers : c'.workers = none)
      (pos : c.pc.phase = .finishing) (state : c'.state = .stopped)
      (phase : c'.pc.phase = .elsewhere)

theorem Advances.congr (h : Advances c c') {d : RuntimeControl} (hk : Keeps c' d)
    (hs : d.state = c'.state) (hp : d.pc.phase = c'.pc.phase) : Advances c d := by
  cases h with
  | stays h state phase =>
    exact .stays (h.trans hk) (hs.trans state) (hp.trans phase)
  | starts h was pos state phase =>
    exact .starts (h.trans hk) was pos (hs.trans state) (hp.trans phase)
  | aborts h pos state phase =>
    exact .aborts (h.trans hk) pos (hs.trans state) (hp.trans phase)
  | commits log exited pos state phase =>
    exact .commits (hk.log.trans log) (hk.exited.trans exited) pos (hs.trans state) (hp.trans phase)
  | asks call log exited workers was state phase =>
    exact .asks call (hk.log.trans log) (hk.exited.trans exited) (hk.workers.trans workers) was
      (by rw [hs]; exact state) (by rw [hp]; exact phase)
  | joins h was pos state phase =>
    exact .joins (h.trans hk) was pos (hs.trans state) (hp.trans phase)
  | joined h gone pos state phase =>
    exact .joined (h.trans hk) gone pos (hs.trans state) (hp.trans phase)
  | finishes log exited workers pos state phase =>
    exact .finishes (hk.log.trans log) (hk.exited.trans exited) (hk.workers.trans workers) pos
      (hs.trans state) (hp.trans phase)

theorem Advances.requestStopLocked (hk : Keeps c c') (hs : c'.state = c.state)
    (hp : c'.pc.phase = c.pc.phase) : Advances c (requestStopLocked cfg c') := by
  unfold RuntimeControl.requestStopLocked
  cases hst : c'.state with
  | running =>
    unfold beginStopLocked
    split_ifs
    · exact .asks .requestDrain (congrArg (· ++ [_]) hk.log) hk.exited hk.workers
        (.inl (hs.symm.trans hst)) (.inl rfl) (.inl hp)
    · exact .asks (.requestStop c'.state) (congrArg (· ++ [_]) hk.log) hk.exited hk.workers
        (.inl (hs.symm.trans hst)) (.inr rfl) (.inl hp)
  | draining =>
    exact .asks (.requestStop .draining) (congrArg (· ++ [_]) hk.log) hk.exited hk.workers
      (.inr (hs.symm.trans hst)) (.inr rfl) (.inl hp)
  | created | starting | stopping | stopped => exact .stays hk hs hp

theorem Advances.startLocked (run fresh : Bool) (hpc : c.pc = .idle) :
    Advances c (startLocked cfg run fresh c) := by
  unfold RuntimeControl.startLocked
  split_ifs with hs
  · exact .stays ⟨rfl, rfl, rfl⟩ rfl rfl
  · exact .stays ⟨rfl, rfl, rfl⟩ rfl rfl
  all_goals exact .starts ⟨rfl, rfl, rfl⟩ (not_not.mp hs) (by rw [hpc]; rfl) rfl rfl

theorem Advances.stopLocked {run : Bool} (hpc : c.pc = .stopLock run) :
    Advances c (stopLocked cfg run c) := by
  have hp : c.pc.phase = .elsewhere := by rw [hpc]; rfl
  unfold RuntimeControl.stopLocked
  by_cases hs : c.state = .created ∨ c.state = .stopped ∨ c.state = .starting ∨ c.joining = true
  · rw [if_pos hs]
    exact .stays ⟨rfl, rfl, rfl⟩ rfl hp.symm
  rw [if_neg hs]
  by_cases hr : c.state = .running
  · dsimp only
    rw [if_pos hr]
    unfold beginStopLocked
    split_ifs
    · exact .asks .requestDrain rfl rfl rfl (.inl hr) (.inl rfl) (.inr ⟨hp, rfl⟩)
    · exact .asks (.requestStop c.state) rfl rfl rfl (.inl hr) (.inr rfl) (.inr ⟨hp, rfl⟩)
  · dsimp only
    rw [if_neg hr]
    refine .joins ⟨rfl, rfl, rfl⟩ ?_ hp rfl rfl
    cases hst : c.state with
    | draining => exact .inl rfl
    | stopping => exact .inr rfl
    | created | starting | running | stopped => simp [hst] at hs hr

theorem advances_of_control {o : GroupStart} (hp : c.pc.phase ≠ .group)
    (h : control cfg o c = some c') : Advances c c' := by
  unfold control at h
  cases hpc : c.pc with
  | idle => rw [hpc] at h; cases h
  | groupStart run => rw [hpc] at hp; exact absurd rfl hp
  | startAbort run e =>
    rw [hpc] at h
    cases h
    exact .aborts ⟨rfl, rfl, rfl⟩ (by rw [hpc]; rfl) rfl rfl
  | startCommit run =>
    rw [hpc] at h
    cases h
    exact .commits rfl rfl (by rw [hpc]; rfl) rfl rfl
  | startLoad run =>
    rw [hpc] at h
    dsimp only at h
    split_ifs at h
    · cases h
      exact .stays ⟨rfl, rfl, rfl⟩ rfl (by rw [hpc]; rfl)
    · cases h
      unfold afterStart
      split_ifs <;> exact .stays ⟨rfl, rfl, rfl⟩ rfl (by rw [hpc]; rfl)
  | replayStore run | callbackStore =>
    rw [hpc] at h
    cases h
    exact .stays ⟨rfl, rfl, rfl⟩ rfl (by rw [hpc]; rfl)
  | replayLock run =>
    rw [hpc] at h
    cases h
    have hadv : Advances c (requestStopLocked cfg c) := .requestStopLocked ⟨rfl, rfl, rfl⟩ rfl rfl
    have hsame := requestStopLocked_pc cfg c
    unfold afterStart
    split_ifs <;> exact hadv.congr ⟨rfl, rfl, rfl⟩ rfl (by rw [hsame, hpc]; rfl)
  | register =>
    rw [hpc] at h
    cases ht : c.token <;> rw [ht] at h <;> cases h <;>
      exact .stays ⟨rfl, rfl, rfl⟩ rfl (by rw [hpc]; rfl)
  | callbackLock =>
    rw [hpc] at h
    cases h
    have hadv : Advances c (requestStopLocked cfg c) := .requestStopLocked ⟨rfl, rfl, rfl⟩ rfl rfl
    exact hadv.congr ⟨rfl, rfl, rfl⟩ rfl (by rw [requestStopLocked_pc cfg c, hpc]; rfl)
  | waitForStop =>
    rw [hpc] at h
    obtain ⟨-, rfl⟩ := of_guard h
    exact .stays ⟨rfl, rfl, rfl⟩ rfl (by rw [hpc]; rfl)
  | stopLock run =>
    rw [hpc] at h
    cases h
    exact .stopLocked hpc
  | join run =>
    rw [hpc] at h
    obtain ⟨he, rfl⟩ := of_guard h
    exact .joined ⟨rfl, rfl, rfl⟩ he (by rw [hpc]; rfl) rfl rfl
  | finish run =>
    rw [hpc] at h
    cases h
    exact .finishes rfl rfl rfl (by rw [hpc]; rfl) rfl rfl

/-- **Every step of a control is one of these**, the answers of `workers->Start()` and the exit of
the workers apart. -/
theorem advances_of_step {a : Action} (hp : ∀ o, a = .control o → c.pc.phase ≠ .group)
    (hx : a ≠ .workersExit) (h : step cfg a c = some c') : Advances c c' := by
  unfold step at h
  cases a with
  | start | run fresh =>
    obtain ⟨hpc, rfl⟩ := of_guard h
    exact .startLocked _ _ hpc
  | stop =>
    obtain ⟨hpc, rfl⟩ := of_guard h
    exact .stays ⟨rfl, rfl, rfl⟩ rfl (by rw [hpc]; rfl)
  | control o => exact advances_of_control (hp o rfl) h
  | requestStop =>
    cases h
    exact .stays ⟨rfl, rfl, rfl⟩ rfl rfl
  | requestToken =>
    cases ht : c.token <;> rw [ht] at h <;> cases h <;> exact .stays ⟨rfl, rfl, rfl⟩ rfl rfl
  | store i =>
    obtain ⟨-, rfl⟩ := of_guard h
    exact .stays ⟨rfl, rfl, rfl⟩ rfl rfl
  | lock i =>
    obtain ⟨-, rfl⟩ := of_guard h
    exact .requestStopLocked ⟨rfl, rfl, rfl⟩ rfl rfl
  | workersExit => exact absurd rfl hx

end RuntimeControl

end Alyrn.Runtime
