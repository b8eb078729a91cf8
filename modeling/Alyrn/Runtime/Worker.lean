import Mathlib.Tactic.Common
import Alyrn.Backend.LoopState
import Alyrn.Runtime.Control

/-!
# Worker

One worker thread of a runtime, `Worker::WorkLoop`, with the callbacks that `RuntimeControl`
wraps around the hooks of the application: the start hook marks its worker in `worker_started_`,
and the stop hook runs on marked workers only, unless there is no start hook.

A loop counts what it still has to do in `work`: operations in the kernel, queued continuations
and posted callbacks. `Run` returns when a stop was requested and none of it is left.

`Worker.Ok` says what a worker owes: once its thread is past the exit callback, the stop hook has
run on the drained loop exactly if it had to (`Worker.owed`).
-/

namespace Alyrn.Runtime

/-- Which hooks are set. -/
structure Hooks where
  start : Bool
  stop : Bool
  deriving DecidableEq, Repr

/-- How a start hook ends. -/
inductive HookOutcome where
  | ok
  | error (e : Error)
  | threw
  deriving DecidableEq, Repr

inductive Backend where
  | epoll
  | uring
  deriving DecidableEq, Repr

/-- The steps of a worker's setup. -/
inductive Setup where
  | affinity
  | loopInit
  | listener
  | connector
  deriving DecidableEq, Repr

/-- The set-up of `WorkLoop`. An epoll loop is ready once it is constructed, and only uring
workers are pinned to a CPU. -/
def setups : Backend → List Setup
  | .epoll => [.listener, .connector]
  | .uring => [.affinity, .loopInit, .listener, .connector]

/-- Where the worker's thread stands. -/
inductive WorkerPc where
  | unstarted
  | setup (rest : List Setup)
  | init
  /-- `PublishStart` is next, with the error of the start if it failed. -/
  | publish (failure : Option Error)
  | run
  | looping
  | draining
  | closeListener
  | exitCallback
  /-- The work that the exit callback scheduled runs. -/
  | runPending
  | exited
  deriving DecidableEq, Repr

/-- A worker, with a record of its hooks. -/
structure Worker where
  index : ℕ
  pc : WorkerPc
  /-- The stop token of `thread_`. -/
  stopRequested : Bool
  drainRequested : Bool
  /-- `start_result_`, once `init_done_` is set. -/
  published : Option (Option Error)
  loop : LoopState
  work : ℕ
  draining : Bool
  joined : Bool
  /-- How the start hook ended on this worker, if it ran. -/
  startHook : Option HookOutcome
  reachedLoop : Bool
  /-- The loop's state and its work at each run of the stop hook. -/
  stopHooks : List (LoopState × ℕ)
  deriving DecidableEq, Repr

/-- The steps of the worker's thread and of its loop. -/
inductive WorkerAction where
  | setup (failure : Option Error)
  | init (outcome : HookOutcome) (scheduled : ℕ)
  | publish
  | run
  /-- A turn of the loop leaves `work` behind. -/
  | turn (work : ℕ)
  /-- Something on the loop calls `RequestStop()`: a failed wait, or the end of a grace period. -/
  | requestStop
  /-- The posted `BeginDrain`; `live` tells whether a connection is left. -/
  | beginDrain (live : Bool)
  | leave
  | drain (work : ℕ)
  | drained
  | closeListener
  | exitCallback (scheduled : ℕ)
  | runPending (work : ℕ)
  deriving DecidableEq, Repr

namespace Worker

def create (b : Backend) (index : ℕ) : Worker where
  index
  pc := .setup (setups b)
  stopRequested := false
  drainRequested := false
  published := none
  loop := .created
  work := 0
  draining := false
  joined := false
  startHook := none
  reachedLoop := false
  stopHooks := []

def threadless (b : Backend) (index : ℕ) : Worker := { create b index with pc := .unstarted }

def started (w : Worker) : Bool := w.pc ≠ .unstarted

def gone (w : Worker) : Bool := w.pc = .exited ∨ w.pc = .unstarted

/-- `Stop()`. A worker that never started has no stop state; inside `Run` the request reaches the
loop at once. -/
def stop (w : Worker) : Worker :=
  if w.pc = .unstarted then w
  else
    { w with
      stopRequested := true
      loop := if w.pc = .looping then w.loop.requestStop else w.loop }

def requestDrain (w : Worker) : Worker := { w with drainRequested := true }

def join (w : Worker) : Worker := if w.pc = .unstarted then w else { w with joined := true }

/-- The init callback around the start hook, and what follows from its result. `flags` is
`worker_started_`. -/
def initCallback (hooks : Hooks) (outcome : HookOutcome) (scheduled : ℕ) (flags : List Bool)
    (w : Worker) : List Bool × Worker :=
  if hooks.start then
    let w := { w with startHook := some outcome, work := scheduled }
    match outcome with
    | .ok => (flags.set w.index true, { w with pc := .publish none })
    | .error e => (flags, { w with loop := w.loop.requestStop, pc := .publish (some e) })
    | .threw => (flags, { w with loop := w.loop.requestStop, pc := .publish (some EFAULT) })
  else (flags, { w with work := scheduled, pc := .publish none })

/-- The test of the exit callback around the stop hook. -/
def runsStopHook (hooks : Hooks) (flags : List Bool) (w : Worker) : Bool :=
  hooks.stop && (!hooks.start || flags.getD w.index false)

/-- The next step of a worker thread; a step that is not next has no successor. -/
def step (b : Backend) (hooks : Hooks) (a : WorkerAction) (flags : List Bool) (w : Worker) :
    Option (List Bool × Worker) :=
  match a, w.pc with
  | .setup (some e), .setup (_ :: _) =>
    -- the error is published and the thread returns
    some (flags, { w with published := some (some e), pc := .exited })
  | .setup none, .setup (_ :: rest) =>
    some (flags, { w with pc := if rest = [] then .init else .setup rest })
  | .init outcome scheduled, .init => some (w.initCallback hooks outcome scheduled flags)
  | .publish, .publish failure => some (flags, { w with published := some failure, pc := .run })
  | .run, .run =>
    let loop := if w.loop = .created then .running else w.loop
    some (flags, { w with
      loop := if w.stopRequested then loop.requestStop else loop
      reachedLoop := true
      pc := .looping })
  | .turn work, .looping => if w.loop = .running then some (flags, { w with work }) else none
  | .requestStop, .looping => some (flags, { w with loop := w.loop.requestStop })
  | .beginDrain live, .looping =>
    if w.drainRequested = true ∧ w.draining = false ∧ w.loop = .running then
      some (flags, { w with
        draining := true
        loop := if live then w.loop else w.loop.requestStop })
    else none
  | .leave, .looping => if w.loop = .running then none else some (flags, { w with pc := .draining })
  | .drain work, .draining => if w.work = 0 then none else some (flags, { w with work })
  | .drained, .draining =>
    if w.work = 0 then
      some (flags, { w with
        loop := .stopped
        pc := match b with
          | .epoll => .exitCallback
          | .uring => .closeListener })
    else none
  -- the listener's own `Close` leaves nothing pending on a drained loop
  | .closeListener, .closeListener => some (flags, { w with pc := .exitCallback })
  | .exitCallback scheduled, .exitCallback =>
    some (flags, { w with
      stopHooks := if w.runsStopHook hooks flags then w.stopHooks ++ [(w.loop, w.work)]
        else w.stopHooks
      work := if hooks.stop then scheduled else w.work
      pc := .runPending })
  | .runPending work, .runPending =>
    some (flags, if w.work = 0 then { w with pc := .exited } else { w with work })
  | _, _ => none

/-! ## What a worker owes -/

/-- The stop hook has to run on this worker: its start hook succeeded or, without a start hook, it
reached its loop. -/
def owed (hooks : Hooks) (w : Worker) : Bool :=
  hooks.stop && if hooks.start then w.startHook = some .ok else w.reachedLoop

/-- What the stop hook has done on a worker that is past its exit callback. -/
def paired (hooks : Hooks) (w : Worker) : List (LoopState × ℕ) :=
  if w.owed hooks then [(.stopped, 0)] else []

/-- The parts of a worker's life, by its hooks. -/
inductive Part where
  | before
  | entering
  | inside
  | after
  deriving DecidableEq

def part (w : Worker) : Part :=
  match w.pc with
  | .unstarted | .setup _ | .init => .before
  | .publish _ | .run => .entering
  | .looping | .draining | .closeListener | .exitCallback => .inside
  | .runPending | .exited => .after

/-- The invariant of a worker; `flags` is `worker_started_`. -/
structure Ok (hooks : Hooks) (flags : List Bool) (w : Worker) : Prop where
  flag : hooks.start = true → flags[w.index]? = some (decide (w.startHook = some .ok))
  before : w.part = .before → w.startHook = none ∧ w.reachedLoop = false
  entering : w.part = .entering → w.reachedLoop = false
  inside : w.part = .inside → w.reachedLoop = true
  waiting : w.part ≠ .after → w.stopHooks = []
  after : w.part = .after → w.stopHooks = w.paired hooks
  drained : w.pc = .closeListener ∨ w.pc = .exitCallback → w.loop = .stopped ∧ w.work = 0

variable {hooks : Hooks} {flags flags' : List Bool} {w w' : Worker} {b : Backend}

theorem ok_of_before (hp : w.part = .before)
    (hf : hooks.start = true → flags[w.index]? = some (decide (w.startHook = some .ok)))
    (hs : w.startHook = none) (hr : w.reachedLoop = false) (hh : w.stopHooks = []) :
    w.Ok hooks flags where
  flag := hf
  before _ := ⟨hs, hr⟩
  entering hx := by rw [hp] at hx; cases hx
  inside hx := by rw [hp] at hx; cases hx
  waiting _ := hh
  after hx := by rw [hp] at hx; cases hx
  drained hx := by rcases hx with hx | hx <;> rw [part, hx] at hp <;> cases hp

theorem ok_of_entering (hp : w.part = .entering)
    (hf : hooks.start = true → flags[w.index]? = some (decide (w.startHook = some .ok)))
    (hr : w.reachedLoop = false) (hh : w.stopHooks = []) : w.Ok hooks flags where
  flag := hf
  before hx := by rw [hp] at hx; cases hx
  entering _ := hr
  inside hx := by rw [hp] at hx; cases hx
  waiting _ := hh
  after hx := by rw [hp] at hx; cases hx
  drained hx := by rcases hx with hx | hx <;> rw [part, hx] at hp <;> cases hp

theorem ok_of_inside (hp : w.part = .inside)
    (hf : hooks.start = true → flags[w.index]? = some (decide (w.startHook = some .ok)))
    (hr : w.reachedLoop = true) (hh : w.stopHooks = [])
    (hd : w.pc = .closeListener ∨ w.pc = .exitCallback → w.loop = .stopped ∧ w.work = 0) :
    w.Ok hooks flags where
  flag := hf
  before hx := by rw [hp] at hx; cases hx
  entering hx := by rw [hp] at hx; cases hx
  inside _ := hr
  waiting _ := hh
  after hx := by rw [hp] at hx; cases hx
  drained := hd

theorem ok_of_after (hp : w.part = .after)
    (hf : hooks.start = true → flags[w.index]? = some (decide (w.startHook = some .ok)))
    (hh : w.stopHooks = w.paired hooks) : w.Ok hooks flags where
  flag := hf
  before hx := by rw [hp] at hx; cases hx
  entering hx := by rw [hp] at hx; cases hx
  inside hx := by rw [hp] at hx; cases hx
  waiting hx := absurd hp hx
  after _ := hh
  drained hx := by rcases hx with hx | hx <;> rw [part, hx] at hp <;> cases hp

theorem ok_create {index : ℕ} (h : flags[index]? = some false) :
    (create b index).Ok hooks flags :=
  ok_of_before rfl (fun _ => h) rfl rfl rfl

theorem ok_threadless {index : ℕ} (h : flags[index]? = some false) :
    (threadless b index).Ok hooks flags :=
  ok_of_before rfl (fun _ => h) rfl rfl rfl

section

variable (h : w.Ok hooks flags)
include h

theorem Ok.frame {i : ℕ} (hi : i ≠ w.index) (v : Bool) : w.Ok hooks (flags.set i v) :=
  { h with flag := fun hs => by rw [List.getElem?_set_ne hi]; exact h.flag hs }

theorem Ok.congr (hi : w'.index = w.index)
    (hs : w'.startHook = w.startHook) (hr : w'.reachedLoop = w.reachedLoop)
    (hh : w'.stopHooks = w.stopHooks) (hp : w'.part = w.part)
    (hd : w'.pc = .closeListener ∨ w'.pc = .exitCallback → w'.loop = .stopped ∧ w'.work = 0) :
    w'.Ok hooks flags where
  flag := by rw [hi, hs]; exact h.flag
  before := by rw [hp, hs, hr]; exact h.before
  entering := by rw [hp, hr]; exact h.entering
  inside := by rw [hp, hr]; exact h.inside
  waiting := by rw [hp, hh]; exact h.waiting
  after := by
    rw [hp, hh]
    unfold paired owed
    rw [hs, hr]
    exact h.after
  drained := hd

theorem Ok.stop : w.stop.Ok hooks flags := by
  unfold Worker.stop
  by_cases hu : w.pc = .unstarted
  · rw [if_pos hu]
    exact h
  · rw [if_neg hu]
    refine h.congr rfl rfl rfl rfl rfl fun hp => ?_
    have hl : w.pc ≠ .looping := by
      intro hx
      rw [hx] at hp
      rcases hp with hp | hp <;> cases hp
    rw [if_neg hl]
    exact h.drained hp

theorem Ok.requestDrain : w.requestDrain.Ok hooks flags :=
  h.congr rfl rfl rfl rfl rfl h.drained

theorem Ok.join : w.join.Ok hooks flags := by
  unfold Worker.join
  split_ifs
  · exact h
  · exact h.congr rfl rfl rfl rfl rfl h.drained

theorem Ok.initCallback (hp : w.pc = .init) (outcome : HookOutcome)
    (scheduled : ℕ) : (w.initCallback hooks outcome scheduled flags).2.Ok hooks
      (w.initCallback hooks outcome scheduled flags).1 := by
  have hpart : w.part = .before := by rw [part, hp]
  obtain ⟨hstart, hreach⟩ := h.before hpart
  have hwait := h.waiting (by simp [hpart])
  unfold Worker.initCallback
  by_cases hs : hooks.start = true
  · have hflag := h.flag hs
    rw [hstart] at hflag
    have hlt : w.index < flags.length := by
      by_contra hge
      rw [List.getElem?_eq_none (Nat.not_lt.mp hge)] at hflag
      cases hflag
    rw [if_pos hs]
    cases outcome with
    | ok => exact ok_of_entering rfl (fun _ => by simp [List.getElem?_set_self hlt]) hreach hwait
    | error e | threw => exact ok_of_entering rfl (fun _ => hflag) hreach hwait
  · rw [if_neg hs]
    exact ok_of_entering rfl (fun hx => absurd hx hs) hreach hwait

theorem Ok.runsStopHook_eq (hp : w.part = .inside) : w.runsStopHook hooks flags = w.owed hooks := by
  unfold runsStopHook owed
  cases hs : hooks.start with
  | false => simp [h.inside hp]
  | true =>
    have hflag := h.flag hs
    rw [List.getD_eq_getElem?_getD, hflag]
    simp

/-- **The step lemma.** Every step of a worker thread keeps its invariant. -/
theorem Ok.step {a : WorkerAction}
    (hs : w.step b hooks a flags = some (flags', w')) : w'.Ok hooks flags' := by
  unfold Worker.step at hs
  split at hs
  case h_1 hpc =>
    cases hs
    have hb : w.part = .before := by rw [part, hpc]
    obtain ⟨hstart, hreach⟩ := h.before hb
    refine ok_of_after rfl h.flag ((h.waiting (by simp [hb])).trans ?_)
    unfold paired owed
    simp [hstart, hreach]
  case h_2 rest hpc =>
    cases hs
    have hb : w.part = .before := by rw [part, hpc]
    obtain ⟨hstart, hreach⟩ := h.before hb
    refine ok_of_before ?_ h.flag hstart hreach (h.waiting (by simp [hb]))
    split_ifs <;> rfl
  case h_3 outcome scheduled hpc =>
    have hi := h.initCallback hpc outcome scheduled
    rw [Option.some.inj hs] at hi
    exact hi
  case h_4 hpc =>
    cases hs
    exact h.congr rfl rfl rfl rfl (by rw [part, part, hpc]) fun hx => by
      rcases hx with hx | hx <;> cases hx
  case h_5 hpc =>
    cases hs
    have hb : w.part = .entering := by rw [part, hpc]
    exact ok_of_inside rfl h.flag rfl (h.waiting (by simp [hb])) fun hx => by
      rcases hx with hx | hx <;> cases hx
  case h_6 hpc =>
    obtain ⟨-, ⟨⟩⟩ := Transition.of_guard hs
    exact h.congr rfl rfl rfl rfl rfl fun hx => by
      rcases hx with hx | hx <;> cases hpc.symm.trans hx
  case h_7 hpc =>
    cases hs
    exact h.congr rfl rfl rfl rfl rfl fun hx => by
      rcases hx with hx | hx <;> cases hpc.symm.trans hx
  case h_8 hpc =>
    obtain ⟨-, ⟨⟩⟩ := Transition.of_guard hs
    exact h.congr rfl rfl rfl rfl rfl fun hx => by
      rcases hx with hx | hx <;> cases hpc.symm.trans hx
  case h_9 hpc =>
    obtain ⟨-, hs⟩ := Transition.of_unless hs
    cases hs
    exact h.congr rfl rfl rfl rfl (by rw [part, part, hpc]) fun hx => by
      rcases hx with hx | hx <;> cases hx
  case h_10 hpc =>
    obtain ⟨-, hs⟩ := Transition.of_unless hs
    cases hs
    exact h.congr rfl rfl rfl rfl rfl fun hx => by
      rcases hx with hx | hx <;> cases hpc.symm.trans hx
  case h_11 hpc =>
    obtain ⟨hw, ⟨⟩⟩ := Transition.of_guard hs
    exact h.congr rfl rfl rfl rfl (by rw [part, part, hpc]; cases b <;> rfl) fun _ => ⟨rfl, hw⟩
  case h_12 hpc =>
    cases hs
    exact h.congr rfl rfl rfl rfl (by rw [part, part, hpc]) fun _ => h.drained (.inl hpc)
  case h_13 hpc =>
    cases hs
    have hb : w.part = .inside := by rw [part, hpc]
    obtain ⟨hl, hw⟩ := h.drained (.inr hpc)
    refine ok_of_after rfl h.flag ?_
    rw [h.runsStopHook_eq hb, h.waiting (by simp [hb]), hl, hw]
    rfl
  case h_14 hpc =>
    split_ifs at hs with hw
    · cases hs
      exact h.congr rfl rfl rfl rfl (by rw [part, part, hpc]) fun hx => by
        rcases hx with hx | hx <;> cases hx
    · cases hs
      exact h.congr rfl rfl rfl rfl rfl fun hx => by
        rcases hx with hx | hx <;> cases hpc.symm.trans hx
  case h_15 => cases hs

end

theorem initCallback_frame (outcome : HookOutcome) (scheduled : ℕ)
    (h : w.initCallback hooks outcome scheduled flags = (flags', w')) :
    (flags' = flags ∨ flags' = flags.set w.index true) ∧ ∃ started,
      w' = { w with
        startHook := w'.startHook, work := w'.work, loop := w'.loop, pc := .publish started } := by
  unfold initCallback at h
  split_ifs at h
  · cases outcome with
    | ok =>
      cases h
      exact ⟨.inr rfl, _, rfl⟩
    | error e | threw =>
      cases h
      exact ⟨.inl rfl, _, rfl⟩
  · cases h
    exact ⟨.inl rfl, _, rfl⟩

/-- What a step of the worker's own thread leaves alone. -/
structure Framed (flags : List Bool) (w : Worker) (flags' : List Bool) (w' : Worker) : Prop where
  flags : flags' = flags ∨ flags' = flags.set w.index true
  index : w'.index = w.index
  stopRequested : w'.stopRequested = w.stopRequested
  drainRequested : w'.drainRequested = w.drainRequested
  joined : w'.joined = w.joined
  running : w.gone = false
  started : w'.started = true

theorem step_framed {a : WorkerAction} (hs : w.step b hooks a flags = some (flags', w')) :
    Framed flags w flags' w' := by
  unfold Worker.step at hs
  split at hs
  case h_3 outcome scheduled hpc =>
    obtain ⟨hf, started, hw⟩ := initCallback_frame outcome scheduled (Option.some.inj hs)
    rw [hw]
    exact ⟨hf, rfl, rfl, rfl, rfl, by simp [gone, hpc], by simp [Worker.started]⟩
  case h_14 hpc =>
    obtain ⟨rfl, hw⟩ := Prod.mk.inj (Option.some.inj hs)
    split_ifs at hw
    all_goals
      subst hw
      exact ⟨.inl rfl, rfl, rfl, rfl, rfl, by simp [gone, hpc], by simp [Worker.started, hpc]⟩
  case h_15 => cases hs
  all_goals
    rename_i hpc
    first
    | cases hs
    | (obtain ⟨-, hs⟩ := Option.ite_none_right_eq_some.mp hs; cases hs)
    | (obtain ⟨-, hs⟩ := Option.ite_none_left_eq_some.mp hs; cases hs)
    refine ⟨.inl rfl, rfl, rfl, rfl, rfl, by simp [gone, hpc], decide_eq_true ?_⟩
    first
    | (rw [hpc]; exact WorkerPc.noConfusion)
    | exact WorkerPc.noConfusion
    | (split <;> exact WorkerPc.noConfusion)

end Worker

end Alyrn.Runtime
