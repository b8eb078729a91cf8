import Alyrn.Runtime.WorkerGroup.Crew

/-!
# The hooks of a runtime come in pairs

When `Start()` has failed or `Stop()` has returned, every worker thread that was started has been
asked to stop and joined, and the stop hook has run once, on the drained loop, exactly on the
workers whose start hook succeeded.

This holds in every run in which no allocation and no creation of a thread throws (`hooks_paired`).
`RuntimeControl::Start` does not handle an exception: the group is rolled back, but the state stays
at `starting` (`start_lost`).
-/

namespace Alyrn.Runtime

open Transition RuntimeControl

namespace Host

variable {b : Backend} {cfg : Config} {hooks : Hooks} {s s' : Host} {c : RuntimeControl}

/-! ## No worker is lost -/

/-- The threads that workers of the group, or retired ones, were given. -/
def census (s : Host) : ℕ := s.retired.length + s.workers.countP Worker.started

theorem countP_map_started {f : Worker → Worker} (hf : ∀ w, (f w).pc = w.pc) (ws : List Worker) :
    (ws.map f).countP Worker.started = ws.countP Worker.started := by
  rw [List.countP_map]
  congr 1
  funext w
  simp [Worker.started, hf]

theorem census_follow (hs : s.Shape) (h : s.Crew cfg hooks) (ha : Advances s.control c) :
    (s.follow c).census = s.census ∧ (s.follow c).threads = s.threads := by
  have hjoin := countP_map_started (fun _ => Worker.join_pc) s.workers
  cases ha with
  | stays hk state phase =>
    rw [follow_of_same phase hk.log]
    exact ⟨rfl, rfl⟩
  | starts hk was pos | aborts hk pos | joins hk was pos =>
    rw [follow_of_leaves (by simp [pos])
      (by simp [pos]), asked_of_log hk.log]
    exact ⟨rfl, rfl⟩
  | commits log exited pos =>
    rw [follow_of_leaves (by simp [pos])
      (by simp [pos]), asked_of_log log]
    exact ⟨rfl, rfl⟩
  | asks call log exited workers was state phase =>
    have hask := countP_map_started (ask_pc call) s.workers
    rcases phase with hp | ⟨hp, hp'⟩
    · rw [follow_of_phase hp, asked_of_append log]
      exact ⟨congrArg (s.retired.length + ·) hask, rfl⟩
    · rw [follow_of_leaves (by simp [hp])
        (by simp [hp]), asked_of_append log]
      exact ⟨congrArg (s.retired.length + ·) hask, rfl⟩
  | joined hk gone pos state phase =>
    rw [follow_of_joined pos phase, asked_of_log hk.log]
    exact ⟨congrArg (s.retired.length + ·) hjoin, rfl⟩
  | finishes log exited workers pos state phase =>
    have hg := hs.idle (by simp [pos])
    have hall : s.workers.countP Worker.started = s.workers.length :=
      List.countP_eq_length.mpr (h.threads_idle hg)
    rw [follow_of_finishes pos phase, asked_of_log log]
    refine ⟨?_, rfl⟩
    unfold census
    rw [List.length_append, List.length_map, hall]
    rfl

theorem census_groupReturns {o : GroupStart} (hr : s.groupReturns cfg o = some s') :
    s'.census = s.census ∧ s'.threads = s.threads := by
  obtain ⟨c, -, rfl⟩ := Option.map_eq_some_iff.mp hr
  exact ⟨rfl, rfl⟩

theorem census_groupStep {o : Creation} (hg : s.groupStep b cfg o = some s')
    (h : s.census = s.threads) : s'.census = s'.threads := by
  have hreturn {o : GroupStart} {t : Host} (hr : t.groupReturns cfg o = some s')
      (ht : t.census = t.threads) : s'.census = s'.threads := by
    obtain ⟨h1, h2⟩ := census_groupReturns hr
    rw [h1, h2]
    exact ht
  unfold groupStep at hg
  cases hgroup : s.group with
  | idle =>
    rw [hgroup] at hg
    dsimp only at hg
    split_ifs at hg
    · cases hg
      exact h
    · exact hreturn hg h
  | create =>
    rw [hgroup] at hg
    dsimp only at hg
    split_ifs at hg
    · exact hreturn hg h
    · cases o with
      | ok | noThread =>
        cases hg
        unfold census at h ⊢
        rw [List.countP_append, ← h]
        rfl
      | noMemory =>
        cases hg
        exact h
  | wait =>
    rw [hgroup] at hg
    dsimp only at hg
    split at hg
    · cases hg
    · split at hg
      · cases hg
        exact h
      · cases hg
        exact h
      · obtain ⟨-, rfl⟩ := of_guard hg
        exact h
  | stop f =>
    rw [hgroup] at hg
    cases hg
    exact (congrArg (s.retired.length + ·)
      (countP_map_started (fun _ => Worker.stop_pc) s.workers)).trans h
  | join f =>
    rw [hgroup] at hg
    obtain ⟨-, hg⟩ := Option.ite_none_right_eq_some.mp hg
    refine hreturn hg (Eq.trans ?_ h)
    unfold census
    rw [List.length_append, List.length_map, ← List.countP_eq_length_filter]
    rfl

theorem census_worker {i : ℕ} {w w' : Worker} {flags : List Bool} (hw : s.workers[i]? = some w)
    {a : WorkerAction} (hstep : w.step b hooks a s.workerStarted = some (flags, w')) :
    census { s with workerStarted := flags, workers := s.workers.set i w' } = s.census := by
  have hfr := Worker.step_framed hstep
  obtain ⟨hlt, hget⟩ := List.getElem?_eq_some_iff.mp hw
  have hstarted : w.started = true := by
    have hrun := hfr.running
    unfold Worker.gone at hrun
    unfold Worker.started
    simp at hrun ⊢
    exact hrun.2
  have hpos : 0 < s.workers.countP Worker.started :=
    List.countP_pos_iff.mpr ⟨w, List.mem_of_getElem? hw, hstarted⟩
  unfold census
  rw [List.countP_set hlt, hget, hfr.started, hstarted]
  simp
  omega

theorem census_of_reaches (h : (system b cfg hooks).Reaches s) : s.census = s.threads := by
  refine h.invariant_of (I := fun s => s.census = s.threads)
    (J := fun s => s.Shape ∧ s.Crew cfg hooks) (fun _ hr => keeps_of_reaches hr) ?_ ?_
  · rintro s rfl
    rfl
  · intro s a s' hJ _ hI _ hstep
    unfold system step at hstep
    cases a with
    | control a =>
      obtain ⟨hen, hstep⟩ := Option.ite_none_right_eq_some.mp hstep
      obtain ⟨c, hc, rfl⟩ := Option.map_eq_some_iff.mp hstep
      by_cases hx : a = .workersExit
      · subst hx
        obtain ⟨-, rfl⟩ := of_guard hc
        rw [follow_exited]
        exact hI
      · obtain ⟨h1, h2⟩ := census_follow hJ.1 hJ.2
          (advances_of_step (fun o ho => by subst ho; exact of_decide_eq_true hen) hx hc)
        rw [h1, h2]
        exact hI
    | group o =>
      obtain ⟨-, hstep⟩ := Option.ite_none_right_eq_some.mp hstep
      exact census_groupStep hstep hI
    | worker i a =>
      dsimp only at hstep
      split at hstep
      · cases hstep
      · rename_i w hw
        obtain ⟨⟨flags, w'⟩, hw', rfl⟩ := Option.map_eq_some_iff.mp hstep
        exact (census_worker hw hw').trans hI

/-! ## A failed start -/

/-- The group's creation does not throw. -/
def NoThrow (_ : Host) : Action → Prop
  | .group o => o = .ok
  | _ => True

instance (s : Host) (a : Action) : Decidable (NoThrow s a) := by
  cases a <;> dsimp only [NoThrow] <;> infer_instance

structure Prompt (s : Host) : Prop where
  starting : s.control.state = .starting → s.control.pc.phase.launching = true
  failed : ∀ f, s.group = .stop f ∨ s.group = .join f → f ≠ .threw

theorem Prompt.follow (h : s.Prompt) (ha : Advances s.control c) : (s.follow c).Prompt := by
  have hframe : (s.follow c).control = c ∧ (s.follow c).group = s.group := by
    unfold Host.follow
    split <;> exact ⟨rfl, rfl⟩
  refine ⟨?_, by rw [hframe.2]; exact h.failed⟩
  rw [hframe.1]
  intro hst
  cases ha with
  | stays hk state phase =>
    rw [phase]
    exact h.starting (state.symm.trans hst)
  | starts hk was pos state phase =>
    rw [phase]
    rfl
  | aborts hk pos state | commits log exited pos state | finishes log exited workers pos state =>
    rw [hst] at state
    cases state
  | asks call log exited workers was state =>
    rw [hst] at state
    rcases state with hx | hx <;> cases hx
  | joins hk was pos state =>
    rw [← state, hst] at was
    rcases was with hx | hx <;> cases hx
  | joined hk gone pos state phase =>
    have := h.starting (state.symm.trans hst)
    rw [pos] at this
    cases this

theorem prompt_groupReturns (hp : s.control.pc.phase = .group) {o : GroupStart}
    (ho : o ≠ .threw) (hr : s.groupReturns cfg o = some s') : s'.Prompt := by
  obtain ⟨c, hc, rfl⟩ := Option.map_eq_some_iff.mp hr
  refine ⟨fun _ => ?_, fun f hf => by rcases hf with hf | hf <;> cases hf⟩
  show c.pc.phase.launching = true
  cases hpc : s.control.pc with
  | groupStart run =>
    unfold RuntimeControl.control at hc
    rw [hpc] at hc
    cases o with
    | threw => exact absurd rfl ho
    | ok | failed e =>
      cases hc
      rfl
  | _ =>
    rw [hpc] at hp
    cases hp

theorem Prompt.groupStep (h : s.Prompt) (hp : s.control.pc.phase = .group)
    (hg : s.groupStep b cfg .ok = some s') : s'.Prompt := by
  unfold Host.groupStep at hg
  cases hgroup : s.group with
  | idle =>
    rw [hgroup] at hg
    cases hg
    exact ⟨h.starting, fun f hf => by rcases hf with hf | hf <;> cases hf⟩
  | create =>
    rw [hgroup] at hg
    dsimp only at hg
    split_ifs at hg
    · exact prompt_groupReturns hp GroupStart.noConfusion hg
    · cases hg
      exact ⟨h.starting, fun f hf => by rcases hf with hf | hf <;> cases hf⟩
  | wait =>
    rw [hgroup] at hg
    dsimp only at hg
    split at hg
    · cases hg
    · split at hg
      · cases hg
        exact ⟨h.starting, fun f hf => by rcases hf with hf | hf <;> cases hf⟩
      · cases hg
        exact ⟨h.starting, fun f hf => by
          rcases hf with hf | hf <;> cases hf; exact GroupStart.noConfusion⟩
      · obtain ⟨-, rfl⟩ := of_guard hg
        exact ⟨h.starting, fun f hf => by
          rcases hf with hf | hf <;> cases hf; exact GroupStart.noConfusion⟩
  | stop f =>
    have hf := h.failed f (.inl hgroup)
    rw [hgroup] at hg
    cases hg
    exact ⟨h.starting, fun g hx => by rcases hx with hx | hx <;> cases hx; exact hf⟩
  | join f =>
    have hf := h.failed f (.inr hgroup)
    rw [hgroup] at hg
    obtain ⟨-, hg⟩ := Option.ite_none_right_eq_some.mp hg
    exact prompt_groupReturns (s := { s with
      workers := []
      retired := s.retired ++ (s.workers.filter Worker.started).map Worker.join }) hp hf hg

theorem prompt_of_reaches (h : (system b cfg hooks).ReachesBy NoThrow s) : s.Prompt := by
  refine h.invariant ?_ ?_
  · rintro s rfl
    exact ⟨nofun, fun f hf => by rcases hf with hf | hf <;> cases hf⟩
  · intro s a s' hI hC hstep
    unfold system step at hstep
    cases a with
    | control a =>
      obtain ⟨hen, hstep⟩ := Option.ite_none_right_eq_some.mp hstep
      obtain ⟨c, hc, rfl⟩ := Option.map_eq_some_iff.mp hstep
      by_cases hx : a = .workersExit
      · subst hx
        obtain ⟨-, rfl⟩ := of_guard hc
        rw [follow_exited]
        exact ⟨hI.starting, hI.failed⟩
      · exact hI.follow
          (advances_of_step (fun o ho => by subst ho; exact of_decide_eq_true hen) hx hc)
    | group o =>
      obtain ⟨hp, hstep⟩ := Option.ite_none_right_eq_some.mp hstep
      obtain rfl : o = .ok := hC
      exact hI.groupStep hp hstep
    | worker i a =>
      dsimp only at hstep
      split at hstep
      · cases hstep
      · obtain ⟨_, -, rfl⟩ := Option.map_eq_some_iff.mp hstep
        exact ⟨hI.starting, hI.failed⟩

/-! ## The hooks and the start -/

/-- What is promised of the hooks. -/
structure Paired (hooks : Hooks) (s : Host) : Prop where
  /-- Every thread that was created belongs to a worker of the group or to a retired one. -/
  threads : s.threads = s.retired.length + s.workers.countP Worker.started
  /-- No call is under way and the runtime does not run: no worker is left. -/
  ended : s.control.pc = .idle → s.control.state.hosting = false → s.workers = []
  retired : ∀ w ∈ s.retired, w.Ended hooks
  /-- At any time the stop hook has run at most once on a worker, on the drained loop. -/
  once : ∀ w ∈ s.workers, w.stopHooks = [] ∨ w.owed hooks = true ∧ w.stopHooks = [(.stopped, 0)]
  startable : s.control.pc = .idle → s.control.state.published = false →
    s.control.state = .created ∧ s.control.workers = none

/-- **The hooks come in pairs**, and a failed start leaves a runtime that can be started, in every
run in which no allocation and no creation of a thread throws. -/
theorem hooks_paired (h : (system b cfg hooks).ReachesBy NoThrow s) : s.Paired hooks := by
  obtain ⟨hshape, hcrew⟩ := keeps_of_reaches h.reaches
  have hprompt := prompt_of_reaches h
  have hidle (hpc : s.control.pc = .idle) : s.control.pc.phase = .elsewhere := by rw [hpc]; rfl
  refine ⟨(census_of_reaches h.reaches).symm, fun hpc hst => ?_, hcrew.retired, fun w hw => ?_,
    fun hpc hst => ⟨?_, hshape.unpublished hst⟩⟩
  · exact hshape.empty (hshape.idle (by rw [hidle hpc]; exact Phase.noConfusion))
      (by rw [hidle hpc]; exact Phase.noConfusion) hst
  · obtain ⟨i, hi⟩ := List.mem_iff_getElem?.mp hw
    have hok := (hcrew.ok i w hi).2
    by_cases hp : w.part = .after
    · have hhook := hok.after hp
      by_cases ho : w.owed hooks = true
      · exact .inr ⟨ho, hhook.trans (if_pos ho)⟩
      · exact .inl (hhook.trans (if_neg ho))
    · exact .inl (hok.waiting hp)
  · cases hs : s.control.state with
    | created => rfl
    | starting =>
      have := hprompt.starting hs
      rw [hidle hpc] at this
      cases this
    | running | draining | stopping | stopped =>
      rw [hs] at hst
      cases hst

/-- A uring runtime of two workers whose second start hook fails, and an epoll runtime that is
started and stopped under a grace period. -/
theorem hooks_paired_runs :
    (∃ s, ((system .uring ⟨2, true, 0⟩ ⟨true, true⟩).ReachesBy NoThrow s ∧
      s.control.pc = .idle ∧ s.control.state = .created ∧
      s.retired.map (fun w => (w.startHook, w.stopHooks)) =
        [(some .ok, [(.stopped, 0)]), (some (.error EIO), [])]) ∧ s.Paired ⟨true, true⟩) ∧
    ∃ s, ((system .epoll ⟨1, true, 5⟩ ⟨false, true⟩).ReachesBy NoThrow s ∧
      s.control.pc = .idle ∧ s.control.state = .stopped ∧
      s.retired.map Worker.stopHooks = [[(.stopped, 0)]]) ∧ s.Paired ⟨false, true⟩ := by
  obtain ⟨s, hr, hp⟩ := (system .uring ⟨2, true, 0⟩ ⟨true, true⟩).exists_reachesBy NoThrow create
    rfl [.control .start, .group .ok, .group .ok, .worker 0 (.setup none), .worker 0 (.setup none),
      .worker 0 (.setup none), .worker 0 (.setup none), .worker 0 (.init .ok 1), .worker 0 .publish,
      .group .ok, .group .ok, .worker 1 (.setup none), .worker 1 (.setup none),
      .worker 1 (.setup none), .worker 1 (.setup none), .worker 1 (.init (.error EIO) 3),
      .worker 1 .publish, .worker 0 .run, .worker 0 (.turn 2), .group .ok, .group .ok,
      .worker 0 .leave, .worker 0 (.drain 0), .worker 0 .drained, .worker 0 .closeListener,
      .worker 0 (.exitCallback 0), .worker 0 (.runPending 0), .worker 1 .run, .worker 1 .leave,
      .worker 1 (.drain 0), .worker 1 .drained, .worker 1 .closeListener,
      .worker 1 (.exitCallback 0), .worker 1 (.runPending 0), .group .ok, .control (.control .ok)]
    (P := fun s => s.control.pc = .idle ∧ s.control.state = .created ∧
      s.retired.map (fun w => (w.startHook, w.stopHooks)) =
        [(some .ok, [(.stopped, 0)]), (some (.error EIO), [])]) (by decide)
  obtain ⟨t, hr', hp'⟩ := (system .epoll ⟨1, true, 5⟩ ⟨false, true⟩).exists_reachesBy NoThrow create
    rfl [.control .start, .group .ok, .group .ok, .worker 0 (.setup none), .worker 0 (.setup none),
      .worker 0 (.init .ok 1), .worker 0 .publish, .group .ok, .group .ok, .worker 0 .run,
      .control (.control .ok), .control (.control .ok), .control .stop, .control (.control .ok),
      .worker 0 (.beginDrain false), .worker 0 .leave, .worker 0 (.drain 0), .worker 0 .drained,
      .worker 0 (.exitCallback 0), .worker 0 (.runPending 0), .control .workersExit,
      .control (.control .ok), .control (.control .ok)]
    (P := fun s => s.control.pc = .idle ∧ s.control.state = .stopped ∧
      s.retired.map Worker.stopHooks = [[(.stopped, 0)]]) (by decide)
  exact ⟨⟨s, ⟨hr, hp⟩, hooks_paired hr⟩,
    t, ⟨hr', hp'⟩, hooks_paired hr'⟩

/-- The thread of the first worker cannot be created. The exception leaves `Start()` with the state
at `starting`: the next `Start()` is refused with `EALREADY`. -/
theorem start_lost : ∃ s, (system .epoll ⟨1, true, 0⟩ ⟨true, true⟩).Reaches s ∧
    (s.control.pc = .idle ∧ s.control.state = .starting ∧ s.retired = [] ∧
      s.control.result = some (.error EALREADY)) ∧ ¬ s.Paired ⟨true, true⟩ := by
  obtain ⟨s, hr, hp⟩ := (system .epoll ⟨1, true, 0⟩ ⟨true, true⟩).exists_reachesBy
    (fun _ _ => True) create rfl
    [.control .start, .group .ok, .group .noThread, .group .ok, .group .ok, .control .start]
    (P := fun s => s.control.pc = .idle ∧ s.control.state = .starting ∧ s.retired = [] ∧
      s.control.result = some (.error EALREADY)) (by decide)
  refine ⟨s, hr, hp, fun hpaired => ?_⟩
  have hstart := (hpaired.startable hp.1 (by rw [hp.2.1]; rfl)).1
  rw [hp.2.1] at hstart
  cases hstart

end Host

end Alyrn.Runtime
