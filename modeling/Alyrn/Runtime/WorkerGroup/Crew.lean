import Alyrn.Runtime.WorkerGroup

/-!
# The workers of a runtime

Two invariants of a runtime with its worker threads. `Shape` ties the position of the control
thread and its state to the group; `Crew` says what is true of the workers in each position. Every
step of the control, of `workers->Start()` and of a worker thread keeps both (`keeps_of_reaches`).
-/

namespace Alyrn.Runtime

open Transition RuntimeControl

def LifecycleState.hosting : LifecycleState → Bool
  | .running | .draining | .stopping => true
  | _ => false

def Phase.launching : Phase → Bool
  | .group | .abort | .commit => true
  | _ => false

/-- What a destroyed worker leaves behind: it was asked to stop and joined, and its stop hook ran
exactly if it had to. -/
structure Worker.Ended (hooks : Hooks) (w : Worker) : Prop where
  asked : w.stopRequested = true
  exited : w.pc = .exited
  joined : w.joined = true
  hook : w.stopHooks = w.paired hooks

namespace Worker

variable {hooks : Hooks} {flags : List Bool} {w : Worker}

@[simp] theorem stop_index : w.stop.index = w.index := by unfold stop; split_ifs <;> rfl
@[simp] theorem stop_pc : w.stop.pc = w.pc := by unfold stop; split_ifs <;> rfl
@[simp] theorem stop_joined : w.stop.joined = w.joined := by unfold stop; split_ifs <;> rfl
@[simp] theorem join_index : w.join.index = w.index := by unfold join; split_ifs <;> rfl
@[simp] theorem join_pc : w.join.pc = w.pc := by unfold join; split_ifs <;> rfl
@[simp] theorem join_stopRequested : w.join.stopRequested = w.stopRequested := by
  unfold join; split_ifs <;> rfl
@[simp] theorem join_drainRequested : w.join.drainRequested = w.drainRequested := by
  unfold join; split_ifs <;> rfl

theorem stop_asked (h : w.started = true) : w.stop.stopRequested = true := by
  unfold stop
  rw [if_neg (of_decide_eq_true h)]

theorem join_joined (h : w.started = true) : w.join.joined = true := by
  unfold join
  rw [if_neg (of_decide_eq_true h)]

theorem exited_of_gone (ho : w.gone = true) (hs : w.started = true) : w.pc = .exited :=
  (of_decide_eq_true ho).resolve_right (of_decide_eq_true hs)

theorem Ok.ended (h : w.Ok hooks flags) (ha : w.stopRequested = true) (he : w.pc = .exited)
    (hj : w.joined = true) : w.Ended hooks :=
  ⟨ha, he, hj, h.after (by rw [part, he])⟩

end Worker

namespace Host

variable {b : Backend} {cfg : Config} {hooks : Hooks} {s s' : Host} {c : RuntimeControl}
  {flags : List Bool} {g : GroupPc} {w : Worker}

theorem ask_index (call : WorkerCall) (w : Worker) : (ask call w).index = w.index := by
  cases call with
  | requestDrain => rfl
  | requestStop st => exact Worker.stop_index

theorem ask_pc (call : WorkerCall) (w : Worker) : (ask call w).pc = w.pc := by
  cases call with
  | requestDrain => rfl
  | requestStop st => exact Worker.stop_pc

theorem ask_joined (call : WorkerCall) (w : Worker) : (ask call w).joined = w.joined := by
  cases call with
  | requestDrain => rfl
  | requestStop st => exact Worker.stop_joined

theorem ask_ok (call : WorkerCall) (h : w.Ok hooks flags) : (ask call w).Ok hooks flags := by
  cases call with
  | requestDrain => exact h.requestDrain
  | requestStop st => exact h.stop

theorem ask_asked (call : WorkerCall) (h : w.started = true) :
    (ask call w).drainRequested = true ∨ (ask call w).stopRequested = true := by
  cases call with
  | requestDrain => exact .inl rfl
  | requestStop st => exact .inr (Worker.stop_asked h)

/-! ## What a step of the control does to the host -/

theorem asked_of_log (h : c.log = s.control.log) : s.asked c = s.workers := by
  unfold asked
  rw [h, List.drop_length]
  rfl

theorem asked_of_append {call : WorkerCall} (h : c.log = s.control.log ++ [call]) :
    s.asked c = s.workers.map (ask call) := by
  unfold asked
  rw [h, List.drop_left]
  rfl

theorem follow_of_phase (h : c.pc.phase = s.control.pc.phase) :
    s.follow c = { s with control := c, workers := s.asked c } := by
  unfold follow
  rw [h]
  cases s.control.pc.phase <;> rfl

theorem follow_of_leaves (h : s.control.pc.phase ≠ .joining)
    (h' : s.control.pc.phase ≠ .finishing) :
    s.follow c = { s with control := c, workers := s.asked c } := by
  unfold follow
  cases hp : s.control.pc.phase with
  | joining => exact absurd hp h
  | finishing => exact absurd hp h'
  | elsewhere | group | abort | commit => rfl

theorem follow_of_joined (h : s.control.pc.phase = .joining) (h' : c.pc.phase = .finishing) :
    s.follow c = { s with control := c, workers := (s.asked c).map Worker.join } := by
  unfold follow
  rw [h, h']

theorem follow_of_finishes (h : s.control.pc.phase = .finishing) (h' : c.pc.phase = .elsewhere) :
    s.follow c = { s with
      control := c, workers := [], retired := s.retired ++ (s.asked c).map Worker.stop } := by
  unfold follow
  rw [h, h']

theorem follow_of_log (h : s.control.pc.phase ≠ .joining ∧ s.control.pc.phase ≠ .finishing)
    (hl : c.log = s.control.log) : s.follow c = { s with control := c } := by
  rw [follow_of_leaves h.1 h.2, asked_of_log hl]

theorem follow_of_same (hp : c.pc.phase = s.control.pc.phase) (hl : c.log = s.control.log) :
    s.follow c = { s with control := c } := by
  rw [follow_of_phase hp, asked_of_log hl]

theorem follow_exited : s.follow { s.control with exited := true } =
    { s with control := { s.control with exited := true } } :=
  follow_of_same (c := { s.control with exited := true }) rfl rfl

/-! ## The invariant -/

/-- The group's position agrees with the control thread's. -/
structure Shape (s : Host) : Prop where
  group : s.group ≠ .idle → s.control.pc.phase = .group
  launching : s.control.pc.phase.launching = true → s.control.state = .starting
  log : s.control.state.begun = false → s.control.log = []
  joining : s.control.pc.phase = .joining ∨ s.control.pc.phase = .finishing →
    s.control.state = .draining ∨ s.control.state = .stopping
  exited : s.control.exited = true → s.control.state.begun = true
  housed : s.workers ≠ [] → s.group ≠ .idle ∨ s.control.pc.phase = .commit ∨
    s.control.state.hosting = true
  unpublished : s.control.state.published = false → s.control.workers = none

/-- The invariant of the workers. -/
structure Crew (cfg : Config) (hooks : Hooks) (s : Host) : Prop where
  /-- No worker has marked the flags of the workers still to come. -/
  fresh : s.group ≠ .idle → ∀ i, s.workers.length ≤ i → i < cfg.workerCount →
    s.workerStarted[i]? = some false
  count : s.workers.length ≤ cfg.workerCount
  ok : ∀ (i : ℕ) (w : Worker), s.workers[i]? = some w → w.index = i ∧ w.Ok hooks s.workerStarted
  /-- A worker without a thread is only in a group that rolls back. -/
  threads : (∀ f, s.group ≠ .stop f ∧ s.group ≠ .join f) → ∀ w ∈ s.workers, w.started = true
  rollback : ∀ f, s.group = .join f → ∀ w ∈ s.workers, w.started = true → w.stopRequested = true
  asked : s.control.state.begun = true → ∀ w ∈ s.workers,
    w.drainRequested = true ∨ w.stopRequested = true
  gone : s.control.exited = true → ∀ w ∈ s.workers, w.gone = true
  joined : s.control.pc.phase = .finishing → ∀ w ∈ s.workers, w.gone = true ∧ w.joined = true
  retired : ∀ w ∈ s.retired, w.Ended hooks

theorem shape_create : Shape create where
  group h := absurd rfl h
  launching h := by cases h
  log _ := rfl
  joining h := by rcases h with h | h <;> cases h
  exited h := by cases h
  housed h := absurd rfl h
  unpublished _ := rfl

theorem crew_create : Crew cfg hooks create where
  fresh h := absurd rfl h
  count := Nat.zero_le _
  ok _ _ h := by simp [create] at h
  threads _ _ h := by cases h
  rollback _ h := by cases h
  asked h := by cases h
  gone h := by cases h
  joined h := by cases h
  retired _ h := by cases h

theorem Shape.idle (h : s.Shape) (hp : s.control.pc.phase ≠ .group) : s.group = .idle :=
  by_contra fun hg => hp (h.group hg)

theorem Shape.empty (h : s.Shape) (hg : s.group = .idle) (hp : s.control.pc.phase ≠ .commit)
    (hs : s.control.state.hosting = false) : s.workers = [] := by
  by_contra hw
  rcases h.housed hw with hx | hx | hx
  · exact hx hg
  · exact hp hx
  · rw [hs] at hx
    cases hx

theorem Crew.threads_idle (h : s.Crew cfg hooks) (hg : s.group = .idle) :
    ∀ w ∈ s.workers, w.started = true :=
  h.threads fun f => by rw [hg]; exact ⟨nofun, nofun⟩

/-! ## The steps of the control -/

theorem Shape.follow (h : s.Shape) (ha : Advances s.control c) : (s.follow c).Shape := by
  cases ha with
  | stays hk state phase =>
    rw [follow_of_same phase hk.log]
    exact ⟨fun hg => phase.trans (h.group hg), by rw [phase, state]; exact h.launching,
      by rw [state, hk.log]; exact h.log, by rw [phase, state]; exact h.joining,
      by rw [hk.exited, state]; exact h.exited, by rw [phase, state]; exact h.housed,
      by rw [state, hk.workers]; exact h.unpublished⟩
  | starts hk was pos state phase =>
    have hg := h.idle (by simp [pos])
    have hempty := h.empty hg (by simp [pos]) (by rw [was]; rfl)
    rw [follow_of_log (by simp [pos]) hk.log, hempty]
    refine ⟨fun _ => phase, fun _ => state, fun _ => ?_, fun hx => ?_, fun hx => ?_,
      fun hx => absurd rfl hx, fun _ => ?_⟩
    · exact hk.log.trans (h.log (by rw [was]; rfl))
    · rw [phase] at hx
      rcases hx with hx | hx <;> cases hx
    · rw [hk.exited] at hx
      have := h.exited hx
      rw [was] at this
      cases this
    · exact hk.workers.trans (h.unpublished (by rw [was]; rfl))
  | aborts hk pos state phase =>
    have hs := h.launching (by rw [pos]; rfl)
    have hg := h.idle (by simp [pos])
    have hempty := h.empty hg (by simp [pos]) (by rw [hs]; rfl)
    rw [follow_of_log (by simp [pos]) hk.log, hempty]
    have hlog := h.log (by rw [hs]; rfl)
    have hex := h.exited
    have hnone := h.unpublished (by rw [hs]; rfl)
    have h1 := hk.log
    have h2 := hk.exited
    have h3 := hk.workers
    constructor <;> simp_all [Phase.launching, LifecycleState.begun, LifecycleState.published]
  | commits log exited pos state phase =>
    have hs := h.launching (by rw [pos]; rfl)
    have hg := h.idle (by simp [pos])
    rw [follow_of_log (by simp [pos]) log]
    have hlog := h.log (by rw [hs]; rfl)
    have hex := h.exited
    constructor <;> simp_all [Phase.launching, LifecycleState.begun, LifecycleState.published,
      LifecycleState.hosting]
  | asks call log exited workers was state phase =>
    have hasked : (s.follow c) = { s with control := c, workers := s.workers.map (ask call) } := by
      rw [← asked_of_append log]
      rcases phase with hp | ⟨hp, -⟩
      · exact follow_of_phase hp
      · exact follow_of_leaves (by simp [hp])
          (by simp [hp])
    rw [hasked]
    have hl := h.launching
    have hg := h.group
    constructor
    all_goals
      rcases was with was | was <;> rcases state with state | state <;>
      rcases phase with phase | ⟨pos, phase⟩ <;>
      simp_all [Phase.launching, LifecycleState.begun, LifecycleState.published,
        LifecycleState.hosting]
  | joins hk was pos state phase =>
    rw [follow_of_log (by simp [pos]) hk.log]
    have hg := h.idle (by simp [pos])
    constructor
    all_goals
      rcases was with was | was <;>
      simp_all [Phase.launching, LifecycleState.begun, LifecycleState.published,
        LifecycleState.hosting]
  | joined hk gone pos state phase =>
    have hst := h.joining (.inl pos)
    have hg := h.idle (by simp [pos])
    rw [follow_of_joined pos phase, asked_of_log hk.log]
    constructor
    all_goals
      rcases hst with hst | hst <;>
      simp_all [Phase.launching, LifecycleState.begun, LifecycleState.published,
        LifecycleState.hosting]
  | finishes log exited workers pos state phase =>
    have hg := h.idle (by simp [pos])
    rw [follow_of_finishes pos phase, asked_of_log log]
    constructor <;> simp_all [Phase.launching, LifecycleState.begun, LifecycleState.published,
      LifecycleState.hosting]

section

variable (h : s.Crew cfg hooks)
include h

theorem Crew.withControl (hb : c.state.begun = true → s.control.state.begun = true ∨ s.workers = [])
    (hx : c.exited = true → s.control.exited = true ∨ s.allOver = true)
    (hp : c.pc.phase = .finishing → s.control.pc.phase = .finishing) :
    Crew cfg hooks { s with control := c } :=
  { h with
    asked hs w hw := by
      rcases hb hs with hs | hempty
      · exact h.asked hs w hw
      · rw [show s.workers = [] from hempty] at hw
        cases hw
    gone hs w hw := by
      rcases hx hs with hs | hall
      · exact h.gone hs w hw
      · exact List.all_eq_true.mp hall w hw
    joined hs := h.joined (hp hs) }

theorem Crew.askAll (hg : s.group = .idle) (call : WorkerCall) (hx : c.exited = s.control.exited)
    (hp : c.pc.phase = .finishing → s.control.pc.phase = .finishing) :
    Crew cfg hooks { s with control := c, workers := s.workers.map (ask call) } where
  fresh hi := absurd hg hi
  count := by rw [List.length_map]; exact h.count
  ok i w hw := by
    obtain ⟨v, hv, rfl⟩ := Option.map_eq_some_iff.mp ((List.getElem?_map ..).symm.trans hw)
    obtain ⟨hi, hok⟩ := h.ok i v hv
    exact ⟨(ask_index call v).trans hi, ask_ok call hok⟩
  threads _ w hw := by
    obtain ⟨v, hv, rfl⟩ := List.mem_map.mp hw
    rw [Worker.started, ask_pc]
    exact h.threads_idle hg v hv
  rollback f hf := by rw [show s.group = _ from hf] at hg; cases hg
  asked _ w hw := by
    obtain ⟨v, hv, rfl⟩ := List.mem_map.mp hw
    exact ask_asked call (h.threads_idle hg v hv)
  gone hs w hw := by
    obtain ⟨v, hv, rfl⟩ := List.mem_map.mp hw
    rw [Worker.gone, ask_pc]
    exact h.gone (hx ▸ hs) v hv
  joined hs w hw := by
    obtain ⟨v, hv, rfl⟩ := List.mem_map.mp hw
    rw [Worker.gone, ask_pc, ask_joined]
    exact h.joined (hp hs) v hv
  retired := h.retired

theorem Crew.joinAll (hg : s.group = .idle)
    (hx : s.control.exited = true) (hb : c.state = s.control.state) :
    Crew cfg hooks { s with control := c, workers := s.workers.map Worker.join } where
  fresh hi := absurd hg hi
  count := by rw [List.length_map]; exact h.count
  ok i w hw := by
    obtain ⟨v, hv, rfl⟩ := Option.map_eq_some_iff.mp ((List.getElem?_map ..).symm.trans hw)
    obtain ⟨hi, hok⟩ := h.ok i v hv
    exact ⟨Worker.join_index.trans hi, hok.join⟩
  threads _ w hw := by
    obtain ⟨v, hv, rfl⟩ := List.mem_map.mp hw
    rw [Worker.started, Worker.join_pc]
    exact h.threads_idle hg v hv
  rollback f hf := by rw [show s.group = _ from hf] at hg; cases hg
  asked hs w hw := by
    obtain ⟨v, hv, rfl⟩ := List.mem_map.mp hw
    rw [Worker.join_drainRequested, Worker.join_stopRequested]
    exact h.asked (hb ▸ hs) v hv
  gone _ w hw := by
    obtain ⟨v, hv, rfl⟩ := List.mem_map.mp hw
    rw [Worker.gone, Worker.join_pc]
    exact h.gone hx v hv
  joined _ w hw := by
    obtain ⟨v, hv, rfl⟩ := List.mem_map.mp hw
    refine ⟨?_, Worker.join_joined (h.threads_idle hg v hv)⟩
    rw [Worker.gone, Worker.join_pc]
    exact h.gone hx v hv
  retired := h.retired

theorem Crew.destroy (hg : s.group = .idle)
    (hp : s.control.pc.phase = .finishing) : Crew cfg hooks { s with
      control := c, workers := [], retired := s.retired ++ s.workers.map Worker.stop } where
  fresh hi := absurd hg hi
  count := Nat.zero_le _
  ok i w hw := by simp at hw
  threads _ w hw := by cases hw
  rollback f _ w hw := by cases hw
  asked _ w hw := by cases hw
  gone _ w hw := by cases hw
  joined _ w hw := by cases hw
  retired w hw := by
    rcases List.mem_append.mp hw with hw | hw
    · exact h.retired w hw
    · obtain ⟨v, hv, rfl⟩ := List.mem_map.mp hw
      obtain ⟨i, hi⟩ := List.mem_iff_getElem?.mp hv
      have hstarted := h.threads_idle hg v hv
      obtain ⟨hgone, hjoined⟩ := h.joined hp v hv
      exact (h.ok i v hi).2.stop.ended (Worker.stop_asked hstarted)
        (Worker.stop_pc.trans (Worker.exited_of_gone hgone hstarted))
        (Worker.stop_joined.trans hjoined)

theorem Crew.follow (hs : s.Shape) (ha : Advances s.control c) : (s.follow c).Crew cfg hooks := by
  cases ha with
  | stays hk state phase =>
    rw [follow_of_same phase hk.log]
    exact h.withControl (fun hb => .inl (state ▸ hb)) (fun hx => .inl (hk.exited ▸ hx))
      (fun hp => phase.symm.trans hp)
  | starts hk was pos state phase | aborts hk pos state phase =>
    rw [follow_of_log (by simp [pos]) hk.log]
    exact h.withControl (by simp [state, LifecycleState.begun]) (fun hx => .inl (hk.exited ▸ hx))
      (by simp [phase])
  | commits log exited pos state phase =>
    rw [follow_of_log (by simp [pos]) log]
    exact h.withControl (by simp [state, LifecycleState.begun]) (fun hx => .inl (exited ▸ hx))
      (by simp [phase])
  | asks call log exited workers was state phase =>
    have hg : s.group = .idle := by
      refine hs.idle fun hp => ?_
      have hst := hs.launching (by rw [hp]; rfl)
      rw [hst] at was
      rcases was with hx | hx <;> cases hx
    rcases phase with hp | ⟨hp, hp'⟩
    · rw [follow_of_phase hp, asked_of_append log]
      exact h.askAll hg call exited fun hx => hp.symm.trans hx
    · rw [follow_of_leaves (by simp [hp])
        (by simp [hp]), asked_of_append log]
      refine h.askAll hg call exited fun hx => ?_
      rw [hp'] at hx
      cases hx
  | joins hk was pos state phase =>
    rw [follow_of_log (by simp [pos]) hk.log]
    exact h.withControl (fun hb => .inl (state ▸ hb)) (fun hx => .inl (hk.exited ▸ hx))
      (by simp [phase])
  | joined hk gone pos state phase =>
    rw [follow_of_joined pos phase, asked_of_log hk.log]
    exact h.joinAll (hs.idle (by simp [pos])) gone state
  | finishes log exited workers pos state phase =>
    rw [follow_of_finishes pos phase, asked_of_log log]
    exact h.destroy (hs.idle (by simp [pos])) pos

end

/-! ## The steps of `workers->Start()` -/

structure Launching (s : Host) : Prop where
  phase : s.control.pc.phase = .group
  state : s.control.state = .starting
  exited : s.control.exited = false

theorem Shape.toLaunching (h : s.Shape) (hp : s.control.pc.phase = .group) : s.Launching := by
  have hst := h.launching (by rw [hp]; rfl)
  refine ⟨hp, hst, ?_⟩
  cases hx : s.control.exited with
  | false => rfl
  | true =>
    have := h.exited hx
    rw [hst] at this
    cases this

theorem Shape.withGroup (h : s.Shape) (hl : s.Launching)
    {ws rs : List Worker} {n : ℕ} (hw : ws ≠ [] → g ≠ .idle) : Shape { s with
      group := g, workerStarted := flags, workers := ws, retired := rs, threads := n } :=
  { h with
    group _ := hl.phase
    housed hx := .inl (hw hx) }

theorem crew_of_launching (hl : s.Launching)
    (hfresh : s.group ≠ .idle → ∀ i, s.workers.length ≤ i → i < cfg.workerCount →
      s.workerStarted[i]? = some false)
    (hcount : s.workers.length ≤ cfg.workerCount)
    (hok : ∀ (i : ℕ) (w : Worker), s.workers[i]? = some w →
      w.index = i ∧ w.Ok hooks s.workerStarted)
    (hthreads : (∀ f, s.group ≠ .stop f ∧ s.group ≠ .join f) → ∀ w ∈ s.workers, w.started = true)
    (hrollback : ∀ f, s.group = .join f → ∀ w ∈ s.workers, w.started = true →
      w.stopRequested = true)
    (hretired : ∀ w ∈ s.retired, w.Ended hooks) : s.Crew cfg hooks where
  fresh := hfresh
  count := hcount
  ok := hok
  threads := hthreads
  rollback := hrollback
  asked hb := by rw [hl.state] at hb; cases hb
  gone hx := by rw [hl.exited] at hx; cases hx
  joined hp := by rw [hl.phase] at hp; cases hp
  retired := hretired

theorem Crew.withGroup (h : s.Crew cfg hooks) (hl : s.Launching)
    (hi : s.group ≠ .idle) (hj : ∀ f, g ≠ .join f)
    (hs : (∀ f, g ≠ .stop f) → ∀ f, s.group ≠ .stop f ∧ s.group ≠ .join f) :
    Crew cfg hooks { s with group := g } :=
  crew_of_launching { hl with } (fun _ => h.fresh hi) h.count h.ok
    (fun hg => h.threads (hs fun f => (hg f).1)) (fun f hf => absurd hf (hj f)) h.retired

theorem Crew.append (h : s.Crew cfg hooks) (hl : s.Launching) (hg : s.group = .create)
    {n : ℕ} (hlt : s.workers.length < cfg.workerCount)
    (hi : w.index = s.workers.length) (hok : w.Ok hooks s.workerStarted) (hj : ∀ f, g ≠ .join f)
    (hs : (∀ f, g ≠ .stop f) → w.started = true) :
    Crew cfg hooks { s with workers := s.workers ++ [w], group := g, threads := n } := by
  refine crew_of_launching { hl with } (fun _ i hlen hi => ?_) ?_ ?_ ?_
    (fun f hf => absurd hf (hj f)) h.retired
  · refine h.fresh (by simp [hg]) i ?_ hi
    have : (s.workers ++ [w]).length ≤ i := hlen
    rw [List.length_append] at this
    omega
  · show (s.workers ++ [w]).length ≤ _
    rw [List.length_append]
    exact hlt
  · intro i v hv
    rcases Nat.lt_or_ge i s.workers.length with hlt | hge
    · exact h.ok i v ((List.getElem?_append_left hlt).symm.trans hv)
    · rw [List.getElem?_append_right hge] at hv
      have hzero : i - s.workers.length = 0 := by
        by_contra hne
        rw [List.getElem?_eq_none (by simp; omega)] at hv
        cases hv
      rw [hzero] at hv
      cases hv
      exact ⟨by omega, hok⟩
  · intro hx v hv
    rcases List.mem_append.mp hv with hv | hv
    · refine h.threads ?_ v hv
      rw [hg]
      exact fun f => ⟨nofun, nofun⟩
    · obtain rfl := List.mem_singleton.mp hv
      exact hs fun f => (hx f).1

def phaseAfter : GroupStart → Phase
  | .ok => .commit
  | .failed _ => .abort
  | .threw => .elsewhere

theorem groupReturns_keeps (hs : s.Shape) (h : s.Crew cfg hooks) (hl : s.Launching)
    {o : GroupStart} (ho : o = .ok ∧ (∀ w ∈ s.workers, w.started = true) ∨ s.workers = [])
    (hr : s.groupReturns cfg o = some s') : s'.Shape ∧ s'.Crew cfg hooks := by
  obtain ⟨c, hc, rfl⟩ := Option.map_eq_some_iff.mp hr
  have hreturn : c.state = .starting ∧ Keeps s.control c ∧
      c.pc.phase = phaseAfter o := by
    cases hpc : s.control.pc with
    | groupStart run =>
      unfold RuntimeControl.control at hc
      rw [hpc] at hc
      cases o <;> cases hc <;> exact ⟨hl.state, ⟨rfl, rfl, rfl⟩, rfl⟩
    | _ =>
      have hp := hl.phase
      rw [hpc] at hp
      cases hp
  obtain ⟨hstate, hk, hphase⟩ := hreturn
  have hnf : c.pc.phase ≠ .finishing := by
    rw [hphase]
    cases o <;> exact Phase.noConfusion
  refine ⟨⟨fun hx => absurd rfl hx, fun _ => hstate, fun _ => ?_, fun hx => ?_, fun hx => ?_,
    fun hx => ?_, fun _ => ?_⟩, ⟨fun hx => absurd rfl hx, h.count, h.ok, fun _ w hw => ?_,
    fun f hf => (by cases hf), fun hx => ?_, fun hx => ?_, fun hx => absurd hx hnf, h.retired⟩⟩
  · exact hk.log.trans (hs.log (by rw [hl.state]; rfl))
  · rw [hphase] at hx
    cases o <;> rcases hx with hx | hx <;> cases hx
  · rw [hk.exited, hl.exited] at hx
    cases hx
  · rcases ho with ⟨rfl, -⟩ | hempty
    · exact .inr (.inl hphase)
    · exact absurd hempty hx
  · exact hk.workers.trans (hs.unpublished (by rw [hl.state]; rfl))
  · rcases ho with ⟨-, ho⟩ | hempty
    · exact ho w hw
    · rw [hempty] at hw
      cases hw
  · rw [hstate] at hx
    cases hx
  · rw [hk.exited, hl.exited] at hx
    cases hx

theorem Crew.stopAll (h : s.Crew cfg hooks) (hl : s.Launching) {f : GroupStart}
    (hg : s.group = .stop f) :
    Crew cfg hooks { s with workers := s.workers.map Worker.stop, group := .join f } := by
  refine crew_of_launching { hl with } (fun _ i hlen hi => ?_) ?_ ?_ ?_ ?_
    h.retired
  · refine h.fresh (by simp [hg]) i ?_ hi
    exact Nat.le_trans (Nat.le_of_eq (List.length_map ..).symm) hlen
  · exact Nat.le_trans (Nat.le_of_eq (List.length_map ..)) h.count
  · intro i w hw
    obtain ⟨v, hv, rfl⟩ := Option.map_eq_some_iff.mp ((List.getElem?_map ..).symm.trans hw)
    obtain ⟨hi, hok⟩ := h.ok i v hv
    exact ⟨Worker.stop_index.trans hi, hok.stop⟩
  · intro hx
    exact absurd rfl (hx f).2
  · intro _ _ w hw hstarted
    obtain ⟨v, hv, rfl⟩ := List.mem_map.mp hw
    rw [Worker.started, Worker.stop_pc] at hstarted
    exact Worker.stop_asked hstarted

theorem Crew.retire (h : s.Crew cfg hooks) (hl : s.Launching) {f : GroupStart}
    (hg : s.group = .join f) (hall : s.allOver = true) : Crew cfg hooks { s with
      group := .idle
      workers := []
      retired := s.retired ++ (s.workers.filter Worker.started).map Worker.join } := by
  refine crew_of_launching { hl with } (fun hx => absurd rfl hx)
    (Nat.zero_le _) ?_ ?_ ?_ ?_
  · intro i w hw
    simp at hw
  · intro _ w hw
    cases hw
  · intro _ _ w hw
    cases hw
  · intro w hw
    rcases List.mem_append.mp hw with hw | hw
    · exact h.retired w hw
    · obtain ⟨v, hv, rfl⟩ := List.mem_map.mp hw
      obtain ⟨hv, hstarted⟩ := List.mem_filter.mp hv
      obtain ⟨i, hi⟩ := List.mem_iff_getElem?.mp hv
      have hexit := Worker.exited_of_gone (List.all_eq_true.mp hall v hv) hstarted
      exact (h.ok i v hi).2.join.ended
        (Worker.join_stopRequested.trans (h.rollback f hg v hv hstarted))
        (Worker.join_pc.trans hexit) (Worker.join_joined hstarted)

theorem groupStep_keeps (hs : s.Shape) (h : s.Crew cfg hooks) (hp : s.control.pc.phase = .group)
    {o : Creation} (hg : s.groupStep b cfg o = some s') : s'.Shape ∧ s'.Crew cfg hooks := by
  have hl := hs.toLaunching hp
  unfold groupStep at hg
  cases hgroup : s.group with
  | idle =>
    have hempty := hs.empty hgroup (by simp [hp]) (by rw [hl.state]; rfl)
    rw [hgroup] at hg
    by_cases ho : o = .ok
    · rw [if_pos ho] at hg
      cases hg
      refine ⟨hs.withGroup hl nofun, crew_of_launching
        { hl with } (fun _ i _ hi => ?_) h.count (fun i w hw => ?_)
        (fun _ => h.threads_idle hgroup) (fun f hf => (by cases hf)) h.retired⟩
      · exact List.getElem?_replicate_of_lt hi
      · rw [hempty] at hw
        simp at hw
    · rw [if_neg ho] at hg
      exact groupReturns_keeps hs h hl (.inr hempty) hg
  | create =>
    have hne : s.group ≠ .idle := by simp [hgroup]
    have hnr : ∀ f, s.group ≠ .stop f ∧ s.group ≠ .join f := by
      rw [hgroup]
      exact fun f => ⟨nofun, nofun⟩
    rw [hgroup] at hg
    by_cases hfull : s.workers.length = (groupOptions cfg).workerNum
    · rw [if_pos hfull] at hg
      exact groupReturns_keeps hs h hl (.inl ⟨rfl, h.threads hnr⟩) hg
    rw [if_neg hfull] at hg
    have hlt : s.workers.length < cfg.workerCount := Nat.lt_of_le_of_ne h.count hfull
    have hflag := h.fresh hne _ (Nat.le_refl _) hlt
    cases o with
    | ok =>
      cases hg
      exact ⟨hs.withGroup hl nofun, h.append hl hgroup hlt rfl
        (Worker.ok_create hflag) nofun fun _ => rfl⟩
    | noMemory =>
      cases hg
      exact ⟨hs.withGroup hl nofun,
        h.withGroup hl hne nofun fun _ => hnr⟩
    | noThread =>
      cases hg
      exact ⟨hs.withGroup hl nofun, h.append hl hgroup hlt rfl
        (Worker.ok_threadless hflag) nofun fun hx => absurd rfl (hx _)⟩
  | wait =>
    have hne : s.group ≠ .idle := by simp [hgroup]
    have hnr : ∀ f, s.group ≠ .stop f ∧ s.group ≠ .join f := by
      rw [hgroup]
      exact fun f => ⟨nofun, nofun⟩
    have hmove : ∃ g, s' = { s with group := g } ∧ g ≠ .idle ∧ ∀ f, g ≠ .join f := by
      rw [hgroup] at hg
      dsimp only at hg
      split at hg
      · cases hg
      · split at hg
        · exact ⟨_, (Option.some.inj hg).symm, nofun, nofun⟩
        · exact ⟨_, (Option.some.inj hg).symm, nofun, nofun⟩
        · obtain ⟨-, hg⟩ := Option.ite_none_right_eq_some.mp hg
          exact ⟨_, (Option.some.inj hg).symm, nofun, nofun⟩
    obtain ⟨g, rfl, hgi, hgj⟩ := hmove
    exact ⟨hs.withGroup hl fun _ => hgi, h.withGroup hl hne hgj fun _ => hnr⟩
  | stop f =>
    rw [hgroup] at hg
    cases hg
    exact ⟨hs.withGroup hl nofun, h.stopAll hl hgroup⟩
  | join f =>
    rw [hgroup] at hg
    obtain ⟨hall, hg⟩ := Option.ite_none_right_eq_some.mp hg
    exact groupReturns_keeps (s := { s with
      group := .idle
      workers := []
      retired := s.retired ++ (s.workers.filter Worker.started).map Worker.join })
      (hs.withGroup hl fun hx => absurd rfl hx) (h.retire hl hgroup hall)
      { hl with } (.inr rfl) hg

/-! ## The steps of the workers -/

theorem Crew.worker (h : s.Crew cfg hooks) {i : ℕ} {a : WorkerAction} {w w' : Worker}
    (hw : s.workers[i]? = some w)
    (hstep : w.step b hooks a s.workerStarted = some (flags, w')) :
    Crew cfg hooks { s with workerStarted := flags, workers := s.workers.set i w' } := by
  have hfr := Worker.step_framed hstep
  obtain ⟨hindex, hok⟩ := h.ok i w hw
  obtain ⟨hlt, -⟩ := List.getElem?_eq_some_iff.mp hw
  have hmem := List.mem_of_getElem? hw
  have hflags {j : ℕ} (hj : j ≠ i) : flags[j]? = s.workerStarted[j]? := by
    rcases hfr.flags with hf | hf
    · rw [hf]
    · rw [hf, hindex, List.getElem?_set_ne (Ne.symm hj)]
  have hall {P : Worker → Prop} (hv : ∀ v ∈ s.workers, P v) (hp : P w') :
      ∀ v ∈ s.workers.set i w', P v := fun v hv' =>
    (List.mem_or_eq_of_mem_set hv').elim (hv v) fun hx => hx ▸ hp
  have hnever {P : Prop} (hgone : ∀ v ∈ s.workers, v.gone = true) : P := by
    have := hgone w hmem
    rw [hfr.running] at this
    cases this
  refine ⟨fun hg j hj hn => ?_, ?_, fun j v hv => ?_, fun hg => hall (h.threads hg) hfr.started,
    fun f hf => hall (h.rollback f hf) fun _ => ?_, fun hb => hall (h.asked hb) ?_,
    fun hx => hnever (h.gone hx), fun hp => hnever fun v hv => (h.joined hp v hv).1, h.retired⟩
  · have hj : s.workers.length ≤ j := Nat.le_trans (Nat.le_of_eq List.length_set.symm) hj
    rw [hflags (by omega)]
    exact h.fresh hg j hj hn
  · exact Nat.le_trans (Nat.le_of_eq List.length_set) h.count
  · by_cases hj : j = i
    · subst hj
      cases (List.getElem?_set_self hlt).symm.trans hv
      exact ⟨hfr.index.trans hindex, hok.step hstep⟩
    · obtain ⟨hvi, hvok⟩ := h.ok j v ((List.getElem?_set_ne (Ne.symm hj)).symm.trans hv)
      refine ⟨hvi, ?_⟩
      rcases hfr.flags with hf | hf
      · rw [hf]
        exact hvok
      · rw [hf]
        exact hvok.frame (by rw [hindex, hvi]; exact Ne.symm hj) true
  · rw [hfr.stopRequested]
    refine h.rollback f hf w hmem ?_
    have hrun := hfr.running
    unfold Worker.gone at hrun
    unfold Worker.started
    simp at hrun ⊢
    exact hrun.2
  · rw [hfr.stopRequested, hfr.drainRequested]
    exact h.asked hb w hmem

theorem Shape.worker (h : s.Shape) {i : ℕ} {w' : Worker} :
    Shape { s with workerStarted := flags, workers := s.workers.set i w' } :=
  { h with housed := fun hx => h.housed fun hempty => hx (by
      show s.workers.set i w' = []
      rw [hempty]
      rfl) }

/-! ## Every run -/

theorem step_keeps (hs : s.Shape) (h : s.Crew cfg hooks) {a : Action}
    (hstep : step b cfg hooks a s = some s') : s'.Shape ∧ s'.Crew cfg hooks := by
  unfold step at hstep
  cases a with
  | control a =>
    obtain ⟨hen, hstep⟩ := Option.ite_none_right_eq_some.mp hstep
    obtain ⟨c, hc, rfl⟩ := Option.map_eq_some_iff.mp hstep
    by_cases hx : a = .workersExit
    · subst hx
      obtain ⟨hlog, rfl⟩ := of_guard hc
      have hb : s.control.state.begun = true := by
        by_contra hb
        exact hlog (hs.log (by simpa using hb))
      rw [follow_exited]
      exact ⟨{ hs with exited := fun _ => hb }, h.withControl .inl (fun _ => .inr hen) id⟩
    · have hadv := advances_of_step (fun o ho => by subst ho; exact of_decide_eq_true hen) hx hc
      exact ⟨hs.follow hadv, h.follow hs hadv⟩
  | group o =>
    obtain ⟨hp, hstep⟩ := Option.ite_none_right_eq_some.mp hstep
    exact groupStep_keeps hs h hp hstep
  | worker i a =>
    dsimp only at hstep
    split at hstep
    · cases hstep
    · rename_i w hw
      obtain ⟨⟨flags, w'⟩, hw', rfl⟩ := Option.map_eq_some_iff.mp hstep
      exact ⟨hs.worker, h.worker hw hw'⟩

theorem keeps_of_reaches (h : (system b cfg hooks).Reaches s) : s.Shape ∧ s.Crew cfg hooks := by
  refine h.invariant (I := fun s => s.Shape ∧ s.Crew cfg hooks) ?_ ?_
  · rintro s rfl
    exact ⟨shape_create, crew_create⟩
  · intro s a s' hI _ hstep
    exact step_keeps hI.1 hI.2 hstep

end Host

end Alyrn.Runtime
