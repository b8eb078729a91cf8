import Alyrn.Runtime.Control

/-!
# The drain and its second request

With a positive grace period the first stop request asks the workers to drain, and only a second
one may cut the drain short. But the control thread takes part in a request: `Run()` calls `Stop()`
once it sees the flag, and `Start()` replays a request recorded while it was starting. One request
is enough to lose the grace period (`immediate_stop_after_one_request`), where the control thread
begins the drain between the two halves of an external request (`Overtakes`), or replays a request
that has begun the drain itself (`ReplaysBegun`), and nowhere else (`drain_kept`).

The invariant counts the requests that have not taken the lock yet (`inFlight`): once stopping
has begun there is at least one request more than those.
-/

namespace Alyrn.Runtime

open Transition

def LifecycleState.begun : LifecycleState → Bool
  | .draining | .stopping | .stopped => true
  | _ => false

/-- `Start` has published its worker group. -/
def LifecycleState.published : LifecycleState → Bool
  | .created | .starting => false
  | _ => true

namespace ControlPc

/-- The control thread carries a request of its caller that has not taken the lock. -/
@[simp] def ownRequest : ControlPc → ℕ
  | .callbackStore | .callbackLock | .stopLock false => 1
  | _ => 0

/-- Inside `Start`, before the group is published. -/
@[simp] def starting : ControlPc → Bool
  | .groupStart _ | .startAbort _ _ | .startCommit _ => true
  | _ => false

/-- From the publication of the group to the construction of `Run`'s callback. -/
@[simp] def publishing : ControlPc → Bool
  | .startLoad _ | .replayStore _ | .replayLock _ | .register => true
  | _ => false

/-- The steps that follow a load of the flag which returned `true`. -/
@[simp] def sawFlag : ControlPc → Bool
  | .replayStore _ | .replayLock _ | .stopLock true => true
  | _ => false

@[simp] def joining : ControlPc → Bool
  | .join _ | .finish _ => true
  | _ => false

end ControlPc

namespace RuntimeControl

/-- The stop requests under way. -/
def inFlight (s : RuntimeControl) : ℕ :=
  s.calls.length + (if s.token = .pending then 1 else 0) + s.pc.ownRequest

/-- The control thread is about to begin the drain by itself while an external request has
published the flag and not yet taken the lock. -/
def Overtakes (s : RuntimeControl) : Prop :=
  s.state = .running ∧
    (s.pc = .stopLock true ∨ s.pc = .replayLock true ∨ s.pc = .replayLock false) ∧
    .published ∈ s.calls

/-- `Start` is about to replay a request although the drain has begun. -/
def ReplaysBegun (s : RuntimeControl) : Prop :=
  s.state = .draining ∧ (s.pc = .replayLock true ∨ s.pc = .replayLock false)

instance : DecidablePred Overtakes := fun s => by unfold Overtakes; infer_instance
instance : DecidablePred ReplaysBegun := fun s => by unfold ReplaysBegun; infer_instance

/-- The condition on a step: before a second request has been made, the control thread neither
overtakes a request nor replays one that began the drain. -/
def Orderly (s : RuntimeControl) : Action → Prop
  | .control _ => s.requests < 2 → ¬ Overtakes s ∧ ¬ ReplaysBegun s
  | _ => True

instance (s : RuntimeControl) (a : Action) : Decidable (Orderly s a) := by
  cases a <;> dsimp only [Orderly] <;> infer_instance

/-- What one stop request is promised: the workers are stopped at once from the draining state
only after a second request, and with a single request everything the workers are ever asked is
one drain, under the configured grace period. -/
def DrainKept (cfg : Config) (s : RuntimeControl) : Prop :=
  (.requestStop .draining ∈ s.log → 2 ≤ s.requests) ∧
    (s.requests < 2 → s.state.begun = true → s.log = [.requestDrain]) ∧
    ∀ g, s.workers = some g → g.shutdownGrace = cfg.shutdownGrace

/-! ## The invariant -/

/-- The invariant of a run. -/
structure Inv (cfg : Config) (s : RuntimeControl) : Prop where
  count : s.inFlight ≤ s.requests
  flag : s.requests < 2 → s.stopRequested = true →
    .published ∈ s.calls ∨ s.pc = .callbackLock ∨ s.inFlight + 1 ≤ s.requests
  begun : s.requests < 2 → s.state.begun = true → s.inFlight + 1 ≤ s.requests
  log : s.requests < 2 → s.log = if s.state.begun then [.requestDrain] else []
  notStopping : s.requests < 2 → s.state ≠ .stopping
  sawFlag : s.pc.sawFlag = true → s.stopRequested = true
  starting : s.pc.starting = true → s.state = .starting
  publishing : s.pc.publishing = true → s.state.published = true
  joining : s.pc.joining = true → s.state.begun = true
  token : s.token = .registered ∨ s.token = .fired →
    s.state.published = true ∧ s.pc.publishing = false
  options : ∀ g, s.workers = some g → g = groupOptions cfg

theorem inv_create (cfg : Config) : Inv cfg create := by
  constructor <;> simp [create, inFlight, LifecycleState.begun]

section

variable {cfg : Config} {s s' : RuntimeControl}

theorem requestStopLocked_cases (hg : 0 < cfg.shutdownGrace) (s : RuntimeControl) :
    (s.state = .running ∧ requestStopLocked cfg s =
        { s with state := .draining, log := s.log ++ [.requestDrain] }) ∨
      (s.state = .draining ∧ requestStopLocked cfg s =
        { s with state := .stopping, log := s.log ++ [.requestStop .draining] }) ∨
      (s.state ≠ .running ∧ s.state ≠ .draining ∧ requestStopLocked cfg s = s) := by
  unfold requestStopLocked beginStopLocked
  cases hs : s.state <;> simp [hg]

@[simp] theorem requestStopLocked_pc (cfg : Config) (s : RuntimeControl) :
    (requestStopLocked cfg s).pc = s.pc := by
  unfold requestStopLocked beginStopLocked
  split
  · split_ifs <;> rfl
  all_goals rfl

theorem requestStopLocked_withPc (cfg : Config) (s : RuntimeControl) (pc : ControlPc) :
    { requestStopLocked cfg s with pc := pc } = requestStopLocked cfg { s with pc := pc } := by
  unfold requestStopLocked beginStopLocked
  dsimp only
  split
  · split_ifs <;> rfl
  all_goals rfl

variable (hs : Inv cfg s) {run : Bool} {pc : ControlPc}
include hs

theorem Inv.withPc (pc : ControlPc) (r : Option (Except Error Unit)) (j : Bool)
    (hown : pc.ownRequest = 0) (hsaw : pc.sawFlag = true → s.stopRequested = true)
    (hstarting : pc.starting = true → s.state = .starting)
    (hpub : pc.publishing = true → s.state.published = true ∧
      ¬ (s.token = .registered ∨ s.token = .fired))
    (hjoin : pc.joining = true → s.state.begun = true) :
    Inv cfg { s with pc := pc, result := r, joining := j } := by
  have hcount := hs.count
  have hle : inFlight { s with pc := pc, result := r, joining := j } + s.pc.ownRequest =
      s.inFlight := by
    unfold inFlight
    dsimp only
    omega
  refine ⟨by dsimp only; omega, fun hr hf => ?_, fun hr hb => ?_, hs.log, hs.notStopping, hsaw,
    hstarting, fun h => (hpub h).1, hjoin, fun ht => ⟨(hs.token ht).1, ?_⟩, hs.options⟩
  · rcases hs.flag hr hf with h | h | h
    · exact .inl h
    · rw [h] at hle
      dsimp only [ControlPc.ownRequest] at hle hr ⊢
      exact .inr (.inr (by omega))
    · exact .inr (.inr (by dsimp only; omega))
  · have h := hs.begun hr hb
    dsimp only
    omega
  · cases hp : pc.publishing with
    | false => rfl
    | true => exact absurd ht (hpub hp).2

theorem Inv.withToken {t : Token}
    (hpend : (if t = .pending then 1 else 0) ≤ if s.token = .pending then 1 else 0)
    (ht : t = .registered ∨ t = .fired → s.state.published = true ∧ s.pc.publishing = false) :
    Inv cfg { s with token := t } := by
  have hle : inFlight { s with token := t } ≤ s.inFlight := by
    unfold inFlight
    dsimp only
    omega
  refine { hs with count := Nat.le_trans hle hs.count, flag := ?_, begun := ?_, token := ht }
  · intro hr hf
    exact (hs.flag hr hf).imp_right (Or.imp_right (Nat.le_trans (Nat.add_le_add_right hle 1)))
  · intro hr hb
    exact Nat.le_trans (Nat.add_le_add_right hle 1) (hs.begun hr hb)

theorem Inv.beginDrain (hstate : s.state = .running)
    (hcover : s.requests < 2 → s.inFlight + 1 ≤ s.requests) :
    Inv cfg { s with state := .draining, log := s.log ++ [.requestDrain] } := by
  refine ⟨hs.count, hs.flag, fun hr _ => hcover hr, fun hr => ?_, by simp, hs.sawFlag, fun hp => ?_,
    fun _ => rfl, fun _ => rfl, fun ht => ⟨rfl, (hs.token ht).2⟩, hs.options⟩
  · have h := hs.log hr
    rw [hstate] at h
    simp only [LifecycleState.begun] at h ⊢
    simp [h]
  · exact absurd (hstate.symm.trans (hs.starting hp)) (by decide)

theorem Inv.requestStopLocked (hg : 0 < cfg.shutdownGrace)
    (hcover : s.state = .running → s.requests < 2 → s.inFlight + 1 ≤ s.requests)
    (hsecond : s.state = .draining → 2 ≤ s.requests) : Inv cfg (requestStopLocked cfg s) := by
  rcases requestStopLocked_cases hg s with ⟨hst, heq⟩ | ⟨hst, heq⟩ | ⟨-, -, heq⟩
  · rw [heq]
    exact hs.beginDrain hst (hcover hst)
  · rw [heq]
    have h2 := hsecond hst
    have hlt : ∀ {p : Prop}, s.requests < 2 → p := fun h => absurd h (by omega)
    exact ⟨hs.count, fun h _ => hlt h, fun h _ => hlt h, fun h => hlt h, fun h => hlt h,
      hs.sawFlag, fun h => absurd (hst.symm.trans (hs.starting h)) (by decide), fun _ => rfl,
      fun _ => rfl, fun ht => ⟨rfl, (hs.token ht).2⟩, hs.options⟩
  · rw [heq]
    exact hs

theorem Inv.afterStop (run : Bool) : Inv cfg (afterStop run s) := by
  have hpc := hs.withPc .idle (some (.ok ())) s.joining rfl nofun nofun nofun nofun
  unfold RuntimeControl.afterStop
  by_cases ht : run = true ∧ s.token = .registered
  · rw [if_pos ht]
    exact hpc.withToken (Nat.zero_le _) (by simp)
  · rw [if_neg ht]
    exact hpc

theorem Inv.of_publishing (h : s.pc.publishing = true) :
    s.state.published = true ∧ ¬ (s.token = .registered ∨ s.token = .fired) := by
  refine ⟨hs.publishing h, fun ht => ?_⟩
  rw [(hs.token ht).2] at h
  cases h

theorem Inv.afterStart (run : Bool) (hpub : s.pc.publishing = true) :
    Inv cfg (afterStart run s) := by
  cases run with
  | true =>
    exact hs.withPc _ s.result s.joining rfl nofun nofun (fun _ => hs.of_publishing hpub) nofun
  | false => exact hs.withPc _ _ s.joining rfl nofun nofun nofun nofun

theorem Inv.startLocked (run fresh : Bool) (hidle : s.pc = .idle) :
    Inv cfg (startLocked cfg run fresh s) := by
  unfold RuntimeControl.startLocked
  by_cases hc : s.state ≠ .created
  · rw [if_pos hc]
    exact { hs with }
  rw [if_neg hc]
  by_cases hinv : cfg.workerCount = 0 ∨ cfg.hasConnectionHandler = false
  · rw [if_pos hinv]
    exact { hs with }
  rw [if_neg hinv]
  have hcr : s.state = .created := not_not.mp hc
  have hcount := hs.count
  refine ⟨?_, by simp, by simp [LifecycleState.begun], ?_, by simp, nofun, fun _ => rfl, nofun,
    nofun, ?_, hs.options⟩
  · -- a fresh token may take a pending request with it
    simp only [inFlight, hidle] at hcount ⊢
    cases fresh <;> simp at hcount ⊢ <;> omega
  · intro hr
    have h := hs.log hr
    rw [hcr] at h
    simpa [LifecycleState.begun] using h
  · intro ht
    cases fresh with
    | true => simp at ht
    | false =>
      have := (hs.token ht).1
      rw [hcr] at this
      exact absurd this (by decide)

theorem Inv.atStopLock (run : Bool) (hpc : s.pc = .stopLock run) :
    Inv cfg { s with stopRequested := true, pc := .stopLock true } ∧
      (s.requests < 2 → (run = true ∧ .published ∈ s.calls) ∨
        inFlight { s with stopRequested := true, pc := .stopLock true } + 1 ≤ s.requests) := by
  cases run with
  | true =>
    have hf : s.stopRequested = true := hs.sawFlag (by rw [hpc]; rfl)
    have heq : { s with stopRequested := true, pc := .stopLock true } = s := by
      rw [← hpc]
      conv_lhs => rw [← hf]
    rw [heq]
    refine ⟨hs, fun hr => ?_⟩
    rcases hs.flag hr hf with h | h | h
    · exact .inl ⟨rfl, h⟩
    · simp [hpc] at h
    · exact .inr h
  | false =>
    have hcov : inFlight { s with stopRequested := true, pc := .stopLock true } + 1 ≤
        s.requests := by
      have := hs.count
      simpa [inFlight, hpc] using this
    refine ⟨⟨Nat.le_of_succ_le hcov, fun _ _ => .inr (.inr hcov), fun _ _ => hcov, hs.log,
      hs.notStopping, fun _ => rfl, nofun, nofun, nofun, fun ht => ⟨(hs.token ht).1, rfl⟩,
      hs.options⟩, fun _ => .inr hcov⟩

theorem Inv.stopLocked (run : Bool) (hg : 0 < cfg.shutdownGrace) (hpc : s.pc = .stopLock run)
    (hover : s.requests < 2 → ¬ Overtakes s) : Inv cfg (stopLocked cfg run s) := by
  unfold RuntimeControl.stopLocked
  by_cases hret : s.state = .created ∨ s.state = .stopped ∨ s.state = .starting ∨ s.joining = true
  · rw [if_pos hret]
    exact hs.afterStop run
  rw [if_neg hret]
  obtain ⟨hs₁, hcover⟩ := hs.atStopLock run hpc
  have toJoin {t : RuntimeControl} (ht : Inv cfg t) (hb : t.state.begun = true) :
      Inv cfg { t with joining := true, pc := .join run } :=
    ht.withPc _ t.result true rfl nofun nofun nofun fun _ => hb
  by_cases hrun : s.state = .running
  · have hbegin := hs₁.beginDrain hrun fun hr => (hcover hr).resolve_left
      fun h => hover hr ⟨hrun, .inl (by rw [hpc, h.1]), h.2⟩
    simpa only [hrun, if_true, beginStopLocked, hg] using toJoin hbegin rfl
  · have hbegun : s.state.begun = true := by
      revert hret hrun
      cases s.state <;> simp [LifecycleState.begun]
    simpa only [if_neg hrun] using toJoin hs₁ hbegun

theorem Inv.leaveStarting {st : LifecycleState} {f : Bool}
    {w : Option WorkerGroupOptions} (r : Option (Except Error Unit))
    (hpc : s.pc.starting = true) (hst : st.begun = false)
    (hf : f = true → s.stopRequested = true) (hcb : pc.ownRequest = 0) (hsaw : pc.sawFlag = false)
    (hstarting : pc.starting = false) (hpub : pc.publishing = true → st.published = true)
    (hjoin : pc.joining = false) (hw : ∀ g, w = some g → g = groupOptions cfg) :
    Inv cfg { s with
      state := st, pc := pc, stopRequested := f, workers := w, result := r } := by
  have hstate := hs.starting hpc
  have hown : s.pc.ownRequest = 0 := by
    revert hpc
    cases s.pc <;> simp
  have hin : inFlight { s with
      state := st, pc := pc, stopRequested := f, workers := w, result := r } = s.inFlight := by
    simp only [inFlight, hown, hcb]
  refine ⟨hin ▸ hs.count, ?_, by simp [hst], ?_, ?_, by rw [hsaw]; simp,
    by rw [hstarting]; simp, hpub, by rw [hjoin]; simp, ?_, hw⟩
  · intro hr h
    rcases hs.flag hr (hf h) with h | h | h
    · exact .inl h
    · rw [h] at hpc
      cases hpc
    · exact .inr (.inr (hin ▸ h))
  · intro hr
    have hlog : s.log = [] := by simpa [hstate, LifecycleState.begun] using hs.log hr
    simp [hst, hlog]
  · rintro - rfl
    cases hst
  · intro ht
    have := (hs.token ht).1
    rw [hstate] at this
    cases this

/-! ### The steps of the control thread -/

theorem Inv.groupStart (hpc : s.pc = .groupStart run) (pc : ControlPc)
    (r : Option (Except Error Unit)) (h : pc = .idle ∨ pc.starting = true) :
    Inv cfg { s with pc := pc, result := r } := by
  have hstarting := hs.starting (by rw [hpc]; rfl)
  refine hs.withPc _ r s.joining ?_ ?_ (fun _ => hstarting) ?_ ?_
  all_goals
    rcases h with rfl | h
    · first | rfl | nofun
    · revert h
      cases pc <;> simp

theorem Inv.startLoad (hpc : s.pc = .startLoad run) :
    Inv cfg (if s.stopRequested then { s with pc := .replayStore run } else
      RuntimeControl.afterStart run s) := by
  have hpub : s.pc.publishing = true := by rw [hpc]; rfl
  split_ifs with hf
  · exact hs.withPc _ s.result s.joining rfl (fun _ => hf) nofun (fun _ => hs.of_publishing hpub)
      nofun
  · exact hs.afterStart run hpub

theorem Inv.replayStore (hpc : s.pc = .replayStore run) :
    Inv cfg { s with stopRequested := true, pc := .replayLock run } := by
  have hf := hs.sawFlag (by rw [hpc]; rfl)
  have hpub : s.pc.publishing = true := by rw [hpc]; rfl
  simpa only [hf] using hs.withPc (.replayLock run) s.result s.joining rfl (fun _ => hf) nofun
    (fun _ => hs.of_publishing hpub) nofun

theorem Inv.replayLock (hg : 0 < cfg.shutdownGrace) (hpc : s.pc = .replayLock run)
    (hc : s.requests < 2 → ¬ Overtakes s ∧ ¬ ReplaysBegun s) :
    Inv cfg (RuntimeControl.afterStart run (RuntimeControl.requestStopLocked cfg s)) := by
  have hrl : s.pc = .replayLock true ∨ s.pc = .replayLock false := by cases run <;> simp [hpc]
  have hf := hs.sawFlag (by rw [hpc]; rfl)
  refine Inv.afterStart (hs.requestStopLocked hg ?_ ?_) run (by simp [hpc])
  · -- the flag was seen, and no request stands between its two halves
    intro hrun hr
    rcases hs.flag hr hf with hp | hp | hp
    · exact absurd ⟨hrun, .inr hrl, hp⟩ (hc hr).1
    · simp [hpc] at hp
    · exact hp
  · intro hd
    by_contra hr
    exact (hc (by omega)).2 ⟨hd, hrl⟩

theorem Inv.waiting : Inv cfg { s with pc := .waitForStop } :=
  hs.withPc _ s.result s.joining rfl nofun nofun nofun nofun

theorem Inv.callbackStore {t : Token} {f : Bool}
    (hpc : pc = .callbackStore ∧ f = s.stopRequested ∨ pc = .callbackLock)
    (hin : inFlight { s with pc := pc, stopRequested := f, token := t } = s.inFlight)
    (hcb : s.pc ≠ .callbackLock) (hpub : t = .registered ∨ t = .fired → s.state.published = true) :
    Inv cfg { s with pc := pc, stopRequested := f, token := t } := by
  refine ⟨hin ▸ hs.count, fun hr hf => ?_, fun hr hb => hin ▸ hs.begun hr hb, hs.log,
    hs.notStopping, ?_, ?_, ?_, ?_, fun ht => ⟨hpub ht, ?_⟩, hs.options⟩
  · rcases hpc with ⟨-, rfl⟩ | rfl
    · rcases hs.flag hr hf with hp | hp | hp
      · exact .inl hp
      · exact absurd hp hcb
      · exact .inr (.inr (hin ▸ hp))
    · exact .inr (.inl rfl)
  all_goals rcases hpc with ⟨rfl, -⟩ | rfl <;> first | rfl | nofun

theorem Inv.register (hpc : s.pc = .register) {o : GroupStart}
    (h : RuntimeControl.control cfg o s = some s') : Inv cfg s' := by
  obtain ⟨hpub, htoken⟩ := hs.of_publishing (by rw [hpc]; rfl)
  unfold RuntimeControl.control at h
  rw [hpc] at h
  cases htok : s.token with
  | quiet =>
    rw [htok] at h
    cases h
    exact hs.waiting.withToken (by simp) fun _ => ⟨hpub, rfl⟩
  | pending =>
    rw [htok] at h
    cases h
    -- the pending request is now the one that the callback carries
    exact hs.callbackStore (.inl ⟨rfl, rfl⟩) (by simp [inFlight, hpc, htok]) (by simp [hpc])
      fun _ => hpub
  | registered => exact absurd (.inl htok) htoken
  | fired => exact absurd (.inr htok) htoken

theorem Inv.callbackLock (hg : 0 < cfg.shutdownGrace) (hpc : s.pc = .callbackLock) :
    Inv cfg { RuntimeControl.requestStopLocked cfg s with pc := .waitForStop } := by
  rw [requestStopLocked_withPc]
  have hin : s.inFlight = inFlight { s with pc := .waitForStop } + 1 := by simp [inFlight, hpc]
  refine hs.waiting.requestStopLocked hg (fun _ _ => hin ▸ hs.count) fun hd => ?_
  have hd : s.state = .draining := hd
  have hcount := hs.count
  by_contra hr
  have hr : ¬ 2 ≤ s.requests := hr
  have := hs.begun (by omega) (by rw [hd]; rfl)
  omega

theorem Inv.finish (hpc : s.pc = .finish run) : Inv cfg (RuntimeControl.afterStop run
    { s with workers := none, joining := false, state := .stopped }) := by
  have hbegun := hs.joining (by rw [hpc]; rfl)
  suffices hs' : Inv cfg { s with workers := none, joining := false, state := .stopped } from
    hs'.afterStop run
  refine ⟨hs.count, hs.flag, fun hr _ => hs.begun hr hbegun, fun hr => ?_, by simp, hs.sawFlag,
    by simp [hpc], fun _ => rfl, fun _ => rfl, fun ht => ⟨rfl, (hs.token ht).2⟩, by simp⟩
  have hlog := hs.log hr
  rw [hbegun] at hlog
  exact hlog

theorem Inv.control (hg : 0 < cfg.shutdownGrace) {o : GroupStart} (hc : Orderly s (.control o))
    (h : control cfg o s = some s') : Inv cfg s' := by
  have hstep := h
  unfold RuntimeControl.control at h
  cases hpc : s.pc with
  | idle => rw [hpc] at h; cases h
  | groupStart run =>
    rw [hpc] at h
    cases o with
    | ok | failed e => cases h; exact hs.groupStart hpc _ s.result (.inr rfl)
    | threw => cases h; exact hs.groupStart hpc _ none (.inl rfl)
  | startAbort run e =>
    rw [hpc] at h
    cases h
    exact hs.leaveStarting (w := s.workers) _ (by rw [hpc]; rfl) rfl nofun rfl rfl rfl nofun rfl
      hs.options
  | startCommit run =>
    rw [hpc] at h
    cases h
    exact hs.leaveStarting (f := s.stopRequested) s.result (by rw [hpc]; rfl) rfl id rfl rfl rfl
      (fun _ => rfl) rfl (by simp)
  | startLoad run =>
    rw [hpc] at h
    dsimp only at h
    rw [← apply_ite some] at h
    cases h
    exact hs.startLoad hpc
  | replayStore run => rw [hpc] at h; cases h; exact hs.replayStore hpc
  | replayLock run => rw [hpc] at h; cases h; exact hs.replayLock hg hpc hc
  | register => exact hs.register hpc hstep
  | callbackStore =>
    rw [hpc] at h
    cases h
    exact hs.callbackStore (.inr rfl) (by simp [inFlight, hpc]) (by simp [hpc])
      fun ht => (hs.token ht).1
  | callbackLock => rw [hpc] at h; cases h; exact hs.callbackLock hg hpc
  | waitForStop =>
    rw [hpc] at h
    obtain ⟨hf, rfl⟩ := of_guard h
    exact hs.withPc _ s.result s.joining rfl (fun _ => hf) nofun nofun nofun
  | stopLock run => rw [hpc] at h; cases h; exact hs.stopLocked run hg hpc fun hr => (hc hr).1
  | join run =>
    rw [hpc] at h
    obtain ⟨-, rfl⟩ := of_guard h
    exact hs.withPc _ s.result s.joining rfl nofun nofun nofun fun _ =>
      hs.joining (by rw [hpc]; rfl)
  | finish run => rw [hpc] at h; cases h; exact hs.finish hpc

/-! ### The other threads -/

theorem Inv.store {i : ℕ} (hi : s.calls[i]? = some .called) :
    Inv cfg { s with stopRequested := true, calls := s.calls.set i .published } := by
  have hlt : i < s.calls.length := (List.getElem?_eq_some_iff.mp hi).1
  have hin : inFlight { s with stopRequested := true, calls := s.calls.set i .published } =
      s.inFlight := by
    simp [inFlight]
  exact { hs with
    count := hin ▸ hs.count, flag := fun _ _ => .inl (List.mem_set hlt _),
    begun := fun hr hb => hin ▸ hs.begun hr hb, sawFlag := fun _ => rfl }

theorem Inv.lock (hg : 0 < cfg.shutdownGrace) {i : ℕ} (hi : s.calls[i]? = some .published) :
    Inv cfg (RuntimeControl.requestStopLocked cfg { s with calls := s.calls.eraseIdx i }) := by
  have hlt : i < s.calls.length := (List.getElem?_eq_some_iff.mp hi).1
  have hin : s.inFlight = inFlight { s with calls := s.calls.eraseIdx i } + 1 := by
    simp only [inFlight, List.length_eraseIdx_of_lt hlt]
    omega
  have hcount : inFlight { s with calls := s.calls.eraseIdx i } + 1 ≤ s.requests :=
    hin ▸ hs.count
  have hs₁ : Inv cfg { s with calls := s.calls.eraseIdx i } :=
    { hs with
      count := Nat.le_of_succ_le hcount, flag := fun _ _ => .inr (.inr hcount),
      begun := fun _ _ => hcount }
  refine hs₁.requestStopLocked hg (fun _ _ => hcount) fun hd => ?_
  have hd : s.state = .draining := hd
  by_contra hr
  have hr : ¬ 2 ≤ s.requests := hr
  have := hs.begun (by omega) (by rw [hd]; rfl)
  omega

theorem Inv.request {calls : List CallPc} {t : Token}
    (hin : inFlight { s with calls := calls, token := t, pc := pc } = s.inFlight + 1)
    (hcalls : ∀ c ∈ s.calls, c ∈ calls) (hpc : pc = s.pc ∨ s.pc = .idle ∧ pc = .stopLock false)
    (ht : t = .registered ∨ t = .fired → s.token = .registered ∨ s.token = .fired) :
    Inv cfg { s with calls := calls, token := t, pc := pc, requests := s.requests + 1 } := by
  have hin' : inFlight { s with
      calls := calls, token := t, pc := pc, requests := s.requests + 1 } = s.inFlight + 1 := hin
  have hkeep (f : ControlPc → Bool) (hf : f (.stopLock false) = false) (h : f pc = true) :
      f s.pc = true := by
    rcases hpc with rfl | ⟨-, rfl⟩
    · exact h
    · rw [hf] at h
      cases h
  refine ⟨?_, ?_, ?_, fun hr => hs.log (Nat.lt_of_succ_lt hr),
    fun hr => hs.notStopping (Nat.lt_of_succ_lt hr), fun h => hs.sawFlag (hkeep _ rfl h),
    fun h => hs.starting (hkeep _ rfl h), fun h => hs.publishing (hkeep _ rfl h),
    fun h => hs.joining (hkeep _ rfl h), fun h => ⟨(hs.token (ht h)).1, ?_⟩, hs.options⟩
  · rw [hin']
    exact Nat.add_le_add_right hs.count 1
  · intro hr hf
    rcases hs.flag (Nat.lt_of_succ_lt hr) hf with h | h | h
    · exact .inl (hcalls _ h)
    · rcases hpc with rfl | ⟨hidle, -⟩
      · exact .inr (.inl h)
      · simp [hidle] at h
    · exact .inr (.inr (hin' ▸ Nat.add_le_add_right h 1))
  · intro hr hb
    exact hin' ▸ Nat.add_le_add_right (hs.begun (Nat.lt_of_succ_lt hr) hb) 1
  · by_contra hp
    exact (hs.of_publishing (hkeep ControlPc.publishing rfl (by simpa using hp))).2 (ht h)

/-- **The step lemma.** A step that meets the condition keeps the invariant. -/
theorem Inv.step (hg : 0 < cfg.shutdownGrace) {a : Action} (hc : Orderly s a)
    (h : step cfg a s = some s') : Inv cfg s' := by
  cases a with
  | start | run fresh =>
    obtain ⟨hidle, rfl⟩ := of_guard h
    exact hs.startLocked _ _ hidle
  | stop =>
    obtain ⟨hidle, rfl⟩ := of_guard h
    exact hs.request (by simp [inFlight, hidle]) (fun _ => id) (.inr ⟨hidle, rfl⟩) id
  | control o => exact hs.control hg hc h
  | requestStop =>
    cases h
    exact hs.request (by simp only [inFlight, List.length_append, List.length_singleton]; omega)
      (fun _ => List.mem_append_left _) (.inl rfl) id
  | requestToken =>
    unfold RuntimeControl.step at h
    cases ht : s.token with
    | quiet =>
      simp only [ht] at h
      cases h
      exact hs.request (by simp [inFlight, ht]; omega) (fun _ => id) (.inl rfl) (by simp)
    | pending | fired => simp [ht] at h
    | registered =>
      simp only [ht] at h
      cases h
      exact hs.request (by simp [inFlight, ht]; omega) (fun _ => List.mem_append_left _)
        (.inl rfl) fun _ => .inl ht
  | store i =>
    obtain ⟨hi, rfl⟩ := of_guard h
    exact hs.store hi
  | lock i =>
    obtain ⟨hi, rfl⟩ := of_guard h
    exact hs.lock hg hi
  | workersExit =>
    obtain ⟨-, rfl⟩ := of_guard h
    exact { hs with }

theorem Inv.drainKept : DrainKept cfg s := by
  refine ⟨fun hmem => ?_, fun hr hb => ?_, fun g hg => ?_⟩
  · by_contra hr
    have hlog := hs.log (by omega)
    rw [hlog] at hmem
    split_ifs at hmem <;> simp at hmem
  · have hlog := hs.log hr
    rwa [hb] at hlog
  · rw [hs.options g hg]
    rfl

end

/-! ## The promise and its failure -/

/-- **The drain is kept.** Under a positive grace period, in every run whose control steps neither
overtake a request nor replay one that has begun the drain, an immediate stop takes two requests
and a single request gives the drain with its grace period. -/
theorem drain_kept (cfg : Config) (hg : 0 < cfg.shutdownGrace) (s : RuntimeControl)
    (h : (system cfg).ReachesBy Orderly s) : DrainKept cfg s := by
  have hinv : Inv cfg s := by
    refine h.invariant (fun t ht => ?_) fun _ _ _ hi hc hstep => hi.step hg hc hstep
    obtain rfl : t = create := ht
    exact inv_create cfg
  exact hinv.drainKept

def graceConfig : Config where
  workerCount := 2
  hasConnectionHandler := true
  shutdownGrace := 1000000000

def toWait : List Action :=
  [.run true, .control .ok, .control .ok, .control .ok, .control .ok]

/-- A request that takes the lock before `Run` sees the flag: the drain runs to its end. -/
theorem drain_kept_run :
    ∃ s, (system graceConfig).ReachesBy Orderly s ∧ s.state = .stopped ∧
      s.log = [.requestDrain] ∧ DrainKept graceConfig s := by
  obtain ⟨s, hr, hp⟩ := System.exists_reachesBy (system graceConfig) Orderly create rfl
    (toWait ++ [.requestStop, .store 0, .lock 0, .control .ok, .control .ok, .workersExit,
      .control .ok, .control .ok])
    (P := fun s => s.state = .stopped ∧ s.log = [.requestDrain]) (by decide)
  exact ⟨s, hr, hp.1, hp.2, drain_kept graceConfig (by decide) s hr⟩

/-- **One request stops the workers at once.** `RequestStop()` publishes the flag, `Run` wakes and
begins the drain in its own `Stop()`, and the request's critical section then takes that drain
for an earlier request. -/
theorem immediate_stop_after_one_request :
    ∃ cfg : Config, 0 < cfg.shutdownGrace ∧
      ∃ s, (system cfg).Reaches s ∧ s.requests = 1 ∧ ¬ DrainKept cfg s := by
  refine ⟨graceConfig, by decide, ?_⟩
  obtain ⟨s, hr, hp⟩ := System.exists_reachesBy (system graceConfig) (fun _ _ => True) create rfl
    (toWait ++ [.requestStop, .store 0, .control .ok, .control .ok, .lock 0])
    (P := fun s => s.requests = 1 ∧ .requestStop .draining ∈ s.log) (by decide)
  refine ⟨s, hr, hp.1, fun hk => ?_⟩
  have := hk.1 hp.2
  omega

end RuntimeControl

end Alyrn.Runtime
