import Alyrn.Uring.AcceptSource.Completion

/-!
# Cancel completions and calls of AcceptSource

The entries other than an accept completion: the completion of the cancel request, `Next()`,
`Stop()` and the close of the listener. None of them loses a connection (`Kept`).
-/

namespace Alyrn.Uring

open Net Transition

namespace AcceptSource

variable {s s' : AcceptSource} {armed : ℕ} {options : AcceptSourceOptions} {a : ℕ} {l : Listener}

/-- What a call that brings no connection keeps. -/
structure Kept (s s' : AcceptSource) : Prop where
  between : Between s'
  flow : s'.flow = s.flow
  accepted : s'.accepted = s.accepted
  sound : Sound s → Sound s'

theorem Resumed.kept (h : Resumed s s') (hb : Between s) : Kept s s' :=
  ⟨h.between hb, h.flow, h.accepted, h.sound⟩

theorem Kept.trans {s₁ s₂ s₃ : AcceptSource} (h : Kept s₁ s₂) (h' : Kept s₂ s₃) : Kept s₁ s₃ :=
  ⟨h'.between, h'.flow.trans h.flow, h'.accepted.trans h.accepted, fun hs => h'.sound (h.sound hs)⟩

theorem Between.withAnswers (h : Between s) (answers : List (Option Error)) :
    Between (s.withAnswers answers) :=
  { h with inv := InvWith.withAnswers h.inv answers }

/-! ## Creation -/

theorem between_make {listener : Listener}
    {m : AcceptSourceStateMachine} (hm : AcceptSourceStateMachine.create options = .ok m)
    (hok : listener.Ok) (loopStopping : Bool) : Between (make listener loopStopping m) := by
  obtain ⟨hcons, -, hidle, hq, harmed⟩ := AcceptSourceStateMachine.create_ok hm
  have hst : (make listener loopStopping m).machine.state = .idle := hidle
  have hnot {st : SourceState} (hs : (make listener loopStopping m).machine.state = st)
      (hne : st ≠ .idle) : False := hne (hs.symm.trans hst)
  refine ⟨⟨hcons, harmed, hq, ⟨rfl, rfl⟩, fun ha => (hnot ha (by decide)).elim,
    fun _ => ⟨rfl, rfl, rfl, rfl⟩, fun hi => absurd hst hi, ?_, Nat.zero_le _, hok, .init⟩,
    fun _ => rfl, fun ha => (hnot ha (by decide)).elim, fun hp => (hnot hp (by decide)).elim⟩
  rintro (hs | hs | hs) <;> exact (hnot hs (by decide)).elim

theorem create_ok {listener : Listener} {loopStopping : Bool}
    (h : create listener loopStopping options = .ok s) :
    Between s ∧ Wakeable s ∧ Sound s ∧ s.flow = s.accepted := by
  unfold create at h
  split_ifs at h with h1 h2 h3
  cases hm : AcceptSourceStateMachine.create options with
  | error e => rw [hm] at h; cases h
  | ok m =>
    rw [hm] at h
    obtain rfl := Except.ok.inj h
    simp only [not_or, Bool.not_eq_true, Bool.not_eq_false, Option.isSome_eq_false_iff,
      Option.isNone_iff_eq_none] at h2 h3
    exact ⟨between_make hm (fun _ => ⟨h2.2, h3.2.1⟩) loopStopping, ⟨by simp [make], fun _ => rfl⟩,
      ⟨rfl, by simp [make]⟩, rfl⟩

/-! ## The cancel completion -/

def cancelDone (s : AcceptSource) (result : ℤ) (answers : List (Option Error)) : AcceptSource :=
  { s with
    ctl := { s.ctl with
      cancelSubmitted := false
      cancelInFlight := false
      answers
      terminalError := if isExpectedCancelCqeResult result then s.ctl.terminalError
        else s.ctl.terminalError.or (some (negErrno result)) } }

theorem onCancelComplete_eq (result : ℤ) (answers : List (Option Error)) :
    ({ s with ctl := { s.ctl with cancelInFlight := false } }.withAnswers
      answers).onCancelComplete result =
    (s.cancelDone result answers).maybeResume.completeStopIfReady := by
  unfold AcceptSource.onCancelComplete cancelDone
  cases isExpectedCancelCqeResult result <;> rfl

/-- **A cancel completion** of a source that is not stalled by it. -/
theorem Between.onCancelComplete (h : Between s) (hin : s.ctl.cancelInFlight = true) (result : ℤ)
    (answers : List (Option Error)) :
    let s' := ({ s with ctl := { s.ctl with cancelInFlight := false } }.withAnswers
      answers).onCancelComplete result
    Kept s s' ∧ (Wakeable s → isExpectedCancelCqeResult result = true ∨
      s.machine.state ≠ .pausing ∧ s.machine.state ≠ .paused → Wakeable s') := by
  have hcancel : s.ctl.cancelSubmitted = true := h.inv.inStep.2 ▸ hin
  have hact : s.machine.state ≠ .active := fun ha => by
    have := (h.inv.active ha).1
    simp [hcancel] at this
  have hidle : s.machine.state ≠ .idle := fun hi => by
    have := (h.inv.fresh hi).2.1
    simp [hcancel] at this
  have hinv : Inv (s.cancelDone result answers) :=
    ⟨h.inv.consistent, h.inv.armed, h.inv.queued, ⟨h.inv.inStep.1, rfl⟩, fun ha => absurd ha hact,
      fun hi => absurd hi hidle, h.inv.held, h.inv.unclosed, h.inv.reserved, h.inv.listenerOk,
      h.inv.awaiters⟩
  obtain ⟨hr, hres, -⟩ := hinv.maybeResumeWith h.empty delivers_deliverNextIfReady
  have hstop := hr.inv.completeStopIfReady
  rw [onCancelComplete_eq]
  have hb : Between (s.cancelDone result answers).maybeResume :=
    ⟨hr.inv, fun hp => hr.backlog.trans (h.empty (hr.isSome hp)),
      hr.progress fun ha => absurd ha hact, hres⟩
  refine ⟨⟨hstop.between hb, hstop.flow.trans hr.flow, hstop.accepted.trans hr.accepted,
    fun hs => hstop.sound (hr.sound hs)⟩, fun hw hc => hstop.wakeable (hr.wakeable ⟨hw.live, ?_⟩)⟩
  intro hor
  rcases hc with hexp | ⟨h1, h2⟩
  · show (if isExpectedCancelCqeResult result then s.ctl.terminalError else _) = none
    rw [if_pos hexp]
    exact hw.stall hor
  · rcases hor with hor | hor
    · exact absurd hor h1
    · exact absurd hor h2

/-! ## Next -/

theorem InvWith.answer (h : InvWith armed s) (ha : a < s.nextCalls)
    (hnew : ∀ p ∈ s.nexts, p.1 ≠ a) (hp : s.pendingNext ≠ some a) (r : NextResult ℕ) :
    s.completeNext a r = { s with nexts := s.nexts ++ [(a, r)] } ∧
      InvWith armed { s with nexts := s.nexts ++ [(a, r)] } := by
  obtain ⟨heq, haw⟩ := h.awaiters.answer ha hnew hp r
  refine ⟨?_, h.consistent, h.armed, h.queued, h.inStep, h.active, h.fresh, h.held, h.unclosed,
    h.reserved, h.listenerOk, haw⟩
  rw [AcceptSource.completeNext, heq]

theorem flow_answer {r : NextResult ℕ} :
    flow { s with nexts := s.nexts ++ [(a, r)] } = s.handed ++ (r.events ++ s.backlog) := by
  simp [flow, handed, backlog]

theorem Between.refuse (h : Between s) (ha : a < s.nextCalls)
    (hnew : ∀ p ∈ s.nexts, p.1 ≠ a) (hp : s.pendingNext ≠ some a) {r : NextResult ℕ}
    (hr : r.events = []) : Kept s (s.completeNext a r) ∧
      (Wakeable s → Wakeable (s.completeNext a r)) := by
  obtain ⟨heq, hinv⟩ := InvWith.answer h.inv ha hnew hp r
  rw [heq]
  refine ⟨⟨{ h with inv := hinv }, ?_, rfl, id⟩, fun hw => ⟨hw.live, hw.stall⟩⟩
  rw [flow_answer, hr]
  rfl

theorem InvWith.taken (h : Inv s) (hidle : s.machine.state = .idle)
    (hopen : s.listenerClosed = false) :
    Inv { s.setMachine { s.machine with state := .active } with
      listener := { s.listener with acceptSource := some .this } } := by
  obtain ⟨-, hcancel, herr, hover⟩ := h.fresh hidle
  have hclosed : s.listener.closed = false := by
    simp only [listenerClosed, decide_eq_false_iff_not, not_or, Bool.not_eq_true] at hopen
    exact hopen.1
  exact { h with
    consistent := h.consistent.activate, active := fun _ => ⟨hcancel, herr, hover⟩,
    fresh := fun hx => (by cases hx), held := fun _ _ => rfl, unclosed := fun _ => hclosed }

/-- **Starting.** The first `Next()` submits the request, is refused by the listener, or stops the
source with the error. -/
theorem Between.start (h : Between s) (hidle : s.machine.state = .idle) :
    ∃ e s', s.start = (e, s') ∧ Between s' ∧ s'.backlog = s.backlog ∧ s'.nexts = s.nexts ∧
      s'.accepted = s.accepted ∧ s'.nextCalls = s.nextCalls ∧ s'.pendingNext = none ∧
      (e = none → s'.machine.state ≠ .idle) ∧ NoStall s' ∧ (Sound s → Sound s') := by
  obtain ⟨hnone, hcancel, herr, hover⟩ := h.inv.fresh hidle
  have hsub : s.ctl.submitted = false := by
    have harmed := h.inv.armed
    rw [h.inv.consistent.lifecycle.quiet (.inl hidle)] at harmed
    simpa using harmed.symm
  have hstall : NoStall s := fun _ => herr
  unfold AcceptSource.start
  rw [if_neg (not_not.mpr hidle)]
  by_cases hclosed : s.listenerClosed = true
  · rw [if_pos hclosed]
    exact ⟨_, s, rfl, h, rfl, rfl, rfl, rfl, hnone, by simp, hstall, id⟩
  rw [if_neg hclosed]
  by_cases hbusy : s.listener.pendingAccepts ≠ 0 ∨ s.listener.acceptSource.isSome = true
  · rw [if_pos hbusy]
    exact ⟨_, s, rfl, h, rfl, rfl, rfl, rfl, hnone, by simp, hstall, id⟩
  rw [if_neg hbusy, AcceptSourceStateMachine.start, if_neg (not_not.mpr hidle)]
  dsimp only
  have hopen : s.listenerClosed = false := by simpa using hclosed
  have hactive := h.inv.taken hidle hopen
  set t : AcceptSource := { s.setMachine { s.machine with state := .active } with
    listener := { s.listener with acceptSource := some .this } } with ht
  have hempty : t.pendingNext.isSome → t.backlog = [] := h.empty
  have harm : t.machine.canArm = true := by
    refine hactive.consistent.canArm_of_room rfl ?_ ?_
    · exact h.inv.consistent.lifecycle.quiet (.inl hidle)
    · have hd := AcceptSourceStateMachine.drained_iff.mp
        (h.inv.consistent.lifecycle.ends (.inl hidle))
      have := AcceptSourceOptions.valid_iff.mp h.inv.consistent.valid
      show s.machine.queuedEvents < s.machine.options.eventCapacity
      omega
  rcases startOperation_cases (s := t) hopen hsub harm with
    ⟨-, answers, heq⟩ | ⟨-, e, answers, heq⟩
  · rw [heq]
    refine ⟨none, _, rfl, ⟨hactive.armedWith harm hsub answers, hempty, fun _ => rfl,
      nofun⟩, rfl, rfl, rfl, rfl, hnone, nofun, ?_, id⟩
    rintro (hor | hor) <;> cases hor
  · rw [heq]
    have hinv : Inv (t.withAnswers answers) := InvWith.withAnswers hactive answers
    obtain ⟨hstall, hprog, hres⟩ :=
      quiet_of_stopped (stopped_requestBackendStop (s := t.withAnswers answers) (some e))
    refine ⟨some e, _, rfl, ⟨inv_requestBackendStop hinv (some e), hempty, hprog, hres⟩, rfl, rfl,
      rfl, rfl, hnone, by simp, hstall, fun hs => ⟨?_, hs.2⟩⟩
    exact SourceControl.requestBackendStop_aborted.trans hs.1

theorem InvWith.release (h : Inv s) : Resumed s s.releaseListenerReservation := by
  have hinv := h.releaseListenerReservation
  rw [releaseListenerReservation_eq] at hinv ⊢
  exact .aside h hinv

theorem Between.takeOrPark (h : Between s) (hp : s.pendingNext = none)
    (hidle : s.machine.state ≠ .idle) (hlt : a < s.nextCalls)
    (hnew : ∀ p ∈ s.nexts, p.1 ≠ a) :
    let s' := match s.tryTakeNext with
      | (some r, s) => s.completeNext a r
      | (none, s) => { s with pendingNext := some a }
    Kept s s' ∧ (NoStall s → Wakeable s') := by
  by_cases hb : s.backlog = []
  · rw [tryTakeNext, tryTakeNextWith_empty _ hb]
    by_cases ht : s.machine.state = .terminal
    · -- the end of the stream
      rw [if_pos ht]
      have hrel := h.inv.release
      have hans := (hrel.between h).refuse (by rw [hrel.nextCalls]; exact hlt)
        (by rw [(hrel.fresh hp).2]; exact hnew) (by rw [(hrel.fresh hp).1]; simp)
        (terminalResult_events (s := s))
      refine ⟨(hrel.kept h).trans hans.1, fun hs => hans.2 (hrel.wakeable ⟨?_, hs⟩)⟩
      simp [hp]
    · -- park
      rw [if_neg ht]
      have haw : Awaiters s.nexts s.nextCalls none := hp ▸ h.inv.awaiters
      have hi := h.inv
      exact ⟨⟨⟨{ hi with
        fresh := fun h' => absurd h' hidle,
        awaiters := haw.park hlt hnew }, fun _ => hb, h.progress, h.resumable⟩, rfl, rfl, id⟩,
        fun hs => ⟨fun _ => ht, hs⟩⟩
  · -- a connection waits
    obtain ⟨stream, t, heq, htook, hres⟩ := h.inv.tryTakeNextWith_cons h.calm h.progress hb
      delivers_deliverNextIfReady
    obtain ⟨hpt, hnt⟩ := htook.kept (.inl hp)
    have hp' : t.pendingNext = none := hpt.trans hp
    obtain ⟨heq', hinv⟩ := InvWith.answer htook.inv (htook.nextCalls ▸ hlt) (hnt ▸ hnew)
      (by rw [hp']; simp) (.event stream)
    rw [tryTakeNext, heq]
    dsimp only
    rw [heq']
    refine ⟨⟨⟨hinv, fun hs => by simp [hp'] at hs, htook.progress h.progress, hres⟩, ?_,
      htook.accepted, htook.sound⟩, fun hs => ⟨fun hs => by simp [hp'] at hs, htook.stall hs⟩⟩
    rw [flow_answer, htook.handed, flow, htook.backlog]
    rfl

def called (s : AcceptSource) : AcceptSource := { s with nextCalls := s.nextCalls + 1 }

theorem Between.called (h : Between s) : Between s.called := by
  have hi := h.inv
  exact { h with inv := { hi with awaiters := hi.awaiters.call } }

theorem Between.started (h : Between s) (hnone : s.pendingNext = none) :
    ∃ e s', (if s.machine.state = .idle then s.start else (none, s)) = (e, s') ∧ Between s' ∧
      s'.backlog = s.backlog ∧ s'.nexts = s.nexts ∧ s'.accepted = s.accepted ∧
      s'.nextCalls = s.nextCalls ∧ s'.pendingNext = none ∧
      (e = none → s'.machine.state ≠ .idle) ∧ (NoStall s → NoStall s') ∧ (Sound s → Sound s') := by
  by_cases hidle : s.machine.state = .idle
  · obtain ⟨e, s', heq, hb, hback, hn, ha, hc, hp, hne, hst, hso⟩ := h.start hidle
    rw [if_pos hidle]
    exact ⟨e, s', heq, hb, hback, hn, ha, hc, hp, hne, fun _ => hst, hso⟩
  · rw [if_neg hidle]
    exact ⟨none, s, rfl, h, rfl, rfl, rfl, rfl, hnone, fun _ => hidle, id, id⟩

/-- **Next** takes the first connection, reports the end, or parks in a source that is live. -/
theorem Between.next (h : Between s) : Kept s s.next ∧ (Wakeable s → Wakeable s.next) := by
  have hnew : ∀ p ∈ s.nexts, p.1 ≠ s.nextCalls := fun p hp =>
    Nat.ne_of_lt (h.inv.awaiters.past p hp).1
  unfold AcceptSource.next
  dsimp only
  by_cases hpend : s.pendingNext.isSome = true
  · -- the source is busy
    obtain ⟨a, ha⟩ := Option.isSome_iff_exists.mp hpend
    have hlt := h.inv.awaiters.parked a ha
    rw [if_pos hpend]
    obtain ⟨hk, hw⟩ := h.called.refuse (Nat.lt_succ_self s.nextCalls) hnew
      (by rw [AcceptSource.called, ha]; simp; omega) (r := .error EBUSY) rfl
    exact ⟨{ hk with }, fun h' => hw ⟨h'.live, h'.stall⟩⟩
  · rw [if_neg hpend, show { s with nextCalls := s.nextCalls + 1 } = s.called from rfl]
    obtain ⟨e, t, heq, hb, hback, hn, hacc, hc, hp, hne, hst, hso⟩ :=
      h.called.started (show s.pendingNext = none by simpa using hpend)
    have hlt : s.nextCalls < t.nextCalls := by rw [hc]; exact Nat.lt_succ_self _
    have hnew' : ∀ p ∈ t.nexts, p.1 ≠ s.nextCalls := by rw [hn]; exact hnew
    have hkept : Kept s t := ⟨hb, by rw [flow, flow, handed, hn, hback]; rfl, hacc, hso⟩
    rw [heq]
    cases e with
    | some e =>
      obtain ⟨hk, hw⟩ := hb.refuse hlt hnew' (by rw [hp]; simp) (r := .error e) rfl
      exact ⟨hkept.trans hk, fun hs => hw ⟨by simp [hp], hst hs.stall⟩⟩
    | none =>
      obtain ⟨hk, hw⟩ := hb.takeOrPark hp (hne rfl) hlt hnew'
      exact ⟨hkept.trans hk, fun hs => hw (hst hs.stall)⟩

/-! ## Stop and close -/

def stoppedWith (s : AcceptSource) (l : Listener) : AcceptSource :=
  { s.setMachine s.machine.requestStop with listener := l }

theorem Between.stopAndDeliver (h : Between s) (hinv : Inv (s.stoppedWith l)) :
    Kept s (deliverNextIfReady (s.stoppedWith l)) ∧
      Wakeable (deliverNextIfReady (s.stoppedWith l)) := by
  have hstop : (s.stoppedWith l).machine.state.Stopped := SourceState.stopped_requestStop
  obtain ⟨hstall, hprog, hres⟩ := quiet_of_stopped hstop
  have hd := hinv.deliverNextIfReady h.calm hprog
  obtain ⟨hflow, hsound⟩ := hd.flow fun _ _ hs => hstop.ne.2.2.1 hs.1
  exact ⟨⟨hd.between hprog hres, hflow, hd.accepted, hsound⟩, hd.wakeable hstall⟩

theorem Between.closed_stopAndDeliver (h : Between s) (l : Listener) :
    (deliverNextIfReady (s.stoppedWith l)).listener.closed = l.closed := by
  cases hp : s.pendingNext with
  | none =>
    rw [delivers_deliverNextIfReady.none (s.stoppedWith l) hp]
    rfl
  | some a =>
    rw [delivers_deliverNextIfReady.empty (s.stoppedWith l) (h.empty (by simp [hp]))]
    unfold deliverEmpty AcceptSource.releaseListenerReservation
    split
    · split_ifs <;> rfl
    · rfl

theorem completeStopIfReady_listener : s.completeStopIfReady.listener = s.listener := by
  unfold AcceptSource.completeStopIfReady completeStop
  split
  · rfl
  · split_ifs <;> rfl

theorem beginStop_eq : ∃ ctl, s.beginStop.2 = { s with ctl } ∧ ctl.state = s.machine.requestStop ∧
    ctl.submitted = s.ctl.submitted ∧ ctl.terminalError = s.ctl.terminalError ∧
    ctl.aborted = s.ctl.aborted ∧ (s.ctl.InStep → ctl.InStep) := by
  unfold AcceptSource.beginStop
  dsimp only
  set c := (s.setMachine s.machine.requestStop).ctl with hc
  have hf := SourceControl.startCancel_frame (c := c)
  have hi : s.ctl.InStep → c.startCancel.2.InStep := fun h =>
    SourceControl.InStep.startCancel (c := c) h
  split_ifs with h1 h2
  · exact ⟨c, rfl, rfl, rfl, rfl, rfl, id⟩
  · rcases hsc : c.startCancel with ⟨_ | e, c'⟩ <;> rw [hsc] at hf hi <;>
      exact ⟨c', rfl, hf.1, hf.2.1, hf.2.2.2.1, hf.2.2.2.2, hi⟩
  · exact ⟨c, rfl, rfl, rfl, rfl, rfl, id⟩

section

variable (h : Between s)
include h

theorem Between.paused (hw : Wakeable s) (hp : s.pendingNext.isSome)
    (hsub : s.ctl.submitted = false) : s.machine.state = .paused := by
  have harmed := h.inv.armed
  rw [hsub] at harmed
  obtain ⟨hev, -⟩ := backlog_eq_nil.mp (h.empty hp)
  cases hst : s.machine.state with
  | idle =>
    rw [(h.inv.fresh hst).1] at hp
    cases hp
  | active =>
    rw [h.progress hst] at hsub
    cases hsub
  | pausing => exact absurd harmed (h.inv.consistent.lifecycle.waiting (.inl hst))
  | paused => rfl
  | stopping => exact absurd harmed (h.inv.consistent.lifecycle.waiting (.inr hst))
  | draining =>
    have hd := h.inv.consistent.lifecycle.draining hst
    rw [AcceptSourceStateMachine.drained_iff.mpr (by rw [h.inv.queued, hev]; rfl)] at hd
    cases hd
  | terminal => exact absurd hst (hw.live hp)

/-- **Beginning to stop.** A parked awaiter stays wakeable unless the source was paused, and so
terminal at once. -/
theorem Between.beginStop : Kept s s.beginStop.2 ∧
    (Wakeable s → ¬ (s.pendingNext.isSome = true ∧ s.machine.state = .paused) →
      Wakeable s.beginStop.2) := by
  obtain ⟨ctl, heq, hst, hsub, -, halive, hstep⟩ := beginStop_eq (s := s)
  have hstop : ({ s with ctl } : AcceptSource).machine.state.Stopped := by
    rw [show ({ s with ctl } : AcceptSource).machine = _ from hst]
    exact SourceState.stopped_requestStop
  obtain ⟨hstall, hprog, hres⟩ := quiet_of_stopped hstop
  have hinv : Inv { s with ctl := ctl } := by
    show InvWith ctl.submitted.toNat _
    rw [hsub]
    exact h.inv.stopped hst (hstep h.inv.inStep) hsub
  rw [heq]
  refine ⟨⟨⟨hinv, h.empty, hprog, hres⟩, rfl, rfl, fun hs => ⟨halive.trans hs.1, hs.2⟩⟩,
    fun hw hc => ⟨fun hp ht => ?_, hstall⟩⟩
  -- a source with a parked awaiter that a stop ends at once was paused
  replace ht : ctl.state.state = .terminal := ht
  rw [hst, h.inv.stopped_state] at ht
  refine hc ⟨hp, h.paused hw hp ?_⟩
  cases hs : s.ctl.submitted with
  | false => rfl
  | true => simp [hs] at ht

theorem Between.withStops (pendingStop : Option ℕ) (stopCalls : ℕ)
    (stops : List (ℕ × Except Error Unit)) : Resumed s { s with pendingStop, stopCalls, stops } :=
  .aside h.inv h.inv

theorem Between.stop : Kept s s.stop ∧
    (Wakeable s → ¬ (s.pendingNext.isSome = true ∧ s.machine.state = .paused) →
      Wakeable s.stop) := by
  unfold AcceptSource.stop
  dsimp only
  split_ifs with hbusy hquiet
  · have hr := h.withStops s.pendingStop (s.stopCalls + 1)
      (complete s.stops s.stopCalls (.error EBUSY))
    exact ⟨hr.kept h, fun hw _ => hr.wakeable hw⟩
  · -- nothing in flight: the stop is complete at once
    have hr := h.withStops s.pendingStop (s.stopCalls + 1) s.stops
    have hb := hr.between h
    obtain ⟨hk, hw⟩ := hb.stopAndDeliver (hb.inv.stopped rfl hb.inv.inStep rfl)
    have hrel := hk.between.inv.release
    have hb := hrel.between hk.between
    have hr' := hb.withStops
    exact ⟨(((hr.kept h).trans hk).trans (hrel.kept hk.between)).trans ((hr' _ _ _).kept hb),
      fun _ _ => (hr' _ _ _).wakeable (hrel.wakeable hw)⟩
  · have hr := h.withStops (some s.stopCalls) (s.stopCalls + 1) s.stops
    obtain ⟨hk, hw⟩ := (hr.between h).beginStop
    have hw' : Wakeable s → ¬ (s.pendingNext.isSome = true ∧ s.machine.state = .paused) →
        Wakeable (AcceptSource.beginStop { s with
          pendingStop := some s.stopCalls, stopCalls := s.stopCalls + 1 }).2 := fun h' hc =>
      hw (hr.wakeable h') hc
    rcases hbs : AcceptSource.beginStop { s with
      pendingStop := some s.stopCalls, stopCalls := s.stopCalls + 1 } with ⟨_ | _ | _, t⟩
    all_goals
      rw [hbs] at hk hw'
      have hr' := hk.between.withStops
    · exact ⟨((hr.kept h).trans hk).trans ((hr' _ _ _).kept hk.between),
        fun h' hc => (hr' _ _ _).wakeable (hw' h' hc)⟩
    · exact ⟨((hr.kept h).trans hk).trans ((hr' _ _ _).kept hk.between),
        fun h' hc => (hr' _ _ _).wakeable (hw' h' hc)⟩
    · exact ⟨(hr.kept h).trans hk, hw'⟩

/-- **Committing a close** stops the source, if it holds the listener, and wakes the parked
awaiter. -/
theorem Between.commitClose (hs : l.acceptSource = s.listener.acceptSource)
    (ha : l.pendingAccepts = s.listener.pendingAccepts) :
    Kept s (commitClose { s with listener := l }) ∧
      (Wakeable s → Wakeable (commitClose { s with listener := l })) ∧
      (commitClose { s with listener := l }).listener.closed = true := by
  have hi := h.inv
  have hok : Listener.Ok { l with closed := true } := nofun
  have hres : s.ctl.submitted.toNat ≤ l.pendingAccepts := ha ▸ hi.reserved
  unfold AcceptSource.commitClose
  dsimp only
  split_ifs with hthis
  · obtain ⟨h1, h2, h3, h4⟩ :=
      (show s.machine.requestStop.state.Stopped from SourceState.stopped_requestStop).ne
    have hstop : Inv (s.stoppedWith { l with closed := true }) := by
      have hst : InvWith _ _ := hi.stopped (c := { s.ctl with
        state := s.machine.requestStop }) rfl hi.inStep rfl
      exact { hst with
        held := fun _ _ => hthis,
        unclosed := fun hor => absurd hor (by simp [stoppedWith, setMachine, *]), reserved := hres,
        listenerOk := hok }
    obtain ⟨hk, hw⟩ := h.stopAndDeliver hstop
    have hr := hk.between.inv.completeStopIfReady
    refine ⟨hk.trans (hr.kept hk.between), fun _ => hr.wakeable hw, ?_⟩
    rw [onListenerClosed, completeStopIfReady_listener]
    exact h.closed_stopAndDeliver { l with closed := true }
  · -- the source has not started, or has ended
    have hends : s.machine.state = .idle ∨ s.machine.state = .terminal := by
      by_contra hn
      rw [not_or] at hn
      exact hthis (hs.trans (hi.held hn.1 hn.2))
    refine ⟨⟨{ h with
      inv := { hi with
        held := fun h1 h2 => (hends.elim h1 h2).elim, unclosed := fun hor => ?_
        reserved := hres, listenerOk := hok } }, rfl, rfl, id⟩, fun hw => ⟨hw.live, hw.stall⟩, rfl⟩
    replace hor : s.machine.state = .active ∨ s.machine.state = .pausing ∨
      s.machine.state = .paused := hor
    rcases hends with he | he <;> simp [he] at hor

theorem Between.withCloses (hok : l.Ok)
    (hc : l.closed = s.listener.closed) (hs : l.acceptSource = s.listener.acceptSource)
    (ha : l.pendingAccepts = s.listener.pendingAccepts) : Resumed s { s with listener := l } :=
  .aside h.inv (h.inv.withListener hok hc (ha ▸ h.inv.reserved) fun h' => hs.trans h')

theorem Between.closeFd (hc : s.listener.closed = true) (awaiter : ℕ) :
    Resumed s { s with
      listener := s.listener.closeFd.2.completeClose awaiter s.listener.closeFd.1 } := by
  have hframe : s.listener.closeFd.2.closed = true ∧
      s.listener.closeFd.2.acceptSource = s.listener.acceptSource ∧
      s.listener.closeFd.2.pendingAccepts = s.listener.pendingAccepts := by
    unfold Listener.closeFd
    split_ifs <;> exact ⟨hc, rfl, rfl⟩
  refine h.withCloses (fun hopen => ?_) (hframe.1.trans hc.symm) hframe.2.1 hframe.2.2
  exact absurd (hframe.1.symm.trans hopen) (by decide)

end

theorem submitOp_eq (c : SourceControl AcceptSourceStateMachine) :
    ∃ answers, c.submitOp.2 = { c with answers } := by
  unfold SourceControl.submitOp
  rcases c.answers with _ | ⟨_, answers⟩
  · exact ⟨c.answers, rfl⟩
  · exact ⟨answers, rfl⟩

/-- **The close of the listener** wakes the parked awaiter of a source that holds it. -/
theorem Between.closeListener (h : Between s) : Kept s s.closeListener ∧
    (Wakeable s → Wakeable s.closeListener) := by
  have hi := h.inv
  unfold AcceptSource.closeListener
  dsimp only
  split_ifs with hbusy hclosed hidle
  · have hr := h.withCloses (l := Listener.completeClose { s.listener with
      closeCalls := s.listener.closeCalls + 1 } s.listener.closeCalls (.error EBUSY))
      (fun hc => hi.listenerOk hc) rfl rfl rfl
    exact ⟨hr.kept h, hr.wakeable⟩
  · have hr := h.withCloses (l := Listener.completeClose { s.listener with
      closeCalls := s.listener.closeCalls + 1 } s.listener.closeCalls (.ok ()))
      (fun hc => hi.listenerOk hc) rfl rfl rfl
    exact ⟨hr.kept h, hr.wakeable⟩
  · -- no accept uses the descriptor: it is closed at once
    obtain ⟨hk, hw, hc⟩ := h.commitClose (l := { s.listener with
      closeCalls := s.listener.closeCalls + 1 }) rfl rfl
    have hr := hk.between.closeFd hc s.listener.closeCalls
    exact ⟨hk.trans (hr.kept hk.between), fun h' => hr.wakeable (hw h')⟩
  · obtain ⟨answers, hans⟩ := submitOp_eq s.ctl
    have hb := h.withAnswers answers
    rcases hsub : s.ctl.submitOp with ⟨_ | e, ctl⟩
    · rw [hsub] at hans
      obtain rfl : ctl = { s.ctl with answers } := hans
      obtain ⟨hk, hw, -⟩ := hb.commitClose (l := { s.listener with
        closeCalls := s.listener.closeCalls + 1
        pendingClose := some (s.listener.closeCalls, {}) }) rfl rfl
      exact ⟨{ hk with }, fun h' => hw ⟨h'.live, h'.stall⟩⟩
    · rw [hsub] at hans
      obtain rfl : ctl = { s.ctl with answers } := hans
      have hr := hb.withCloses (l := Listener.completeClose { s.listener with
        closeCalls := s.listener.closeCalls + 1 } s.listener.closeCalls (.error e))
        (fun hc => hi.listenerOk hc) rfl rfl rfl
      have hk := hr.kept hb
      exact ⟨{ hk with },
        fun h' => hr.wakeable ⟨h'.live, h'.stall⟩⟩

end AcceptSource

end Alyrn.Uring
