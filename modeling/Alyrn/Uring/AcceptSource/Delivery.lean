import Alyrn.Uring.AcceptSource

/-!
# Submission, resumption and delivery in AcceptSource

The invariant of the source (`Inv`) and what the functions below the entry points do to it.

Delivery can call itself through a failed resubmission. When the outer call has taken a connection
and the source becomes terminal, the nested call completes the parked awaiter, and the outer call
is left without one (`Steals`). The invariant holds all the same; what is lost is the connection.
-/

namespace Alyrn.Uring

open Net Transition

/-- Only a closed listener has given up its descriptor or a close waiting. -/
def Listener.Ok (l : Listener) : Prop := l.closed = false → l.fdOpen = true ∧ l.pendingClose = none

theorem Listener.Ok.notifyCloseProgress {l : Listener} (h : l.Ok) : l.notifyCloseProgress.Ok := by
  intro hc
  rw [Listener.notifyCloseProgress_frame.1] at hc
  obtain ⟨hfd, hp⟩ := h hc
  rw [Listener.notifyCloseProgress, hp]
  exact ⟨hfd, hp⟩

namespace AcceptSource

/-! ## The invariant -/

/-- The invariant inside an entry, with `armed` requests in the machine. -/
structure InvWith (armed : ℕ) (s : AcceptSource) : Prop where
  consistent : s.machine.Consistent
  armed : s.machine.armedRequests = armed
  queued : s.machine.queuedEvents = s.events.length
  inStep : s.ctl.InStep
  active : s.machine.state = .active →
    s.ctl.cancelSubmitted = false ∧ s.ctl.terminalError = none ∧ s.overflow = []
  fresh : s.machine.state = .idle → s.pendingNext = none ∧ s.ctl.cancelSubmitted = false ∧
    s.ctl.terminalError = none ∧ s.overflow = []
  held : s.machine.state ≠ .idle → s.machine.state ≠ .terminal →
    s.listener.acceptSource = some .this
  unclosed : s.machine.state = .active ∨ s.machine.state = .pausing ∨ s.machine.state = .paused →
    s.listener.closed = false
  reserved : s.ctl.submitted.toNat ≤ s.listener.pendingAccepts
  listenerOk : s.listener.Ok
  awaiters : Awaiters s.nexts s.nextCalls s.pendingNext

/-- The invariant outside of a completion: the machine counts the submitted request. -/
abbrev Inv (s : AcceptSource) : Prop := InvWith s.ctl.submitted.toNat s

/-- The connections that wait in the source, in the order in which they will be handed out. -/
def backlog (s : AcceptSource) : List ℕ := s.events ++ s.overflow

def handed (s : AcceptSource) : List ℕ := handedOut s.nexts

/-- The streams handed out and those queued, in order. -/
def flow (s : AcceptSource) : List ℕ := s.handed ++ s.backlog

/-- No check has failed, and every delivery has completed the awaiter it was called for. -/
def Sound (s : AcceptSource) : Prop :=
  s.ctl.aborted = false ∧ ∀ d ∈ s.deliveries, d.1 = d.2

theorem backlog_eq_nil {s : AcceptSource} : s.backlog = [] ↔ s.events = [] ∧ s.overflow = [] := by
  simp [backlog]

variable {s : AcceptSource} {armed armed' : ℕ} {c : SourceControl AcceptSourceStateMachine}

theorem InvWith.withCtl (h : InvWith armed s)
    (hm : c.state.Consistent) (ha : c.state.armedRequests = armed')
    (hq : c.state.queuedEvents = s.machine.queuedEvents) (hi : c.InStep)
    (hsub : c.submitted.toNat ≤ s.listener.pendingAccepts) (hidle : c.state.state ≠ .idle)
    (hact : c.state.state = .active →
      c.cancelSubmitted = false ∧ c.terminalError = none ∧ s.overflow = [])
    (hheld : c.state.state ≠ .terminal → s.listener.acceptSource = some .this)
    (hopen : c.state.state = .active ∨ c.state.state = .pausing ∨ c.state.state = .paused →
      s.listener.closed = false) : InvWith armed' { s with ctl := c } :=
  ⟨hm, ha, hq.trans h.queued, hi, hact, fun hs => absurd hs hidle, fun _ => hheld, hopen, hsub,
    h.listenerOk, h.awaiters⟩

theorem InvWith.ne_idle (h : InvWith 1 s) : s.machine.state ≠ .idle := fun hs => by
  have := h.consistent.lifecycle.quiet (.inl hs)
  rw [h.armed] at this
  exact absurd this (by decide)

theorem InvWith.listenerClosed_eq (h : InvWith armed s) (hc : s.listener.closed = false) :
    s.listenerClosed = false := by
  simp [listenerClosed, hc, (h.listenerOk hc).1]

theorem InvWith.withAnswers (h : InvWith armed s) (answers : List (Option Error)) :
    InvWith armed (s.withAnswers answers) :=
  { h with }

/-- An error ends a source: it is recorded only on the way to the terminal state. -/
def NoStall (s : AcceptSource) : Prop :=
  s.machine.state = .pausing ∨ s.machine.state = .paused → s.ctl.terminalError = none

def Progress (s : AcceptSource) : Prop :=
  s.machine.state = .active → s.ctl.submitted = true

def Resumable (s : AcceptSource) : Prop :=
  s.machine.state = .paused → s.ctl.cancelSubmitted = true ∨
    s.machine.options.resumeThresholdOrHalf < s.machine.queuedEvents ∨ s.overflow ≠ [] ∨
    s.ctl.terminalError.isSome

/-! ## Stopping and pausing -/

theorem InvWith.stopped_state (h : InvWith armed s) : s.machine.requestStop.state =
    if armed ≠ 0 then .stopping else if s.machine.drained then .terminal else .draining := by
  have := SourceState.requestStop_eq h.consistent.lifecycle
  rw [h.armed] at this
  rw [← this, ← h.armed]
  rfl

theorem quiet_of_stopped (h : s.machine.state.Stopped) : NoStall s ∧ Progress s ∧ Resumable s := by
  obtain ⟨h1, h2, h3, -⟩ := h.ne
  exact ⟨fun hor => absurd hor (not_or.mpr ⟨h2, h3⟩), fun ha => absurd ha h1,
    fun hp => absurd hp h3⟩

theorem InvWith.stopped_held (h : InvWith armed s) (ht : s.machine.requestStop.state ≠ .terminal) :
    s.listener.acceptSource = some .this := by
  have hends : ¬ (s.machine.state = .idle ∨ s.machine.state = .terminal) := fun hs => by
    have hd := h.consistent.lifecycle.ends hs
    have ha := h.consistent.lifecycle.quiet (by rcases hs with hs | hs <;> simp [hs])
    rw [h.armed] at ha
    exact ht (by simp [h.stopped_state, ha, hd])
  exact h.held (fun hs => hends (.inl hs)) fun hs => hends (.inr hs)

theorem InvWith.stopped (h : InvWith armed s)
    (hst : c.state = s.machine.requestStop) (hi : c.InStep)
    (hsub : c.submitted = s.ctl.submitted) : InvWith armed { s with ctl := c } := by
  have hstop : c.state.state.Stopped := hst ▸ SourceState.stopped_requestStop
  obtain ⟨hne1, hne2, hne3, hne4⟩ := hstop.ne
  refine h.withCtl ?_ ?_ ?_ hi ?_ hne4 (fun ha => absurd ha hne1) (fun ht => ?_) ?_
  · rw [hst]; exact h.consistent.requestStop
  · rw [hst]; exact h.armed
  · rw [hst]; rfl
  · rw [hsub]; exact h.reserved
  · rw [hst] at ht; exact h.stopped_held ht
  · rintro (ha | ha | ha)
    · exact absurd ha hne1
    · exact absurd ha hne2
    · exact absurd ha hne3

@[simp] theorem requestBackendStop_machine (e : Option Error) :
    (s.requestBackendStop e).machine = s.machine.requestStop :=
  SourceControl.requestBackendStop_state

theorem stopped_requestBackendStop (e : Option Error) :
    (s.requestBackendStop e).machine.state.Stopped := by
  rw [requestBackendStop_machine]
  exact SourceState.stopped_requestStop

theorem InvWith.requestBackendStop (h : InvWith armed s) (e : Option Error) :
    InvWith armed (s.requestBackendStop e) :=
  h.stopped SourceControl.requestBackendStop_state h.inStep.requestBackendStop
    SourceControl.requestBackendStop_submitted

theorem inv_requestBackendStop (h : Inv s) (e : Option Error) : Inv (s.requestBackendStop e) := by
  have hsub : (s.requestBackendStop e).ctl.submitted = s.ctl.submitted :=
    SourceControl.requestBackendStop_submitted
  rw [Inv, hsub]
  exact InvWith.requestBackendStop h e

def pausedMachine (s : AcceptSource) : AcceptSourceStateMachine :=
  s.machine.requestPause.toOption.getD s.machine

theorem InvWith.setPaused (h : InvWith armed s) (hs : s.machine.state ≠ .idle) :
    InvWith armed (s.setMachine s.pausedMachine) ∧ s.pausedMachine.state ≠ .active ∧
      s.pausedMachine.state ≠ .idle ∧ (NoStall s → NoStall (s.setMachine s.pausedMachine)) := by
  have heq : s.pausedMachine = _ := AcceptSourceStateMachine.requestPause_getD
  have hne : s.pausedMachine.state ≠ .active := by
    rw [heq]
    split_ifs <;> simp_all
  have hidle : s.pausedMachine.state ≠ .idle := by
    rw [heq]
    split_ifs <;> simp [hs]
  refine ⟨h.withCtl h.consistent.requestPause_getD ?_ ?_ h.inStep h.reserved hidle
    (fun ha => absurd ha hne) (fun ht => ?_) (fun hor => ?_), hne, hidle, fun hst hor => ?_⟩
  · show s.pausedMachine.armedRequests = armed
    rw [heq]; exact h.armed
  · show s.pausedMachine.queuedEvents = _
    rw [heq]
  · refine h.held hs fun hterm => ht ?_
    show s.pausedMachine.state = .terminal
    rw [heq]
    simp [hterm]
  · replace hor : s.pausedMachine.state = .active ∨ s.pausedMachine.state = .pausing ∨
      s.pausedMachine.state = .paused := hor
    rw [heq] at hor
    by_cases hact : s.machine.state = .active
    · exact h.unclosed (.inl hact)
    · rw [if_neg hact] at hor
      exact h.unclosed hor
  · -- an active source has no error, and the others keep theirs
    replace hor : s.pausedMachine.state = .pausing ∨ s.pausedMachine.state = .paused := hor
    rw [heq] at hor
    by_cases hact : s.machine.state = .active
    · exact (h.active hact).2.1
    · rw [if_neg hact] at hor
      exact hst hor

/-- **Pausing.** The source leaves the active state; unless the cancel request could not be
submitted, the error is unchanged. -/
theorem InvWith.requestBackendPause (h : InvWith armed s) (hs : s.machine.state ≠ .idle) :
    InvWith armed s.requestBackendPause ∧ s.requestBackendPause.machine.state ≠ .active ∧
      s.requestBackendPause.ctl.submitted = s.ctl.submitted ∧
      s.requestBackendPause.ctl.aborted = s.ctl.aborted ∧
      (NoStall s → NoStall s.requestBackendPause) := by
  obtain ⟨hp, hne, hidle, hstall⟩ := h.setPaused hs
  obtain ⟨m, hm, ⟨hsub, halive, hstep⟩, hcases⟩ := SourceControl.requestBackendPause_cases s.ctl
    AcceptSourceStateMachine.requestPause AcceptSourceStateMachine.requestStop
  obtain rfl : m = s.pausedMachine := hm
  rcases hcases with ⟨hst, herr⟩ | ⟨hst, -⟩
  · have hst' : s.requestBackendPause.machine = s.pausedMachine := hst
    refine ⟨hp.withCtl ?_ ?_ ?_ (hstep h.inStep) ?_ ?_ ?_ ?_ ?_, ?_, hsub, halive, fun h' hor => ?_⟩
    · rw [hst]; exact hp.consistent
    · rw [hst]; exact hp.armed
    · rw [hst]; rfl
    · rw [hsub]; exact h.reserved
    · rw [hst]; exact hidle
    · rw [hst]; exact fun ha => absurd ha hne
    · rw [hst]; exact hp.held hidle
    · rw [hst]; exact hp.unclosed
    · rw [hst']; exact hne
    · rw [hst'] at hor
      exact herr.trans (hstall h' hor)
  · have hst' : s.requestBackendPause.machine = s.pausedMachine.requestStop := hst
    have hstop : s.requestBackendPause.machine.state.Stopped :=
      hst' ▸ SourceState.stopped_requestStop
    exact ⟨hp.stopped hst (hstep h.inStep) hsub, hstop.ne.1, hsub, halive,
      fun _ => (quiet_of_stopped hstop).1⟩

/-! ## Submissions -/

def submitFails (s : AcceptSource) : Bool :=
  s.loopStopping = true ∨ (s.ctl.answers.head?.join).isSome = true

def armedWith (s : AcceptSource) (answers : List (Option Error)) : AcceptSource :=
  { s with
    ctl := { s.ctl with
      state := { s.machine with armedRequests := s.machine.armedRequests + 1 }
      submitted := true
      inFlight := true
      answers }
    listener := { s.listener with pendingAccepts := s.listener.pendingAccepts + 1 } }

/-- **Submission.** With room for the request, it is submitted, or the submission fails and leaves
the source as it was. -/
theorem startOperation_cases (hc : s.listenerClosed = false) (hsub : s.ctl.submitted = false)
    (harm : s.machine.canArm = true) :
    (s.submitFails = false ∧ ∃ answers, s.startOperation = (none, s.armedWith answers)) ∨
      (s.submitFails = true ∧
        ∃ e answers, s.startOperation = (some e, s.withAnswers answers)) := by
  have hact := (AcceptSourceStateMachine.canArm_iff.mp harm).1
  have hback := AcceptSourceStateMachine.completeMultishotEvent_armed hact
  unfold startOperation
  rw [if_neg (by simp [hc])]
  by_cases hl : s.loopStopping = true
  · rw [if_pos hl]
    exact .inr ⟨by simp [submitFails, hl], ECANCELED, s.ctl.answers, rfl⟩
  rw [if_neg hl, if_neg (by simp [hsub]), if_neg (by simp [harm]),
    AcceptSourceStateMachine.tryArm_eq, if_pos harm]
  simp only [setMachine, SourceControl.submitOp]
  rcases ha : s.ctl.answers with _ | ⟨_ | e, answers⟩
  · exact .inl ⟨by simp [submitFails, hl, ha], [], by simp [armedWith]⟩
  · exact .inl ⟨by simp [submitFails, hl, ha], answers, rfl⟩
  · refine .inr ⟨by simp [submitFails, ha], e, answers, ?_⟩
    simp only [hback]
    rfl

/-! ## Delivery without connections -/

def terminalResult (s : AcceptSource) : NextResult ℕ :=
  match s.ctl.terminalError with
  | some e => .error e
  | none => .endOfStream

theorem terminalResult_events : s.terminalResult.events = [] := by
  unfold terminalResult
  split <;> rfl

def answered (s : AcceptSource) (a : ℕ) (r : NextResult ℕ) : AcceptSource :=
  { s with
    pendingNext := none
    nexts := s.nexts ++ [(a, r)]
    deliveries := s.deliveries ++ [(some a, some a)] }

/-- Delivery when no connection waits: only a terminal source has something to say. -/
def deliverEmpty (s : AcceptSource) : AcceptSource :=
  match s.pendingNext with
  | some a =>
    if s.machine.state = .terminal then
      { s.releaseListenerReservation with
        pendingNext := none
        nexts := complete s.nexts a s.terminalResult
        deliveries := s.deliveries ++ [(some a, some a)] }
    else s
  | none => s

/-- A delivery, for calls that find the queue empty. -/
structure Delivers (deliver : AcceptSource → AcceptSource) : Prop where
  none : ∀ t, t.pendingNext = none → deliver t = t
  empty : ∀ t, t.backlog = [] → deliver t = t.deliverEmpty

theorem releaseListenerReservation_eq : s.releaseListenerReservation =
    { s with listener := s.releaseListenerReservation.listener } := by
  unfold releaseListenerReservation
  split_ifs <;> rfl

theorem deliverNextWith_none (deliver : AcceptSource → AcceptSource) (h : s.pendingNext = none) :
    s.deliverNextWith deliver = s := by
  rw [deliverNextWith, if_pos (by simp [h])]

theorem tryTakeNextWith_empty (deliver : AcceptSource → AcceptSource) (h : s.backlog = []) :
    s.tryTakeNextWith deliver = if s.machine.state = .terminal then
      (some s.terminalResult, s.releaseListenerReservation) else (none, s) := by
  obtain ⟨he, ho⟩ := backlog_eq_nil.mp h
  rw [tryTakeNextWith, he, ho]
  rfl

theorem deliverNextWith_empty (deliver : AcceptSource → AcceptSource) (h : s.backlog = []) :
    s.deliverNextWith deliver = s.deliverEmpty := by
  unfold deliverNextWith deliverEmpty
  cases hp : s.pendingNext with
  | none => simp
  | some a =>
    rw [if_neg (by simp), tryTakeNextWith_empty deliver h]
    by_cases ht : s.machine.state = .terminal
    · rw [releaseListenerReservation_eq]
      simp only [if_pos ht, hp, completeNext]
    · simp only [if_neg ht]

theorem delivers_deliverNext (depth : ℕ) : Delivers (deliverNext (depth + 1)) :=
  ⟨fun _ h => deliverNextWith_none _ h, fun _ h => deliverNextWith_empty _ h⟩

theorem delivers_deliverNextIfReady : Delivers deliverNextIfReady := delivers_deliverNext 1

theorem InvWith.releaseListenerReservation (h : InvWith armed s) :
    InvWith armed s.releaseListenerReservation := by
  unfold AcceptSource.releaseListenerReservation
  split_ifs with hc
  · exact { h with held := fun _ ht => absurd hc.1 ht }
  · exact h

theorem InvWith.answered (h : InvWith armed s) {a : ℕ} (hp : s.pendingNext = some a)
    (r : NextResult ℕ) :
    complete s.nexts a r = s.nexts ++ [(a, r)] ∧ InvWith armed (s.answered a r) := by
  have haw : Awaiters s.nexts s.nextCalls (some a) := hp ▸ h.awaiters
  obtain ⟨heq, haw'⟩ := haw.complete r
  exact ⟨heq, h.consistent, h.armed, h.queued, h.inStep, h.active,
    fun hi => ⟨rfl, (h.fresh hi).2⟩, h.held, h.unclosed, h.reserved, h.listenerOk, haw'⟩

theorem Sound.answered (h : Sound s) (a : ℕ) (r : NextResult ℕ) : Sound (s.answered a r) := by
  refine ⟨h.1, fun d hd => ?_⟩
  rw [AcceptSource.answered, List.mem_append, List.mem_singleton] at hd
  rcases hd with hd | rfl
  · exact h.2 d hd
  · rfl

theorem handed_answered {a : ℕ} {r : NextResult ℕ} :
    (s.answered a r).handed = s.handed ++ r.events := by
  simp [handed, AcceptSource.answered]

theorem InvWith.deliverEmpty_terminal (h : InvWith armed s) {a : ℕ} (hp : s.pendingNext = some a)
    (ht : s.machine.state = .terminal) :
    s.deliverEmpty = s.releaseListenerReservation.answered a s.terminalResult := by
  obtain ⟨heq, -⟩ := h.answered hp s.terminalResult
  rw [deliverEmpty, hp]
  dsimp only
  rw [if_pos ht, heq, releaseListenerReservation_eq]
  rfl

/-! ## Resuming admission -/

/-- What a resumption of the source keeps. -/
structure Resumed (s s' : AcceptSource) : Prop where
  inv : Inv s'
  backlog : s'.backlog = s.backlog
  handed : s'.handed = s.handed
  accepted : s'.accepted = s.accepted
  nextCalls : s'.nextCalls = s.nextCalls
  parked : s'.pendingNext.isSome → s'.pendingNext = s.pendingNext ∧
    (s'.machine.state = .terminal → s.machine.state = .terminal)
  fresh : s.pendingNext = none → s'.pendingNext = none ∧ s'.nexts = s.nexts
  paused : s'.machine.state = .paused → s.machine.state = .paused
  sound : Sound s → Sound s'
  stall : NoStall s → NoStall s'
  progress : Progress s → Progress s'
  resumable : Resumable s → Resumable s'

theorem Resumed.refl (h : Inv s) : Resumed s s :=
  ⟨h, rfl, rfl, rfl, rfl, fun _ => ⟨rfl, id⟩, fun hp => ⟨hp, rfl⟩, id, id, id, id, id⟩

variable {deliver : AcceptSource → AcceptSource}

theorem InvWith.deliver_stopped (h : Inv s) (e : Option Error)
    (hempty : s.pendingNext.isSome → s.backlog = [])
    (hd : Delivers deliver) :
    Resumed s (deliver (s.requestBackendStop e)) ∧
      (deliver (s.requestBackendStop e)).machine.state ≠ .active := by
  have hinv := inv_requestBackendStop h e
  have hmach := requestBackendStop_machine (s := s) e
  have halive : (s.requestBackendStop e).ctl.aborted = s.ctl.aborted :=
    SourceControl.requestBackendStop_aborted
  have hstop := stopped_requestBackendStop (s := s) e
  obtain ⟨hactive, -, hpaused, -⟩ := hstop.ne
  have hstall := (quiet_of_stopped hstop).1
  set t := s.requestBackendStop e with ht
  have hsound : Sound s → Sound t := fun hs => ⟨halive.trans hs.1, hs.2⟩
  have hstay (hnt : t.pendingNext.isSome → t.machine.state ≠ .terminal) : Resumed s t :=
    ⟨hinv, rfl, rfl, rfl, rfl, fun hp => ⟨rfl, fun hst => absurd hst (hnt hp)⟩,
      fun hp => ⟨hp, rfl⟩, fun hst => absurd hst hpaused, hsound, fun _ => hstall,
      fun _ hst => absurd hst hactive, fun _ hst => absurd hst hpaused⟩
  cases hp : s.pendingNext with
  | none =>
    have hpt : t.pendingNext = none := hp
    rw [hd.none t hpt]
    exact ⟨hstay fun hs => by simp [hpt] at hs, hactive⟩
  | some a =>
    have hpt : t.pendingNext = some a := hp
    rw [hd.empty t (hempty (by simp [hp]))]
    by_cases hterm : t.machine.state = .terminal
    · have hrel := hinv.releaseListenerReservation
      rw [hinv.deliverEmpty_terminal hpt hterm]
      rw [releaseListenerReservation_eq] at hrel ⊢
      refine ⟨⟨(hrel.answered hpt _).2, rfl, ?_, rfl, rfl, by simp [AcceptSource.answered],
        by simp [hp], fun hst => absurd hst hpaused, fun hs => ?_, fun _ => hstall,
        fun _ hst => absurd hst hactive, fun _ hst => absurd hst hpaused⟩, hactive⟩
      · rw [handed_answered, terminalResult_events, List.append_nil]
        rfl
      · have hs' : Sound { t with listener := t.releaseListenerReservation.listener } := hsound hs
        exact hs'.answered a t.terminalResult
    · rw [deliverEmpty, hpt]
      dsimp only
      rw [if_neg hterm]
      exact ⟨hstay fun _ => hterm, hactive⟩

theorem InvWith.armedWith (h : Inv s) (hc : s.machine.canArm = true)
    (hsub : s.ctl.submitted = false) (answers : List (Option Error)) :
    Inv (s.armedWith answers) := by
  have hact := (AcceptSourceStateMachine.canArm_iff.mp hc).1
  have harmed := h.armed
  rw [hsub] at harmed
  refine ⟨h.consistent.arm hc, congrArg (· + 1) harmed, h.queued, ⟨rfl, h.inStep.2⟩,
    fun _ => h.active hact, fun hi => absurd (hact.symm.trans hi) (by decide), h.held, h.unclosed,
    ?_, h.listenerOk, h.awaiters⟩
  simp [AcceptSource.armedWith]

/-- **Resubmission.** With no connection in the way of a parked awaiter and room in the queue,
`EnsureSubmission` leaves the source with a request or on its way to the terminal state. -/
theorem InvWith.ensureSubmissionWith (h : Inv s) (hempty : s.pendingNext.isSome → s.backlog = [])
    (hroom : s.machine.state = .active → s.machine.queuedEvents < s.machine.options.eventCapacity)
    (hd : Delivers deliver) :
    Resumed s (s.ensureSubmissionWith deliver) ∧ Progress (s.ensureSubmissionWith deliver) ∧
      (s.submitFails = false → (s.ensureSubmissionWith deliver).pendingNext = s.pendingNext ∧
        (s.ensureSubmissionWith deliver).nexts = s.nexts) := by
  unfold AcceptSource.ensureSubmissionWith
  by_cases hg : s.listener.closed = true ∨ s.machine.state ≠ .active ∨ s.ctl.submitted = true ∨
      s.ctl.cancelSubmitted = true
  · rw [if_pos hg]
    refine ⟨.refl h, fun hact => ?_, fun _ => ⟨rfl, rfl⟩⟩
    rcases hg with hg | hg | hg | hg
    · simp [h.unclosed (.inl hact)] at hg
    · exact absurd hact hg
    · exact hg
    · simp [(h.active hact).1] at hg
  rw [if_neg hg]
  simp only [ne_eq, not_or, not_not] at hg
  obtain ⟨-, hact, hsub, -⟩ := hg
  have hsub' : s.ctl.submitted = false := by simpa using hsub
  have harmed : s.machine.armedRequests = 0 := by rw [h.armed, hsub']; rfl
  have harm := h.consistent.canArm_of_room hact harmed (hroom hact)
  have hclosed := h.listenerClosed_eq (h.unclosed (.inl hact))
  rcases startOperation_cases hclosed hsub' harm with
    ⟨-, answers, heq⟩ | ⟨hf, e, answers, heq⟩
  · rw [heq]
    have hact' : (s.armedWith answers).machine.state = .active := hact
    refine ⟨⟨h.armedWith harm hsub' answers, rfl, rfl, rfl, rfl, fun _ => ⟨rfl, ?_⟩,
      fun hp => ⟨hp, rfl⟩, ?_, id, ?_, fun _ _ => rfl, ?_⟩, fun _ => rfl, fun _ => ⟨rfl, rfl⟩⟩
    · exact fun hst => by rw [hact'] at hst; cases hst
    · exact fun hst => by rw [hact'] at hst; cases hst
    · rintro - (hst | hst) <;> rw [hact'] at hst <;> cases hst
    · exact fun _ hst => by rw [hact'] at hst; cases hst
  · rw [heq]
    have hinv : Inv (s.withAnswers answers) := InvWith.withAnswers h answers
    obtain ⟨hr, hne⟩ := hinv.deliver_stopped (some e) hempty hd
    exact ⟨{ hr with }, fun hst => absurd hst hne,
      fun hn => absurd hf (by simp [hn])⟩

def Steals (s : AcceptSource) : Prop :=
  s.machine.state = .paused ∧ s.ctl.cancelSubmitted = false ∧ s.ctl.terminalError = none ∧
    s.submitFails = true

/-- **Resuming.** `MaybeResume` leaves a source paused only if it has a reason not to run. -/
theorem InvWith.maybeResumeWith (h : Inv s) (hempty : s.pendingNext.isSome → s.backlog = [])
    (hd : Delivers deliver) :
    Resumed s (s.maybeResumeWith deliver) ∧ Resumable (s.maybeResumeWith deliver) ∧
      (¬ Steals s → (s.maybeResumeWith deliver).pendingNext = s.pendingNext ∧
        (s.maybeResumeWith deliver).nexts = s.nexts) := by
  unfold AcceptSource.maybeResumeWith
  by_cases hg : s.ctl.terminalError.isSome ∨ s.listener.closed = true ∨
      s.ctl.cancelSubmitted = true ∨ s.overflow ≠ []
  · rw [if_pos hg]
    refine ⟨.refl h, fun hp => ?_, fun _ => ⟨rfl, rfl⟩⟩
    rcases hg with hg | hg | hg | hg
    · exact .inr (.inr (.inr hg))
    · simp [h.unclosed (.inr (.inr hp))] at hg
    · exact .inl hg
    · exact .inr (.inr (.inl hg))
  rw [if_neg hg]
  simp only [ne_eq, not_or, not_not] at hg
  obtain ⟨herr, hclosed, hcancel, hover⟩ := hg
  unfold AcceptSourceStateMachine.tryResume
  by_cases hst : s.machine.state ≠ .paused ∨
      s.machine.options.resumeThresholdOrHalf < s.machine.queuedEvents
  · rw [if_pos hst]
    refine ⟨.refl h, fun hp => ?_, fun _ => ⟨rfl, rfl⟩⟩
    rcases hst with hst | hst
    · exact absurd hp hst
    · exact .inr (.inl hst)
  rw [if_neg hst]
  simp only [ne_eq, not_or, not_not] at hst
  -- the machine is active again
  have hcancel' : s.ctl.cancelSubmitted = false := by simpa using hcancel
  have herr' : s.ctl.terminalError = none := by simpa using herr
  set t := s.setMachine { s.machine with state := .active } with ht
  have hactive : Inv t :=
    InvWith.withCtl h h.consistent.activate h.armed rfl h.inStep h.reserved (by simp)
      (fun _ => ⟨hcancel', herr', hover⟩) (fun _ => h.held (by simp [hst.1]) (by simp [hst.1]))
      fun _ => by simpa using hclosed
  have hthr := AcceptSourceOptions.resumeThresholdOrHalf_lt h.consistent.valid
  obtain ⟨hr, hprog, hkeep⟩ := hactive.ensureSubmissionWith hempty
    (fun _ => Nat.lt_of_le_of_lt (Nat.not_lt.mp hst.2) hthr) hd
  have hstate : t.machine.state = .active := rfl
  have hresum : Resumable (t.ensureSubmissionWith deliver) :=
    hr.resumable fun hp => by rw [hstate] at hp; cases hp
  refine ⟨{ hr with
    parked := fun hp => ?_, paused := fun hp => hst.1, stall := fun _ => ?_,
    progress := fun _ => hprog, resumable := fun _ => hresum }, hresum, fun hs => ?_⟩
  · obtain ⟨hp', hterm⟩ := hr.parked hp
    exact ⟨hp', fun ht => by have := hterm ht; rw [hstate] at this; cases this⟩
  · exact hr.stall fun hor => by rw [hstate] at hor; rcases hor with ho | ho <;> cases ho
  · refine hkeep ?_
    show s.submitFails = false
    by_contra hf
    exact hs ⟨hst.1, hcancel', herr', by simpa using hf⟩

/-! ## Taking connections -/

def Calm (s : AcceptSource) : Prop := s.pendingNext.isSome → s.backlog.length ≤ 1

/-- The first stream was taken from the queue. -/
structure Took (s s' : AcceptSource) (stream : ℕ) : Prop where
  inv : Inv s'
  backlog : s.backlog = stream :: s'.backlog
  handed : s'.handed = s.handed
  accepted : s'.accepted = s.accepted
  nextCalls : s'.nextCalls = s.nextCalls
  parked : s'.pendingNext.isSome → s'.pendingNext = s.pendingNext
  kept : s.pendingNext = none ∨ ¬ Steals s → s'.pendingNext = s.pendingNext ∧ s'.nexts = s.nexts
  paused : s'.machine.state = .paused → s.machine.state = .paused
  sound : Sound s → Sound s'
  stall : NoStall s → NoStall s'
  progress : Progress s → Progress s'

theorem Took.resume {s' : AcceptSource} {stream : ℕ} (h : Took s s' stream) (hcalm : Calm s)
    (hp : s'.pendingNext = s.pendingNext ∧ s'.nexts = s.nexts) (hsteal : Steals s' → Steals s)
    (hd : Delivers deliver) :
    Took s (s'.maybeResumeWith deliver) stream ∧ Resumable (s'.maybeResumeWith deliver) := by
  have hempty : s'.pendingNext.isSome → s'.backlog = [] := by
    intro hsome
    have hlen := hcalm (hp.1 ▸ hsome)
    rw [h.backlog] at hlen
    exact List.length_eq_zero_iff.mp (by simpa using hlen)
  obtain ⟨hr, hres, hkeep⟩ := h.inv.maybeResumeWith hempty hd
  refine ⟨⟨hr.inv, by rw [hr.backlog, h.backlog], hr.handed.trans h.handed,
    hr.accepted.trans h.accepted, hr.nextCalls.trans h.nextCalls,
    fun hs => (hr.parked hs).1.trans hp.1, fun hor => ?_, fun hs => h.paused (hr.paused hs),
    fun hs => hr.sound (h.sound hs),
    fun hs => hr.stall (h.stall hs), fun hs => hr.progress (h.progress hs)⟩, hres⟩
  rcases hor with hnone | hns
  · obtain ⟨h1, h2⟩ := hr.fresh (hp.1.trans hnone)
    exact ⟨h1.trans hnone.symm, h2.trans hp.2⟩
  · obtain ⟨h1, h2⟩ := hkeep fun hs => hns (hsteal hs)
    exact ⟨h1.trans hp.1, h2.trans hp.2⟩

theorem ensureSubmissionWith_eq (h : Progress s) (deliver : AcceptSource → AcceptSource) :
    s.ensureSubmissionWith deliver = s := by
  rw [ensureSubmissionWith, if_pos]
  by_cases hact : s.machine.state = .active
  · exact .inr (.inr (.inl (h hact)))
  · exact .inr (.inl hact)

def consumed (s : AcceptSource) (events : List ℕ) : AcceptSource :=
  ({ s with events } : AcceptSource).setMachine
    { s.machine with queuedEvents := s.machine.queuedEvents - 1 }.reconcileStopping

theorem InvWith.takeEvent (h : Inv s) {stream : ℕ} {events : List ℕ}
    (he : s.events = stream :: events) :
    s.machine.consumeEvent = some (s.consumed events).machine ∧
      Took s (s.consumed events) stream ∧
      ((s.consumed events).machine.state = s.machine.state ∨
        (s.consumed events).machine.state = .terminal) := by
  have hq : s.machine.queuedEvents ≠ 0 := by rw [h.queued, he]; simp
  obtain ⟨hcons, hstate⟩ := h.consistent.consumed hq
  have hcase : (s.consumed events).machine.state = s.machine.state ∨
      s.machine.state = .draining ∧ (s.consumed events).machine.state = .terminal := hstate
  have hsame {st : SourceState} (hst : (s.consumed events).machine.state = st)
      (hne : st ≠ .terminal) : s.machine.state = st := by
    rcases hcase with hc | ⟨-, hc⟩
    · exact hc.symm.trans hst
    · exact absurd (hst.symm.trans hc) hne
  refine ⟨AcceptSourceStateMachine.consumeEvent_eq hq, ⟨⟨hcons, h.armed, ?_, h.inStep,
    fun ha => h.active (hsame ha (by decide)), fun hi => h.fresh (hsame hi (by decide)),
    fun hi ht => ?_, fun hor => ?_, h.reserved, h.listenerOk, h.awaiters⟩, ?_, rfl, rfl, rfl,
    fun _ => rfl, fun _ => ⟨rfl, rfl⟩, fun hp => hsame hp (by decide), id, fun hs hor => ?_,
    fun hp ha => hp (hsame ha (by decide))⟩, ?_⟩
  · show s.machine.queuedEvents - 1 = events.length
    rw [h.queued, he]
    rfl
  · have hne : s.machine.state ≠ .terminal := fun hterm => by
      rcases hcase with hc | ⟨hc, -⟩
      · exact ht (hc.trans hterm)
      · rw [hterm] at hc; cases hc
    refine h.held (fun hidle => ?_) hne
    rcases hcase with hc | ⟨hc, -⟩
    · exact hi (hc.trans hidle)
    · rw [hidle] at hc; cases hc
  · rcases hor with hor | hor | hor
    · exact h.unclosed (.inl (hsame hor (by decide)))
    · exact h.unclosed (.inr (.inl (hsame hor (by decide))))
    · exact h.unclosed (.inr (.inr (hsame hor (by decide))))
  · simp [backlog, consumed, setMachine, he]
  · rcases hor with hor | hor
    · exact hs (.inl (hsame hor (by decide)))
    · exact hs (.inr (hsame hor (by decide)))
  · rcases hcase with hc | ⟨-, hc⟩
    · exact .inl hc
    · exact .inr hc

/-- **Taking a connection.** When a connection waits, `TryTakeNext` returns the first one. -/
theorem InvWith.tryTakeNextWith_cons (h : Inv s) (hcalm : Calm s) (hprog : Progress s)
    (hne : s.backlog ≠ []) (hd : Delivers deliver) :
    ∃ stream s', s.tryTakeNextWith deliver = (some (.event stream), s') ∧ Took s s' stream ∧
      Resumable s' := by
  cases he : s.events with
  | cons stream events =>
    obtain ⟨hcons, htook, hstate⟩ := h.takeEvent he
    refine ⟨stream, if (s.consumed events).machine.state = .paused then
      (s.consumed events).maybeResumeWith deliver else s.consumed events, ?_, ?_⟩
    · have hens := ensureSubmissionWith_eq (htook.progress hprog) deliver
      simp only [AcceptSource.tryTakeNextWith, he, hcons]
      rw [show (({ s with events } : AcceptSource).setMachine (s.consumed events).machine) =
        s.consumed events from rfl, hens]
    · split_ifs with hpaused
      · refine htook.resume hcalm ⟨rfl, rfl⟩ (fun hs => ⟨?_, hs.2⟩) hd
        rcases hstate with hst | hst
        · rw [← hst]; exact hpaused
        · rw [hst] at hpaused; cases hpaused
      · exact ⟨htook, fun hp => absurd hp hpaused⟩
  | nil =>
    cases hover : s.overflow with
    | nil => exact absurd (backlog_eq_nil.mpr ⟨he, hover⟩) hne
    | cons stream overflow =>
      have hinact : s.machine.state ≠ .active := fun ha => by
        have := (h.active ha).2.2
        simp [hover] at this
      have hfresh : s.machine.state ≠ .idle := fun hi => by
        have := (h.fresh hi).2.2.2
        simp [hover] at this
      have htook : Took s { s with overflow } stream := by
        refine ⟨{ h with
          active := fun ha => absurd ha hinact, fresh := fun hi => absurd hi hfresh },
          ?_, rfl, rfl, rfl, fun _ => rfl, fun _ => ⟨rfl, rfl⟩, id, id, id, id⟩
        simp [backlog, he, hover]
      refine ⟨stream, if overflow = [] ∧ s.machine.state = .paused then
        AcceptSource.maybeResumeWith { s with overflow } deliver else { s with overflow }, ?_, ?_⟩
      · simp only [AcceptSource.tryTakeNextWith, he, hover]
      · split_ifs with hpaused
        · exact htook.resume hcalm ⟨rfl, rfl⟩ id hd
        · exact ⟨htook, fun hp => .inr (.inr (.inl fun ho => hpaused ⟨ho, hp⟩))⟩

/-- What a delivery leaves behind. -/
structure Delivered (s s' : AcceptSource) : Prop where
  inv : Inv s'
  accepted : s'.accepted = s.accepted
  nextCalls : s'.nextCalls = s.nextCalls
  parked : s'.pendingNext.isSome →
    s'.backlog = [] ∧ s'.machine.state ≠ .terminal ∧ s'.pendingNext = s.pendingNext
  flow : (s.pendingNext.isSome → s.backlog ≠ [] → ¬ Steals s) →
    s'.flow = s.flow ∧ (Sound s → Sound s')
  paused : s'.machine.state = .paused → s.machine.state = .paused
  stall : NoStall s → NoStall s'
  progress : Progress s → Progress s'
  resumable : Resumable s → Resumable s'

theorem InvWith.deliverNextIfReady (h : Inv s) (hcalm : Calm s) (hprog : Progress s) :
    Delivered s (deliverNextIfReady s) := by
  have hd := delivers_deliverNextIfReady
  cases hp : s.pendingNext with
  | none =>
    rw [hd.none s hp]
    exact ⟨h, rfl, rfl, by simp [hp], fun _ => ⟨rfl, id⟩, id, id, id, id⟩
  | some a =>
    by_cases hb : s.backlog = []
    · rw [hd.empty s hb]
      by_cases ht : s.machine.state = .terminal
      · have hrel := h.releaseListenerReservation
        rw [h.deliverEmpty_terminal hp ht]
        rw [releaseListenerReservation_eq] at hrel ⊢
        refine ⟨(hrel.answered hp _).2, rfl, rfl, by simp [AcceptSource.answered], fun _ => ⟨?_,
          fun hs => ?_⟩, id, id, id, id⟩
        · rw [flow, handed_answered, terminalResult_events, List.append_nil]
          rfl
        · have hs' : Sound { s with listener := s.releaseListenerReservation.listener } := hs
          exact hs'.answered a s.terminalResult
      · rw [deliverEmpty, hp]
        dsimp only
        rw [if_neg ht]
        exact ⟨h, rfl, rfl, fun _ => ⟨hb, ht, rfl⟩, fun _ => ⟨rfl, id⟩, id, id, id, id⟩
    · obtain ⟨stream, s₁, heq, htook, hres⟩ := h.tryTakeNextWith_cons hcalm hprog hb
        (delivers_deliverNext 0)
      have hdel : AcceptSource.deliverNextIfReady s = s.deliverNextWith (deliverNext 1) := rfl
      rw [deliverNextWith, if_neg (by simp [hp]), heq] at hdel
      dsimp only at hdel
      cases hp₁ : s₁.pendingNext with
      | none =>
        -- stolen: a null pointer is followed, and the connection is lost
        have hlost : AcceptSource.deliverNextIfReady s = ({ s₁ with
            deliveries := s₁.deliveries ++ [(s.pendingNext, none)] } : AcceptSource).abort := by
          rw [hdel, hp₁]
        rw [hlost]
        refine { htook with
          inv := { htook.inv with },
          parked := by simp [abort, hp₁], flow := fun hns => ?_, resumable := fun _ => hres }
        have := (htook.kept (.inr (hns (by simp [hp]) hb))).1
        rw [hp₁, hp] at this
        cases this
      | some b =>
        obtain rfl : b = a := by
          have := htook.parked (by simp [hp₁])
          rw [hp₁, hp] at this
          exact Option.some.inj this
        obtain ⟨hcomp, hinv⟩ := InvWith.answered htook.inv hp₁ (.event stream)
        have hans : AcceptSource.deliverNextIfReady s = s₁.answered b (.event stream) := by
          rw [hdel, hp₁]
          dsimp only [completeNext]
          rw [hcomp, hp]
          rfl
        rw [hans]
        refine { htook with
          inv := hinv, parked := by simp [AcceptSource.answered],
          flow := fun _ => ⟨?_, fun hs => (htook.sound hs).answered _ _⟩,
          resumable := fun _ => hres }
        rw [flow, flow, handed_answered, htook.handed, htook.backlog, List.append_assoc]
        rfl

end AcceptSource

end Alyrn.Uring
