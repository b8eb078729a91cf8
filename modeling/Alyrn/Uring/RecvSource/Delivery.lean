import Alyrn.Uring.RecvSource.Stock

/-!
# Submission, resumption and delivery in RecvSource

The invariant of the source (`Inv`) and what the functions below the entry points do to it.

Delivery can call itself through a failed resubmission. The nested call finds no payload: a parked
awaiter has at most one payload waiting (`Calm`), and the outer call has taken it.
-/

namespace Alyrn.Uring

open Net Transition

/-! ## The invariant -/

/-- The requests of a source with `armed` armed requests in its machine. -/
structure Control (armed : ℕ) (c : SourceControl RecvSourceStateMachine)
    (overflow : List (List UInt8)) : Prop where
  armed : c.state.armedRequests = armed
  inStep : c.InStep
  active : c.state.state = .active →
    c.cancelSubmitted = false ∧ c.terminalError = none ∧ overflow = []
  alive : c.aborted = false

namespace RecvSource

/-- The invariant inside an entry, with `armed` requests in the machine. -/
structure InvWith (armed : ℕ) (s : RecvSource) : Prop where
  stock : Stock s.machine s.events s.queuedPayloads s.copyFree s.leases s.bufferSize
  buffers : s.buffers.Idle s.bufferSize
  control : Control armed s.ctl s.overflow
  awaiters : Awaiters s.nexts s.nextCalls s.pendingNext
  fresh : s.machine.state = .idle → s.pendingNext = none ∧ s.ctl.cancelSubmitted = false ∧
    s.ctl.terminalError = none ∧ s.overflow = []

/-- The invariant outside of a completion: the machine counts the submitted request. -/
abbrev Inv (s : RecvSource) : Prop := InvWith s.ctl.submitted.toNat s

/-- The payloads that wait in the source, in the order in which they will be handed out. -/
def backlog (s : RecvSource) : List (List UInt8) :=
  s.events.toList.map (fun e => s.payload e.copySlot e.size) ++ s.overflow

def handed (s : RecvSource) : List (List UInt8) := handedOut s.nexts

/-- The payloads handed out and those queued, in order. -/
def flow (s : RecvSource) : List (List UInt8) := s.handed ++ s.backlog

theorem backlog_eq_nil {s : RecvSource} :
    s.backlog = [] ↔ s.events.toList = [] ∧ s.overflow = [] := by
  simp [backlog]

variable {s : RecvSource} {armed armed' : ℕ} {c : SourceControl RecvSourceStateMachine}

theorem InvWith.consistent (h : InvWith armed s) : s.machine.Consistent := h.stock.consistent

theorem InvWith.withCtl (h : InvWith armed s)
    (hm : c.state.Consistent) (ho : c.state.options = s.machine.options)
    (hq : c.state.queuedEvents = s.machine.queuedEvents)
    (hl : c.state.outstandingLeases = s.machine.outstandingLeases)
    (hi : c.state.state ≠ .idle) (hc : Control armed' c s.overflow) :
    InvWith armed' { s with ctl := c } :=
  ⟨h.stock.withMachine hm ho hq hl, h.buffers, hc, h.awaiters, fun hs => absurd hs hi⟩

theorem InvWith.ne_idle (h : InvWith 1 s) : s.machine.state ≠ .idle := fun hs => by
  have := h.consistent.lifecycle.quiet (.inl hs)
  rw [h.control.armed] at this
  exact absurd this (by decide)

/-- An error ends a source: it is recorded only on the way to the terminal state. -/
def NoStall (s : RecvSource) : Prop :=
  s.machine.state = .pausing ∨ s.machine.state = .paused → s.ctl.terminalError = none

def Progress (s : RecvSource) : Prop :=
  s.machine.state = .active → s.ctl.submitted = false → s.machine.outstandingLeases ≠ 0

def Resumable (s : RecvSource) : Prop :=
  s.machine.state = .paused → s.ctl.cancelSubmitted = true ∨
    s.machine.options.resumeThresholdOrHalf < s.machine.queuedEvents ∨ s.overflow ≠ [] ∨
    s.ctl.terminalError.isSome

@[simp] theorem requestBackendStop_machine (e : Option Error) :
    (s.requestBackendStop e).machine = s.machine.requestStop :=
  SourceControl.requestBackendStop_state

theorem InvWith.stopped_state (h : InvWith armed s) :
    s.machine.requestStop.state =
      if armed ≠ 0 then .stopping else if s.machine.drained then .terminal else .draining := by
  have := SourceState.requestStop_eq h.consistent.lifecycle
  rw [h.control.armed] at this
  rw [← this, ← h.control.armed]
  rfl

theorem stopped_requestBackendStop (e : Option Error) :
    (s.requestBackendStop e).machine.state.Stopped := by
  rw [requestBackendStop_machine]
  exact SourceState.stopped_requestStop

theorem quiet_of_stopped (h : s.machine.state.Stopped) : NoStall s ∧ Progress s ∧ Resumable s := by
  obtain ⟨h1, h2, h3, -⟩ := h.ne
  exact ⟨fun hor => absurd hor (not_or.mpr ⟨h2, h3⟩), fun ha => absurd ha h1,
    fun hp => absurd hp h3⟩

theorem InvWith.stopped (h : InvWith armed s)
    (hst : c.state = s.machine.requestStop) (hi : c.InStep) (ha : c.aborted = s.ctl.aborted) :
    InvWith armed { s with ctl := c } := by
  have hstop : c.state.state.Stopped := hst ▸ SourceState.stopped_requestStop
  obtain ⟨hne, -, -, hidle⟩ := hstop.ne
  refine h.withCtl ?_ ?_ ?_ ?_ hidle ⟨?_, hi, fun hact => absurd hact hne, ha.trans h.control.alive⟩
  · rw [hst]; exact h.consistent.requestStop
  · rw [hst]; rfl
  · rw [hst]; rfl
  · rw [hst]; rfl
  · rw [hst]; exact h.control.armed

theorem InvWith.requestBackendStop (h : InvWith armed s) (e : Option Error) :
    InvWith armed (s.requestBackendStop e) :=
  h.stopped SourceControl.requestBackendStop_state h.control.inStep.requestBackendStop
    SourceControl.requestBackendStop_aborted

theorem inv_requestBackendStop (h : Inv s) (e : Option Error) : Inv (s.requestBackendStop e) := by
  have hsub : (s.requestBackendStop e).ctl.submitted = s.ctl.submitted :=
    SourceControl.requestBackendStop_submitted
  rw [Inv, hsub]
  exact InvWith.requestBackendStop h e

theorem requestPause_getD (m : RecvSourceStateMachine) :
    m.requestPause.toOption.getD m =
      { m with
        state := if m.state = .active then if m.armedRequests = 0 then .paused else .pausing
          else m.state } := by
  unfold RecvSourceStateMachine.requestPause SourceState.requestPause
  obtain ⟨options, state, queued, armed, leases⟩ := m
  cases state <;> simp [Except.map, Except.toOption, SourceState.reconcilePause]

theorem InvWith.pause_consistent (h : InvWith armed s) :
    (s.machine.requestPause.toOption.getD s.machine).Consistent := by
  cases hp : s.machine.requestPause with
  | error e => exact h.consistent
  | ok m => exact h.consistent.requestPause hp

/-- **Pausing.** The source leaves the active state; unless the cancel request could not be
submitted, the error is unchanged. -/
theorem InvWith.requestBackendPause (h : InvWith armed s) (hs : s.machine.state ≠ .idle) :
    InvWith armed s.requestBackendPause ∧ s.requestBackendPause.machine.state ≠ .active ∧
      s.requestBackendPause.ctl.submitted = s.ctl.submitted ∧
      s.requestBackendPause.machine.outstandingLeases = s.machine.outstandingLeases ∧
      (NoStall s → NoStall s.requestBackendPause) := by
  obtain ⟨m, hm, ⟨hsub, halive, hstep⟩, hcases⟩ := SourceControl.requestBackendPause_cases s.ctl
    RecvSourceStateMachine.requestPause RecvSourceStateMachine.requestStop
  have hcons : m.Consistent := hm ▸ h.pause_consistent
  rw [requestPause_getD] at hm
  have hne : m.state ≠ .active := by
    rw [hm]
    split_ifs <;> simp_all
  -- the pause as such
  have hidle : m.state ≠ .idle := by
    rw [hm]
    split_ifs <;> simp [hs]
  have hpaused : InvWith armed (s.setMachine m) :=
    h.withCtl hcons (by rw [hm]) (by rw [hm]) (by rw [hm]) hidle
      ⟨by rw [hm]; exact h.control.armed, h.control.inStep, fun ha => absurd ha hne,
        h.control.alive⟩
  rcases hcases with ⟨hst, herr⟩ | ⟨hst, -⟩
  · have hmach : s.requestBackendPause.machine = m := hst
    refine ⟨hpaused.withCtl ?_ ?_ ?_ ?_ ?_ ⟨?_, hstep h.control.inStep, ?_, ?_⟩, ?_, hsub, ?_,
      fun hs hor => ?_⟩
    · rw [hst]; exact hcons
    · rw [hst]; rfl
    · rw [hst]; rfl
    · rw [hst]; rfl
    · rw [hst]; exact hidle
    · rw [hst]; exact hpaused.control.armed
    · rw [hst]; exact fun ha => absurd ha hne
    · rw [halive]; exact h.control.alive
    · rw [hmach]; exact hne
    · rw [hmach, hm]
    · -- an active source has no error, and the others keep theirs
      refine Eq.trans herr ?_
      rw [hmach, hm] at hor
      by_cases hact : s.machine.state = .active
      · exact (h.control.active hact).2.1
      · rw [if_neg hact] at hor
        exact hs hor
  · have hmach : s.requestBackendPause.machine = m.requestStop := hst
    have hstop : s.requestBackendPause.machine.state.Stopped :=
      hmach ▸ SourceState.stopped_requestStop
    refine ⟨hpaused.stopped hst (hstep h.control.inStep) halive, hstop.ne.1, hsub, ?_,
      fun _ => (quiet_of_stopped hstop).1⟩
    rw [hmach, hm]
    rfl

/-! ## Submissions -/

def armedWith (s : RecvSource) (answers : List (Option Error)) : RecvSource :=
  { s with
    ctl := { s.ctl with
      state := { s.machine with armedRequests := s.machine.armedRequests + 1 }
      submitted := true
      inFlight := true
      answers } }

/-- **Submission.** The machine refuses to arm, the request is submitted, or the submission fails
and leaves the source as it was. -/
theorem startOperation_cases (hsub : s.ctl.submitted = false) :
    (s.machine.canArm = false ∧ s.startOperation = (none, s)) ∨
      (s.machine.canArm = true ∧ ∃ answers, s.startOperation = (none, s.armedWith answers)) ∨
      (s.machine.canArm = true ∧
        ∃ e answers, s.startOperation = (some e, s.withAnswers answers)) := by
  unfold startOperation RecvSourceStateMachine.tryArm
  rw [if_neg (by simp [hsub])]
  cases hc : s.machine.canArm with
  | false => exact .inl ⟨rfl, rfl⟩
  | true =>
    refine .inr ?_
    have hact := (RecvSourceStateMachine.canArm_iff.mp hc).1
    have hback := RecvSourceStateMachine.completeMultishotEvent_armed hact
    simp only [if_true, setMachine, SourceControl.submitOp]
    rcases ha : s.ctl.answers with _ | ⟨_ | e, answers⟩
    · exact .inl ⟨trivial, [], by simp [armedWith]⟩
    · exact .inl ⟨trivial, answers, rfl⟩
    · refine .inr ⟨trivial, e, answers, ?_⟩
      simp only [hback]
      rfl

/-! ## Delivery without payloads -/

def terminalResult (s : RecvSource) : NextResult (List UInt8) :=
  match s.ctl.terminalError with
  | some e => .error e
  | none => .endOfStream

/-- Delivery when no payload waits: only a terminal source has something to say. -/
def deliverEmpty (s : RecvSource) : RecvSource :=
  match s.pendingNext with
  | some a =>
    if s.machine.state = .terminal then
      { s with pendingNext := none }.completeNext a s.terminalResult
    else s
  | none => s

/-- A delivery, for calls that find the queue empty. -/
structure Delivers (deliver : RecvSource → RecvSource) : Prop where
  none : ∀ t, t.pendingNext = none → deliver t = t
  empty : ∀ t, t.backlog = [] → deliver t = t.deliverEmpty

theorem deliverNextWith_none (deliver : RecvSource → RecvSource) (h : s.pendingNext = none) :
    s.deliverNextWith deliver = s := by
  rw [deliverNextWith, if_pos (by simp [h])]

theorem tryTakeNextWith_empty (deliver : RecvSource → RecvSource) (h : s.backlog = []) :
    s.tryTakeNextWith deliver =
      (if s.machine.state = .terminal then some s.terminalResult else none, s) := by
  obtain ⟨he, ho⟩ := backlog_eq_nil.mp h
  rw [tryTakeNextWith, RingBuffer.pop?_eq_none.mpr he, ho]
  split_ifs <;> rfl

theorem deliverNextWith_empty (deliver : RecvSource → RecvSource) (h : s.backlog = []) :
    s.deliverNextWith deliver = s.deliverEmpty := by
  unfold deliverNextWith deliverEmpty
  cases hp : s.pendingNext with
  | none => simp
  | some a =>
    rw [if_neg (by simp), tryTakeNextWith_empty deliver h]
    by_cases ht : s.machine.state = .terminal
    · simp only [if_pos ht, hp]
    · simp only [if_neg ht]

theorem delivers_deliverNext (depth : ℕ) : Delivers (deliverNext (depth + 1)) :=
  ⟨fun _ h => deliverNextWith_none _ h, fun _ h => deliverNextWith_empty _ h⟩

theorem delivers_deliverNextIfReady : Delivers deliverNextIfReady := delivers_deliverNext 1

theorem InvWith.completeNext (h : InvWith armed s) {a : ℕ} (hp : s.pendingNext = some a)
    (r : NextResult (List UInt8)) :
    { s with pendingNext := none }.completeNext a r =
      { s with pendingNext := none, nexts := s.nexts ++ [(a, r)] } ∧
    InvWith armed { s with pendingNext := none, nexts := s.nexts ++ [(a, r)] } := by
  have haw : Awaiters s.nexts s.nextCalls (some a) := hp ▸ h.awaiters
  obtain ⟨heq, haw'⟩ := haw.complete r
  refine ⟨?_, h.stock, h.buffers, h.control, haw', fun hi => ⟨rfl, (h.fresh hi).2⟩⟩
  rw [RecvSource.completeNext, heq]

theorem handed_answer (pending : Option ℕ) {a : ℕ} {r : NextResult (List UInt8)}
    (hr : r.events = []) :
    handed { s with pendingNext := pending, nexts := s.nexts ++ [(a, r)] } = s.handed := by
  simp [handed, hr]

theorem terminalResult_events : s.terminalResult.events = [] := by
  unfold terminalResult
  split <;> rfl

/-! ## Resuming admission -/

/-- What a resumption of the source keeps. -/
structure Resumed (s s' : RecvSource) : Prop where
  inv : Inv s'
  backlog : s'.backlog = s.backlog
  handed : s'.handed = s.handed
  received : s'.received = s.received
  nextCalls : s'.nextCalls = s.nextCalls
  parked : ∀ a, s'.pendingNext = some a → s.pendingNext = some a ∧
    (s'.machine.state = .terminal → s.machine.state = .terminal)
  woken : s'.pendingNext = s.pendingNext ∧ s'.nexts = s.nexts ∨
    s.pendingNext.isSome ∧ s'.pendingNext = none ∧ s'.machine.state = .terminal
  leases : s'.machine.outstandingLeases = s.machine.outstandingLeases
  stall : NoStall s → NoStall s'
  progress : Progress s → Progress s'
  resumable : Resumable s → Resumable s'

theorem Resumed.refl (h : Inv s) : Resumed s s :=
  ⟨h, rfl, rfl, rfl, rfl, fun _ hp => ⟨hp, id⟩, .inl ⟨rfl, rfl⟩, rfl, id, id, id⟩

theorem InvWith.armedWith (h : Inv s) (hc : s.machine.canArm = true)
    (hsub : s.ctl.submitted = false) (answers : List (Option Error)) :
    Inv (s.armedWith answers) := by
  have hact := (RecvSourceStateMachine.canArm_iff.mp hc).1
  refine InvWith.withCtl h (h.consistent.arm hc) rfl rfl rfl (by simp [hact])
    ⟨?_, ⟨rfl, h.control.inStep.2⟩, fun _ => h.control.active hact, h.control.alive⟩
  have harmed := h.control.armed
  rw [hsub] at harmed
  exact congrArg (· + 1) harmed

theorem InvWith.withAnswers (h : InvWith armed s) (answers : List (Option Error)) :
    InvWith armed (s.withAnswers answers) :=
  { h with control := { h.control with } }

theorem InvWith.leases_of_not_canArm (h : Inv s) (hact : s.machine.state = .active)
    (hsub : s.ctl.submitted = false) (hc : s.machine.canArm = false) :
    s.machine.outstandingLeases ≠ 0 := by
  intro hl
  have hleased := h.stock.leased
  have harmed := h.control.armed
  rw [hsub] at harmed
  have := h.consistent.canArm_of_empty hact harmed (by omega) hl
  rw [hc] at this
  exact absurd this (by decide)

variable {deliver : RecvSource → RecvSource}

theorem InvWith.deliverEmpty_stopped (h : Inv s) (e : Option Error)
    (hempty : s.pendingNext.isSome → s.backlog = [])
    (hd : Delivers deliver) :
    Resumed s (deliver (s.requestBackendStop e)) ∧
      Progress (deliver (s.requestBackendStop e)) := by
  have hinv := inv_requestBackendStop h e
  have hmach := requestBackendStop_machine (s := s) e
  obtain ⟨hstall, hprog, hres⟩ := quiet_of_stopped (stopped_requestBackendStop (s := s) e)
  set t := s.requestBackendStop e with ht
  have hleases : t.machine.outstandingLeases = s.machine.outstandingLeases := by rw [hmach]; rfl
  have hstay : deliver t = t → (∀ a, t.pendingNext = some a → t.machine.state ≠ .terminal) →
      Resumed s (deliver t) ∧ Progress (deliver t) := by
    intro heq hnt
    rw [heq]
    exact ⟨⟨hinv, rfl, rfl, rfl, rfl, fun a hp => ⟨hp, fun hst => absurd hst (hnt a hp)⟩,
      .inl ⟨rfl, rfl⟩, hleases, fun _ => hstall, fun _ => hprog, fun _ => hres⟩, hprog⟩
  cases hp : s.pendingNext with
  | none =>
    have hpt : t.pendingNext = none := hp
    exact hstay (hd.none t hpt) fun a ha => by simp [hpt] at ha
  | some a =>
    have hdel := hd.empty t (hempty (by simp [hp]))
    have hpt : t.pendingNext = some a := hp
    rw [deliverEmpty, hpt] at hdel
    dsimp only at hdel
    by_cases hterm : t.machine.state = .terminal
    · rw [if_pos hterm] at hdel
      obtain ⟨heq, hinv'⟩ := InvWith.completeNext hinv hpt t.terminalResult
      rw [hdel, heq]
      exact ⟨⟨hinv', rfl, handed_answer _ terminalResult_events, rfl, rfl, by simp,
        .inr ⟨by simp [hp], rfl, hterm⟩, hleases, fun _ => hstall, fun _ => hprog, fun _ => hres⟩,
        hprog⟩
    · rw [if_neg hterm] at hdel
      exact hstay hdel fun _ _ => hterm

/-- **Resubmission.** With no payload in the way of a parked awaiter, `EnsureSubmission` leaves
the source with a request, with leases outside, or on its way to the terminal state. -/
theorem InvWith.ensureSubmissionWith (h : Inv s) (hempty : s.pendingNext.isSome → s.backlog = [])
    (hd : Delivers deliver) :
    Resumed s (s.ensureSubmissionWith deliver) ∧ Progress (s.ensureSubmissionWith deliver) := by
  unfold RecvSource.ensureSubmissionWith
  by_cases hg : s.machine.state ≠ .active ∨ s.ctl.submitted = true ∨ s.ctl.cancelSubmitted = true
  · rw [if_pos hg]
    refine ⟨.refl h, fun hact hsub => ?_⟩
    rcases hg with hg | hg | hg
    · exact absurd hact hg
    · simp [hsub] at hg
    · simp [(h.control.active hact).1] at hg
  · rw [if_neg hg]
    simp only [ne_eq, not_or, not_not] at hg
    obtain ⟨hact, hsub, -⟩ := hg
    have hsub' : s.ctl.submitted = false := by simpa using hsub
    rcases startOperation_cases hsub' with ⟨hc, heq⟩ | ⟨hc, answers, heq⟩ | ⟨-, e, answers, heq⟩
    · rw [heq]
      exact ⟨.refl h, fun _ _ => h.leases_of_not_canArm hact hsub' hc⟩
    · rw [heq]
      have hact' : (s.armedWith answers).machine.state = .active := hact
      refine ⟨⟨h.armedWith hc hsub' answers, rfl, rfl, rfl, rfl, fun a hp => ⟨hp, ?_⟩,
        .inl ⟨rfl, rfl⟩, rfl, ?_, ?_, ?_⟩, ?_⟩
      · exact fun hst => by rw [hact'] at hst; cases hst
      · rintro - (hst | hst) <;> rw [hact'] at hst <;> cases hst
      · exact fun _ _ hs => by simp [RecvSource.armedWith] at hs
      · exact fun _ hst => by rw [hact'] at hst; cases hst
      · exact fun _ hs => by simp [RecvSource.armedWith] at hs
    · rw [heq]
      have hinv : Inv (s.withAnswers answers) := InvWith.withAnswers h answers
      obtain ⟨hr, hp⟩ := hinv.deliverEmpty_stopped (some e) hempty hd
      exact ⟨{ hr with }, hp⟩

/-- **Resuming.** `MaybeResume` leaves a paused source only if it has a reason not to run. -/
theorem InvWith.maybeResumeWith (h : Inv s) (hempty : s.pendingNext.isSome → s.backlog = [])
    (hd : Delivers deliver) :
    Resumed s (s.maybeResumeWith deliver) ∧ Resumable (s.maybeResumeWith deliver) := by
  unfold RecvSource.maybeResumeWith
  by_cases hg : s.ctl.terminalError.isSome ∨ s.ctl.cancelSubmitted = true ∨ s.overflow ≠ []
  · rw [if_pos hg]
    refine ⟨.refl h, fun _ => ?_⟩
    rcases hg with hg | hg | hg
    · exact .inr (.inr (.inr hg))
    · exact .inl hg
    · exact .inr (.inr (.inl hg))
  rw [if_neg hg]
  simp only [ne_eq, not_or, not_not] at hg
  obtain ⟨herr, hcancel, hover⟩ := hg
  unfold RecvSourceStateMachine.tryResume
  by_cases hst : s.machine.state ≠ .paused ∨
      s.machine.options.resumeThresholdOrHalf < s.machine.queuedEvents
  · rw [if_pos hst]
    refine ⟨.refl h, fun hp => ?_⟩
    rcases hst with hst | hst
    · exact absurd hp hst
    · exact .inr (.inl hst)
  rw [if_neg hst]
  simp only [ne_eq, not_or, not_not] at hst
  -- the machine is active again
  have hactive : Inv (s.setMachine { s.machine with state := .active }) :=
    InvWith.withCtl h h.consistent.activate rfl rfl rfl (by simp)
      ⟨h.control.armed, h.control.inStep,
        fun _ => ⟨by simpa using hcancel, by simpa using herr, hover⟩, h.control.alive⟩
  obtain ⟨hr, hprog⟩ := hactive.ensureSubmissionWith hempty hd
  have hresum : Resumable ((s.setMachine { s.machine with state := .active }).ensureSubmissionWith
      deliver) := hr.resumable nofun
  refine ⟨{ hr with
    parked := fun a hp => ?_, stall := fun _ => ?_, progress := fun _ => hprog,
    resumable := fun _ => hresum }, hresum⟩
  · obtain ⟨hp', hterm⟩ := hr.parked a hp
    exact ⟨hp', fun ht => absurd (hterm ht) (by simp [setMachine])⟩
  · exact hr.stall fun hor => by rcases hor with ho | ho <;> cases ho

/-! ## Taking payloads -/

/-- A source with a parked awaiter has at most one payload waiting, and then leases outside: the
payload took the queue, or it took the overflow because no lease was left. -/
def Calm (s : RecvSource) : Prop :=
  s.pendingNext.isSome → s.backlog.length ≤ 1 ∧
    (s.backlog ≠ [] → s.machine.outstandingLeases ≠ 0)

/-- The first payload was taken from the queue. -/
structure Took (s s' : RecvSource) (bytes : List UInt8) : Prop where
  inv : Inv s'
  backlog : s.backlog = bytes :: s'.backlog
  nexts : s'.nexts = s.nexts
  received : s'.received = s.received
  nextCalls : s'.nextCalls = s.nextCalls
  pendingNext : s'.pendingNext = s.pendingNext
  stall : NoStall s → NoStall s'
  progress : Progress s → Progress s'

variable {s' : RecvSource}

theorem Took.handed {bytes : List UInt8} (h : Took s s' bytes) :
    s'.handed = s.handed := by
  rw [RecvSource.handed, h.nexts]
  rfl

theorem InvWith.leases_eq_zero (h : InvWith armed s) (ht : s.machine.state = .terminal) :
    s.machine.outstandingLeases = 0 :=
  (RecvSourceStateMachine.drained_iff.mp (h.consistent.lifecycle.ends (.inr ht))).2

theorem Took.resume {bytes : List UInt8} (h : Took s s' bytes) (hcalm : Calm s)
    (hl : s.backlog ≠ [] → s'.machine.outstandingLeases = s.machine.outstandingLeases)
    (hd : Delivers deliver) :
    Took s (s'.maybeResumeWith deliver) bytes ∧ Resumable (s'.maybeResumeWith deliver) := by
  have hne : s.backlog ≠ [] := by rw [h.backlog]; simp
  have hempty : s'.pendingNext.isSome → s'.backlog = [] := by
    intro hp
    have hlen := (hcalm (h.pendingNext ▸ hp)).1
    rw [h.backlog] at hlen
    exact List.length_eq_zero_iff.mp (by simpa using hlen)
  obtain ⟨hr, hres⟩ := h.inv.maybeResumeWith hempty hd
  have hwoken : (s'.maybeResumeWith deliver).pendingNext = s.pendingNext ∧
      (s'.maybeResumeWith deliver).nexts = s.nexts := by
    rcases hr.woken with ⟨hw, hn⟩ | ⟨hp, -, hterm⟩
    · exact ⟨hw.trans h.pendingNext, hn.trans h.nexts⟩
    · -- the leases outside keep the source from the terminal state
      have hzero := hr.inv.leases_eq_zero hterm
      rw [hr.leases, hl hne] at hzero
      exact absurd hzero ((hcalm (h.pendingNext ▸ hp)).2 hne)
  exact ⟨⟨hr.inv, by rw [hr.backlog, h.backlog], hwoken.2,
    by rw [hr.received, h.received], by rw [hr.nextCalls, h.nextCalls], hwoken.1,
    fun hs => hr.stall (h.stall hs), fun hp => hr.progress (h.progress hp)⟩, hres⟩

def taken (s : RecvSource) (e : PendingEvent) (events : RingBuffer PendingEvent)
    (m : RecvSourceStateMachine) : RecvSource :=
  { s with
    events
    ctl := { s.ctl with state := m }
    leases := s.leases ++ [{ copySlot := e.copySlot, size := e.size,
                             bytes := s.payload e.copySlot e.size }] }

theorem InvWith.takeEvent (h : Inv s) {e : PendingEvent} {events : RingBuffer PendingEvent}
    (hp : s.events.pop? = some (e, events)) :
    ∃ m, s.machine.acquireEvent = some m ∧
      m.outstandingLeases = s.machine.outstandingLeases ∧
      (({ s with events } : RecvSource).setMachine m).makeQueuedLease e.copySlot e.size =
        s.taken e events m ∧
      Took s (s.taken e events m) (s.payload e.copySlot e.size) := by
  obtain ⟨hlist, -⟩ := RingBuffer.toList_pop hp
  have hq : s.machine.queuedEvents ≠ 0 := by
    rw [← h.stock.queued, ← RingBuffer.length_toList, hlist]
    simp
  have hdrop := RecvSourceStateMachine.dropQueuedEvent_eq hq
  refine ⟨_, hdrop, rfl, ?_, ?_⟩
  · have hmem : e ∈ s.events.toList := hlist ▸ List.mem_cons_self
    have hend := h.stock.slots.end_le (h.stock.slots.lt (.inr (Stock.mem_used_event hmem)))
    rw [Nat.succ_mul] at hend
    have hsize := h.stock.eventSize e hmem
    rw [makeQueuedLease, if_pos]
    · rfl
    · simp only [setMachine]
      omega
  · have hstate := h.consistent.reconcile_state (s.machine.queuedEvents - 1)
      s.machine.outstandingLeases
    refine ⟨⟨h.stock.pop (h.consistent.dropQueuedEvent hdrop) rfl rfl rfl hp, h.buffers,
      ⟨h.control.armed, h.control.inStep, fun ha => ?_, h.control.alive⟩, h.awaiters,
      fun hi => ?_⟩, ?_, rfl, rfl, rfl, rfl, fun hs hor => ?_, fun hp hact => ?_⟩
    · rcases hstate with hst | ⟨-, hst⟩
      · exact h.control.active (hst ▸ ha)
      · exact absurd (hst.symm.trans ha) (by decide)
    · rcases hstate with hst | ⟨-, hst⟩
      · exact h.fresh (hst ▸ hi)
      · exact absurd (hst.symm.trans hi) (by decide)
    · simp only [backlog, hlist, List.map_cons, List.cons_append]
      rfl
    · rcases hstate with hst | ⟨-, hst⟩
      · exact hs (hst ▸ hor)
      · rcases hor with ho | ho <;> exact absurd (hst.symm.trans ho) (by decide)
    · rcases hstate with hst | ⟨-, hst⟩
      · exact hp (hst ▸ hact)
      · exact absurd (hst.symm.trans hact) (by decide)

/-- **Taking a payload.** When a payload waits, `TryTakeNext` returns the first one. -/
theorem InvWith.tryTakeNextWith_cons (h : Inv s) (hcalm : Calm s) (hne : s.backlog ≠ [])
    (hd : Delivers deliver) :
    ∃ bytes s', s.tryTakeNextWith deliver = (some (.event bytes), s') ∧ Took s s' bytes ∧
      Resumable s' := by
  cases hpop : s.events.pop? with
  | some p =>
    obtain ⟨e, events⟩ := p
    obtain ⟨m, hacq, hl, hlease, htook⟩ := h.takeEvent hpop
    refine ⟨s.payload e.copySlot e.size, if (s.taken e events m).machine.state = .paused then
      (s.taken e events m).maybeResumeWith deliver else s.taken e events m, ?_, ?_⟩
    · simp only [RecvSource.tryTakeNextWith, hpop, hacq, hlease]
      rfl
    · split_ifs with hpaused
      · exact htook.resume hcalm (fun _ => hl) hd
      · exact ⟨htook, fun hp => absurd hp hpaused⟩
  | none =>
    have hev := RingBuffer.pop?_eq_none.mp hpop
    cases hover : s.overflow with
    | nil => exact absurd (backlog_eq_nil.mpr ⟨hev, hover⟩) hne
    | cons payload overflow =>
      have hinact : s.machine.state ≠ .active := fun ha => by
        have := (h.control.active ha).2.2
        simp [hover] at this
      have htook : Took s { s with overflow } payload := by
        refine ⟨{ h with
          control := ⟨h.control.armed, h.control.inStep, fun ha => absurd ha hinact,
            h.control.alive⟩
          fresh := fun hi => absurd (h.fresh hi).2.2.2 (by simp [hover]) }, ?_, rfl, rfl, rfl, rfl,
          id, id⟩
        simp [backlog, hev, hover]
      refine ⟨payload, if overflow = [] ∧ s.machine.state = .paused then
        RecvSource.maybeResumeWith { s with overflow } deliver else { s with overflow }, ?_, ?_⟩
      · simp only [RecvSource.tryTakeNextWith, hpop, hover]
      · split_ifs with hpaused
        · exact htook.resume hcalm (fun _ => rfl) hd
        · refine ⟨htook, fun hp => .inr (.inr (.inl fun ho => hpaused ⟨ho, hp⟩))⟩

/-- What a delivery leaves behind. -/
structure Delivered (s s' : RecvSource) : Prop where
  inv : Inv s'
  flow : s'.flow = s.flow
  received : s'.received = s.received
  nextCalls : s'.nextCalls = s.nextCalls
  parked : s'.pendingNext.isSome →
    s'.backlog = [] ∧ s'.machine.state ≠ .terminal ∧ s'.pendingNext = s.pendingNext
  stall : NoStall s → NoStall s'
  progress : Progress s → Progress s'

theorem InvWith.deliverNextIfReady (h : Inv s) (hcalm : Calm s) :
    Delivered s (deliverNextIfReady s) := by
  have hd := delivers_deliverNextIfReady
  cases hp : s.pendingNext with
  | none =>
    rw [hd.none s hp]
    exact ⟨h, rfl, rfl, rfl, by simp [hp], id, id⟩
  | some a =>
    by_cases hb : s.backlog = []
    · rw [hd.empty s hb, deliverEmpty, hp]
      dsimp only
      split_ifs with ht
      · obtain ⟨heq, hinv⟩ := InvWith.completeNext h hp s.terminalResult
        rw [heq]
        refine ⟨hinv, ?_, rfl, rfl, by simp, id, id⟩
        rw [flow, handed_answer _ terminalResult_events]
        rfl
      · exact ⟨h, rfl, rfl, rfl, fun _ => ⟨hb, ht, rfl⟩, id, id⟩
    · obtain ⟨bytes, s₁, heq, htook, -⟩ := h.tryTakeNextWith_cons hcalm hb
        (delivers_deliverNext 0)
      have hp₁ : s₁.pendingNext = some a := by rw [htook.pendingNext, hp]
      have hdel : deliverNext 2 s = { s₁ with pendingNext := none }.completeNext a
          (.event bytes) := by
        rw [deliverNext, deliverNextWith, if_neg (by simp [hp]), heq]
        simp only [hp₁]
      obtain ⟨heq', hinv⟩ := InvWith.completeNext htook.inv hp₁ (.event bytes)
      rw [RecvSource.deliverNextIfReady, hdel, heq']
      refine { htook with inv := hinv, flow := ?_, parked := by simp }
      have hhanded : handed { s₁ with
          pendingNext := none, nexts := s₁.nexts ++ [(a, .event bytes)] } =
          s₁.handed ++ [bytes] := by
        simp [handed, NextResult.events]
      rw [flow, flow, hhanded, htook.handed, htook.backlog, List.append_assoc]
      rfl

theorem InvWith.completeStopIfReady (h : Inv s) : Resumed s s.completeStopIfReady := by
  unfold RecvSource.completeStopIfReady completeStop
  cases s.pendingStop with
  | none => exact .refl h
  | some a =>
    have hsame : ∀ stops, Resumed s { s with pendingStop := none, stops } := fun stops =>
      ⟨{ h with }, rfl, rfl, rfl, rfl, fun _ hp => ⟨hp, id⟩,
        .inl ⟨rfl, rfl⟩, rfl, id, id, id⟩
    split_ifs
    · exact .refl h
    · exact hsame _

/-! ## Between the entries -/

/-- What an entry leaves behind: the payloads `f` handed out or waiting, and no payload in front
of a parked awaiter. -/
structure Kept (s₀ s : RecvSource) (f : List (List UInt8)) : Prop where
  inv : Inv s
  empty : s.pendingNext.isSome → s.backlog = []
  received : s.received = s₀.received
  flow : s.flow = f

/-- Nothing keeps a parked `Next()` asleep. -/
structure Wakeable (s : RecvSource) : Prop where
  live : s.pendingNext.isSome → s.machine.state ≠ .terminal
  stall : NoStall s
  progress : Progress s
  resumable : Resumable s

theorem Resumed.isSome (h : Resumed s s') (hp : s'.pendingNext.isSome) :
    s.pendingNext.isSome ∧ (s'.machine.state = .terminal → s.machine.state = .terminal) := by
  obtain ⟨a, ha⟩ := Option.isSome_iff_exists.mp hp
  obtain ⟨hs, ht⟩ := h.parked a ha
  exact ⟨by rw [hs]; rfl, ht⟩

theorem Resumed.flow (h : Resumed s s') : s'.flow = s.flow := by
  rw [RecvSource.flow, h.handed, h.backlog]
  rfl

theorem Resumed.kept {s₀ s' : RecvSource} {f : List (List UInt8)} (h : Resumed s s')
    (hk : Kept s₀ s f) : Kept s₀ s' f :=
  ⟨h.inv, fun hp => h.backlog.trans (hk.empty (h.isSome hp).1), h.received.trans hk.received,
    h.flow.trans hk.flow⟩

theorem Resumed.wakeable (h : Resumed s s') (hw : Wakeable s) : Wakeable s' :=
  ⟨fun hp ht => hw.live (h.isSome hp).1 ((h.isSome hp).2 ht), h.stall hw.stall,
    h.progress hw.progress, h.resumable hw.resumable⟩

end RecvSource

end Alyrn.Uring
