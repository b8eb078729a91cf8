import Alyrn.Uring.AcceptSource.Delivery

/-!
# Completions of AcceptSource

What an accept completion does, stage by stage: the result is handled and recorded (`Recorded`),
the source pauses or resubmits (`Ensured`), and then it delivers and resumes. Between two entries
the source satisfies `Between`; `Wakeable` says in addition that a parked awaiter will be woken.
-/

namespace Alyrn.Uring

open Net Transition

namespace AcceptSource

variable {s s' : AcceptSource} {armed : ℕ} {more : Bool}

/-! ## Between two entries -/

/-- The invariant between two entries. -/
structure Between (s : AcceptSource) : Prop where
  inv : Inv s
  empty : s.pendingNext.isSome → s.backlog = []
  progress : Progress s
  resumable : Resumable s

/-- Nothing keeps a parked `Next()` asleep. -/
structure Wakeable (s : AcceptSource) : Prop where
  live : s.pendingNext.isSome → s.machine.state ≠ .terminal
  stall : NoStall s

theorem Resumed.isSome (h : Resumed s s') (hp : s'.pendingNext.isSome) : s.pendingNext.isSome := by
  rw [← (h.parked hp).1]
  exact hp

theorem Resumed.flow (h : Resumed s s') : s'.flow = s.flow := by
  rw [AcceptSource.flow, h.handed, h.backlog]
  rfl

theorem Resumed.between (h : Resumed s s') (hb : Between s) : Between s' :=
  ⟨h.inv, fun hp => h.backlog.trans (hb.empty (h.isSome hp)), h.progress hb.progress,
    h.resumable hb.resumable⟩

theorem Resumed.wakeable (h : Resumed s s') (hw : Wakeable s) : Wakeable s' :=
  ⟨fun hp ht => hw.live (h.isSome hp) ((h.parked hp).2 ht), h.stall hw.stall⟩

theorem Between.calm (h : Between s) : Calm s := fun hp => by simp [h.empty hp]

theorem Delivered.between (h : Delivered s s') (hp : Progress s) (hr : Resumable s) :
    Between s' :=
  ⟨h.inv, fun hs => (h.parked hs).1, h.progress hp, h.resumable hr⟩

theorem Delivered.wakeable (h : Delivered s s') (hs : NoStall s) : Wakeable s' :=
  ⟨fun hp => (h.parked hp).2.1, h.stall hs⟩

theorem InvWith.withListener (h : InvWith armed s) {l : Listener} (hok : l.Ok)
    (hc : l.closed = s.listener.closed) (ha : s.ctl.submitted.toNat ≤ l.pendingAccepts)
    (hs : s.listener.acceptSource = some .this → l.acceptSource = some .this) :
    InvWith armed { s with listener := l } :=
  { h with
    held := fun hi ht => hs (h.held hi ht), unclosed := fun hor => hc.trans (h.unclosed hor),
    reserved := ha, listenerOk := hok }

theorem Resumed.aside (h : Inv s) {l : Listener} {pendingStop : Option ℕ} {stopCalls : ℕ}
    {stops : List (ℕ × Except Error Unit)} (hinv : Inv { s with listener := l }) :
    Resumed s { s with listener := l, pendingStop, stopCalls, stops } :=
  ⟨⟨h.consistent, h.armed, h.queued, h.inStep, h.active, h.fresh, hinv.held, hinv.unclosed,
    hinv.reserved, hinv.listenerOk, h.awaiters⟩, rfl, rfl, rfl, rfl, fun _ => ⟨rfl, id⟩,
    fun hp => ⟨hp, rfl⟩, id, id, id, id, id⟩

theorem InvWith.notifyCloseProgress (h : Inv s) :
    Resumed s { s with listener := s.listener.notifyCloseProgress } := by
  obtain ⟨hc, ha, hs⟩ := Listener.notifyCloseProgress_frame (l := s.listener)
  exact .aside h (h.withListener h.listenerOk.notifyCloseProgress hc (by rw [ha]; exact h.reserved)
    fun h' => hs.trans h')

theorem InvWith.completeStopIfReady (h : Inv s) : Resumed s s.completeStopIfReady := by
  unfold AcceptSource.completeStopIfReady completeStop
  cases s.pendingStop with
  | none => exact .refl h
  | some a =>
    split_ifs
    · exact .refl h
    · exact .aside h h

/-! ## The result of a completion -/

/-- The first stage of an accept completion: the connection `new`, if any, waits behind the others,
and the machine has recorded the completion. -/
structure Recorded (s s' : AcceptSource) (new : List ℕ) : Prop where
  inv : Inv s'
  started : s'.machine.state ≠ .idle
  backlog : s'.backlog = s.backlog ++ new
  nexts : s'.nexts = s.nexts
  nextCalls : s'.nextCalls = s.nextCalls
  pendingNext : s'.pendingNext = s.pendingNext
  accepted : s'.accepted = s.accepted
  submitted : s'.ctl.submitted = s.ctl.submitted
  sound : Sound s → Sound s'
  stall : NoStall s → NoStall s'

theorem InvWith.running (h : InvWith 1 s) : s.machine.state = .active ∨
    s.machine.state = .pausing ∨ s.machine.state = .stopping := by
  have hq := h.consistent.lifecycle.quiet
  rw [h.armed] at hq
  cases hs : s.machine.state <;> simp_all

def requestOf (more : Bool) : MultishotRequestDisposition := if more then .more else .terminal

def recordedMachine (s : AcceptSource) (event : EventDisposition) (more : Bool) :
    AcceptSourceStateMachine :=
  (s.machine.counted event (requestOf more)).reconcileStopping

theorem recordedMachine_origin (s : AcceptSource) (event : EventDisposition) (more : Bool) :
    ((s.recordedMachine event more).state = .active → s.machine.state = .active) ∧
      ((s.recordedMachine event more).state = .pausing ∨
        (s.recordedMachine event more).state = .paused →
          s.machine.state = .pausing ∨ s.machine.state = .paused) ∧
      ((s.recordedMachine event more).state = .idle → s.machine.state = .idle) :=
  SourceState.reconcileStopping_origin

theorem InvWith.record (h : InvWith 1 s) {event : EventDisposition}
    (hadm : s.machine.admits event) (events : List ℕ)
    (hlen : s.machine.queuedEvents + queuedBy event = events.length) :
    Inv ({ s with events }.setMachine (s.recordedMachine event s.ctl.submitted)) ∧
      (s.recordedMachine event s.ctl.submitted).state ≠ .idle ∧
      (NoStall s → NoStall ({ s with events }.setMachine
        (s.recordedMachine event s.ctl.submitted))) := by
  obtain ⟨hact, hpause, hidle⟩ := recordedMachine_origin s event s.ctl.submitted
  have hne : (s.recordedMachine event s.ctl.submitted).state ≠ .idle :=
    fun hi => h.ne_idle (hidle hi)
  have hheld : s.listener.acceptSource = some .this := by
    refine h.held h.ne_idle fun ht => ?_
    rcases h.running with hr | hr | hr <;> rw [hr] at ht <;> cases ht
  refine ⟨⟨h.consistent.completed _ hadm, ?_, hlen, h.inStep, fun ha => h.active (hact ha),
    fun hi => absurd hi hne, fun _ _ => hheld, fun hor => ?_, h.reserved, h.listenerOk,
    h.awaiters⟩, hne, fun hs hor => hs (hpause hor)⟩
  · show s.machine.armedRequests - _ = _
    rw [h.armed]
    show 1 - endedBy (requestOf s.ctl.submitted) = s.ctl.submitted.toNat
    cases s.ctl.submitted <;> rfl
  · rcases hor with hor | hor
    · exact h.unclosed (.inl (hact hor))
    · exact h.unclosed (.inr (hpause hor))

theorem InvWith.record_none (h : InvWith 1 s) :
    Recorded s (s.recordEvent false s.ctl.submitted) [] := by
  have hadm : s.machine.admits .none := ⟨by rw [h.armed]; decide, by simp, by simp⟩
  obtain ⟨hinv, hne, hst⟩ := h.record hadm s.events h.queued
  have heq : s.recordEvent false s.ctl.submitted =
      s.setMachine (s.recordedMachine .none s.ctl.submitted) := by
    unfold recordEvent
    rw [show (if false = true then EventDisposition.produced else .none) = .none from rfl,
      AcceptSourceStateMachine.completeMultishotEvent_of_admits _ hadm]
    rfl
  rw [heq]
  exact ⟨hinv, hne, by simp [backlog, setMachine], rfl, rfl, rfl, rfl, rfl, id, hst⟩

def queuedWith (s : AcceptSource) (stream : ℕ) : AcceptSource :=
  ({ s with events := s.events ++ [stream] } : AcceptSource).setMachine
    (s.recordedMachine .produced s.ctl.submitted)

theorem InvWith.record_produced (h : InvWith 1 s) (stream : ℕ) (hover : s.overflow = [])
    (hroom : s.machine.queuedEvents < s.machine.options.eventCapacity) :
    ({ s with events := s.events ++ [stream] } : AcceptSource).recordEvent true s.ctl.submitted =
        s.queuedWith stream ∧ Recorded s (s.queuedWith stream) [stream] := by
  have hadm : s.machine.admits .produced := ⟨by rw [h.armed]; decide, by simp, fun _ => hroom⟩
  obtain ⟨hinv, hne, hst⟩ := h.record hadm (s.events ++ [stream])
    (by rw [h.queued, List.length_append]; rfl)
  refine ⟨?_, hinv, hne, ?_, rfl, rfl, rfl, rfl, rfl, id, hst⟩
  · unfold recordEvent
    rw [show (if true = true then EventDisposition.produced else .none) = .produced from rfl,
      AcceptSourceStateMachine.completeMultishotEvent_of_admits _ hadm]
    rfl
  · simp [backlog, queuedWith, setMachine, hover]

theorem Recorded.of_stop {new : List ℕ} {e : Option Error}
    (h : Recorded (s.requestBackendStop e) s' new) : Recorded s s' new :=
  { h with
    submitted := h.submitted.trans SourceControl.requestBackendStop_submitted
    sound := fun hs => h.sound ⟨SourceControl.requestBackendStop_aborted.trans hs.1, hs.2⟩
    stall := fun _ => h.stall (quiet_of_stopped (stopped_requestBackendStop e)).1 }

theorem InvWith.record_overflow (h : InvWith 1 s) (stream : ℕ) :
    Recorded s (({ s with overflow := s.overflow ++ [stream] } : AcceptSource).requestBackendPause
      |>.recordEvent false s.ctl.submitted) [stream] := by
  obtain ⟨hp, hne, hsub, halive, hst⟩ := h.requestBackendPause h.ne_idle
  have hinv : InvWith 1 ({ s with
      overflow := s.overflow ++ [stream] } : AcceptSource).requestBackendPause :=
    { hp with active := fun ha => absurd ha hne, fresh := fun hi => absurd hi hp.ne_idle }
  have hr := hinv.record_none
  rw [show (AcceptSource.requestBackendPause
    { s with overflow := s.overflow ++ [stream] }).ctl.submitted = s.ctl.submitted from hsub] at hr
  refine { hr with
    backlog := ?_, submitted := hr.submitted.trans hsub,
    sound := fun hs => hr.sound ⟨halive.trans hs.1, hs.2⟩, stall := fun hs => hr.stall (hst hs) }
  rw [hr.backlog, List.append_nil]
  exact (List.append_assoc _ _ _).symm

def arriving (event : CompletionEvent) (wrapped : Wrapped) : List ℕ :=
  if 0 ≤ event.result ∧ wrapped = .stream then [event.result.toNat] else []

theorem InvWith.onFailure (h : InvWith 1 s) (result : ℤ) :
    Recorded s ((s.onFailure result).recordEvent false s.ctl.submitted) [] := by
  unfold AcceptSource.onFailure
  dsimp only
  split_ifs
  · have hinv : InvWith 1 { s with multishotEnabled := false } :=
      { h with }
    have hr := hinv.record_none
    exact { hr with }
  · have hr := (h.requestBackendStop (some (negErrno result))).record_none
    rw [show (s.requestBackendStop (some (negErrno result))).ctl.submitted = s.ctl.submitted from
      SourceControl.requestBackendStop_submitted] at hr
    exact hr.of_stop
  · exact h.record_none

def recorded (s : AcceptSource) (event : CompletionEvent) (wrapped : Wrapped) : AcceptSource :=
  (s.handleResult event wrapped).2.recordEvent (s.handleResult event wrapped).1 event.more

/-- **The result.** Whatever a completion brings, the machine records it. -/
theorem InvWith.recorded (h : InvWith 1 s) (event : CompletionEvent) (wrapped : Wrapped)
    (hmore : s.ctl.submitted = event.more) :
    Recorded s (s.recorded event wrapped) (arriving event wrapped) := by
  unfold AcceptSource.recorded AcceptSource.handleResult
  rw [← hmore]
  by_cases hres : 0 ≤ event.result
  · rw [if_pos hres]
    cases wrapped with
    | failed =>
      rw [show arriving event .failed = [] by simp [arriving]]
      exact h.record_none
    | noMemory =>
      rw [show arriving event .noMemory = [] by simp [arriving]]
      have hr := (h.requestBackendStop (some ENOMEM)).record_none
      rw [show (s.requestBackendStop (some ENOMEM)).ctl.submitted = s.ctl.submitted from
        SourceControl.requestBackendStop_submitted] at hr
      exact hr.of_stop
    | stream =>
      rw [show arriving event .stream = [event.result.toNat] by simp [arriving, hres]]
      unfold onAccepted
      by_cases hfull : s.overflow ≠ [] ∨
          s.machine.options.eventCapacity ≤ s.machine.queuedEvents
      · rw [if_pos hfull]
        exact h.record_overflow event.result.toNat
      · rw [if_neg hfull]
        simp only [ne_eq, not_or, not_not] at hfull
        obtain ⟨heq, hr⟩ := h.record_produced event.result.toNat hfull.1 (Nat.not_le.mp hfull.2)
        rw [heq]
        exact hr
  · rw [if_neg hres, show arriving event wrapped = [] by simp [arriving, hres]]
    split_ifs
    · exact h.onFailure event.result
    · exact h.record_none

theorem Recorded.calm {event : CompletionEvent} {wrapped : Wrapped}
    (h : Recorded s s' (arriving event wrapped)) (hempty : s.pendingNext.isSome → s.backlog = []) :
    Calm s' := fun hp => by
  rw [h.backlog, hempty (by rw [← h.pendingNext]; exact hp), arriving]
  split_ifs <;> simp

/-! ## Pausing and resubmitting -/

structure Ensured (s s' : AcceptSource) : Prop where
  inv : Inv s'
  calm : Calm s'
  progress : Progress s'
  flow : s'.flow = s.flow
  accepted : s'.accepted = s.accepted
  sound : Sound s → Sound s'
  stall : NoStall s → NoStall s'

theorem InvWith.ensureSubmission (h : Inv s) (hcalm : Calm s)
    (hroom : s.machine.state = .active → s.machine.queuedEvents < s.machine.options.eventCapacity) :
    Ensured s s.ensureSubmission ∧
      (s.ensureSubmission.machine.state = .paused → s.machine.state = .paused) := by
  by_cases hprog : Progress s
  · rw [AcceptSource.ensureSubmission, ensureSubmissionWith_eq hprog]
    exact ⟨⟨h, hcalm, hprog, rfl, rfl, id, id⟩, id⟩
  have hact : s.machine.state = .active := by
    by_contra hne
    exact hprog fun ha => absurd ha hne
  have hsub : s.ctl.submitted = false := by
    by_contra hs
    exact hprog fun _ => by simpa using hs
  have harmed : s.machine.armedRequests = 0 := by rw [h.armed, hsub]; rfl
  have harm := h.consistent.canArm_of_room hact harmed (hroom hact)
  have hopen := h.unclosed (.inl hact)
  unfold AcceptSource.ensureSubmission AcceptSource.ensureSubmissionWith
  rw [if_neg (by simp [hopen, hact, hsub, (h.active hact).1])]
  rcases startOperation_cases (h.listenerClosed_eq hopen) hsub harm with
    ⟨-, answers, heq⟩ | ⟨-, e, answers, heq⟩
  · rw [heq]
    have hact' : (s.armedWith answers).machine.state = .active := hact
    refine ⟨⟨h.armedWith harm hsub answers, hcalm, fun _ => rfl, rfl, rfl, id, ?_⟩, ?_⟩
    · rintro - (hst | hst) <;> rw [hact'] at hst <;> cases hst
    · exact fun hst => by rw [hact'] at hst; cases hst
  · rw [heq]
    dsimp only
    have hi : Inv (s.withAnswers answers) := InvWith.withAnswers h answers
    have hstop := stopped_requestBackendStop (s := s.withAnswers answers) (some e)
    obtain ⟨hst1, -, hst3, -⟩ := hstop.ne
    set t := (s.withAnswers answers).requestBackendStop (some e) with ht
    have hd : Delivered t (AcceptSource.deliverNextIfReady t) :=
      (inv_requestBackendStop hi (some e)).deliverNextIfReady hcalm fun ha => absurd ha hst1
    obtain ⟨hflow, hsound⟩ := hd.flow fun _ _ hs => hst3 hs.1
    refine ⟨⟨hd.inv, fun hp => by simp [(hd.parked hp).1], hd.progress fun ha => absurd ha hst1,
      hflow, hd.accepted, fun hs => hsound ⟨?_, hs.2⟩,
      fun _ => hd.stall (quiet_of_stopped hstop).1⟩, fun hp => absurd (hd.paused hp) hst3⟩
    exact SourceControl.requestBackendStop_aborted.trans hs.1

theorem requestBackendPause_eq (h : s.ctl.submitted = false) :
    s.requestBackendPause = s.setMachine s.pausedMachine := by
  unfold requestBackendPause SourceControl.requestBackendPause
  rw [if_neg (by simp [h])]
  rfl

def rearmed (s : AcceptSource) (more : Bool) : AcceptSource :=
  let s := if s.machine.state = .active ∧
      s.machine.options.eventCapacity ≤ s.machine.queuedEvents then s.requestBackendPause else s
  if more = false ∧ s.machine.state = .active ∧ s.ctl.terminalError.isNone then
    s.ensureSubmission else s

theorem afterResult_eq (more : Bool) : s.afterResult more =
    (let t := maybeResume (deliverNextIfReady (s.rearmed more))
    if more then t
    else { t with listener := t.listener.notifyCloseProgress }).completeStopIfReady :=
  rfl

/-- **Rearming.** A source that is paused afterwards was paused by the record, or by its full
queue. -/
theorem InvWith.rearmed (h : Inv s) (hst : s.machine.state ≠ .idle) (hcalm : Calm s)
    (hmore : s.ctl.submitted = more) :
    Ensured s (s.rearmed more) ∧ ((s.rearmed more).machine.state = .paused → more = false ∧
      (s.machine.state = .paused ∧ s.rearmed more = s ∨
        (s.machine.state = .active ∧ s.machine.options.eventCapacity ≤ s.machine.queuedEvents) ∧
          s.rearmed more = s.setMachine s.pausedMachine)) := by
  unfold AcceptSource.rearmed
  by_cases hfull : s.machine.state = .active ∧
      s.machine.options.eventCapacity ≤ s.machine.queuedEvents
  · -- the queue is full: the source pauses
    rw [if_pos hfull]
    obtain ⟨hp, hne, hsub, halive, hstall⟩ := InvWith.requestBackendPause h hst
    have hinv : Inv s.requestBackendPause := by rw [Inv, hsub]; exact hp
    rw [if_neg fun hc => hne hc.2.1]
    refine ⟨⟨hinv, hcalm, fun ha => absurd ha hne, rfl, rfl, fun hs => ⟨halive.trans hs.1, hs.2⟩,
      hstall⟩, fun hpaused => ?_⟩
    have harmed := hp.consistent.lifecycle.quiet (.inr (.inl hpaused))
    rw [hp.armed] at harmed
    have hsub' : s.ctl.submitted = false := by
      cases hs : s.ctl.submitted with
      | false => rfl
      | true => rw [hs] at harmed; cases harmed
    exact ⟨hmore ▸ hsub', .inr ⟨hfull, requestBackendPause_eq hsub'⟩⟩
  rw [if_neg hfull]
  have hroom : s.machine.state = .active →
      s.machine.queuedEvents < s.machine.options.eventCapacity := fun ha =>
    Nat.not_le.mp fun hle => hfull ⟨ha, hle⟩
  by_cases hend : more = false ∧ s.machine.state = .active ∧ s.ctl.terminalError.isNone
  · rw [if_pos hend]
    obtain ⟨hr, hpaused⟩ := h.ensureSubmission hcalm hroom
    refine ⟨hr, fun hp => ?_⟩
    have := hpaused hp
    rw [hend.2.1] at this
    cases this
  · rw [if_neg hend]
    refine ⟨⟨h, hcalm, fun ha => ?_, rfl, rfl, id, id⟩, fun hp => ⟨?_, .inl ⟨hp, rfl⟩⟩⟩
    · cases hm : more with
      | true => exact hmore.trans hm
      | false => exact absurd ⟨hm, ha, by simp [(h.active ha).2.1]⟩ hend
    · have harmed := h.consistent.lifecycle.quiet (.inr (.inl hp))
      rw [h.armed, hmore] at harmed
      cases more with
      | false => rfl
      | true => cases harmed

theorem InvWith.steals_rearmed (h : Inv s) (hst : s.machine.state ≠ .idle) (hcalm : Calm s)
    (hmore : s.ctl.submitted = more) (hs : Steals (s.rearmed more)) :
    more = false ∧ (s.rearmed more).pendingNext = s.pendingNext ∧
      (s.rearmed more).backlog = s.backlog ∧ s.ctl.cancelSubmitted = false ∧
      s.ctl.terminalError = none ∧ s.submitFails = true ∧
      (s.machine.state = .paused ∨ s.machine.state = .active ∧
        s.machine.options.eventCapacity ≤ s.machine.queuedEvents) := by
  obtain ⟨hpaused, hcancel, herr, hfails⟩ := hs
  obtain ⟨hm, ⟨hp, heq⟩ | ⟨hfull, heq⟩⟩ := (h.rearmed hst hcalm hmore).2 hpaused
  · rw [heq] at hcancel herr hfails ⊢
    exact ⟨hm, rfl, rfl, hcancel, herr, hfails, .inl hp⟩
  · rw [heq] at hcancel herr hfails ⊢
    exact ⟨hm, rfl, rfl, hcancel, herr, hfails, .inr hfull⟩

/-- **The last stage.** Delivery and resumption leave the source between two entries. -/
theorem InvWith.afterResult (h : Inv s) (hst : s.machine.state ≠ .idle) (hcalm : Calm s)
    (hmore : s.ctl.submitted = more) :
    Between (s.afterResult more) ∧ (NoStall s → Wakeable (s.afterResult more)) ∧
      (s.afterResult more).accepted = s.accepted ∧
      (((s.rearmed more).pendingNext.isSome → (s.rearmed more).backlog ≠ [] →
        ¬ Steals (s.rearmed more)) →
          (s.afterResult more).flow = s.flow ∧ (Sound s → Sound (s.afterResult more))) := by
  obtain ⟨he, -⟩ := h.rearmed hst hcalm hmore
  have hd := he.inv.deliverNextIfReady he.calm he.progress
  obtain ⟨hr, hres, -⟩ := hd.inv.maybeResumeWith (fun hp => (hd.parked hp).1)
    delivers_deliverNextIfReady
  rw [afterResult_eq]
  set u := AcceptSource.deliverNextIfReady (s.rearmed more) with hu
  set t := u.maybeResume with ht
  replace hr : Resumed u t := hr
  have hbetween : Between t :=
    ⟨hr.inv, fun hp => hr.backlog.trans (hd.parked (hr.isSome hp)).1,
      hr.progress (hd.progress he.progress), hres⟩
  have hlast : Resumed t (if more then t else
      { t with listener := t.listener.notifyCloseProgress }) := by
    split_ifs
    · exact .refl hbetween.inv
    · exact hbetween.inv.notifyCloseProgress
  have hstop := hlast.inv.completeStopIfReady
  refine ⟨hstop.between (hlast.between hbetween), fun hs => ?_, ?_, fun hns => ?_⟩
  · exact hstop.wakeable (hlast.wakeable (hr.wakeable (hd.wakeable (he.stall hs))))
  · rw [hstop.accepted, hlast.accepted, hr.accepted, hd.accepted, he.accepted]
  · obtain ⟨hflow, hsound⟩ := hd.flow hns
    refine ⟨?_, fun hs => hstop.sound (hlast.sound (hr.sound (hsound (he.sound hs))))⟩
    rw [hstop.flow, hlast.flow, hr.flow, hflow, he.flow]

/-! ## The entry -/

def arrived (s : AcceptSource) (event : CompletionEvent) (wrapped : Wrapped)
    (answers : List (Option Error)) : AcceptSource :=
  ((s.kernelAccept event wrapped).withAnswers answers).endRequest event.more

/-- An accept completion does not end the request of a source that, with the last free place of its
queue or on its way to a pause, hands its connection to a parked `Next()`, while the next
submission fails. -/
def Rearms (s : AcceptSource) (event : CompletionEvent) (wrapped : Wrapped)
    (answers : List (Option Error)) : Prop :=
  ¬ (s.pendingNext.isSome = true ∧ 0 ≤ event.result ∧ wrapped = .stream ∧ event.more = false ∧
    (s.machine.state = .pausing ∨
      s.machine.state = .active ∧ s.machine.options.eventCapacity = 1) ∧
    s.ctl.cancelSubmitted = false ∧ s.ctl.terminalError = none ∧
    (s.loopStopping = true ∨ answers.head?.join.isSome = true))

theorem Between.arrived (h : Between s) (hin : s.ctl.inFlight = true) (event : CompletionEvent)
    (wrapped : Wrapped) (answers : List (Option Error)) :
    InvWith 1 (s.arrived event wrapped answers) ∧
      (s.arrived event wrapped answers).ctl.submitted = event.more ∧
      (Sound s → Sound (s.arrived event wrapped answers)) := by
  have hsub : s.ctl.submitted = true := h.inv.inStep.1 ▸ hin
  have hinv : InvWith 1 s := by simpa [Inv, hsub] using h.inv
  have hacc : 1 ≤ s.listener.pendingAccepts := by simpa [hsub] using h.inv.reserved
  unfold AcceptSource.arrived endRequest
  cases hm : event.more with
  | true =>
    rw [if_pos rfl]
    refine ⟨{ hinv with inStep := ⟨?_, hinv.inStep.2⟩ }, hsub, id⟩
    show event.more = s.ctl.submitted
    rw [hm, hsub]
  | false =>
    rw [if_neg (by simp)]
    rw [if_neg (by show s.listener.pendingAccepts ≠ 0; omega)]
    exact ⟨{ hinv with inStep := ⟨hm, hinv.inStep.2⟩, reserved := Nat.zero_le _ }, rfl, id⟩

theorem Between.arrived_frame (h : Between s) (hin : s.ctl.inFlight = true)
    (event : CompletionEvent) (wrapped : Wrapped) (answers : List (Option Error)) :
    let t := s.arrived event wrapped answers
    t.backlog = s.backlog ∧ t.handed = s.handed ∧ t.pendingNext = s.pendingNext ∧
      t.machine = s.machine ∧ t.ctl.cancelSubmitted = s.ctl.cancelSubmitted ∧
      t.ctl.terminalError = s.ctl.terminalError ∧ t.loopStopping = s.loopStopping ∧
      t.ctl.answers = answers ∧ t.accepted = (s.kernelAccept event wrapped).accepted := by
  have hsub : s.ctl.submitted = true := h.inv.inStep.1 ▸ hin
  have hacc : 1 ≤ s.listener.pendingAccepts := by simpa [hsub] using h.inv.reserved
  unfold AcceptSource.arrived endRequest
  cases event.more with
  | true =>
    rw [if_pos rfl]
    exact ⟨rfl, rfl, rfl, rfl, rfl, rfl, rfl, rfl, rfl⟩
  | false =>
    rw [if_neg (by simp)]
    rw [if_neg (by show s.listener.pendingAccepts ≠ 0; omega)]
    exact ⟨rfl, rfl, rfl, rfl, rfl, rfl, rfl, rfl, rfl⟩

theorem onCompletion_eq (event : CompletionEvent) (wrapped : Wrapped)
    (answers : List (Option Error)) :
    ((s.kernelAccept event wrapped).withAnswers answers).onCompletion event wrapped =
      ((s.arrived event wrapped answers).recorded event wrapped).afterResult event.more := rfl

theorem InvWith.not_steals (h : InvWith 1 s) (event : CompletionEvent) (wrapped : Wrapped)
    (hmore : s.ctl.submitted = event.more) (hempty : s.pendingNext.isSome → s.backlog = [])
    (hp : ((s.recorded event wrapped).rearmed event.more).pendingNext.isSome)
    (hb : ((s.recorded event wrapped).rearmed event.more).backlog ≠ [])
    (hs : Steals ((s.recorded event wrapped).rearmed event.more)) :
    ¬ Rearms s event wrapped s.ctl.answers := by
  have hr := h.recorded event wrapped hmore
  have hcalm := hr.calm hempty
  have hsub := hr.submitted.trans hmore
  obtain ⟨hm, hpend, hback, hcancel, herr, hfails, hstate⟩ :=
    InvWith.steals_rearmed hr.inv hr.started hcalm hsub hs
  have hp' : s.pendingNext.isSome := by rw [← hr.pendingNext, ← hpend]; exact hp
  have hnil := hempty hp'
  have harr : 0 ≤ event.result ∧ wrapped = .stream := by
    by_contra hn
    rw [hback, hr.backlog, arriving, if_neg hn, List.append_nil] at hb
    exact hb hnil
  obtain ⟨hres, rfl⟩ := harr
  obtain ⟨hev, hover⟩ := backlog_eq_nil.mp hnil
  have hq : s.machine.queuedEvents = 0 := by rw [h.queued, hev]; rfl
  have hcap : 0 < s.machine.options.eventCapacity := by
    have := AcceptSourceOptions.valid_iff.mp h.consistent.valid
    omega
  have heq : s.recorded event .stream = s.queuedWith event.result.toNat := by
    unfold AcceptSource.recorded AcceptSource.handleResult onAccepted
    rw [if_pos hres]
    rw [if_neg (by rw [hq]; simp [hover]; omega), ← hmore]
    exact (h.record_produced _ hover (by omega)).1
  rw [heq] at hcancel herr hfails hstate
  obtain ⟨hact, hpause, -⟩ := recordedMachine_origin s .produced s.ctl.submitted
  have hfails' : s.loopStopping = true ∨ s.ctl.answers.head?.join.isSome = true := by
    exact of_decide_eq_true hfails
  refine not_not.mpr ⟨hp', hres, rfl, hm, ?_, hcancel, herr, hfails'⟩
  rcases hstate with hpaused | ⟨hst, hfull⟩
  · rcases hpause (.inr hpaused) with hst | hst
    · exact .inl hst
    · rcases h.running with hr | hr | hr <;> rw [hr] at hst <;> cases hst
  · refine .inr ⟨hact hst, ?_⟩
    have hle : s.machine.options.eventCapacity ≤ s.machine.queuedEvents + 1 := hfull
    omega

theorem Between.onCompletion (h : Between s) (hin : s.ctl.inFlight = true)
    (event : CompletionEvent) (wrapped : Wrapped) (answers : List (Option Error)) :
    let s' := ((s.kernelAccept event wrapped).withAnswers answers).onCompletion event wrapped
    Between s' ∧ (NoStall s → Wakeable s') ∧
      s'.accepted = (s.kernelAccept event wrapped).accepted ∧
      (Rearms s event wrapped answers →
        s'.flow = s.flow ++ arriving event wrapped ∧ (Sound s → Sound s')) := by
  obtain ⟨hinv, hmore, hsound⟩ := h.arrived hin event wrapped answers
  obtain ⟨hback, hhand, hpend, hmach, hcancel, herr, hloop, hans, hacc⟩ :=
    h.arrived_frame hin event wrapped answers
  rw [onCompletion_eq]
  set t := s.arrived event wrapped answers with ht
  have hr := hinv.recorded event wrapped hmore
  have hempty : t.pendingNext.isSome → t.backlog = [] := fun hp =>
    hback.trans (h.empty (hpend ▸ hp))
  obtain ⟨hb, hw, hacc', hflow⟩ := hr.inv.afterResult hr.started (hr.calm hempty)
    (hr.submitted.trans hmore)
  refine ⟨hb, fun hs => hw (hr.stall fun hor => ?_), ?_, fun hre => ?_⟩
  · rw [hmach] at hor
    exact herr.trans (hs hor)
  · rw [hacc', hr.accepted, hacc]
  · have hre' : Rearms t event wrapped t.ctl.answers := by
      unfold Rearms
      rw [hpend, hmach, hcancel, herr, hloop, hans]
      exact hre
    obtain ⟨hf, hso⟩ := hflow fun hp hb hs =>
      hinv.not_steals event wrapped hmore hempty hp hb hs hre'
    refine ⟨?_, fun h' => hso (hr.sound (hsound h'))⟩
    have hhand' : (t.recorded event wrapped).handed = s.handed := by
      rw [← hhand, handed, handed, hr.nexts]
    rw [hf, flow, flow, hhand', hr.backlog, hback, List.append_assoc]

end AcceptSource

end Alyrn.Uring
