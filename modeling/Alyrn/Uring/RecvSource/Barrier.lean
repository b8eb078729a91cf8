import Alyrn.Uring.RecvSource.Moves

/-!
# Stop as a drain barrier

A successful `Stop()` means that nothing is in flight, no lease is outside, and every payload has
been handed to `Next()`. The machine counts queued events and leases, but not the overflow list;
so the barrier holds as long as a payload of the overflow list has a lease beside it whenever
somebody stops.

`Onward` is what the handlers of an entry do, the stop awaiters apart.
-/

namespace Alyrn.Uring

open Net Transition

namespace RecvSource

variable {s s' t : RecvSource}

/-! ## Onward -/

structure Onward (s s' : RecvSource) : Prop where
  pendingStop : s'.pendingStop = s.pendingStop
  stops : s'.stops = s.stops
  stopped : s.machine.state.Stopped → s'.machine.state.Stopped
  leases : s.machine.outstandingLeases ≤ s'.machine.outstandingLeases
  overflow : s'.overflow ≠ [] → s.overflow ≠ [] ∨ s'.machine.outstandingLeases ≠ 0

namespace Onward

theorem trans (h : Onward s t) (h' : Onward t s') : Onward s s' := by
  refine ⟨h'.pendingStop.trans h.pendingStop, h'.stops.trans h.stops,
    fun hs => h'.stopped (h.stopped hs), h.leases.trans h'.leases, fun ho => ?_⟩
  rcases h'.overflow ho with ho | hl
  · rcases h.overflow ho with ho | hl
    · exact .inl ho
    · have := h'.leases
      exact .inr (by omega)
  · exact .inr hl

theorem clean (h : Onward s s') (hs : s.machine.outstandingLeases = 0 → s.overflow = [])
    (hl : s'.machine.outstandingLeases = 0) : s'.overflow = [] := by
  have hle := h.leases
  by_contra hover
  rcases h.overflow hover with hover | hl'
  · exact hover (hs (by omega))
  · exact hl' hl

theorem onBuffers (s : RecvSource) (f : BufferSlots → Option BufferSlots) :
    Onward s (s.onBuffers f) := by
  obtain ⟨hmach, hover, hpending, hstops⟩ := s.onBuffers_frame f
  exact ⟨hpending, hstops, fun h => hmach ▸ h, hmach ▸ le_rfl, fun h => .inl (hover ▸ h)⟩

end Onward

theorem onward_moves : Moves Onward where
  trans := .trans
  move hstop hleases _ hover hpending hstops :=
    ⟨hpending, hstops, hstop, hleases, fun h => .inl (hover ▸ h)⟩
  pop hover := ⟨rfl, rfl, id, le_rfl, fun _ => .inl (by simp [hover])⟩
  push _ hroom := ⟨rfl, rfl, id, le_rfl, fun _ => hroom⟩
  kernelDone s _ := .onBuffers s _
  kernelDoneAll s := .onBuffers s _
  release s _ := .onBuffers s _

/-! ## The barrier -/

/-- The machine is terminal, and no request is in the kernel. -/
def Quiescent (s : RecvSource) : Prop :=
  s.machine.state = .terminal ∧ s.ctl.submitted = false ∧ s.ctl.cancelSubmitted = false

/-- What `Stop()` promises. -/
structure Barrier (s : RecvSource) : Prop where
  parked : s.pendingStop.isSome = true → s.machine.state.Stopped ∧ ¬ s.Quiescent ∧
    (s.machine.outstandingLeases = 0 → s.overflow = [])
  reported : ∀ a, (a, Except.ok ()) ∈ s.stops → s.Quiescent ∧ s.overflow = []

theorem mem_complete {R : Type} {results : List (ℕ × R)} {a : ℕ} {r : R} {p : ℕ × R}
    (h : p ∈ complete results a r) : p ∈ results ∨ p = (a, r) := by
  unfold Net.complete at h
  split_ifs at h
  · exact .inl h
  · simpa using h

theorem barrier_completeStopIfReady (hnone : ∀ a, (a, Except.ok ()) ∉ s.stops)
    (hparked : s.pendingStop.isSome = true →
      s.machine.state.Stopped ∧ (s.machine.outstandingLeases = 0 → s.overflow = []))
    (hzero : s.machine.state = .terminal → s.machine.outstandingLeases = 0) :
    Barrier s.completeStopIfReady := by
  unfold RecvSource.completeStopIfReady
  cases hp : s.pendingStop with
  | none => exact ⟨by simp [hp], fun a ha => absurd ha (hnone a)⟩
  | some b =>
    obtain ⟨hstop, hclean⟩ := hparked (by simp [hp])
    split_ifs with hbusy
    · refine ⟨fun _ => ⟨hstop, ?_, hclean⟩, fun a ha => absurd ha (hnone a)⟩
      rintro ⟨hterm, hsub, hcancel⟩
      simp [hterm, hsub, hcancel] at hbusy
    · simp only [ne_eq, not_or, not_not] at hbusy
      obtain ⟨hsub, hcancel, hterm⟩ := hbusy
      refine ⟨by simp [completeStop], fun a ha => ?_⟩
      exact ⟨⟨hterm, Bool.eq_false_iff.mpr hsub, Bool.eq_false_iff.mpr hcancel⟩,
        hclean (hzero hterm)⟩

/-- A stop is not called while a payload waits in the overflow list and no lease is outside; and
the last lease does not come back while somebody waits for the stop and such a payload is left. -/
def Consumed (s : RecvSource) : Action → Prop
  | .stop _ => ¬ (s.overflow ≠ [] ∧ s.machine.outstandingLeases = 0)
  | .release _ _ => ¬ (s.pendingStop.isSome ∧ s.overflow ≠ [] ∧ s.machine.outstandingLeases = 1)
  | _ => True

instance (s : RecvSource) : (a : Action) → Decidable (Consumed s a)
  | .stop .. | .release .. => by dsimp only [Consumed]; infer_instance
  | .recvCqe .. | .cancelCqe .. | .next .. | .requestStop .. => .isTrue trivial

/-! ## Steps -/

theorem Barrier.busy (h : Barrier s) (hb : ¬ s.Quiescent) (a : ℕ) : (a, Except.ok ()) ∉ s.stops :=
  fun ha => hb (h.reported a ha).1

theorem Onward.settle (ho : Onward s t) (hnone : ∀ a, (a, Except.ok ()) ∉ s.stops)
    (hparked : s.pendingStop.isSome = true →
      s.machine.state.Stopped ∧ (s.machine.outstandingLeases = 0 → s.overflow = []))
    (hinv : Inv t.completeStopIfReady) : Barrier t.completeStopIfReady := by
  refine barrier_completeStopIfReady (ho.stops ▸ hnone) (fun hp => ?_) fun hterm => ?_
  · obtain ⟨hstop, hclean⟩ := hparked (ho.pendingStop ▸ hp)
    exact ⟨ho.stopped hstop, ho.clean hclean⟩
  · have hm : t.completeStopIfReady.machine = t.machine := by
      unfold RecvSource.completeStopIfReady
      split
      · rfl
      · split_ifs <;> rfl
    have := hinv.leases_eq_zero (hm.symm ▸ hterm)
    rwa [hm] at this

theorem Barrier.settle (h : Barrier s) (hb : ¬ s.Quiescent) (ho : Onward s t)
    (hinv : Inv t.completeStopIfReady) : Barrier t.completeStopIfReady :=
  ho.settle (h.busy hb) (fun hp => ⟨(h.parked hp).1, (h.parked hp).2.2⟩) hinv

theorem Barrier.onCompletion (h : Barrier s) (hinv : Inv s)
    (hempty : s.pendingNext.isSome → s.backlog = []) (hin : s.ctl.inFlight = true)
    (event : CompletionEvent) (bytes : List UInt8) (answers : List (Option Error)) :
    Barrier (((s.kernelRecv event bytes).withAnswers answers).onCompletion event) := by
  have hbusy : ¬ s.Quiescent := fun hq => by
    rw [hinv.control.inStep.1, hq.2.1] at hin
    cases hin
  have harrive : Onward s (s.arrived event bytes answers) := by
    unfold RecvSource.arrived endRequest
    split_ifs <;> exact ⟨rfl, rfl, id, le_rfl, .inl⟩
  obtain ⟨hinv₁, -⟩ := hinv.arrived hin event bytes answers
  have hresult : Onward s ((s.arrived event bytes answers).handleResult event) :=
    onward_moves.handleResult _ hinv₁.leases_of_full
      (fun _ _ _ => harrive.trans ⟨rfl, rfl, id, le_rfl, .inl⟩)
      (fun _ => harrive.trans (.onBuffers _ _)) (fun _ _ => harrive) fun _ => harrive
  obtain ⟨t, heq, hafter⟩ := onward_moves.afterResult
    ((s.arrived event bytes answers).handleResult event) event.more
  have hfinal : ((s.kernelRecv event bytes).withAnswers answers).onCompletion event =
      t.completeStopIfReady := heq
  have hkept := (hinv.onCompletion hempty hin event bytes answers).1.inv
  rw [hfinal] at hkept ⊢
  exact h.settle hbusy (hresult.trans hafter) hkept

theorem Barrier.onCancelComplete (h : Barrier s) (hinv : Inv s)
    (hempty : s.pendingNext.isSome → s.backlog = []) (hin : s.ctl.cancelInFlight = true)
    (result : ℤ) (answers : List (Option Error)) :
    Barrier (({ s with ctl := { s.ctl with cancelInFlight := false } }.withAnswers
      answers).onCancelComplete result) := by
  have hbusy : ¬ s.Quiescent := fun hq => by
    rw [hinv.control.inStep.2, hq.2.2] at hin
    cases hin
  have hkept := (hinv.onCancelComplete hempty hin result answers).1.inv
  refine h.settle hbusy ?_ hkept
  refine Onward.trans ?_ (onward_moves.maybeResumeWith onward_moves.deliverNextIfReady _)
  split_ifs <;> exact ⟨rfl, rfl, id, le_rfl, .inl⟩

theorem Barrier.returnQueuedPayload (h : Barrier s) (hinv : Inv s)
    (hempty : s.pendingNext.isSome → s.backlog = []) {i : ℕ} {lease : Lease}
    (hi : s.leases[i]? = some lease) (answers : List (Option Error))
    (hcond : Consumed s (.release i answers)) :
    Barrier ((s.withAnswers answers).returnQueuedPayload i lease.copySlot) := by
  have hkept := (hinv.returnQueuedPayload hempty hi answers).1.inv
  obtain ⟨hrel, -⟩ := hinv.released hi answers
  have hl : s.machine.outstandingLeases ≠ 0 := by
    obtain ⟨hlt, -⟩ := List.getElem?_eq_some_iff.mp hi
    have := hinv.stock.leased
    omega
  have hbusy : ¬ s.Quiescent := fun hq => hl (hinv.leases_eq_zero hq.1)
  unfold RecvSource.returnQueuedPayload at hkept ⊢
  have hrel' : (s.withAnswers answers).machine.releaseLease =
      some (s.released i lease.copySlot answers).machine := hrel
  dsimp only at hkept ⊢
  rw [hrel'] at hkept ⊢
  dsimp only at hkept ⊢
  split_ifs at hkept ⊢ with hfast
  · refine ⟨fun hp => ?_, fun a ha => absurd ha (h.busy hbusy a)⟩
    simp_all
  · have ho : Onward (s.released i lease.copySlot answers)
        (s.released i lease.copySlot answers).ensureSubmission :=
      onward_moves.ensureSubmissionWith onward_moves.deliverNextIfReady _
    refine ho.settle (h.busy hbusy) (fun hp => ?_) hkept
    obtain ⟨hstop, -, -⟩ := h.parked hp
    refine ⟨hstop.reconcileStopping, fun hz => ?_⟩
    -- the last lease
    have hone : s.machine.outstandingLeases - 1 = 0 := hz
    by_contra hover
    exact hcond ⟨hp, hover, by omega⟩

theorem InvWith.tryTakeNext_ctl (hinv : Inv s) (hstop : s.machine.state.Stopped) :
    s.tryTakeNext.2.ctl.submitted = s.ctl.submitted ∧
      s.tryTakeNext.2.ctl.cancelSubmitted = s.ctl.cancelSubmitted ∧
      (s.tryTakeNext.2.machine.state = .terminal ↔ s.machine.state = .terminal) := by
  have hpaused := hstop.ne.2.2.1
  unfold tryTakeNext RecvSource.tryTakeNextWith
  cases hpop : s.events.pop? with
  | none =>
    cases hover : s.overflow with
    | nil =>
      split_ifs
      · exact ⟨rfl, rfl, Iff.rfl⟩
      · exact ⟨rfl, rfl, Iff.rfl⟩
    | cons payload overflow =>
      dsimp only
      rw [if_neg (fun hc => hpaused hc.2)]
      exact ⟨rfl, rfl, Iff.rfl⟩
  | some p =>
    obtain ⟨e, events⟩ := p
    obtain ⟨m, hacq, hl, hlease, htook⟩ := hinv.takeEvent hpop
    have hq : s.machine.queuedEvents ≠ 0 := fun hz => by
      simp [RecvSourceStateMachine.acquireEvent, RecvSourceStateMachine.dropQueuedEvent, hz] at hacq
    have hleased := hinv.stock.leased
    -- the event's lease is outside now
    have hnot : m.state ≠ .terminal := fun hterm => by
      have := htook.inv.leases_eq_zero hterm
      rw [show (s.taken e events m).machine.outstandingLeases = _ from hl] at this
      omega
    have hnot' : s.machine.state ≠ .terminal := fun hterm => by
      have := hinv.leases_eq_zero hterm
      omega
    have hm : m.state.Stopped := by
      have hdrop := RecvSourceStateMachine.dropQueuedEvent_eq hq
      cases hacq.symm.trans hdrop
      exact hstop.reconcileStopping
    simp only [hacq, hlease]
    rw [if_neg (show (s.taken e events m).machine.state ≠ .paused from hm.ne.2.2.1)]
    exact ⟨rfl, rfl, iff_of_false hnot hnot'⟩

theorem InvWith.next_ctl (hinv : Inv s) (hstop : s.machine.state.Stopped) :
    s.next.ctl.submitted = s.ctl.submitted ∧ s.next.ctl.cancelSubmitted = s.ctl.cancelSubmitted ∧
      (s.next.machine.state = .terminal ↔ s.machine.state = .terminal) := by
  have hidle := hstop.ne.2.2.2
  have hcalled : Inv { s with nextCalls := s.nextCalls + 1 } := hinv.called s.ctl.answers
  have htake := hcalled.tryTakeNext_ctl hstop
  unfold RecvSource.next
  dsimp only
  split_ifs with hpend
  · exact ⟨rfl, rfl, Iff.rfl⟩
  · rcases ht : ({ s with nextCalls := s.nextCalls + 1 } : RecvSource).tryTakeNext with ⟨_ | r, t⟩
    · rw [ht] at htake
      simp only [ht]
      exact htake
    · rw [ht] at htake
      simp only [ht]
      exact htake

theorem InvWith.quiescent_next (hinv : Inv s) (hstop : s.machine.state.Stopped) :
    s.next.Quiescent ↔ s.Quiescent := by
  obtain ⟨hsub, hcancel, hterm⟩ := hinv.next_ctl hstop
  rw [Quiescent, Quiescent, hsub, hcancel, hterm]

theorem Barrier.next (h : Barrier s) (hinv : Inv s) (hinv' : Inv s.next) : Barrier s.next := by
  have ho := onward_moves.next s
  refine ⟨fun hp => ?_, fun a ha => ?_⟩
  · obtain ⟨hstop, hbusy, hclean⟩ := h.parked (ho.pendingStop ▸ hp)
    exact ⟨ho.stopped hstop, mt (hinv.quiescent_next hstop).mp hbusy, ho.clean hclean⟩
  · obtain ⟨hq, hover⟩ := h.reported a (ho.stops ▸ ha)
    have hq' := (hinv.quiescent_next (.inr (.inr hq.1))).mpr hq
    exact ⟨hq', ho.clean (fun _ => hover) (hinv'.leases_eq_zero hq'.1)⟩

theorem beginStop_cases (s : RecvSource) :
    ∃ ctl r, s.beginStop = (r, { s with ctl }) ∧ ctl.state = s.machine.requestStop ∧
      ctl.submitted = s.ctl.submitted ∧
      (s.ctl.submitted = false → ctl.cancelSubmitted = s.ctl.cancelSubmitted) ∧
      ∀ b, r = .ok b → (b = false ↔ Quiescent { s with ctl }) := by
  have hq (t : RecvSource) : decide (t.machine.state ≠ .terminal ∨ t.ctl.submitted = true ∨
      t.ctl.cancelSubmitted = true) = false ↔ Quiescent t := by
    simp [Quiescent]
  unfold RecvSource.beginStop
  dsimp only
  split_ifs with hsub
  · have hf := SourceControl.startCancel_frame (c := (s.setMachine s.machine.requestStop).ctl)
    rcases hsc : (s.setMachine s.machine.requestStop).ctl.startCancel with ⟨_ | e, ctl⟩
    · rw [hsc] at hf
      refine ⟨ctl, _, rfl, hf.1, hf.2.1, fun hx => absurd (hsub.symm.trans hx) (by simp), ?_⟩
      rintro b hb
      cases hb
      exact hq _
    · rw [hsc] at hf
      exact ⟨ctl, _, rfl, hf.1, hf.2.1, fun hx => absurd (hsub.symm.trans hx) (by simp),
        fun b hb => by cases hb⟩
  · refine ⟨_, _, rfl, rfl, rfl, fun _ => rfl, ?_⟩
    rintro b hb
    cases hb
    exact hq _

theorem Barrier.requestStop (h : Barrier s) : Barrier s.requestStop := by
  obtain ⟨ctl, r, heq, hst, hsub, hcancel, -⟩ := beginStop_cases s
  have hstop' : s.requestStop = { s with ctl } := congrArg Prod.snd heq
  have hm : ({ s with ctl } : RecvSource).machine = s.machine.requestStop := hst
  rw [hstop']
  have hback (hs : s.machine.state.Stopped) : Quiescent { s with ctl } ↔ s.Quiescent := by
    have hmach : ({ s with ctl } : RecvSource).machine = s.machine :=
      hm.trans (congrArg ({ s.machine with state := · }) hs.requestStop)
    rw [Quiescent, Quiescent, hmach, show ({ s with ctl } : RecvSource).ctl.submitted = _ from hsub]
    constructor
    · rintro ⟨h1, h2, h3⟩
      exact ⟨h1, h2, (hcancel h2).symm.trans h3⟩
    · rintro ⟨h1, h2, h3⟩
      exact ⟨h1, h2, (hcancel h2).trans h3⟩
  refine ⟨fun hp => ?_, fun a ha => ?_⟩
  · obtain ⟨hs, hbusy, hclean⟩ := h.parked hp
    refine ⟨hm.symm ▸ SourceState.stopped_requestStop, mt (hback hs).mp hbusy, fun hl => hclean ?_⟩
    rw [hm] at hl
    exact hl
  · obtain ⟨hq, hover⟩ := h.reported a ha
    exact ⟨(hback (.inr (.inr hq.1))).mpr hq, hover⟩

theorem Barrier.stop (h : Barrier s) (hinv : Inv s)
    (hclean : s.machine.outstandingLeases = 0 → s.overflow = []) : Barrier s.stop := by
  have hnew {results : List (ℕ × Except Error Unit)} {a b : ℕ} {e : Error}
      (hm : (a, Except.ok ()) ∈ Net.complete results b (.error e)) :
      (a, Except.ok ()) ∈ results := (mem_complete hm).resolve_right (by simp)
  unfold RecvSource.stop
  dsimp only
  split_ifs with hpend hq
  · -- one stop awaiter at a time
    exact ⟨h.parked, fun a ha => h.reported a (hnew ha)⟩
  · have hquiet : s.Quiescent := hq
    refine ⟨fun hp => absurd hp hpend, fun a _ => ⟨hquiet, hclean (hinv.leases_eq_zero hq.1)⟩⟩
  · have hbusy : ∀ a, (a, Except.ok ()) ∉ s.stops := h.busy hq
    obtain ⟨ctl, r, heq, hst, -, -, hr⟩ := beginStop_cases
      ({ s with stopCalls := s.stopCalls + 1, pendingStop := some s.stopCalls } : RecvSource)
    rw [heq]
    have hstop : ctl.state.state.Stopped := hst ▸ SourceState.stopped_requestStop
    have hl : ctl.state.outstandingLeases = s.machine.outstandingLeases := by
      rw [hst]
      rfl
    rcases r with e | b
    · exact ⟨by simp [completeStop], fun a ha => absurd (hnew ha) (hbusy a)⟩
    · cases b with
      | false =>
        have hquiet := (hr false rfl).mp rfl
        have hzero : s.machine.requestStop.drained = true :=
          hinv.consistent.requestStop.lifecycle.ends (.inr (hst ▸ hquiet.1))
        exact ⟨by simp [completeStop], fun a _ => ⟨hquiet,
          hclean (RecvSourceStateMachine.drained_iff.mp hzero).2⟩⟩
      | true =>
        refine ⟨fun _ => ⟨hstop, fun hx => ?_, fun hz => hclean (hl.symm.trans hz)⟩,
          fun a ha => absurd ha (hbusy a)⟩
        exact absurd ((hr true rfl).mpr hx) (by simp)

theorem Barrier.step {a : Action} (h : Barrier s) (hb : Between s) (hcond : Consumed s a)
    (hstep : RecvSource.step a s = some s') : Barrier s' := by
  have hb' := (hb.step hstep).1
  have hans (answers : List (Option Error)) : Barrier (s.withAnswers answers) :=
    ⟨h.parked, h.reported⟩
  unfold RecvSource.step at hstep
  rw [if_neg (by simp [hb.inv.control.alive])] at hstep
  cases a with
  | recvCqe event bytes answers =>
    obtain ⟨hin, rfl⟩ := of_guard hstep
    exact h.onCompletion hb.inv hb.empty hin event bytes answers
  | cancelCqe result answers =>
    obtain ⟨hin, rfl⟩ := of_guard hstep
    exact h.onCancelComplete hb.inv hb.empty hin result answers
  | next answers =>
    cases hstep
    exact (hans answers).next (hb.inv.withAnswers answers) hb'.inv
  | release i answers =>
    dsimp only at hstep
    cases hi : s.leases[i]? with
    | none => simp [hi] at hstep
    | some lease =>
      rw [hi] at hstep
      cases hstep
      exact h.returnQueuedPayload hb.inv hb.empty hi answers hcond
  | requestStop answers =>
    cases hstep
    exact (hans answers).requestStop
  | stop answers =>
    cases hstep
    refine (hans answers).stop (hb.inv.withAnswers answers) fun hl => ?_
    by_contra hover
    exact hcond ⟨hover, hl⟩

/-- Nothing is in flight, no lease is outside, the source is terminal, and nothing waits. -/
def Drained (s : RecvSource) : Prop :=
  (s.ctl.inFlight = false ∧ s.ctl.cancelInFlight = false) ∧ s.leases = [] ∧
    s.machine.state = .terminal ∧ s.events.toList = [] ∧ s.overflow = []

instance (s : RecvSource) : Decidable s.Drained := by
  unfold Drained
  infer_instance

theorem InvWith.drained (h : Inv s) (hq : s.Quiescent) (hover : s.overflow = []) : s.Drained := by
  obtain ⟨hterm, hsub, hcancel⟩ := hq
  have hzero := h.leases_eq_zero hterm
  have hleased := h.stock.leased
  have hqueued := h.stock.queued
  refine ⟨⟨h.control.inStep.1.trans hsub, h.control.inStep.2.trans hcancel⟩, ?_, hterm, ?_, hover⟩
  · exact List.length_eq_zero_iff.mp (by omega)
  · rw [← List.length_eq_zero_iff, RingBuffer.length_toList]
    omega

theorem barrier_init (h : system.init s) : Barrier s := by
  obtain ⟨options, loop, -, hc⟩ := h
  obtain ⟨state, _, _, pool, -, -, -, rfl⟩ := create_eq hc
  exact ⟨by simp [make], by simp [make]⟩

/-- **Stop is a drain barrier**, in every run in which the overflow list is consumed before the
last lease comes back to a source that is being stopped. A successful stop finds the source
drained and every received payload handed to `Next()`; and no stop waits for a drained source. -/
theorem stop_drains
    (h : system.ReachesBy (fun s a => Honest s a ∧ HasLease s a ∧ Consumed s a) s) :
    (∀ a, (a, Except.ok ()) ∈ s.stops → s.Drained ∧ s.handed = s.received) ∧
      (s.Drained → s.pendingStop = none) := by
  obtain ⟨hb, hbar⟩ : Between s ∧ Barrier s := by
    refine h.invariant (I := fun t => Between t ∧ Barrier t) (fun t ht => ?_) ?_
    · exact ⟨(between_init ht).1, barrier_init ht⟩
    · rintro t a t' ⟨hb, hbar⟩ hc hs
      exact ⟨(hb.step hs).1, hbar.step hb hc.2.2 hs⟩
  have hflow : s.flow = s.received := flow_eq_received (h.mono fun _ _ hc => ⟨hc.1, hc.2.1⟩)
  refine ⟨fun a ha => ?_, fun hd => ?_⟩
  · obtain ⟨hq, hover⟩ := hbar.reported a ha
    have hd := hb.inv.drained hq hover
    refine ⟨hd, ?_⟩
    rw [← hflow, flow, backlog_eq_nil.mpr hd.2.2.2, List.append_nil]
  · obtain ⟨⟨hin, hcancel⟩, -, hterm, -⟩ := hd
    obtain ⟨hin', hcancel'⟩ := hb.inv.control.inStep
    by_contra hp
    exact (hbar.parked (Option.isSome_iff_ne_none.mpr hp)).2.1
      ⟨hterm, hin'.symm.trans hin, hcancel'.symm.trans hcancel⟩

/-- A stop waits for the lease that the application holds, and then succeeds. -/
theorem stop_drains_lease :
    ∃ s, (system.ReachesBy (fun s a => Honest s a ∧ HasLease s a ∧ Consumed s a) s ∧
      (0, Except.ok ()) ∈ s.stops) ∧ s.Drained ∧ s.handed = s.received :=
  system.exists_reachesBy_and _ (small 1) small_one_init
    [.next [], byteCqe 0 7, .stop [], cancelledCqe, .cancelCqe 0 [], .release 0 []] (by decide)
    fun _ hr hp => (stop_drains hr).1 0 hp

/-- **Stopped with a byte left.** The byte came while the only lease was outside, so it went to the
overflow list; the lease comes back, and the stop succeeds at once. -/
theorem stopped_with_overflow :
    ∃ s, system.ReachesBy (fun s a => Honest s a ∧ HasLease s a) s ∧
      (0, Except.ok ()) ∈ s.stops ∧ s.overflow = [[8]] ∧ s.handed ≠ s.received :=
  system.exists_reachesBy _ (small 1) small_one_init
    [.next [], byteCqe 0 7, byteCqe 0 8, cancelledCqe, .cancelCqe 0 [], .release 0 [], .stop []]
    (by decide)

end RecvSource

end Alyrn.Uring
