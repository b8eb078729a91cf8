import Alyrn.Uring.RecvSource.Runs

/-!
# The moves of RecvSource

Every handler of the source is put together from a few moves: the machine moves on, a payload joins
or leaves the overflow list, a borrowed buffer changes hands. A transitive relation that the moves
satisfy (`Moves`) holds between the states before and after each handler.
-/

namespace Alyrn.Uring

open Net Transition

namespace RecvSource

theorem InvWith.leases_of_full {armed : ℕ} (h : InvWith armed s)
    (hfull : s.machine.canQueueEvent = false) : s.machine.outstandingLeases ≠ 0 := by
  have hv := Net.RecvSourceOptions.valid_iff.mp h.consistent.valid
  have hl := h.stock.leased
  simp only [RecvSourceStateMachine.canQueueEvent, decide_eq_false_iff_not, not_and_or,
    Nat.not_lt] at hfull
  omega

/-! ## Moves -/

/-- A relation that contains the moves of which every entry is made. -/
structure Moves (R : RecvSource → RecvSource → Prop) : Prop where
  trans : ∀ {s t u}, R s t → R t u → R s u
  /-- The machine moves on; copy slots, queue, requests and awaiters of `Next()` are free to
  change. -/
  move : ∀ {s t}, (s.machine.state.Stopped → t.machine.state.Stopped) →
    s.machine.outstandingLeases ≤ t.machine.outstandingLeases → t.buffers = s.buffers →
    t.overflow = s.overflow → t.pendingStop = s.pendingStop → t.stops = s.stops → R s t
  pop : ∀ {s payload overflow}, s.overflow = payload :: overflow → R s { s with overflow }
  push : ∀ {s} payload, s.overflow ≠ [] ∨ s.machine.outstandingLeases ≠ 0 →
    R s { s with overflow := s.overflow ++ [payload] }
  kernelDone : ∀ s id, R s (s.onBuffers (·.markKernelDone id))
  kernelDoneAll : ∀ s, R s (s.onBuffers (·.markActiveSlotsKernelDone))
  release : ∀ s id, R s (s.onBuffers (·.releaseSlotLease id))

theorem onBuffers_frame (s : RecvSource) (f : BufferSlots → Option BufferSlots) :
    (s.onBuffers f).machine = s.machine ∧ (s.onBuffers f).overflow = s.overflow ∧
      (s.onBuffers f).pendingStop = s.pendingStop ∧ (s.onBuffers f).stops = s.stops := by
  unfold RecvSource.onBuffers
  cases f s.buffers <;> exact ⟨rfl, rfl, rfl, rfl⟩

namespace Moves

variable {R : RecvSource → RecvSource → Prop} {s₀ : RecvSource} (hm : Moves R)
  {deliver : RecvSource → RecvSource} (hd : ∀ t, R t (deliver t)) (s : RecvSource)
include hm

theorem refl : R s s := hm.move id le_rfl rfl rfl rfl rfl

theorem abort : R s s.abort := hm.move id le_rfl rfl rfl rfl rfl

theorem requestBackendStop (e : Option Error) : R s (s.requestBackendStop e) := by
  have hmach := requestBackendStop_machine (s := s) e
  refine hm.move (fun _ => ?_) ?_ rfl rfl rfl rfl
  · rw [hmach]
    exact SourceState.stopped_requestStop
  · rw [hmach]
    exact le_rfl

theorem requestBackendPause : R s s.requestBackendPause := by
  obtain ⟨m, hpause, -, hcases⟩ := SourceControl.requestBackendPause_cases s.ctl
    RecvSourceStateMachine.requestPause RecvSourceStateMachine.requestStop
  rw [requestPause_getD] at hpause
  have hl : m.outstandingLeases = s.machine.outstandingLeases := by rw [hpause]
  rcases hcases with ⟨hst, -⟩ | ⟨hst, -⟩
  · have hmach : s.requestBackendPause.machine = m := hst
    refine hm.move (fun h => ?_) (by rw [hmach, hl]) rfl rfl rfl rfl
    -- a stopped machine ignores the pause
    rw [hmach, hpause]
    simpa only [if_neg h.ne.1] using h
  · have hmach : s.requestBackendPause.machine = m.requestStop := hst
    refine hm.move (fun _ => ?_) ?_ rfl rfl rfl rfl
    · rw [hmach]
      exact SourceState.stopped_requestStop
    · rw [hmach]
      exact hl.ge

theorem counted {m : RecvSourceStateMachine} {event : EventDisposition}
    {request : MultishotRequestDisposition}
    (h : s.machine.completeMultishotEvent event request = .ok m) : R s (s.setMachine m) := by
  obtain ⟨-, rfl⟩ := RecvSourceStateMachine.completeMultishotEvent_ok h
  exact hm.move (·.reconcileStopping) (Nat.le_add_right _ _) rfl rfl rfl rfl

theorem recordRequest (more : Bool) : R s (s.recordRequest more) := by
  unfold RecvSource.recordRequest
  cases h : s.machine.completeMultishotEvent .none (if more then .more else .terminal) with
  | ok m => exact hm.counted _ h
  | error e =>
    have herror : R s { s with ctl := { s.ctl with terminalError := some e } } :=
      hm.move id le_rfl rfl rfl rfl rfl
    exact hm.trans herror (hm.requestBackendStop _ (some e))

/-! ## Delivery -/

theorem startOperation : R s s.startOperation.2 := by
  cases hsub : s.ctl.submitted with
  | true =>
    rw [RecvSource.startOperation, if_pos hsub]
    exact hm.refl s
  | false =>
    rcases startOperation_cases hsub with ⟨-, h⟩ | ⟨-, answers, h⟩ | ⟨-, e, answers, h⟩
    · rw [h]
      exact hm.refl s
    · rw [h]
      exact hm.move id le_rfl rfl rfl rfl rfl
    · rw [h]
      exact hm.move id le_rfl rfl rfl rfl rfl

include hd in
theorem ensureSubmissionWith : R s (s.ensureSubmissionWith deliver) := by
  have hstart := hm.startOperation s
  unfold RecvSource.ensureSubmissionWith
  split_ifs
  · exact hm.refl s
  · rcases h : s.startOperation with ⟨_ | e, t⟩
    · rw [h] at hstart
      exact hstart
    · rw [h] at hstart
      exact hm.trans hstart (hm.trans (hm.requestBackendStop t (some e)) (hd _))

include hd in
theorem maybeResumeWith : R s (s.maybeResumeWith deliver) := by
  unfold RecvSource.maybeResumeWith RecvSourceStateMachine.tryResume
  split_ifs with hg hst
  · exact hm.refl s
  · exact hm.refl s
  · -- a stopped machine is not paused
    simp only [ne_eq, not_or, not_not] at hst
    have hresume : R s (s.setMachine { s.machine with state := .active }) :=
      hm.move (absurd hst.1 ·.ne.2.2.1) le_rfl rfl rfl rfl rfl
    exact hm.trans hresume (hm.ensureSubmissionWith hd _)

theorem makeQueuedLease (copySlot size : ℕ) : R s (s.makeQueuedLease copySlot size) := by
  unfold RecvSource.makeQueuedLease
  split_ifs
  · exact hm.move id le_rfl rfl rfl rfl rfl
  · exact hm.abort s

include hd in
theorem tryTakeNextWith : R s (s.tryTakeNextWith deliver).2 := by
  unfold RecvSource.tryTakeNextWith
  cases hpop : s.events.pop? with
  | some p =>
    obtain ⟨e, events⟩ := p
    by_cases hq : s.machine.queuedEvents = 0
    · have hnone : s.machine.acquireEvent = none := by
        simp [RecvSourceStateMachine.acquireEvent, RecvSourceStateMachine.dropQueuedEvent, hq]
      simp only [hnone]
      exact hm.move id le_rfl rfl rfl rfl rfl
    · have hacq : s.machine.acquireEvent = _ := RecvSourceStateMachine.dropQueuedEvent_eq hq
      simp only [hacq]
      have hevent : R s (({ s with events } : RecvSource).setMachine
          { s.machine with
            queuedEvents := s.machine.queuedEvents - 1 }.reconcileStopping) :=
        hm.move (·.reconcileStopping) le_rfl rfl rfl rfl rfl
      have htake := hm.trans hevent (hm.makeQueuedLease _ e.copySlot e.size)
      split_ifs
      · exact hm.trans htake (hm.maybeResumeWith hd _)
      · exact htake
  | none =>
    cases hover : s.overflow with
    | nil =>
      split_ifs
      · exact hm.refl s
      · exact hm.refl s
    | cons payload overflow =>
      dsimp only
      split_ifs
      · exact hm.trans (hm.pop hover) (hm.maybeResumeWith hd _)
      · exact hm.pop hover

theorem completeNext (pending : Option ℕ) (a : ℕ)
    (r : NextResult (List UInt8)) : R s ({ s with pendingNext := pending }.completeNext a r) :=
  hm.move id le_rfl rfl rfl rfl rfl

include hd in
theorem deliverNextWith : R s (s.deliverNextWith deliver) := by
  have htake := hm.tryTakeNextWith hd s
  unfold RecvSource.deliverNextWith
  split_ifs
  · exact hm.refl s
  · rcases h : s.tryTakeNextWith deliver with ⟨_ | r, t⟩
    · rw [h] at htake
      exact htake
    · rw [h] at htake
      dsimp only
      cases t.pendingNext with
      | none => exact hm.trans htake (hm.abort t)
      | some a => exact hm.trans htake (hm.completeNext t none a r)

theorem deliverNext (depth : ℕ) : R s (RecvSource.deliverNext depth s) := by
  induction depth generalizing s with
  | zero => exact hm.abort s
  | succ depth ih => exact hm.deliverNextWith ih s

theorem deliverNextIfReady :
    R s (RecvSource.deliverNextIfReady s) := hm.deliverNext s 2

/-! ## Completions -/

theorem copyAndReleasePoolSlot (id size : ℕ) : R s (s.copyAndReleasePoolSlot id size).2 := by
  unfold RecvSource.copyAndReleasePoolSlot
  split
  · rename_i slot copyFree src _ _
    split_ifs
    · exact hm.abort s
    · have hcopy : R s { s with
          copyFree, queuedPayloads := s.queuedPayloads.splice (slot * s.bufferSize)
            (src.take size) } := hm.move (fun h => h) le_rfl rfl rfl rfl rfl
      exact hm.trans hcopy (hm.release _ id)
  · exact hm.abort s

theorem queueEvent (id size : ℕ) : R s (s.queueEvent id size) := by
  have hcopy := hm.copyAndReleasePoolSlot s id size
  unfold RecvSource.queueEvent
  rcases h : s.copyAndReleasePoolSlot id size with ⟨slot, t⟩
  rw [h] at hcopy
  dsimp only
  cases t.events.push? { copySlot := slot, size } with
  | none => exact hm.trans hcopy (hm.abort t)
  | some events => exact hm.trans hcopy (hm.move (fun h => h) le_rfl rfl rfl rfl rfl)

theorem deliverDirect (id size : ℕ) : R s (s.deliverDirect id size) := by
  have hcopy := hm.copyAndReleasePoolSlot s id size
  unfold RecvSource.deliverDirect
  rcases h : s.copyAndReleasePoolSlot id size with ⟨slot, t⟩
  rw [h] at hcopy
  have hlease := hm.trans hcopy (hm.makeQueuedLease t slot size)
  dsimp only
  cases (t.makeQueuedLease slot size).pendingNext with
  | none => exact hm.trans hlease (hm.abort _)
  | some a => exact hm.trans hlease (hm.completeNext _ none a _)

theorem keepOverflow (id size : ℕ)
    (hroom : s.overflow ≠ [] ∨ s.machine.outstandingLeases ≠ 0) : R s (s.keepOverflow id size) := by
  unfold RecvSource.keepOverflow
  cases s.buffers.pool.slot id with
  | none => exact hm.abort s
  | some src =>
    split_ifs
    · exact hm.abort s
    · obtain ⟨hmach, hover, -⟩ := s.onBuffers_frame (·.releaseSlotLease id)
      refine hm.trans (hm.release s id) (hm.push _ ?_)
      rwa [hmach, hover]

theorem acceptPayload (id size : ℕ) (more : Bool)
    (hroom : s.machine.canQueueEvent = false → s.machine.outstandingLeases ≠ 0) :
    R s (s.acceptPayload id size more).2 := by
  unfold RecvSource.acceptPayload
  generalize (if more then MultishotRequestDisposition.more else .terminal) = request
  by_cases hfull : s.directDelivery = false ∧ (s.overflow ≠ [] ∨ s.machine.canQueueEvent = false)
  · rw [if_pos hfull]
    exact hm.trans (hm.keepOverflow s id size (hfull.2.imp_right hroom)) (hm.requestBackendPause _)
  · rw [if_neg hfull]
    cases h : s.machine.completeMultishotEvent
      (if s.directDelivery then .delivered else .produced) request with
    | error e => exact hm.trans (hm.release s id) (hm.requestBackendStop _ _)
    | ok m =>
      split_ifs
      · exact hm.trans (hm.counted _ h) (hm.deliverDirect _ id size)
      · exact hm.trans (hm.counted _ h) (hm.queueEvent _ id size)

theorem finish (recorded : Bool) (error : Option Error)
    (more : Bool) :
    R s (if recorded then (match error with
        | some e => s.requestBackendStop (some e)
        | none => s)
      else (match error with
        | some e => s.requestBackendStop (some e)
        | none => s).recordRequest more) := by
  have herror : R s (match error with
      | some e => s.requestBackendStop (some e)
      | none => s) := by
    cases error with
    | none => exact hm.refl s
    | some e => exact hm.requestBackendStop s (some e)
  split_ifs
  · exact herror
  · exact hm.trans herror (hm.recordRequest _ more)

theorem handleResult {event : CompletionEvent}
    (hroom : s.machine.canQueueEvent = false → s.machine.outstandingLeases ≠ 0)
    (hacquire : ∀ b, s.validBuffer event = true →
      s.buffers.acquireBuffer event.selectedBufferId event.result.toNat = .ok b →
      R s₀ { s with buffers := b })
    (hsettle : s.validBuffer event = true → R s₀ (s.onBuffers (·.settle event.selectedBufferId)))
    (hleave : s.validBuffer event = true → event.bufferMore = true ∨ (∃ e,
      s.buffers.acquireBuffer event.selectedBufferId event.result.toNat = .error e) → R s₀ s)
    (hnone : s.validBuffer event = false → R s₀ s) : R s₀ (s.handleResult event) := by
  have hbuffer : R s₀ (s.settleBuffer event (s.validBuffer event)) := by
    unfold RecvSource.settleBuffer
    split_ifs with hc
    · exact hsettle hc.2
    · cases hv : s.validBuffer event with
      | false => exact hnone hv
      | true => exact hleave hv (.inl (by simpa [hv] using hc))
  have hpayload : R s₀ (s.onPayload event (s.validBuffer event)).2.2 := by
    unfold RecvSource.onPayload
    cases hv : s.validBuffer event with
    | false => exact hnone hv
    | true =>
      by_cases hmore : event.bufferMore = true
      · rw [if_pos (.inr hmore)]
        exact hleave hv (.inl hmore)
      · rw [if_neg (by simpa using hmore)]
        cases hb : s.buffers.acquireBuffer event.selectedBufferId event.result.toNat with
        | error e => exact hleave hv (.inr ⟨e, hb⟩)
        | ok b =>
          have hdone := hm.kernelDone { s with buffers := b } event.selectedBufferId
          refine hm.trans (hm.trans (hacquire b hv hb) hdone) (hm.acceptPayload _ _ _ _ ?_)
          rw [(onBuffers_frame ..).1]
          exact hroom
  unfold RecvSource.handleResult
  split_ifs with hpos hzero
  · exact hm.trans hpayload (hm.finish _ _ _ _)
  · refine hm.trans (hm.trans hbuffer ?_) (hm.finish _ false _ _)
    split_ifs
    · exact hm.refl _
    · exact hm.requestBackendStop _ none
  · refine hm.trans (hm.trans hbuffer ?_) (hm.finish _ false _ _)
    split_ifs
    · exact hm.requestBackendStop _ _
    · exact hm.refl _

theorem afterResult (more : Bool) : ∃ t, s.afterResult more = t.completeStopIfReady ∧ R s t := by
  have hbuf : R s (if more then s else s.onBuffers (·.markActiveSlotsKernelDone)) := by
    split_ifs
    · exact hm.refl s
    · exact hm.kernelDoneAll s
  have hpause (t : RecvSource) : R t (if t.machine.state = .active ∧
      t.machine.options.eventCapacity ≤ t.machine.queuedEvents then t.requestBackendPause
      else t) := by
    split_ifs
    · exact hm.requestBackendPause t
    · exact hm.refl t
  have hsubmit (t : RecvSource) : R t (if more = false ∧ t.machine.state = .active ∧
      t.ctl.terminalError.isNone then t.ensureSubmission else t) := by
    split_ifs
    · exact hm.ensureSubmissionWith hm.deliverNextIfReady t
    · exact hm.refl t
  exact ⟨_, rfl, hm.trans (hm.trans (hm.trans hbuf (hpause _)) (hsubmit _))
    (hm.trans (hm.deliverNextIfReady _) (hm.maybeResumeWith hm.deliverNextIfReady _))⟩

/-! ## Calls -/

theorem start (hidle : s.machine.state = .idle) : R s s.start.2 := by
  unfold RecvSource.start RecvSourceStateMachine.start
  rw [if_neg (not_not.mpr hidle)]
  have hact : R s (s.setMachine { s.machine with state := .active }) :=
    hm.move (absurd hidle ·.ne.2.2.2) le_rfl rfl rfl rfl rfl
  have hop := hm.trans hact (hm.startOperation _)
  dsimp only
  rcases h : (s.setMachine { s.machine with state := .active }).startOperation with ⟨_ | e, t⟩
  · rw [h] at hop
    exact hop
  · rw [h] at hop
    exact hm.trans hop (hm.requestBackendStop t (some e))

theorem takeOrPark (a : ℕ) : R s (match s.tryTakeNext with
    | (some r, s) => s.completeNext a r
    | (none, s) => { s with pendingNext := some a }) := by
  have htake : R s s.tryTakeNext.2 := hm.tryTakeNextWith hm.deliverNextIfReady s
  rcases h : s.tryTakeNext with ⟨_ | r, t⟩
  · rw [h] at htake
    exact hm.trans htake (hm.move id le_rfl rfl rfl rfl rfl)
  · rw [h] at htake
    exact hm.trans htake (hm.move id le_rfl rfl rfl rfl rfl)

theorem next : R s s.next := by
  have hcall : R s { s with nextCalls := s.nextCalls + 1 } := hm.move id le_rfl rfl rfl rfl rfl
  unfold RecvSource.next
  dsimp only
  split_ifs with hpend hidle
  · exact hm.trans hcall (hm.move id le_rfl rfl rfl rfl rfl)
  · have hstart := hm.start { s with nextCalls := s.nextCalls + 1 } hidle
    rcases h : ({ s with nextCalls := s.nextCalls + 1 } : RecvSource).start with ⟨_ | e, t⟩
    · rw [h] at hstart
      exact hm.trans (hm.trans hcall hstart) (hm.takeOrPark t s.nextCalls)
    · rw [h] at hstart
      exact hm.trans (hm.trans hcall hstart) (hm.move id le_rfl rfl rfl rfl rfl)
  · exact hm.trans hcall (hm.takeOrPark _ s.nextCalls)

end Moves

end RecvSource

end Alyrn.Uring
