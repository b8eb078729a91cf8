import Alyrn.Uring.RecvSource.Completion

/-!
# The entries of RecvSource

What each entry keeps, outside of a completion's own work: a receive completion, a cancel
completion, `Next()`, the release of a lease, `RequestStop()` and `Stop()`. Every entry keeps the
invariant and the payloads (`Kept`); a parked awaiter stays wakeable under the condition that the
entry's lemma names.
-/

namespace Alyrn.Uring

open Net Transition

namespace RecvSource

variable {s : RecvSource} {armed : ℕ} {lease : Lease} {options : RecvSourceOptions}

/-! ## The new source -/

theorem inv_make {state : RecvSourceStateMachine} {pool : ProvidedBufferPool}
    {options : Net.RecvSourceOptions} (hs : RecvSourceStateMachine.create options = .ok state)
    (hdepth : options.pendingDepth = 1) (hpool : pool.WellFormed) : Inv (make state pool) := by
  obtain ⟨hcons, ho, hidle, hq, ha, hl⟩ := RecvSourceStateMachine.create_ok hs
  refine ⟨⟨hcons, ?_, RingBuffer.capacity_empty _ _, hq.symm, ?_, ?_, ?_, ?_, ?_⟩,
    ⟨rfl, rfl, hpool.inUse, rfl, hpool.storage_length, hpool.slot_length⟩,
    ⟨ha, ⟨rfl, rfl⟩, fun hact => ?_, rfl⟩, ⟨?_, ?_⟩, fun _ => ⟨rfl, rfl, rfl, rfl⟩⟩
  · exact ho ▸ hdepth
  · exact hl.trans (by rw [show (make state pool).machine.queuedEvents = 0 from hq]; rfl)
  · have hused : usedSlots (make state pool).events (make state pool).leases = [] := by
      simp [make, usedSlots]
    rw [hused]
    exact SlotPool.Covers.init _ _ _
  · simp [make]
  · simp [make]
  · simp [make]
  · exact absurd (hidle.symm.trans hact) (by decide)
  · simp [make]
  · simp [make]

theorem create_eq {loop : SharedBuffers} (h : create options loop = .ok s) :
    ∃ state size capacity pool, options.valid = true ∧
      RecvSourceStateMachine.create options.source = .ok state ∧
      loop.getSharedProvidedBufferPool size capacity = .ok pool ∧ s = make state pool := by
  unfold create at h
  by_cases hv : options.valid = false
  · rw [if_pos hv] at h
    cases h
  · rw [if_neg hv] at h
    cases hm : RecvSourceStateMachine.create options.source with
    | error e =>
      rw [hm] at h
      cases h
    | ok state =>
      rw [hm] at h
      dsimp only at h
      split at h
      · cases h
      · rename_i pool hp
        split_ifs at h
        all_goals exact ⟨state, _, _, pool, by simpa using hv, rfl, hp, (Except.ok.inj h).symm⟩

theorem create_ok {loop : SharedBuffers}
    (hpool : ∀ p, loop.pool = some p → p.WellFormed) (h : create options loop = .ok s) :
    Kept s s [] ∧ s.received = [] ∧ Wakeable s := by
  obtain ⟨state, size, capacity, pool, hvalid, hstate, hp, rfl⟩ := create_eq h
  have hdepth : options.source.pendingDepth = 1 := by
    simp only [RecvSourceOptions.valid, decide_eq_true_eq] at hvalid
    exact hvalid.2.1
  have hinv := inv_make hstate hdepth
    (SharedBuffers.getSharedProvidedBufferPool_wellFormed hpool hp)
  have hidle : (make state pool).machine.state = .idle :=
    (RecvSourceStateMachine.create_ok hstate).2.2.1
  refine ⟨⟨hinv, by simp [make], rfl, ?_⟩, rfl, ⟨by simp [make], ?_, ?_, ?_⟩⟩
  · simp [flow, handed, handedOut, backlog, make]
  · simp [NoStall, hidle]
  · simp [Progress, hidle]
  · simp [Resumable, hidle]

/-! ## Completions -/

def arrived (s : RecvSource) (event : CompletionEvent) (bytes : List UInt8)
    (answers : List (Option Error)) : RecvSource :=
  ((s.kernelRecv event bytes).withAnswers answers).endRequest event.more

theorem arrived_frame (event : CompletionEvent) (bytes : List UInt8)
    (answers : List (Option Error)) :
    (s.arrived event bytes answers).machine = s.machine ∧
      (s.arrived event bytes answers).pendingNext = s.pendingNext ∧
      (s.arrived event bytes answers).flow = s.flow ∧
      (s.arrived event bytes answers).refuses = s.refuses ∧
      (s.arrived event bytes answers).bufferSize = s.bufferSize ∧
      (s.arrived event bytes answers).ctl.terminalError = s.ctl.terminalError ∧
      (s.arrived event bytes answers).received =
        (if 0 < event.result ∧ s.validBuffer event = true then s.received ++ [bytes]
          else s.received) := by
  unfold arrived endRequest
  split_ifs <;> exact ⟨rfl, rfl, rfl, rfl, rfl, rfl, by simp [withAnswers, kernelRecv, *]⟩

theorem InvWith.arrived (h : Inv s) (hin : s.ctl.inFlight = true) (event : CompletionEvent)
    (bytes : List UInt8) (answers : List (Option Error)) :
    InvWith 1 (s.arrived event bytes answers) ∧
      (s.arrived event bytes answers).ctl.submitted = event.more := by
  have hsub : s.ctl.submitted = true := h.control.inStep.1 ▸ hin
  have harmed := h.control.armed
  rw [hsub] at harmed
  have hbuf : (s.arrived event bytes answers).buffers.Idle s.bufferSize := by
    have : (s.arrived event bytes answers).buffers = (s.kernelRecv event bytes).buffers := by
      unfold RecvSource.arrived endRequest
      split_ifs <;> rfl
    rw [this, kernelRecv]
    dsimp only
    split_ifs
    · exact h.buffers.kernelFill _ _
    · exact h.buffers
  cases hmore : event.more with
  | false =>
    have heq : s.arrived event bytes answers =
        { (s.kernelRecv event bytes).withAnswers answers with
          ctl := { s.ctl with submitted := false, inFlight := false, answers } } := by
      simp [RecvSource.arrived, endRequest, hmore, RecvSource.withAnswers, kernelRecv]
    rw [heq] at hbuf ⊢
    exact ⟨⟨h.stock, hbuf, ⟨harmed, ⟨rfl, h.control.inStep.2⟩, h.control.active, h.control.alive⟩,
      h.awaiters, h.fresh⟩, rfl⟩
  | true =>
    have heq : s.arrived event bytes answers =
        { (s.kernelRecv event bytes).withAnswers answers with
          ctl := { s.ctl with inFlight := true, answers } } := by
      simp [RecvSource.arrived, endRequest, hmore, RecvSource.withAnswers, kernelRecv]
    rw [heq] at hbuf ⊢
    exact ⟨⟨h.stock, hbuf, ⟨harmed, ⟨hsub.symm, h.control.inStep.2⟩, h.control.active,
      h.control.alive⟩, h.awaiters, h.fresh⟩, hsub⟩

theorem filled_arrived (h : Inv s) {event : CompletionEvent} {bytes : List UInt8}
    (answers : List (Option Error)) (hvalid : s.validBuffer event = true)
    (hsize : bytes.length ≤ s.bufferSize) :
    (s.arrived event bytes answers).filled event.selectedBufferId bytes.length = bytes := by
  have hid : event.selectedBufferId < s.buffers.pool.storage.length := by
    simp only [validBuffer, decide_eq_true_eq] at hvalid
    rw [h.buffers.storage]
    exact hvalid.2
  have hst : (s.arrived event bytes answers).buffers.pool.storage =
      s.buffers.pool.storage.modify event.selectedBufferId fun old =>
        old.splice 0 (bytes.take s.buffers.pool.bufferSize) := by
    unfold RecvSource.arrived endRequest
    split_ifs <;> simp [withAnswers, kernelRecv, hvalid, ProvidedBufferPool.kernelFill]
  rw [filled, hst, List.getElem?_modify_eq, List.getElem?_eq_getElem hid, h.buffers.size,
    List.take_of_length_le hsize]
  simp [List.splice]

/-- **A receive completion** keeps the payloads and adds its own, unless it is refused. -/
theorem InvWith.onCompletion (h : Inv s) (hempty : s.pendingNext.isSome → s.backlog = [])
    (hin : s.ctl.inFlight = true) (event : CompletionEvent) (bytes : List UInt8)
    (answers : List (Option Error)) :
    Kept (s.arrived event bytes answers)
        (((s.kernelRecv event bytes).withAnswers answers).onCompletion event)
        (s.flow ++ if 0 < event.result ∧ s.validBuffer event = true then
          (s.arrived event bytes answers).accepted event else []) ∧
      (NoStall s → Wakeable (((s.kernelRecv event bytes).withAnswers answers).onCompletion
        event)) := by
  obtain ⟨hinv, hsub⟩ := h.arrived hin event bytes answers
  obtain ⟨hmach, hpend, hflow, -, -, herr, -⟩ := s.arrived_frame event bytes answers
  have hcap : (s.kernelRecv event bytes).buffers.pool.capacity = s.buffers.pool.capacity := by
    unfold kernelRecv
    split_ifs <;> rfl
  have hvalid : (s.arrived event bytes answers).validBuffer event = s.validBuffer event := by
    unfold RecvSource.arrived endRequest validBuffer
    rw [← hcap]
    split_ifs <;> rfl
  have hempty' : (s.arrived event bytes answers).pendingNext.isSome →
      (s.arrived event bytes answers).backlog = [] := by
    unfold RecvSource.arrived endRequest
    split_ifs <;> exact hempty
  have hh := hinv.handleResult hsub hempty'
  rw [hflow, hvalid] at hh
  obtain ⟨hk, hw⟩ := hh.afterResult (hh.submitted.trans hsub)
  refine ⟨hk, fun hs => hw fun hor => ?_⟩
  rw [hmach] at hor
  rw [herr]
  exact hs hor

def cancelDone (s : RecvSource) (e : Option Error) (answers : List (Option Error)) : RecvSource :=
  { s with
    ctl := { s.ctl with
      cancelInFlight := false, cancelSubmitted := false, terminalError := e, answers } }

theorem InvWith.cancelDone (h : Inv s) (hempty : s.pendingNext.isSome → s.backlog = [])
    (hin : s.ctl.cancelInFlight = true) (e : Option Error) (answers : List (Option Error)) :
    Kept s (s.cancelDone e answers).maybeResume.completeStopIfReady s.flow ∧
      (Wakeable s → NoStall (s.cancelDone e answers) →
        Wakeable (s.cancelDone e answers).maybeResume.completeStopIfReady) := by
  have hact : s.machine.state ≠ .active := fun ha => by
    rw [h.control.inStep.2, (h.control.active ha).1] at hin
    cases hin
  have hidle : s.machine.state ≠ .idle := fun hi => by
    rw [h.control.inStep.2, (h.fresh hi).2.1] at hin
    cases hin
  have hmid : Inv (s.cancelDone e answers) :=
    ⟨h.stock, h.buffers, ⟨h.control.armed, ⟨h.control.inStep.1, rfl⟩, fun ha => absurd ha hact,
      h.control.alive⟩, h.awaiters, fun hi => absurd hi hidle⟩
  obtain ⟨hr, hres⟩ := hmid.maybeResumeWith hempty delivers_deliverNextIfReady
  have hc := hr.inv.completeStopIfReady
  refine ⟨hc.kept (hr.kept ⟨hmid, hempty, rfl, rfl⟩), fun hw hstall => hc.wakeable ?_⟩
  exact ⟨fun hp ht => hw.live (hr.isSome hp).1 ((hr.isSome hp).2 ht), hr.stall hstall,
    hr.progress (fun ha => absurd ha hact), hres⟩

/-- **A cancel completion** with an unexpected result must not meet a pause: the error it records
would keep the source from resuming. -/
theorem InvWith.onCancelComplete (h : Inv s) (hempty : s.pendingNext.isSome → s.backlog = [])
    (hin : s.ctl.cancelInFlight = true) (result : ℤ) (answers : List (Option Error)) :
    let s' := ({ s with ctl := { s.ctl with cancelInFlight := false } }.withAnswers
      answers).onCancelComplete result
    Kept s s' s.flow ∧ (Wakeable s →
      (isExpectedCancelCqeResult result = true ∨
        s.machine.state ≠ .pausing ∧ s.machine.state ≠ .paused) → Wakeable s') := by
  unfold RecvSource.onCancelComplete
  cases hexp : isExpectedCancelCqeResult result with
  | true =>
    obtain ⟨hk, hw⟩ := h.cancelDone hempty hin s.ctl.terminalError answers
    exact ⟨hk, fun hs _ => hw hs hs.stall⟩
  | false =>
    obtain ⟨hk, hw⟩ := h.cancelDone hempty hin (s.ctl.terminalError.or (some (negErrno result)))
      answers
    refine ⟨hk, fun hs hcond => hw hs fun hor => ?_⟩
    obtain ⟨h1, h2⟩ := hcond.resolve_left (by decide)
    exact absurd hor (not_or.mpr ⟨h1, h2⟩)

/-! ## Next -/

theorem InvWith.answer (h : InvWith armed s) {a : ℕ} (ha : a < s.nextCalls)
    (hnew : ∀ p ∈ s.nexts, p.1 ≠ a) (hp : s.pendingNext ≠ some a) (r : NextResult (List UInt8)) :
    s.completeNext a r = { s with nexts := s.nexts ++ [(a, r)] } ∧
      InvWith armed { s with nexts := s.nexts ++ [(a, r)] } := by
  obtain ⟨heq, haw⟩ := h.awaiters.answer ha hnew hp r
  refine ⟨?_, h.stock, h.buffers, h.control, haw, h.fresh⟩
  rw [RecvSource.completeNext, heq]

theorem InvWith.called (h : InvWith armed s) (answers : List (Option Error)) :
    InvWith armed { s.withAnswers answers with nextCalls := s.nextCalls + 1 } := by
  exact ⟨h.stock, h.buffers, { h.control with }, h.awaiters.call, h.fresh⟩

/-- **Starting.** The first `Next()` submits the request, or stops the source with the error. -/
theorem InvWith.start (h : Inv s) (hidle : s.machine.state = .idle) :
    ∃ e s', s.start = (e, s') ∧ Inv s' ∧ s'.backlog = s.backlog ∧ s'.nexts = s.nexts ∧
      s'.received = s.received ∧ s'.nextCalls = s.nextCalls ∧ s'.pendingNext = s.pendingNext ∧
      s'.machine.state ≠ .idle ∧ NoStall s' ∧ Progress s' ∧ Resumable s' := by
  obtain ⟨-, hcancel, herr, hover⟩ := h.fresh hidle
  have hsub : s.ctl.submitted = false := by
    have harmed := h.control.armed
    rw [h.consistent.lifecycle.quiet (.inl hidle)] at harmed
    simpa using harmed.symm
  have hactive : Inv (s.setMachine { s.machine with state := .active }) :=
    InvWith.withCtl h h.consistent.activate rfl rfl rfl (by simp)
      ⟨h.control.armed, h.control.inStep, fun _ => ⟨hcancel, herr, hover⟩, h.control.alive⟩
  have hstart : s.machine.start = .ok { s.machine with state := .active } := by
    rw [RecvSourceStateMachine.start, if_neg (not_not.mpr hidle)]
  unfold RecvSource.start
  rw [hstart]
  dsimp only
  rcases startOperation_cases (s := s.setMachine { s.machine with state := .active }) hsub with
    ⟨hc, heq⟩ | ⟨hc, answers, heq⟩ | ⟨-, e, answers, heq⟩
  · rw [heq]
    exact ⟨none, _, rfl, hactive, rfl, rfl, rfl, rfl, rfl, by simp [setMachine],
      by simp [NoStall, setMachine], fun ha hs => hactive.leases_of_not_canArm ha hs hc,
      by simp [Resumable, setMachine]⟩
  · rw [heq]
    exact ⟨none, _, rfl, hactive.armedWith hc hsub answers, rfl, rfl, rfl, rfl, rfl,
      by simp [RecvSource.armedWith, setMachine],
      by simp [NoStall, RecvSource.armedWith, setMachine],
      fun _ hs => by simp [RecvSource.armedWith] at hs,
      by simp [Resumable, RecvSource.armedWith, setMachine]⟩
  · rw [heq]
    have hinv : Inv ((s.setMachine { s.machine with state := .active }).withAnswers answers) :=
      InvWith.withAnswers hactive answers
    have hstop := stopped_requestBackendStop
      (s := (s.setMachine { s.machine with state := .active }).withAnswers answers) (some e)
    exact ⟨some e, _, rfl, inv_requestBackendStop hinv (some e), rfl, rfl, rfl, rfl, rfl,
      hstop.ne.2.2.2, quiet_of_stopped hstop⟩

theorem InvWith.started (h : Inv s) (hnone : s.pendingNext = none) :
    ∃ e s', (if s.machine.state = .idle then s.start else (none, s)) = (e, s') ∧ Inv s' ∧
      s'.backlog = s.backlog ∧ s'.nexts = s.nexts ∧ s'.received = s.received ∧
      s'.nextCalls = s.nextCalls ∧ s'.pendingNext = none ∧ s'.machine.state ≠ .idle ∧
      (Wakeable s → NoStall s' ∧ Progress s' ∧ Resumable s') := by
  by_cases hidle : s.machine.state = .idle
  · obtain ⟨e, s', heq, hinv, hb, hn, hr, hc, hp, hne, hw⟩ := h.start hidle
    rw [if_pos hidle]
    exact ⟨e, s', heq, hinv, hb, hn, hr, hc, hp.trans hnone, hne, fun _ => hw⟩
  · rw [if_neg hidle]
    exact ⟨none, s, rfl, h, rfl, rfl, rfl, rfl, hnone, hidle,
      fun hw => ⟨hw.stall, hw.progress, hw.resumable⟩⟩

theorem flow_answer {a : ℕ} {r : NextResult (List UInt8)} (hr : r.events = []) :
    flow { s with nexts := s.nexts ++ [(a, r)] } = s.flow :=
  congrArg (· ++ s.backlog) (handed_answer s.pendingNext hr)

theorem InvWith.takeOrPark (h : Inv s) (hp : s.pendingNext = none) (hidle : s.machine.state ≠ .idle)
    {a : ℕ} (hlt : a < s.nextCalls) (hnew : ∀ p ∈ s.nexts, p.1 < a) :
    let s' := match s.tryTakeNext with
      | (some r, s) => s.completeNext a r
      | (none, s) => { s with pendingNext := some a }
    Kept s s' s.flow ∧ (NoStall s → Progress s → Resumable s → Wakeable s') := by
  have hne : ∀ p ∈ s.nexts, p.1 ≠ a := fun p hmem => Nat.ne_of_lt (hnew p hmem)
  by_cases hb : s.backlog = []
  · rw [tryTakeNext, tryTakeNextWith_empty _ hb]
    by_cases ht : s.machine.state = .terminal
    · -- the end of the stream
      rw [if_pos ht]
      obtain ⟨heq, hinv⟩ := InvWith.answer h hlt hne (by rw [hp]; simp) s.terminalResult
      dsimp only
      rw [heq]
      refine ⟨⟨hinv, fun hs => ?_, rfl, flow_answer terminalResult_events⟩,
        fun h1 h2 h3 => ⟨fun hs => ?_, h1, h2, h3⟩⟩ <;> simp [hp] at hs
    · -- park
      rw [if_neg ht]
      have haw : Awaiters s.nexts s.nextCalls none := hp ▸ h.awaiters
      exact ⟨⟨{ h with awaiters := haw.park hlt hne, fresh := fun hi => absurd hi hidle },
        fun _ => hb, rfl, rfl⟩, fun h1 h2 h3 => ⟨fun _ => ht, h1, h2, h3⟩⟩
  · -- a payload waits
    have hcalm : Calm s := fun hs => by simp [hp] at hs
    obtain ⟨bytes, t, heq, htook, hres⟩ := h.tryTakeNextWith_cons hcalm hb
      delivers_deliverNextIfReady
    have hp' : t.pendingNext = none := htook.pendingNext.trans hp
    obtain ⟨heq', hinv⟩ := InvWith.answer htook.inv (htook.nextCalls ▸ hlt) (htook.nexts ▸ hne)
      (by rw [hp']; simp) (.event bytes)
    rw [tryTakeNext, heq]
    dsimp only
    rw [heq']
    refine ⟨⟨hinv, fun hs => ?_, htook.received, ?_⟩,
      fun h1 h2 _ => ⟨fun hs => ?_, htook.stall h1, htook.progress h2, hres⟩⟩
    · simp [hp'] at hs
    · have hhanded : handed { t with nexts := t.nexts ++ [(a, .event bytes)] } =
          s.handed ++ [bytes] := by
        simp [handed, htook.nexts, NextResult.events]
      rw [flow, flow, hhanded, htook.backlog, List.append_assoc]
      rfl
    · simp [hp'] at hs

/-- **Next** takes the first payload, reports the end, or parks in a source that is live. -/
theorem InvWith.next (h : Inv s) (hempty : s.pendingNext.isSome → s.backlog = [])
    (answers : List (Option Error)) :
    Kept s (s.withAnswers answers).next s.flow ∧
      (Wakeable s → Wakeable (s.withAnswers answers).next) := by
  have hnew : ∀ p ∈ s.nexts, p.1 ≠ s.nextCalls := fun p hp =>
    Nat.ne_of_lt (h.awaiters.past p hp).1
  have hcalled : Inv { s.withAnswers answers with nextCalls := s.nextCalls + 1 } :=
    InvWith.called h answers
  unfold RecvSource.next
  cases hpend : s.pendingNext with
  | some a =>
    -- the source is busy
    have hlt := h.awaiters.parked a hpend
    obtain ⟨heq, hinv⟩ := InvWith.answer hcalled (Nat.lt_succ_self s.nextCalls) hnew
      (by show s.pendingNext ≠ _; rw [hpend]; simp; omega) (.error EBUSY)
    rw [if_pos (by show s.pendingNext.isSome = true; rw [hpend]; rfl)]
    simp only [RecvSource.withAnswers] at heq hinv ⊢
    rw [heq]
    exact ⟨⟨hinv, hempty, rfl, flow_answer rfl⟩,
      fun hw => { hw with }⟩
  | none =>
    rw [if_neg (by show ¬ s.pendingNext.isSome = true; rw [hpend]; simp)]
    obtain ⟨e, t, heq, hinv, hb, hn, hr, hc, hp, hidle, hw⟩ := InvWith.started hcalled hpend
    have hlt : s.nextCalls < t.nextCalls := by rw [hc]; exact Nat.lt_succ_self _
    have hnew' : ∀ p ∈ t.nexts, p.1 < s.nextCalls := by
      rw [hn]
      exact fun p hmem => (h.awaiters.past p hmem).1
    have hwake : Wakeable s → NoStall t ∧ Progress t ∧ Resumable t := fun hs =>
      hw { hs with }
    have hflow : t.flow = s.flow := by
      rw [flow, handed, hn, hb]
      rfl
    simp only [RecvSource.withAnswers] at heq ⊢
    rw [heq]
    cases e with
    | some e =>
      obtain ⟨heq', hinv'⟩ := InvWith.answer hinv hlt
        (fun p hmem => Nat.ne_of_lt (hnew' p hmem)) (by rw [hp]; simp) (.error e)
      dsimp only
      rw [heq']
      refine ⟨⟨hinv', fun hs => ?_, hr, (flow_answer rfl).trans hflow⟩,
        fun hs => ⟨fun hs => ?_, (hwake hs).1, (hwake hs).2.1, (hwake hs).2.2⟩⟩ <;>
        simp [hp] at hs
    | none =>
      obtain ⟨hk, hw'⟩ := hinv.takeOrPark hp hidle hlt hnew'
      exact ⟨⟨hk.inv, hk.empty, hk.received.trans hr, hk.flow.trans hflow⟩,
        fun hs => hw' (hwake hs).1 (hwake hs).2.1 (hwake hs).2.2⟩

/-! ## Leases -/

def released (s : RecvSource) (i copySlot : ℕ) (answers : List (Option Error)) : RecvSource :=
  { s with
    leases := s.leases.eraseIdx i
    copyFree := copySlot :: s.copyFree
    ctl := { s.ctl with
      state := { s.machine with
        outstandingLeases := s.machine.outstandingLeases - 1 }.reconcileStopping
      answers } }

theorem InvWith.released_state (h : InvWith armed s) (i copySlot : ℕ)
    (answers : List (Option Error)) :
    (s.released i copySlot answers).machine.state = s.machine.state ∨
      s.machine.state = .draining ∧
        (s.released i copySlot answers).machine.state = .terminal :=
  h.consistent.reconcile_state s.machine.queuedEvents (s.machine.outstandingLeases - 1)

theorem InvWith.released (h : Inv s) {i : ℕ} (hi : s.leases[i]? = some lease)
    (answers : List (Option Error)) :
    s.machine.releaseLease = some (s.released i lease.copySlot answers).machine ∧
      Inv (s.released i lease.copySlot answers) := by
  have hl : s.machine.outstandingLeases ≠ 0 := by
    obtain ⟨hlt, -⟩ := List.getElem?_eq_some_iff.mp hi
    rw [h.stock.leased]
    omega
  have hrel := RecvSourceStateMachine.releaseLease_eq hl
  have hsame : ∀ st, st ≠ .terminal →
      (s.released i lease.copySlot answers).machine.state = st → s.machine.state = st := by
    intro st hst heq
    rcases h.released_state i lease.copySlot answers with hs | ⟨-, hs⟩
    · exact hs ▸ heq
    · exact absurd (heq.symm.trans hs) hst
  refine ⟨hrel, h.stock.release (h.consistent.releaseLease hrel) rfl rfl rfl hi, h.buffers,
    ⟨h.control.armed, h.control.inStep, fun ha => ?_, h.control.alive⟩, h.awaiters, fun hs => ?_⟩
  · exact h.control.active (hsame _ (by decide) ha)
  · exact h.fresh (hsame _ (by decide) hs)

theorem InvWith.released_live (h : Inv s) {i : ℕ}
    (hi : s.leases[i]? = some lease) (answers : List (Option Error))
    (hlive : s.pendingNext.isSome → s.machine.state ≠ .terminal)
    (hcond : ¬ (s.machine.state = .draining ∧ s.pendingNext.isSome ∧
      s.machine.outstandingLeases = 1)) (hp : s.pendingNext.isSome) :
    (s.released i lease.copySlot answers).machine.state ≠ .terminal := by
  intro hterm
  rcases h.released_state i lease.copySlot answers with hs | ⟨hd, -⟩
  · exact hlive hp (hs ▸ hterm)
  · have hzero : s.machine.outstandingLeases - 1 = 0 :=
      (h.released hi answers).2.leases_eq_zero hterm
    obtain ⟨hlt, -⟩ := List.getElem?_eq_some_iff.mp hi
    have := h.stock.leased
    exact hcond ⟨hd, hp, by omega⟩

/-- **Releasing a lease** must not be what ends a draining source while somebody is parked. -/
theorem InvWith.returnQueuedPayload (h : Inv s) (hempty : s.pendingNext.isSome → s.backlog = [])
    {i : ℕ} (hi : s.leases[i]? = some lease) (answers : List (Option Error)) :
    let s' := (s.withAnswers answers).returnQueuedPayload i lease.copySlot
    Kept s s' s.flow ∧ (Wakeable s →
      ¬ (s.machine.state = .draining ∧ s.pendingNext.isSome ∧ s.machine.outstandingLeases = 1) →
      Wakeable s') := by
  obtain ⟨hrel, hinv⟩ := h.released hi answers
  have hstate := h.released_state i lease.copySlot answers
  have hlive := fun hw : Wakeable s => h.released_live hi answers hw.live
  have hkept : Kept s (s.released i lease.copySlot answers) s.flow := ⟨hinv, hempty, rfl, rfl⟩
  have heq : (s.withAnswers answers).returnQueuedPayload i lease.copySlot =
      if (s.released i lease.copySlot answers).machine.state = .active ∧
        s.ctl.submitted = true ∧ s.pendingStop.isNone then s.released i lease.copySlot answers
      else (s.released i lease.copySlot answers).ensureSubmission.completeStopIfReady := by
    rw [RecvSource.returnQueuedPayload]
    have hrel' : (s.withAnswers answers).machine.releaseLease =
        some (s.released i lease.copySlot answers).machine := hrel
    rw [hrel']
    rfl
  rw [heq]
  split_ifs with hfast
  · refine ⟨hkept, fun hw hcond => ⟨fun hp => hlive hw hcond hp, fun hor => ?_, fun _ hs => ?_,
      fun hp => ?_⟩⟩
    · simp [hfast.1] at hor
    · exact absurd (hs.symm.trans hfast.2.1) (by decide)
    · simp [hfast.1] at hp
  · obtain ⟨hr, hprog⟩ := hinv.ensureSubmissionWith hempty delivers_deliverNextIfReady
    have hc := hr.inv.completeStopIfReady
    refine ⟨hc.kept (hr.kept hkept), fun hw hcond => hc.wakeable ⟨fun hp ht => ?_,
      hr.stall fun hor => ?_, hprog, hr.resumable fun hp => ?_⟩⟩
    · exact hlive hw hcond (hr.isSome hp).1 ((hr.isSome hp).2 ht)
    · rcases hstate with hs | ⟨-, hs⟩
      · exact hw.stall (hs ▸ hor)
      · simp [hs] at hor
    · rcases hstate with hs | ⟨-, hs⟩
      · exact hw.resumable (hs ▸ hp)
      · simp [hs] at hp

/-! ## Stopping -/

theorem beginStop_eq : ∃ ctl, s.beginStop.2 = { s with ctl } ∧ ctl.state = s.machine.requestStop ∧
    ctl.submitted = s.ctl.submitted ∧ ctl.aborted = s.ctl.aborted ∧
    ctl.terminalError = s.ctl.terminalError ∧ (s.ctl.InStep → ctl.InStep) := by
  unfold beginStop
  dsimp only
  have hf := SourceControl.startCancel_frame (c := (s.setMachine s.machine.requestStop).ctl)
  have hs : s.ctl.InStep → (s.setMachine s.machine.requestStop).ctl.startCancel.2.InStep :=
    fun h => SourceControl.InStep.startCancel (c := (s.setMachine s.machine.requestStop).ctl) h
  split_ifs
  · rcases hsc : (s.setMachine s.machine.requestStop).ctl.startCancel with ⟨_ | e, ctl⟩ <;>
      rw [hsc] at hf hs <;>
      exact ⟨ctl, rfl, hf.1, hf.2.1, hf.2.2.2.2, hf.2.2.2.1, hs⟩
  · exact ⟨_, rfl, rfl, rfl, rfl, rfl, id⟩

theorem Wakeable.paused (hw : Wakeable s) (h : Inv s) (hp : s.pendingNext.isSome)
    (hsub : s.ctl.submitted = false) (hl : s.machine.outstandingLeases = 0) :
    s.machine.state = .paused := by
  have harmed := h.control.armed
  rw [hsub] at harmed
  have hlife := h.consistent.lifecycle
  have hdrained : s.machine.drained = true := by
    have := h.stock.leased
    exact RecvSourceStateMachine.drained_iff.mpr ⟨by omega, hl⟩
  cases hst : s.machine.state with
  | paused => rfl
  | idle => simp [(h.fresh hst).1] at hp
  | active => exact absurd hl (hw.progress hst hsub)
  | pausing => exact absurd harmed (hlife.waiting (.inl hst))
  | stopping => exact absurd harmed (hlife.waiting (.inr hst))
  | draining => simp [hlife.draining hst] at hdrained
  | terminal => exact absurd hst (hw.live hp)

/-- **Stopping** must not end a paused source while somebody is parked. -/
theorem InvWith.beginStop (h : Inv s) (hempty : s.pendingNext.isSome → s.backlog = []) :
    Kept s s.beginStop.2 s.flow ∧ (Wakeable s →
      ¬ (s.pendingNext.isSome ∧ s.machine.state = .paused ∧ s.machine.outstandingLeases = 0) →
      Wakeable s.beginStop.2) := by
  obtain ⟨ctl, heq, hst, hsub, halive, herr, hstep⟩ := beginStop_eq (s := s)
  have hinv : Inv { s with ctl } := by
    rw [Inv, show ({ s with ctl } : RecvSource).ctl.submitted = s.ctl.submitted from hsub]
    exact InvWith.stopped h hst (hstep h.control.inStep) halive
  have hmach : ({ s with ctl } : RecvSource).machine = s.machine.requestStop := hst
  have hstop : ({ s with ctl } : RecvSource).machine.state.Stopped :=
    hmach ▸ SourceState.stopped_requestStop
  obtain ⟨hstall, hprog, hres⟩ := quiet_of_stopped hstop
  rw [heq]
  refine ⟨⟨hinv, hempty, rfl, rfl⟩, fun hw hcond => ⟨fun hp ht => ?_, hstall, hprog, hres⟩⟩
  -- nothing is armed and nothing is held: only a paused source gets here
  rw [hmach, h.stopped_state] at ht
  split_ifs at ht with hsub' hdrained
  have hl := (RecvSourceStateMachine.drained_iff.mp hdrained).2
  exact hcond ⟨hp, hw.paused h hp (by simpa using hsub') hl, hl⟩

theorem InvWith.requestStop (h : Inv s) (hempty : s.pendingNext.isSome → s.backlog = [])
    (answers : List (Option Error)) :
    Kept s (s.withAnswers answers).requestStop s.flow ∧ (Wakeable s →
      ¬ (s.pendingNext.isSome ∧ s.machine.state = .paused ∧ s.machine.outstandingLeases = 0) →
      Wakeable (s.withAnswers answers).requestStop) := by
  have hinv : Inv (s.withAnswers answers) := InvWith.withAnswers h answers
  obtain ⟨hk, hw⟩ := hinv.beginStop hempty
  exact ⟨{ hk with },
    fun hs => hw { hs with }⟩

theorem Kept.withStops {s₀ : RecvSource} {f : List (List UInt8)} (h : Kept s₀ s f)
    (pendingStop : Option ℕ) (stopCalls : ℕ) (stops : List (ℕ × Except Error Unit)) :
    Kept s₀ { s with pendingStop, stopCalls, stops } f :=
  { h with inv := { h.inv with } }

theorem Wakeable.withStops (h : Wakeable s) (pendingStop : Option ℕ) (stopCalls : ℕ)
    (stops : List (ℕ × Except Error Unit)) :
    Wakeable { s with pendingStop, stopCalls, stops } :=
  { h with }

theorem completeStop_eq (a : ℕ) (r : Except Error Unit) :
    ∃ stops, s.completeStop a r = { s with stops } := by
  exact ⟨_, rfl⟩

theorem stop_eq : ∃ pendingStop stopCalls stops, s.stop = { s with pendingStop, stopCalls, stops } ∨
    s.stop = { s.beginStop.2 with pendingStop, stopCalls, stops } := by
  have hbegin : ∀ p n, ({ s with pendingStop := p, stopCalls := n } : RecvSource).beginStop =
      (s.beginStop.1, { s.beginStop.2 with pendingStop := p, stopCalls := n }) := by
    intro p n
    unfold beginStop
    dsimp only [setMachine]
    split_ifs
    · rcases hsc : ({ s.ctl with state := s.machine.requestStop } :
        SourceControl RecvSourceStateMachine).startCancel with ⟨_ | e, ctl⟩ <;> rfl
    · rfl
  unfold RecvSource.stop
  dsimp only
  split_ifs
  · obtain ⟨stops, hs⟩ := completeStop_eq (s := { s with stopCalls := s.stopCalls + 1 })
      s.stopCalls (.error EBUSY)
    exact ⟨s.pendingStop, s.stopCalls + 1, stops, .inl hs⟩
  · obtain ⟨stops, hs⟩ := completeStop_eq (s := { s with stopCalls := s.stopCalls + 1 })
      s.stopCalls (.ok ())
    exact ⟨s.pendingStop, s.stopCalls + 1, stops, .inl hs⟩
  · rw [hbegin]
    rcases s.beginStop with ⟨e | _ | _, t⟩
    · obtain ⟨stops, hs⟩ := completeStop_eq
        (s := { t with pendingStop := none, stopCalls := s.stopCalls + 1 }) s.stopCalls (.error e)
      exact ⟨none, s.stopCalls + 1, stops, .inr hs⟩
    · obtain ⟨stops, hs⟩ := completeStop_eq
        (s := { t with pendingStop := none, stopCalls := s.stopCalls + 1 }) s.stopCalls (.ok ())
      exact ⟨none, s.stopCalls + 1, stops, .inr hs⟩
    · exact ⟨some s.stopCalls, s.stopCalls + 1, t.stops, .inr rfl⟩

theorem InvWith.stop (h : Inv s) (hempty : s.pendingNext.isSome → s.backlog = [])
    (answers : List (Option Error)) :
    Kept s (s.withAnswers answers).stop s.flow ∧ (Wakeable s →
      ¬ (s.pendingNext.isSome ∧ s.machine.state = .paused ∧ s.machine.outstandingLeases = 0) →
      Wakeable (s.withAnswers answers).stop) := by
  obtain ⟨hk, hw⟩ := h.requestStop hempty answers
  obtain ⟨pendingStop, stopCalls, stops, heq | heq⟩ := stop_eq (s := s.withAnswers answers)
  · have hk' : Kept s (s.withAnswers answers) s.flow :=
      ⟨InvWith.withAnswers h answers, hempty, rfl, rfl⟩
    rw [heq]
    exact ⟨hk'.withStops _ _ _, fun hs _ =>
      Wakeable.withStops (s := s.withAnswers answers) { hs with }
        _ _ _⟩
  · rw [heq]
    exact ⟨hk.withStops _ _ _, fun hs hcond => (hw hs hcond).withStops _ _ _⟩

end RecvSource

end Alyrn.Uring
