import Alyrn.Uring.RecvSource.Delivery

/-!
# Receive completions of RecvSource

A receive completion is taken through its stages. `Ready` holds while its request is still armed,
`Handled` once the machine has recorded it; the payload of a positive result goes straight to the
parked awaiter, into the queue or to the overflow list (`InvWith.acceptPayload`). `afterResult` then
leaves the source with a request or with a reason not to have one.
-/

namespace Alyrn.Uring

open Net Transition

namespace RecvSource

variable {s s' : RecvSource} {more : Bool} {armed : ℕ}

theorem InvWith.counted (h : InvWith 1 s) (more : Bool) (event : EventDisposition)
    (ha : s.machine.admits event) :
    ∃ m, s.machine.completeMultishotEvent event (if more then .more else .terminal) = .ok m ∧
      m.Consistent ∧ m.armedRequests = more.toNat ∧ m.options = s.machine.options ∧
      m.queuedEvents = s.machine.queuedEvents + queuedBy event ∧
      m.outstandingLeases = s.machine.outstandingLeases + RecvSourceStateMachine.leasedBy event ∧
      (m.state = .active → s.machine.state = .active) ∧
      (m.state = .pausing ∨ m.state = .paused →
        s.machine.state = .pausing ∨ s.machine.state = .paused) ∧
      (m.state = .idle → s.machine.state = .idle) := by
  have hok := RecvSourceStateMachine.completeMultishotEvent_of_admits
    (if more then .more else .terminal) ha
  have harmed := h.control.armed
  refine ⟨_, hok, h.consistent.completeMultishotEvent hok, ?_, rfl, rfl, rfl,
    SourceState.reconcileStopping_origin.1, SourceState.reconcileStopping_origin.2.1,
    SourceState.reconcileStopping_origin.2.2⟩
  cases more <;> simp [RecvSourceStateMachine.counted, RecvSourceStateMachine.reconcileStopping,
    endedBy, harmed]

theorem InvWith.admits_none (h : InvWith 1 s) : s.machine.admits .none :=
  ⟨by rw [h.control.armed]; decide, by simp, by simp⟩

/-- Half way through a completion of `s₀`: the request is still armed, and `flow` are the
payloads so far. -/
structure Ready (more : Bool) (s₀ s : RecvSource) (flow : List (List UInt8)) : Prop where
  inv : InvWith 1 s
  submitted : s.ctl.submitted = more
  nextCalls : s.nextCalls = s₀.nextCalls
  received : s.received = s₀.received
  pendingNext : s.pendingNext = s₀.pendingNext
  flow : s.flow = flow
  calm : Calm s
  direct : s.pendingNext.isSome → s.machine.state = .active → s.backlog = []
  stall : NoStall s₀ → NoStall s

/-- What the handling of a completion leaves behind. -/
structure Handled (s₀ s : RecvSource) (flow : List (List UInt8)) : Prop where
  inv : Inv s
  submitted : s.ctl.submitted = s₀.ctl.submitted
  nextCalls : s.nextCalls = s₀.nextCalls
  received : s.received = s₀.received
  pendingNext : s.pendingNext = s₀.pendingNext ∨ s.pendingNext = none
  flow : s.flow = flow
  calm : Calm s
  direct : s.pendingNext.isSome → s.machine.state = .active → s.backlog = []
  stall : NoStall s₀ → NoStall s

variable {s₀ : RecvSource} {f : List (List UInt8)}

theorem Ready.start (h : InvWith 1 s) (hsub : s.ctl.submitted = more)
    (hempty : s.pendingNext.isSome → s.backlog = []) : Ready more s s s.flow :=
  ⟨h, hsub, rfl, rfl, rfl, rfl, fun hp => by simp [hempty hp], fun hp _ => hempty hp, id⟩

section

variable (h : Ready more s₀ s f)
include h

theorem Ready.stop (e : Option Error) : Ready more s₀ (s.requestBackendStop e) f := by
  have hstop := stopped_requestBackendStop (s := s) e
  refine ⟨h.inv.requestBackendStop e, ?_, h.nextCalls, h.received, h.pendingNext, h.flow,
    fun hp => ⟨(h.calm hp).1, fun hb => ?_⟩, fun _ ha => absurd ha hstop.ne.1,
    fun _ => (quiet_of_stopped hstop).1⟩
  · exact SourceControl.requestBackendStop_submitted.trans h.submitted
  · rw [requestBackendStop_machine]
    exact (h.calm hp).2 hb

theorem Ready.withBuffers {b : BufferSlots} (hb : b.Idle s.bufferSize) :
    Ready more s₀ { s with buffers := b } f :=
  { h with inv := ⟨h.inv.stock, hb, h.inv.control, h.inv.awaiters, h.inv.fresh⟩ }

theorem Ready.record (hsub : s₀.ctl.submitted = more) : Handled s₀ (s.recordRequest more) f := by
  obtain ⟨m, hok, hcons, harmed, ho, hq, hl, hact, hpause, hidle⟩ := h.inv.counted more .none
    h.inv.admits_none
  have heq : s.recordRequest more = s.setMachine m := by
    rw [RecvSource.recordRequest, hok]
  rw [heq]
  refine ⟨?_, h.submitted.trans hsub.symm, h.nextCalls, h.received, .inl h.pendingNext, h.flow,
    fun hp => ⟨(h.calm hp).1, fun hb => ?_⟩, fun hp ha => h.direct hp (hact ha),
    fun hs hor => h.stall hs (hpause hor)⟩
  · refine InvWith.withCtl h.inv hcons ho (by simpa using hq) (by simpa using hl)
      (fun hi => h.inv.ne_idle (hidle hi))
      ⟨?_, h.inv.control.inStep, fun ha => h.inv.control.active (hact ha), h.inv.control.alive⟩
    rw [harmed, ← h.submitted]
    rfl
  · have hne := (h.calm hp).2 hb
    show m.outstandingLeases ≠ 0
    rw [hl]
    simpa using hne

theorem Ready.finish (hsub : s₀.ctl.submitted = more) (error : Option Error) :
    Handled s₀ ((match error with
      | some e => s.requestBackendStop (some e)
      | none => s).recordRequest more) f := by
  cases error with
  | none => exact h.record hsub
  | some e => exact (h.stop (some e)).record hsub

end

variable {event : CompletionEvent} {valid : Bool}

theorem Ready.settleBuffer (h : Ready more s₀ s f)
    (hvalid : valid = true → event.selectedBufferId < s.buffers.pool.capacity) :
    Ready more s₀ (s.settleBuffer event valid) f := by
  unfold RecvSource.settleBuffer
  split_ifs with hc
  · rw [onBuffers, h.inv.buffers.settle (hvalid hc.2)]
    exact h.withBuffers (h.inv.buffers.returned _)
  · exact h

theorem Ready.onEmpty (h : Ready more s₀ s f)
    (hvalid : valid = true → event.selectedBufferId < s.buffers.pool.capacity) :
    Ready more s₀ (s.onEmpty event valid).2 f := by
  have hset := h.settleBuffer hvalid
  unfold RecvSource.onEmpty
  dsimp only
  split_ifs
  · exact hset
  · exact hset.stop none

theorem Ready.onFailure (h : Ready more s₀ s f)
    (hvalid : valid = true → event.selectedBufferId < s.buffers.pool.capacity) :
    Ready more s₀ (s.onFailure event valid).2 f := by
  have hset := h.settleBuffer hvalid
  unfold RecvSource.onFailure
  dsimp only
  split_ifs
  · exact hset.stop _
  · exact hset

/-! ## Payloads -/

def lent (s : RecvSource) (id : ℕ) : RecvSource := { s with buffers := s.buffers.lent id 1 true }

def returned (s : RecvSource) (id : ℕ) : RecvSource := { s with buffers := s.buffers.returned id }

def filled (s : RecvSource) (id size : ℕ) : List UInt8 :=
  ((s.buffers.pool.storage[id]?).getD []).take size

section

variable {id size : ℕ}

section

variable (h : InvWith armed s)
include h

section

variable (hid : id < s.buffers.pool.capacity)
include hid

theorem lent_release {t : RecvSource} (ht : t.buffers = s.buffers.lent id 1 true) :
    t.onBuffers (·.releaseSlotLease id) = { t with buffers := s.buffers.returned id } := by
  rw [onBuffers, ht, h.buffers.releaseSlotLease hid]

theorem lent_slot (size : ℕ) :
    ∃ src, (s.lent id).buffers.pool.slot id = some src ∧ src.length = s.bufferSize ∧
      src.take size = s.filled id size := by
  have hlt : id < s.buffers.pool.storage.length := by rw [h.buffers.storage]; exact hid
  refine ⟨s.buffers.pool.storage[id], ?_, h.buffers.slotSize _ (List.getElem_mem hlt), ?_⟩
  · rw [ProvidedBufferPool.slot, if_pos (by exact hid)]
    exact List.getElem?_eq_getElem hlt
  · simp [filled, hlt]

theorem length_filled (hsize : size ≤ s.bufferSize) : (s.filled id size).length = size := by
  obtain ⟨src, -, hlen, htake⟩ := lent_slot h hid size
  rw [← htake, List.length_take, hlen]
  omega

theorem copyAndReleasePoolSlot_eq (hsize : size ≤ s.bufferSize) {slot : ℕ} {copyFree : List ℕ}
    (hfree : s.copyFree = slot :: copyFree) (m : RecvSourceStateMachine) :
    ((s.lent id).setMachine m).copyAndReleasePoolSlot id size =
      (slot, { (s.returned id).setMachine m with
        copyFree
        queuedPayloads := s.queuedPayloads.splice (slot * s.bufferSize) (s.filled id size) }) := by
  obtain ⟨src, hslot, -, htake⟩ := lent_slot h hid size
  have hfree' : ((s.lent id).setMachine m).copyFree = slot :: copyFree := hfree
  have hslot' : ((s.lent id).setMachine m).buffers.pool.slot id = some src := hslot
  have hle : ¬ ((s.lent id).setMachine m).bufferSize < size := Nat.not_lt.mpr hsize
  rw [copyAndReleasePoolSlot, hfree', hslot']
  dsimp only
  rw [if_neg hle, htake, lent_release h hid rfl]
  rfl

end

theorem InvWith.map_payload {slot : ℕ} {copyFree : List ℕ}
    (hfree : s.copyFree = slot :: copyFree) {bytes : List UInt8}
    (hb : bytes.length ≤ s.bufferSize) :
    s.events.toList.map (fun e => (s.queuedPayloads.splice (slot * s.bufferSize) bytes).slice
        (e.copySlot * s.bufferSize) e.size) =
      s.events.toList.map fun e => s.payload e.copySlot e.size := by
  have hstock := h.stock
  rw [hfree] at hstock
  refine List.map_congr_left fun e he => ?_
  exact hstock.slots.slice_splice_used hb (h.stock.eventSize e he) (Stock.mem_used_event he)

end

theorem InvWith.queueEvent (h : InvWith 1 s) (hsub : s.ctl.submitted = more)
    (hempty : s.pendingNext.isSome → s.backlog = []) (hid : id < s.buffers.pool.capacity)
    (hsize : size ≤ s.bufferSize) (hdirect : s.directDelivery = false) (hover : s.overflow = [])
    (hroom : s.machine.canQueueEvent = true) :
    ∃ m, s.machine.completeMultishotEvent .produced (if more then .more else .terminal) = .ok m ∧
      Handled s (((s.lent id).setMachine m).queueEvent id size)
        (s.flow ++ [s.filled id size]) := by
  obtain ⟨m, hok, hcons, harmed, ho, hq, hl, hact, hpause, hidle⟩ := h.counted more .produced
    ⟨by rw [h.control.armed]; decide, fun _ => hroom, by simp⟩
  have hcap : s.machine.queuedEvents < s.machine.options.eventCapacity ∧
      s.machine.outstandingLeases < s.machine.options.bufferCapacity := by
    simpa [RecvSourceStateMachine.canQueueEvent] using hroom
  obtain ⟨slot, copyFree, hfree⟩ := List.exists_cons_of_ne_nil (h.stock.free_ne_nil hcap.2)
  have hlen := length_filled h hid hsize
  have hle : (s.filled id size).length ≤ s.bufferSize := by omega
  have hstock := h.stock
  rw [hfree] at hstock
  cases hpush : s.events.push? { copySlot := slot, size } with
  | none =>
    have := RingBuffer.push?_eq_none.mp hpush
    rw [h.stock.capacity, h.stock.queued] at this
    omega
  | some events =>
    have heq : ((s.lent id).setMachine m).queueEvent id size =
        { (s.returned id).setMachine m with
          copyFree, events
          queuedPayloads :=
            s.queuedPayloads.splice (slot * s.bufferSize) (s.filled id size) } := by
      rw [RecvSource.queueEvent, copyAndReleasePoolSlot_eq h hid hsize hfree m]
      dsimp only
      have hpush' : ((s.returned id).setMachine m).events.push? { copySlot := slot, size } =
          some events := hpush
      rw [hpush']
    obtain ⟨hlist, -⟩ := RingBuffer.toList_push hpush
    have hback : (((s.lent id).setMachine m).queueEvent id size).backlog =
        s.backlog ++ [s.filled id size] := by
      rw [heq]
      simp only [backlog, payload, hlist, List.map_append, List.map_cons, List.map_nil]
      have hold := h.map_payload hfree hle
      have hnew := hstock.slots.slice_splice (s.filled id size)
      rw [hlen] at hnew
      simp only [returned, setMachine, hover, List.append_nil, payload] at hold ⊢
      rw [hold, hnew]
    refine ⟨m, hok, ?_⟩
    have hcalm : (((s.lent id).setMachine m).queueEvent id size).pendingNext.isSome →
        s.backlog = [] := by
      rw [heq]
      exact hempty
    refine ⟨?_, ?_, ?_, ?_, .inl ?_, ?_, fun hp => ⟨?_, fun _ => ?_⟩, fun hp ha => ?_, ?_⟩
    · rw [heq]
      refine ⟨hstock.queue hcons ho hq hl hsize hle hpush,
        h.buffers.returned id, ⟨?_, h.control.inStep, fun ha => ?_, h.control.alive⟩, h.awaiters,
        fun hi => absurd (hidle hi) h.ne_idle⟩
      · rw [← hsub] at harmed
        exact harmed
      · exact h.control.active (hact ha)
    · rw [heq]; rfl
    · rw [heq]; rfl
    · rw [heq]; rfl
    · rw [heq]; rfl
    · rw [flow, hback, ← List.append_assoc]
      have : (((s.lent id).setMachine m).queueEvent id size).handed = s.handed := by rw [heq]; rfl
      rw [this]
      rfl
    · rw [hback, hcalm hp]
      simp
    · rw [heq]
      show m.outstandingLeases ≠ 0
      rw [hl]
      simp
    · -- a parked awaiter of an active source would have been served directly
      rw [heq] at hp ha
      have hb := backlog_eq_nil.mp (hempty hp)
      have hc : s.events.count = 0 := RingBuffer.toList_eq_nil.mp hb.1
      have : s.directDelivery = true := by
        simp only [directDelivery, decide_eq_true_eq]
        exact ⟨hp, hc, hb.2, hact ha⟩
      rw [hdirect] at this
      exact absurd this (by decide)
    · rw [heq]
      exact fun hs hor => hs (hpause hor)

theorem directDelivery_iff : s.directDelivery = true ↔ s.pendingNext.isSome ∧ s.backlog = [] ∧
    s.machine.state = .active := by
  simp only [directDelivery, decide_eq_true_eq, backlog_eq_nil, RingBuffer.toList_eq_nil, and_assoc]

theorem InvWith.deliverDirect (h : InvWith 1 s) (hsub : s.ctl.submitted = more)
    (hid : id < s.buffers.pool.capacity) (hsize : size ≤ s.bufferSize)
    (hdirect : s.directDelivery = true) (hroom : s.machine.canDeliverEvent = true) :
    ∃ m, s.machine.completeMultishotEvent .delivered (if more then .more else .terminal) = .ok m ∧
      Handled s (((s.lent id).setMachine m).deliverDirect id size)
        (s.flow ++ [s.filled id size]) := by
  obtain ⟨hparked, hback, -⟩ := directDelivery_iff.mp hdirect
  obtain ⟨a, ha⟩ := Option.isSome_iff_exists.mp hparked
  obtain ⟨m, hok, hcons, harmed, ho, hq, hl, hact, hpause, hidle⟩ := h.counted more .delivered
    ⟨by rw [h.control.armed]; decide, by simp, fun _ => hroom⟩
  have hcap : s.machine.outstandingLeases < s.machine.options.bufferCapacity := by
    simpa [RecvSourceStateMachine.canDeliverEvent] using hroom
  obtain ⟨slot, copyFree, hfree⟩ := List.exists_cons_of_ne_nil (h.stock.free_ne_nil hcap)
  have hlen := length_filled h hid hsize
  have hle : (s.filled id size).length ≤ s.bufferSize := by omega
  have hstock := h.stock
  rw [hfree] at hstock
  have hnew := hstock.slots.slice_splice (s.filled id size)
  rw [hlen] at hnew
  have haw : Awaiters s.nexts s.nextCalls (some a) := ha ▸ h.awaiters
  -- the copy, then the lease on it, then the completed awaiter
  have hend : slot * s.bufferSize + size ≤
      (s.queuedPayloads.splice (slot * s.bufferSize) (s.filled id size)).length := by
    have := hstock.slots.start_add_le
    rw [hstock.slots.length_splice hle]
    omega
  have heq : ((s.lent id).setMachine m).deliverDirect id size =
      { (s.returned id).setMachine m with
        copyFree
        queuedPayloads := s.queuedPayloads.splice (slot * s.bufferSize) (s.filled id size)
        leases := s.leases ++ [{ copySlot := slot, size, bytes := s.filled id size }]
        pendingNext := none
        nexts := s.nexts ++ [(a, .event (s.filled id size))] } := by
    rw [RecvSource.deliverDirect, copyAndReleasePoolSlot_eq h hid hsize hfree m]
    dsimp only
    rw [makeQueuedLease, if_pos (by exact hend)]
    have hp : ((s.returned id).setMachine m).pendingNext = some a := ha
    simp only [hp]
    rw [RecvSource.completeNext]
    simp only [payload, returned, setMachine, hnew]
    rw [(haw.complete (.event (s.filled id size))).1]
  refine ⟨m, hok, ?_⟩
  rw [heq]
  refine ⟨⟨?_, h.buffers.returned id, ⟨?_, h.control.inStep, fun hm => ?_, h.control.alive⟩,
    (haw.complete _).2, fun hi => absurd (hidle hi) h.ne_idle⟩, rfl, rfl, rfl, .inr rfl, ?_,
    by simp [Calm], by simp, fun hs hor => hs (hpause hor)⟩
  · have hlend := hstock.lend hcons ho (by simpa using hq) (by simpa using hl) hsize hle
    rw [hnew] at hlend
    exact hlend
  · rw [← hsub] at harmed
    exact harmed
  · exact h.control.active (hact hm)
  · obtain ⟨hev, hov⟩ := backlog_eq_nil.mp hback
    simp [flow, handed, backlog, hev, hov, returned, setMachine, NextResult.events]

theorem InvWith.keepOverflow (h : InvWith 1 s) (hsub : s.ctl.submitted = more)
    (hempty : s.pendingNext.isSome → s.backlog = []) (hid : id < s.buffers.pool.capacity)
    (hsize : size ≤ s.bufferSize)
    (hfull : s.overflow ≠ [] ∨ s.machine.canQueueEvent = false) :
    Ready more s ((s.lent id).keepOverflow id size).requestBackendPause
      (s.flow ++ [s.filled id size]) := by
  obtain ⟨src, hslot, -, htake⟩ := lent_slot h hid size
  have heq : ((s.lent id).keepOverflow id size).requestBackendPause =
      { (s.returned id).requestBackendPause with
        overflow := s.overflow ++ [s.filled id size] } := by
    have hle : ¬ (s.lent id).bufferSize < size := Nat.not_lt.mpr hsize
    rw [RecvSource.keepOverflow, hslot]
    dsimp only
    rw [if_neg hle, lent_release h hid rfl, htake]
    rfl
  have hret : InvWith 1 (s.returned id) :=
    { h with buffers := h.buffers.returned id }
  obtain ⟨hinv, hne, hsub', hl, hstall⟩ := hret.requestBackendPause h.ne_idle
  rw [heq]
  refine ⟨{ hinv with
    control := ⟨hinv.control.armed, hinv.control.inStep, fun ha => absurd ha hne,
      hinv.control.alive⟩
    fresh := fun hi => absurd hi hinv.ne_idle }, hsub'.trans hsub, rfl, rfl, rfl, ?_,
    fun hp => ⟨?_, fun _ => ?_⟩, fun _ ha => absurd ha hne, hstall⟩
  · show s.handed ++ (_ ++ (s.overflow ++ [s.filled id size])) = _
    rw [flow, backlog, List.append_assoc, List.append_assoc]
    rfl
  · obtain ⟨hev, hov⟩ := backlog_eq_nil.mp (hempty hp)
    show (List.map _ s.events.toList ++ (s.overflow ++ [s.filled id size])).length ≤ 1
    simp [hev, hov]
  · -- nothing waits, so it is the leases that are used up
    obtain ⟨hev, hov⟩ := backlog_eq_nil.mp (hempty hp)
    have hq := h.stock.queued
    rw [RingBuffer.toList_eq_nil.mp hev] at hq
    have hv := h.consistent.valid
    simp only [Net.RecvSourceOptions.valid, decide_eq_true_eq] at hv
    have hcq := hfull.resolve_left (not_not.mpr hov)
    simp only [RecvSourceStateMachine.canQueueEvent, decide_eq_false_iff_not, not_and] at hcq
    show (s.returned id).requestBackendPause.machine.outstandingLeases ≠ 0
    rw [hl]
    show s.machine.outstandingLeases ≠ 0
    omega

theorem InvWith.refuse (h : InvWith 1 s) (hsub : s.ctl.submitted = more)
    (hempty : s.pendingNext.isSome → s.backlog = []) (hid : id < s.buffers.pool.capacity)
    (e : Error) :
    Ready more s (((s.lent id).onBuffers (·.releaseSlotLease id)).requestBackendStop (some e))
      s.flow := by
  rw [lent_release h hid rfl]
  exact ((Ready.start h hsub hempty).withBuffers (h.buffers.returned id)).stop (some e)

/-! ## The whole completion -/

def refuses (s : RecvSource) : Bool :=
  s.directDelivery = true ∧ s.machine.canDeliverEvent = false

def Outcome (more : Bool) (s₀ : RecvSource) (recorded : Bool) (s : RecvSource)
    (f : List (List UInt8)) : Prop :=
  if recorded then Handled s₀ s f else Ready more s₀ s f

/-- **A payload** joins the flow, unless it is refused. -/
theorem InvWith.acceptPayload (h : InvWith 1 s) (hsub : s.ctl.submitted = more)
    (hempty : s.pendingNext.isSome → s.backlog = []) (hid : id < s.buffers.pool.capacity)
    (hsize : size ≤ s.bufferSize) :
    Outcome more s ((s.lent id).acceptPayload id size more).1
      ((s.lent id).acceptPayload id size more).2
      (if s.refuses then s.flow else s.flow ++ [s.filled id size]) := by
  have hd : (s.lent id).directDelivery = s.directDelivery := rfl
  have hm : (s.lent id).machine = s.machine := rfl
  have hov : (s.lent id).overflow = s.overflow := rfl
  unfold RecvSource.acceptPayload
  rw [hd, hm, hov]
  cases hdir : s.directDelivery with
  | false =>
    have hr : s.refuses = false := by simp [refuses, hdir]
    rw [hr]
    by_cases hfull : s.overflow ≠ [] ∨ s.machine.canQueueEvent = false
    · rw [if_pos ⟨rfl, hfull⟩]
      exact h.keepOverflow hsub hempty hid hsize hfull
    · rw [if_neg fun hc => hfull hc.2]
      simp only [ne_eq, not_or, not_not] at hfull
      obtain ⟨m, hok, hh⟩ := h.queueEvent hsub hempty hid hsize hdir hfull.1
        (by simpa using hfull.2)
      simp only [Bool.false_eq_true, if_false, hok]
      exact hh
  | true =>
    rw [if_neg (by simp)]
    cases hroom : s.machine.canDeliverEvent with
    | false =>
      have hr : s.refuses = true := by simp [refuses, hdir, hroom]
      have hnot : ¬ s.machine.admits .delivered := fun ha => by simp [ha.2.2 rfl] at hroom
      obtain ⟨e, he⟩ := RecvSourceStateMachine.completeMultishotEvent_eq_error
        (if more then .more else .terminal) hnot
      rw [hr]
      simp only [if_true, he]
      exact h.refuse hsub hempty hid e
    | true =>
      have hr : s.refuses = false := by simp [refuses, hroom]
      obtain ⟨m, hok, hh⟩ := h.deliverDirect hsub hid hsize hdir hroom
      rw [hr]
      simp only [if_true, hok]
      exact hh

end

def accepted (s : RecvSource) (event : CompletionEvent) : List (List UInt8) :=
  if event.bufferMore = false ∧ event.result.toNat ≤ s.bufferSize ∧ s.refuses = false then
    [s.filled event.selectedBufferId event.result.toNat]
  else []

theorem InvWith.onPayload (h : InvWith 1 s) (hsub : s.ctl.submitted = more)
    (hempty : s.pendingNext.isSome → s.backlog = []) (event : CompletionEvent)
    (hmore : event.more = more) :
    let r := s.onPayload event (s.validBuffer event)
    Outcome more s r.1 r.2.2
        (s.flow ++ if s.validBuffer event then s.accepted event else []) ∧
      (r.1 = true → r.2.1 = none) := by
  have hstart := Ready.start h hsub hempty
  unfold RecvSource.onPayload accepted
  cases hvalid : s.validBuffer event with
  | false => simpa [Outcome] using hstart
  | true =>
    have hid : event.selectedBufferId < s.buffers.pool.capacity := by
      simp only [validBuffer, decide_eq_true_eq] at hvalid
      exact hvalid.2
    cases hbm : event.bufferMore with
    | true => simpa [Outcome] using hstart
    | false =>
      by_cases hsize : event.result.toNat ≤ s.bufferSize
      · have hacq := h.buffers.acquireBuffer hid hsize
        have hdone : ({ s with buffers := s.buffers.lent event.selectedBufferId 1 false } :
            RecvSource).onBuffers (·.markKernelDone event.selectedBufferId) =
            s.lent event.selectedBufferId := by
          rw [onBuffers, h.buffers.markKernelDone hid]
          rfl
        have hacc := h.acceptPayload hsub hempty hid hsize
        simp only [Bool.true_eq_false, Bool.false_eq_true, or_false, if_false, hacq, hdone, hmore,
          hsize, true_and, if_true, imp_true_iff, and_true]
        convert hacc using 1
        cases s.refuses <;> simp
      · have hacq := h.buffers.acquireBuffer_error event.selectedBufferId
          (Nat.lt_of_not_le hsize)
        simpa [Outcome, hacq, hsize] using hstart

/-- **The result of a completion.** A positive result with a valid buffer adds its payload to the
flow; the other results change no payload. -/
theorem InvWith.handleResult (h : InvWith 1 s)
    (hsub : s.ctl.submitted = event.more) (hempty : s.pendingNext.isSome → s.backlog = []) :
    Handled s (s.handleResult event) (s.flow ++
      if 0 < event.result ∧ s.validBuffer event = true then s.accepted event else []) := by
  have hstart := Ready.start h hsub hempty
  have hid : s.validBuffer event = true →
      event.selectedBufferId < s.buffers.pool.capacity := fun hv => by
    simp only [validBuffer, decide_eq_true_eq] at hv
    exact hv.2
  unfold RecvSource.handleResult
  by_cases hpos : 0 < event.result
  · -- a recorded completion carries no error
    obtain ⟨hout, herr⟩ := h.onPayload hsub hempty event rfl
    simp only [hpos, true_and]
    rcases hr : s.onPayload event (s.validBuffer event) with ⟨_ | _, error, t⟩
    · rw [hr] at hout
      exact Ready.finish hout hsub error
    · rw [hr] at hout herr
      obtain rfl : error = none := herr rfl
      exact hout
  · simp only [hpos, if_false, false_and, List.append_nil]
    by_cases hzero : event.result = 0
    · rw [if_pos hzero]
      exact (hstart.onEmpty hid).finish hsub _
    · rw [if_neg hzero]
      exact (hstart.onFailure hid).finish hsub _

theorem Handled.pause (h : Handled s₀ s f) (hact : s.machine.state = .active) :
    Handled s₀ s.requestBackendPause f := by
  obtain ⟨hinv, hne, hsub, hl, hstall⟩ := h.inv.requestBackendPause (by simp [hact])
  refine ⟨?_, hsub.trans h.submitted, h.nextCalls, h.received, h.pendingNext, h.flow,
    fun hp => ⟨(h.calm hp).1, fun hb => ?_⟩, fun _ ha => absurd ha hne,
    fun hs => hstall (h.stall hs)⟩
  · rw [Inv, hsub]
    exact hinv
  · rw [hl]
    exact (h.calm hp).2 hb

theorem InvWith.settle (h : Inv s) (hcalm : Calm s) (hprog : Progress s) :
    Kept s (RecvSource.deliverNextIfReady s).maybeResume.completeStopIfReady s.flow ∧
      (NoStall s → Wakeable (RecvSource.deliverNextIfReady s).maybeResume.completeStopIfReady) := by
  have hd := h.deliverNextIfReady hcalm
  obtain ⟨hr, hres⟩ := hd.inv.maybeResumeWith (fun hp => (hd.parked hp).1)
    delivers_deliverNextIfReady
  have hc := hr.inv.completeStopIfReady
  have hk : Kept s (RecvSource.deliverNextIfReady s) s.flow :=
    { hd with empty := fun hp => (hd.parked hp).1 }
  refine ⟨hc.kept (hr.kept hk), fun hs => hc.wakeable ?_⟩
  exact ⟨fun hp ht => (hd.parked (hr.isSome hp).1).2.1 ((hr.isSome hp).2 ht),
    hr.stall (hd.stall hs), hr.progress (hd.progress hprog), hres⟩

/-- **After the result.** Whatever a completion did, the source ends up with a request or a reason
not to have one. -/
theorem Handled.afterResult (h : Handled s₀ s f) (hsub : s.ctl.submitted = more) :
    Kept s₀ (s.afterResult more) f ∧ (NoStall s₀ → Wakeable (s.afterResult more)) := by
  unfold RecvSource.afterResult
  have hbuf : (if more then s else s.onBuffers (·.markActiveSlotsKernelDone)) = s := by
    split_ifs
    · rfl
    · rw [onBuffers, h.inv.buffers.markActiveSlotsKernelDone]
  rw [hbuf]
  dsimp only
  -- pause
  have hp : ∃ t, t = (if s.machine.state = .active ∧
      s.machine.options.eventCapacity ≤ s.machine.queuedEvents then s.requestBackendPause else s) ∧
      Handled s₀ t f ∧ t.ctl.submitted = more := by
    refine ⟨_, rfl, ?_⟩
    split_ifs with hfull
    · exact ⟨h.pause hfull.1, (h.pause hfull.1).submitted.trans (h.submitted.symm.trans hsub)⟩
    · exact ⟨h, hsub⟩
  obtain ⟨t, ht, hh, hsub'⟩ := hp
  rw [← ht]
  -- resubmit
  by_cases hc : more = false ∧ t.machine.state = .active ∧ t.ctl.terminalError.isNone
  · rw [if_pos hc]
    obtain ⟨hr, hprog⟩ := hh.inv.ensureSubmissionWith (fun hp => hh.direct hp hc.2.1)
      delivers_deliverNextIfReady
    have hcalm : Calm (t.ensureSubmissionWith RecvSource.deliverNextIfReady) := fun hp => by
      rw [hr.backlog, hr.leases]
      exact hh.calm (hr.isSome hp).1
    obtain ⟨hk, hw⟩ := hr.inv.settle hcalm hprog
    refine ⟨⟨hk.inv, hk.empty, ?_, ?_⟩, fun hs => hw (hr.stall (hh.stall hs))⟩
    · exact hk.received.trans (hr.received.trans hh.received)
    · exact hk.flow.trans (hr.flow.trans hh.flow)
  · rw [if_neg hc]
    have hprog : Progress t := fun ha hs => by
      refine absurd ⟨hsub'.symm.trans hs, ha, ?_⟩ hc
      rw [(hh.inv.control.active ha).2.1]
      rfl
    obtain ⟨hk, hw⟩ := hh.inv.settle hh.calm hprog
    exact ⟨⟨hk.inv, hk.empty, hk.received.trans hh.received, hk.flow.trans hh.flow⟩,
      fun hs => hw (hh.stall hs)⟩

end RecvSource

end Alyrn.Uring
