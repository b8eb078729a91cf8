import Alyrn.Net.SourceState

/-!
# RecvSourceStateMachine

Receive admission and lease accounting, shared by the epoll and the uring receive source. A queued
event and a lease that the application holds both count as outstanding leases.

`RecvSourceStateMachine.Consistent` bounds the counters by the options and ties them to the
lifecycle state; every operation keeps it, and each operation has one lemma that says what it does
to the counters.
-/

namespace Alyrn.Net

/-- The options, with their defaults. -/
structure RecvSourceOptions where
  pendingDepth : ℕ := 1
  eventCapacity : ℕ := 16
  bufferCapacity : ℕ := 16
  resumeThreshold : ℕ := 0
  deriving DecidableEq, Repr

namespace RecvSourceOptions

def valid (o : RecvSourceOptions) : Bool :=
  0 < o.pendingDepth ∧ 0 < o.eventCapacity ∧ o.eventCapacity ≤ o.bufferCapacity ∧
    (o.resumeThreshold = 0 ∨ o.resumeThreshold < o.eventCapacity)

def resumeThresholdOrHalf (o : RecvSourceOptions) : ℕ :=
  if o.resumeThreshold = 0 then o.eventCapacity / 2 else o.resumeThreshold

variable {o : RecvSourceOptions}

theorem valid_iff : o.valid = true ↔ 0 < o.pendingDepth ∧ 0 < o.eventCapacity ∧
    o.eventCapacity ≤ o.bufferCapacity ∧
    (o.resumeThreshold = 0 ∨ o.resumeThreshold < o.eventCapacity) := by
  simp [valid]

theorem resumeThresholdOrHalf_lt (h : o.valid = true) :
    o.resumeThresholdOrHalf < o.eventCapacity := by
  obtain ⟨hd, he, hb, ht⟩ := valid_iff.mp h
  unfold resumeThresholdOrHalf
  split_ifs <;> omega

end RecvSourceOptions

def maxRearmWorkingSet : ℕ := 8

/-- The admission machine of a receive source. -/
structure RecvSourceStateMachine where
  options : RecvSourceOptions
  state : SourceState
  queuedEvents : ℕ
  armedRequests : ℕ
  outstandingLeases : ℕ
  deriving DecidableEq, Repr

namespace RecvSourceStateMachine

def create (options : RecvSourceOptions) : Except Error RecvSourceStateMachine :=
  if options.valid then
    .ok { options, state := .idle, queuedEvents := 0, armedRequests := 0, outstandingLeases := 0 }
  else .error EINVAL

variable (m : RecvSourceStateMachine)

def drained : Bool := m.queuedEvents = 0 ∧ m.outstandingLeases = 0

def canQueueEvent : Bool :=
  m.queuedEvents < m.options.eventCapacity ∧ m.outstandingLeases < m.options.bufferCapacity

def canDeliverEvent : Bool := m.outstandingLeases < m.options.bufferCapacity

def canArm : Bool :=
  if m.state ≠ .active ∨ m.options.pendingDepth ≤ m.armedRequests ∨ m.canQueueEvent = false then
    false
  else
    let reserved := m.outstandingLeases + m.armedRequests
    if m.options.bufferCapacity ≤ reserved then false
    else
      -- keep a rearm working set available
      decide (min m.options.resumeThresholdOrHalf maxRearmWorkingSet ≤
        m.options.bufferCapacity - reserved)

/-- `ReconcileStopping`, which every caller but `RequestStop` skips in the active state. -/
def reconcileStopping : RecvSourceStateMachine :=
  { m with state := m.state.reconcileStopping m.armedRequests m.drained }

def reconcileUnlessActive : RecvSourceStateMachine :=
  if m.state ≠ .active then m.reconcileStopping else m

def start : Except Error RecvSourceStateMachine :=
  if m.state ≠ .idle then .error EALREADY else .ok { m with state := .active }

def tryArm : Option RecvSourceStateMachine :=
  if m.canArm then some { m with armedRequests := m.armedRequests + 1 } else none

def requestPause : Except Error RecvSourceStateMachine :=
  (m.state.requestPause m.armedRequests).map fun st => { m with state := st }

def tryResume : Option RecvSourceStateMachine :=
  if m.state ≠ .paused ∨ m.options.resumeThresholdOrHalf < m.queuedEvents then none
  else some { m with state := .active }

def completeMultishotEvent (event : EventDisposition) (request : MultishotRequestDisposition) :
    Except Error RecvSourceStateMachine :=
  if m.armedRequests = 0 then .error EINVAL
  else if event = .produced ∧ m.canQueueEvent = false then .error ENOBUFS
  else if event = .delivered ∧ m.canDeliverEvent = false then .error ENOBUFS
  else
    let m := if request = .terminal then { m with armedRequests := m.armedRequests - 1 } else m
    let m := if event = .produced then { m with queuedEvents := m.queuedEvents + 1 } else m
    let m := if event = .produced ∨ event = .delivered then
      { m with outstandingLeases := m.outstandingLeases + 1 } else m
    .ok m.reconcileUnlessActive

def dropQueuedEvent : Option RecvSourceStateMachine :=
  if m.queuedEvents = 0 then none
  else some { m with queuedEvents := m.queuedEvents - 1 }.reconcileUnlessActive

def acquireEvent : Option RecvSourceStateMachine := m.dropQueuedEvent

def discardQueuedEvent : Option RecvSourceStateMachine := m.dropQueuedEvent

def releaseLease : Option RecvSourceStateMachine :=
  if m.outstandingLeases = 0 then none
  else some { m with outstandingLeases := m.outstandingLeases - 1 }.reconcileUnlessActive

def requestStop : RecvSourceStateMachine :=
  { m with state := m.state.requestStop m.armedRequests m.drained }

/-! ## What the operations do -/

/-- The counters agree with the options and with the lifecycle state. -/
structure Consistent (m : RecvSourceStateMachine) : Prop where
  valid : m.options.valid = true
  lifecycle : m.state.Consistent m.armedRequests m.drained
  queued_le : m.queuedEvents ≤ m.options.eventCapacity
  leases_le : m.outstandingLeases ≤ m.options.bufferCapacity
  armed_le : m.armedRequests ≤ m.options.pendingDepth

variable {m : RecvSourceStateMachine}

theorem drained_iff : m.drained = true ↔ m.queuedEvents = 0 ∧ m.outstandingLeases = 0 := by
  simp [drained]

theorem create_ok {options : RecvSourceOptions} (h : create options = .ok m) :
    m.Consistent ∧ m.options = options ∧ m.state = .idle ∧ m.queuedEvents = 0 ∧
      m.armedRequests = 0 ∧ m.outstandingLeases = 0 := by
  unfold create at h
  split_ifs at h with hvalid
  obtain rfl := Except.ok.inj h
  exact ⟨⟨hvalid, ⟨⟨by simp, by simp [drained]⟩, by simp, by simp⟩, Nat.zero_le _, Nat.zero_le _,
    Nat.zero_le _⟩, rfl, rfl, rfl, rfl, rfl⟩

theorem reconcileUnlessActive_eq : m.reconcileUnlessActive = m.reconcileStopping := by
  unfold reconcileUnlessActive
  split_ifs with h
  · rfl
  · cases m
    simp_all [reconcileStopping]

def leasedBy (event : EventDisposition) : ℕ :=
  if event = .produced ∨ event = .delivered then 1 else 0

@[simp] theorem queuedBy_none : queuedBy .none = 0 := rfl
@[simp] theorem queuedBy_produced : queuedBy .produced = 1 := rfl
@[simp] theorem queuedBy_delivered : queuedBy .delivered = 0 := rfl
@[simp] theorem leasedBy_none : leasedBy .none = 0 := rfl
@[simp] theorem leasedBy_produced : leasedBy .produced = 1 := rfl
@[simp] theorem leasedBy_delivered : leasedBy .delivered = 1 := rfl

/-- A completion is refused exactly when nothing is armed or the event has no room. -/
def admits (m : RecvSourceStateMachine) (event : EventDisposition) : Prop :=
  m.armedRequests ≠ 0 ∧ (event = .produced → m.canQueueEvent = true) ∧
    (event = .delivered → m.canDeliverEvent = true)

/-- The counters after a completion. -/
def counted (m : RecvSourceStateMachine) (event : EventDisposition)
    (request : MultishotRequestDisposition) : RecvSourceStateMachine :=
  { m with
    armedRequests := m.armedRequests - endedBy request
    queuedEvents := m.queuedEvents + queuedBy event
    outstandingLeases := m.outstandingLeases + leasedBy event }

variable {event : EventDisposition}

theorem completeMultishotEvent_of_admits
    (request : MultishotRequestDisposition) (h : m.admits event) :
    m.completeMultishotEvent event request = .ok (m.counted event request).reconcileStopping := by
  obtain ⟨ha, hp, hd⟩ := h
  unfold completeMultishotEvent
  rw [if_neg ha, if_neg (by rintro ⟨he, hc⟩; simp [hp he] at hc),
    if_neg (by rintro ⟨he, hc⟩; simp [hd he] at hc)]
  dsimp only
  rw [reconcileUnlessActive_eq]
  cases event <;> cases request <;> rfl

theorem completeMultishotEvent_eq_error
    (request : MultishotRequestDisposition) (h : ¬ m.admits event) :
    ∃ e, m.completeMultishotEvent event request = .error e := by
  unfold completeMultishotEvent
  split_ifs with ha hp hd
  · exact ⟨_, rfl⟩
  · exact ⟨_, rfl⟩
  · exact ⟨_, rfl⟩
  · refine absurd ⟨ha, fun he => ?_, fun he => ?_⟩ h
    · simpa [he] using hp
    · simpa [he] using hd

variable {m' : RecvSourceStateMachine} {request : MultishotRequestDisposition}

theorem completeMultishotEvent_ok
    (h : m.completeMultishotEvent event request = .ok m') :
    m.admits event ∧ m' = (m.counted event request).reconcileStopping := by
  by_cases ha : m.admits event
  · rw [completeMultishotEvent_of_admits request ha] at h
    exact ⟨ha, (Except.ok.inj h).symm⟩
  · obtain ⟨e, he⟩ := completeMultishotEvent_eq_error request ha
    rw [he] at h
    cases h

theorem completeMultishotEvent_armed (h : m.state = .active) :
    completeMultishotEvent { m with armedRequests := m.armedRequests + 1 } .none .terminal =
      .ok m := by
  obtain ⟨options, state, queued, armed, leases⟩ := m
  obtain rfl : state = .active := h
  rw [completeMultishotEvent_of_admits .terminal ⟨Nat.succ_ne_zero _, by simp, by simp⟩]
  simp [counted, reconcileStopping, endedBy, queuedBy, leasedBy]

theorem Consistent.reconcile (h : m.Consistent) {armed queued leases : ℕ}
    (ha : armed ≤ m.armedRequests) (hq : queued ≤ m.options.eventCapacity)
    (hl : leases ≤ m.options.bufferCapacity)
    (hend : m.state = .idle ∨ m.state = .terminal → queued = 0 ∧ leases = 0) :
    Consistent { m with
      armedRequests := armed, queuedEvents := queued,
      outstandingLeases := leases }.reconcileStopping := by
  refine ⟨h.valid, ?_, hq, hl, Nat.le_trans ha h.armed_le⟩
  refine SourceState.reconcileStopping_consistent ⟨fun hs => ?_, fun hs => ?_⟩
  · have := h.lifecycle.quiet hs
    simp only
    omega
  · exact drained_iff.mpr (hend hs)

theorem Consistent.reconcile_state (h : m.Consistent) (queued leases : ℕ) :
    { m with queuedEvents := queued, outstandingLeases := leases }.reconcileStopping.state =
        m.state ∨
      m.state = .draining ∧
        { m with queuedEvents := queued, outstandingLeases := leases }.reconcileStopping.state =
          .terminal := by
  simp only [reconcileStopping, SourceState.reconcileStopping_eq h.lifecycle]
  split_ifs with hd
  · exact .inr ⟨hd.1, rfl⟩
  · exact .inl rfl

theorem Consistent.completeMultishotEvent (h : m.Consistent)

    (hc : m.completeMultishotEvent event request = .ok m') : m'.Consistent := by
  obtain ⟨⟨ha, hp, hd⟩, rfl⟩ := completeMultishotEvent_ok hc
  have hroom : event = .produced → m.queuedEvents < m.options.eventCapacity ∧
      m.outstandingLeases < m.options.bufferCapacity := fun he => by
    simpa [canQueueEvent] using hp he
  have hlease : event = .delivered → m.outstandingLeases < m.options.bufferCapacity := fun he => by
    simpa [canDeliverEvent] using hd he
  have hq := h.queued_le
  have hl := h.leases_le
  refine h.reconcile (Nat.sub_le _ _) ?_ ?_ fun hs => absurd (h.lifecycle.quiet ?_) ha
  · cases event <;> simp [queuedBy] <;> first | omega | exact (hroom rfl).1
  · cases event <;> simp [leasedBy] <;> first | omega | exact (hroom rfl).2 | exact hlease rfl
  · rcases hs with hs | hs <;> simp [hs]

theorem dropQueuedEvent_eq (hq : m.queuedEvents ≠ 0) : m.dropQueuedEvent =
    some { m with queuedEvents := m.queuedEvents - 1 }.reconcileStopping := by
  rw [dropQueuedEvent, if_neg hq, reconcileUnlessActive_eq]

theorem releaseLease_eq (hl : m.outstandingLeases ≠ 0) : m.releaseLease =
    some { m with outstandingLeases := m.outstandingLeases - 1 }.reconcileStopping := by
  rw [releaseLease, if_neg hl, reconcileUnlessActive_eq]

theorem Consistent.dropQueuedEvent (h : m.Consistent)
    (hd : m.dropQueuedEvent = some m') : m'.Consistent := by
  by_cases hq : m.queuedEvents = 0
  · simp [RecvSourceStateMachine.dropQueuedEvent, hq] at hd
  · rw [dropQueuedEvent_eq hq] at hd
    cases hd
    have hle := h.queued_le
    refine h.reconcile (Nat.le_refl _) (by omega) h.leases_le fun hs => ?_
    have := (drained_iff.mp (h.lifecycle.ends hs)).1
    exact absurd this hq

theorem Consistent.releaseLease (h : m.Consistent)
    (hd : m.releaseLease = some m') : m'.Consistent := by
  by_cases hl : m.outstandingLeases = 0
  · simp [RecvSourceStateMachine.releaseLease, hl] at hd
  · rw [releaseLease_eq hl] at hd
    cases hd
    have hle := h.leases_le
    refine h.reconcile (Nat.le_refl _) h.queued_le (by omega) fun hs => ?_
    have := (drained_iff.mp (h.lifecycle.ends hs)).2
    exact absurd this hl

theorem Consistent.requestStop (h : m.Consistent) : m.requestStop.Consistent :=
  { h with lifecycle := SourceState.requestStop_consistent h.lifecycle }

theorem requestPause_ok (hp : m.requestPause = .ok m') :
    ∃ st, m.state.requestPause m.armedRequests = .ok st ∧ m' = { m with state := st } := by
  unfold requestPause at hp
  cases hs : m.state.requestPause m.armedRequests with
  | error e => simp [hs, Except.map] at hp
  | ok st =>
    rw [hs] at hp
    exact ⟨st, rfl, (Except.ok.inj hp).symm⟩

theorem Consistent.requestPause (h : m.Consistent)
    (hp : m.requestPause = .ok m') : m'.Consistent := by
  obtain ⟨st, hst, rfl⟩ := requestPause_ok hp
  exact { h with lifecycle := SourceState.requestPause_consistent h.lifecycle hst }

theorem Consistent.activate (h : m.Consistent) : Consistent { m with state := .active } :=
  { h with lifecycle := SourceState.consistent_active }

theorem canArm_iff : m.canArm = true ↔ m.state = .active ∧
    m.armedRequests < m.options.pendingDepth ∧ m.queuedEvents < m.options.eventCapacity ∧
    m.outstandingLeases + m.armedRequests < m.options.bufferCapacity ∧
    min m.options.resumeThresholdOrHalf maxRearmWorkingSet ≤
      m.options.bufferCapacity - (m.outstandingLeases + m.armedRequests) := by
  unfold canArm canQueueEvent
  constructor
  · intro h
    split_ifs at h with h1
    dsimp only at h
    split_ifs at h with h2
    simp only [ne_eq, not_or, not_not, Bool.not_eq_false, decide_eq_true_eq, Nat.not_le] at h1
    exact ⟨h1.1, h1.2.1, h1.2.2.1, Nat.not_le.mp h2, of_decide_eq_true h⟩
  · rintro ⟨hs, ha, hq, hl, hmin⟩
    rw [if_neg]
    · rw [if_neg (by omega)]
      exact decide_eq_true hmin
    · simp [hs]
      omega

theorem Consistent.arm (h : m.Consistent) (hc : m.canArm = true) :
    Consistent { m with armedRequests := m.armedRequests + 1 } := by
  obtain ⟨hs, ha, -, -, -⟩ := canArm_iff.mp hc
  exact { h with
    lifecycle := by simpa only [hs] using SourceState.consistent_active
    armed_le := ha }

/-- **No starvation.** An active machine with nothing armed, queued or leased can arm. -/
theorem Consistent.canArm_of_empty (h : m.Consistent) (hs : m.state = .active)
    (ha : m.armedRequests = 0) (hq : m.queuedEvents = 0) (hl : m.outstandingLeases = 0) :
    m.canArm = true := by
  have ht := RecvSourceOptions.resumeThresholdOrHalf_lt h.valid
  obtain ⟨hd, he, hb, -⟩ := RecvSourceOptions.valid_iff.mp h.valid
  exact canArm_iff.mpr ⟨hs, by omega, by omega, by omega, by omega⟩

end RecvSourceStateMachine

end Alyrn.Net
