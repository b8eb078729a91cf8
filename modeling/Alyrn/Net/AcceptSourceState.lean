import Alyrn.Net.SourceState

/-!
# AcceptSourceStateMachine

Accept admission, shared by the epoll and the uring accept source. It owns no streams: it counts
the armed requests and the events that wait for the consumer.

`AcceptSourceStateMachine.Consistent` bounds the counters by the options and ties them to the
lifecycle state; every operation keeps it.
-/

namespace Alyrn.Net

/-- `IsAcceptedConnectionError`: the errors that belong to one pending connection, not to the
listening socket. -/
def isAcceptedConnectionError (error : Error) : Bool :=
  error ∈ [ECONNABORTED, ECONNRESET, ENOTCONN, EPROTO, EPERM, ETIMEDOUT, ENETDOWN, ENETUNREACH,
    ENOPROTOOPT, EHOSTUNREACH, EHOSTDOWN, ENONET]

/-- The options, with their defaults. -/
structure AcceptSourceOptions where
  pendingDepth : ℕ := 4
  eventCapacity : ℕ := 64
  resumeThreshold : ℕ := 0
  deriving DecidableEq, Repr

namespace AcceptSourceOptions

def valid (o : AcceptSourceOptions) : Bool :=
  0 < o.pendingDepth ∧ o.pendingDepth ≤ o.eventCapacity ∧
    (o.resumeThreshold = 0 ∨ o.resumeThreshold < o.eventCapacity)

def resumeThresholdOrHalf (o : AcceptSourceOptions) : ℕ :=
  if o.resumeThreshold = 0 then o.eventCapacity / 2 else o.resumeThreshold

variable {o : AcceptSourceOptions}

theorem valid_iff : o.valid = true ↔ 0 < o.pendingDepth ∧ o.pendingDepth ≤ o.eventCapacity ∧
    (o.resumeThreshold = 0 ∨ o.resumeThreshold < o.eventCapacity) := by
  simp [valid]

theorem resumeThresholdOrHalf_lt (h : o.valid = true) :
    o.resumeThresholdOrHalf < o.eventCapacity := by
  obtain ⟨hd, hc, ht⟩ := valid_iff.mp h
  unfold resumeThresholdOrHalf
  split_ifs <;> omega

end AcceptSourceOptions

/-- The admission machine of an accept source. -/
structure AcceptSourceStateMachine where
  options : AcceptSourceOptions
  state : SourceState
  queuedEvents : ℕ
  armedRequests : ℕ
  deriving DecidableEq, Repr

namespace AcceptSourceStateMachine

def create (options : AcceptSourceOptions) : Except Error AcceptSourceStateMachine :=
  if options.valid then .ok { options, state := .idle, queuedEvents := 0, armedRequests := 0 }
  else .error EINVAL

variable (m : AcceptSourceStateMachine)

def drained : Bool := m.queuedEvents = 0

def canArm : Bool :=
  m.state = .active ∧ m.armedRequests < m.options.pendingDepth ∧
    m.queuedEvents + m.armedRequests < m.options.eventCapacity

def start : Except Error AcceptSourceStateMachine :=
  if m.state ≠ .idle then .error EALREADY else .ok { m with state := .active }

def tryArm : Option AcceptSourceStateMachine :=
  if m.state ≠ .active ∨ m.options.pendingDepth ≤ m.armedRequests ∨
    m.options.eventCapacity ≤ m.queuedEvents + m.armedRequests then none
  else some { m with armedRequests := m.armedRequests + 1 }

def requestPause : Except Error AcceptSourceStateMachine :=
  (m.state.requestPause m.armedRequests).map fun st => { m with state := st }

def tryResume : Option AcceptSourceStateMachine :=
  if m.state ≠ .paused ∨ m.options.resumeThresholdOrHalf < m.queuedEvents then none
  else some { m with state := .active }

def reconcileStopping : AcceptSourceStateMachine :=
  { m with state := m.state.reconcileStopping m.armedRequests m.drained }

def completeRequest (producedEvent : Bool) : Except Error AcceptSourceStateMachine :=
  if m.armedRequests = 0 then .error EINVAL
  else if producedEvent = true ∧ m.options.eventCapacity ≤ m.queuedEvents then .error ENOBUFS
  else
    let m := { m with armedRequests := m.armedRequests - 1 }
    let m := if producedEvent then { m with queuedEvents := m.queuedEvents + 1 } else m
    .ok m.reconcileStopping

/-- `CompleteMultishotEvent`; an accept source delivers nothing past its queue. -/
def completeMultishotEvent (event : EventDisposition) (request : MultishotRequestDisposition) :
    Except Error AcceptSourceStateMachine :=
  if m.armedRequests = 0 then .error EINVAL
  else if event = .delivered then .error EINVAL
  else if event = .produced ∧ m.options.eventCapacity ≤ m.queuedEvents then .error ENOBUFS
  else
    let m := if request = .terminal then { m with armedRequests := m.armedRequests - 1 } else m
    let m := if event = .produced then { m with queuedEvents := m.queuedEvents + 1 } else m
    .ok m.reconcileStopping

def consumeEvent : Option AcceptSourceStateMachine :=
  if m.queuedEvents = 0 then none
  else some { m with queuedEvents := m.queuedEvents - 1 }.reconcileStopping

def requestStop : AcceptSourceStateMachine :=
  { m with state := m.state.requestStop m.armedRequests m.drained }

/-! ## What the operations do -/

/-- The counters agree with the options and with the lifecycle state. -/
structure Consistent (m : AcceptSourceStateMachine) : Prop where
  valid : m.options.valid = true
  lifecycle : m.state.Consistent m.armedRequests m.drained
  queued_le : m.queuedEvents ≤ m.options.eventCapacity
  armed_le : m.armedRequests ≤ m.options.pendingDepth

variable {m : AcceptSourceStateMachine} {event : EventDisposition}

theorem drained_iff : m.drained = true ↔ m.queuedEvents = 0 := by
  simp [drained]

theorem create_ok {options : AcceptSourceOptions} (h : create options = .ok m) :
    m.Consistent ∧ m.options = options ∧ m.state = .idle ∧ m.queuedEvents = 0 ∧
      m.armedRequests = 0 := by
  unfold create at h
  split_ifs at h with hvalid
  obtain rfl := Except.ok.inj h
  exact ⟨⟨hvalid, ⟨⟨by simp, by simp [drained]⟩, by simp, by simp⟩, Nat.zero_le _, Nat.zero_le _⟩,
    rfl, rfl, rfl, rfl⟩

theorem canArm_iff : m.canArm = true ↔ m.state = .active ∧
    m.armedRequests < m.options.pendingDepth ∧
    m.queuedEvents + m.armedRequests < m.options.eventCapacity := by
  simp [canArm]

theorem tryArm_eq : m.tryArm =
    if m.canArm then some { m with armedRequests := m.armedRequests + 1 } else none := by
  unfold tryArm canArm
  by_cases hs : m.state = .active <;>
    by_cases hd : m.armedRequests < m.options.pendingDepth <;>
    by_cases hc : m.queuedEvents + m.armedRequests < m.options.eventCapacity <;>
    simp [hs, hd, hc, Nat.not_le.mpr, Nat.not_lt.mp]

theorem completeRequest_eq (producedEvent : Bool) : m.completeRequest producedEvent =
    m.completeMultishotEvent (if producedEvent then .produced else .none) .terminal := by
  unfold completeRequest completeMultishotEvent
  cases producedEvent <;> simp

/-- A completion is refused exactly when nothing is armed or the event has no room. -/
def admits (m : AcceptSourceStateMachine) (event : EventDisposition) : Prop :=
  m.armedRequests ≠ 0 ∧ event ≠ .delivered ∧
    (event = .produced → m.queuedEvents < m.options.eventCapacity)

/-- The counters after a completion. -/
def counted (m : AcceptSourceStateMachine) (event : EventDisposition)
    (request : MultishotRequestDisposition) : AcceptSourceStateMachine :=
  { m with
    armedRequests := m.armedRequests - endedBy request
    queuedEvents := m.queuedEvents + queuedBy event }

theorem completeMultishotEvent_of_admits
    (request : MultishotRequestDisposition) (h : m.admits event) :
    m.completeMultishotEvent event request = .ok (m.counted event request).reconcileStopping := by
  obtain ⟨ha, hd, hp⟩ := h
  unfold completeMultishotEvent
  rw [if_neg ha, if_neg hd, if_neg fun hc => Nat.not_le.mpr (hp hc.1) hc.2]
  cases event <;> cases request <;> rfl

theorem completeMultishotEvent_armed (h : m.state = .active) :
    completeMultishotEvent { m with armedRequests := m.armedRequests + 1 } .none .terminal =
      .ok m := by
  obtain ⟨options, state, queued, armed⟩ := m
  obtain rfl : state = .active := h
  rw [completeMultishotEvent_of_admits .terminal ⟨Nat.succ_ne_zero _, by simp, by simp⟩]
  simp [counted, reconcileStopping, endedBy, queuedBy]

theorem Consistent.reconcile (h : m.Consistent) {armed queued : ℕ}
    (ha : armed ≤ m.armedRequests) (hq : queued ≤ m.options.eventCapacity)
    (hend : m.state = .idle ∨ m.state = .terminal → queued = 0) :
    Consistent { m with armedRequests := armed, queuedEvents := queued }.reconcileStopping := by
  refine ⟨h.valid, ?_, hq, Nat.le_trans ha h.armed_le⟩
  refine SourceState.reconcileStopping_consistent ⟨fun hs => ?_, fun hs => ?_⟩
  · have := h.lifecycle.quiet hs
    simp only
    omega
  · exact drained_iff.mpr (hend hs)

theorem Consistent.completed (h : m.Consistent)
    (request : MultishotRequestDisposition) (ha : m.admits event) :
    (m.counted event request).reconcileStopping.Consistent := by
  refine h.reconcile (Nat.sub_le _ _) ?_ fun hs => absurd (h.lifecycle.quiet ?_) ha.1
  · have hq := h.queued_le
    have hp := ha.2.2
    cases event with
    | produced => exact hp rfl
    | none | delivered => exact hq
  · rcases hs with hs | hs <;> simp [hs]

theorem consumeEvent_eq (hq : m.queuedEvents ≠ 0) : m.consumeEvent =
    some { m with queuedEvents := m.queuedEvents - 1 }.reconcileStopping := by
  rw [consumeEvent, if_neg hq]

theorem Consistent.consumed (h : m.Consistent) (hq : m.queuedEvents ≠ 0) :
    { m with queuedEvents := m.queuedEvents - 1 }.reconcileStopping.Consistent ∧
      ({ m with queuedEvents := m.queuedEvents - 1 }.reconcileStopping.state = m.state ∨
        m.state = .draining ∧
          { m with queuedEvents := m.queuedEvents - 1 }.reconcileStopping.state = .terminal) := by
  have hle := h.queued_le
  refine ⟨h.reconcile (Nat.le_refl _) (by omega) fun hs => ?_, ?_⟩
  · exact absurd (drained_iff.mp (h.lifecycle.ends hs)) hq
  · simp only [reconcileStopping, SourceState.reconcileStopping_eq h.lifecycle]
    split_ifs with hd
    · exact .inr ⟨hd.1, rfl⟩
    · exact .inl rfl

theorem Consistent.requestStop (h : m.Consistent) : m.requestStop.Consistent :=
  { h with lifecycle := SourceState.requestStop_consistent h.lifecycle }

theorem requestPause_getD : m.requestPause.toOption.getD m =
    { m with
      state := if m.state = .active then if m.armedRequests = 0 then .paused else .pausing
        else m.state } := by
  unfold requestPause SourceState.requestPause
  obtain ⟨options, state, queued, armed⟩ := m
  cases state <;> simp [Except.map, Except.toOption, SourceState.reconcilePause]

theorem Consistent.requestPause_getD (h : m.Consistent) :
    (m.requestPause.toOption.getD m).Consistent := by
  unfold AcceptSourceStateMachine.requestPause
  cases hs : m.state.requestPause m.armedRequests with
  | error e => exact h
  | ok st =>
    exact { h with lifecycle := SourceState.requestPause_consistent h.lifecycle hs }

theorem Consistent.activate (h : m.Consistent) : Consistent { m with state := .active } :=
  { h with lifecycle := SourceState.consistent_active }

theorem Consistent.arm (h : m.Consistent) (hc : m.canArm = true) :
    Consistent { m with armedRequests := m.armedRequests + 1 } := by
  obtain ⟨hs, ha, -⟩ := canArm_iff.mp hc
  exact ⟨h.valid, by simpa only [hs] using SourceState.consistent_active, h.queued_le, ha⟩

/-- **No starvation.** An active machine with nothing armed and room in its queue can arm. -/
theorem Consistent.canArm_of_room (h : m.Consistent) (hs : m.state = .active)
    (ha : m.armedRequests = 0) (hq : m.queuedEvents < m.options.eventCapacity) :
    m.canArm = true := by
  obtain ⟨hd, -, -⟩ := AcceptSourceOptions.valid_iff.mp h.valid
  exact canArm_iff.mpr ⟨hs, by omega, by omega⟩

end AcceptSourceStateMachine

end Alyrn.Net
