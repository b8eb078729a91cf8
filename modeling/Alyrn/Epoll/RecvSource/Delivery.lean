import Alyrn.Epoll.RecvSource
import Alyrn.Lib.SlotPool

/-!
# Admission and delivery in the epoll RecvSource

The invariant of the source (`Inv`) and what the functions below the entry points do to it.
Stopping and pausing end the armed request at once, so that between two entries only an active
source has one (`Inv.armed`), and its channel then reads (`Inv.reading`).
-/

namespace Alyrn.Epoll

open Net Transition

namespace RecvSource

/-! ## The invariant -/

def usedBuffers (s : RecvSource) : List ℕ :=
  s.events.map (·.bufferId) ++ s.leases.map (·.bufferId)

/-- The invariant, also inside a call. -/
structure Inv (s : RecvSource) : Prop where
  consistent : s.state.Consistent
  depth : s.state.options.pendingDepth = 1
  queued : s.events.length = s.state.queuedEvents
  leased : s.state.outstandingLeases = s.state.queuedEvents + s.leases.length
  slots : SlotPool.Covers s.state.options.bufferCapacity s.bufferSize s.storage s.availableBuffers
    s.usedBuffers
  eventSize : ∀ l ∈ s.events, l.size ≤ s.bufferSize
  reading : s.reading = true ↔ s.state.armedRequests ≠ 0
  armed : s.state.armedRequests ≠ 0 → s.state.state = .active
  alive : s.aborted = false
  awaiters : Awaiters s.nexts s.nextCalls s.pendingNext
  fresh : s.state.state = .idle → s.pendingNext = none

def handed (s : RecvSource) : List (List UInt8) := handedOut s.nexts

/-- The payloads handed out and those queued, in order. -/
def flow (s : RecvSource) : List (List UInt8) := s.handed ++ s.events.map s.payload

/-- An active source without read interest waits for a lease to come back. -/
def Progress (s : RecvSource) : Prop :=
  s.state.state = .active → s.state.armedRequests = 0 → s.state.outstandingLeases ≠ 0

def PausedFull (s : RecvSource) : Prop := s.state.state = .paused → s.events ≠ []

variable {s : RecvSource} {m : RecvSourceStateMachine}

theorem Inv.withState (h : Inv s) {reading : Bool}
    {terminalError : Option Error} (hm : m.Consistent) (ho : m.options = s.state.options)
    (hq : m.queuedEvents = s.state.queuedEvents)
    (hl : m.outstandingLeases = s.state.outstandingLeases)
    (hr : reading = true ↔ m.armedRequests ≠ 0) (ha : m.armedRequests ≠ 0 → m.state = .active)
    (hi : m.state = .idle → s.state.state = .idle) :
    Inv { s with state := m, reading, terminalError } :=
  { h with
    consistent := hm
    depth := by rw [ho]; exact h.depth
    queued := by rw [hq]; exact h.queued
    leased := by rw [hl, hq]; exact h.leased
    slots := by rw [ho]; exact h.slots
    reading := hr
    armed := ha
    fresh := fun hs => h.fresh (hi hs) }

/-! ## Admission -/

/-- **Admission** gives an active source its read interest, unless leases are outside. -/
theorem Inv.ensureAdmission (h : Inv s) :
    ∃ armed reading, s.ensureAdmission =
        { s with state := { s.state with armedRequests := armed }, reading } ∧
      Inv s.ensureAdmission ∧ Progress s.ensureAdmission := by
  unfold RecvSource.ensureAdmission
  by_cases hg : s.state.state ≠ .active ∨ s.state.armedRequests ≠ 0
  · rw [if_pos hg]
    refine ⟨_, _, rfl, h, fun hact harmed => ?_⟩
    rcases hg with hg | hg
    · exact absurd hact hg
    · exact absurd harmed hg
  · rw [if_neg hg]
    simp only [ne_eq, not_or, not_not] at hg
    obtain ⟨hact, harmed⟩ := hg
    unfold RecvSourceStateMachine.tryArm
    cases hc : s.state.canArm with
    | true =>
      refine ⟨_, _, rfl, h.withState (h.consistent.arm hc) rfl rfl rfl ?_ ?_ ?_, ?_⟩
      · simp
      · exact fun _ => hact
      · exact id
      · exact fun _ hz => absurd hz (Nat.succ_ne_zero _)
    | false =>
      refine ⟨_, _, rfl, h, fun _ _ hl => ?_⟩
      have hl : s.state.outstandingLeases = 0 := hl
      have hq : s.state.queuedEvents = 0 := by
        have := h.leased
        omega
      rw [h.consistent.canArm_of_empty hact harmed hq hl] at hc
      exact absurd hc (by decide)

def stopped (m : RecvSourceStateMachine) : RecvSourceStateMachine :=
  { m with armedRequests := 0, state := if m.drained then .terminal else .draining }

def paused (m : RecvSourceStateMachine) : RecvSourceStateMachine :=
  { m with armedRequests := 0, state := .paused }

theorem Inv.armed_le (h : Inv s) : s.state.armedRequests ≤ 1 := by
  have := h.consistent.armed_le
  rwa [h.depth] at this

theorem complete_none_terminal (ha : m.armedRequests = 1) :
    m.completeMultishotEvent .none .terminal =
      .ok { m with armedRequests := 0, state := m.state.reconcileStopping 0 m.drained } := by
  rw [RecvSourceStateMachine.completeMultishotEvent_of_admits .terminal
    ⟨by rw [ha]; decide, by simp, by simp⟩]
  simp [RecvSourceStateMachine.counted, RecvSourceStateMachine.reconcileStopping,
    endedBy, RecvSourceStateMachine.drained, ha]

theorem completeReadiness_eq (ha : s.state.armedRequests = 1) :
    s.completeReadiness = { s with
      reading := false
      state := { s.state with
        armedRequests := 0, state := s.state.state.reconcileStopping 0 s.state.drained } } := by
  unfold completeReadiness check
  rw [if_pos (by rw [ha]; decide), complete_none_terminal ha]
  rfl

theorem Inv.completeReadiness_stop (h : Inv s) (terminalError : Option Error) :
    completeReadiness { s with terminalError, state := s.state.requestStop } =
      { s with terminalError, reading := false, state := stopped s.state } := by
  have hst : s.state.requestStop.state = if s.state.armedRequests ≠ 0 then .stopping
      else if s.state.drained then .terminal else .draining :=
    SourceState.requestStop_eq h.consistent.lifecycle
  by_cases ha : s.state.armedRequests = 0
  · rw [if_neg (not_not.mpr ha)] at hst
    have hm : s.state.requestStop = stopped s.state := by
      show { s.state with state := s.state.requestStop.state } = stopped s.state
      rw [hst, stopped, ← ha]
    rw [hm]
    rfl
  · have hle := h.armed_le
    have hone : s.state.requestStop.armedRequests = 1 := by
      show s.state.armedRequests = 1
      omega
    rw [if_pos ha] at hst
    rw [completeReadiness_eq (by exact hone)]
    rw [hst]
    rfl

theorem Inv.requestBackendPause_eq (h : Inv s) (hact : s.state.state = .active)
    (ha : s.state.armedRequests ≠ 0) :
    s.requestBackendPause = { s with reading := false, state := paused s.state } := by
  have hle := h.armed_le
  have hone : s.state.armedRequests = 1 := by omega
  have hpause : s.state.requestPause = .ok { s.state with state := .pausing } := by
    simp [RecvSourceStateMachine.requestPause, SourceState.requestPause, hact,
      SourceState.reconcilePause, hone, Except.map]
  rw [requestBackendPause, hpause]
  show completeReadiness { s with state := { s.state with state := .pausing } } = _
  rw [completeReadiness_eq (by exact hone)]
  rfl

theorem Inv.stopped (h : Inv s) (terminalError : Option Error) :
    Inv { s with terminalError, reading := false, state := stopped s.state } ∧
      (RecvSource.stopped s.state).state ≠ .active ∧
      (RecvSource.stopped s.state).state ≠ .paused := by
  have hd : (RecvSource.stopped s.state).drained = s.state.drained := rfl
  have hstate : (RecvSource.stopped s.state).state =
      if s.state.drained then .terminal else .draining := rfl
  refine ⟨h.withState ⟨h.consistent.valid, ?_, h.consistent.queued_le, h.consistent.leases_le,
    Nat.zero_le _⟩ rfl rfl rfl (by simp [RecvSource.stopped]) (by simp [RecvSource.stopped]) ?_,
    ?_, ?_⟩
  · rw [hd, hstate]
    cases s.state.drained <;> exact ⟨⟨fun _ => rfl, by simp⟩, by simp, by simp⟩
  all_goals
    rw [hstate]
    split_ifs <;> simp

theorem Inv.paused (h : Inv s) :
    Inv { s with reading := false, state := RecvSource.paused s.state } :=
  h.withState ⟨h.consistent.valid, ⟨⟨fun _ => rfl, by simp [RecvSource.paused]⟩,
    by simp [RecvSource.paused], by simp [RecvSource.paused]⟩, h.consistent.queued_le,
    h.consistent.leases_le, Nat.zero_le _⟩ rfl rfl rfl (by simp [RecvSource.paused])
    (by simp [RecvSource.paused]) (by simp [RecvSource.paused])

/-! ## Delivery -/

/-- The first payload was taken from the queue. -/
structure Took (s s' : RecvSource) (bytes : List UInt8) : Prop where
  inv : Inv s'
  payloads : s.events.map s.payload = bytes :: s'.events.map s'.payload
  nexts : s'.nexts = s.nexts
  received : s'.received = s.received
  nextCalls : s'.nextCalls = s.nextCalls
  pendingNext : s'.pendingNext = s.pendingNext
  progress : Progress s'
  pausedFull : PausedFull s'

/-- The source after the first event was taken, with the machine `m`. -/
def taken (s : RecvSource) (lease : BufferLease) (events : List BufferLease)
    (m : RecvSourceStateMachine) : RecvSource :=
  { s with events, leases := s.leases ++ [lease], state := m }

theorem Inv.taken (h : Inv s) {lease : BufferLease} {events : List BufferLease}
    (hev : s.events = lease :: events) :
    ∃ m, s.state.acquireEvent = some m ∧ Inv (s.taken lease events m) := by
  have hlen := h.queued
  rw [hev, List.length_cons] at hlen
  have hq : s.state.queuedEvents ≠ 0 := by omega
  have hdrop := RecvSourceStateMachine.dropQueuedEvent_eq hq
  have hstate := h.consistent.reconcile_state (s.state.queuedEvents - 1)
    s.state.outstandingLeases
  refine ⟨_, hdrop, h.consistent.dropQueuedEvent hdrop, h.depth, ?_, ?_, h.slots.perm ?_,
    fun l hl => ?_, h.reading, fun ha => ?_, h.alive, h.awaiters, fun hi => ?_⟩
  · show events.length = s.state.queuedEvents - 1
    omega
  · show s.state.outstandingLeases = s.state.queuedEvents - 1 + (s.leases ++ [lease]).length
    have := h.leased
    rw [List.length_append, List.length_singleton]
    omega
  · rw [usedBuffers, usedBuffers, hev]
    simp only [RecvSource.taken, List.map_append, ← List.append_assoc]
    exact List.perm_append_singleton _ _
  · exact h.eventSize l (hev ▸ List.mem_cons_of_mem lease hl)
  · have hact := h.armed ha
    rcases hstate with hs | ⟨hd, -⟩
    · exact hs.trans hact
    · exact absurd (hd.symm.trans hact) (by decide)
  · rcases hstate with hs | ⟨-, hs⟩
    · exact h.fresh (hs ▸ hi)
    · exact absurd (hs.symm.trans hi) (by decide)

theorem Inv.tryResume (h : Inv s) :
    ∃ m, (if s.state.state = .paused then { s with state := s.state.tryResume.getD s.state }
        else s) = { s with state := m } ∧ Inv { s with state := m } ∧
      PausedFull { s with state := m } := by
  by_cases hp : s.state.state = .paused
  · rw [if_pos hp]
    refine ⟨_, rfl, ?_⟩
    unfold RecvSourceStateMachine.tryResume
    by_cases hlong : s.state.options.resumeThresholdOrHalf < s.state.queuedEvents
    · rw [if_pos (.inr hlong)]
      refine ⟨h, fun _ hev => ?_⟩
      have := h.queued
      rw [show s.events = [] from hev, List.length_nil] at this
      omega
    · rw [if_neg (by simp [hp, hlong])]
      have ha := h.consistent.lifecycle.quiet (.inr (.inl hp))
      refine ⟨?_, nofun⟩
      exact h.withState h.consistent.activate rfl rfl rfl h.reading
        (fun hne => absurd ha hne) nofun
  · rw [if_neg hp]
    exact ⟨s.state, rfl, h, fun hs => absurd hs hp⟩

theorem Inv.tryTakeNext_cons (h : Inv s) (hne : s.events ≠ []) :
    ∃ bytes s', s.tryTakeNext = (some (.event bytes), s') ∧ Took s s' bytes := by
  obtain ⟨lease, events, hev⟩ := List.exists_cons_of_ne_nil hne
  obtain ⟨m, hacq, htaken⟩ := h.taken hev
  obtain ⟨m', heq, hinv, hfull⟩ := htaken.tryResume
  obtain ⟨armed, reading, hadm, hinv', hprog⟩ := hinv.ensureAdmission
  refine ⟨s.payload lease,
    ({ s.taken lease events m with state := m' } : RecvSource).ensureAdmission, ?_, hinv', ?_, ?_,
    ?_, ?_, ?_, hprog, ?_⟩
  · have hcheck : ({ s with events, leases := s.leases ++ [lease] } : RecvSource).check
        s.state.acquireEvent = s.taken lease events m := by
      rw [hacq]
      rfl
    simp only [tryTakeNext, hev]
    rw [hcheck, heq]
    rfl
  · rw [hev, hadm]
    rfl
  · rw [hadm]; rfl
  · rw [hadm]; rfl
  · rw [hadm]; rfl
  · rw [hadm]; rfl
  · rw [hadm]; exact hfull

def terminalResult (s : RecvSource) : NextResult (List UInt8) :=
  match s.terminalError with
  | some e => .error e
  | none => .endOfStream

theorem tryTakeNext_nil (hev : s.events = []) :
    s.tryTakeNext = (if s.state.state = .terminal then some s.terminalResult else none, s) := by
  rw [tryTakeNext, hev]
  split_ifs <;> rfl

theorem Inv.completeNext (h : Inv s) {a : ℕ} (hp : s.pendingNext = some a)
    (r : NextResult (List UInt8)) :
    { s with pendingNext := none }.completeNext a r =
        { s with pendingNext := none, nexts := s.nexts ++ [(a, r)] } ∧
      Inv { s with pendingNext := none, nexts := s.nexts ++ [(a, r)] } := by
  have haw : Awaiters s.nexts s.nextCalls (some a) := hp ▸ h.awaiters
  obtain ⟨heq, haw'⟩ := haw.complete r
  refine ⟨?_, { h with awaiters := haw', fresh := fun _ => rfl }⟩
  rw [RecvSource.completeNext, heq]

theorem terminalResult_events : s.terminalResult.events = [] := by
  unfold terminalResult
  split <;> rfl

/-- What a delivery leaves behind. -/
structure Delivered (s s' : RecvSource) : Prop where
  inv : Inv s'
  live : s'.pendingNext.isSome → s'.events = [] ∧ s'.state.state ≠ .terminal
  progress : Progress s → Progress s'
  pausedFull : PausedFull s → PausedFull s'
  flow : s'.flow = s.flow
  received : s'.received = s.received

theorem Inv.deliverNextIfReady (h : Inv s) : Delivered s s.deliverNextIfReady := by
  unfold RecvSource.deliverNextIfReady
  cases hp : s.pendingNext with
  | none => exact ⟨h, by simp [hp], id, id, rfl, rfl⟩
  | some a =>
    by_cases hev : s.events = []
    · rw [tryTakeNext_nil hev]
      split_ifs with ht
      · obtain ⟨heq, hinv⟩ := h.completeNext hp s.terminalResult
        dsimp only
        rw [heq]
        refine ⟨hinv, by simp, id, id, ?_, rfl⟩
        simp only [RecvSource.flow, handed, handedOut_append, terminalResult_events,
          List.append_nil]
        rfl
      · exact ⟨h, fun _ => ⟨hev, ht⟩, id, id, rfl, rfl⟩
    · obtain ⟨bytes, t, htake, htook⟩ := h.tryTakeNext_cons hev
      obtain ⟨heq, hinv⟩ := htook.inv.completeNext (htook.pendingNext.trans hp) (.event bytes)
      rw [htake]
      dsimp only
      rw [heq]
      refine ⟨hinv, by simp, fun _ => htook.progress, fun _ => htook.pausedFull, ?_, htook.received⟩
      rw [RecvSource.flow, RecvSource.flow, htook.payloads, handed, handedOut_append, htook.nexts,
        List.append_assoc]
      rfl

theorem completeStopIfReady_eq :
    ∃ pendingStop stops, s.completeStopIfReady = { s with pendingStop, stops } := by
  unfold RecvSource.completeStopIfReady completeStop
  cases hp : s.pendingStop with
  | none => exact ⟨s.pendingStop, s.stops, rfl⟩
  | some a =>
    split_ifs
    · exact ⟨s.pendingStop, s.stops, rfl⟩
    · exact ⟨none, _, rfl⟩

end RecvSource

end Alyrn.Epoll
