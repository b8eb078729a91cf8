import Alyrn.Uring.RecvSource.Calls

/-!
# Runs of RecvSource

What holds in every state that a receive source reaches between two entries. No lease is
overwritten, whatever happens (`leases_intact`). The payloads keep their order while a waiting
`Next()` finds a lease (`bytes_in_order`), and a parked `Next()` is woken unless one of three
entries meets it at the wrong moment (`parked_next_woken`).
-/

namespace Alyrn.Uring

open Net Transition

namespace RecvSource

/-! ## Conditions on a step -/

/-- What the kernel guarantees about a receive completion: it selects a buffer of the ring, fills
it with at most its size, and never splits it. -/
def Honest (s : RecvSource) : Action → Prop
  | .recvCqe event bytes _ =>
    event.bufferMore = false ∧ event.result.toNat ≤ s.bufferSize ∧
      (event.hasSelectedBuffer = true → event.selectedBufferId ∈ s.buffers.pool.ring) ∧
      (0 < event.result → bytes.length = event.result.toNat)
  | _ => True

/-- A payload does not arrive for a parked `Next()` of an active source whose leases are all
outside. -/
def HasLease (s : RecvSource) : Action → Prop
  | .recvCqe event _ _ => 0 < event.result ∧ s.validBuffer event = true →
    ¬ (s.pendingNext.isSome = true ∧ s.machine.state = .active ∧
      s.machine.options.bufferCapacity ≤ s.machine.outstandingLeases)
  | _ => True

/-- The last lease does not come back to a draining source, a paused source without leases is not
stopped, while somebody is parked; and a cancel request fails only where nothing waits for it. -/
def Undisturbed (s : RecvSource) : Action → Prop
  | .release _ _ => ¬ (s.machine.state = .draining ∧ s.pendingNext.isSome ∧
      s.machine.outstandingLeases = 1)
  | .requestStop _ | .stop _ => ¬ (s.pendingNext.isSome ∧ s.machine.state = .paused ∧
      s.machine.outstandingLeases = 0)
  | .cancelCqe result _ => isExpectedCancelCqeResult result = true ∨
      s.machine.state ≠ .pausing ∧ s.machine.state ≠ .paused
  | _ => True

instance (s : RecvSource) (a : Action) : Decidable (Honest s a) := by
  cases a <;> dsimp only [Honest] <;> infer_instance

instance (s : RecvSource) (a : Action) : Decidable (HasLease s a) := by
  cases a <;> dsimp only [HasLease] <;> infer_instance

instance (s : RecvSource) (a : Action) : Decidable (Undisturbed s a) := by
  cases a <;> dsimp only [Undisturbed] <;> infer_instance

/-! ## Steps -/

variable {s s' : RecvSource} {a : Action}

/-- The invariant between two entries. -/
structure Between (s : RecvSource) : Prop where
  inv : Inv s
  empty : s.pendingNext.isSome → s.backlog = []

theorem Kept.between {s₀ : RecvSource} {f : List (List UInt8)} (h : Kept s₀ s f) : Between s :=
  ⟨h.inv, h.empty⟩

/-- **The step lemma.** Every step keeps the invariant. A step that brings no payload keeps the
payloads, and an undisturbed step keeps a parked awaiter wakeable. -/
theorem Between.step (h : Between s) (hstep : step a s = some s') :
    Between s' ∧ (Wakeable s → Undisturbed s a → Wakeable s') ∧
      ((∀ event bytes answers, a ≠ .recvCqe event bytes answers) →
        s'.flow = s.flow ∧ s'.received = s.received) := by
  unfold RecvSource.step at hstep
  rw [if_neg (by simp [h.inv.control.alive])] at hstep
  cases a with
  | recvCqe event bytes answers =>
    dsimp only at hstep
    split_ifs at hstep with hin
    cases hstep
    obtain ⟨hk, hw⟩ := h.inv.onCompletion h.empty hin event bytes answers
    exact ⟨hk.between, fun hs _ => hw hs.stall, fun hne => absurd rfl (hne event bytes answers)⟩
  | cancelCqe result answers =>
    dsimp only at hstep
    split_ifs at hstep with hin
    cases hstep
    obtain ⟨hk, hw⟩ := h.inv.onCancelComplete h.empty hin result answers
    exact ⟨hk.between, hw, fun _ => ⟨hk.flow, hk.received⟩⟩
  | next answers =>
    cases hstep
    obtain ⟨hk, hw⟩ := h.inv.next h.empty answers
    exact ⟨hk.between, fun hs _ => hw hs, fun _ => ⟨hk.flow, hk.received⟩⟩
  | release i answers =>
    dsimp only at hstep
    cases hi : s.leases[i]? with
    | none => simp [hi] at hstep
    | some lease =>
      rw [hi] at hstep
      cases hstep
      obtain ⟨hk, hw⟩ := h.inv.returnQueuedPayload h.empty hi answers
      exact ⟨hk.between, hw, fun _ => ⟨hk.flow, hk.received⟩⟩
  | requestStop answers =>
    cases hstep
    obtain ⟨hk, hw⟩ := h.inv.requestStop h.empty answers
    exact ⟨hk.between, hw, fun _ => ⟨hk.flow, hk.received⟩⟩
  | stop answers =>
    cases hstep
    obtain ⟨hk, hw⟩ := h.inv.stop h.empty answers
    exact ⟨hk.between, hw, fun _ => ⟨hk.flow, hk.received⟩⟩

theorem between_init (h : system.init s) : Between s ∧ Wakeable s ∧ s.flow = s.received := by
  obtain ⟨options, loop, hpool, hc⟩ := h
  obtain ⟨hk, hr, hw⟩ := create_ok hpool hc
  exact ⟨hk.between, hw, by rw [hk.flow, hr]⟩

theorem between_of_reachesBy {C : RecvSource → Action → Prop} (h : system.ReachesBy C s) :
    Between s :=
  h.invariant (fun _ hi => (between_init hi).1) fun _ _ _ hb _ hs => (hb.step hs).1

/-! ## Payloads -/

theorem Between.recv_flow (h : Between s) {event : CompletionEvent} {bytes : List UInt8}
    {answers : List (Option Error)} (hhonest : Honest s (.recvCqe event bytes answers))
    (hlease : HasLease s (.recvCqe event bytes answers))
    (hstep : RecvSource.step (.recvCqe event bytes answers) s = some s')
    (hflow : s.flow = s.received) : s'.flow = s'.received := by
  unfold RecvSource.step at hstep
  rw [if_neg (by simp [h.inv.control.alive])] at hstep
  dsimp only at hstep
  split_ifs at hstep with hin
  cases hstep
  obtain ⟨hk, -⟩ := h.inv.onCompletion h.empty hin event bytes answers
  obtain ⟨-, -, -, hrefuse, hsize, -, hrecv⟩ := s.arrived_frame event bytes answers
  rw [hk.flow, hk.received, hrecv, hflow]
  by_cases hpos : 0 < event.result ∧ s.validBuffer event = true
  · rw [if_pos hpos, if_pos hpos]
    obtain ⟨hmore, hle, -, hlen⟩ := hhonest
    -- a refused payload is one without a lease
    have hnot : s.refuses = false := by
      by_contra hr
      rw [Bool.not_eq_false, refuses, decide_eq_true_eq, directDelivery_iff] at hr
      obtain ⟨⟨hp, -, hact⟩, hfull⟩ := hr
      simp only [RecvSourceStateMachine.canDeliverEvent, decide_eq_false_iff_not,
        Nat.not_lt] at hfull
      exact hlease hpos ⟨hp, hact, hfull⟩
    rw [accepted, if_pos ⟨hmore, hsize ▸ hle, hrefuse.trans hnot⟩, ← hlen hpos.1,
      filled_arrived h.inv answers hpos.2 (hlen hpos.1 ▸ hle)]
  · rw [if_neg hpos, if_neg hpos, List.append_nil]

theorem flow_eq_received (h : system.ReachesBy (fun s a => Honest s a ∧ HasLease s a) s) :
    s.flow = s.received := by
  have hboth : Between s ∧ s.flow = s.received := by
    refine h.invariant (I := fun t => Between t ∧ t.flow = t.received) (fun t ht => ?_) ?_
    · obtain ⟨hb, -, hf⟩ := between_init ht
      exact ⟨hb, hf⟩
    · rintro t a t' ⟨hb, hf⟩ hc hs
      obtain ⟨hb', -, hquiet⟩ := hb.step hs
      refine ⟨hb', ?_⟩
      cases a with
      | recvCqe event bytes answers => exact hb.recv_flow hc.1 hc.2 hs hf
      | cancelCqe | next | release | requestStop | stop =>
        obtain ⟨h1, h2⟩ := hquiet (by simp)
        rw [h1, h2, hf]
  exact hboth.2

/-- **Bytes in order.** The payloads handed to `Next()`, then those of the queue, then those of
the overflow list are the payloads received, while no payload arrives for a parked `Next()` that
finds every lease outside. -/
theorem bytes_in_order (s : RecvSource)
    (h : system.ReachesBy (fun s a => Honest s a ∧ HasLease s a) s) :
    s.handed ++ (s.events.toList.map (fun e => s.payload e.copySlot e.size) ++ s.overflow) =
      s.received :=
  flow_eq_received h

def smallOptions (n : ℕ) : RecvSourceOptions where
  source := { eventCapacity := n, bufferCapacity := n }
  bufferSize := 1

def small (n : ℕ) : RecvSource :=
  make
    { options := (smallOptions n).source, state := .idle, queuedEvents := 0, armedRequests := 0,
      outstandingLeases := 0 }
    { capacity := n, publishedCapacity := n, bufferSize := 1,
      storage := List.replicate n [0], inUse := List.replicate n false, ring := List.range n }

theorem small_one_init : system.init (small 1) :=
  ⟨smallOptions 1, { capacity := 1, size := 1, pool := none }, by simp, rfl⟩

theorem small_two_init : system.init (small 2) :=
  ⟨smallOptions 2, { capacity := 2, size := 1, pool := none }, by simp, rfl⟩

def byteCqe (id : ℕ) (byte : UInt8) : Action :=
  .recvCqe { result := 1, flags := bufferFlags id true } [byte] []

/-- A byte is handed out, a second one waits in the queue. -/
theorem bytes_in_order_run :
    ∃ s, system.ReachesBy (fun s a => Honest s a ∧ HasLease s a) s ∧ s.received = [[7], [8]] ∧
      s.handed ++ (s.events.toList.map (fun e => s.payload e.copySlot e.size) ++ s.overflow) =
        s.received := by
  obtain ⟨s, hr, hp⟩ := System.exists_reachesBy system (fun s a => Honest s a ∧ HasLease s a)
    (small 2) small_two_init [.next [], byteCqe 0 7, byteCqe 1 8]
    (P := fun s => s.received = [[7], [8]]) (by decide)
  exact ⟨s, hr, hp, bytes_in_order s hr⟩

/-- **A byte is lost.** The only lease is outside and `Next()` waits: the next byte is refused with
`ENOBUFS`, its buffer goes back to the ring, and the source stops. -/
theorem byte_lost_without_lease :
    ∃ s, system.ReachesBy Honest s ∧
      s.handed ++ (s.events.toList.map (fun e => s.payload e.copySlot e.size) ++ s.overflow) ≠
        s.received :=
  system.exists_reachesBy _ (small 1) small_one_init [.next [], byteCqe 0 7, .next [], byteCqe 0 8]
    (by decide)

/-- **Leases stay intact.** While the application holds a lease, its bytes do not change. -/
theorem leases_intact (h : system.Reaches s) :
    ∀ l ∈ s.leases, s.payload l.copySlot l.size = l.bytes :=
  (between_of_reachesBy h).inv.stock.leaseBytes

/-- The second byte leaves the lease of the first alone. -/
theorem leases_intact_two :
    ∃ s, system.Reaches s ∧ s.leases.length = 2 ∧
      ∀ l ∈ s.leases, s.payload l.copySlot l.size = l.bytes := by
  obtain ⟨s, hr, hp⟩ := System.exists_reachesBy system (fun _ _ => True) (small 2) small_two_init
    [.next [], byteCqe 0 7, .next [], byteCqe 1 8] (P := fun s => s.leases.length = 2)
    (by decide)
  exact ⟨s, hr, hp, leases_intact hr⟩

/-! ## Parked awaiters -/

/-- **A parked `Next()` is woken.** Nothing is deliverable, and unless a lease is outside a request
is in flight, while no step disturbs the source. -/
theorem parked_next_woken (s : RecvSource) (h : system.ReachesBy Undisturbed s)
    (hp : s.pendingNext.isSome = true) :
    (s.events.toList = [] ∧ s.overflow = [] ∧ s.machine.state ≠ .terminal) ∧
      (s.machine.outstandingLeases = 0 → s.ctl.inFlight = true ∨ s.ctl.cancelInFlight = true) := by
  have hboth : Between s ∧ Wakeable s := by
    refine h.invariant (I := fun t => Between t ∧ Wakeable t) (fun t ht => ?_) ?_
    · obtain ⟨hb, hw, -⟩ := between_init ht
      exact ⟨hb, hw⟩
    · rintro t a t' ⟨hb, hw⟩ hc hs
      obtain ⟨hb', hw', -⟩ := hb.step hs
      exact ⟨hb', hw' hw hc⟩
  obtain ⟨⟨hinv, hempty⟩, hw⟩ := hboth
  obtain ⟨hev, hov⟩ := backlog_eq_nil.mp (hempty hp)
  refine ⟨⟨hev, hov, hw.live hp⟩, fun hl => ?_⟩
  obtain ⟨hin, hcancel⟩ := hinv.control.inStep
  rw [hin, hcancel]
  cases hsub : s.ctl.submitted with
  | true => exact .inl rfl
  | false =>
    -- a paused source, which has no reason to stay paused but its cancel request
    have hpaused := hw.paused hinv hp hsub hl
    rcases hw.resumable hpaused with hc | hq | ho | he
    · exact .inr hc
    · have := hinv.stock.leased
      omega
    · exact absurd hov ho
    · rw [hw.stall (.inr hpaused)] at he
      cases he

/-- `Next()` parks with its receive request in flight. -/
theorem parked_next_woken_run :
    ∃ s, system.ReachesBy Undisturbed s ∧ s.pendingNext.isSome = true ∧
      s.machine.outstandingLeases = 0 ∧ (s.ctl.inFlight = true ∨ s.ctl.cancelInFlight = true) := by
  obtain ⟨s, hr, hp⟩ := System.exists_reachesBy system Undisturbed (small 1) small_one_init
    [.next [], byteCqe 0 7, .release 0 [], .next []]
    (P := fun s => s.pendingNext.isSome = true ∧ s.machine.outstandingLeases = 0) (by decide)
  exact ⟨s, hr, hp.1, hp.2, (parked_next_woken s hr hp.1).2 hp.2⟩

def cancelledCqe : Action := .recvCqe { result := -ECANCELED, flags := 0 } [] []

/-- **Orphaned by the last lease.** `Next()` parks in a draining source, and the release of the
last lease makes the source terminal without a delivery. -/
theorem orphaned_by_last_lease :
    ∃ s, system.Reaches s ∧ s.pendingNext.isSome = true ∧ s.machine.state = .terminal ∧
      s.leases = [] ∧ s.ctl.inFlight = false ∧ s.ctl.cancelInFlight = false :=
  system.exists_reachesBy _ (small 1) small_one_init
    [.next [], byteCqe 0 7, .requestStop [], cancelledCqe, .cancelCqe 0 [], .next [], .release 0 []]
    (by decide)

end RecvSource

end Alyrn.Uring
