import Alyrn.Uring.AcceptSource.Calls

/-!
# Runs of AcceptSource

What holds in every state that an accept source reaches between two entries. A parked `Next()` is
woken unless a stop or a failed cancel request meets a paused source (`parked_accept_woken`). The
connections keep their order, and every delivery completes the awaiter it was called for, unless a
submission fails while a delivery is under way (`connections_in_order`).
-/

namespace Alyrn.Uring

open Net Transition

namespace AcceptSource

/-! ## Conditions on a step -/

/-- A paused source is not stopped while somebody is parked, and a cancel request fails only where
nothing waits for it. -/
def Undisturbed (s : AcceptSource) : Action → Prop
  | .stop _ => ¬ (s.pendingNext.isSome = true ∧ s.machine.state = .paused)
  | .cancelCqe result _ => isExpectedCancelCqeResult result = true ∨
      s.machine.state ≠ .pausing ∧ s.machine.state ≠ .paused
  | _ => True

def Allocates : Action → Prop
  | .acceptCqe _ wrapped _ => wrapped ≠ .noMemory
  | _ => True

def Resubmits (s : AcceptSource) : Action → Prop
  | .acceptCqe event wrapped answers => Rearms s event wrapped answers
  | _ => True

instance (s : AcceptSource) (a : Action) : Decidable (Undisturbed s a) := by
  cases a <;> dsimp only [Undisturbed] <;> infer_instance

instance (a : Action) : Decidable (Allocates a) := by
  cases a <;> dsimp only [Allocates] <;> infer_instance

instance (s : AcceptSource) (a : Action) : Decidable (Resubmits s a) := by
  cases a <;> unfold Resubmits <;> (try unfold Rearms) <;> infer_instance

/-! ## Steps -/

variable {s s' : AcceptSource} {a : Action}

def brings : Action → List ℕ
  | .acceptCqe event wrapped _ =>
    if 0 ≤ event.result ∧ wrapped ≠ .failed then [event.result.toNat] else []
  | _ => []

structure Stepped (s : AcceptSource) (a : Action) (s' : AcceptSource) : Prop where
  between : Between s'
  wakeable : Wakeable s → Undisturbed s a → Wakeable s'
  accepted : s'.accepted = s.accepted ++ brings a
  flow : Allocates a → Resubmits s a → s'.flow = s.flow ++ brings a ∧ (Sound s → Sound s')

theorem Kept.stepped (h : Kept s s') (ha : brings a = [])
    (hw : Wakeable s → Undisturbed s a → Wakeable s') : Stepped s a s' :=
  ⟨h.between, hw, by rw [ha, List.append_nil]; exact h.accepted,
    fun _ _ => ⟨by rw [ha, List.append_nil]; exact h.flow, h.sound⟩⟩

theorem Between.listenerStep (h : Between s) {l : Listener} (hok : l.Ok)
    (hc : l.closed = s.listener.closed) (ha : s.ctl.submitted.toNat ≤ l.pendingAccepts)
    (hs : s.listener.acceptSource = some .this → l.acceptSource = some .this)
    (hb : brings a = []) : Stepped s a { s with listener := l } := by
  have hr : Resumed s { s with listener := l } := .aside h.inv (h.inv.withListener hok hc ha hs)
  exact (hr.kept h).stepped hb fun hw _ => hr.wakeable hw

theorem Between.step (h : Between s) (hstep : step a s = some s') : Stepped s a s' := by
  have hok := h.inv.listenerOk
  unfold AcceptSource.step at hstep
  obtain ⟨halive, hstep⟩ := Option.ite_none_left_eq_some.mp hstep
  cases a with
  | acceptCqe event wrapped answers =>
    dsimp only at hstep
    split_ifs at hstep with hin
    cases hstep
    obtain ⟨hb, hw, hacc, hflow⟩ := h.onCompletion hin event wrapped answers
    refine ⟨hb, fun hs _ => hw hs.stall, ?_, fun hal hre => ?_⟩
    · rw [hacc, kernelAccept, brings]
      split_ifs <;> simp
    · obtain ⟨hf, hs⟩ := hflow hre
      refine ⟨?_, hs⟩
      rw [hf, arriving, brings]
      cases wrapped with
      | stream | failed => simp
      | noMemory => exact absurd rfl hal
  | cancelCqe result answers =>
    dsimp only at hstep
    split_ifs at hstep with hin
    cases hstep
    obtain ⟨hk, hw⟩ := h.onCancelComplete hin result answers
    exact hk.stepped rfl hw
  | next answers =>
    cases hstep
    obtain ⟨hk, hw⟩ := (h.withAnswers answers).next
    exact Kept.stepped { hk with } rfl
      fun h' _ => hw ⟨h'.live, h'.stall⟩
  | stop answers =>
    cases hstep
    obtain ⟨hk, hw⟩ := (h.withAnswers answers).stop
    exact Kept.stepped { hk with } rfl
      fun h' hc => hw ⟨h'.live, h'.stall⟩ hc
  | closeListener answers =>
    cases hstep
    obtain ⟨hk, hw⟩ := (h.withAnswers answers).closeListener
    exact Kept.stepped { hk with } rfl
      fun h' _ => hw ⟨h'.live, h'.stall⟩
  | closeCqe =>
    dsimp only at hstep
    split_ifs at hstep
    cases hstep
    obtain ⟨h1, h2, h3⟩ := Listener.notifyCloseProgress_frame (l := { s.listener with
      pendingClose := s.listener.pendingClose.map fun p =>
        (p.1, { p.2 with cancelRequestTerminal := true }) })
    refine h.listenerStep (Listener.Ok.notifyCloseProgress fun hc => ?_) h1
      (by rw [Listener.onCloseCancelComplete, h2]; exact h.inv.reserved) (fun h' => h3.trans h') rfl
    obtain ⟨hfd, hp⟩ := hok hc
    exact ⟨hfd, by simp [hp]⟩
  | stopLoop =>
    cases hstep
    have hi := h.inv
    exact Kept.stepped ⟨{ h with
      inv := { hi with } }, rfl, rfl, id⟩ rfl fun hw _ => ⟨hw.live, hw.stall⟩
  | reserve =>
    dsimp only at hstep
    split_ifs at hstep
    cases hstep
    exact h.listenerStep hok rfl (Nat.le_succ_of_le h.inv.reserved) id rfl
  | release =>
    dsimp only at hstep
    split_ifs at hstep with hlt
    cases hstep
    obtain ⟨h1, h2, h3⟩ := Listener.notifyCloseProgress_frame (l := { s.listener with
      pendingAccepts := s.listener.pendingAccepts - 1 })
    refine h.listenerStep (Listener.Ok.notifyCloseProgress hok) h1 ?_ (fun h' => h3.trans h') rfl
    rw [Listener.releaseAccept, h2]
    exact Nat.le_sub_one_of_lt hlt
  | otherStart =>
    dsimp only at hstep
    split_ifs at hstep with hbusy
    cases hstep
    refine h.listenerStep hok rfl h.inv.reserved (fun h' => ?_) rfl
    simp [h'] at hbusy
  | otherEnd =>
    dsimp only at hstep
    split_ifs at hstep with hother
    cases hstep
    refine h.listenerStep hok rfl h.inv.reserved (fun h' => ?_) rfl
    rw [hother] at h'
    cases h'

/-! ## Parked awaiters -/

/-- **A parked `Next()` is woken.** No connection waits, the source is not terminal, and an accept
or its cancel request is in flight, while no step disturbs the source. -/
theorem parked_accept_woken (s : AcceptSource) (h : system.ReachesBy Undisturbed s)
    (hp : s.pendingNext.isSome = true) :
    s.events = [] ∧ s.overflow = [] ∧ s.machine.state ≠ .terminal ∧
      (s.ctl.inFlight = true ∨ s.ctl.cancelInFlight = true) := by
  obtain ⟨hb, hw⟩ : Between s ∧ Wakeable s := by
    refine h.invariant (I := fun t => Between t ∧ Wakeable t) ?_ ?_
    · rintro t ⟨listener, loopStopping, options, hc⟩
      obtain ⟨hb, hw, -, -⟩ := create_ok hc
      exact ⟨hb, hw⟩
    · rintro t a t' ⟨hb, hw⟩ hc hs
      have hst := hb.step hs
      exact ⟨hst.between, hst.wakeable hw hc⟩
  obtain ⟨hev, hov⟩ := backlog_eq_nil.mp (hb.empty hp)
  refine ⟨hev, hov, hw.live hp, ?_⟩
  obtain ⟨hin, hcancel⟩ := hb.inv.inStep
  rw [hin, hcancel]
  cases hsub : s.ctl.submitted with
  | true => exact .inl rfl
  | false =>
    -- a paused source, which has no reason to stay paused but its cancel request
    have hpaused := hb.paused hw hp hsub
    rcases hb.resumable hpaused with hc | hq | ho | he
    · exact .inr hc
    · rw [hb.inv.queued, hev] at hq
      cases hq
    · exact absurd hov ho
    · rw [hw.stall (.inr hpaused)] at he
      cases he

def small (n : ℕ) : AcceptSource :=
  make (.make (.ok ())) false
    { options := { pendingDepth := 1, eventCapacity := n }, state := .idle, queuedEvents := 0,
      armedRequests := 0 }

theorem small_one_init : system.init (small 1) :=
  ⟨.make (.ok ()), false, { pendingDepth := 1, eventCapacity := 1 }, rfl⟩

theorem small_two_init : system.init (small 2) :=
  ⟨.make (.ok ()), false, { pendingDepth := 1, eventCapacity := 2 }, rfl⟩

def acceptedCqe (fd : ℕ) (more : Bool) (answers : List (Option Error)) : Action :=
  .acceptCqe { result := fd, flags := if more then cqeMore else 0 } .stream answers

def pausedParked : List Action :=
  [.next [], acceptedCqe 3 true [], acceptedCqe 4 true [],
    .acceptCqe { result := -ECANCELED, flags := 0 } .failed [], .next [], .next []]

/-- `Next()` parks in a paused source whose cancel request is in flight. -/
theorem parked_accept_woken_run :
    ∃ s, system.ReachesBy Undisturbed s ∧ s.pendingNext.isSome = true ∧
      s.machine.state = .paused ∧ (s.ctl.inFlight = true ∨ s.ctl.cancelInFlight = true) := by
  obtain ⟨s, hr, hp⟩ := System.exists_reachesBy system Undisturbed (small 1) small_one_init
    pausedParked (P := fun s => s.pendingNext.isSome = true ∧ s.machine.state = .paused)
    (by decide)
  exact ⟨s, hr, hp.1, hp.2, (parked_accept_woken s hr hp.1).2.2.2⟩

/-- **Orphaned by a stop** of the paused source, which is terminal at once; the completion of the
cancel request does not deliver. -/
theorem accept_orphaned_by_stop :
    ∃ s, system.Reaches s ∧ s.pendingNext.isSome = true ∧ s.machine.state = .terminal ∧
      s.ctl.inFlight = false ∧ s.ctl.cancelInFlight = false :=
  system.exists_reachesBy _ (small 1) small_one_init (pausedParked ++ [.stop [], .cancelCqe 0 []])
    (by decide)

/-! ## Connections -/

/-- **Connections in order.** No check fails, every delivery that takes a result completes the
awaiter that was parked when it began, and the connections handed to `Next()`, then those of the
queue, then those of the overflow list are the wrapped descriptors in the order of their arrival,
while no submission fails under a delivery. -/
theorem connections_in_order (s : AcceptSource)
    (h : system.ReachesBy (fun s a => Allocates a ∧ Resubmits s a) s) :
    s.ctl.aborted = false ∧ (∀ d ∈ s.deliveries, d.1 = d.2) ∧
      s.handed ++ (s.events ++ s.overflow) = s.accepted := by
  obtain ⟨-, hs, hf⟩ : Between s ∧ Sound s ∧ s.flow = s.accepted := by
    refine h.invariant (I := fun t => Between t ∧ Sound t ∧ t.flow = t.accepted) ?_ ?_
    · rintro t ⟨listener, loopStopping, options, hc⟩
      obtain ⟨hb, -, hs, hf⟩ := create_ok hc
      exact ⟨hb, hs, hf⟩
    · rintro t a t' ⟨hb, hs, hf⟩ ⟨hal, hre⟩ hstep
      have hst := hb.step hstep
      obtain ⟨hf', hs'⟩ := hst.flow hal hre
      exact ⟨hst.between, hs' hs, by rw [hf', hst.accepted, hf]⟩
  exact ⟨hs.1, hs.2, hf⟩

/-- A connection is handed out, a second one waits in the queue; the request is submitted again. -/
theorem connections_in_order_run :
    ∃ s, system.ReachesBy (fun s a => Allocates a ∧ Resubmits s a) s ∧ s.accepted = [3, 4] ∧
      s.handed ++ (s.events ++ s.overflow) = s.accepted := by
  obtain ⟨s, hr, hp⟩ := System.exists_reachesBy system
    (fun s a => Allocates a ∧ Resubmits s a) (small 2) small_two_init
    [.next [], acceptedCqe 3 false [], acceptedCqe 4 true []]
    (P := fun s => s.accepted = [3, 4]) (by decide)
  exact ⟨s, hr, hp, (connections_in_order s hr).2.2⟩

/-- **A connection is lost.** The only place of the queue is taken and given to the parked
`Next()`; resuming, the source cannot submit its request, becomes terminal and completes the
awaiter with the error. The outer delivery finds no awaiter for the connection it holds. -/
theorem connection_lost_to_nested_delivery :
    ∃ s, system.ReachesBy (fun _ a => Allocates a) s ∧ s.ctl.aborted = true ∧
      s.deliveries = [(some 0, some 0), (some 0, none)] ∧
      s.handed ++ (s.events ++ s.overflow) = [] ∧ s.accepted = [3] :=
  system.exists_reachesBy _ (small 1) small_one_init [.next [], acceptedCqe 3 false [some ENOSPC]]
    (by decide)

end AcceptSource

end Alyrn.Uring
