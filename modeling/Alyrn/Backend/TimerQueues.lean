import Alyrn.Epoll.TimerQueue.Contract
import Alyrn.Uring.TimerQueue.Contract

/-!
# The timer queues of both backends

In every run, on epoll in every run in which memory suffices to register a timer, both queues keep
the timer contract, and no round gets stuck: as long as a round is open, its callback returns, or a
due timer is taken, or the round ends. The contract bounds the callbacks of a round only if they add
no timer that is due in it.

Neither condition can be dropped. A callback that adds a timer for a time already reached has it run
in the same round, and so on. And an entry of `active_timers_` for which there is no memory leaves a
timer in the index that is not registered, at whose expiration a check fails.
-/

namespace Alyrn

open Detail Transition

/-- **The timer contract of both backends.** -/
theorem timer_queues_keep_contract (p : Epoll.TimerQueue × List TimerEvent)
    (r : Uring.TimerQueue × List TimerEvent) :
    (Epoll.TimerQueue.observed.ReachesBy (fun _ a => Epoll.TimerQueue.Admissible a) p →
      p.1.aborted = false ∧ TimerContract p.1.activeTimers p.1.timers.toList p.2 ∧
      ∀ now, p.1.round = some now →
        ∃ a ∈ [Epoll.TimerQueue.Action.callbackReturns, .pop, .endRead],
          (Epoll.TimerQueue.step a p.1).isSome = true) ∧
    (Uring.TimerQueue.observed.Reaches r →
      r.1.aborted = false ∧ TimerContract r.1.active r.1.timers.toList r.2 ∧
      (∀ now answer, r.1.phase.pass = some now →
        ∃ a ∈ [Uring.TimerQueue.Action.callbackReturns, .pop, .endPass answer],
          (Uring.TimerQueue.step a r.1).isSome = true) ∧
      ∀ deadline interval answer e q',
        r.1.addTimer deadline interval answer = some (.error e, q') →
          q'.active = r.1.active ∧ q'.timers = r.1.timers ∧ q'.driverArmed = r.1.driverArmed ∧
            q'.driverDeadline = r.1.driverDeadline ∧ q'.fallbackArmed = r.1.fallbackArmed ∧
            q'.driver = r.1.driver ∧ q'.control = r.1.control) := by
  refine ⟨fun hp => ?_, fun hp => ?_⟩
  · obtain ⟨s, hF, hr, hl⟩ := Epoll.TimerQueue.follows_of_reaches hp
    exact ⟨hF.sound, hF.tracks.contract hr hl, fun now hround => hF.goes_on hround⟩
  · obtain ⟨s, hF, hr, hl⟩ := Uring.TimerQueue.follows_of_reaches hp
    refine ⟨hF.sound, hF.tracks.contract hr hl, fun now answer hround => hF.goes_on hround,
      fun deadline interval answer e q' hadd => ?_⟩
    obtain ⟨b, d, rfl⟩ := hF.addTimer_failed hr hadd
    exact ⟨rfl, rfl, rfl, rfl, rfl, rfl, rfl⟩

/-- Runs with a repeating timer, a callback that cancels it and adds another timer, and on uring an
`AddTimer` that fails. -/
theorem timer_queues_keep_contract_runs :
    (∃ p, Epoll.TimerQueue.observed.ReachesBy (fun _ a => Epoll.TimerQueue.Admissible a) p ∧
      TimerEvent.callbacks p.2 = 3 ∧ TimerContract p.1.activeTimers p.1.timers.toList p.2) ∧
    ∃ p q', Uring.TimerQueue.observed.Reaches p ∧
      TimerEvent.callbacks p.2 = 3 ∧ TimerContract p.1.active p.1.timers.toList p.2 ∧
      p.1.addTimer 40 0 (some EAGAIN) = some (.error EAGAIN, q') ∧ q'.timers = p.1.timers := by
  constructor
  · obtain ⟨p, hp, ht⟩ := Epoll.TimerQueue.observed.exists_reachesBy
      (fun _ a => Epoll.TimerQueue.Admissible a) (Epoll.TimerQueue.make 0 0, []) ⟨⟨0, 0, rfl⟩, rfl⟩
      [.addTimer 10 5 none, .addTimer 20 0 none, .advanceClock 15, .handleRead, .pop,
        .callbackReturns, .endRead, .advanceClock 15, .handleRead, .pop, .cancel 0,
        .callbackReturns, .pop, .addTimer 50 0 none, .callbackReturns, .endRead]
      (P := fun p => TimerEvent.callbacks p.2 = 3) (by decide +kernel)
    exact ⟨p, hp, ht,
      ((timer_queues_keep_contract p (Uring.TimerQueue.make 0 0, [])).1 hp).2.1⟩
  · obtain ⟨p, hp, hcount, hfails⟩ := Uring.TimerQueue.observed.exists_reachesBy
      (fun _ _ => True) (Uring.TimerQueue.make 0 0, []) ⟨⟨0, 0, rfl⟩, rfl⟩
      [.addTimer 10 5 none, .addTimer 20 0 none, .advanceClock 15, .driverCqe (-ETIME) none, .pop,
        .callbackReturns, .endPass none, .advanceClock 15, .driverCqe (-ETIME) none, .pop,
        .cancel 0 none, .callbackReturns, .pop, .addTimer 50 0 none, .callbackReturns,
        .endPass none]
      (P := fun p => TimerEvent.callbacks p.2 = 3 ∧
        (p.1.addTimer 40 0 (some EAGAIN)).any fun r =>
          match r.1 with
          | .error e => e = EAGAIN
          | .ok _ => false)
      (by decide +kernel)
    obtain ⟨⟨r, q'⟩, hadd, hr⟩ := Option.any_eq_true .. |>.mp hfails
    obtain ⟨-, hcontract, -, hkept⟩ :=
      (timer_queues_keep_contract (Epoll.TimerQueue.make 0 0, []) p).2 hp
    cases r with
    | ok id => exact absurd hr (by simp)
    | error e =>
      obtain rfl : e = EAGAIN := of_decide_eq_true hr
      exact ⟨p, q', hp, hcount, hcontract, hadd, (hkept _ _ _ _ _ hadd).2.1⟩

/-! ## Rounds that do not end -/

def Epoll.TimerQueue.endless (i : ℕ) : Epoll.TimerQueue where
  timers := OrderedIndex.empty.insert ⟨i + 1, 0, 0⟩
  activeTimers := [⟨i + 1, 0, 0⟩]
  timerfd := some 200000
  nextSequence := i + 2
  round := some 100000
  now := 100000

def Uring.TimerQueue.endless (i : ℕ) : Uring.TimerQueue where
  timers := OrderedIndex.empty.insert ⟨i + 1, 0, 0⟩
  active := [⟨i + 1, 0, 0⟩]
  driverArmed := true
  nextSequence := i + 2
  phase := .expiring 0
  driver := some 0

theorem Epoll.TimerQueue.endless_goes_on (i : ℕ) :
    ∃ q q', step .pop (endless i) = some q ∧ step (.addTimer 0 0 none) q = some q' ∧
      step .callbackReturns q' = some (endless (i + 1)) := by
  refine ⟨{ endless i with
    timers := .empty, activeTimers := [], processingTimer := some ⟨i + 1, 0, 0⟩ },
    { endless (i + 1) with processingTimer := some ⟨i + 1, 0, 0⟩ }, ?_, ?_, rfl⟩
  · simp [step, endless, roundDone, pop, orAbort, active, OrderedIndex.insert, OrderedIndex.empty,
      OrderedIndex.earliest, OrderedIndex.pop]
  · simp [step, endless, inUserCode, addTimer, orAbort, indexed, active, resetTimerfd,
      OrderedIndex.insert, OrderedIndex.empty, OrderedIndex.earliest]

theorem Uring.TimerQueue.endless_goes_on (i : ℕ) :
    ∃ q q', step .pop (endless i) = some q ∧ step (.addTimer 0 0 none) q = some q' ∧
      step .callbackReturns q' = some (endless (i + 1)) := by
  refine ⟨{ endless i with
    timers := .empty, active := [], phase := .running 0 ⟨i + 1, 0, 0⟩ },
    { endless (i + 1) with phase := .running 0 ⟨i + 1, 0, 0⟩ }, ?_, rfl, rfl⟩
  simp [step, endless, passDone, pop, orAbort, owned, OrderedIndex.insert, OrderedIndex.empty,
    OrderedIndex.earliest, OrderedIndex.pop]

theorem Epoll.TimerQueue.reaches_endless : system.Reaches (endless 0) := by
  have h : system.execBy (fun _ _ => True) [.addTimer 0 0 none, .advanceClock 100000, .handleRead,
      .pop, .addTimer 0 0 none, .callbackReturns] (make 0 0) = some (endless 0) := by
    rfl
  exact System.reachesBy_of_execBy (.init ⟨0, 0, rfl⟩) h

theorem Uring.TimerQueue.reaches_endless : system.Reaches (endless 0) := by
  have h : system.execBy (fun _ _ => True) [.addTimer 0 0 none, .driverCqe (-ETIME) none, .pop,
      .addTimer 0 0 none, .callbackReturns] (make 0 0) = some (endless 0) := rfl
  exact System.reachesBy_of_execBy (.init ⟨0, 0, rfl⟩) h

/-- **The contract fails in general.** On both backends there is a run that never leaves a round,
since every callback adds a timer for a time already reached. On epoll an `AddTimer` that runs out
of memory leaves a timer that is indexed and not registered, and its expiration fails a check. -/
theorem timer_queues_break_contract :
    (∃ f : ℕ → Epoll.TimerQueue, Epoll.TimerQueue.system.Reaches (f 0) ∧
      ∀ i, (f i).round = some 100000 ∧ ∃ q q', Epoll.TimerQueue.step .pop (f i) = some q ∧
        Epoll.TimerQueue.step (.addTimer 0 0 none) q = some q' ∧
        Epoll.TimerQueue.step .callbackReturns q' = some (f (i + 1))) ∧
    (∃ f : ℕ → Uring.TimerQueue, Uring.TimerQueue.system.Reaches (f 0) ∧
      ∀ i, (f i).phase.pass = some 0 ∧ ∃ q q', Uring.TimerQueue.step .pop (f i) = some q ∧
        Uring.TimerQueue.step (.addTimer 0 0 none) q = some q' ∧
        Uring.TimerQueue.step .callbackReturns q' = some (f (i + 1))) ∧
    (∃ q, Epoll.TimerQueue.system.Reaches q ∧ q.indexed 1 = true ∧ q.active 1 = false) ∧
    ∃ q, Epoll.TimerQueue.system.Reaches q ∧ q.aborted = true := by
  refine ⟨⟨_, Epoll.TimerQueue.reaches_endless, fun i => ⟨rfl, Epoll.TimerQueue.endless_goes_on i⟩⟩,
    ⟨_, Uring.TimerQueue.reaches_endless, fun i => ⟨rfl, Uring.TimerQueue.endless_goes_on i⟩⟩,
    ?_, ?_⟩
  · exact Epoll.TimerQueue.system.exists_reachesBy _ (Epoll.TimerQueue.make 0 0) ⟨0, 0, rfl⟩
      [.addTimer 20 0 none, .addTimer 10 0 (some .emplace)] (by decide +kernel)
  · exact Epoll.TimerQueue.system.exists_reachesBy _ (Epoll.TimerQueue.make 0 0) ⟨0, 0, rfl⟩
      [.addTimer 20 0 none, .addTimer 10 0 (some .emplace), .advanceClock 100000, .handleRead, .pop]
      (by decide +kernel)

end Alyrn
