import Alyrn.Uring.Stream.LaneSteps

/-!
# An observed expiry is followed up

When the deadline of an operation expires, its cancel request is submitted, or a retry timer stands
for it, or the loop stops (`expiry_remembered`). The exception is `SetReadDeadline` and
`SetWriteDeadline` while a retry is due: they cancel the lane's timer, and arm a new one only for an
operation whose expiry has not been observed (`retry_forgotten`).
-/

namespace Alyrn.Uring

open Transition

/-- An expiry that was observed before the operation has completed is followed up. -/
def Lane.Remembered (x : Lane) (stopping : Bool) : Prop :=
  x.target.isSome = true → x.cancelRequested = true → x.primaryTerminal = false →
    x.cancelSubmitted = true ∨
    (∃ t ∈ x.timers, t.callback = .retry ∧ x.timer = some t.id ∧
      t.generation = x.timerGeneration) ∨
    stopping = true

namespace Stream

variable {s s' : Stream} {a : Action} {d : Dir}

def retryDue (s : Stream) (d : Dir) : Bool :=
  (s.lanes d).cancelRequested && !(s.lanes d).cancelSubmitted && !(s.lanes d).primaryTerminal

/-- No deadline is set while a retry of its lane is due, unless the loop stops. -/
def LeavesRetries (s : Stream) (a : Action) : Prop :=
  ∀ d, a.sets d = true → s.retryDue d = true → s.shared.loopState.isStopping = true

instance (s : Stream) (a : Action) : Decidable (LeavesRetries s a) :=
  decidable_of_iff
    ((a.sets .read = true → s.retryDue .read = true → s.shared.loopState.isStopping = true) ∧
      (a.sets .write = true → s.retryDue .write = true → s.shared.loopState.isStopping = true))
    ⟨fun h d => by cases d; exacts [h.1, h.2], fun h => ⟨h .read, h .write⟩⟩

@[simp] theorem notifyCloseProgress_loopState {h : Shared} (pending : Bool) :
    (h.notifyCloseProgress pending).loopState = h.loopState := by
  rcases h.notifyCloseProgress_cases pending with heq | ⟨k, -, -, -, heq⟩
  · rw [heq]
  · rw [heq]
    rfl

theorem conclude_loopState {x : Lane} :
    (s.conclude d x).shared.loopState = s.shared.loopState :=
  notifyCloseProgress_loopState _

theorem Steps.stopping (hs : Steps s a s') (h : s.shared.loopState.isStopping = true) :
    s'.shared.loopState.isStopping = true := by
  cases hs with
  | quiet _ hq => exact hq.stopping h
  | destroyed _ _ | deadlines _ _ | recorded | answered => exact h
  | started ha hk hd hstart =>
    cases hstart with
    | refused | suspended => exact h
    | released | undone => rwa [conclude_loopState]
  | fired ht hfire =>
    rename_i d t ans stop y
    cases stop with
    | true => exact (Shared.Quiet.requestStop s.shared).stopping h
    | false => exact h
  | settled hp hterm he =>
    show (Stream.settle _ _ _ _).shared.loopState.isStopping = true
    unfold settle
    dsimp only
    split_ifs
    · exact h
    · show (Stream.conclude _ _ _).shared.loopState.isStopping = true
      rw [conclude_loopState]
      exact h
  | finished =>
    show (Stream.conclude _ _ _).shared.loopState.isStopping = true
    rw [conclude_loopState]
    exact h
  | closeAnswered =>
    show (Shared.notifyCloseProgress _ _).loopState.isStopping = true
    rw [notifyCloseProgress_loopState]
    exact h
  | closes _ hc => cases hc <;> exact h
  | resumed hq hr => cases hr <;> exact h

theorem LaneStep.remembered (hl : (s.lanes d).Sound d) (hc : LeavesRetries s a)
    (hstop : s.shared.loopState.isStopping = true → s'.shared.loopState.isStopping = true)
    (h : (s.lanes d).Remembered s.shared.loopState.isStopping) (hs : LaneStep s a d s') :
    (s'.lanes d).Remembered s'.shared.loopState.isStopping := by
  intro ht hr hp
  -- the same flags and timers are followed up in the same way
  have hkeep (g1 : (s.lanes d).target.isSome = true) (g2 : (s.lanes d).cancelRequested = true)
      (g3 : (s.lanes d).primaryTerminal = false)
      (h1 : (s'.lanes d).cancelSubmitted = (s.lanes d).cancelSubmitted)
      (h2 : (s'.lanes d).timers = (s.lanes d).timers) (h3 : (s'.lanes d).timer = (s.lanes d).timer)
      (h4 : (s'.lanes d).timerGeneration = (s.lanes d).timerGeneration) :
      (s'.lanes d).cancelSubmitted = true ∨
      (∃ t ∈ (s'.lanes d).timers, t.callback = .retry ∧ (s'.lanes d).timer = some t.id ∧
        t.generation = (s'.lanes d).timerGeneration) ∨
      s'.shared.loopState.isStopping = true := by
    rw [h1, h2, h3, h4]
    rcases h g1 g2 g3 with h | h | h
    · exact .inl h
    · exact .inr (.inl h)
    · exact .inr (.inr (hstop h))
  cases hs with
  | same _ heq | returned _ _ _ _ heq =>
    rw [heq] at ht hr hp
    exact hkeep ht hr hp (by rw [heq]) (by rw [heq]) (by rw [heq]) (by rw [heq])
  | refused _ _ heq | recorded _ _ _ _ _ _ _ heq =>
    rw [heq] at ht hr hp
    exact hkeep ht hr hp (by rw [heq]; rfl) (by rw [heq]; rfl) (by rw [heq]; rfl) (by rw [heq]; rfl)
  | undone _ _ hpend heq | suspended _ _ _ _ hpend heq =>
    rw [heq] at hr
    exact absurd (show (s.lanes d).cancelRequested = true from hr)
      (by simp [(hl.idle hpend).cancelRequested])
  | deadline hsets heq =>
    rename_i D ok
    -- the lane keeps its flags, so a retry was due or the request had been submitted
    have hflags : (s'.lanes d).cancelRequested = (s.lanes d).cancelRequested ∧
        (s'.lanes d).primaryTerminal = (s.lanes d).primaryTerminal ∧
        (s'.lanes d).cancelSubmitted = (s.lanes d).cancelSubmitted := by
      rw [heq]
      obtain ⟨G, heq' | ⟨-, -, expiration, heq'⟩⟩ := hl.timed.setDeadline_eq D s.shared.now ok
      · rw [heq']; exact ⟨rfl, rfl, rfl⟩
      · rw [heq']; exact ⟨rfl, rfl, rfl⟩
    rw [hflags.1] at hr
    rw [hflags.2.1] at hp
    rw [hflags.2.2]
    cases hsub : (s.lanes d).cancelSubmitted with
    | true => exact .inl rfl
    | false => exact .inr (.inr (hstop (hc d hsets (by simp [retryDue, hr, hp, hsub]))))
  | fired ha hmem hfire hstopped =>
    rename_i t ans stop
    obtain ⟨hdone, heq⟩ | ⟨⟨htarget, hprim, hsub⟩, ⟨-, heq⟩ | ⟨-, -, heq⟩ | ⟨-, -, heq⟩⟩ :=
      hl.toProtocol.fire_cases hmem s.shared.now ans
    all_goals
      rw [hfire] at heq
      obtain ⟨hst, hlane⟩ := Prod.ext_iff.mp (Option.some.inj heq)
      dsimp only at hst hlane
      rw [hlane] at hp ⊢
    · rcases hdone with hdone | hdone
      · exact absurd (show (s.lanes d).primaryTerminal = false from hp) (by simp [hdone])
      · exact .inl hdone
    · exact .inl rfl
    · refine .inr (.inl ⟨_, List.mem_append_right _ (List.mem_singleton_self _), rfl, rfl, rfl⟩)
    · exact .inr (.inr (hstopped hst))
  | ended _ _ _ _ heq | finished _ _ _ _ _ heq => rw [heq] at ht; cases ht
  | awaiting _ _ _ _ heq => rw [heq] at hp; cases hp
  | answered _ _ hfly heq =>
    rw [heq]
    simp only [Lane.cancelInFlight, Bool.and_eq_true] at hfly
    exact .inl hfly.1

/-- **An observed expiry is followed up**, in every run in which no deadline is set while a retry
of its lane is due: the cancel request has been submitted, or a live retry timer stands for it, or
the loop stops. -/
theorem expiry_remembered (h : system.ReachesBy LeavesRetries s) (d : Dir) :
    (s.lanes d).Remembered s.shared.loopState.isStopping := by
  refine h.invariant_of (J := Sound) (I := fun s => ∀ d,
    (s.lanes d).Remembered s.shared.loopState.isStopping) (fun s hs => sound_of_reaches hs.reaches)
    ?_ ?_ d
  · rintro s ⟨closeResult, zeroCopy, now, rfl⟩ d ht
    cases ht
  · intro s a s' hs _ hi hc hstep d
    obtain ⟨-, hsteps⟩ := hs.steps hstep
    exact (hsteps.lane d).remembered (hs.lane d) hc hsteps.stopping (hi d)

/-- The ring is full when the deadline of a read expires, and the retry submits its cancel. -/
theorem expiry_remembered_retry :
    ∃ s, (system.ReachesBy LeavesRetries s ∧ (s.lanes .read).cancelRequested = true ∧
      (s.lanes .read).primaries = [0] ∧ (s.lanes .read).cancelSubmitted = false) ∧
      (s.lanes .read).Remembered s.shared.loopState.isStopping :=
  system.exists_reachesBy_and _ (make (.ok ()) false 0) ⟨_, _, _, rfl⟩
    [.setReadDeadline (some 10) true, .read 100 {}, .advanceClock 10,
      .fire .read ⟨0, 10, .deadline, 2⟩ { submit := some ENOSPC }] (by decide)
    fun _ hr _ => expiry_remembered hr .read

/-- The same, and then the deadline is moved: the retry timer is gone and no other one is armed, so
the read waits for its peer although its deadline has expired. -/
theorem retry_forgotten :
    ¬ ∀ s, system.Reaches s → ∀ d, (s.lanes d).Remembered s.shared.loopState.isStopping := by
  intro hall
  obtain ⟨s, hr, h1, h2, h3, h4, h5, h6⟩ := system.exists_reachesBy (fun _ _ => True)
    (make (.ok ()) false 0) ⟨_, _, _, rfl⟩ [.setReadDeadline (some 10) true, .read 100 {},
      .advanceClock 10, .fire .read ⟨0, 10, .deadline, 2⟩ { submit := some ENOSPC },
      .setReadDeadline (some 20) true]
    (P := fun s => (s.lanes .read).target.isSome = true ∧
      (s.lanes .read).cancelRequested = true ∧ (s.lanes .read).primaryTerminal = false ∧
      (s.lanes .read).cancelSubmitted = false ∧ (s.lanes .read).timers = [] ∧
      s.shared.loopState.isStopping = false) (by decide)
  rcases hall s hr .read h1 h2 h3 with h | ⟨t, ht, -⟩ | h
  · rw [h4] at h; cases h
  · rw [h5] at ht; cases ht
  · rw [h6] at h; cases h

end Stream

end Alyrn.Uring
