import Alyrn.Detail.TimerView
import Alyrn.Uring.TimerQueue

/-!
# The uring timer queue keeps the timer contract
-/

namespace Alyrn.Uring

open Detail Detail.TimerEvent Transition

def TimerPhase.runningTimer : TimerPhase → Option Detail.Timer
  | .running _ t => some t
  | _ => none

namespace TimerQueue

variable {q q' : TimerQueue} {s : TimerService} {l : List TimerEvent} {answer : Option Error}
  {now : ℕ}

def view (q : TimerQueue) : TimerView :=
  ⟨q.active, q.timers, q.phase.pass, q.phase.runningTimer, q.processingTimerCancelled,
    q.nextSequence, q.now⟩

def observe (q : TimerQueue) (a : Action) (q' : TimerQueue) : Option TimerEvent :=
  match a with
  | .addTimer .. | .addAfter .. => (q'.active.find? (·.sequence = q.nextSequence)).map .added
  | .cancel sequence _ => some (.cancelled sequence)
  | .driverCqe .. | .controlCqe .. => q'.view.opening
  | .pop => q'.phase.runningTimer.map (.started · q.now)
  | .callbackReturns =>
    match q.phase with
    | .running now t => some (.returned now t (q'.timers.toList.find? (·.sequence = t.sequence)))
    | _ => none
  | .endPass _ => some .closed
  | .discardAll => some .discarded
  | .kernelUpdates _ | .timerElsewhere | .advanceClock _ | .run | .requestStop => none

structure Follows (q : TimerQueue) (s : TimerService) : Prop where
  tracks : q.view.Tracks s
  sound : q.aborted = false

/-! ## Requests leave the timers alone -/

structure SameTimers (q q' : TimerQueue) : Prop where
  view : q'.view = q.view
  aborted : q'.aborted = q.aborted

theorem SameTimers.refl (q : TimerQueue) : SameTimers q q := ⟨rfl, rfl⟩

theorem SameTimers.follows (h : SameTimers q q') (hF : Follows q s) : Follows q' s :=
  ⟨h.view ▸ hF.tracks, h.aborted.trans hF.sound⟩

theorem reconcile_cases (q : TimerQueue) (answer : Option Error) :
    q.reconcile answer = (none, q) ∨ ∃ d, q.reconcile answer = q.arm d answer ∨
      q.reconcile answer = q.update d answer ∨ q.reconcile answer = q.armFallback d answer := by
  unfold reconcile
  cases q.timers.earliest with
  | none =>
    left
    split_ifs <;> rfl
  | some t =>
    dsimp only
    split_ifs
    · exact .inl rfl
    · exact .inr ⟨_, .inl rfl⟩
    · exact .inr ⟨_, .inr (.inl rfl)⟩
    · exact .inr ⟨_, .inr (.inr rfl)⟩
    · exact .inl rfl
    · exact .inl rfl

theorem sameTimers_reconcile (q : TimerQueue) (answer : Option Error) :
    SameTimers q (q.reconcile answer).2 := by
  rcases q.reconcile_cases answer with h | ⟨d, h | h | h⟩ <;> rw [h]
  · exact .refl q
  · unfold arm
    split <;> exact ⟨rfl, rfl⟩
  · unfold update
    split <;> exact ⟨rfl, rfl⟩
  · unfold armFallback
    split <;> exact ⟨rfl, rfl⟩

theorem sameTimers_reconcileOrStop (q : TimerQueue) (answer : Option Error) :
    SameTimers q (q.reconcileOrStop answer) := by
  have h := sameTimers_reconcile q answer
  unfold reconcileOrStop
  split
  · rename_i q' heq
    rwa [heq] at h
  · rename_i e q' heq
    rw [heq] at h
    exact ⟨h.view, h.aborted⟩

theorem reconcile_failed {e : Error} (h : q.reconcile answer = (some e, q')) :
    ∃ b d, q' = { q with controlIsFallback := b, requestedDeadline := d } := by
  rcases q.reconcile_cases answer with heq | ⟨d, heq | heq | heq⟩ <;> rw [heq] at h
  · cases h
  · unfold arm at h
    split at h
    · exact ⟨_, _, (Prod.mk.inj h).2.symm⟩
    · cases h
  · unfold update at h
    split at h
    · exact ⟨_, _, (Prod.mk.inj h).2.symm⟩
    · cases h
  · unfold armFallback at h
    split at h
    · exact ⟨_, _, (Prod.mk.inj h).2.symm⟩
    · cases h

/-! ## The calls -/

section AddTimer

theorem unlink_link {t : Detail.Timer} (hact : q.owned t.sequence = false)
    (hidx : q.indexed t.sequence = false) : (q.link t).unlink t.sequence = q := by
  have ha : (t :: q.active).filter (·.sequence ≠ t.sequence) = q.active := by
    rw [List.filter_cons_of_neg (by simp), List.filter_eq_self]
    exact fun u hu => by simpa using List.any_eq_false.mp hact u hu
  have ht : (q.timers.insert t).filter (·.sequence ≠ t.sequence) = q.timers := by
    rw [OrderedIndex.filter_insert_of_neg (by simp), OrderedIndex.filter_eq_self]
    exact fun u hu => by simpa using List.any_eq_false.mp hidx u hu
  show { q with timers := (q.timers.insert t).filter (·.sequence ≠ t.sequence)
                active := (t :: q.active).filter (·.sequence ≠ t.sequence) } = q
  rw [ha, ht]

variable (hact : q.owned q.nextSequence = false) (hidx : q.indexed q.nextSequence = false)

include hact hidx

theorem addTimer_eq (deadline interval : ℕ) (answer : Option Error) :
    (∃ e b d, q.addTimer deadline interval answer = some (.error e, { q with
        nextSequence := q.nextSequence + 1, controlIsFallback := b, requestedDeadline := d })) ∨
      ∃ q', q.addTimer deadline interval answer = some (.ok q.nextSequence, q') ∧
        SameTimers { q.link ⟨q.nextSequence, deadline, interval⟩ with
          nextSequence := q.nextSequence + 1 } q' := by
  let q₁ : TimerQueue := { q with nextSequence := q.nextSequence + 1 }
  let t : Detail.Timer := ⟨q.nextSequence, deadline, interval⟩
  have hnew : ¬ (q₁.owned q.nextSequence = true ∨ q₁.indexed q.nextSequence = true) := by
    rintro (hx | hx)
    · exact absurd (hact.symm.trans hx) (by simp)
    · exact absurd (hidx.symm.trans hx) (by simp)
  have hadd : q.addTimer deadline interval answer = _ := if_neg hnew
  have hsame := sameTimers_reconcile (q₁.link t) answer
  rw [hadd]
  cases hrec : (q₁.link t).reconcile answer with
  | mk r q' =>
    cases r with
    | none =>
      rw [hrec] at hsame
      exact .inr ⟨q', rfl, hsame⟩
    | some e =>
      obtain ⟨b, d, rfl⟩ := reconcile_failed hrec
      refine .inl ⟨e, b, d, ?_⟩
      have hin : (q₁.link t).indexed t.sequence = true :=
        List.any_eq_true.mpr ⟨t, OrderedIndex.mem_insert.mpr (.inl rfl), by simp⟩
      have hback : (q₁.link t).unlink t.sequence = q₁ := unlink_link hact hidx
      exact (if_pos hin).trans (congrArg (fun q : TimerQueue => some (Except.error e, { q with
        controlIsFallback := b, requestedDeadline := d })) hback)

end AddTimer

/-! ## Completions -/

structure Completes (q q' : TimerQueue) : Prop where
  aborted : q'.aborted = q.aborted
  view : q'.view = q.view ∨ q'.view = { q.view with round := some q.now }

theorem SameTimers.completes (h : SameTimers q q') : Completes q q' := ⟨h.aborted, .inl h.view⟩

theorem completes_afterCompletion (hidle : q.phase = .idle) (result : ℤ) (answer : Option Error) :
    Completes q (q.afterCompletion result answer) := by
  unfold afterCompletion
  split
  · refine ⟨rfl, .inr ?_⟩
    have hrun : q.view.running = none := by
      show q.phase.runningTimer = none
      rw [hidle]
      rfl
    show TimerView.mk _ _ _ _ _ _ _ = TimerView.mk _ _ _ q.view.running _ _ _
    rw [hrun]
    rfl
  · exact (sameTimers_reconcileOrStop q answer).completes

theorem completes_handleControlComplete (hidle : q.phase = .idle) (result : ℤ)
    (answer : Option Error) : Completes q (q.handleControlComplete result answer) := by
  unfold handleControlComplete
  dsimp only
  split
  · have h := completes_afterCompletion (q := { q with
      controlPending := false, controlIsFallback := false, fallbackArmed := false }) hidle result
      answer
    exact ⟨h.aborted, h.view⟩
  · split
    · have h := sameTimers_reconcileOrStop { q with
        controlPending := false, driverDeadline := q.requestedDeadline } answer
      exact ⟨h.aborted, .inl h.view⟩
    · have h := sameTimers_reconcileOrStop { q with
        controlPending := false, timeoutUpdateSupported := false } answer
      exact ⟨h.aborted, .inl h.view⟩

/-! ## The steps -/

def Answers (q : TimerQueue) (a : Action) (q' : TimerQueue) (s : TimerService) : Prop :=
  (observe q a q' = none ∧ Follows q' s) ∨
    ∃ e s', observe q a q' = some e ∧ s.step e = some s' ∧ Follows q' s'

theorem observe_callbackReturns {t : Detail.Timer} (hph : q.phase = .running now t) :
    observe q .callbackReturns q' =
      some (.returned now t (q'.timers.toList.find? (·.sequence = t.sequence))) := by
  unfold observe
  rw [hph]

section Steps

variable (h : Follows q s) {a : Action}

include h

theorem answers_other {n m : ℕ} (ha : observe q a q' = none)
    (hq : q'.view = { q.view with nextSequence := n, now := m }) (hab : q'.aborted = q.aborted)
    (hn : q.nextSequence ≤ n) (hm : q.now ≤ m) : Answers q a q' s :=
  .inl ⟨ha, hq ▸ h.tracks.later hn hm, hab.trans h.sound⟩

theorem answers_completion (hidle : q.phase = .idle)
    (hobs : observe q a q' = q'.view.opening) (hc : Completes q q') : Answers q a q' s := by
  obtain ⟨hab, hv⟩ := hc
  have hround : q.view.round = none := by
    show q.phase.pass = none
    rw [hidle]
    rfl
  rcases hv with hv | hv
  · refine .inl ⟨?_, hv ▸ h.tracks, hab.trans h.sound⟩
    rw [hobs, hv, TimerView.opening, hround]
    rfl
  · obtain ⟨s', hs, ht⟩ := h.tracks.opened hround
    have hseen : observe q a q' = some (.opened q.view.now
        (q.view.index.toList.countP (·.expiration ≤ q.view.now))) := by
      rw [hobs, hv]
      rfl
    exact .inr ⟨_, s', hseen, hs, hv ▸ ht, hab.trans h.sound⟩

theorem answers_endPass (hph : q.phase = .expiring now) (answer : Option Error) :
    Answers q (.endPass answer) ({ q with phase := .idle }.reconcileOrStop answer) s := by
  have hrun : q.view.running = none := by
    show q.phase.runningTimer = none
    rw [hph]
    rfl
  obtain ⟨s', hs, ht⟩ := h.tracks.closed hrun
  refine .inr ⟨_, s', rfl, hs, (sameTimers_reconcileOrStop _ _).follows ⟨?_, h.sound⟩⟩
  have hv : ({ q with phase := .idle } : TimerQueue).view = { q.view with round := none } := by
    show TimerView.mk _ _ _ _ _ _ _ = TimerView.mk _ _ _ q.view.running _ _ _
    rw [hrun]
    rfl
  exact hv ▸ ht

theorem answers_discardAll : Answers q .discardAll q.discardAll s := by
  obtain ⟨s', hs, ht⟩ := h.tracks.discarded
  exact .inr ⟨_, s', rfl, hs, ht, h.sound⟩

variable (hr : TimerService.Recorded s l)

include hr

theorem answers_addTimer {deadline interval : ℕ}
    (ha : ∀ q', observe q a q' = (q'.active.find? (·.sequence = q.nextSequence)).map .added) :
    Answers q a (q.orAbort ((q.addTimer deadline interval answer).map (·.2))) s := by
  obtain ⟨hact, hidx⟩ := h.tracks.fresh hr
  rcases addTimer_eq hact hidx deadline interval answer with ⟨e, b, d, heq⟩ | ⟨q', heq, hsame⟩
  · rw [heq]
    refine .inl ⟨?_, h.tracks.later (Nat.le_succ _) le_rfl, h.sound⟩
    have hnone : q.active.find? (·.sequence = q.nextSequence) = none :=
      List.find?_eq_none.mpr fun t ht => List.any_eq_false.mp hact t ht
    rw [ha]
    exact congrArg (Option.map TimerEvent.added) hnone
  · rw [heq]
    obtain ⟨s', hs, ht⟩ := h.tracks.added (t := ⟨q.nextSequence, deadline, interval⟩) rfl
    refine .inr ⟨_, s', ?_, hs, hsame.follows ⟨ht, h.sound⟩⟩
    rw [ha]
    have hactive : q'.active = ⟨q.nextSequence, deadline, interval⟩ :: q.active :=
      congrArg TimerView.active hsame.view
    show (List.find? _ q'.active).map _ = _
    rw [hactive, List.find?_cons_of_pos (by simp)]
    rfl

theorem answers_cancel (id : ℕ) (answer : Option Error) :
    Answers q (.cancel id answer) (q.orAbort ((q.cancel id answer).map (·.2))) s := by
  refine .inr ?_
  have hproc {t : Detail.Timer} (ht : q.view.running = some t) (hrep : t.repeats = true) :
      q.phase.processingTimer = some t := by
    cases hph : q.phase with
    | running now u =>
      obtain rfl : u = t := by simpa [view, hph, TimerPhase.runningTimer] using ht
      simp [TimerPhase.processingTimer, hrep]
    | idle | expiring now => simp [view, hph, TimerPhase.runningTimer] at ht
  have hrun {t : Detail.Timer} (ht : q.phase.processingTimer = some t) :
      q.view.running = some t := by
    cases hph : q.phase with
    | running now u =>
      simp only [TimerPhase.processingTimer, hph, Option.ite_none_right_eq_some] at ht
      simpa [view, hph, TimerPhase.runningTimer] using ht.2
    | idle | expiring now => simp [hph, TimerPhase.processingTimer] at ht
  unfold cancel
  by_cases hp : q.phase.processingTimer.any (·.sequence = id) = true
  · -- the running timer cancels itself
    rw [if_pos hp]
    obtain ⟨t, ht, hid⟩ := Option.any_eq_true .. |>.mp hp
    obtain rfl : t.sequence = id := by simpa using hid
    obtain ⟨s', hs, htr⟩ := h.tracks.cancelledIn (c := true) (h.tracks.running_out hr (hrun ht)).1
      fun u hu _ => by
        cases (hrun ht).symm.trans hu
        rw [if_pos rfl]
    exact ⟨_, s', rfl, hs, htr, h.sound⟩
  · rw [if_neg hp]
    have hne : ∀ t ∈ q.view.running, t.repeats = true → t.sequence ≠ id := by
      rintro t ht hrep rfl
      rw [hproc ht hrep] at hp
      exact hp (by simp)
    by_cases hact : q.owned id = true
    · have hidx : q.indexed id = true := (h.tracks.any_eq id).symm.trans hact
      rw [if_neg (by simp [hact]), if_pos hidx]
      obtain ⟨s', hs, htr⟩ := h.tracks.cancelledOut hne
      exact ⟨_, s', rfl, hs,
        (sameTimers_reconcileOrStop _ _).follows ⟨htr, h.sound⟩⟩
    · have hact : q.owned id = false := by simpa using hact
      rw [if_pos (by simp [hact])]
      obtain ⟨s', hs, htr⟩ := h.tracks.cancelledIn (c := q.processingTimerCancelled) hact
        fun u hu hrep => by
          rw [if_neg (hne u hu hrep)]
          rfl
      exact ⟨_, s', rfl, hs, htr, h.sound⟩

theorem answers_pop (hph : q.phase = .expiring now) (hdue : q.passDone now = false) :
    Answers q .pop (q.orAbort (q.pop now)) s := by
  obtain ⟨t, ht, hle⟩ : ∃ t, q.timers.earliest = some t ∧ t.expiration ≤ now := by
    unfold passDone at hdue
    cases he : q.timers.earliest with
    | none => simp [he] at hdue
    | some t => exact ⟨t, rfl, by simpa [he] using hdue⟩
  have hact : q.owned t.sequence = true :=
    List.any_eq_true.mpr ⟨t, (h.tracks.pop_eq hr ht).1, by simp⟩
  have hpop : q.pop now = some { q with
      timers := q.timers.pop
      active := q.active.filter (·.sequence ≠ t.sequence)
      processingTimerCancelled := !t.repeats && q.processingTimerCancelled
      phase := .running now t } := by
    unfold pop
    rw [ht]
    dsimp only
    rw [if_pos hle, if_pos hact]
  have hround : q.view.round = some now := by
    show q.phase.pass = some now
    rw [hph]
    rfl
  have hrun : q.view.running = none := by
    show q.phase.runningTimer = none
    rw [hph]
    rfl
  obtain ⟨s', hs, htr⟩ := h.tracks.started (c := !t.repeats && q.processingTimerCancelled) hr
    hround hrun ht hle fun hrep => by rw [hrep]; rfl
  rw [hpop]
  refine .inr ⟨_, s', rfl, hs, ?_, h.sound⟩
  rw [hround] at htr
  exact htr

theorem answers_callbackReturns {t : Detail.Timer} (hph : q.phase = .running now t) :
    Answers q .callbackReturns (q.orAbort (q.callbackReturns now t)) s := by
  have hround : q.view.round = some now := by
    show q.phase.pass = some now
    rw [hph]
    rfl
  have hrun : q.view.running = some t := by
    show q.phase.runningTimer = some t
    rw [hph]
    rfl
  obtain ⟨hact, hidx⟩ := h.tracks.running_out hr hrun
  have hnone : q.timers.toList.find? (·.sequence = t.sequence) = none :=
    List.find?_eq_none.mpr fun u hu => List.any_eq_false.mp hidx u hu
  refine .inr ?_
  by_cases hagain : t.repeats = true ∧ q.processingTimerCancelled = false
  · have heq : q.callbackReturns now t = some ({ q with
        phase := .expiring now, processingTimerCancelled := false }.link (t.restart now)) := by
      unfold callbackReturns
      rw [if_neg (by simp [hagain.1]), if_neg (by simp [hagain.2]), if_neg]
      rintro (hx | hx)
      · exact absurd (hact.symm.trans hx) (by simp)
      · exact absurd (hidx.symm.trans hx) (by simp)
    obtain ⟨s', hs, htr⟩ := h.tracks.returnedIn (c := false) hround hrun hagain.1 hagain.2
    rw [heq]
    refine ⟨.returned now t (some (t.restart now)), s', ?_, hs, ?_, h.sound⟩
    · have hfind : (q.timers.insert (t.restart now)).toList.find? (·.sequence = t.sequence) =
          some (t.restart now) := TimerView.find?_insert (t := t.restart now) hidx
      rw [observe_callbackReturns hph, ← hfind]
      rfl
    · rw [hround] at htr
      exact htr
  · obtain ⟨c, heq⟩ : ∃ c, q.callbackReturns now t = some { q with
        phase := .expiring now, processingTimerCancelled := c } := by
      unfold callbackReturns
      cases hrep : t.repeats with
      | false => exact ⟨_, rfl⟩
      | true =>
        have hc : q.processingTimerCancelled = true := by simpa [hrep] using hagain
        rw [hc]
        exact ⟨_, rfl⟩
    have hout : t.repeats = true → q.processingTimerCancelled = true := by
      intro hrep
      simpa [hrep] using hagain
    obtain ⟨s', hs, htr⟩ := h.tracks.returnedOut (c := c) hround hrun hout
    rw [heq]
    refine ⟨.returned now t none, s', ?_, hs, ?_, h.sound⟩
    · rw [observe_callbackReturns hph, ← hnone]
      rfl
    · rw [hround] at htr
      exact htr

end Steps

theorem Follows.answers (h : Follows q s) (hr : TimerService.Recorded s l) {a : Action}
    (hs : step a q = some q') : Answers q a q' s := by
  obtain ⟨-, hs⟩ := Option.ite_none_left_eq_some.mp hs
  cases a with
  | addTimer deadline interval answer | addAfter delay answer =>
    obtain ⟨-, rfl⟩ := of_guard hs
    exact answers_addTimer h hr fun _ => rfl
  | cancel id answer =>
    obtain ⟨-, rfl⟩ := of_guard hs
    exact answers_cancel h hr id answer
  | driverCqe result answer =>
    dsimp only at hs
    split at hs
    · rename_i deadline hidle hdriver
      obtain ⟨-, rfl⟩ := of_guard hs
      have hc := completes_afterCompletion (q := { q with
        driver := none, driverArmed := false, driverDeadline := 0 }) hidle result answer
      exact answers_completion h hidle rfl ⟨hc.aborted, hc.view⟩
    · exact absurd hs (by simp)
  | controlCqe result answer =>
    dsimp only at hs
    split at hs
    · rename_i hidle hcontrol
      obtain ⟨-, rfl⟩ := of_guard hs
      have hc := completes_handleControlComplete (q := { q with control := none }) hidle result
        answer
      exact answers_completion h hidle rfl ⟨hc.aborted, hc.view⟩
    · rename_i hidle hcontrol
      obtain ⟨-, rfl⟩ := of_guard hs
      have hc := completes_handleControlComplete (q := { q with control := none }) hidle result
        answer
      exact answers_completion h hidle rfl ⟨hc.aborted, hc.view⟩
    · exact absurd hs (by simp)
  | kernelUpdates result =>
    dsimp only at hs
    split at hs
    · split_ifs at hs
      · cases hs
        exact answers_other h rfl rfl rfl le_rfl le_rfl
      · cases hs
        exact answers_other h rfl rfl rfl le_rfl le_rfl
    · exact absurd hs (by simp)
  | pop =>
    dsimp only at hs
    split at hs
    · rename_i now hph
      obtain ⟨hdue, rfl⟩ := of_unless hs
      exact answers_pop h hr hph (by simpa using hdue)
    · exact absurd hs (by simp)
  | callbackReturns =>
    dsimp only at hs
    split at hs
    · rename_i now t hph
      cases hs
      exact answers_callbackReturns h hr hph
    · exact absurd hs (by simp)
  | endPass answer =>
    dsimp only at hs
    split at hs
    · rename_i now hph
      obtain ⟨-, rfl⟩ := of_guard hs
      exact answers_endPass h hph answer
    · exact absurd hs (by simp)
  | discardAll =>
    obtain ⟨-, rfl⟩ := of_guard hs
    exact answers_discardAll h
  | timerElsewhere =>
    cases hs
    exact answers_other h rfl rfl rfl (Nat.le_succ _) le_rfl
  | advanceClock d =>
    cases hs
    exact answers_other h rfl rfl rfl le_rfl (Nat.le_add_right _ _)
  | run =>
    obtain ⟨-, rfl⟩ := of_guard hs
    exact answers_other h rfl rfl rfl le_rfl le_rfl
  | requestStop =>
    cases hs
    exact answers_other h rfl rfl rfl le_rfl le_rfl

/-! ## The runs -/

def observed : System (TimerQueue × List TimerEvent) Action := system.observed observe

/-- **Every run follows the timer machine.** -/
theorem follows_of_reaches {p : TimerQueue × List TimerEvent} (h : observed.Reaches p) :
    ∃ s, Follows p.1 s ∧ TimerService.Recorded s p.2 ∧ History.Keeps TimerLaw p.2 := by
  have hinit (q : TimerQueue) (hq : system.init q) :
      ∃ s, TimerService.system.init s ∧ Follows q s := by
    obtain ⟨now, sequence, rfl⟩ := hq
    refine ⟨{}, ⟨rfl, rfl, rfl⟩, ⟨rfl, rfl, rfl, ?_, Nat.zero_le _, .refl _, ?_⟩, rfl⟩
    · exact fun t ht => absurd ht (by simp [view, make, TimerPhase.runningTimer])
    · exact fun t ht => absurd ht (by simp [view, make, TimerPhase.pass])
  have hobs : (system.observed observe).Reaches p := h
  obtain ⟨s, hT, hF⟩ := hobs.simulate (C := fun _ _ => True) hinit
    fun q a q' s l hT hF _ hs => hF.answers (a := a) (TimerService.lawful hT).1 hs
  exact ⟨s, hF, TimerService.lawful hT⟩

theorem Follows.goes_on (h : Follows q s) (hround : q.phase.pass = some now) :
    ∃ a ∈ [Action.callbackReturns, .pop, .endPass answer], (step a q).isSome = true := by
  cases hph : q.phase with
  | idle => simp [hph, TimerPhase.pass] at hround
  | running now t => exact ⟨.callbackReturns, by simp, by simp [step, h.sound, hph]⟩
  | expiring now =>
    cases hdone : q.passDone now with
    | true => exact ⟨.endPass answer, by simp, by simp [step, h.sound, hph, hdone]⟩
    | false => exact ⟨.pop, by simp, by simp [step, h.sound, hph, hdone]⟩

/-- **A failed `AddTimer`** leaves the timers, and what is armed in the queue and in the kernel. -/
theorem Follows.addTimer_failed (h : Follows q s) (hr : TimerService.Recorded s l)
    {deadline interval : ℕ} {e : Error}
    (hadd : q.addTimer deadline interval answer = some (.error e, q')) :
    ∃ b d, q' = { q with
      nextSequence := q.nextSequence + 1, controlIsFallback := b, requestedDeadline := d } := by
  obtain ⟨hact, hidx⟩ := h.tracks.fresh hr
  rcases addTimer_eq hact hidx deadline interval answer with ⟨e, b, d, heq⟩ | ⟨q', heq, -⟩
  · rw [heq] at hadd
    exact ⟨b, d, (Prod.mk.inj (Option.some.inj hadd)).2.symm⟩
  · rw [heq] at hadd
    exact absurd (Prod.mk.inj (Option.some.inj hadd)).1 (by simp)

end TimerQueue

end Alyrn.Uring
