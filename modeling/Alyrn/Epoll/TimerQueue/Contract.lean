import Alyrn.Detail.TimerView
import Alyrn.Epoll.TimerQueue

/-!
# The epoll timer queue keeps the timer contract

`Admissible` leaves out the runs in which there is no memory for an entry in `active_timers_`: the
timer then stays in the index without being registered.
-/

namespace Alyrn.Epoll.TimerQueue

open Detail Detail.TimerEvent Transition

variable {q q' : TimerQueue} {s : TimerService} {l : List TimerEvent} {now : ℕ}
  {throws : Option AddTimerThrow}

def view (q : TimerQueue) : TimerView :=
  ⟨q.activeTimers, q.timers, q.round, q.processingTimer, q.processingTimerCancelled,
    q.nextSequence, q.now⟩

/-- The event that a step shows. -/
def observe (q : TimerQueue) (a : Action) (q' : TimerQueue) : Option TimerEvent :=
  match a with
  | .addTimer .. => (q'.activeTimers.find? (·.sequence = q.nextSequence)).map .added
  | .cancel sequence => some (.cancelled sequence)
  | .handleRead => q'.view.opening
  | .pop => q'.processingTimer.map (.started · q.now)
  | .callbackReturns =>
    match q.round, q.processingTimer with
    | some now, some t =>
      some (.returned now t (q'.timers.toList.find? (·.sequence = t.sequence)))
    | _, _ => none
  | .endRead => some .closed
  | .destroy => some .discarded
  | .timerElsewhere | .advanceClock _ => none

/-- Memory suffices to register a timer that has been made. -/
def Admissible : Action → Prop
  | .addTimer _ _ throws => throws ≠ some .emplace
  | _ => True

instance : DecidablePred Admissible := fun a => by
  cases a <;> dsimp only [Admissible] <;> infer_instance

/-- The queue refines the abstract one. -/
structure Follows (q : TimerQueue) (s : TimerService) : Prop where
  tracks : q.view.Tracks s
  sound : q.aborted = false
  destroyed : q.destroyed = true → q.round = none

theorem resetToEarliest_eq (q : TimerQueue) : ∃ f, q.resetToEarliest = { q with timerfd := f } := by
  unfold resetToEarliest
  split
  · exact ⟨_, rfl⟩
  · exact ⟨q.timerfd, rfl⟩

/-! ## The calls -/

theorem addTimer_eq (when_ interval : ℕ)
    (hidx : q.indexed q.nextSequence = false) (hact : q.active q.nextSequence = false)
    (hmem : throws ≠ some .emplace) :
    q.addTimer when_ interval throws = some (none, q) ∨
      ∃ f, q.addTimer when_ interval throws = some (some q.nextSequence, { q with
        activeTimers := ⟨q.nextSequence, when_, interval⟩ :: q.activeTimers
        timers := q.timers.insert ⟨q.nextSequence, when_, interval⟩
        nextSequence := q.nextSequence + 1
        timerfd := f }) := by
  unfold addTimer
  by_cases hthrow : throws = some .acquire
  · exact .inl (if_pos hthrow)
  · right
    simp only [if_neg hthrow, if_neg hmem]
    rw [if_neg (by simpa [indexed] using hidx), if_neg (by simpa [active] using hact)]
    split
    · exact ⟨_, rfl⟩
    · exact ⟨_, rfl⟩

theorem cancel_active {id : ℕ} (hact : q.active id = true) (hidx : q.indexed id = true) :
    ∃ f, q.cancel id = some { q.unlink id with timerfd := f } := by
  unfold cancel
  simp only [if_pos hact, if_pos hidx]
  split
  · obtain ⟨f, hf⟩ := resetToEarliest_eq (q.unlink id)
    exact ⟨f, congrArg some hf⟩
  · exact ⟨q.timerfd, rfl⟩

theorem destroy_eq (hperm : q.activeTimers.Perm q.timers.toList)
    (hd : (q.activeTimers.map (·.sequence)).Nodup) :
    q.destroy = some { q with activeTimers := [], timers := .empty, destroyed := true } := by
  suffices h : ∀ (ts : List Timer) (q : TimerQueue), q.timers.toList = ts →
      q.activeTimers.Perm ts → (q.activeTimers.map (·.sequence)).Nodup →
      ts.foldlM (fun q t => if q.active t.sequence then some (q.unlink t.sequence) else none) q =
        some { q with activeTimers := [], timers := .empty } by
    exact h _ { q with destroyed := true } rfl hperm hd
  intro ts
  induction ts with
  | nil =>
    intro q hidx hperm _
    have hq : q.timers = .empty := OrderedIndex.ext_toList hidx
    have hactive : q.activeTimers = [] := hperm.eq_nil
    cases q
    cases hq
    cases hactive
    rfl
  | cons t ts ih =>
    intro q hidx hperm hd
    have hact : q.active t.sequence = true :=
      List.any_eq_true.mpr ⟨t, hperm.mem_iff.mpr List.mem_cons_self, by simp⟩
    have hrest := Timer.filter_cons_eq ((hperm.map _).nodup_iff.mp hd)
    rw [List.foldlM_cons, if_pos hact]
    refine ih (q.unlink t.sequence) ?_ ?_ (hd.sublist (List.filter_sublist.map _))
    · show q.timers.toList.filter _ = ts
      rw [hidx, hrest]
    · have := hperm.filter (·.sequence ≠ t.sequence)
      rwa [hrest] at this

/-! ## The steps -/

def Answers (q : TimerQueue) (a : Action) (q' : TimerQueue) (s : TimerService) : Prop :=
  (observe q a q' = none ∧ Follows q' s) ∨
    ∃ e s', observe q a q' = some e ∧ s.step e = some s' ∧ Follows q' s'

theorem observe_callbackReturns {t : Timer} (hround : q.round = some now)
    (hrun : q.processingTimer = some t) : observe q .callbackReturns q' =
      some (.returned now t (q'.timers.toList.find? (·.sequence = t.sequence))) := by
  unfold observe
  rw [hround, hrun]

section Steps

variable (h : Follows q s)

include h

theorem answers_handleRead (hround : q.round = none) (hlive : q.destroyed = false) :
    Answers q .handleRead q.handleRead s := by
  obtain ⟨s', hs, ht⟩ := h.tracks.opened hround
  exact .inr ⟨_, s', rfl, hs, ht, h.sound,
    fun hx => absurd (hlive.symm.trans hx) (by simp)⟩

theorem answers_endRead (hrun : q.processingTimer = none) :
    Answers q .endRead q.endRead s := by
  obtain ⟨f, hf⟩ := resetToEarliest_eq { q with round := none }
  obtain ⟨s', hs, ht⟩ := h.tracks.closed hrun
  refine .inr ⟨_, s', rfl, hs, ?_⟩
  unfold endRead
  rw [hf]
  exact ⟨ht, h.sound, fun _ => rfl⟩

theorem answers_idle {a : Action} {n m : ℕ} (ha : observe q a q' = none)
    (hq : q' = { q with nextSequence := n, now := m }) (hn : q.nextSequence ≤ n) (hm : q.now ≤ m) :
    Answers q a q' s := by
  subst hq
  exact .inl ⟨ha, h.tracks.later hn hm, h.sound, h.destroyed⟩

variable (hr : TimerService.Recorded s l)

include hr

theorem answers_addTimer {when_ interval : ℕ}
    (hadm : Admissible (.addTimer when_ interval throws)) :
    Answers q (.addTimer when_ interval throws)
      (q.orAbort ((q.addTimer when_ interval throws).map (·.2))) s := by
  obtain ⟨hact, hidx⟩ := h.tracks.fresh hr
  rcases addTimer_eq when_ interval hidx hact hadm with heq | ⟨f, heq⟩
  · rw [heq]
    refine .inl ⟨?_, h⟩
    show (q.activeTimers.find? _).map _ = none
    have hnone : q.activeTimers.find? (·.sequence = q.nextSequence) = none :=
      List.find?_eq_none.mpr fun t ht => List.any_eq_false.mp hact t ht
    rw [hnone]
    rfl
  · rw [heq]
    obtain ⟨s', hs, ht⟩ := h.tracks.added (t := ⟨q.nextSequence, when_, interval⟩) rfl
    refine .inr ⟨_, s', ?_, hs, ht, h.sound, h.destroyed⟩
    show (List.find? _ (_ :: _)).map _ = _
    rw [List.find?_cons_of_pos (by simp)]
    rfl

theorem answers_cancel (id : ℕ) : Answers q (.cancel id) (q.orAbort (q.cancel id)) s := by
  refine .inr ?_
  by_cases hact : q.active id = true
  · obtain ⟨f, heq⟩ := cancel_active hact ((h.tracks.any_eq id).symm.trans hact)
    have hne : ∀ t ∈ q.processingTimer, t.repeats = true → t.sequence ≠ id := by
      rintro t ht - rfl
      exact absurd (hact.symm.trans (h.tracks.running_out hr ht).1) (by simp)
    obtain ⟨s', hs, ht⟩ := h.tracks.cancelledOut hne
    rw [heq]
    exact ⟨_, s', rfl, hs, ht, h.sound, h.destroyed⟩
  · have hact : q.active id = false := by simpa using hact
    have hcancel : q.cancel id = if q.processingTimer.any (·.sequence = id) then
        some { q with processingTimerCancelled := true } else some q := by
      unfold cancel
      rw [if_neg (by simp [hact])]
    rw [hcancel]
    split
    · rename_i hrun
      obtain ⟨s', hs, ht⟩ := h.tracks.cancelledIn (c := true) hact fun t ht _ => by
        have hp : q.processingTimer = some t := ht
        rw [hp] at hrun
        rw [if_pos (by simpa using hrun)]
      exact ⟨_, s', rfl, hs, ht, h.sound, h.destroyed⟩
    · rename_i hrun
      obtain ⟨s', hs, ht⟩ := h.tracks.cancelledIn (c := q.processingTimerCancelled) hact
        fun t ht _ => by
          have hp : q.processingTimer = some t := ht
          rw [hp] at hrun
          rw [if_neg (by simpa using hrun)]
          rfl
      exact ⟨_, s', rfl, hs, ht, h.sound, h.destroyed⟩

theorem answers_pop (hround : q.round = some now) (hrun : q.processingTimer = none)
    (hdue : q.roundDone now = false) :
    Answers q .pop (q.orAbort (q.pop now)) s := by
  obtain ⟨t, ht, hle⟩ : ∃ t, q.timers.earliest = some t ∧ t.expiration ≤ now := by
    unfold roundDone at hdue
    cases he : q.timers.earliest with
    | none => simp [he] at hdue
    | some t => exact ⟨t, rfl, by simpa [he] using hdue⟩
  have hact : q.active t.sequence = true :=
    List.any_eq_true.mpr ⟨t, (h.tracks.pop_eq hr ht).1, by simp⟩
  have hpop : q.pop now = some { q with
      timers := q.timers.pop
      activeTimers := q.activeTimers.filter (·.sequence ≠ t.sequence)
      processingTimer := some t
      processingTimerCancelled := false } := by
    unfold pop
    rw [ht]
    dsimp only
    rw [if_pos hle, if_pos hact]
  obtain ⟨s', hs, htr⟩ := h.tracks.started (c := false) hr hround hrun ht hle fun _ => rfl
  rw [hpop]
  exact .inr ⟨_, s', rfl, hs, htr, h.sound, h.destroyed⟩

theorem answers_callbackReturns {t : Timer} (hround : q.round = some now)
    (hrun : q.processingTimer = some t) :
    Answers q .callbackReturns (q.orAbort (q.callbackReturns now t)) s := by
  obtain ⟨hact, hidx⟩ := h.tracks.running_out hr hrun
  refine .inr ?_
  by_cases hagain : (t.repeats && !q.processingTimerCancelled) = true
  · have heq : q.callbackReturns now t = some { q with
        processingTimer := none
        processingTimerCancelled := false
        timers := q.timers.insert (t.restart now)
        activeTimers := t.restart now :: q.activeTimers } := by
      unfold callbackReturns
      simp only [if_pos hagain]
      rw [if_neg]
      rintro (hx | hx)
      · exact absurd (hidx.symm.trans hx) (by simp)
      · exact absurd (hact.symm.trans hx) (by simp)
    rw [Bool.and_eq_true, Bool.not_eq_true'] at hagain
    obtain ⟨s', hs, htr⟩ := h.tracks.returnedIn (c := false) hround hrun hagain.1 hagain.2
    rw [heq]
    refine ⟨.returned now t (some (t.restart now)), s', ?_, hs, htr, h.sound, h.destroyed⟩
    have hfind : (q.timers.insert (t.restart now)).toList.find? (·.sequence = t.sequence) =
        some (t.restart now) := TimerView.find?_insert (t := t.restart now) hidx
    rw [observe_callbackReturns hround hrun, ← hfind]
    rfl
  · have heq : q.callbackReturns now t = some { q with
        processingTimer := none
        processingTimerCancelled := false } := by
      exact if_neg hagain
    have hout : t.repeats = true → q.processingTimerCancelled = true := by
      intro hrep
      simpa [hrep] using hagain
    obtain ⟨s', hs, htr⟩ := h.tracks.returnedOut (c := false) hround hrun hout
    rw [heq]
    refine ⟨.returned now t none, s', ?_, hs, htr, h.sound, h.destroyed⟩
    have hfind : q.timers.toList.find? (·.sequence = t.sequence) = none :=
      List.find?_eq_none.mpr fun u hu => List.any_eq_false.mp hidx u hu
    rw [observe_callbackReturns hround hrun, ← hfind]
    rfl

theorem answers_destroy (hround : q.round = none) :
    Answers q .destroy (q.orAbort q.destroy) s := by
  obtain ⟨s', hs, ht⟩ := h.tracks.discarded
  rw [destroy_eq h.tracks.indexed (h.tracks.nodup hr)]
  exact .inr ⟨_, s', rfl, hs, ht, h.sound, fun _ => hround⟩

end Steps

theorem Follows.answers (h : Follows q s) (hr : TimerService.Recorded s l) {a : Action}
    (hadm : Admissible a) (hs : step a q = some q') : Answers q a q' s := by
  obtain ⟨hlive, hs⟩ := Option.ite_none_left_eq_some.mp hs
  have hlive : q.destroyed = false := by simpa [h.sound] using hlive
  cases a with
  | addTimer when_ interval throws =>
    obtain ⟨-, rfl⟩ := of_guard hs
    exact answers_addTimer h hr hadm
  | cancel id =>
    obtain ⟨-, rfl⟩ := of_guard hs
    exact answers_cancel h hr id
  | handleRead =>
    obtain ⟨hround, rfl⟩ := of_guard hs
    exact answers_handleRead h (by simpa using hround) hlive
  | pop =>
    dsimp only at hs
    split at hs
    · rename_i now hround hrun
      obtain ⟨hdue, rfl⟩ := of_unless hs
      exact answers_pop h hr hround hrun (by simpa using hdue)
    · exact absurd hs (by simp)
  | callbackReturns =>
    dsimp only at hs
    split at hs
    · rename_i now t hround hrun
      cases hs
      exact answers_callbackReturns h hr hround hrun
    · exact absurd hs (by simp)
  | endRead =>
    dsimp only at hs
    split at hs
    · rename_i now hround hrun
      obtain ⟨-, rfl⟩ := of_guard hs
      exact answers_endRead h hrun
    · exact absurd hs (by simp)
  | destroy =>
    obtain ⟨hround, rfl⟩ := of_guard hs
    exact answers_destroy h hr (by simpa using hround)
  | timerElsewhere =>
    exact answers_idle h rfl (Option.some.inj hs).symm (Nat.le_succ _) le_rfl
  | advanceClock d =>
    exact answers_idle h rfl (Option.some.inj hs).symm le_rfl (Nat.le_add_right _ _)

/-! ## The runs -/

def observed : System (TimerQueue × List TimerEvent) Action := system.observed observe

/-- **Every run follows the timer machine.** -/
theorem follows_of_reaches {p : TimerQueue × List TimerEvent}
    (h : observed.ReachesBy (fun _ a => Admissible a) p) :
    ∃ s, Follows p.1 s ∧ TimerService.Recorded s p.2 ∧ History.Keeps TimerLaw p.2 := by
  have hinit (q : TimerQueue) (hq : system.init q) :
      ∃ s, TimerService.system.init s ∧ Follows q s := by
    obtain ⟨now, sequence, rfl⟩ := hq
    refine ⟨{}, ⟨rfl, rfl, rfl⟩, ⟨rfl, rfl, rfl, ?_, Nat.zero_le _, .refl _, ?_⟩, rfl, ?_⟩
    · exact fun t ht => absurd ht (by simp [view, make])
    · exact fun t ht => absurd ht (by simp [view, make])
    · exact fun hx => absurd hx (by simp [make])
  have hobs : (system.observed observe).ReachesBy (fun _ a => Admissible a) p := h
  obtain ⟨s, hT, hF⟩ := hobs.simulate hinit
    fun q a q' s l hT hF hadm hs => hF.answers (a := a) (TimerService.lawful hT).1 hadm hs
  exact ⟨s, hF, TimerService.lawful hT⟩

theorem Follows.goes_on (h : Follows q s) (hround : q.round = some now) :
    ∃ a ∈ [Action.callbackReturns, .pop, .endRead], (step a q).isSome = true := by
  have hlive : (q.aborted || q.destroyed) = false := by
    rw [h.sound, Bool.false_or]
    by_contra hx
    exact absurd (hround.symm.trans (h.destroyed (by simpa using hx))) (by simp)
  cases hrun : q.processingTimer with
  | some t => exact ⟨.callbackReturns, by simp, by simp [step, hlive, hround, hrun]⟩
  | none =>
    cases hdone : q.roundDone now with
    | true => exact ⟨.endRead, by simp, by simp [step, hlive, hround, hrun, hdone]⟩
    | false => exact ⟨.pop, by simp, by simp [step, hlive, hround, hrun, hdone]⟩

end Alyrn.Epoll.TimerQueue
