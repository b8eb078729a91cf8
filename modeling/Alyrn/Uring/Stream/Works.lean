import Mathlib.Data.List.Perm.Basic
import Alyrn.Uring.Stream.LaneSteps

/-!
# The works of a stream's operations

What a step does to the works in the loop's queues: the end of an operation schedules the work that
carries its continuation, and the loop takes one work at a time. A work in the queues carries the
continuation of an operation that the kernel is done with (`Stream.Carrying`).
-/

namespace Alyrn.Uring

open Function

/-! ## The queues -/

theorem WorkQueues.next_perm {ω : Type} {q q' : WorkQueues ω} {w : ω} (h : q.next = some (w, q')) :
    (q.completionReady ++ q.ready).Perm (w :: (q'.completionReady ++ q'.ready)) := by
  obtain ⟨completionReady, ready, turn⟩ := q
  cases turn with
  | poll | callbacks => cases h
  | drain resumed =>
    cases completionReady with
    | nil => cases h
    | cons v vs =>
      obtain ⟨-, ⟨⟩⟩ := Transition.of_guard h
      exact .refl _
  | runReady resumed completionResumed =>
    cases completionReady with
    | nil =>
      cases ready with
      | nil => cases h
      | cons r rs =>
        obtain ⟨-, ⟨⟩⟩ := Transition.of_guard h
        exact .refl _
    | cons v vs =>
      cases ready with
      | nil =>
        obtain ⟨-, ⟨⟩⟩ := Transition.of_guard h
        exact .refl _
      | cons r rs =>
        obtain ⟨-, h⟩ := Option.ite_none_right_eq_some.mp h
        split_ifs at h
        · cases h
          exact .refl _
        · cases h
          exact List.perm_middle

namespace Shared

theorem works_perm_of_next {h : Shared} {w : Work} {q : WorkQueues Work}
    (hn : h.queues.next = some (w, q)) : h.works.Perm (w :: (q.completionReady ++ q.ready)) :=
  WorkQueues.next_perm hn

theorem count_scheduleCompletion (h : Shared) (v w : Work) :
    (h.scheduleCompletion v).works.count w =
      h.works.count w + if w = v ∧ v ∉ h.works then 1 else 0 := by
  unfold Shared.scheduleCompletion WorkQueues.scheduleCompletion Shared.works
  have hl : h.queues.linked v = true ↔ v ∈ h.queues.completionReady ++ h.queues.ready := by
    simp [WorkQueues.linked]
  by_cases hv : h.queues.linked v = true
  · rw [if_pos hv, if_neg (fun hx => hx.2 (hl.mp hv)), Nat.add_zero]
  · rw [if_neg hv]
    have hv' : v ∉ h.queues.completionReady ++ h.queues.ready := fun hx => hv (hl.mpr hx)
    by_cases hw : w = v
    · subst hw
      rw [if_pos ⟨rfl, hv'⟩]
      simp only [List.count_append, List.count_singleton_self]
      omega
    · rw [if_neg (fun hx => hw hx.1)]
      simp [List.count_append, Ne.symm hw]

theorem count_notifyCloseProgress (h : Shared) (pending : Bool) {w : Work}
    (hw : ∀ k, w ≠ .close k) : (h.notifyCloseProgress pending).works.count w = h.works.count w := by
  rcases h.notifyCloseProgress_cases pending with heq | ⟨k, -, -, -, heq⟩
  · rw [heq]
  · rw [heq, count_scheduleCompletion, if_neg (fun hx => hw k hx.1)]
    rfl

end Shared

/-- The work carries the continuation of an operation of lane `d`. -/
def Work.of (d : Dir) : Work → Prop
  | .op d' _ => d' = d
  | .cancel d' => d' = d
  | .close _ | .other _ => False

theorem Work.of.ne_close {d : Dir} {w : Work} (h : w.of d) (k : ℕ) : w ≠ .close k := by
  rintro rfl
  exact h

theorem Work.of.ne_other {d : Dir} {w : Work} (h : w.of d) (i : ℕ) : w ≠ .other i := by
  rintro rfl
  exact h

namespace Stream

variable {s s' : Stream} {a : Action} {d : Dir} {n : ℕ} {w : Work} {d' : Dir} {m : ℕ}

theorem count_conclude {x : Lane} (hw : w.of d) :
    (s.conclude d' x).shared.works.count w = s.shared.works.count w :=
  Shared.count_notifyCloseProgress _ _ hw.ne_close

theorem count_conclude_schedule {x : Lane} {v : Work} (hv : v.of d') (hw : w.of d) :
    ((s.conclude d' x).shared.scheduleCompletion v).works.count w =
      s.shared.works.count w + if w = v ∧ v ∉ s.shared.works then 1 else 0 := by
  have hmem : v ∈ (s.conclude d' x).shared.works ↔ v ∈ s.shared.works := by
    rw [← List.count_pos_iff, ← List.count_pos_iff, count_conclude hv]
  rw [Shared.count_scheduleCompletion, count_conclude hw]
  simp only [hmem]

inductive Schedules (s s' : Stream) (d : Dir) (n : ℕ) : Work → Prop where
  | ended : (s.lanes d).pending = some n → (s.lanes d).primaryTerminal = false →
      (s'.lanes d).pending = none → ((s'.lanes d).awaiters n).op.handle = some n →
      Schedules s s' d n (.op d n)
  | finished : (s.lanes d).pending = some n → (s.lanes d).primaryTerminal = true →
      (s'.lanes d).pending = none → (s'.lanes d).cancelOp.handle = some n →
      Schedules s s' d n (.cancel d)

theorem schedules_settle (hp : (s.lanes d).pending = some n)
    (hterm : (s.lanes d).primaryTerminal = false) (hc : (s.lanes d).cancelInFlight = false)
    {b : Awaiter} {sent : List (ℕ × List UInt8)} (he : Ends (s.lanes d) n a d b sent) :
    let t := ((s.setLane d ((s.lanes d).relieved sent)).settle d n b).drains
    Schedules s t d n (.op d n) ∧ ∀ d' w, Work.of d' w → t.shared.works.count w =
      s.shared.works.count w + if w = .op d n ∧ .op d n ∉ s.shared.works then 1 else 0 := by
  have hfly : ((s.lanes d).relieved sent).cancelInFlight = false := hc
  unfold settle
  dsimp only
  rw [setLane_self, hfly, if_neg (by simp), setLane_conclude]
  set y := ((s.lanes d).relieved sent).ended n b.released.scheduled
    (((s.lanes d).relieved sent).timerGeneration + 2) with hy
  refine ⟨.ended hp hterm ?_ ?_, fun d' w hw => count_conclude_schedule rfl hw⟩
  · show ((s.conclude d y).lanes d).pending = none
    rw [conclude_self, hy]
    rfl
  · show (((s.conclude d y).lanes d).awaiters n).op.handle = some n
    rw [conclude_self, hy]
    have hself : (((s.lanes d).relieved sent).ended n b.released.scheduled
        (((s.lanes d).relieved sent).timerGeneration + 2)).awaiters n =
        b.released.scheduled := update_self ..
    rw [hself]
    simpa using he.handle

theorem schedules_finished (h : s.Sound) (hp : (s.lanes d).pending = some n)
    (hterm : (s.lanes d).primaryTerminal = true) (result : ℤ) :
    let t := ((s.conclude d (((s.lanes d).cancelDone result).ended n
      ((s.lanes d).awaiters n).released ((s.lanes d).timerGeneration + 1))).scheduleCompletion
        (.cancel d)).drains
    Schedules s t d n (.cancel d) ∧ ∀ d' w, Work.of d' w → t.shared.works.count w =
      s.shared.works.count w + if w = .cancel d ∧ .cancel d ∉ s.shared.works then 1 else 0 := by
  set y := ((s.lanes d).cancelDone result).ended n ((s.lanes d).awaiters n).released
    ((s.lanes d).timerGeneration + 1) with hy
  refine ⟨.finished hp hterm ?_ ?_, fun d' w hw => count_conclude_schedule rfl hw⟩
  · show ((s.conclude d y).lanes d).pending = none
    rw [conclude_self, hy]
    rfl
  · show ((s.conclude d y).lanes d).cancelOp.handle = some n
    rw [conclude_self, hy]
    exact (h.lane d).carried n hp hterm

/-- **What a step does to the works of a lane**: nothing, or it schedules one at the end of an
operation, or the loop takes one. -/
theorem Steps.works (h : s.Sound) (hs : Steps s a s') (hw : w.of d) :
    a ≠ .runNext ∧ s'.shared.works.count w = s.shared.works.count w ∨
    (a ≠ .runNext ∧ ∃ n v, Schedules s s' d n v ∧ s'.shared.works.count w =
      s.shared.works.count w + if w = v ∧ v ∉ s.shared.works then 1 else 0) ∨
    (a = .runNext ∧ ∃ v q, s.shared.queues.next = some (v, q) ∧
      s.shared.works.count w = s'.shared.works.count w + if w = v then 1 else 0) := by
  cases hs with
  | quiet ha hq =>
    refine .inl ⟨?_, hq.works w hw.ne_other⟩
    rintro rfl
    cases ha
  | destroyed _ _ | recorded | answered => exact .inl ⟨by simp, rfl⟩
  | started ha hk hd hstart =>
    refine .inl ⟨?_, ?_⟩
    · rintro rfl
      cases ha
    · cases hstart with
      | refused | suspended => rfl
      | released | undone => exact count_conclude hw
  | deadlines hsets _ =>
    refine .inl ⟨?_, rfl⟩
    rintro rfl
    obtain ⟨d', hd'⟩ := hsets
    cases hd'
  | fired ht hfire =>
    rename_i d' t ans stop y
    refine .inl ⟨by simp, ?_⟩
    cases stop <;> rfl
  | settled hp hterm he =>
    rename_i d' n b sent
    have ha : a ≠ .runNext := by
      rintro rfl
      cases he
    have hfly : ((s.lanes d').relieved sent).cancelInFlight = (s.lanes d').cancelInFlight := rfl
    cases hc : (s.lanes d').cancelInFlight with
    | true =>
      refine .inl ⟨ha, ?_⟩
      unfold settle
      dsimp only
      rw [setLane_self, hfly, hc, if_pos rfl]
      rfl
    | false =>
      obtain ⟨hsched, hcount⟩ := schedules_settle hp hterm hc he
      by_cases hd : d' = d
      · subst hd
        exact .inr (.inl ⟨ha, n, .op d' n, hsched, hcount d' w hw⟩)
      · have hne : w ≠ .op d' n := fun hx => hd (by rw [hx] at hw; exact hw)
        exact .inl ⟨ha, (hcount d w hw).trans (by rw [if_neg (fun hx => hne hx.1)]; rfl)⟩
  | finished hp hterm hc hset =>
    rename_i d' result n
    obtain ⟨hsched, hcount⟩ := schedules_finished h hp hterm result
    by_cases hd : d' = d
    · subst hd
      exact .inr (.inl ⟨by simp, n, .cancel d', hsched, hcount d' w hw⟩)
    · have hne : w ≠ .cancel d' := fun hx => hd (by rw [hx] at hw; exact hw)
      exact .inl ⟨by simp, (hcount d w hw).trans (by rw [if_neg (fun hx => hne hx.1)]; rfl)⟩
  | closeAnswered => exact .inl ⟨by simp, Shared.count_notifyCloseProgress _ _ hw.ne_close⟩
  | closes _ hc => exact .inl ⟨by simp, by cases hc <;> rfl⟩
  | resumed hq hr =>
    rename_i v q
    refine .inr (.inr ⟨rfl, v, q, hq, ?_⟩)
    have hworks : s'.shared.works = q.completionReady ++ q.ready := by cases hr <;> rfl
    rw [(Shared.works_perm_of_next hq).count_eq, hworks, List.count_cons]
    simp only [beq_iff_eq, eq_comm (a := v)]

theorem Starts.pending {kind : OpKind} {buffer : List UInt8}
    (hs : Starts s d' kind buffer s') (hp' : (s'.lanes d).pending = none) :
    (s.lanes d).pending = none := by
  by_cases hd : d = d'
  · subst hd
    cases hs with
    | refused => rw [setLane_self] at hp'; exact hp'
    | released _ hp | undone _ hp => exact hp
    | suspended => rw [setLane_self] at hp'; cases hp'
  · cases hs with
    | refused | suspended => rwa [setLane_of_ne hd] at hp'
    | released | undone => rwa [conclude_of_ne hd] at hp'

theorem setLane_pending {x : Lane} (hx : x.pending = (s.lanes d').pending) :
    ((s.setLane d' x).lanes d).pending = (s.lanes d).pending := by
  by_cases hd : d = d'
  · subst hd
    rw [setLane_self, hx]
  · rw [setLane_of_ne hd]

theorem Steps.schedules (h : s.Sound) (hs : Steps s a s') (hp : (s.lanes d).pending = some n)
    (hp' : (s'.lanes d).pending = none) :
    ∃ v, Schedules s s' d n v ∧ ∀ w, Work.of d w → s'.shared.works.count w =
      s.shared.works.count w + if w = v ∧ v ∉ s.shared.works then 1 else 0 := by
  have hkeep (hx : (s'.lanes d).pending = (s.lanes d).pending) : False := by
    rw [hx, hp] at hp'
    cases hp'
  cases hs with
  | quiet _ _ | destroyed _ _ | closeAnswered _ _ | closes _ _ => exact (hkeep rfl).elim
  | started _ _ _ hstart =>
    rw [hstart.pending hp'] at hp
    cases hp
  | deadlines _ hL =>
    refine (hkeep ?_).elim
    rcases hL d with heq | ⟨-, D, ok, heq⟩
    · exact congrArg Lane.pending heq
    · exact (congrArg Lane.pending heq).trans
        ((h.lane d).timed.setDeadline_sameOps D s.shared.now ok).pending
  | fired ht hfire =>
    exact (hkeep (setLane_pending ((h.lane _).toProtocol.fire_sameOps ht hfire).pending)).elim
  | settled hp₀ hterm he =>
    rename_i d' m b sent
    have hfly : ((s.lanes d').relieved sent).cancelInFlight = (s.lanes d').cancelInFlight := rfl
    cases hc : (s.lanes d').cancelInFlight with
    | true =>
      refine (hkeep ?_).elim
      rw [drains_lanes]
      unfold settle
      dsimp only
      rw [setLane_self, hfly, hc, if_pos rfl, setLane_setLane]
      exact setLane_pending rfl
    | false =>
      obtain ⟨hsched, hcount⟩ := schedules_settle hp₀ hterm hc he
      by_cases hd : d = d'
      · subst hd
        cases hp₀.symm.trans hp
        exact ⟨_, hsched, fun w hw => hcount d w hw⟩
      · refine (hkeep ?_).elim
        rw [drains_lanes]
        unfold settle
        dsimp only
        rw [setLane_self, hfly, hc, if_neg (by simp), setLane_conclude]
        show ((s.conclude d' _).lanes d).pending = _
        rw [conclude_of_ne hd]
  | recorded | answered => exact (hkeep (setLane_pending rfl)).elim
  | finished hp₀ hterm hc hset =>
    rename_i d' result m
    obtain ⟨hsched, hcount⟩ := schedules_finished h hp₀ hterm result
    by_cases hd : d = d'
    · subst hd
      cases hp₀.symm.trans hp
      exact ⟨_, hsched, fun w hw => hcount d w hw⟩
    · refine (hkeep ?_).elim
      rw [drains_lanes, scheduleCompletion_lanes, conclude_of_ne hd]
  | resumed hq hr =>
    refine (hkeep ?_).elim
    cases hr with
    | failed _ | close _ _ _ | other _ => rfl
    | operation _ _ => exact setLane_pending rfl

/-! ## What the works carry -/

theorem LaneStep.past (hl : (s.lanes d).Sound d) (hs : LaneStep s a d s')
    (hm : m < (s.lanes d).started) (hp : (s.lanes d).pending ≠ some m) :
    (s'.lanes d).awaiters m = (s.lanes d).awaiters m ∧ (s'.lanes d).pending ≠ some m ∧
      m < (s'.lanes d).started := by
  have hnew : m ≠ (s.lanes d).started := Nat.ne_of_lt hm
  have hother {n : ℕ} (hpend : (s.lanes d).pending = some n) : m ≠ n :=
    fun hx => hp (by rw [hx]; exact hpend)
  have hops (h : (s.lanes d).SameOps (s'.lanes d)) : (s'.lanes d).awaiters m =
      (s.lanes d).awaiters m ∧ (s'.lanes d).pending ≠ some m ∧ m < (s'.lanes d).started := by
    rw [h.awaiters, h.pending, h.started]
    exact ⟨rfl, hp, hm⟩
  cases hs with
  | same _ heq | answered _ _ _ heq | returned _ _ _ _ heq => rw [heq]; exact ⟨rfl, hp, hm⟩
  | refused _ _ heq | undone _ _ _ heq =>
    rw [heq]
    exact ⟨update_of_ne hnew .., hp, Nat.lt_succ_of_lt hm⟩
  | suspended _ _ _ _ _ heq =>
    rw [heq]
    exact ⟨update_of_ne hnew .., fun hx => hnew (Option.some.inj hx).symm,
      Nat.lt_succ_of_lt hm⟩
  | deadline _ heq =>
    exact hops (by rw [heq]; exact hl.timed.setDeadline_sameOps _ _ _)
  | fired _ ht hfire _ => exact hops (hl.toProtocol.fire_sameOps ht hfire)
  | ended hpend _ _ _ heq | finished _ hpend _ _ _ heq =>
    rw [heq]
    exact ⟨update_of_ne (hother hpend) .., nofun, hm⟩
  | awaiting hpend _ _ _ heq | recorded _ _ hpend _ _ _ _ heq =>
    rw [heq]
    exact ⟨update_of_ne (hother hpend) .., hp, hm⟩

/-- Whose continuations queued work and cancel operations carry. -/
structure Carrying (s : Stream) : Prop where
  op : ∀ d n, Work.op d n ∈ s.shared.works → n < (s.lanes d).started ∧
    (s.lanes d).pending ≠ some n ∧ ((s.lanes d).awaiters n).op.handle = some n
  cancel : ∀ d n, (s.lanes d).cancelOp.handle = some n → n < (s.lanes d).started ∧
    ((s.lanes d).pending = some n → (s.lanes d).primaryTerminal = true)

section

variable (hl : (s.lanes d).Sound d) (hs : LaneStep s a d s')
include hl hs

theorem LaneStep.handle (hm : (s'.lanes d).cancelOp.handle = some m) :
    (s.lanes d).cancelOp.handle = some m ∨
      (s'.lanes d).pending = some m ∧ (s'.lanes d).primaryTerminal = true := by
  cases hs with
  | same _ heq | refused _ _ heq | ended _ _ _ _ heq | recorded _ _ _ _ _ _ _ heq
  | answered _ _ _ heq | finished _ _ _ _ _ heq | returned _ _ _ _ heq =>
    rw [heq] at hm; exact .inl hm
  | undone _ _ _ heq | suspended _ _ _ _ _ heq => rw [heq] at hm; cases hm
  | deadline hsets heq =>
    rename_i D ok
    rw [heq] at hm
    obtain ⟨G, heq' | ⟨-, -, expiration, heq'⟩⟩ := hl.timed.setDeadline_eq D s.shared.now ok
    · rw [heq'] at hm
      exact .inl hm
    · rw [heq'] at hm
      exact .inl hm
  | fired ha ht hfire hstop =>
    rename_i t ans stop
    obtain ⟨-, heq⟩ | ⟨-, ⟨-, heq⟩ | ⟨-, -, heq⟩ | ⟨-, -, heq⟩⟩ :=
      hl.toProtocol.fire_cases ht s.shared.now ans
    all_goals
      rw [hfire] at heq
      obtain ⟨-, hlane⟩ := Prod.ext_iff.mp (Option.some.inj heq)
      dsimp only at hlane
      rw [hlane] at hm
    · exact .inl hm
    all_goals cases hm
  | awaiting hpend hterm hfly he heq =>
    rename_i n b sent
    rw [heq] at hm ⊢
    cases he.handle.symm.trans hm
    exact .inr ⟨hpend, rfl⟩

theorem LaneStep.started_le : (s.lanes d).started ≤ (s'.lanes d).started := by
  cases hs with
  | same _ heq | returned _ _ _ _ heq => exact Nat.le_of_eq (by rw [heq])
  | refused _ _ heq | undone _ _ _ heq | suspended _ _ _ _ _ heq => rw [heq]; exact Nat.le_succ _
  | deadline _ heq =>
    exact Nat.le_of_eq (by rw [heq, (hl.timed.setDeadline_sameOps _ _ _).started])
  | fired _ ht hfire _ =>
    exact Nat.le_of_eq (hl.toProtocol.fire_sameOps ht hfire).started.symm
  | ended _ _ _ _ heq | awaiting _ _ _ _ heq | recorded _ _ _ _ _ _ _ heq | answered _ _ _ heq
  | finished _ _ _ _ _ heq => rw [heq]; exact Nat.le_refl _

theorem LaneStep.terminal
    (hp : (s.lanes d).pending = some m) (ht : (s.lanes d).primaryTerminal = true) :
    (s'.lanes d).pending = none ∨
      (s'.lanes d).pending = some m ∧ (s'.lanes d).primaryTerminal = true := by
  have hops (h : (s.lanes d).SameOps (s'.lanes d)) : (s'.lanes d).pending = none ∨
      (s'.lanes d).pending = some m ∧ (s'.lanes d).primaryTerminal = true :=
    .inr ⟨h.pending.trans hp, h.primaryTerminal.trans ht⟩
  have hnone (h : (s.lanes d).pending = none) : False := by rw [hp] at h; cases h
  have hfalse (h : (s.lanes d).primaryTerminal = false) : False := by rw [ht] at h; cases h
  cases hs with
  | same _ heq | refused _ _ heq | returned _ _ _ _ heq => rw [heq]; exact .inr ⟨hp, ht⟩
  | undone _ _ h _ | suspended _ _ _ _ h _ => exact (hnone h).elim
  | deadline _ heq => exact hops (by rw [heq]; exact hl.timed.setDeadline_sameOps _ _ _)
  | fired _ hmem hfire _ => exact hops (hl.toProtocol.fire_sameOps hmem hfire)
  | ended _ h _ _ _ | awaiting _ h _ _ _ | recorded _ _ _ h _ _ _ _ | answered _ h _ _ =>
    exact (hfalse h).elim
  | finished _ _ _ _ _ heq => rw [heq]; exact .inl rfl

theorem LaneStep.awaitResume (hn : n < (s.lanes d).started)
    (ht : (s.lanes d).pending = some n → (s.lanes d).primaryTerminal = true) :
    ((s'.lanes d).awaiters n).awaitResume = ((s.lanes d).awaiters n).awaitResume := by
  by_cases hp : (s.lanes d).pending = some n
  · have hterm := ht hp
    have hfalse (h : (s.lanes d).primaryTerminal = false) : False := by rw [hterm] at h; cases h
    have hne : n ≠ (s.lanes d).started := Nat.ne_of_lt hn
    cases hs with
    | same _ heq | returned _ _ _ _ heq => rw [heq]
    | refused _ _ heq | undone _ _ _ heq | suspended _ _ _ _ _ heq =>
      rw [heq]; exact congrArg _ (update_of_ne hne ..)
    | deadline _ heq => rw [heq, (hl.timed.setDeadline_sameOps _ _ _).awaiters]
    | fired _ hmem hfire _ => rw [(hl.toProtocol.fire_sameOps hmem hfire).awaiters]
    | ended _ h _ _ _ | awaiting _ h _ _ _ | recorded _ _ _ h _ _ _ _ | answered _ h _ _ =>
      exact (hfalse h).elim
    | finished ha hpend hterm' hfly hset heq =>
      rename_i result m
      cases hpend.symm.trans hp
      rw [heq]
      exact (congrArg _ (update_self ..)).trans Awaiter.released_awaitResume
  · rw [(hs.past hl hn hp).1]

theorem LaneStep.results {r : Except Error ℕ} (hr : (n, r) ∈ (s'.lanes d).results) :
    (n, r) ∈ (s.lanes d).results ∨
    (n = (s.lanes d).started ∧ n < (s'.lanes d).started ∧ (s'.lanes d).pending ≠ some n) ∨
    ∃ w q, s.shared.queues.next = some (w, q) ∧ s.carries w = some (d, n) ∧
      ((s.lanes d).awaiters n).awaitResume = some r ∧
      s'.lanes d = { s.lanes d with results := (s.lanes d).results ++ [(n, r)] } := by
  have hops (h : (s.lanes d).SameOps (s'.lanes d)) : (n, r) ∈ (s.lanes d).results := by
    rwa [h.results] at hr
  have hnew : (s.lanes d).pending ≠ some (s.lanes d).started := fun hx =>
    Nat.lt_irrefl _ (hl.stage _ hx).1
  cases hs with
  | same _ heq | suspended _ _ _ _ _ heq | ended _ _ _ _ heq | awaiting _ _ _ _ heq
  | recorded _ _ _ _ _ _ _ heq | answered _ _ _ heq | finished _ _ _ _ _ heq =>
    rw [heq] at hr; exact .inl hr
  | refused _ _ heq | undone _ _ _ heq =>
    rw [heq] at hr ⊢
    rcases List.mem_append.mp hr with hr | hr
    · exact .inl hr
    · cases List.mem_singleton.mp hr
      exact .inr (.inl ⟨rfl, Nat.lt_succ_self _, hnew⟩)
  | deadline _ heq => exact .inl (hops (by rw [heq]; exact hl.timed.setDeadline_sameOps _ _ _))
  | fired _ hmem hfire _ => exact .inl (hops (hl.toProtocol.fire_sameOps hmem hfire))
  | returned ha hq hc hres heq =>
    rename_i w q m r'
    rw [heq] at hr
    rcases List.mem_append.mp hr with hr | hr
    · exact .inl hr
    · cases List.mem_singleton.mp hr
      exact .inr (.inr ⟨w, q, hq, hc, hres, heq⟩)

theorem LaneStep.taken (hp : (s.lanes d).pending ≠ some n) (hp' : (s'.lanes d).pending = some n) :
    n = (s.lanes d).started ∧ (s.lanes d).pending = none ∧
      (∃ kind buffer, a.starts = some (d, kind, buffer)) ∧
      ∃ b G T L K, s'.lanes d = (s.lanes d).suspended b G T L K := by
  cases hs with
  | same _ heq | refused _ _ heq | undone _ _ _ heq | awaiting _ _ _ _ heq
  | recorded _ _ _ _ _ _ _ heq | answered _ _ _ heq | returned _ _ _ _ heq =>
    rw [heq] at hp'; exact absurd hp' hp
  | suspended hstart _ _ _ hnone heq =>
    rw [heq] at hp'
    exact ⟨(Option.some.inj hp').symm, hnone, ⟨_, _, hstart⟩, _, _, _, _, _, heq⟩
  | deadline _ heq =>
    rw [heq, (hl.timed.setDeadline_sameOps _ _ _).pending] at hp'
    exact absurd hp' hp
  | fired _ hmem hfire _ =>
    rw [(hl.toProtocol.fire_sameOps hmem hfire).pending] at hp'
    exact absurd hp' hp
  | ended _ _ _ _ heq | finished _ _ _ _ _ heq => rw [heq] at hp'; cases hp'

end

theorem Carrying.step (h : s.Sound) (hc : s.Carrying) (hs : Steps s a s') : s'.Carrying := by
  constructor
  · intro d n hmem
    have hold (hx : Work.op d n ∈ s.shared.works) : n < (s'.lanes d).started ∧
        (s'.lanes d).pending ≠ some n ∧ ((s'.lanes d).awaiters n).op.handle = some n := by
      obtain ⟨h1, h2, h3⟩ := hc.op d n hx
      obtain ⟨g1, g2, g3⟩ := (hs.lane d).past (h.lane d) h1 h2
      exact ⟨g3, g2, by rw [g1]; exact h3⟩
    have hpos := List.count_pos_iff.mpr hmem
    rcases hs.works h (w := .op d n) (d := d) rfl with
      ⟨-, hcount⟩ | ⟨-, m, v, hv, hcount⟩ | ⟨-, v, q, -, hcount⟩
    · exact hold (List.count_pos_iff.mp (by omega))
    · by_cases hx : Work.op d n ∈ s.shared.works
      · exact hold hx
      · rw [List.count_eq_zero_of_not_mem hx] at hcount
        obtain ⟨rfl, -⟩ : Work.op d n = v ∧ v ∉ s.shared.works := by
          by_contra hno
          rw [if_neg hno] at hcount
          omega
        cases hv with
        | ended hp _ hp' hh =>
          refine ⟨?_, by rw [hp']; simp, hh⟩
          exact Nat.lt_of_lt_of_le ((h.lane d).stage n hp).1 ((hs.lane d).started_le (h.lane d))
    · exact hold (List.count_pos_iff.mp (by omega))
  · intro d n hn
    rcases (hs.lane d).handle (h.lane d) hn with hold | ⟨hp, ht⟩
    · obtain ⟨h1, h2⟩ := hc.cancel d n hold
      refine ⟨Nat.lt_of_lt_of_le h1 ((hs.lane d).started_le (h.lane d)), fun hp' => ?_⟩
      by_cases hp : (s.lanes d).pending = some n
      · rcases (hs.lane d).terminal (h.lane d) hp (h2 hp) with hx | ⟨-, ht⟩
        · rw [hx] at hp'; cases hp'
        · exact ht
      · exact absurd hp' ((hs.lane d).past (h.lane d) h1 hp).2.1
    · exact ⟨(((h.step hs).lane d).stage n hp).1, fun _ => ht⟩

theorem carrying_of_reaches (h : system.Reaches s) : s.Carrying := by
  refine h.invariant_of (J := Sound) (I := Carrying) (fun s hs => sound_of_reaches hs) ?_ ?_
  · rintro s ⟨closeResult, zeroCopy, now, rfl⟩
    exact ⟨fun d n hx => (by cases hx), fun d n hx => (by cases hx)⟩
  · intro s a s' hs _ hc _ hstep
    exact hc.step hs (hs.steps hstep).2

theorem Carrying.carries (hc : s.Carrying) (hw : w ∈ s.shared.works)
    (hm : s.carries w = some (d, m)) : m < (s.lanes d).started ∧
      ((s.lanes d).pending = some m → (s.lanes d).primaryTerminal = true) := by
  cases w with
  | op d' n =>
    obtain ⟨h1, h2, h3⟩ := hc.op d' n hw
    simp only [Stream.carries, h3, Option.map_some, Option.some.injEq, Prod.mk.injEq] at hm
    obtain ⟨rfl, rfl⟩ := hm
    exact ⟨h1, fun hx => absurd hx h2⟩
  | cancel d' =>
    simp only [Stream.carries, Option.map_eq_some_iff, Prod.mk.injEq] at hm
    obtain ⟨m', hm', rfl, rfl⟩ := hm
    exact hc.cancel d' m' hm'
  | close k | other i => cases hm

end Stream

end Alyrn.Uring
