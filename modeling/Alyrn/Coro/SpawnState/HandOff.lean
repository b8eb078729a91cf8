import Mathlib.Tactic.Common
import Alyrn.Coro.SpawnState

/-!
# Handing over the frame

The frame of a spawned root is destroyed once, by whoever comes last; a parked waiter is scheduled
once, after the result is stored; the result is taken at most once; and nobody accesses the state
after the frame is gone.

`Stage` is who owns what, one case for each way the two parties can stand to each other. It leaves
out one schedule that the code admits: after `Finish` has published `kFinished`, the owner may
destroy the frame before the root calls `notify_one` on the phase inside it (`Notified`).
-/

namespace Alyrn.Coro

def Owner.consuming : Owner → Bool
  | .holding | .releasing | .destroying | .gone => false
  | _ => true

def Owner.early : Owner → Bool
  | .holding | .waitLoad | .waitCompare | .waitBlocked | .joinReady | .parkPrepare | .parkExchange
  | .releasing => true
  | _ => false

def Owner.late : Owner → Bool
  | .parked | .joinTake | .holding | .releasing | .destroying | .gone => true
  | _ => false

namespace SpawnState

variable {α : Type} {s s' : SpawnState α}

/-- What the hand-off promises. -/
structure HandedOff (s : SpawnState α) : Prop where
  noFault : s.fault = false
  noAbort : s.aborted = false
  destroyed : s.destroyed = if s.root = .done ∧ s.owner = .gone then 1 else 0
  /-- A waiter parks once, and has been scheduled when the root is through. -/
  parks : s.parks ≤ 1
  scheduled : s.scheduled = if s.root = .done then s.parks else 0
  stored : 0 < s.scheduled → s.result.isSome = true
  taken : s.taken = [] ∨ ∃ value, s.result = some value ∧ s.taken = [value]

/-- The owner does not destroy the frame before the root has notified. -/
def Notified (s : SpawnState α) (a : Action α) : Prop :=
  match a with
  | .owner => s.owner = .destroying → s.root ≠ .notify
  | _ => True

instance : ∀ (s : SpawnState α) a, Decidable (Notified s a) := fun s a => by
  unfold Notified
  split <;> infer_instance

/-! ## The invariant -/

/-- The joint positions of the two sides. -/
inductive Stage (s : SpawnState α) : Prop where
  | joinable : s.phase = .runningJoinable → s.root = .body ∨ s.root = .finish →
      s.owner.early = true → s.consumed = s.owner.consuming → s.parks = 0 → s.queued = false →
      Stage s
  | parked : s.phase = .waiterParked → s.root = .body ∨ s.root = .finish ∨ s.root = .publish →
      s.owner = .parked → s.waiterScheduler = true → s.waiterHandle = true → s.consumed = true →
      s.queued = false → s.parks = 1 → Stage s
  | handingOver : s.phase = .completedWaiterScheduled →
      s.root = .loadScheduler ∨ s.root = .schedule → s.owner = .parked →
      s.waiterScheduler = true → s.waiterHandle = true → s.consumed = true → s.queued = false →
      s.parks = 1 → Stage s
  | scheduled : s.phase = .completedWaiterScheduled → s.root = .done → s.owner.late = true →
      (s.owner = .parked → s.waiterHandle = true) → s.consumed = true → s.parks = 1 → Stage s
  | detached : s.phase = .runningDetached →
      s.root = .body ∨ s.root = .finish ∨ s.root = .clear ∨ s.root = .destroy ∨ s.root = .done →
      s.owner = .gone → s.consumed = false → s.parks = 0 → Stage s
  | finished : s.phase = .finished → s.root = .notify ∧ s.owner ≠ .gone ∨ s.root = .done →
      s.owner ≠ .parked → (s.owner.consuming = true → s.consumed = true) → s.parks = 0 → Stage s

/-- The invariant of a run. -/
structure Good (s : SpawnState α) : Prop where
  noFault : s.fault = false
  noAbort : s.aborted = false
  stage : Stage s
  stored : s.result.isSome = decide (s.root ≠ .body)
  rootHandle : s.owner ≠ .gone → s.rootHandle = true
  destroyed : s.destroyed = if s.root = .done ∧ s.owner = .gone then 1 else 0
  scheduled : s.scheduled = if s.root = .done then s.parks else 0
  taken : s.taken = if s.consumed = true ∧ s.owner.consuming = false then s.result.toList else []
  prepared : s.owner = .parkExchange → s.waiterScheduler = true ∧ s.waiterHandle = true

theorem Good.handedOff (h : Good s) : HandedOff s := by
  refine { h with parks := ?_, stored := fun hpos => ?_, taken := ?_ }
  · cases h.stage <;> omega
  · rw [h.scheduled] at hpos
    rw [h.stored]
    split_ifs at hpos with hd
    · simp [hd]
    · omega
  · rw [h.taken]
    split_ifs
    · cases hr : s.result with
      | none => exact .inl rfl
      | some value => exact .inr ⟨value, rfl, rfl⟩
    · exact .inl rfl

theorem Good.touch_eq (h : Good s) (hlive : s.root ≠ .done ∨ s.owner ≠ .gone) : s.touch = s := by
  have hd : s.destroyed = 0 := by
    rw [h.destroyed, if_neg fun hb => hlive.elim (· hb.1) (· hb.2)]
  have hf : (s.fault || decide (0 < s.destroyed)) = s.fault := by simp [hd]
  rw [touch, hf]

/-! ## The root -/

theorem Good.storeResult (h : Good s) (hbody : s.root = .body) (value : α) :
    Good (s.storeResult value) := by
  have htouch := h.touch_eq (.inl (by rw [hbody]; decide))
  have hnone : s.result.isSome = false := by rw [h.stored, hbody]; rfl
  have heq : s.storeResult value = { s with result := some value, root := .finish } := by
    simp only [SpawnState.storeResult, htouch, hnone, Bool.false_eq_true, if_false]
  rw [heq]
  have hdone : s.root ≠ .done := by rw [hbody]; decide
  have hd := h.destroyed
  have hs := h.scheduled
  have ht := h.taken
  simp only [hbody, reduceCtorEq, false_and, if_false] at hd hs
  refine ⟨h.noFault, h.noAbort, ?_, rfl, h.rootHandle, hd, hs, ?_, h.prepared⟩
  · cases h.stage with
    | joinable hp hr ho hc hk hq => exact .joinable hp (.inr rfl) ho hc hk hq
    | parked hp hr ho hw hh hc hq hk => exact .parked hp (.inr (.inl rfl)) ho hw hh hc hq hk
    | handingOver hp hr | scheduled hp hr | finished hp hr => simp [hbody] at hr
    | detached hp hr ho hc hk => exact .detached hp (.inr (.inl rfl)) ho hc hk
  · -- nothing was taken before
    have hno : ¬ (s.consumed = true ∧ s.owner.consuming = false) := by
      cases h.stage with
      | joinable hp hr ho hc | detached hp hr ho hc => rw [hc]; simp
      | parked hp hr ho | handingOver hp hr ho => rw [ho]; simp [Owner.consuming]
      | scheduled hp hr => exact absurd hr hdone
      | finished hp hr => simp [hbody] at hr
    rw [if_neg hno] at ht
    rw [if_neg hno]
    exact ht

theorem Good.rootStep (h : Good s) (hs : s.rootStep = some s') : Good s' := by
  have hlive : s.root ≠ .done := fun hd => by simp [SpawnState.rootStep, hd] at hs
  simp only [SpawnState.rootStep, h.touch_eq (.inl hlive)] at hs
  obtain ⟨hf, ha, hstage, hstored, hhandle, hdes, hsch, htak, hprep⟩ := h
  cases hroot : s.root with
  | body | done => simp [hroot] at hs
  | finish =>
    rw [hroot] at hs hdes hsch hstored
    cases hstage with
    | joinable hp hr ho hc hk =>
      simp only [hp] at hs
      cases hs
      refine ⟨hf, ha, .finished rfl (.inl ⟨rfl, ?_⟩) ?_ ?_ hk, hstored, hhandle, hdes, hsch, htak,
        hprep⟩
      · rintro he; rw [he] at ho; cases ho
      · rintro he; rw [he] at ho; cases ho
      · exact fun hcons => hc.trans hcons
    | parked hp hr ho hw hh hc hq hk =>
      simp only [hp] at hs
      cases hs
      exact ⟨hf, ha, .parked rfl (.inr (.inr rfl)) ho hw hh hc hq hk, hstored, hhandle, hdes, hsch,
        htak, hprep⟩
    | detached hp hr ho hc hk =>
      simp only [hp] at hs
      cases hs
      exact ⟨hf, ha, .detached rfl (.inr (.inr (.inl rfl))) ho hc hk, hstored, hhandle, hdes, hsch,
        htak, hprep⟩
    | handingOver hp hr | scheduled hp hr | finished hp hr => simp [hroot] at hr
  | notify =>
    rw [hroot] at hs hdes hsch hstored
    cases hs
    cases hstage with
    | finished hp hr ho hc hk =>
      have hgone : s.owner ≠ .gone := by
        rcases hr with hr | hr
        · exact hr.2
        · rw [hroot] at hr; cases hr
      -- a blocked owner goes back to comparing the phase
      by_cases hb : s.owner = .waitBlocked
      · simp only [hb, if_true]
        refine ⟨hf, ha, .finished hp (.inr rfl) (by simp) (fun _ => hc (by rw [hb]; rfl)) hk,
          hstored, fun _ => hhandle hgone, by simpa using hdes, by simpa [hk] using hsch, ?_,
          by simp⟩
        simpa [hb, Owner.consuming] using htak
      · simp only [hb, if_false]
        exact ⟨hf, ha, .finished hp (.inr rfl) ho hc hk, hstored, hhandle,
          by simpa [hgone] using hdes, by simpa [hk] using hsch, htak, hprep⟩
    | joinable hp hr | parked hp hr | handingOver hp hr | scheduled hp hr | detached hp hr =>
      simp [hroot] at hr
  | publish =>
    rw [hroot] at hs hdes hsch hstored
    cases hs
    cases hstage with
    | parked hp hr ho hw hh hc hq hk =>
      exact ⟨hf, ha, .handingOver rfl (.inl rfl) ho hw hh hc hq hk, hstored, hhandle, hdes, hsch,
        htak, hprep⟩
    | joinable hp hr | handingOver hp hr | scheduled hp hr | detached hp hr | finished hp hr =>
      simp [hroot] at hr
  | loadScheduler =>
    rw [hroot] at hs hdes hsch hstored
    cases hs
    cases hstage with
    | handingOver hp hr ho hw hh hc hq hk =>
      simp only [hw, if_true]
      exact ⟨hf, ha, .handingOver hp (.inr rfl) ho rfl hh hc hq hk, hstored, hhandle, hdes, hsch,
        htak, fun hx => absurd (ho.symm.trans hx) (by simp)⟩
    | joinable hp hr | parked hp hr | scheduled hp hr | detached hp hr | finished hp hr =>
      simp [hroot] at hr
  | schedule =>
    rw [hroot] at hs hdes hsch hstored
    cases hs
    cases hstage with
    | handingOver hp hr ho hw hh hc hq hk =>
      refine ⟨hf, ha, .scheduled hp rfl (by rw [ho]; rfl) (fun _ => hh) hc hk, hstored, hhandle, ?_,
        ?_, htak, hprep⟩
      · simpa [ho] using hdes
      · simpa [hk] using hsch
    | joinable hp hr | parked hp hr | scheduled hp hr | detached hp hr | finished hp hr =>
      simp [hroot] at hr
  | clear =>
    rw [hroot] at hs hdes hsch hstored
    cases hs
    cases hstage with
    | detached hp hr ho hc hk =>
      exact ⟨hf, ha, .detached hp (.inr (.inr (.inr (.inl rfl)))) ho hc hk, hstored,
        fun hg => absurd ho hg, hdes, hsch, htak, hprep⟩
    | joinable hp hr | parked hp hr | handingOver hp hr | scheduled hp hr | finished hp hr =>
      simp [hroot] at hr
  | destroy =>
    rw [hroot] at hs hdes hsch hstored
    cases hs
    cases hstage with
    | detached hp hr ho hc hk =>
      refine ⟨hf, ha, .detached hp (.inr (.inr (.inr (.inr rfl)))) ho hc hk, hstored, hhandle, ?_,
        ?_, htak, hprep⟩
      · simpa [destroyFrame, ho] using hdes
      · simpa [destroyFrame, hk] using hsch
    | joinable hp hr | parked hp hr | handingOver hp hr | scheduled hp hr | finished hp hr =>
      simp [hroot] at hr

/-! ## The owner -/

section

variable (h : Good s) {o : Owner}
include h

theorem Good.move (hstage : Stage { s with owner := o })
    (hgone : s.owner ≠ .gone) (hgone' : o ≠ .gone) (hcons : o.consuming = s.owner.consuming)
    (hprep : o = .parkExchange → s.waiterScheduler = true ∧ s.waiterHandle = true) :
    Good { s with owner := o } := by
  refine ⟨h.noFault, h.noAbort, hstage, h.stored, fun _ => h.rootHandle hgone, ?_, h.scheduled, ?_,
    hprep⟩
  · have := h.destroyed
    simpa [hgone, hgone'] using this
  · have := h.taken
    rwa [← hcons] at this

theorem Good.takeResult (hgone : s.owner ≠ .gone) (hcons : s.owner.consuming = true)
    (hconsumed : s.consumed = true) (hroot : s.root ≠ .body)
    (hstage : ∀ r, Stage { s with taken := r, owner := .holding }) : Good s.takeResult := by
  obtain ⟨value, hv⟩ := Option.isSome_iff_exists.mp (h.stored.trans (decide_eq_true hroot))
  have heq : s.takeResult = { s with taken := s.taken ++ [value], owner := .holding } := by
    simp only [SpawnState.takeResult, hv]
  have ht := h.taken
  have hd := h.destroyed
  rw [if_neg (by simp [hcons])] at ht
  rw [heq]
  refine ⟨h.noFault, h.noAbort, hstage _, h.stored, fun _ => h.rootHandle hgone, ?_, h.scheduled,
    ?_, by simp⟩
  · simpa [hgone] using hd
  · simp [ht, hv, hconsumed, Owner.consuming]

theorem Good.moveJoinable (hp : s.phase = .runningJoinable)
    (ho : o.early = true) (hcons : o.consuming = s.owner.consuming)
    (hprep : o = .parkExchange → s.waiterScheduler = true ∧ s.waiterHandle = true) :
    Good { s with owner := o } := by
  have hgone' : o ≠ .gone := by rintro rfl; cases ho
  cases h.stage with
  | joinable _ hr he hcon hk hq =>
    have hgone : s.owner ≠ .gone := by intro hg; rw [hg] at he; cases he
    exact h.move (.joinable hp hr ho (hcon.trans hcons.symm) hk hq) hgone hgone' hcons hprep
  | parked hq | handingOver hq | scheduled hq | detached hq | finished hq =>
    rw [hp] at hq
    cases hq

theorem Good.moveFinished (hp : s.phase = .finished)
    (hgone : s.owner ≠ .gone) (hgone' : o ≠ .gone) (hpark : o ≠ .parked)
    (hcons : o.consuming = s.owner.consuming)
    (hprep : o = .parkExchange → s.waiterScheduler = true ∧ s.waiterHandle = true) :
    Good { s with owner := o } := by
  cases h.stage with
  | finished _ hr he hcon hk =>
    exact h.move (.finished hp (hr.imp (fun hr => ⟨hr.1, hgone'⟩) id) hpark
      (fun ho => hcon (hcons.symm.trans ho)) hk) hgone hgone' hcons hprep
  | joinable hq | parked hq | handingOver hq | scheduled hq | detached hq =>
    rw [hp] at hq
    cases hq

theorem Good.phase_of_owner (hgone : s.owner ≠ .gone) (hpark : s.owner ≠ .parked) :
    s.phase = .runningJoinable ∧ s.owner.early = true ∨ s.phase = .finished ∨
      s.phase = .completedWaiterScheduled ∧ s.owner.late = true := by
  cases h.stage with
  | joinable hp hr ho => exact .inl ⟨hp, ho⟩
  | parked hp hr ho | handingOver hp hr ho => exact absurd ho hpark
  | scheduled hp hr ho => exact .inr (.inr ⟨hp, ho⟩)
  | detached hp hr ho => exact absurd ho hgone
  | finished hp => exact .inr (.inl hp)

theorem Good.look (howner : s.owner = o)
    (ho : o = .waitLoad ∨ o = .waitCompare ∨ o = .joinReady) (hs : s.ownerStep = some s') :
    Good s' := by
  have hgone : s.owner ≠ .gone := by rcases ho with rfl | rfl | rfl <;> simp [howner]
  have hpark : s.owner ≠ .parked := by rcases ho with rfl | rfl | rfl <;> simp [howner]
  have hlate : s.owner.late = false := by rcases ho with rfl | rfl | rfl <;> rw [howner] <;> rfl
  have htouch := h.touch_eq (.inr hgone)
  rcases h.phase_of_owner hgone hpark with ⟨hp, -⟩ | hp | ⟨-, hl⟩
  · rcases ho with rfl | rfl | rfl
    · obtain rfl : { s with owner := .waitCompare } = s' := by
        simpa only [SpawnState.ownerStep, howner, htouch, hp, Option.some.injEq] using hs
      exact h.moveJoinable hp rfl (by rw [howner]; rfl) (by simp)
    · obtain rfl : { s with owner := .waitBlocked } = s' := by
        simpa only [SpawnState.ownerStep, howner, htouch, hp, if_true, Option.some.injEq] using hs
      exact h.moveJoinable hp rfl (by rw [howner]; rfl) (by simp)
    · obtain rfl : { s with owner := .parkPrepare } = s' := by
        simpa only [SpawnState.ownerStep, howner, htouch, hp, reduceCtorEq, if_false,
          Option.some.injEq] using hs
      exact h.moveJoinable hp rfl (by rw [howner]; rfl) (by simp)
  · rcases ho with rfl | rfl | rfl
    · obtain rfl : { s with owner := .waitTake } = s' := by
        simpa only [SpawnState.ownerStep, howner, htouch, hp, Option.some.injEq] using hs
      exact h.moveFinished hp hgone (by simp) (by simp) (by rw [howner]; rfl) (by simp)
    · obtain rfl : { s with owner := .waitLoad } = s' := by
        simpa only [SpawnState.ownerStep, howner, htouch, hp, reduceCtorEq, if_false,
          Option.some.injEq] using hs
      exact h.moveFinished hp hgone (by simp) (by simp) (by rw [howner]; rfl) (by simp)
    · obtain rfl : { s with owner := .joinTake } = s' := by
        simpa only [SpawnState.ownerStep, howner, htouch, hp, if_true, Option.some.injEq] using hs
      exact h.moveFinished hp hgone (by simp) (by simp) (by rw [howner]; rfl) (by simp)
  · rw [hlate] at hl
    cases hl

theorem Good.take (howner : s.owner = .waitTake ∨ s.owner = .joinTake)
    (hs : s.ownerStep = some s') : Good s' := by
  have hgone : s.owner ≠ .gone := by rcases howner with ho | ho <;> simp [ho]
  have hcons : s.owner.consuming = true := by rcases howner with ho | ho <;> rw [ho] <;> rfl
  have htouch := h.touch_eq (.inr hgone)
  obtain rfl : s.takeResult = s' := by
    rcases howner with ho | ho <;>
      simpa only [SpawnState.ownerStep, ho, htouch, Option.some.injEq] using hs
  cases h.stage with
  | finished hp hr ho hcon hk =>
    refine h.takeResult hgone hcons (hcon hcons) ?_ fun r =>
      .finished hp (hr.imp (fun hr => ⟨hr.1, by simp⟩) id) (by simp) nofun hk
    rcases hr with hr | hr
    · simp [hr.1]
    · simp [hr]
  | scheduled hp hr ho hh hcon hk =>
    exact h.takeResult hgone hcons hcon (by simp [hr]) fun r =>
      .scheduled hp hr rfl nofun hcon hk
  | joinable hp hr ho => rcases howner with hw | hw <;> simp [hw, Owner.early] at ho
  | parked hp hr ho | handingOver hp hr ho | detached hp hr ho =>
    rcases howner with hw | hw <;> simp [hw] at ho

theorem Good.rewrite {b c : Bool} (hpark : s.owner ≠ .parked)
    (hex : s.owner ≠ .parkExchange) : Good { s with waiterScheduler := b, waiterHandle := c } := by
  refine { h with stage := ?_, prepared := fun hx => absurd hx hex }
  cases h.stage with
  | joinable hp hr ho hcon hk hq => exact .joinable hp hr ho hcon hk hq
  | parked hp hr ho | handingOver hp hr ho => exact absurd ho hpark
  | scheduled hp hr ho hh hcon hk => exact .scheduled hp hr ho (fun hx => absurd hx hpark) hcon hk
  | detached hp hr ho hcon hk => exact .detached hp hr ho hcon hk
  | finished hp hr ho hcon hk => exact .finished hp hr ho hcon hk

theorem Good.park (howner : s.owner = o)
    (ho : o = .parkPrepare ∨ o = .parkUndo) (hs : s.ownerStep = some s') : Good s' := by
  have hgone : s.owner ≠ .gone := by rcases ho with rfl | rfl <;> simp [howner]
  have hpark : s.owner ≠ .parked := by rcases ho with rfl | rfl <;> simp [howner]
  have hex : s.owner ≠ .parkExchange := by rcases ho with rfl | rfl <;> simp [howner]
  have htouch := h.touch_eq (.inr hgone)
  rcases ho with rfl | rfl
  · obtain rfl :
        { s with waiterScheduler := true, waiterHandle := true, owner := .parkExchange } = s' := by
      simpa only [SpawnState.ownerStep, howner, htouch, Option.some.injEq] using hs
    have hg := h.rewrite (b := true) (c := true) hpark hex
    rcases h.phase_of_owner hgone hpark with ⟨hp, -⟩ | hp | ⟨-, hl⟩
    · exact hg.moveJoinable hp rfl (by simp [howner, Owner.consuming]) fun _ => ⟨rfl, rfl⟩
    · exact hg.moveFinished hp hgone (by simp) (by simp) (by simp [howner, Owner.consuming])
        fun _ => ⟨rfl, rfl⟩
    · simp [howner, Owner.late] at hl
  · obtain rfl :
        { s with waiterScheduler := false, waiterHandle := false, owner := .joinTake } = s' := by
      simpa only [SpawnState.ownerStep, howner, htouch, Option.some.injEq] using hs
    have hg := h.rewrite (b := false) (c := false) hpark hex
    rcases h.phase_of_owner hgone hpark with ⟨hp, he⟩ | hp | ⟨-, hl⟩
    · simp [howner, Owner.early] at he
    · exact hg.moveFinished hp hgone (by simp) (by simp) (by simp [howner, Owner.consuming])
        (by simp)
    · simp [howner, Owner.late] at hl

theorem Good.parkExchange (howner : s.owner = .parkExchange)
    (hs : s.ownerStep = some s') : Good s' := by
  have hgone : s.owner ≠ .gone := by simp [howner]
  have htouch := h.touch_eq (.inr hgone)
  obtain ⟨hw, hh⟩ := h.prepared howner
  rcases h.phase_of_owner hgone (by simp [howner]) with ⟨hp, -⟩ | hp | ⟨-, hl⟩
  · obtain rfl :
        { s with phase := .waiterParked, parks := s.parks + 1, owner := .parked } = s' := by
      simpa only [SpawnState.ownerStep, howner, htouch, hp, Option.some.injEq] using hs
    cases h.stage with
    | joinable _ hr ho hcon hk hq =>
      refine ⟨h.noFault, h.noAbort, .parked rfl (hr.imp id .inl) rfl hw hh ?_ hq (by simp [hk]),
        h.stored, fun _ => h.rootHandle hgone, ?_, ?_, ?_, by simp⟩
      · rw [hcon, howner]
        rfl
      · simpa [howner] using h.destroyed
      · have := h.scheduled
        rcases hr with hr | hr <;> simpa [hr] using this
      · simpa [howner, Owner.consuming] using h.taken
    | parked hq | handingOver hq | scheduled hq | detached hq | finished hq =>
      rw [hp] at hq
      cases hq
  · obtain rfl : { s with owner := .parkUndo } = s' := by
      simpa only [SpawnState.ownerStep, howner, htouch, hp, Option.some.injEq] using hs
    exact h.moveFinished hp hgone (by simp) (by simp) (by rw [howner]; rfl) (by simp)
  · simp [howner, Owner.late] at hl

theorem Good.resume (howner : s.owner = .parked) (hs : s.ownerStep = some s') : Good s' := by
  have hgone : s.owner ≠ .gone := by simp [howner]
  have htouch := h.touch_eq (.inr hgone)
  simp only [SpawnState.ownerStep, howner, htouch] at hs
  split_ifs at hs with hq hh
  · cases hs
    cases h.stage with
    | scheduled hp hr ho _ hcon hk =>
      refine ⟨h.noFault, h.noAbort, .scheduled hp hr rfl (by simp) hcon hk, h.stored,
        fun _ => h.rootHandle hgone, ?_, h.scheduled, ?_, by simp⟩
      · simpa [howner] using h.destroyed
      · simpa [howner, Owner.consuming] using h.taken
    | parked hp hr ho hw hh hcon hq' | handingOver hp hr ho hw hh hcon hq' =>
      rw [hq] at hq'
      cases hq'
    | joinable hp hr ho => simp [howner, Owner.early] at ho
    | detached hp hr ho => simp [howner] at ho
    | finished hp hr ho => exact absurd howner ho
  · cases h.stage with
    | scheduled hp hr ho hh' => exact absurd (hh' howner) hh
    | parked hp hr ho hw hh' | handingOver hp hr ho hw hh' => exact absurd hh' hh
    | joinable hp hr ho => simp [howner, Owner.early] at ho
    | detached hp hr ho => simp [howner] at ho
    | finished hp hr ho => exact absurd howner ho

theorem Good.release (howner : s.owner = .releasing) (hs : s.ownerStep = some s') : Good s' := by
  have hgone : s.owner ≠ .gone := by simp [howner]
  have htouch := h.touch_eq (.inr hgone)
  cases h.stage with
  | joinable hp hr ho hcon hk hq =>
    obtain rfl : { s with phase := .runningDetached, owner := .gone } = s' := by
      simpa only [SpawnState.ownerStep, howner, htouch, hp, Option.some.injEq] using hs
    have hcon' : s.consumed = false := by rw [hcon, howner]; rfl
    have hroot : s.root ≠ .done := by rcases hr with hr | hr <;> simp [hr]
    refine ⟨h.noFault, h.noAbort, .detached rfl (hr.imp id .inl) rfl hcon' hk, h.stored, by simp,
      ?_, h.scheduled, ?_, by simp⟩
    · simpa [hroot] using h.destroyed
    · simpa [hcon'] using h.taken
  | finished hp hr ho hcon hk =>
    obtain rfl : { s with owner := .destroying } = s' := by
      simpa only [SpawnState.ownerStep, howner, htouch, hp, Option.some.injEq] using hs
    exact h.moveFinished hp hgone (by simp) (by simp) (by rw [howner]; rfl) (by simp)
  | scheduled hp hr ho hh hcon hk =>
    obtain rfl : { s with owner := .destroying } = s' := by
      simpa only [SpawnState.ownerStep, howner, htouch, hp, Option.some.injEq] using hs
    exact h.move (.scheduled hp hr rfl (by simp) hcon hk) hgone (by simp) (by rw [howner]; rfl)
      (by simp)
  | parked hp hr ho | handingOver hp hr ho | detached hp hr ho => simp [howner] at ho

theorem Good.destroyRoot (howner : s.owner = .destroying) (hc : Notified s .owner)
    (hs : s.ownerStep = some s') : Good s' := by
  have hgone : s.owner ≠ .gone := by simp [howner]
  have htouch := h.touch_eq (.inr hgone)
  have hhandle := h.rootHandle hgone
  obtain rfl : { s.destroyFrame with rootHandle := false, owner := .gone } = s' := by
    simpa only [SpawnState.ownerStep, howner, htouch, hhandle, if_true, Option.some.injEq] using hs
  have hd : s.destroyed = 0 := by simpa [howner] using h.destroyed
  have htaken : s.taken = if s.consumed = true then s.result.toList else [] := by
    simpa [howner, Owner.consuming] using h.taken
  cases h.stage with
  | finished hp hr ho hcon hk =>
    have hr : s.root = .done := hr.resolve_left fun hr => hc howner hr.1
    refine ⟨h.noFault, h.noAbort, .finished hp (.inr hr) (by simp) (by simp [Owner.consuming]) hk,
      h.stored, by simp, ?_, h.scheduled, ?_, by simp⟩
    · simp [destroyFrame, hd, hr]
    · simpa [destroyFrame, Owner.consuming] using htaken
  | scheduled hp hr ho hh hcon hk =>
    refine ⟨h.noFault, h.noAbort, .scheduled hp hr rfl (by simp) hcon hk, h.stored, by simp, ?_,
      h.scheduled, ?_, by simp⟩
    · simp [destroyFrame, hd, hr]
    · simpa [destroyFrame, Owner.consuming] using htaken
  | joinable hp hr ho => simp [howner, Owner.early] at ho
  | parked hp hr ho | handingOver hp hr ho | detached hp hr ho => simp [howner] at ho

theorem Good.ownerStep (hc : Notified s .owner) (hs : s.ownerStep = some s') : Good s' := by
  cases howner : s.owner with
  | holding | waitBlocked | gone => simp [SpawnState.ownerStep, howner] at hs
  | waitLoad => exact h.look howner (.inl rfl) hs
  | waitCompare => exact h.look howner (.inr (.inl rfl)) hs
  | joinReady => exact h.look howner (.inr (.inr rfl)) hs
  | waitTake => exact h.take (.inl howner) hs
  | joinTake => exact h.take (.inr howner) hs
  | parkPrepare => exact h.park howner (.inl rfl) hs
  | parkUndo => exact h.park howner (.inr rfl) hs
  | parkExchange => exact h.parkExchange howner hs
  | parked => exact h.resume howner hs
  | releasing => exact h.release howner hs
  | destroying => exact h.destroyRoot howner hc hs

end

/-! ## Runs -/

theorem Good.consume (h : Good s) (howner : s.owner = .holding) (hcon : s.consumed = false)
    {o : Owner} (ho : o.early = true) (hcons : o.consuming = true) (hex : o ≠ .parkExchange) :
    Good { s with consumed := true, owner := o } := by
  have hgone : o ≠ .gone := by rintro rfl; cases ho
  have hpark : o ≠ .parked := by rintro rfl; cases ho
  refine ⟨h.noFault, h.noAbort, ?_, h.stored, fun _ => h.rootHandle (by simp [howner]), ?_,
    h.scheduled, ?_, fun hx => absurd hx hex⟩
  · cases h.stage with
    | joinable hp hr he hc hk hq => exact .joinable hp hr ho hcons.symm hk hq
    | finished hp hr he hc hk =>
      exact .finished hp (hr.imp (fun hr => ⟨hr.1, hgone⟩) id) hpark (fun _ => rfl) hk
    | scheduled hp hr he hh hc => rw [hcon] at hc; cases hc
    | parked hp hr he | handingOver hp hr he | detached hp hr he => simp [howner] at he
  · simpa [howner, hgone] using h.destroyed
  · simpa [hcon, hcons] using h.taken

theorem Good.step (h : Good s) {a : Action α} (hc : Notified s a) (hs : step a s = some s') :
    Good s' := by
  unfold SpawnState.step at hs
  rw [if_neg (by simp [h.noFault, h.noAbort])] at hs
  cases a with
  | returns value =>
    simp only at hs
    split_ifs at hs with hbody
    cases hs
    exact h.storeResult hbody value
  | root => exact h.rootStep hs
  | owner => exact h.ownerStep hc hs
  | poll =>
    simp only at hs
    split_ifs at hs with howner
    cases hs
    rw [h.touch_eq (.inr (by simp [howner]))]
    exact h
  | wait | join =>
    simp only at hs
    split_ifs at hs with hw
    cases hs
    exact h.consume hw.1 (by simpa using hw.2) rfl rfl (by simp)
  | release =>
    simp only at hs
    split_ifs at hs with howner
    cases hs
    have hgone : s.owner ≠ .gone := by simp [howner]
    rcases h.phase_of_owner hgone (by simp [howner]) with ⟨hp, -⟩ | hp | ⟨hp, -⟩
    · exact h.moveJoinable hp rfl (by rw [howner]; rfl) (by simp)
    · exact h.moveFinished hp hgone (by simp) (by simp) (by rw [howner]; rfl) (by simp)
    · cases h.stage with
      | scheduled _ hr ho hh hcon hk =>
        exact h.move (.scheduled hp hr rfl (by simp) hcon hk) hgone (by simp) (by rw [howner]; rfl)
          (by simp)
      | joinable hq | parked hq | detached hq | finished hq => rw [hp] at hq; cases hq
      | handingOver _ hr ho => simp [howner] at ho
  | wake =>
    simp only at hs
    split_ifs at hs with howner
    cases hs
    have hgone : s.owner ≠ .gone := by simp [howner]
    rcases h.phase_of_owner hgone (by simp [howner]) with ⟨hp, -⟩ | hp | ⟨-, hl⟩
    · exact h.moveJoinable hp rfl (by rw [howner]; rfl) (by simp)
    · exact h.moveFinished hp hgone (by simp) (by simp) (by rw [howner]; rfl) (by simp)
    · simp [howner, Owner.late] at hl

theorem Good.init : Good ({} : SpawnState α) :=
  ⟨rfl, rfl, .joinable rfl (.inl rfl) rfl rfl rfl rfl, rfl, fun _ => rfl, rfl, rfl, rfl, by simp⟩

/-- **Hand-over.** In every run in which the owner does not destroy the frame between the root's
publication of `kFinished` and its notification, the frame is handed over correctly. -/
theorem handedOff_of_notified (h : (system α).ReachesBy Notified s) : HandedOff s := by
  refine Good.handedOff (h.invariant (I := Good) ?_ fun s a s' hg hc hs => hg.step hc hs)
  rintro _ rfl
  exact .init

/-- A waiter is parked, scheduled and resumed, takes the result and drops the handle. -/
theorem handedOff_of_notified_join : ∃ s : SpawnState ℕ, (system ℕ).ReachesBy Notified s ∧
    (s.owner = .gone ∧ s.root = .done ∧ s.taken = [7]) ∧ HandedOff s := by
  obtain ⟨s, hr, hp⟩ := (system ℕ).exists_reachesBy Notified {} rfl
    [.join, .owner, .owner, .owner, .returns 7, .root, .root, .root, .root, .owner, .owner,
      .release, .owner, .owner]
    (P := fun s => s.owner = .gone ∧ s.root = .done ∧ s.taken = [7]) (by decide)
  exact ⟨s, hr, hp, handedOff_of_notified hr⟩

/-- The owner sees `kFinished` and drops the handle before the root calls `notify_one`. -/
theorem notify_after_destruction :
    ¬ ∀ s : SpawnState ℕ, (system ℕ).Reaches s → HandedOff s := by
  intro hall
  obtain ⟨s, hr, hp⟩ := (system ℕ).exists_reachesBy (fun _ _ => True) {} rfl
    [.wait, .returns 7, .root, .owner, .owner, .release, .owner, .owner, .root]
    (P := fun s => s.fault) (by decide)
  exact Bool.false_ne_true ((hall s hr).noFault.symm.trans hp)

end SpawnState

end Alyrn.Coro
