import Mathlib.Tactic.Common
import Alyrn.Uring.TimerQueue

/-!
# The earliest timer is covered

When the owner thread is outside the queue's code and the loop is not stopping, some request wakes
the loop in time for the earliest timer: an update is in flight, or the driver or the fallback is
armed for no later than its expiration.

`Reconcile` establishes this, except that it does nothing while the control operation is pending.
That is harmless during an update, whose completion reconciles again. But the fallback holds the
control operation as well, and a timer that is added while it is armed for a later deadline is
covered by neither timeout. `Timely` leaves such insertions out.
-/

namespace Alyrn.Uring.TimerQueue

variable {q q' : TimerQueue} {answer : Option Error} {t : Detail.Timer} {now : ℕ}

def updateInFlight (q : TimerQueue) : Bool :=
  match q.control with
  | some (.update ..) => true
  | _ => false

def fallback (q : TimerQueue) : Option ℕ :=
  match q.control with
  | some (.timeout f) => some f
  | _ => none

def moved (q : TimerQueue) : Bool :=
  match q.control with
  | some (.update _ (some 0)) => true
  | _ => false

/-- A kernel timeout is early enough for the earliest timer, or is being moved. -/
def Covered (q : TimerQueue) : Prop :=
  ∀ t ∈ q.timers.earliest, q.updateInFlight = true ∨ (∃ d ∈ q.driver, d ≤ t.expiration) ∨
    ∃ f ∈ q.fallback, f ≤ t.expiration

instance : Decidable q.Covered := by unfold Covered; infer_instance

/-! ## The condition -/

def inserts (q : TimerQueue) : Action → Option ℕ
  | .addTimer deadline _ _ => some deadline
  | .addAfter delay _ => some (q.now + delay)
  | .callbackReturns =>
    match q.phase with
    | .running now t =>
      if t.repeats && !q.processingTimerCancelled then some (now + t.interval) else none
    | _ => none
  | _ => none

/-- `e` is before the deadline of the armed fallback, and not due in the current pass either. -/
def beforeFallback (q : TimerQueue) (e : ℕ) : Bool :=
  q.fallback.any (e < ·) && !q.phase.pass.any (e ≤ ·)

def Timely (q : TimerQueue) (a : Action) : Prop := ∀ e ∈ q.inserts a, q.beforeFallback e = false

instance : ∀ q a, Decidable (Timely q a) := fun _ _ => by unfold Timely; infer_instance

theorem le_of_not_beforeFallback {e f : ℕ} (h : q.beforeFallback e = false)
    (hf : q.fallback = some f) : f ≤ e ∨ ∃ n ∈ q.phase.pass, e ≤ n := by
  simp only [beforeFallback, hf, Option.any_some, Bool.and_eq_false_iff, decide_eq_false_iff_not,
    not_lt, Bool.not_eq_false', Option.any_eq_true, decide_eq_true_eq] at h
  exact h

/-! ## The invariant -/

/-- The queue's flags say what the kernel has, and no timer is missed by an armed fallback. -/
structure Good (q : TimerQueue) : Prop where
  armed : q.driverArmed = q.driver.isSome
  pending : q.controlPending = q.control.isSome
  fallback_iff : q.controlPending = true → q.controlIsFallback = q.fallback.isSome
  fallbackArmed : q.fallbackArmed = q.fallback.isSome
  requested : ∀ d r, q.control = some (.update d r) → q.requestedDeadline = d
  deadline : ∀ d ∈ q.driver, d = if q.moved then q.requestedDeadline else q.driverDeadline
  bound : ∀ f ∈ q.fallback, ∀ t ∈ q.timers.toList,
    f ≤ t.expiration ∨ ∃ n ∈ q.phase.pass, t.expiration ≤ n

def Settled (q : TimerQueue) : Prop :=
  q.controlPending = true ∨
    ∀ t ∈ q.timers.toList, q.driverArmed = true ∧ q.driverDeadline ≤ t.expiration

structure Inv (q : TimerQueue) : Prop extends Good q where
  settled : q.phase = .idle → q.loopState.isStopping = false → q.Settled

theorem Good.frame (h : Good q) (n m : ℕ) (b c : Bool) (l : LoopState) :
    Good { q with nextSequence := n, now := m, processingTimerCancelled := b, aborted := c,
                  loopState := l } :=
  { h with }

theorem Inv.frame (h : Inv q) (n m : ℕ) (b c : Bool) :
    Inv { q with nextSequence := n, now := m, processingTimerCancelled := b, aborted := c } :=
  ⟨h.toGood.frame n m b c q.loopState, h.settled⟩

theorem isStopping_requestStop (l : LoopState) : l.requestStop.isStopping = true := by
  cases l <;> rfl

theorem Good.fallback_eq_none (h : Good q) (hp : q.controlPending = false) : q.control = none := by
  simpa [hp] using h.pending.symm

theorem Inv.covered (h : Inv q) (hidle : q.phase = .idle)
    (hrun : q.loopState.isStopping = false) : q.Covered := by
  intro t ht
  have htm : t ∈ q.timers.toList := OrderedIndex.mem_of_earliest ht
  rcases h.settled hidle hrun with hp | hd
  · -- the control operation is pending: an update, or the fallback
    cases hc : q.control with
    | none => simp [h.pending, hc] at hp
    | some c =>
      cases c with
      | update d r => exact .inl (by simp [updateInFlight, hc])
      | timeout f =>
        have hf : q.fallback = some f := by simp [TimerQueue.fallback, hc]
        refine .inr (.inr ⟨f, hf, ?_⟩)
        rcases h.bound f hf t htm with hle | ⟨n, hn, _⟩
        · exact hle
        · simp [hidle, TimerPhase.pass] at hn
  · obtain ⟨harmed, hle⟩ := hd t htm
    obtain ⟨d, hdr⟩ := Option.isSome_iff_exists.mp (h.armed ▸ harmed)
    by_cases hu : q.updateInFlight = true
    · exact .inl hu
    · have hm : q.moved = false := by
        unfold updateInFlight at hu
        unfold moved
        split <;> simp_all
      have := h.deadline d hdr
      rw [hm, if_neg Bool.false_ne_true] at this
      exact .inr (.inl ⟨d, hdr, this ▸ hle⟩)

/-! ## Reconciling -/

inductive Reconciled (q : TimerQueue) : Option Error → TimerQueue → Prop where
  | settled : q.Settled → Reconciled q none q
  | armed {t : Detail.Timer} : q.timers.earliest = some t → q.control = none →
      Reconciled q none { q with
        driverArmed := true, driverDeadline := t.expiration, driver := some t.expiration }
  | updating {t : Detail.Timer} : q.timers.earliest = some t → q.control = none →
      Reconciled q none { q with
        controlIsFallback := false, requestedDeadline := t.expiration, controlPending := true,
        control := some (.update t.expiration none) }
  | fellBack {t : Detail.Timer} : q.timers.earliest = some t → q.control = none →
      Reconciled q none { q with
        controlIsFallback := true, controlPending := true, fallbackArmed := true,
        control := some (.timeout t.expiration) }
  | failed {e : Error} {b : Bool} {d : ℕ} : q.control = none →
      Reconciled q (some e) { q with controlIsFallback := b, requestedDeadline := d }

theorem Good.reconcile (h : Good q) (answer : Option Error) :
    Reconciled q (q.reconcile answer).1 (q.reconcile answer).2 := by
  unfold TimerQueue.reconcile
  by_cases hp : q.controlPending = true
  · rw [if_pos hp]
    exact .settled (.inl hp)
  · rw [if_neg hp]
    have hc := h.fallback_eq_none (by simpa using hp)
    have hfb : q.fallbackArmed = false := by simp [h.fallbackArmed, TimerQueue.fallback, hc]
    cases ht : q.timers.earliest with
    | none =>
      have hempty : q.Settled := .inr fun t htm => absurd htm (OrderedIndex.earliest_eq_none ht)
      split <;> exact .settled hempty
    | some t =>
      cases hd : q.driverArmed with
      | false =>
        simp only [Bool.not_false, if_true, arm]
        cases q.submitOp answer with
        | some e => exact .failed (b := q.controlIsFallback) (d := q.requestedDeadline) hc
        | none => exact .armed ht hc
      | true =>
        simp only [Bool.not_true, Bool.false_eq_true, if_false, hfb, if_true, Bool.not_false]
        split_ifs with hlt hsup
        · simp only [update]
          cases q.submitOp answer with
          | some e => exact .failed hc
          | none => exact .updating ht hc
        · simp only [armFallback]
          cases q.submitOp answer with
          | some e => exact .failed (d := q.requestedDeadline) hc
          | none => exact .fellBack ht hc
        · refine .settled (.inr fun u hu => ⟨hd, ?_⟩)
          have := Detail.Timer.expiration_le_of_key_le (OrderedIndex.earliest_le ht hu)
          omega

namespace Reconciled

variable {r : Option Error}

theorem settled_of_none (h : Reconciled q none q') : q'.Settled := by
  cases h with
  | settled hs => exact hs
  | armed ht =>
    exact .inr fun u hu =>
      ⟨rfl, Detail.Timer.expiration_le_of_key_le (OrderedIndex.earliest_le ht hu)⟩
  | updating | fellBack => exact .inl rfl

theorem good (h : Reconciled q r q') (hq : Good q) : Good q' := by
  cases h with
  | settled => exact hq
  | armed ht hc =>
    refine { hq with armed := rfl, deadline := ?_ }
    rintro d ⟨⟩
    simp [moved, hc]
  | updating ht hc =>
    have hfb : q.fallbackArmed = false := by simp [hq.fallbackArmed, TimerQueue.fallback, hc]
    refine ⟨hq.armed, rfl, fun _ => rfl, hfb, ?_, ?_, fun f hf => by cases hf⟩
    · rintro d r ⟨⟩
      rfl
    · intro d hd
      have := hq.deadline d hd
      simpa [moved, hc] using this
  | fellBack ht hc =>
    refine ⟨hq.armed, rfl, fun _ => rfl, rfl, fun d r h => by (cases h), ?_, ?_⟩
    · intro d hd
      have := hq.deadline d hd
      simpa [moved, hc] using this
    · rintro f ⟨⟩ u hu
      exact .inl (Detail.Timer.expiration_le_of_key_le (OrderedIndex.earliest_le ht hu))
  | failed hc =>
    have hp : q.controlPending = false := by simp [hq.pending, hc]
    refine ⟨hq.armed, hq.pending, fun h => absurd (hp.symm.trans h) Bool.false_ne_true,
      hq.fallbackArmed, fun d r h => absurd (hc.symm.trans h) (by simp), ?_, hq.bound⟩
    intro d hd
    have := hq.deadline d hd
    simpa [moved, hc] using this

end Reconciled

theorem Good.reconcileOrStop (h : Good q) (answer : Option Error) :
    Inv (q.reconcileOrStop answer) := by
  have hr := h.reconcile answer
  unfold TimerQueue.reconcileOrStop
  generalize q.reconcile answer = p at hr
  obtain ⟨r, q'⟩ := p
  have hg : Good q' := hr.good h
  cases r with
  | none => exact ⟨hg, fun _ _ => hr.settled_of_none⟩
  | some e =>
    refine ⟨hg.frame _ _ _ _ _, fun _ hs => ?_⟩
    exact absurd (hs.symm.trans (isStopping_requestStop _)) Bool.false_ne_true

/-! ## Timers come and go -/

theorem Good.fewer (h : Good q) {T : Detail.TimerIndex} {A : List Detail.Timer}
    (hT : ∀ t ∈ T.toList, t ∈ q.timers.toList) : Good { q with timers := T, active := A } :=
  ⟨h.1, h.2, h.3, h.4, h.5, h.6, fun f hf t ht => h.bound f hf t (hT t ht)⟩

theorem mem_of_mem_unlink {sequence : ℕ}
    (h : t ∈ (q.unlink sequence).timers.toList) : t ∈ q.timers.toList :=
  (OrderedIndex.mem_filter.mp h).1

theorem Good.link (h : Good q) (ht : q.beforeFallback t.expiration = false) : Good (q.link t) := by
  refine ⟨h.1, h.2, h.3, h.4, h.5, h.6, fun f hf u hu => ?_⟩
  rcases OrderedIndex.mem_insert.mp hu with rfl | hu
  · exact le_of_not_beforeFallback ht hf
  · exact h.bound f hf u hu

theorem Inv.addTimer (h : Inv q) {deadline interval : ℕ} {r : Except Error ℕ}
    (ht : q.beforeFallback deadline = false)
    (hq : q.addTimer deadline interval answer = some (r, q')) : Inv q' := by
  unfold TimerQueue.addTimer at hq
  simp only at hq
  split_ifs at hq with hdup
  · cases hq
    exact h.frame _ _ _ _
  · have hlink := (h.toGood.frame (q.nextSequence + 1) q.now q.processingTimerCancelled q.aborted
      q.loopState).link (t := ⟨q.nextSequence, deadline, interval⟩) ht
    have hr := hlink.reconcile answer
    generalize TimerQueue.reconcile _ answer = p at hq hr
    obtain ⟨e, q₁⟩ := p
    cases e with
    | none =>
      cases hq
      exact ⟨hr.good hlink, fun _ _ => hr.settled_of_none⟩
    | some e =>
      simp only at hq
      split_ifs at hq
      cases hq
      refine ⟨(hr.good hlink).fewer fun t => mem_of_mem_unlink, fun hi hs => ?_⟩
      -- the failed call leaves the timers, the flags and the driver as they were
      cases hr with
      | failed hc =>
        refine (h.settled hi hs).imp id fun hd u hu => hd u ?_
        obtain ⟨hu, hne⟩ := OrderedIndex.mem_filter.mp hu
        rcases OrderedIndex.mem_insert.mp hu with rfl | hu
        · simp at hne
        · exact hu

theorem Inv.cancel (h : Inv q) {sequence : ℕ} {r : Except Error Unit}
    (hq : q.cancel sequence answer = some (r, q')) : Inv q' := by
  unfold TimerQueue.cancel at hq
  split_ifs at hq with hproc howned hindex
  · cases hq
    exact h.frame _ _ _ _
  · cases hq
    exact h
  · cases hq
    exact Good.reconcileOrStop (h.toGood.fewer fun t => mem_of_mem_unlink) answer

/-! ## Completions -/

theorem Good.afterCompletion (h : Good q) (hidle : q.phase = .idle) (result : ℤ)
    (answer : Option Error) : Inv (q.afterCompletion result answer) := by
  unfold TimerQueue.afterCompletion
  split_ifs
  · refine ⟨⟨h.1, h.2, h.3, h.4, h.5, h.6, fun f hf t ht => ?_⟩, nofun⟩
    rcases h.bound f hf t ht with hle | ⟨n, hn, _⟩
    · exact .inl hle
    · simp [hidle, TimerPhase.pass] at hn
  · exact h.reconcileOrStop answer

theorem Good.driverCompletes (h : Good q) (hidle : q.phase = .idle) (result : ℤ)
    (answer : Option Error) :
    Inv ({ q with driver := none }.handleDriverComplete result answer) := by
  refine Good.afterCompletion (q := { q with
    driver := none, driverArmed := false, driverDeadline := 0 }) ?_ hidle result answer
  exact ⟨rfl, h.2, h.3, h.4, h.5, fun d hd => by (cases hd), h.7⟩

theorem Good.fallbackCompletes (h : Good q) (hidle : q.phase = .idle) {f : ℕ}
    (hc : q.control = some (.timeout f)) (result : ℤ) (answer : Option Error) :
    Inv ({ q with control := none }.handleControlComplete result answer) := by
  have hp : q.controlPending = true := by simp [h.pending, hc]
  have hfb : q.controlIsFallback = true := by simp [h.fallback_iff hp, TimerQueue.fallback, hc]
  have hm : q.moved = false := by simp [moved, hc]
  simp only [handleControlComplete, hfb, if_true]
  refine Good.afterCompletion (q := { q with
    control := none, controlPending := false, controlIsFallback := false, fallbackArmed := false })
    ?_ hidle result answer
  refine ⟨h.1, rfl, fun h => by (cases h), rfl, fun d r h => by (cases h), ?_,
    fun f hf => by cases hf⟩
  intro d hd
  have := h.deadline d hd
  rwa [hm] at this

theorem Good.updateCompletes (h : Good q) {d : ℕ} {result : ℤ}
    (hc : q.control = some (.update d (some result))) (answer : Option Error) :
    Inv ({ q with control := none }.handleControlComplete result answer) := by
  have hp : q.controlPending = true := by simp [h.pending, hc]
  have hno : q.fallback = none := by simp [TimerQueue.fallback, hc]
  have hfb : q.controlIsFallback = false := by simp [h.fallback_iff hp, hno]
  have hfa : q.fallbackArmed = false := by simp [h.fallbackArmed, hno]
  simp only [handleControlComplete, hfb, Bool.false_eq_true, if_false]
  -- the driver's deadline is the requested one exactly if the kernel answered zero
  split_ifs with hz
  · refine Good.reconcileOrStop (q := { q with
      control := none, controlPending := false, controlIsFallback := false
      driverDeadline := q.requestedDeadline }) ?_ answer
    refine ⟨h.1, rfl, fun h => by (cases h), hfa, fun d r h => by (cases h), fun d hd => ?_,
      fun f hf => by cases hf⟩
    have := h.deadline d hd
    rwa [show q.moved = true by simp [moved, hc, hz], if_pos rfl] at this
  · refine Good.reconcileOrStop (q := { q with
      control := none, controlPending := false, controlIsFallback := false
      timeoutUpdateSupported := false }) ?_ answer
    refine ⟨h.1, rfl, fun h => by (cases h), hfa, fun d r h => by (cases h), fun d hd => ?_,
      fun f hf => by cases hf⟩
    have := h.deadline d hd
    rwa [show q.moved = false by simp [moved, hc, hz]] at this

theorem Inv.kernelMoves (h : Inv q) {d : ℕ} (hc : q.control = some (.update d none))
    (hd : q.driver.isSome = true) :
    Inv { q with control := some (.update d (some 0)), driver := some d } := by
  have hp : q.controlPending = true := by simp [h.pending, hc]
  have hno : q.fallback = none := by simp [TimerQueue.fallback, hc]
  refine ⟨⟨h.armed.trans hd, hp, fun _ => (h.fallback_iff hp).trans (by rw [hno]; rfl),
    h.fallbackArmed.trans (by rw [hno]; rfl), ?_, ?_, fun f hf => by cases hf⟩, fun _ _ => .inl hp⟩
  · rintro d' r ⟨⟩
    exact h.requested d none hc
  · rintro d' ⟨⟩
    exact (h.requested d none hc).symm

theorem Inv.kernelRejects (h : Inv q) {d : ℕ} {result : ℤ} (hz : result ≠ 0)
    (hc : q.control = some (.update d none)) :
    Inv { q with control := some (.update d (some result)) } := by
  have hp : q.controlPending = true := by simp [h.pending, hc]
  have hno : q.fallback = none := by simp [TimerQueue.fallback, hc]
  refine ⟨⟨h.armed, hp, fun _ => (h.fallback_iff hp).trans (by rw [hno]; rfl),
    h.fallbackArmed.trans (by rw [hno]; rfl), ?_, ?_, fun f hf => by cases hf⟩, fun _ _ => .inl hp⟩
  · rintro d' r ⟨⟩
    exact h.requested d none hc
  · intro d' hd'
    have := h.deadline d' hd'
    rw [show q.moved = false by simp [moved, hc]] at this
    rw [this]
    simp [moved, hz]

/-! ## The pass over the expired timers -/

theorem Good.pop (h : Good q) (hph : q.phase = .expiring now)
    (hq : q.pop now = some q') : Inv q' := by
  unfold TimerQueue.pop at hq
  cases ht : q.timers.earliest with
  | none => simp [ht] at hq
  | some t =>
    simp only [ht] at hq
    split_ifs at hq
    cases hq
    refine ⟨⟨h.1, h.2, h.3, h.4, h.5, h.6, fun f hf u hu => ?_⟩, nofun⟩
    have := h.bound f hf u (OrderedIndex.mem_of_mem_pop hu)
    rwa [hph] at this

theorem Good.callbackReturns (h : Good q)
    (hph : q.phase = .running now t) (hc : Timely q .callbackReturns)
    (hq : q.callbackReturns now t = some q') : Inv q' := by
  have hg : Good { q with phase := .expiring now } :=
    ⟨h.1, h.2, h.3, h.4, h.5, h.6, fun f hf u hu => by
      have := h.bound f hf u hu
      rwa [hph] at this⟩
  have hg' : Good { q with phase := .expiring now, processingTimerCancelled := false } :=
    hg.frame _ _ _ _ _
  unfold TimerQueue.callbackReturns at hq
  simp only at hq
  split_ifs at hq with hrep hcan hdup
  · cases hq
    exact ⟨hg, nofun⟩
  · cases hq
    exact ⟨hg', nofun⟩
  · cases hq
    refine ⟨hg'.link ?_, nofun⟩
    have := hc (now + t.interval) (by simp_all [inserts])
    rwa [beforeFallback, hph] at this

theorem Good.endPass (h : Good q) (hph : q.phase = .expiring now)
    (hdone : q.passDone now = true) (answer : Option Error) :
    Inv ({ q with phase := .idle }.reconcileOrStop answer) := by
  refine Good.reconcileOrStop (q := { q with phase := .idle })
    ⟨h.1, h.2, h.3, h.4, h.5, h.6, fun f hf t ht => ?_⟩ answer
  rcases h.bound f hf t ht with hle | ⟨n, hn, hle⟩
  · exact .inl hle
  · -- nothing in the index is due any more
    obtain rfl : now = n := by simpa [hph, TimerPhase.pass] using hn
    cases he : q.timers.earliest with
    | none => exact absurd ht (OrderedIndex.earliest_eq_none he)
    | some u =>
      have hu : now < u.expiration := by simpa [passDone, he] using hdone
      have := Detail.Timer.expiration_le_of_key_le (OrderedIndex.earliest_le he ht)
      omega

/-! ## Runs -/

theorem Inv.make (now sequence : ℕ) : Inv (TimerQueue.make now sequence) :=
  ⟨⟨rfl, rfl, fun h => by (cases h), rfl, fun d r h => by (cases h), fun d hd => by (cases hd),
    fun f hf => by cases hf⟩, fun _ _ => .inr fun t ht => absurd ht List.not_mem_nil⟩

theorem Inv.orAbort (h : Inv q) {o : Option TimerQueue} (ho : ∀ q', o = some q' → Inv q') :
    Inv (q.orAbort o) := by
  cases o with
  | some q' => exact ho q' rfl
  | none => exact h.frame _ _ _ _

theorem Inv.step (h : Inv q) {a : Action} (hc : Timely q a) (hs : TimerQueue.step a q = some q') :
    Inv q' := by
  unfold TimerQueue.step at hs
  obtain ⟨hab, hs⟩ := Option.ite_none_left_eq_some.mp hs
  cases a with
  | addTimer deadline interval answer =>
    simp only at hs
    split_ifs at hs
    cases hs
    refine h.orAbort fun q' hq' => ?_
    obtain ⟨⟨r, q₁⟩, hadd, rfl⟩ := Option.map_eq_some_iff.mp hq'
    exact h.addTimer (hc deadline rfl) hadd
  | addAfter delay answer =>
    simp only at hs
    split_ifs at hs
    cases hs
    refine h.orAbort fun q' hq' => ?_
    obtain ⟨⟨r, q₁⟩, hadd, rfl⟩ := Option.map_eq_some_iff.mp hq'
    exact h.addTimer (hc _ rfl) hadd
  | cancel sequence answer =>
    simp only at hs
    split_ifs at hs
    cases hs
    refine h.orAbort fun q' hq' => ?_
    obtain ⟨⟨r, q₁⟩, hcan, rfl⟩ := Option.map_eq_some_iff.mp hq'
    exact h.cancel hcan
  | driverCqe result answer =>
    simp only at hs
    split at hs
    · split_ifs at hs
      cases hs
      exact h.toGood.driverCompletes ‹_› result answer
    · cases hs
  | controlCqe result answer =>
    simp only at hs
    split at hs
    · split_ifs at hs
      cases hs
      exact h.toGood.fallbackCompletes ‹_› ‹_› result answer
    · split_ifs at hs with hgiven
      cases hs
      obtain rfl := hgiven
      exact h.toGood.updateCompletes ‹_› answer
    · cases hs
  | kernelUpdates result =>
    simp only at hs
    split at hs
    · split_ifs at hs with hz hd
      · cases hs
        exact h.kernelMoves ‹_› hd
      · cases hs
        exact h.kernelRejects hz ‹_›
    · cases hs
  | pop =>
    simp only at hs
    split at hs
    · split_ifs at hs
      cases hs
      exact h.orAbort fun q' hq' => h.toGood.pop ‹_› hq'
    · cases hs
  | callbackReturns =>
    simp only at hs
    split at hs
    · cases hs
      exact h.orAbort fun q' hq' => h.toGood.callbackReturns ‹_› hc hq'
    · cases hs
  | endPass answer =>
    simp only at hs
    split at hs
    · split_ifs at hs with hdone
      cases hs
      exact h.toGood.endPass ‹_› hdone answer
    · cases hs
  | discardAll =>
    simp only at hs
    split_ifs at hs with hall
    obtain ⟨_, hstop, hd, hcn⟩ := hall
    cases hs
    refine ⟨⟨by simp [TimerQueue.discardAll, hd], by simp [TimerQueue.discardAll, hcn],
      fun h => by (cases h), by simp [TimerQueue.discardAll, TimerQueue.fallback, hcn],
      fun d r h => absurd (hcn.symm.trans h) (by simp),
      fun d h => absurd (hd.symm.trans h) (by simp), fun f _ t ht => absurd ht List.not_mem_nil⟩,
      fun _ hs => absurd (hs.symm.trans hstop) (by simp)⟩
  | timerElsewhere | advanceClock d =>
    cases hs
    exact h.frame _ _ _ _
  | run =>
    simp only at hs
    split_ifs at hs with hcr
    cases hs
    exact ⟨h.toGood.frame _ _ _ _ _, fun hi _ => h.settled hi (by rw [hcr]; rfl)⟩
  | requestStop =>
    cases hs
    refine ⟨h.toGood.frame _ _ _ _ _, fun _ hs => ?_⟩
    exact absurd (hs.symm.trans (isStopping_requestStop _)) Bool.false_ne_true

/-- **No oversleeping.** In a run in which no timer is inserted before the deadline of an armed
fallback, the earliest timer is covered whenever the owner thread is outside the queue. -/
theorem earliest_covered (hr : system.ReachesBy Timely q) (hidle : q.phase = .idle)
    (hrun : q.loopState.isStopping = false) : q.Covered := by
  refine Inv.covered ?_ hidle hrun
  refine hr.invariant (I := Inv) ?_ fun s a s' hi hc hs => hi.step hc hs
  rintro _ ⟨now, sequence, rfl⟩
  exact .make now sequence

/-- An update moves the driver from 100 to 50. -/
theorem earliest_covered_update :
    ∃ q, (system.ReachesBy Timely q ∧ q.phase = .idle ∧ q.loopState.isStopping = false ∧
      q.timers.earliest.map (·.expiration) = some 50 ∧ q.driver = some 50) ∧ q.Covered :=
  system.exists_reachesBy_and _ (make 0 0) ⟨0, 0, rfl⟩
    [.run, .addTimer 100 0 none, .addTimer 50 0 none, .kernelUpdates 0, .controlCqe 0 none]
    (by decide) fun _ hr hp => earliest_covered hr hp.1 hp.2.1

/-- On a kernel without updates, the timer at 10 is added while the fallback waits for 50 and the
driver for 100. -/
theorem not_always_covered : ¬ ∀ q, system.Reaches q → q.phase = .idle →
    q.loopState.isStopping = false → q.Covered := by
  intro hall
  obtain ⟨q, hr, hp⟩ := system.exists_reachesBy (fun _ _ => True) (make 0 0) ⟨0, 0, rfl⟩
    [.run, .addTimer 100 0 none, .addTimer 50 0 none, .kernelUpdates (-22), .controlCqe (-22) none,
      .addTimer 10 0 none]
    (P := fun q => q.phase = .idle ∧ q.loopState.isStopping = false ∧ ¬ q.Covered) (by decide)
  exact hp.2.2 (hall q hr hp.1 hp.2.1)

end Alyrn.Uring.TimerQueue
