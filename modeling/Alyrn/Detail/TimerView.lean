import Alyrn.Detail.TimerContract

/-!
# Timer queues that follow the timer machine

A timer queue keeps its timers twice: among the timers it owns, by which they are cancelled, and in
the ordered index, by which they expire. `TimerView` is what the two backends' queues have in
common. A view *tracks* a state of `TimerService` when both collections hold the registered timers;
for each event there is one lemma that says which change of the view answers it.
-/

namespace Alyrn.Detail

open TimerEvent

/-- What both backends' queues show of their state. -/
structure TimerView where
  active : List Timer
  index : TimerIndex
  round : Option ℕ
  running : Option Timer
  cancelled : Bool
  nextSequence : ℕ
  now : ℕ

namespace TimerView

variable {v : TimerView} {s : TimerService} {l : List TimerEvent}

/-- The view agrees with the abstract queue. -/
structure Tracks (v : TimerView) (s : TimerService) : Prop where
  registered : s.registered = v.active
  round : s.round = v.round
  running : s.running = v.running
  cancelled : ∀ t ∈ v.running, t.repeats = true → s.cancelled = v.cancelled
  below : s.nextSequence ≤ v.nextSequence
  indexed : v.active.Perm v.index.toList
  clock : ∀ now ∈ v.round, now ≤ v.now

theorem Tracks.later (h : v.Tracks s) {n m : ℕ} (hn : v.nextSequence ≤ n) (hm : v.now ≤ m) :
    { v with nextSequence := n, now := m }.Tracks s :=
  { h with below := h.below.trans hn, clock := fun now hnow => (h.clock now hnow).trans hm }

section Facts

variable (h : v.Tracks s) (hr : TimerService.Recorded s l)

include h hr

theorem Tracks.nodup : (v.active.map (·.sequence)).Nodup := h.registered ▸ hr.nodup_registered

theorem Tracks.sequence_lt {t : Timer} (ht : t ∈ v.active) : t.sequence < v.nextSequence :=
  (hr.sequence_lt (List.mem_append_right _ (h.registered.symm ▸ ht))).trans_le h.below

theorem Tracks.fresh :
    v.active.any (·.sequence = v.nextSequence) = false ∧
      v.index.toList.any (·.sequence = v.nextSequence) = false := by
  have hnone : v.active.any (·.sequence = v.nextSequence) = false := by
    rw [List.any_eq_false]
    intro t ht
    have := h.sequence_lt hr ht
    simp only [decide_eq_true_eq]
    omega
  exact ⟨hnone, h.indexed.any_eq ▸ hnone⟩

theorem Tracks.running_out {t : Timer} (ht : v.running = some t) :
    v.active.any (·.sequence = t.sequence) = false ∧
      v.index.toList.any (·.sequence = t.sequence) = false := by
  have hnone : v.active.any (·.sequence = t.sequence) = false := by
    rw [List.any_eq_false]
    intro u hu
    have := hr.running_ne (h.running.trans ht) (h.registered.symm ▸ hu)
    simpa using this.symm
  exact ⟨hnone, h.indexed.any_eq ▸ hnone⟩

theorem Tracks.pop_eq {t : Timer} (ht : v.index.earliest = some t) :
    t ∈ v.active ∧ (v.active.filter (·.sequence ≠ t.sequence)).Perm v.index.pop.toList := by
  have hmem : t ∈ v.active := h.indexed.mem_iff.mpr (OrderedIndex.mem_of_earliest ht)
  refine ⟨hmem, List.Perm.cons_inv (a := t) ?_⟩
  rw [← OrderedIndex.toList_eq_of_earliest ht]
  exact (Timer.perm_cons_filter (h.nodup hr) hmem).symm.trans h.indexed

end Facts

theorem Tracks.any_eq (h : v.Tracks s) (id : ℕ) :
    v.active.any (·.sequence = id) = v.index.toList.any (·.sequence = id) := h.indexed.any_eq

theorem perm_insert (h : v.active.Perm v.index.toList) (t : Timer) :
    (t :: v.active).Perm (v.index.insert t).toList :=
  (h.cons t).trans (List.perm_orderedInsert _ t _).symm

/-! ## One change for each event -/

section

variable (h : v.Tracks s) {t : Timer} {c : Bool} {now : ℕ}
include h

theorem Tracks.added (ht : t.sequence = v.nextSequence) :
    ∃ s', s.step (.added t) = some s' ∧
      { v with active := t :: v.active, index := v.index.insert t
               nextSequence := v.nextSequence + 1 }.Tracks s' :=
  ⟨_, if_pos (ht ▸ h.below), congrArg (t :: ·) h.registered, h.round, h.running, h.cancelled,
    (congrArg (· + 1) ht).le, perm_insert h.indexed t, h.clock⟩

theorem Tracks.cancelledOut {id : ℕ} (hne : ∀ t ∈ v.running, t.repeats = true → t.sequence ≠ id) :
    ∃ s', s.step (.cancelled id) = some s' ∧
      { v with active := v.active.filter (·.sequence ≠ id)
               index := v.index.filter (·.sequence ≠ id) }.Tracks s' := by
  refine ⟨_, rfl, ?_, h.round, h.running, fun t ht hrep => ?_, h.below, h.indexed.filter _,
    h.clock⟩
  · show s.registered.filter _ = _
    rw [h.registered]
  · have hrun : s.running = some t := h.running.trans ht
    show (s.cancelled || s.running.any (·.sequence = id)) = v.cancelled
    rw [hrun, Option.any_some, decide_eq_false (hne t ht hrep), Bool.or_false]
    exact h.cancelled t ht hrep

theorem Tracks.cancelledIn {id : ℕ} (hout : v.active.any (·.sequence = id) = false)
    (hc : ∀ t ∈ v.running, t.repeats = true →
      c = if t.sequence = id then true else v.cancelled) :
    ∃ s', s.step (.cancelled id) = some s' ∧ { v with cancelled := c }.Tracks s' := by
  refine ⟨_, rfl, ?_, h.round, h.running, fun t ht hrep => ?_, h.below, h.indexed, h.clock⟩
  · show s.registered.filter _ = v.active
    rw [h.registered, List.filter_eq_self]
    exact fun t ht => by simpa using List.any_eq_false.mp hout t ht
  · have hrun : s.running = some t := h.running.trans ht
    show (s.cancelled || s.running.any (·.sequence = id)) = c
    rw [hrun, Option.any_some, hc t ht hrep, h.cancelled t ht hrep]
    by_cases hid : t.sequence = id
    · simp [hid]
    · simp [hid]

theorem Tracks.opened (hround : v.round = none) :
    ∃ s', s.step (.opened v.now (v.index.toList.countP (·.expiration ≤ v.now))) = some s' ∧
      { v with round := some v.now }.Tracks s' := by
  refine ⟨_, if_pos ⟨h.round.trans hround, ?_⟩, h.registered, rfl, h.running, h.cancelled, h.below,
    h.indexed, fun now hnow => (Option.some.inj hnow).ge⟩
  rw [h.registered]
  exact h.indexed.symm.countP_eq _

theorem Tracks.started (hr : TimerService.Recorded s l)
    (hround : v.round = some now) (hrun : v.running = none)
    (ht : v.index.earliest = some t) (hdue : t.expiration ≤ now)
    (hc : t.repeats = true → c = false) :
    ∃ s', s.step (.started t v.now) = some s' ∧
      { v with active := v.active.filter (·.sequence ≠ t.sequence), index := v.index.pop
               running := some t, cancelled := c }.Tracks s' := by
  obtain ⟨hmem, hperm⟩ := h.pop_eq hr ht
  have hany : s.round.any (fun now => t.expiration ≤ now ∧ now ≤ v.now) = true := by
    rw [h.round, hround, Option.any_some]
    exact decide_eq_true ⟨hdue, h.clock now hround⟩
  refine ⟨_, if_pos ⟨h.running.trans hrun, h.registered ▸ hmem, hany⟩, ?_, h.round, rfl,
    fun u hu hrep => ?_, h.below, hperm, h.clock⟩
  · show s.registered.filter _ = _
    rw [h.registered]
  · cases hu
    exact (hc hrep).symm

theorem Tracks.returnedOut (hround : v.round = some now) (hrun : v.running = some t)
    (hout : t.repeats = true → v.cancelled = true) :
    ∃ s', s.step (.returned now t none) = some s' ∧
      { v with running := none, cancelled := c }.Tracks s' := by
  refine ⟨_, if_pos ⟨h.round.trans hround, h.running.trans hrun, ?_⟩, h.registered, h.round, rfl,
    fun u hu => absurd hu (by simp), h.below, h.indexed, h.clock⟩
  rw [TimerService.again, if_neg]
  rw [Bool.and_eq_true]
  rintro ⟨hrep, hnot⟩
  rw [h.cancelled t hrun hrep, hout hrep] at hnot
  exact absurd hnot (by simp)

theorem Tracks.returnedIn
    (hround : v.round = some now) (hrun : v.running = some t) (hrep : t.repeats = true)
    (hin : v.cancelled = false) :
    ∃ s', s.step (.returned now t (some (t.restart now))) = some s' ∧
      { v with active := t.restart now :: v.active, index := v.index.insert (t.restart now)
               running := none, cancelled := c }.Tracks s' := by
  refine ⟨_, if_pos ⟨h.round.trans hround, h.running.trans hrun, ?_⟩,
    congrArg (t.restart now :: ·) h.registered, h.round, rfl, fun u hu => absurd hu (by simp),
    h.below, perm_insert h.indexed _, h.clock⟩
  rw [TimerService.again, hrep, h.cancelled t hrun hrep, hin]
  rfl

theorem Tracks.closed (hrun : v.running = none) :
    ∃ s', s.step .closed = some s' ∧ { v with round := none }.Tracks s' :=
  ⟨_, if_pos (h.running.trans hrun), h.registered, rfl, h.running, h.cancelled, h.below, h.indexed,
    fun _ hx => absurd hx (by simp)⟩

theorem Tracks.discarded :
    ∃ s', s.step .discarded = some s' ∧ { v with active := [], index := .empty }.Tracks s' :=
  ⟨_, rfl, rfl, h.round, h.running, h.cancelled, h.below, .refl _, h.clock⟩

end

def opening (v : TimerView) : Option TimerEvent :=
  v.round.map fun now => .opened now (v.index.toList.countP (·.expiration ≤ now))

theorem find?_insert {t : Timer} (hout : v.index.toList.any (·.sequence = t.sequence) = false) :
    (v.index.insert t).toList.find? (·.sequence = t.sequence) = some t := by
  cases hfind : (v.index.insert t).toList.find? (·.sequence = t.sequence) with
  | none =>
    have := List.find?_eq_none.mp hfind t (OrderedIndex.mem_insert.mpr (.inl rfl))
    exact absurd this (by simp)
  | some u =>
    rcases OrderedIndex.mem_insert.mp (List.mem_of_find?_eq_some hfind) with rfl | hu
    · rfl
    · exact absurd (List.find?_some hfind) (List.any_eq_false.mp hout u hu)

theorem Tracks.contract (h : v.Tracks s) (hr : TimerService.Recorded s l)
    (hl : History.Keeps TimerLaw l) : TimerContract v.active v.index.toList l :=
  ⟨h.indexed, h.nodup hr, hl⟩

end TimerView

end Alyrn.Detail
