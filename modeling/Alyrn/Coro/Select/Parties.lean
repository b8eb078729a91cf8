import Alyrn.Coro.Select

/-!
# Who waits

The invariant of everything that may wait on a channel, `Parties`: a queue holds exactly the
waiters whose own flags say that they wait there, a parked Select has all its registrations queued,
and a Select that has a winner has none and has done exactly what its winning case does.

A waiter that was popped from its queue and not yet completed still says that it waits. `Parties`
names it as pending, so that it holds in the middle of an operation, when another Select is
completed.
-/

namespace Alyrn.Coro

open Function

/-- The operation or Select that the waiter belongs to. -/
def Waiter.owner : Waiter → Continuation
  | .plain id => .plain id
  | .case sel _ => .select sel

/-- The queue in which the case waits. -/
def Case.place {V : Type} : Case V → Option (ℕ × Direction)
  | .send c _ => some (c, .send)
  | .receive c => some (c, .receive)
  | .default => none

variable {r : Registration}

theorem Registration.cleared_of_unqueued (h : r.queued = false) :
    { r with active := false } = { r with active := false, queued := false } := by
  rw [← h]

theorem Registration.eq_cleared (ha : r.active = false) (h : r.queued = false) :
    r = { r with active := false, queued := false } := by
  refine Eq.trans ?_ (cleared_of_unqueued h)
  rw [← ha]

namespace Select

variable {V : Type}

def place (s : Select V) (i : ℕ) : Option (ℕ × Direction) := s.cases[i]?.bind Case.place

def cleared (s : Select V) (i : ℕ) : Registration :=
  if (s.place i).isSome then { s.registrations i with active := false, queued := false }
  else s.registrations i

/-- A Select that waits, with all its cases queued. -/
structure Parked (pending : ℕ → Prop) (s : Select V) : Prop where
  phase : s.phase = .waiting
  winner : s.winner = none
  registered : ∀ i case, s.cases[i]? = some case →
    case.place.isSome = true ∧ (s.registrations i).active = true ∧
      (s.registrations i).queued = true
  unregistered : ∀ i, s.cases.length ≤ i → (s.registrations i).queued = false
  untaken : ∀ i, (s.registrations i).valueTaken = true →
    pending i ∧ ∃ c v, s.cases[i]? = some (.send c v)
  unwritten : ∀ i, s.outputs i = none

/-- The effect of a Select that chose case `k`: its value was taken or its output written, and
nothing else. -/
structure Done (s : Select V) (k : ℕ) : Prop where
  chosen : k < s.cases.length
  taken : ∀ i, (s.registrations i).valueTaken = true ↔ i = k ∧ ∃ c v, s.cases[k]? = some (.send c v)
  written : ∀ i, (s.outputs i).isSome = true ↔ i = k ∧ ∃ c, s.cases[k]? = some (.receive c)

/-- The Select is committing case `k`, whose value may have been taken. -/
structure Committing (s : Select V) (k : ℕ) : Prop where
  phase : s.phase = .arming
  winner : s.winner = none
  active : (s.registrations k).active = true
  unqueued : ∀ i, (s.registrations i).queued = false
  untaken : ∀ i, (s.registrations i).valueTaken = true →
    i = k ∧ ∃ c v, s.cases[k]? = some (.send c v)
  unwritten : ∀ i, s.outputs i = none

/-- A Select with nothing in a queue. -/
structure Resting (s : Select V) : Prop where
  unqueued : ∀ i, (s.registrations i).queued = false
  undecided : s.winner = none → ∀ i, (s.registrations i).valueTaken = false ∧ s.outputs i = none
  decided : ∀ k, s.winner = some k → s.Done k
  parked : s.phase ≠ .arming → ∀ (i : ℕ) (case : Case V), s.cases[i]? = some case →
    case.place.isSome = true

end Select

namespace World

variable {V : Type} {w w' : World V} {p : Option Waiter} {b : Option (ℕ × ℕ)} {c : ℕ}
  {d : Direction} {s : Waiter} {sel i : ℕ} {js : List ℕ} {o : Continuation} {j : ℕ}

/-- The waiter's own flags say that it waits on channel `c`. -/
def Waits (w : World V) (c : ℕ) (d : Direction) : Waiter → Prop
  | .plain id =>
    (w.plains id).waiting = true ∧ (w.plains id).channel = c ∧ (w.plains id).direction = d
  | .case sel i =>
    ((w.selects sel).registrations i).queued = true ∧ (w.selects sel).place i = some (c, d)

theorem waits_plain {id : ℕ} : w.Waits c d (.plain id) ↔
    (w.plains id).waiting = true ∧ (w.plains id).channel = c ∧ (w.plains id).direction = d :=
  Iff.rfl

theorem waits_case : w.Waits c d (.case sel i) ↔
    ((w.selects sel).registrations i).queued = true ∧ (w.selects sel).place i = some (c, d) :=
  Iff.rfl

/-- The invariant of the waiters, where `p` was popped and is not completed yet, and the case `b` is
being committed. -/
structure Parties (p : Option Waiter) (b : Option (ℕ × ℕ)) (w : World V) : Prop where
  waits : ∀ c d s, s ∈ w.queues c d ↔ w.Waits c d s ∧ p ≠ some s
  nodup : ∀ c d, (w.queues c d).Nodup
  pending : ∀ s, p = some s → ∃ c d, w.Waits c d s
  value : ∀ id, (w.plains id).waiting = true → (w.plains id).direction = .send →
    p ≠ some (.plain id) → ∃ v, (w.plains id).value = some v ∧ (w.plains id).given = some v
  selects : ∀ sel, (∀ k, b ≠ some (sel, k)) →
    (w.selects sel).Parked (fun i => p = some (.case sel i)) ∨ (w.selects sel).Resting
  committing : ∀ sel k, b = some (sel, k) → (w.selects sel).Committing k ∧ sel < w.selectCount
  freshPlain : ∀ id, w.plainCount ≤ id → (w.plains id).waiting = false
  freshSelect : ∀ sel, w.selectCount ≤ sel → w.selects sel = .create []
  scheduled : ∀ sel, w.scheduled.count (.select sel) =
    if (w.selects sel).phase = .scheduled then 1 else 0
  dropped : w.dropped = 0

/-! ## Cancelling registrations -/

/-- The queues of `w` without the registrations `js` of a Select, which are no longer active. -/
def cancelAll (w : World V) (sel : ℕ) (js : List ℕ) : World V :=
  { w with
    queues := fun c d => (w.queues c d).filter fun s => ∀ j ∈ js, s ≠ .case sel j
    selects := update w.selects sel { w.selects sel with
      registrations := fun j => if j ∈ js then (w.selects sel).cleared j
        else (w.selects sel).registrations j } }

/-- Registration `j` can be cancelled. -/
structure Loser (w : World V) (sel j : ℕ) : Prop where
  waits : ∀ c d, .case sel j ∈ w.queues c d ↔ w.Waits c d (.case sel j)
  active : ((w.selects sel).registrations j).queued = true →
    ((w.selects sel).registrations j).active = true

theorem cancelAll_queues : (w.cancelAll sel js).queues c d =
    (w.queues c d).filter fun s => ∀ j ∈ js, s ≠ .case sel j := rfl

theorem cancelAll_select : (w.cancelAll sel js).selects sel = { w.selects sel with
      registrations := fun j => if j ∈ js then (w.selects sel).cleared j
        else (w.selects sel).registrations j } :=
  update_self ..

theorem cancelAll_nil : w.cancelAll sel [] = w := by
  have hq : (fun c d => (w.queues c d).filter fun s => ∀ j ∈ ([] : List ℕ), s ≠ .case sel j) =
      w.queues := by
    funext c d
    exact List.filter_eq_self.mpr fun s _ => by simp
  have hs : update w.selects sel (w.selects sel) = w.selects := update_eq_self ..
  unfold cancelAll
  rw [hq]
  simp only [List.not_mem_nil, if_false]
  exact congrArg (fun x => { w with selects := x }) hs

abbrev withRegistrations (w : World V) (sel : ℕ) (f : ℕ → Registration) : Select V :=
  { w.selects sel with registrations := f }

theorem cleared_congr {s s' : Select V} (hc : s'.cases = s.cases)
    (hr : s'.registrations i = s.registrations i ∨ s'.registrations i = s.cleared i) :
    s'.cleared i = s.cleared i := by
  unfold Select.cleared Select.place at *
  rw [hc]
  rcases hr with hr | hr
  · rw [hr]
  · split_ifs at hr ⊢ with hp
    · rw [hr]
    · exact hr

theorem cancelAll_cons : (w.cancelAll sel [j]).cancelAll sel js = w.cancelAll sel (j :: js) := by
  have hq : ((w.cancelAll sel [j]).cancelAll sel js).queues =
      (w.cancelAll sel (j :: js)).queues := by
    funext c d
    rw [cancelAll_queues, cancelAll_queues, cancelAll_queues, List.filter_filter]
    refine List.filter_congr fun s _ => ?_
    by_cases h : s = .case sel j <;> simp [h]
  have hf : (fun i => if i ∈ js then ((w.cancelAll sel [j]).selects sel).cleared i
      else ((w.cancelAll sel [j]).selects sel).registrations i) =
      fun i => if i ∈ j :: js then (w.selects sel).cleared i
        else (w.selects sel).registrations i := by
    funext i
    have hreg : ((w.cancelAll sel [j]).selects sel).registrations i =
        if i ∈ [j] then (w.selects sel).cleared i else (w.selects sel).registrations i := by
      rw [cancelAll_select]
    have hclear : ((w.cancelAll sel [j]).selects sel).cleared i = (w.selects sel).cleared i := by
      refine cleared_congr (by rw [cancelAll_select]) ?_
      rw [hreg]
      split_ifs
      · exact .inr rfl
      · exact .inl rfl
    rw [hclear, hreg]
    by_cases hi : i ∈ js <;> by_cases hj : i = j <;> simp [hi, hj]
  have hs : ((w.cancelAll sel [j]).cancelAll sel js).selects =
      (w.cancelAll sel (j :: js)).selects := by
    show update (w.cancelAll sel [j]).selects sel
      ((w.cancelAll sel [j]).withRegistrations sel _) = _
    rw [hf]
    unfold withRegistrations
    rw [cancelAll_select]
    exact update_idem ..
  show { w with
    queues := ((w.cancelAll sel [j]).cancelAll sel js).queues
    selects := ((w.cancelAll sel [j]).cancelAll sel js).selects } = _
  rw [hq, hs]
  rfl

theorem cancelAll_singleton_eq (hq : ∀ c d, (w.queues c d).filter (· ≠ .case sel j) = w'.queues c d)
    (hw : w' = { w with
      queues := w'.queues
      selects := update w.selects sel
        (w.withRegistrations sel (update (w.selects sel).registrations j r)) })
    (hr : r = (w.selects sel).cleared j) : w' = w.cancelAll sel [j] := by
  have hq' : w'.queues = (w.cancelAll sel [j]).queues := by
    funext c d
    rw [← hq c d, cancelAll_queues]
    exact List.filter_congr fun s _ => by simp
  have hf : update (w.selects sel).registrations j r =
      fun i => if i ∈ [j] then (w.selects sel).cleared i
        else (w.selects sel).registrations i := by
    funext i
    by_cases hi : i = j
    · subst hi
      simp [hr]
    · simp [hi]
  rw [hw, hq', hf]
  rfl

theorem Loser.cancelRegistration (h : w.Loser sel j) :
    w.cancelRegistration sel j = .ok (w.cancelAll sel [j]) := by
  have hself : w = { w with
      queues := w.queues
      selects := update w.selects sel (w.withRegistrations sel
        (update (w.selects sel).registrations j ((w.selects sel).registrations j))) } := by
    rw [update_eq_self, update_eq_self]
  have hout (hq : ((w.selects sel).registrations j).queued = false ∨
      (w.selects sel).place j = none) (c : ℕ) (d : Direction) :
      (w.queues c d).filter (· ≠ .case sel j) = w.queues c d := by
    refine List.filter_eq_self.mpr fun s hs => decide_eq_true fun heq => ?_
    subst heq
    obtain ⟨hx, hy⟩ := (h.waits c d).mp hs
    rcases hq with hq | hq
    · rw [hq] at hx
      cases hx
    · rw [hq] at hy
      cases hy
  have hat {c : ℕ} {d : Direction} (hp : (w.selects sel).place j = some (c, d)) :
      (if ((w.selects sel).registrations j).active = false then .ok w
        else if ((w.selects sel).registrations j).queued then w.cancelWaiter c d (.case sel j)
        else .ok (w.setRegistration sel j
          { (w.selects sel).registrations j with active := false })) =
      (.ok (w.cancelAll sel [j]) : Except Check (World V)) := by
    have hclear : (w.selects sel).cleared j =
        { (w.selects sel).registrations j with active := false, queued := false } := by
      rw [Select.cleared, if_pos (by rw [hp]; rfl)]
    by_cases ha : ((w.selects sel).registrations j).active = false
    · have hq : ((w.selects sel).registrations j).queued = false := by
        by_contra hq
        have := h.active (by simpa using hq)
        rw [ha] at this
        cases this
      rw [if_pos ha]
      refine congrArg Except.ok (cancelAll_singleton_eq (hout (.inl hq)) hself ?_)
      exact (Registration.eq_cleared ha hq).trans hclear.symm
    rw [if_neg ha]
    by_cases hq : ((w.selects sel).registrations j).queued = true
    · rw [if_pos hq]
      have hmem : .case sel j ∈ w.queues c d := (h.waits c d).mpr ⟨hq, hp⟩
      unfold cancelWaiter
      rw [if_pos hmem]
      refine congrArg Except.ok (cancelAll_singleton_eq ?_ rfl hclear.symm)
      intro c' d'
      show _ = update w.queues c (update (w.queues c) d _) c' d'
      by_cases hc : c' = c
      · subst hc
        rw [update_self]
        by_cases hd : d' = d
        · subst hd
          rw [update_self]
        · rw [update_of_ne hd]
          refine List.filter_eq_self.mpr fun s hs => decide_eq_true fun heq => ?_
          subst heq
          have := ((h.waits c' d').mp hs).2
          rw [hp] at this
          exact hd (by cases this; rfl)
      · rw [update_of_ne hc]
        refine List.filter_eq_self.mpr fun s hs => decide_eq_true fun heq => ?_
        subst heq
        have := ((h.waits c' d').mp hs).2
        rw [hp] at this
        exact hc (by cases this; rfl)
    · rw [if_neg hq]
      refine congrArg Except.ok (cancelAll_singleton_eq (hout (.inl (by simpa using hq))) rfl ?_)
      rw [hclear]
      exact Registration.cleared_of_unqueued (by simpa using hq)
  unfold World.cancelRegistration
  cases hcase : (w.selects sel).cases[j]? with
  | none =>
    have hp : (w.selects sel).place j = none := by rw [Select.place, hcase]; rfl
    refine congrArg Except.ok (cancelAll_singleton_eq (hout (.inr hp)) hself ?_)
    rw [Select.cleared, hp]
    rfl
  | some case =>
    cases case with
    | send c v | receive c => exact hat (by rw [Select.place, hcase]; rfl)
    | default =>
      have hp : (w.selects sel).place j = none := by rw [Select.place, hcase]; rfl
      refine congrArg Except.ok (cancelAll_singleton_eq (hout (.inr hp)) hself ?_)
      rw [Select.cleared, hp]
      rfl

theorem Loser.cancelAll {j k : ℕ} (h : w.Loser sel k) (hjk : k ≠ j) :
    (w.cancelAll sel [j]).Loser sel k := by
  have hreg : ((w.cancelAll sel [j]).selects sel).registrations k =
      (w.selects sel).registrations k := by
    rw [cancelAll_select]
    simp [hjk]
  have hplace : ((w.cancelAll sel [j]).selects sel).place k = (w.selects sel).place k := by
    rw [cancelAll_select]
    rfl
  refine ⟨fun c d => ?_, by rw [hreg]; exact h.active⟩
  rw [cancelAll_queues, List.mem_filter, h.waits c d]
  rw [waits_case, waits_case, hreg, hplace]
  simp [hjk]

theorem cancelLosers_eq (hn : js.Nodup) (h : ∀ j ∈ js, j ≠ i → w.Loser sel j) :
    cancelLosers sel i js w = .ok (w.cancelAll sel (js.filter (· ≠ i))) := by
  induction js generalizing w with
  | nil => exact congrArg Except.ok cancelAll_nil.symm
  | cons j js ih =>
    obtain ⟨hj, hn⟩ := List.nodup_cons.mp hn
    unfold cancelLosers
    by_cases hji : j = i
    · rw [if_pos hji, ih hn fun k hk => h k (List.mem_cons_of_mem _ hk)]
      rw [List.filter_cons_of_neg (by simpa using hji)]
    · rw [if_neg hji, (h j List.mem_cons_self hji).cancelRegistration]
      refine (ih hn fun k hk hki => ?_).trans ?_
      · exact (h k (List.mem_cons_of_mem _ hk) hki).cancelAll fun hx => hj (hx ▸ hk)
      · rw [List.filter_cons_of_pos (by simpa using hji), cancelAll_cons]

/-- All registrations leave their queues, and a parked Select is scheduled. -/
def dissolve (w : World V) (sel : ℕ) : World V :=
  { w with
    queues := fun c d => (w.queues c d).filter fun s => s.owner ≠ .select sel
    selects := update w.selects sel { w.selects sel with
      registrations := (w.selects sel).cleared
      phase := if (w.selects sel).phase = .waiting then .scheduled else (w.selects sel).phase }
    scheduled := if (w.selects sel).phase = .waiting then w.scheduled ++ [.select sel]
      else w.scheduled }

/-- Case `i` has left its queue; the others can be cancelled. -/
structure Won (w : World V) (sel i : ℕ) : Prop where
  cleared : (w.selects sel).cleared i = (w.selects sel).registrations i
  out : ∀ c d, .case sel i ∉ w.queues c d
  losers : ∀ j, j ≠ i → w.Loser sel j

/-- **Completing a Select** takes all its registrations out of the queues. -/
theorem Won.caseCompleted (h : w.Won sel i) : w.caseCompleted sel i = .ok (w.dissolve sel) := by
  unfold World.caseCompleted
  rw [cancelLosers_eq List.nodup_range fun j _ hj => h.losers j hj]
  refine congrArg Except.ok ?_
  set js := (List.range (w.selects sel).cases.length).filter (· ≠ i) with hjs
  have hq : (w.cancelAll sel js).queues = (w.dissolve sel).queues := by
    funext c d
    rw [cancelAll_queues]
    refine List.filter_congr fun s hs => ?_
    cases s with
    | plain id => simp [Waiter.owner]
    | case sel' j =>
      by_cases hsel : sel' = sel
      · subst hsel
        have hji : j ≠ i := fun hx => h.out c d (hx ▸ hs)
        have hplace := (((h.losers j hji).waits c d).mp hs).2
        have hlt : j < (w.selects sel').cases.length := by
          by_contra hge
          rw [Select.place, List.getElem?_eq_none (Nat.not_lt.mp hge)] at hplace
          cases hplace
        have hmem : j ∈ js := by
          rw [hjs, List.mem_filter]
          exact ⟨List.mem_range.mpr hlt, by simpa using hji⟩
        simp [Waiter.owner, hmem]
      · simp [Waiter.owner, hsel]
  have hf : ((w.cancelAll sel js).selects sel).registrations = (w.selects sel).cleared := by
    rw [cancelAll_select]
    funext j
    dsimp only
    by_cases hmem : j ∈ js
    · rw [if_pos hmem]
    · rw [if_neg hmem]
      by_cases hji : j = i
      · rw [hji]
        exact h.cleared.symm
      · have hge : ¬ j < (w.selects sel).cases.length := fun hlt => hmem (by
          rw [hjs, List.mem_filter]
          exact ⟨List.mem_range.mpr hlt, by simpa using hji⟩)
        rw [Select.cleared, Select.place, List.getElem?_eq_none (Nat.not_lt.mp hge)]
        rfl
  have hs : (w.cancelAll sel js).selects = update w.selects sel
      (w.withRegistrations sel (w.selects sel).cleared) := by
    rw [← hf, cancelAll_select]
    rfl
  have hw : w.cancelAll sel js = { w with
      queues := (w.dissolve sel).queues
      selects := update w.selects sel
        (w.withRegistrations sel (w.selects sel).cleared) } := by
    rw [← hq, ← hs]
    rfl
  show (w.cancelAll sel js).resumeIfWaiting sel = w.dissolve sel
  rw [hw]
  unfold resumeIfWaiting dissolve setSelect schedule
  simp only [update_self, update_idem]
  by_cases hp : (w.selects sel).phase = .waiting
  · rw [if_pos hp, if_pos hp, if_pos hp]
  · rw [if_neg hp, if_neg hp, if_neg hp]

/-! ## One party leaves -/

def stillPending (p : Option Waiter) (o : Continuation) : Option Waiter :=
  p.filter fun s => s.owner ≠ o

theorem stillPending_eq_some : stillPending p o = some s ↔ p = some s ∧ s.owner ≠ o := by
  unfold stillPending
  simp [Option.filter_eq_some_iff]

def stillCommitting (b : Option (ℕ × ℕ)) (o : Continuation) : Option (ℕ × ℕ) :=
  b.filter fun x => .select x.1 ≠ o

theorem stillCommitting_eq_some {k : ℕ} :
    stillCommitting b o = some (sel, k) ↔ b = some (sel, k) ∧ .select sel ≠ o := by
  unfold stillCommitting
  simp [Option.filter_eq_some_iff]

theorem Parties.without (h : w.Parties p b)
    (hq : ∀ c d, w'.queues c d = (w.queues c d).filter fun s => s.owner ≠ o)
    (hpc : w'.plainCount = w.plainCount) (hsc : w'.selectCount = w.selectCount)
    (hd : w'.dropped = w.dropped) (hplains : ∀ t, o ≠ .plain t → w'.plains t = w.plains t)
    (hselects : ∀ t, o ≠ .select t → w'.selects t = w.selects t)
    (hplain : ∀ t, o = .plain t → (w'.plains t).waiting = false)
    (hselect : ∀ t, o = .select t → t < w.selectCount ∧ (w'.selects t).Resting ∧
      w'.scheduled.count (.select t) = if (w'.selects t).phase = .scheduled then 1 else 0)
    (hscheds : ∀ t, o ≠ .select t →
      w'.scheduled.count (.select t) = w.scheduled.count (.select t)) :
    w'.Parties (stillPending p o) (stillCommitting b o) := by
  have hwaits {c : ℕ} {d : Direction} {s : Waiter} (ho : s.owner ≠ o) :
      w'.Waits c d s ↔ w.Waits c d s := by
    cases s with
    | plain t => rw [waits_plain, waits_plain, hplains t ho.symm]
    | case t i => rw [waits_case, waits_case, hselects t ho.symm]
  have hgone {c : ℕ} {d : Direction} {s : Waiter} (ho : o = s.owner) : ¬ w'.Waits c d s := by
    intro hx
    cases s with
    | plain t => exact Bool.false_ne_true ((hplain t ho).symm.trans hx.1)
    | case t i => exact Bool.false_ne_true (((hselect t ho).2.1.unqueued i).symm.trans hx.1)
  refine ⟨fun c d s => ?_, fun c d => ?_, fun s hs => ?_, fun t hw hdir hne => ?_,
    fun t hb => ?_, fun t k hb => ?_, fun t ht => ?_, fun t ht => ?_, fun t => ?_,
    hd.trans h.dropped⟩
  · rw [hq, List.mem_filter, h.waits, decide_eq_true_eq]
    by_cases ho : s.owner = o
    · exact ⟨fun hx => absurd ho hx.2, fun hx => absurd hx.1 (hgone ho.symm)⟩
    · simp only [hwaits ho, ne_eq, stillPending_eq_some, ho, not_false_eq_true, and_true]
  · rw [hq]
    exact (h.nodup c d).filter _
  · obtain ⟨hs, ho⟩ := stillPending_eq_some.mp hs
    obtain ⟨c, d, hcd⟩ := h.pending s hs
    exact ⟨c, d, (hwaits ho).mpr hcd⟩
  · have ho : o ≠ .plain t := fun ho => by
      rw [hplain t ho] at hw
      cases hw
    rw [hplains t ho] at hw hdir ⊢
    exact h.value t hw hdir fun hx => hne (stillPending_eq_some.mpr ⟨hx, ho.symm⟩)
  · by_cases ho : o = .select t
    · exact .inr (hselect t ho).2.1
    · rw [hselects t ho]
      refine (h.selects t fun k hk => hb k (stillCommitting_eq_some.mpr
        ⟨hk, Ne.symm ho⟩)).imp_left fun hpk => { hpk with untaken := fun i hi => ?_ }
      obtain ⟨hpend, hcase⟩ := hpk.untaken i hi
      exact ⟨stillPending_eq_some.mpr ⟨hpend, Ne.symm ho⟩, hcase⟩
  · obtain ⟨hb, ho⟩ := stillCommitting_eq_some.mp hb
    rw [hselects t ho.symm, hsc]
    exact h.committing t k hb
  · by_cases ho : o = .plain t
    · exact hplain t ho
    · rw [hplains t ho]
      exact h.freshPlain t (hpc ▸ ht)
  · have ho : o ≠ .select t := fun ho => by
      have := (hselect t ho).1
      omega
    rw [hselects t ho]
    exact h.freshSelect t (hsc ▸ ht)
  · by_cases ho : o = .select t
    · exact (hselect t ho).2.2
    · rw [hscheds t ho, hselects t ho]
      exact h.scheduled t

/-! ## Completing a registration -/

def won (w : World V) (sel i : ℕ) : World V :=
  w.setSelect sel { w.selects sel with
    registrations := update (w.selects sel).registrations i
      { (w.selects sel).registrations i with active := false, queued := false }
    winner := some i }

theorem won_select : (w.won sel i).selects sel = { w.selects sel with
    registrations := update (w.selects sel).registrations i
      { (w.selects sel).registrations i with active := false, queued := false }
    winner := some i } :=
  update_self ..

theorem completeCase_eq (ha : ((w.selects sel).registrations i).active = true)
    (hw : (w.selects sel).winner = none) (effect : World V → World V) :
    w.completeCase sel i effect = (effect (w.won sel i)).caseCompleted sel i := by
  have hwon : (w.setRegistration sel i
      { (w.selects sel).registrations i with active := false, queued := false }).setSelect sel
        { (w.setRegistration sel i { (w.selects sel).registrations i with
            active := false, queued := false }).selects sel with winner := some i } =
      w.won sel i := by
    unfold setRegistration setSelect won
    dsimp only
    rw [update_idem]
    congr 2
    rw [update_self]
  unfold completeCase
  rw [if_neg (by simp [ha]), if_neg (by simp [hw]), hwon]

/-- The effect of case `i` on channel `c`, which writes `o` to its output. -/
structure Effect (sel i c : ℕ) (o : Option (Option V)) (effect : World V → World V) : Prop where
  queues : ∀ w, (effect w).queues = w.queues
  plains : ∀ w, (effect w).plains = w.plains
  plainCount : ∀ w, (effect w).plainCount = w.plainCount
  selectCount : ∀ w, (effect w).selectCount = w.selectCount
  scheduled : ∀ w, (effect w).scheduled = w.scheduled
  dropped : ∀ w, (effect w).dropped = w.dropped
  selects : ∀ w, (effect w).selects = update w.selects sel { w.selects sel with
    outputs := if o.isSome then update (w.selects sel).outputs i o
      else (w.selects sel).outputs }
  aborted : ∀ w, (effect w).aborted = w.aborted
  channels : ∀ w, (effect w).channels = w.channels
  admitted : ∀ w, (effect w).admitted = w.admitted
  received : ∀ w e, w.received e ⊆ (effect w).received e
  got : ∀ w v, o = some (some v) → v ∈ (effect w).received c

/-- Case `i` on channel `c` is done once `o` is its output, where `admitted` was admitted there. -/
inductive Fulfils (admitted : List V) (s : Select V) (i c : ℕ) (o : Option (Option V)) : Prop where
  | send (v : V) (case : s.cases[i]? = some (.send c v))
      (taken : (s.registrations i).valueTaken = true) (mem : v ∈ admitted) (o_none : o = none)
  | receive (case : s.cases[i]? = some (.receive c)) (written : o.isSome = true)

/-- Case `i` may still win. -/
structure Contends (s : Select V) (i : ℕ) : Prop where
  phase : s.phase = .waiting ∨ s.phase = .arming
  winner : s.winner = none
  active : (s.registrations i).active = true
  unplaced : ∀ j, s.place j = none → (s.registrations j).queued = false
  queuedActive : ∀ j, (s.registrations j).queued = true → (s.registrations j).active = true
  untaken : ∀ j, (s.registrations j).valueTaken = true →
    j = i ∧ ∃ c v, s.cases[i]? = some (.send c v)
  unwritten : ∀ j, s.outputs j = none
  parked : s.phase ≠ .arming → ∀ (j : ℕ) (case : Case V), s.cases[j]? = some case →
    case.place.isSome = true

theorem Parties.parked_of_waits (h : w.Parties p b) (hw : w.Waits c d (.case sel i)) :
    (∀ k, b ≠ some (sel, k)) ∧ (w.selects sel).Parked fun i => p = some (.case sel i) := by
  have hq := hw.1
  have hnb : ∀ k, b ≠ some (sel, k) := fun k hk => by
    rw [(h.committing sel k hk).1.unqueued i] at hq
    cases hq
  refine ⟨hnb, (h.selects sel hnb).resolve_right fun hrest => ?_⟩
  rw [hrest.unqueued i] at hq
  cases hq

theorem Parties.contends (h : w.Parties p b)
    (hi : p = some (.case sel i) ∨ b = some (sel, i)) : Contends (w.selects sel) i := by
  by_cases hb : b = some (sel, i)
  · obtain ⟨hcom, -⟩ := h.committing sel i hb
    refine ⟨.inr hcom.phase, hcom.winner, hcom.active, fun j _ => hcom.unqueued j, fun j hj => ?_,
      hcom.untaken, hcom.unwritten, fun hne => absurd hcom.phase hne⟩
    rw [hcom.unqueued j] at hj
    cases hj
  · obtain rfl := hi.resolve_right hb
    obtain ⟨c, d, hw⟩ := h.pending _ rfl
    have hplace := hw.2
    obtain ⟨-, hpk⟩ := h.parked_of_waits hw
    have hcase {j : ℕ} (hj : (w.selects sel).place j ≠ none) :
        ∃ case, (w.selects sel).cases[j]? = some case := by
      cases hc : (w.selects sel).cases[j]? with
      | none => exact absurd (by rw [Select.place, hc]; rfl) hj
      | some case => exact ⟨case, rfl⟩
    obtain ⟨case, hc⟩ := hcase (by rw [hplace]; exact Option.some_ne_none _)
    refine ⟨.inl hpk.phase, hpk.winner, (hpk.registered i case hc).2.1, fun j hj => ?_,
      fun j hj => ?_, fun j hj => ?_, hpk.unwritten,
      fun _ j case hj => (hpk.registered j case hj).1⟩
    · by_cases hlt : j < (w.selects sel).cases.length
      · have hc := List.getElem?_eq_getElem hlt
        have := (hpk.registered j _ hc).1
        rw [Select.place, hc] at hj
        rw [show Case.place _ = none from hj] at this
        cases this
      · exact hpk.unregistered j (Nat.not_lt.mp hlt)
    · by_cases hlt : j < (w.selects sel).cases.length
      · exact (hpk.registered j _ (List.getElem?_eq_getElem hlt)).2.1
      · rw [hpk.unregistered j (Nat.not_lt.mp hlt)] at hj
        cases hj
    · obtain ⟨hpend, hsend⟩ := hpk.untaken j hj
      obtain rfl : i = j := by cases hpend; rfl
      exact ⟨rfl, hsend⟩

theorem Parties.loser (h : w.Parties p b) (hi : p = some (.case sel i) ∨ b = some (sel, i))
    (hj : j ≠ i) : w.Loser sel j := by
  refine ⟨fun c d => ?_, (h.contends hi).queuedActive j⟩
  rw [h.waits]
  refine and_iff_left_of_imp fun hw hp => ?_
  rcases hi with hi | hi
  · rw [hp] at hi
    exact hj (by cases hi; rfl)
  · exact (h.parked_of_waits hw).1 i hi

theorem Parties.out (h : w.Parties p b) (hi : p = some (.case sel i) ∨ b = some (sel, i)) (c : ℕ)
    (d : Direction) : .case sel i ∉ w.queues c d := by
  rw [h.waits]
  rintro ⟨hw, hp⟩
  rcases hi with hi | hi
  · exact hp hi
  · exact (h.parked_of_waits hw).1 i hi

variable {o : Option (Option V)} {A : List V}

theorem Fulfils.place_isSome {s : Select V} (h : Fulfils A s i c o) :
    (s.place i).isSome = true := by
  cases h with
  | send v case | receive case => rw [Select.place, case]; rfl

theorem Fulfils.lt {s : Select V} (h : Fulfils A s i c o) : i < s.cases.length := by
  cases h with
  | send v case | receive case => exact (List.getElem?_eq_some_iff.mp case).1

theorem Contends.resting {s s' : Select V} (h : Contends s i)
    (hf : Fulfils A s i c o) (hc : s'.cases = s.cases) (hw : s'.winner = some i)
    (hp : s'.phase ≠ .arming → s.phase ≠ .arming)
    (hq : ∀ j, (s'.registrations j).queued = false)
    (ht : ∀ j, (s'.registrations j).valueTaken = (s.registrations j).valueTaken)
    (ho : s'.outputs = if o.isSome then update s.outputs i o else s.outputs) :
    s'.Resting := by
  refine ⟨hq, fun hn => ?_, fun k hk => ?_, fun hne => by rw [hc]; exact h.parked (hp hne)⟩
  · rw [hw] at hn
    cases hn
  cases hw.symm.trans hk
  refine ⟨by rw [hc]; exact hf.lt, fun j => ?_, fun j => ?_⟩
  · rw [ht, hc]
    refine ⟨h.untaken j, fun ⟨hj, c, v, hcase⟩ => ?_⟩
    cases hf with
    | send v' case taken => rw [hj]; exact taken
    | receive case =>
      rw [case] at hcase
      cases hcase
  · rw [ho, hc]
    cases hf with
    | send v case taken mem o_none =>
      rw [o_none, case]
      simp [h.unwritten j]
    | receive case written =>
      rw [if_pos written, case]
      by_cases hj : j = i
      · rw [hj, update_self]
        simp [written]
      · rw [update_of_ne hj, h.unwritten j]
        simp [hj]

/-- **Completing a registration** that was popped or is being committed completes its Select. -/
theorem Parties.completeCase (h : w.Parties p b) (hi : p = some (.case sel i) ∨ b = some (sel, i))
    {effect : World V → World V} (he : Effect sel i c o effect)
    (hf : Fulfils A (w.selects sel) i c o) :
    w.completeCase sel i effect = .ok ((effect (w.won sel i)).dissolve sel) ∧
      ((effect (w.won sel i)).dissolve sel).Parties (stillPending p (.select sel))
        (stillCommitting b (.select sel)) := by
  have hcon := h.contends hi
  set u := effect (w.won sel i) with hu
  have hq : u.queues = w.queues := he.queues _
  have hsel : u.selects sel = { w.selects sel with
      registrations := update (w.selects sel).registrations i
        { (w.selects sel).registrations i with active := false, queued := false }
      winner := some i
      outputs := if o.isSome then update (w.selects sel).outputs i o
        else (w.selects sel).outputs } := by
    rw [hu, he.selects, update_self, won_select]
  have hplace (j : ℕ) : (u.selects sel).place j = (w.selects sel).place j := by
    rw [hsel]
    rfl
  have hreg {j : ℕ} (hj : j ≠ i) :
      (u.selects sel).registrations j = (w.selects sel).registrations j := by
    rw [hsel]
    exact update_of_ne hj ..
  have hregi : (u.selects sel).registrations i =
      { (w.selects sel).registrations i with active := false, queued := false } := by
    rw [hsel]
    exact update_self ..
  have hwon : u.Won sel i := by
    refine ⟨?_, fun c d => by rw [hq]; exact h.out hi c d, fun j hj => ⟨fun c d => ?_, ?_⟩⟩
    · rw [Select.cleared, hplace, if_pos hf.place_isSome, hregi]
    · rw [hq, (h.loser hi hj).waits c d, waits_case, waits_case, hreg hj, hplace]
    · rw [hreg hj]
      exact hcon.queuedActive j
  refine ⟨(completeCase_eq hcon.active hcon.winner effect).trans hwon.caseCompleted, ?_⟩
  have hlt : sel < w.selectCount := by
    by_contra hge
    have hlen := hf.lt
    rw [h.freshSelect sel (Nat.not_lt.mp hge)] at hlen
    cases hlen
  have hdis : (u.dissolve sel).selects sel = { u.selects sel with
      registrations := (u.selects sel).cleared
      phase := if (u.selects sel).phase = .waiting then .scheduled else (u.selects sel).phase } :=
    update_self ..
  have hphase : (u.selects sel).phase = (w.selects sel).phase := by rw [hsel]
  have hrest : ((u.dissolve sel).selects sel).Resting := by
    refine hcon.resting hf ?_ ?_ (fun hne hx => hne ?_) (fun j => ?_) (fun j => ?_) ?_
    · rw [hdis, hsel]
    · rw [hdis, hsel]
    · rw [hdis]
      show (if (u.selects sel).phase = .waiting then _ else _) = _
      rw [hphase, hx, if_neg nofun]
    · rw [hdis]
      show ((u.selects sel).cleared j).queued = false
      rw [Select.cleared, hplace]
      split_ifs with hp
      · rfl
      · by_cases hj : j = i
        · rw [hj, hregi]
        · rw [hreg hj]
          exact hcon.unplaced j (by simpa using hp)
    · rw [hdis]
      show ((u.selects sel).cleared j).valueTaken = _
      have hv : ((u.selects sel).registrations j).valueTaken =
          ((w.selects sel).registrations j).valueTaken := by
        by_cases hj : j = i
        · rw [hj, hregi]
        · rw [hreg hj]
      rw [Select.cleared]
      split_ifs
      · exact hv
      · exact hv
    · rw [hdis, hsel]
  have hcount : (u.dissolve sel).scheduled.count (.select sel) =
      if ((u.dissolve sel).selects sel).phase = .scheduled then 1 else 0 := by
    have hsched : w.scheduled.count (.select sel) = 0 := by
      rw [h.scheduled sel]
      rcases hcon.phase with hp | hp <;> rw [hp] <;> rfl
    rw [hdis]
    show (if (u.selects sel).phase = .waiting then u.scheduled ++ [.select sel]
      else u.scheduled).count _ = _
    rw [hphase, show u.scheduled = w.scheduled from he.scheduled _]
    rcases hcon.phase with hp | hp
    · rw [hp]
      simp [hsched]
    · rw [hp]
      simp [hsched]
  refine h.without (fun c d => ?_) (he.plainCount _) (he.selectCount _) (he.dropped _)
    (fun t _ => congrFun (he.plains _) t) (fun t ht => ?_) nofun
    (fun t ht => ?_) (fun t ht => ?_)
  · show (u.queues c d).filter _ = _
    rw [hq]
  · have ht : t ≠ sel := fun hx => ht (by rw [hx])
    show update u.selects sel _ t = _
    rw [update_of_ne ht, hu, he.selects, update_of_ne ht]
    exact update_of_ne ht ..
  · cases ht
    exact ⟨hlt, hrest, hcount⟩
  · show (if (u.selects sel).phase = .waiting then u.scheduled ++ [.select sel]
      else u.scheduled).count _ = _
    rw [show u.scheduled = w.scheduled from he.scheduled _]
    split_ifs
    · rw [List.count_append]
      simp [ht]
    · rfl

end World

end Alyrn.Coro
