import Alyrn.Uring.Stream.CloseRuns

/-!
# The resumption of callers

A suspended call is resumed by the work that carries its continuation: its own operation, or the
stream's cancel operation for the direction, to which the continuation moves when the primary
completion comes before that of the cancel request. The slot is released before that work has run.
So a new operation can clear the cancel operation, and the stream can be destroyed around it, while
it is still queued (`cancel_linked`). Callers are resumed exactly once in the runs in which neither
happens, in particular if every cancel request is answered first (`resumed_once`).
-/

namespace Alyrn.Uring

open Transition

namespace Stream

variable {s s' : Stream} {a : Action} {d : Dir} {n : ℕ} {w : Work} {q : WorkQueues Work}

/-! ## What a work needs to run -/

/-- The continuations in the works and in the cancel operations have their results. -/
structure Resumable (s : Stream) : Prop where
  op : ∀ d n, Work.op d n ∈ s.shared.works → ((s.lanes d).awaiters n).awaitResume.isSome = true
  cancel : ∀ d n, (s.lanes d).cancelOp.handle = some n →
    ((s.lanes d).awaiters n).awaitResume.isSome = true

theorem LaneStep.resumable (hs : LaneStep s a d s') (hl : (s.lanes d).Sound d)
    (hp : (s.lanes d).pending = some n) (hp' : (s'.lanes d).pending = none) :
    ((s'.lanes d).awaiters n).awaitResume.isSome = true := by
  have hkeep (hpend : (s'.lanes d).pending = (s.lanes d).pending) : False := by
    rw [hpend, hp] at hp'
    cases hp'
  have hnone (hx : (s.lanes d).pending = none) : False := by rw [hp] at hx; cases hx
  cases hs with
  | same _ heq | returned _ _ _ _ heq => exact (hkeep (by rw [heq])).elim
  | refused _ _ heq | awaiting _ _ _ _ heq | recorded _ _ _ _ _ _ _ heq | answered _ _ _ heq =>
    exact (hkeep (by rw [heq]; rfl)).elim
  | undone _ _ hx _ | suspended _ _ _ _ hx _ => exact (hnone hx).elim
  | deadline _ heq =>
    exact (hkeep (by rw [heq, (hl.timed.setDeadline_sameOps _ _ _).pending])).elim
  | fired _ hmem hfire _ => exact (hkeep (hl.toProtocol.fire_sameOps hmem hfire).pending).elim
  | ended hpend hterm hfly he heq =>
    rename_i m b sent
    obtain rfl : m = n := Option.some.inj (hpend.symm.trans hp)
    have hself : (s'.lanes d).awaiters m = b.released.scheduled := by
      rw [heq]
      exact Function.update_self ..
    rw [hself]
    simpa using he.settled.resumable
  | finished ha hpend hterm hfly hset heq =>
    rename_i result m
    obtain rfl : m = n := Option.some.inj (hpend.symm.trans hp)
    have hself : (s'.lanes d).awaiters m = ((s.lanes d).awaiters m).released := by
      rw [heq]
      exact Function.update_self ..
    rw [hself]
    simpa using hset.resumable

theorem Resumable.step (h : s.Sound) (hc : s.Carrying) (hr : s.Resumable) (hs : Steps s a s') :
    s'.Resumable := by
  constructor
  · intro d n hmem
    have hl := h.lane d
    by_cases hold : Work.op d n ∈ s.shared.works
    · obtain ⟨hlt, hp, -⟩ := hc.op d n hold
      rw [(hs.lane d).awaitResume hl hlt fun hx => absurd hx hp]
      exact hr.op d n hold
    · have hpos := List.count_pos_iff.mpr hmem
      have hzero := List.count_eq_zero_of_not_mem hold
      rcases hs.works h (w := .op d n) (d := d) rfl with
        ⟨-, hcount⟩ | ⟨-, m, v, hv, hcount⟩ | ⟨-, v, q, -, hcount⟩
      · omega
      · obtain ⟨rfl, -⟩ : Work.op d n = v ∧ v ∉ s.shared.works := by
          by_contra hno
          rw [if_neg hno] at hcount
          omega
        cases hv with
        | ended hp _ hp'' _ => exact (hs.lane d).resumable hl hp hp''
      · omega
  · intro d n hn
    have hl := h.lane d
    rcases (hs.lane d).handle hl hn with hold | ⟨hp', ht'⟩
    · obtain ⟨hlt, hterm⟩ := hc.cancel d n hold
      rw [(hs.lane d).awaitResume hl hlt hterm]
      exact hr.cancel d n hold
    · exact ((((h.step hs).lane d).stage n hp').2.settled_of_terminal ht').resumable

theorem resumable_of_reaches (h : system.Reaches s) : s.Resumable := by
  refine h.invariant_of (J := fun s => s.Sound ∧ s.Carrying) (I := Resumable)
    (fun s hs => ⟨sound_of_reaches hs, carrying_of_reaches hs⟩) ?_ ?_
  · rintro s ⟨closeResult, zeroCopy, now, rfl⟩
    exact ⟨fun d n hx => (by cases hx), fun d n hx => (by cases hx)⟩
  · intro s a s' hJ _ hr _ hstep
    exact hr.step hJ.1 hJ.2 (hJ.1.steps hstep).2

/-! ## What the runs leave out -/

/-- No operation begins in a direction whose cancel operation is queued, and the stream is not
destroyed while one is queued. -/
def KeepsCancel (s : Stream) (a : Action) : Prop :=
  (∀ d, a.starts.map Prod.fst = some d → Work.cancel d ∉ s.shared.works) ∧
  (a = .destroy → ∀ d, Work.cancel d ∉ s.shared.works)

/-- A cancel request is answered before the last completion of its operation is handled. -/
def CancelFirst (s : Stream) (a : Action) : Prop :=
  ∀ d, a.answersCancel d = true → (s.lanes d).primaryTerminal = false

instance {p : Dir → Prop} [DecidablePred p] : Decidable (∀ d, p d) :=
  decidable_of_iff (p .read ∧ p .write)
    ⟨fun h d => by cases d; exacts [h.1, h.2], fun h => ⟨h .read, h .write⟩⟩

instance : ∀ s a, Decidable (KeepsCancel s a) := fun s a => by
  unfold KeepsCancel; infer_instance

instance : ∀ s a, Decidable (CancelFirst s a) := fun s a => by
  unfold CancelFirst; infer_instance

/-! ## Callers -/

/-- The works that carry the continuation of operation `n` of lane `d`. -/
def queued (s : Stream) (d : Dir) (n : ℕ) : ℕ :=
  s.shared.works.count (.op d n) +
    if (s.lanes d).cancelOp.handle = some n then s.shared.works.count (.cancel d) else 0

def resumed (s : Stream) (d : Dir) (n : ℕ) : ℕ := ((s.lanes d).results.map Prod.fst).count n

theorem queued_congr (hw : s'.shared.works = s.shared.works)
    (hh : (s'.lanes d).cancelOp.handle = (s.lanes d).cancelOp.handle) :
    s'.queued d n = s.queued d n := by
  unfold queued
  rw [hw, hh]

structure Resuming (s : Stream) : Prop where
  alive : s.aborted = false
  gone : s.destroyed = true → ∀ d, (s.lanes d).pending = none
  cancel : ∀ d, Work.cancel d ∈ s.shared.works →
    s.destroyed = false ∧ (s.lanes d).pending = none ∧ (s.lanes d).cancelOp.handle.isSome = true
  once : ∀ d, Ledger.Once (fun n => s.resumed d n + s.queued d n) (s.lanes d).started
    (s.lanes d).pending

theorem Resuming.runWork (h : s.Resuming) (hc : s.Carrying) (hr : s.Resumable)
    (hret : s.shared.Returning)
    (hq : s.shared.queues.next = some (w, q)) : ((s.setQueues q).runWork w).isSome = true := by
  have hmem : w ∈ s.shared.works := (Shared.works_perm_of_next hq).mem_iff.mpr (by simp)
  cases w with
  | op d n =>
    obtain ⟨-, -, hh⟩ := hc.op d n hmem
    obtain ⟨r, hres⟩ := Option.isSome_iff_exists.mp (hr.op d n hmem)
    simp [Stream.runWork, resumeOperation, setQueues, hh, hres]
  | cancel d =>
    obtain ⟨hd, -, hh⟩ := h.cancel d hmem
    obtain ⟨n, hh⟩ := Option.isSome_iff_exists.mp hh
    obtain ⟨r, hres⟩ := Option.isSome_iff_exists.mp (hr.cancel d n hh)
    simp [Stream.runWork, resumeOperation, setQueues, hd, hh, hres]
  | close k =>
    obtain ⟨hh, hres, -⟩ := hret.work k hmem
    obtain ⟨r, hres⟩ := Option.isSome_iff_exists.mp hres
    simp [Stream.runWork, resumeClose, setQueues, hh, hres]
  | other i => rfl

theorem settle_aborted {b : Awaiter} : (s.settle d n b).aborted = s.aborted := by
  unfold settle
  dsimp only
  split_ifs <;> rfl

theorem Steps.aborted_eq (hs : Steps s a s') : s'.aborted = s.aborted ∨
    ∃ w q, s.shared.queues.next = some (w, q) ∧ (s.setQueues q).runWork w = none := by
  cases hs with
  | started _ _ _ hstart => exact .inl (by cases hstart <;> rfl)
  | settled _ _ _ => exact .inl settle_aborted
  | resumed hq hr =>
    rename_i w q
    cases hr with
    | failed hx => exact .inr ⟨w, q, hq, hx⟩
    | operation _ _ | close _ _ _ | other _ => exact .inl rfl
  | _ => exact .inl rfl

theorem Resuming.cancel_not_queued (h : s.Resuming) (hp : (s.lanes d).pending = some n) :
    s.shared.works.count (.cancel d) = 0 := by
  refine List.count_eq_zero_of_not_mem fun hx => ?_
  rw [(h.cancel d hx).2.1] at hp
  cases hp

/-! ### The loop resumes a work -/

theorem Carrying.carries_eq (hc : s.Carrying) (hw : w ∈ s.shared.works) :
    s.carries w = some (d, n) ↔
      w = .op d n ∨ w = .cancel d ∧ (s.lanes d).cancelOp.handle = some n := by
  cases w with
  | op d' m =>
    rw [Stream.carries, (hc.op d' m hw).2.2]
    simp
  | cancel d' =>
    simp only [Stream.carries, Option.map_eq_some_iff, Prod.mk.injEq, reduceCtorEq,
      Work.cancel.injEq, false_or]
    constructor
    · rintro ⟨m, hm, rfl, rfl⟩
      exact ⟨rfl, hm⟩
    · rintro ⟨rfl, hm⟩
      exact ⟨n, hm, rfl, rfl⟩
  | close k | other j => simp [Stream.carries]

theorem Carrying.queued_take (hc : s.Carrying)
    (hq : s.shared.queues.next = some (w, q)) : s.queued d n =
      (s.setQueues q).queued d n + if s.carries w = some (d, n) then 1 else 0 := by
  have hperm := Shared.works_perm_of_next hq
  have hmem : w ∈ s.shared.works := hperm.mem_iff.mpr (by simp)
  have hcount (v : Work) : s.shared.works.count v =
      (s.setQueues q).shared.works.count v + if w = v then 1 else 0 := by
    rw [hperm.count_eq, List.count_cons]
    simp only [beq_iff_eq]
    rfl
  have hiff := hc.carries_eq (d := d) (n := n) hmem
  unfold queued
  rw [hcount, hcount]
  show _ + _ + (if (s.lanes d).cancelOp.handle = some n then _ else 0) =
    _ + (if (s.lanes d).cancelOp.handle = some n then _ else 0) + _
  by_cases hop : w = .op d n
  · have hne : w ≠ .cancel d := by simp [hop]
    rw [if_pos (hiff.mpr (.inl hop)), if_pos hop, if_neg hne]
    simp only [Nat.add_zero]
    omega
  · rw [if_neg hop]
    by_cases hh : (s.lanes d).cancelOp.handle = some n
    · rw [if_pos hh, if_pos hh]
      by_cases hcan : w = .cancel d
      · rw [if_pos hcan, if_pos (hiff.mpr (.inr ⟨hcan, hh⟩))]
        omega
      · rw [if_neg hcan, if_neg (fun hx => (hiff.mp hx).elim hop fun hx => hcan hx.1)]
        rfl
    · rw [if_neg hh, if_neg hh, if_neg (fun hx => (hiff.mp hx).elim hop fun hx => hh hx.2)]

theorem Resuming.resumes (h : s.Resuming) (hc : s.Carrying) (hr : s.Resumable)
    (hret : s.shared.Returning)
    (hq : s.shared.queues.next = some (w, q)) (hs : Resumes (s.setQueues q) w s') :
    s'.Resuming := by
  have hsub {v : Work} (hv : v ∈ (s.setQueues q).shared.works) : v ∈ s.shared.works :=
    (Shared.works_perm_of_next hq).mem_iff.mpr (List.mem_cons_of_mem _ hv)
  have hnone (hx : ∀ d n, s.carries w ≠ some (d, n)) : (s.setQueues q).Resuming := by
    refine ⟨h.alive, h.gone, fun d hd => h.cancel d (hsub hd), fun d n => ?_⟩
    refine Eq.trans ?_ (h.once d n)
    dsimp only
    rw [hc.queued_take hq, if_neg (hx d n)]
    rfl
  cases hs with
  | failed hx =>
    have := h.runWork hc hr hret hq
    rw [hx] at this
    cases this
  | operation hcar hres =>
    rename_i d' m r
    have hcar : s.carries w = some (d', m) := by cases w <;> exact hcar
    set y : Lane := { (s.setQueues q).lanes d' with
      results := ((s.setQueues q).lanes d').results ++ [(m, r)] } with hy
    have hlane (d : Dir) : (((s.setQueues q).setLane d' y).lanes d).started = (s.lanes d).started ∧
        (((s.setQueues q).setLane d' y).lanes d).pending = (s.lanes d).pending ∧
        (((s.setQueues q).setLane d' y).lanes d).cancelOp = (s.lanes d).cancelOp := by
      by_cases hdd : d = d'
      · subst hdd
        rw [setLane_self]
        exact ⟨rfl, rfl, rfl⟩
      · rw [setLane_of_ne hdd]
        exact ⟨rfl, rfl, rfl⟩
    have hres (d : Dir) (n : ℕ) : ((s.setQueues q).setLane d' y).resumed d n =
        s.resumed d n + if some (d', m) = some (d, n) then 1 else 0 := by
      unfold resumed
      by_cases hdd : d = d'
      · subst hdd
        rw [setLane_self, hy]
        rw [List.map_append, List.count_append]
        simp [List.count_singleton, setQueues]
      · rw [setLane_of_ne hdd]
        simp [Ne.symm hdd, setQueues]
    refine ⟨h.alive, fun hx d => (hlane d).2.1.trans (h.gone hx d), fun d hd => ?_, fun d n => ?_⟩
    · rw [(hlane d).2.1, (hlane d).2.2]
      exact h.cancel d (hsub hd)
    · have hqueued : ((s.setQueues q).setLane d' y).queued d n = (s.setQueues q).queued d n :=
        queued_congr rfl (by rw [(hlane d).2.2]; rfl)
      rw [(hlane d).1, (hlane d).2.1, ← h.once d n]
      dsimp only
      rw [hc.queued_take hq, hcar, hres, hqueued]
      omega
  | close hw hh hres =>
    subst hw
    have := hnone fun d n => by simp [carries]
    exact { this with }
  | other hw =>
    subst hw
    exact hnone fun d n => by simp [carries]

/-! ### The other steps -/

inductive Calls (x y : Lane) : Prop where
  | keep : y.results = x.results → y.started = x.started → y.pending = x.pending → Calls x y
  | refused {r : Except Error ℕ} : y.results = x.results ++ [(x.started, r)] →
      y.started = x.started + 1 → y.pending = x.pending → Calls x y
  | taken : y.results = x.results → y.started = x.started + 1 → x.pending = none →
      y.pending = some x.started → Calls x y
  | ended {n : ℕ} : y.results = x.results → y.started = x.started → x.pending = some n →
      y.pending = none → Calls x y

theorem LaneStep.calls (hs : LaneStep s a d s') (hl : (s.lanes d).Sound d) (ha : a ≠ .runNext) :
    Calls (s.lanes d) (s'.lanes d) := by
  have hops (h : (s.lanes d).SameOps (s'.lanes d)) : Calls (s.lanes d) (s'.lanes d) :=
    .keep h.results h.started h.pending
  cases hs with
  | same _ heq => exact .keep (by rw [heq]) (by rw [heq]) (by rw [heq])
  | refused _ _ heq | undone _ _ _ heq =>
    exact .refused (by rw [heq]; rfl) (by rw [heq]; rfl) (by rw [heq]; rfl)
  | suspended _ _ _ _ hp heq =>
    exact .taken (by rw [heq]; rfl) (by rw [heq]; rfl) hp (by rw [heq]; rfl)
  | deadline _ heq => exact hops (by rw [heq]; exact hl.timed.setDeadline_sameOps _ _ _)
  | fired _ hmem hfire _ => exact hops (hl.toProtocol.fire_sameOps hmem hfire)
  | ended hp _ _ _ heq | finished _ hp _ _ _ heq =>
    exact .ended (by rw [heq]; rfl) (by rw [heq]; rfl) hp (by rw [heq]; rfl)
  | awaiting _ _ _ _ heq | recorded _ _ _ _ _ _ _ heq | answered _ _ _ heq =>
    exact .keep (by rw [heq]; rfl) (by rw [heq]; rfl) (by rw [heq]; rfl)
  | returned hx _ _ _ _ => exact absurd hx ha

theorem LaneStep.handle_eq (hs : LaneStep s a d s') (hl : (s.lanes d).Sound d) :
    (s'.lanes d).cancelOp.handle = (s.lanes d).cancelOp.handle ∨
      (s.lanes d).pending ≠ none ∨ a.starts.map Prod.fst = some d := by
  have hsome {m : ℕ} (hp : (s.lanes d).pending = some m) : (s.lanes d).pending ≠ none := by
    rw [hp]
    simp
  cases hs with
  | same _ heq | returned _ _ _ _ heq => exact .inl (by rw [heq])
  | refused _ _ heq | answered _ _ _ heq => exact .inl (by rw [heq]; rfl)
  | undone ha _ _ _ | suspended ha _ _ _ _ _ => exact .inr (.inr (by rw [ha]; rfl))
  | deadline hsets heq =>
    rename_i D ok
    left
    rw [heq]
    obtain ⟨G, heq' | ⟨-, -, expiration, heq'⟩⟩ := hl.timed.setDeadline_eq D s.shared.now ok
    · rw [heq']
    · rw [heq']
  | fired ha hmem hfire hstop =>
    rename_i t ans stop
    rcases hl.toProtocol.fire_cases hmem s.shared.now ans with ⟨-, heq⟩ | ⟨⟨ht, -, -⟩, -⟩
    · rw [hfire] at heq
      obtain ⟨-, hlane⟩ := Prod.ext_iff.mp (Option.some.inj heq)
      dsimp only at hlane
      exact .inl (by rw [hlane])
    · rw [hl.target] at ht
      exact .inr (.inl (Option.isSome_iff_ne_none.mp ht))
  | ended hp _ _ _ _ | awaiting hp _ _ _ _ | recorded _ _ hp _ _ _ _ _ | finished _ hp _ _ _ _ =>
    exact .inr (.inl (hsome hp))

theorem Steps.works_eq (h : s.Sound) (hs : Steps s a s') (ha : a ≠ .runNext)
    (hk : (s.lanes d).pending = none ∨ (s'.lanes d).pending ≠ none) (hw : w.of d) :
    s'.shared.works.count w = s.shared.works.count w := by
  rcases hs.works h hw with ⟨-, hcount⟩ | ⟨-, m, v, hv, hcount⟩ | ⟨hx, -⟩
  · exact hcount
  · exfalso
    have hp : (s.lanes d).pending = some m ∧ (s'.lanes d).pending = none := by
      cases hv with
      | ended hp _ hp' _ | finished hp _ hp' _ => exact ⟨hp, hp'⟩
    rcases hk with hk | hk
    · rw [hk] at hp
      cases hp.1
    · exact hk hp.2
  · exact absurd hx ha

theorem Resuming.queued_eq (hr : s.Resuming) (h : s.Sound) (hs : Steps s a s')
    (hkeep : KeepsCancel s a) (ha : a ≠ .runNext)
    (hk : (s.lanes d).pending = none ∨ (s'.lanes d).pending ≠ none) :
    s'.queued d n = s.queued d n := by
  unfold queued
  rw [hs.works_eq h ha hk (show (Work.op d n).of d from rfl),
    hs.works_eq h ha hk (show (Work.cancel d).of d from rfl)]
  rcases (hs.lane d).handle_eq (h.lane d) with heq | hp | hstart
  · rw [heq]
  · obtain ⟨m, hm⟩ := Option.ne_none_iff_exists'.mp hp
    rw [hr.cancel_not_queued hm]
    simp
  · rw [List.count_eq_zero_of_not_mem (hkeep.1 d hstart)]
    simp

theorem Resuming.queued_ended (hr : s.Resuming) (h : s.Sound) (hs : Steps s a s') {m : ℕ}
    (hp : (s.lanes d).pending = some m) (hp' : (s'.lanes d).pending = none) :
    s'.queued d n = s.queued d n + if n = m then 1 else 0 := by
  obtain ⟨v, hv, hcount⟩ := hs.schedules h hp hp'
  have hcancel := hr.cancel_not_queued hp
  have hholding := Nat.add_eq_zero_iff.mp ((hr.once d).waiting hp) |>.2
  unfold queued at hholding ⊢
  rw [hcount _ (show (Work.op d n).of d from rfl), hcount _ (show (Work.cancel d).of d from rfl),
    hcancel]
  cases hv with
  | ended _ hterm _ hh =>
    have hop : s.shared.works.count (.op d m) = 0 := by omega
    have hnot : Work.op d m ∉ s.shared.works := List.count_eq_zero.mp hop
    by_cases hn : n = m
    · simp [hnot]
    · simp [hn]
  | finished _ hterm _ hh =>
    have hnot : Work.cancel d ∉ s.shared.works := List.count_eq_zero.mp hcancel
    rw [hh]
    by_cases hn : n = m
    · subst hn
      simp [hnot]
    · simp [hn, Ne.symm hn]

theorem Steps.pending_none (h : s.Sound) (hs : Steps s a s') (hp : (s.lanes d).pending = none)
    (hstart : a.starts.map Prod.fst ≠ some d) : (s'.lanes d).pending = none := by
  by_contra hx
  obtain ⟨m, hm⟩ := Option.ne_none_iff_exists'.mp hx
  have hne : (s.lanes d).pending ≠ some m := by rw [hp]; simp
  obtain ⟨-, -, ⟨kind, buffer, ha⟩, -⟩ := (hs.lane d).taken (h.lane d) hne hm
  exact hstart (by rw [ha]; rfl)

theorem Resuming.gone_step (hr : s.Resuming) (h : s.Sound) (hs : Steps s a s')
    (hx : s'.destroyed = true) (d : Dir) : (s'.lanes d).pending = none := by
  rcases hs.destroyed_eq with heq | rfl
  · have hd : s.destroyed = true := heq.symm.trans hx
    refine hs.pending_none h (hr.gone hd d) fun hstart => ?_
    obtain ⟨⟨d', kind, buffer⟩, hx, -⟩ := Option.map_eq_some_iff.mp hstart
    rw [(hs.starts_inv hx).1] at hd
    cases hd
  · obtain ⟨hfree, -, rfl⟩ := hs.of_destroy
    simp only [destructible, Lane.free, Bool.and_eq_true, Option.isNone_iff_eq_none] at hfree
    cases d with
    | read => exact hfree.1.1.1
    | write => exact hfree.1.2.1

theorem Resuming.cancel_step (hr : s.Resuming) (h : s.Sound) (hs : Steps s a s')
    (hkeep : KeepsCancel s a) (ha : a ≠ .runNext) (hd : Work.cancel d ∈ s'.shared.works) :
    s'.destroyed = false ∧ (s'.lanes d).pending = none ∧
      (s'.lanes d).cancelOp.handle.isSome = true := by
  by_cases hold : Work.cancel d ∈ s.shared.works
  · obtain ⟨h1, h2, h3⟩ := hr.cancel d hold
    have hstart : a.starts.map Prod.fst ≠ some d := fun hx => hkeep.1 d hx hold
    refine ⟨?_, hs.pending_none h h2 hstart, ?_⟩
    · rcases hs.destroyed_eq with heq | hx
      · exact heq.trans h1
      · exact absurd hold (hkeep.2 hx d)
    · rcases (hs.lane d).handle_eq (h.lane d) with heq | hp | hx
      · rw [heq]
        exact h3
      · exact absurd h2 hp
      · exact absurd hx hstart
  · have hpos := List.count_pos_iff.mpr hd
    have hzero := List.count_eq_zero_of_not_mem hold
    rcases hs.works h (w := .cancel d) (d := d) rfl with
      ⟨-, hcount⟩ | ⟨-, m, v, hv, hcount⟩ | ⟨hx, -⟩
    · omega
    · obtain ⟨rfl, -⟩ : Work.cancel d = v ∧ v ∉ s.shared.works := by
        by_contra hno
        rw [if_neg hno] at hcount
        omega
      cases hv with
      | finished hp _ hp' hh =>
        refine ⟨?_, hp', by rw [hh]; rfl⟩
        -- a stream with an operation is not destroyed, and a step does not both end and destroy
        have hd : s.destroyed = false := by
          by_contra hx
          rw [hr.gone (by simpa using hx) d] at hp
          cases hp
        rcases hs.destroyed_eq with heq | rfl
        · exact heq.trans hd
        · obtain ⟨-, -, rfl⟩ := hs.of_destroy
          rw [show _ = _ from hp] at hp'
          cases hp'
    · exact absurd hx ha

/-- **Callers are resumed once**: kept by every step that leaves a queued cancel operation alone. -/
theorem Resuming.step (hr : s.Resuming) (h : s.Sound) (hc : s.Carrying) (hres : s.Resumable)
    (hret : s.shared.Returning) (hkeep : KeepsCancel s a) (hs : Steps s a s') : s'.Resuming := by
  by_cases ha : a = .runNext
  · subst ha
    cases hs with
    | quiet hx _ | started hx _ _ _ => cases hx
    | deadlines hx _ =>
      obtain ⟨d, hd⟩ := hx
      cases hd
    | settled _ _ he => cases he
    | resumed hq hr' => exact hr.resumes hc hres hret hq hr'
  · have halive : s'.aborted = false := by
      rcases hs.aborted_eq with heq | ⟨w, q, hq, hx⟩
      · exact heq.trans hr.alive
      · have := hr.runWork hc hres hret hq
        rw [hx] at this
        cases this
    refine ⟨halive, fun hx d => hr.gone_step h hs hx d,
      fun d hd => hr.cancel_step h hs hkeep ha hd, fun d => ?_⟩
    have honce := hr.once d
    cases (hs.lane d).calls (h.lane d) ha with
    | keep h1 h2 h3 =>
      simp only [hr.queued_eq h hs hkeep ha (by rw [h3]; exact em _), resumed, h1, h2, h3]
      exact honce
    | refused h1 h2 h3 =>
      simp only [hr.queued_eq h hs hkeep ha (by rw [h3]; exact em _), resumed, h1, h2, h3]
      exact honce.returns (fun hx => absurd ((h.lane d).stage _ hx).1 (Nat.lt_irrefl _)) _
    | taken h1 h2 h3 h4 =>
      simp only [hr.queued_eq h hs hkeep ha (.inl h3), resumed, h1, h2, h4]
      rw [h3] at honce
      exact honce.park
    | ended h1 h2 h3 h4 =>
      rw [h2, h4]
      have hlt := ((h.lane d).stage _ h3).1
      rw [h3] at honce
      refine honce.answer hlt fun n => ?_
      rw [hr.queued_ended h hs h3 h4, resumed, h1, Nat.add_assoc]
      rfl

/-! ## Whole runs -/

theorem resuming_of_reaches (h : system.ReachesBy KeepsCancel s) : s.Resuming := by
  refine h.invariant_of (I := Resuming)
    (J := fun s => s.Sound ∧ s.Carrying ∧ s.Resumable ∧ s.shared.Returning)
    (fun s hs => ⟨sound_of_reaches hs.reaches, carrying_of_reaches hs.reaches,
      resumable_of_reaches hs.reaches, returning_of_reaches hs.reaches⟩) ?_ ?_
  · rintro s ⟨closeResult, zeroCopy, now, rfl⟩
    exact ⟨rfl, nofun, fun d hx => (by cases hx), fun d n => rfl⟩
  · rintro s a s' ⟨h1, h2, h3, h4⟩ - hr hkeep hstep
    exact hr.step h1 h2 h3 h4 hkeep (h1.steps hstep).2

theorem LaneStep.answersCancel (hs : LaneStep s a d s') (hl : (s.lanes d).Sound d)
    (hp : (s.lanes d).pending = some n) (ht : (s.lanes d).primaryTerminal = true)
    (hp' : (s'.lanes d).pending = none) : a.answersCancel d = true := by
  have hkeep (hx : (s'.lanes d).pending = (s.lanes d).pending) : a.answersCancel d = true := by
    rw [hx, hp] at hp'
    cases hp'
  cases hs with
  | same _ heq | returned _ _ _ _ heq => exact hkeep (by rw [heq])
  | refused _ _ heq => exact hkeep (by rw [heq]; rfl)
  | undone _ _ hx _ | suspended _ _ _ _ hx _ => rw [hp] at hx; cases hx
  | deadline _ heq => exact hkeep (by rw [heq, (hl.timed.setDeadline_sameOps _ _ _).pending])
  | fired _ hmem hfire _ => exact hkeep (hl.toProtocol.fire_sameOps hmem hfire).pending
  | ended _ hx _ _ _ | awaiting _ hx _ _ _ | recorded _ _ _ hx _ _ _ _ => rw [ht] at hx; cases hx
  | answered ha _ _ _ | finished ha _ _ _ _ _ => rw [ha]; simp [Action.answersCancel]

theorem cancel_not_linked (h : system.ReachesBy CancelFirst s) (d : Dir) :
    Work.cancel d ∉ s.shared.works := by
  refine h.invariant_of (J := Sound) (I := fun s => Work.cancel d ∉ s.shared.works)
    (fun s hs => sound_of_reaches hs.reaches) ?_ ?_
  · rintro s ⟨closeResult, zeroCopy, now, rfl⟩ hx
    cases hx
  · intro s a s' hs _ hnot hfirst hstep hmem
    have hsteps := (hs.steps hstep).2
    have hpos := List.count_pos_iff.mpr hmem
    have hzero := List.count_eq_zero_of_not_mem hnot
    rcases hsteps.works hs (w := .cancel d) (d := d) rfl with
      ⟨-, hcount⟩ | ⟨-, m, v, hv, hcount⟩ | ⟨-, v, q, -, hcount⟩
    · omega
    · obtain ⟨rfl, -⟩ : Work.cancel d = v ∧ v ∉ s.shared.works := by
        by_contra hno
        rw [if_neg hno] at hcount
        omega
      cases hv with
      | finished hp ht hp' _ =>
        have := hfirst d ((hsteps.lane d).answersCancel (hs.lane d) hp ht hp')
        rw [ht] at this
        cases this
    · omega

/-- **Callers are resumed exactly once** when cancel requests are answered before the operations
they cancel: a direction whose slot is free has no queued cancel operation, no work fails, and each
call returns once. -/
theorem resumed_once (h : system.ReachesBy CancelFirst s) :
    (∀ d, (s.lanes d).free = true → Work.cancel d ∉ s.shared.works) ∧ s.aborted = false ∧
    ∀ d n, s.resumed d n + s.shared.works.count (.op d n) =
      if n < (s.lanes d).started ∧ (s.lanes d).pending ≠ some n then 1 else 0 := by
  have hr : s.Resuming := by
    refine resuming_of_reaches (h.strengthen (I := fun s => ∀ d, Work.cancel d ∉ s.shared.works)
      (fun s hs d => cancel_not_linked hs d) fun s a hnot _ => ?_)
    exact ⟨fun d _ => hnot d, fun _ d => hnot d⟩
  refine ⟨fun d _ => cancel_not_linked h d, hr.alive, fun d n => ?_⟩
  refine Eq.trans ?_ (hr.once d n)
  dsimp only
  rw [queued, List.count_eq_zero_of_not_mem (cancel_not_linked h d), ite_self, Nat.add_zero]

/-- A read whose deadline expires, with its cancel request answered before its own completion. -/
theorem resumed_once_expired :
    ∃ s, (system.ReachesBy CancelFirst s ∧ (s.lanes .read).results = [(0, .error ETIMEDOUT)] ∧
      (s.lanes .read).free = true) ∧
      (∀ d, (s.lanes d).free = true → Work.cancel d ∉ s.shared.works) ∧ s.aborted = false ∧
      ∀ d n, s.resumed d n + s.shared.works.count (.op d n) =
        if n < (s.lanes d).started ∧ (s.lanes d).pending ≠ some n then 1 else 0 :=
  system.exists_reachesBy_and _ (make (.ok ()) false 0) ⟨_, _, _, rfl⟩
    [.setReadDeadline (some 10) true, .read 100 {}, .advanceClock 10,
      .fire .read ⟨0, 10, .deadline, 2⟩ {}, .advance, .advance, .cancelCqe .read 0, .advance,
      .cqe .read 0 ⟨-125, 0⟩ {}, .runNext] (by decide) fun _ hr _ => resumed_once hr

/-- The run in which a read's completion comes before the answer to its cancel request, which queues
the stream's cancel operation behind the work of a close. -/
def cancelLast : List Action :=
  [.setReadDeadline (some 10) true, .read 100 {}, .close none, .advanceClock 10,
    .fire .read ⟨0, 10, .deadline, 2⟩ {}, .advance, .advance, .closeCqe 0 0, .advance,
    .cqe .read 0 ⟨-125, 0⟩ {}, .advance, .cancelCqe .read 0]

/-- The caller of `Close()` destroys the stream, the work of the cancel operation is gone with it,
and the reader is never resumed. -/
theorem cancel_linked :
    (¬ ∀ s, system.Reaches s → ∀ d, (s.lanes d).free = true → Work.cancel d ∉ s.shared.works) ∧
    ∃ s, system.Reaches s ∧ s.aborted = true ∧ (s.lanes .read).free = true ∧
      s.resumed .read 0 = 0 ∧ s.queued .read 0 = 0 := by
  constructor
  · intro hall
    obtain ⟨s, hr, hfree, hmem⟩ := system.exists_reachesBy (fun _ _ => True)
      (make (.ok ()) false 0) ⟨_, _, _, rfl⟩ cancelLast
      (P := fun s => (s.lanes .read).free = true ∧ Work.cancel .read ∈ s.shared.works) (by decide)
    exact hall s hr .read hfree hmem
  · exact system.exists_reachesBy _ (make (.ok ()) false 0) ⟨_, _, _, rfl⟩
      (cancelLast ++ [.runNext, .destroy, .runNext]) (by decide)

end Stream

end Alyrn.Uring
