import Alyrn.Uring.Stream.Resumption
import Alyrn.Uring.Stream.Convergence

/-!
# Zero-copy sends

A zero-copy send has up to two completions: the primary one, with its result, and when that carries
`F_MORE` a notification, after which the kernel no longer uses the buffer. The slot is released and
the sender resumed after both, and after the answer to a cancel request (`Stream.SplitReleases`),
unless the stream's cancel operation is not left alone while it is queued (`send_lost`).
-/

namespace Alyrn.Uring

open Transition

namespace Stream

variable {s s' : Stream} {a : Action} {n : ℕ}

/-- A queued cancel operation is left alone, and the kernel completes no operation with a timeout of
its own. -/
def KeepsSends (s : Stream) (a : Action) : Prop :=
  KeepsCancel s a ∧ match a with
    | .cqe _ _ e _ => e.result ≠ -110
    | _ => True

instance : ∀ s a, Decidable (KeepsSends s a) := fun s a => by
  unfold KeepsSends
  cases a <;> infer_instance

structure SplitReleases (s : Stream) (t : Tally) (n : ℕ) : Prop where
  /-- The slot is released once, with the request at its end in the kernel and a cancel request
  answered. -/
  released : t.finalized =
    if t.submitted = 1 ∧ t.terminals = 1 ∧ t.cancelAnswers = t.cancels then 1 else 0
  slot : t.finalized = 1 ↔ t.submitted = 1 ∧ (s.lanes .write).pending ≠ some n
  /-- The end in the kernel is not before the primary completion, which records the result. -/
  recorded : t.terminals ≤ t.primaries ∧ t.primaries ≤ t.submitted ∧ t.submitted ≤ 1
  resumed : t.submitted = 1 → s.resumed .write n + s.queued .write n = t.finalized
  result : ∀ r, (n, r) ∈ (s.lanes .write).results → t.submitted = 1 →
    ∃ e p expired, t.completion = some (e, p, expired) ∧
      r = Awaiter.sizeResult e.result expired ∧ (r = .error ETIMEDOUT → expired = true)
  inflight : t.decrements = t.terminals
  alive : s.aborted = false

theorem completion_of_reaches {p : Stream × (Dir → ℕ → Tally)}
    (h : tallied.ReachesBy (fun p a => KeepsSends p.1 a) p) (d : Dir) (n : ℕ) :
    ∀ e q expired, (p.2 d n).completion = some (e, q, expired) → e.result ≠ -110 := by
  refine System.ReachesBy.invariant_withHistory (C := KeepsSends) (J := fun _ => True)
    (I := fun _ T => ∀ e q expired, (T d n).completion = some (e, q, expired) → e.result ≠ -110)
    (fun _ _ => trivial) (fun s _ e q expired hx => by cases hx) ?_ h
  intro s a s' T _ hI hC _ e q expired hx
  dsimp only [Tally.observe] at hx
  cases hprim : a.primary d n with
  | none =>
    rw [hprim] at hx
    exact hI e q expired hx
  | some r =>
    rw [hprim] at hx
    cases hx
    cases a with
    | cqe d' n' e' p' =>
      obtain ⟨-, rfl⟩ := of_guard hprim
      exact hC.2
    | _ => cases hprim

theorem sizeResult_timeout {r : ℤ} {expired : Bool} (hr : r ≠ -110)
    (h : Awaiter.sizeResult r expired = .error ETIMEDOUT) : expired = true := by
  cases expired with
  | true => rfl
  | false =>
    unfold Awaiter.sizeResult at h
    rw [if_neg (by simp)] at h
    split_ifs at h
    have hneg : (-r).toNat = 110 := Except.error.inj h
    omega

/-- **Split release.** In the runs that leave a queued cancel operation alone and in which the
kernel does not report a timeout, every zero-copy send is released and its sender resumed once,
after its last completion and the answer to a cancel request. -/
theorem zero_copy_released {p : Stream × (Dir → ℕ → Tally)}
    (h : tallied.ReachesBy (fun p a => KeepsSends p.1 a) p) (n : ℕ)
    (hk : ((p.1.lanes .write).awaiters n).op.kind = .sendZeroCopyComplete) :
    SplitReleases p.1 (p.2 .write n) n := by
  have hreach : tallied.Reaches p := h.reaches
  have hsys : system.ReachesBy KeepsSends p.1 := System.ReachesBy.of_withHistory h
  have hconv := converges_of_tallied (tallied_of_reaches hreach .write n)
    ((sound_of_reaches hsys.reaches).lane .write)
  have htally := tallied_of_reaches hreach .write n
  have hr := resuming_of_reaches (hsys.mono fun _ _ hc => hc.1)
  have hslot : (p.2 .write n).finalized = 1 ↔
      (p.2 .write n).submitted = 1 ∧ (p.1.lanes .write).pending ≠ some n := by
    by_cases hp : (p.1.lanes .write).pending = some n
    · rw [(htally.holding hp).finalized]
      simp [hp]
    · by_cases hlt : n < (p.1.lanes .write).started
      · rcases htally.gone hlt hp with heq | ho
        · simp [heq]
        · simp [ho.finalized, ho.submitted, hp]
      · simp [htally.fresh (Nat.not_lt.mp hlt)]
  refine ⟨hconv.finalized, hslot, hconv.primary, fun hsub => ?_, fun r hr' hsub => ?_, ?_, hr.alive⟩
  · refine (hr.once .write n).trans ?_
    by_cases hp : (p.1.lanes .write).pending = some n
    · rw [(htally.holding hp).finalized, if_neg (fun hx => hx.2 hp)]
    · have hlt : n < (p.1.lanes .write).started := by
        by_contra hlt
        rw [htally.fresh (Nat.not_lt.mp hlt)] at hsub
        cases hsub
      rw [if_pos ⟨hlt, hp⟩, hslot.mpr ⟨hsub, hp⟩]
  · obtain ⟨e, q, expired, hc, hout⟩ := hconv.result r hr' (by omega)
    have hsize : r = Awaiter.sizeResult e.result expired := by
      rw [hout, outcome, hk]
      cases expired <;> rfl
    refine ⟨e, q, expired, hc, hsize, fun hx => ?_⟩
    exact sizeResult_timeout (completion_of_reaches h .write n e q expired hc) (hsize ▸ hx)
  · by_cases hp : (p.1.lanes .write).pending = some n
    · exact (htally.holding hp).decrements
    · by_cases hlt : n < (p.1.lanes .write).started
      · rcases htally.gone hlt hp with heq | ho
        · rw [heq]
        · exact ho.decrements.trans ho.terminals.symm
      · rw [htally.fresh (Nat.not_lt.mp hlt)]

/-- A send with a notification whose deadline expires between its two completions. -/
theorem zero_copy_released_notified :
    ∃ p, ((tallied.ReachesBy (fun p a => KeepsSends p.1 a) p ∧
      ((p.1.lanes .write).awaiters 0).op.kind = .sendZeroCopyComplete) ∧
      (p.2 .write 0).cancels = 1 ∧ (p.2 .write 0).finalized = 1 ∧
      (p.1.lanes .write).results = [(0, .ok 3)]) ∧ SplitReleases p.1 (p.2 .write 0) 0 := by
  obtain ⟨p, hr, hk, hrest⟩ := tallied.exists_reachesBy (fun p a => KeepsSends p.1 a)
    (make (.ok ()) false 0, fun _ _ => {}) ⟨⟨_, _, _, rfl⟩, rfl⟩
    [.setWriteDeadline (some 10) true, .sendZeroCopy [1, 2, 3] {}, .advance, .advance,
      .cqe .write 0 ⟨3, 2⟩ {}, .advance, .callbacks, .advanceClock 10,
      .fire .write ⟨0, 10, .deadline, 2⟩ {}, .advance, .advance, .notification 0 ⟨0, 8⟩, .advance,
      .cancelCqe .write 0, .runNext]
    (P := fun p => ((p.1.lanes .write).awaiters 0).op.kind = .sendZeroCopyComplete ∧
      (p.2 .write 0).cancels = 1 ∧ (p.2 .write 0).finalized = 1 ∧
      (p.1.lanes .write).results = [(0, .ok 3)]) (by decide)
  exact ⟨p, ⟨⟨hr, hk⟩, hrest⟩, zero_copy_released hr 0 hk⟩

/-- The answer to the cancel request of a send queues the stream's cancel operation behind the work
of a close; the stream is destroyed before that work runs, and the sender is never resumed. -/
theorem send_lost :
    ¬ ∀ p, tallied.Reaches p → ∀ n,
      ((p.1.lanes .write).awaiters n).op.kind = .sendZeroCopyComplete →
      (p.2 .write n).submitted = 1 →
      p.1.resumed .write n + p.1.queued .write n = (p.2 .write n).finalized := by
  intro hall
  obtain ⟨p, hr, hk, hsub, hfin, hres, hque⟩ := tallied.exists_reachesBy (fun _ _ => True)
    (make (.ok ()) false 0, fun _ _ => {}) ⟨⟨_, _, _, rfl⟩, rfl⟩
    [.setWriteDeadline (some 10) true, .sendZeroCopy [1, 2, 3] {}, .close none,
      .advanceClock 10, .fire .write ⟨0, 10, .deadline, 2⟩ {}, .advance, .advance, .closeCqe 0 0,
      .advance, .cqe .write 0 ⟨-125, 0⟩ {}, .advance, .cancelCqe .write 0, .runNext, .destroy,
      .runNext]
    (P := fun p => ((p.1.lanes .write).awaiters 0).op.kind = .sendZeroCopyComplete ∧
      (p.2 .write 0).submitted = 1 ∧ (p.2 .write 0).finalized = 1 ∧ p.1.resumed .write 0 = 0 ∧
      p.1.queued .write 0 = 0) (by decide)
  have := hall p hr 0 hk hsub
  rw [hres, hque, hfin] at this
  cases this

end Stream

end Alyrn.Uring
