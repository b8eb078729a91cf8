import Alyrn.Uring.Loop
import Alyrn.Uring.Stream.Works

/-!
# The tally of an operation

What a run has seen of one operation is kept in a `Tally`: its submission and completions, the
expiry of its deadline, its cancel request, the runs of its finalizer, the scheduling of its
continuation. The tallies are history variables; nothing in the stream depends on them.

A step adds to the tally of the operation that holds the slot (`Tally.Holding`), and leaves those of
the other operations as they are (`observe_other`).
-/

namespace Alyrn.Uring

open Transition

def Awaiter.releaseAuthorized (a : Awaiter) : Bool :=
  if a.op.kind = .sendZeroCopyComplete then a.split.releaseAuthorized
  else a.op.lifecycle = .releaseAuthorized ∨ a.op.lifecycle = .continuationAuthorized

def Awaiter.entry (a : Awaiter) : Entry := { op := 0, kind := a.op.kind, lifecycle := a.split }

/-- The result that a primary completion gives a call of the kind, when the expiry of its deadline
had been observed or not. -/
def outcome (kind : OpKind) (e : CompletionEvent) (p : PoolAnswer) (expired : Bool) :
    Except Error ℕ :=
  if expired then .error ETIMEDOUT
  else if kind = .recvCopyComplete then recvCopyOutcome false e p
  else Awaiter.sizeResult e.result false

structure Tally where
  submitted : ℕ := 0
  expired : Bool := false
  /-- Its primary completion, and whether the expiry had been observed before. -/
  completion : Option (CompletionEvent × PoolAnswer × Bool) := none
  primaries : ℕ := 0
  terminals : ℕ := 0
  /-- Completions at which the loop counts one request less in flight. -/
  decrements : ℕ := 0
  cancels : ℕ := 0
  cancelAnswers : ℕ := 0
  finalized : ℕ := 0
  /-- Steps that put a work with its continuation into a queue. -/
  scheduled : ℕ := 0
  deriving DecidableEq

namespace Stream

variable {s s' : Stream} {a : Action} {d : Dir} {n : ℕ} {t : Tally}

/-- The action is the primary completion of operation `n` of lane `d`. -/
def Action.primary (a : Action) (d : Dir) (n : ℕ) : Option (CompletionEvent × PoolAnswer) :=
  match a with
  | .cqe d' n' e p => if d' = d ∧ n' = n then some (e, p) else none
  | _ => none

def Action.completes (a : Action) (d : Dir) (n : ℕ) : Option CompletionEvent :=
  match a with
  | .cqe d' n' e _ => if d' = d ∧ n' = n then some e else none
  | .notification n' e => if d = .write ∧ n' = n then some e else none
  | _ => none

/-- The step puts a work with the continuation of the operation into a queue. -/
def Links (s s' : Stream) (d : Dir) (n : ℕ) : Prop :=
  ∃ w ∈ s'.shared.works, w ∉ s.shared.works ∧ s'.carries w = some (d, n)

instance : Decidable (Links s s' d n) := by unfold Links; infer_instance

end Stream

def Tally.observe (d : Dir) (n : ℕ) (s : Stream) (a : Stream.Action) (s' : Stream) (t : Tally) :
    Tally :=
  let x := s.lanes d
  let y := s'.lanes d
  let entry := (x.awaiters n).entry
  { submitted := t.submitted + if n ∈ y.primaries ∧ n ∉ x.primaries then 1 else 0
    expired := t.expired || (y.target = some n && y.timedOut)
    completion :=
      match a.primary d n with
      | some (e, p) => some (e, p, t.expired)
      | none => t.completion
    primaries := t.primaries + if (a.primary d n).isSome then 1 else 0
    terminals := t.terminals + if (a.completes d n).any entry.endsWith then 1 else 0
    decrements := t.decrements +
      if (a.completes d n).any fun e => (entry.dispatchCompletion e false).decrementInflight then 1
      else 0
    cancels := t.cancels + if x.target = some n then y.cancels - x.cancels else 0
    cancelAnswers := t.cancelAnswers + if x.target = some n ∧ a.answersCancel d then 1 else 0
    finalized := t.finalized +
      if n < x.started ∧ (x.awaiters n).releaseAuthorized = false ∧
        (y.awaiters n).releaseAuthorized = true then 1 else 0
    scheduled := t.scheduled + if Stream.Links s s' d n then 1 else 0 }

namespace Stream

variable {s s' : Stream} {a : Action} {d : Dir} {n : ℕ} {t : Tally}

def tallied : System (Stream × (Dir → ℕ → Tally)) Action :=
  system.withHistory (fun s a s' T d n => (T d n).observe d n s a s') fun _ _ => {}

/-! ## Operations that do not hold the slot -/

theorem links_pending (h : s.Sound) (hs : Steps s a s') (hl : Links s s' d n) :
    (s.lanes d).pending = some n ∧ (s'.lanes d).pending = none := by
  obtain ⟨w, hw', hw, hc⟩ := hl
  have hof : w.of d := by
    cases w with
    | op d' m | cancel d' =>
      simp only [carries, Option.map_eq_some_iff, Prod.mk.injEq] at hc
      obtain ⟨_, _, rfl, _⟩ := hc
      rfl
    | close k | other i => cases hc
  have hpos := List.count_pos_iff.mpr hw'
  have hzero := List.count_eq_zero_of_not_mem hw
  rcases hs.works h hof with ⟨-, hcount⟩ | ⟨-, m, v, hv, hcount⟩ | ⟨-, v, q, -, hcount⟩
  · omega
  · obtain ⟨rfl, -⟩ : w = v ∧ v ∉ s.shared.works := by
      by_contra hno
      rw [if_neg hno] at hcount
      omega
    cases hv with
    | ended hp _ hp' hh | finished hp _ hp' hh =>
      simp only [carries, hh, Option.map_some, Option.some.injEq, Prod.mk.injEq] at hc
      rw [← hc.2]
      exact ⟨hp, hp'⟩
  · omega

theorem Action.completes_of_touches (h : a.touches d = false) : a.completes d n = none := by
  cases a <;> simp_all [Action.touches, Action.completes]

theorem Action.primary_of_completes (h : a.completes d n = none) : a.primary d n = none := by
  cases a <;> simp_all [Action.primary, Action.completes]

theorem Action.answersCancel_of_touches (h : a.touches d = false) : a.answersCancel d = false := by
  cases a <;> simp_all [Action.touches, Action.answersCancel]

theorem Ends.completes {x : Lane} {b : Awaiter} {sent : List (ℕ × List UInt8)} {m : ℕ}
    (h : Ends x m a d b sent) (hn : a.completes d n ≠ none) : m = n := by
  by_contra hmn
  cases h <;> simp [Action.completes, hmn] at hn

theorem LaneStep.completes (hs : LaneStep s a d s') (hp : (s.lanes d).pending ≠ some n) :
    a.completes d n = none := by
  by_contra hn
  have hne {m : ℕ} (hm : (s.lanes d).pending = some m) : m ≠ n := fun hx => hp (hx ▸ hm)
  have htouches (h : a.touches d = false) : False := hn (Action.completes_of_touches h)
  cases hs with
  | same h _ => exact htouches h
  | refused h _ _ | undone h _ _ _ | suspended h _ _ _ _ _ =>
    exact htouches (Action.touches_of_starts h d)
  | deadline h _ => exact htouches (Action.touches_of_sets h d)
  | fired h _ _ _ | answered h _ _ _ | finished h _ _ _ _ _ | returned h _ _ _ _ =>
    subst h; exact hn rfl
  | ended hpend _ _ he _ | awaiting hpend _ _ he _ => exact hne hpend (he.completes hn)
  | recorded hd h hpend _ _ _ _ _ =>
    subst h
    simp [Action.completes, hne hpend] at hn

theorem observe_other (h : s.Sound) (hs : Steps s a s') (hp : (s.lanes d).pending ≠ some n)
    (hp' : (s'.lanes d).pending ≠ some n) : t.observe d n s a s' = t := by
  have hl := h.lane d
  have hl' := (h.step hs).lane d
  have hnone := (hs.lane d).completes hp
  have hprim : ¬(n ∈ (s'.lanes d).primaries ∧ n ∉ (s.lanes d).primaries) := by
    rintro ⟨hmem, -⟩
    cases hq : (s'.lanes d).pending with
    | none => rw [(hl'.idle hq).primaries] at hmem; cases hmem
    | some m =>
      cases (hl'.stage m hq).2 with
      | submitted _ h2 _ _ =>
        rw [h2, List.mem_singleton] at hmem
        exact hp' (by rw [hq, hmem])
      | recorded _ h2 _ _ | settled _ h2 _ _ => rw [h2] at hmem; cases hmem
  have htarget : (s.lanes d).target ≠ some n := by rw [hl.target]; exact hp
  have htarget' : (s'.lanes d).target ≠ some n := by rw [hl'.target]; exact hp'
  have hfin : ¬(n < (s.lanes d).started ∧
      ((s.lanes d).awaiters n).releaseAuthorized = false ∧
      ((s'.lanes d).awaiters n).releaseAuthorized = true) := by
    rintro ⟨hlt, hfalse, htrue⟩
    rw [((hs.lane d).past hl hlt hp).1, hfalse] at htrue
    cases htrue
  have hlink : ¬Links s s' d n := fun hx => hp (links_pending h hs hx).1
  unfold Tally.observe
  dsimp only
  rw [if_neg hprim, if_neg htarget, if_neg hfin, if_neg hlink, hnone,
    Action.primary_of_completes hnone]
  simp [htarget, htarget']

/-! ## The operation that holds the slot -/

end Stream

def Tally.Answers (t : Tally) (b : Awaiter) : Prop :=
  ∃ e p expired, t.completion = some (e, p, expired) ∧
    b.awaitResume = some (outcome b.op.kind e p expired)

structure Tally.Holding (t : Tally) (x : Lane) (n : ℕ) : Prop where
  submitted : t.submitted = 1
  expired : t.expired = x.timedOut
  primaries : t.primaries + x.primaries.length = 1
  terminals : t.terminals = if x.primaryTerminal then 1 else 0
  decrements : t.decrements = t.terminals
  cancels : t.cancels = if x.cancelSubmitted then 1 else 0
  cancelAnswers : t.cancelAnswers = if x.cancelTerminal then 1 else 0
  finalized : t.finalized = 0
  scheduled : t.scheduled = 0
  answers : x.primaries = [] → t.Answers (x.awaiters n)

structure Tally.Over (t : Tally) (b : Awaiter) : Prop where
  submitted : t.submitted = 1
  primaries : t.primaries = 1
  terminals : t.terminals = 1
  decrements : t.decrements = 1
  answered : t.cancelAnswers = t.cancels
  cancels : t.cancels ≤ 1
  finalized : t.finalized = 1
  scheduled : t.scheduled ≤ 1
  answers : t.Answers b

theorem Lane.Stage.releaseAuthorized {x : Lane} {n : ℕ} (h : x.Stage n) :
    (x.awaiters n).releaseAuthorized = false := by
  unfold Awaiter.releaseAuthorized
  cases h with
  | submitted _ _ _ h => simp [h.split, h.lifecycle]
  | recorded _ _ _ h => simp [h.split, h.kind]
  | settled _ _ _ h =>
    by_cases hk : (x.awaiters n).op.kind = .sendZeroCopyComplete
    · simp [hk, h.split hk]
    · simp [hk, (h.coupled hk).2]

theorem Awaiter.released_releaseAuthorized (b : Awaiter) :
    b.released.releaseAuthorized = true := by
  unfold Awaiter.releaseAuthorized Awaiter.released
  by_cases hk : b.op.kind = .sendZeroCopyComplete <;> simp [hk]

theorem Awaiter.scheduled_releaseAuthorized {b : Awaiter} (h : b.releaseAuthorized = true) :
    b.scheduled.releaseAuthorized = true := by
  unfold Awaiter.releaseAuthorized at h ⊢
  rw [Awaiter.scheduled_kind]
  by_cases hk : b.op.kind = .sendZeroCopyComplete
  · simpa [Awaiter.scheduled, hk, usesCoupledSingleResultLifecycle] using h
  · rw [if_neg hk] at h ⊢
    unfold Awaiter.scheduled
    split_ifs
    · simp
    · simpa using h

theorem Tally.Answers.congr {t t' : Tally} {b b' : Awaiter} (h : t.Answers b)
    (ht : t'.completion = t.completion) (hk : b'.op.kind = b.op.kind)
    (hb : b'.awaitResume = b.awaitResume) : t'.Answers b' := by
  unfold Answers
  rw [ht, hk, hb]
  exact h

namespace Stream

variable {s s' : Stream} {a : Action} {d : Dir} {n : ℕ} {t : Tally} {sent : List (ℕ × List UInt8)}

def Action.flagged : Action → Prop
  | .cqe _ _ e _ => e.notification = false
  | .notification _ e => e.notification = true
  | _ => True

theorem flagged_of_step (hs : step a s = some s') : a.flagged := by
  by_cases ha : s.aborted = true
  · rw [step.eq_def, if_pos ha] at hs
    cases hs
  · rw [step.eq_def, if_neg ha] at hs
    cases a <;> try trivial
    · obtain ⟨u, hu, -⟩ := Option.bind_eq_some_iff.mp hs
      exact (Option.ite_none_right_eq_some.mp hu).1.2.1
    · exact (Option.ite_none_right_eq_some.mp hs).1.2

theorem Ends.terminal {x : Lane} {b : Awaiter} (h : Ends x n a d b sent) (hf : a.flagged) :
    (a.completes d n).any (x.awaiters n).entry.endsWith = true ∧
    ((a.completes d n).any fun e =>
      ((x.awaiters n).entry.dispatchCompletion e false).decrementInflight) = true := by
  cases h with
  | single hsub hd hk =>
    have hmodel : completionModelFor (x.awaiters n).op.kind = .singleShot := by
      revert hd hk
      cases d <;> cases (x.awaiters n).op.kind <;> simp [Dir.hosts, completionModelFor]
    simp [Action.completes, Entry.endsWith, Entry.dispatchCompletion, Awaiter.entry, hmodel]
  | primary hsub hk hm =>
    simp [Action.completes, Entry.endsWith, Entry.dispatchCompletion, Awaiter.entry, hk, hm,
      hsub.split, completionModelFor, SplitReleaseLifecycle.recordLogicalResult,
      SplitReleaseLifecycle.markPhysicalTerminal]
  | notification hrec =>
    have hf : CompletionEvent.notification _ = true := hf
    simp [Action.completes, Entry.endsWith, Entry.dispatchCompletion, Awaiter.entry, hrec.kind,
      hrec.split, hf, completionModelFor, SplitReleaseLifecycle.markPhysicalTerminal]

theorem answers_recorded {x : Lane} (ht : t.Holding x n) {e : CompletionEvent} {p : PoolAnswer}
    (hk : (x.awaiters n).op.kind = .sendZeroCopyComplete) :
    (t.observe d n s (.cqe d n e p) s').Answers ((x.awaiters n).recordedWith x.timedOut e) := by
  refine ⟨e, p, t.expired, by simp [Tally.observe, Action.primary], ?_⟩
  rw [Awaiter.awaitResume_of_sendZeroCopy
    (a := (x.awaiters n).recordedWith x.timedOut e) hk rfl, ht.expired]
  show some (Awaiter.sizeResult e.result x.timedOut) =
    some (outcome (x.awaiters n).op.kind e p x.timedOut)
  unfold outcome
  cases x.timedOut <;> simp [hk, Awaiter.sizeResult]

theorem Ends.answers {x : Lane} {b : Awaiter}
    (h : Ends x n a d b sent) (ht : t.Holding x n) (hs : x.Stage n) :
    (t.observe d n s a s').Answers b := by
  cases h with
  | single hsub hd hk =>
    rename_i e p
    refine ⟨e, p, t.expired, by simp [Tally.observe, Action.primary], ?_⟩
    rw [Awaiter.completedWith_awaitResume, ht.expired]
    show _ = some (outcome (x.awaiters n).op.kind e p x.timedOut)
    unfold outcome
    cases x.timedOut <;> simp [recvCopyOutcome, Awaiter.sizeResult]
  | primary hsub hk hm => exact answers_recorded ht hk
  | notification hrec => exact (ht.answers (hs.primaries_of_recorded hrec)).congr rfl rfl rfl

theorem holding_observe (ht : t.Holding (s.lanes d) n) (h : s.Sound) (hs : Steps s a s')
    (hp : (s.lanes d).pending = some n) (hp' : (s'.lanes d).pending = some n)
    (hnew : ∀ m ∈ (s'.lanes d).primaries, m ∈ (s.lanes d).primaries)
    (hexp : (s.lanes d).timedOut = true → (s'.lanes d).timedOut = true)
    (hprim : (if (a.primary d n).isSome then 1 else 0) + (s'.lanes d).primaries.length =
      (s.lanes d).primaries.length)
    (hterm : ((if (s.lanes d).primaryTerminal then 1 else 0) +
      if (a.completes d n).any ((s.lanes d).awaiters n).entry.endsWith then 1 else 0) =
      if (s'.lanes d).primaryTerminal then 1 else 0)
    (hdec : ((a.completes d n).any fun e =>
        (((s.lanes d).awaiters n).entry.dispatchCompletion e false).decrementInflight) =
      (a.completes d n).any ((s.lanes d).awaiters n).entry.endsWith)
    (hcancels : (if (s.lanes d).cancelSubmitted then 1 else 0) +
      ((s'.lanes d).cancels - (s.lanes d).cancels) = if (s'.lanes d).cancelSubmitted then 1 else 0)
    (hans : ((if (s.lanes d).cancelTerminal then 1 else 0) +
      if a.answersCancel d then 1 else 0) = if (s'.lanes d).cancelTerminal then 1 else 0)
    (hanswers : (s'.lanes d).primaries = [] →
      (t.observe d n s a s').Answers ((s'.lanes d).awaiters n)) :
    (t.observe d n s a s').Holding (s'.lanes d) n where
  submitted := by
    show t.submitted + _ = 1
    rw [if_neg (fun hx => hx.2 (hnew n hx.1)), ht.submitted]
  expired := by
    show (t.expired || _) = _
    rw [ht.expired, ((h.step hs).lane d).target.trans hp']
    cases hx : (s.lanes d).timedOut with
    | false => simp
    | true => simp [hexp hx]
  primaries := by
    have := ht.primaries
    show t.primaries + _ + _ = 1
    omega
  terminals := by
    show t.terminals + _ = _
    rw [ht.terminals, hterm]
  decrements := by
    show t.decrements + _ = t.terminals + _
    rw [ht.decrements, hdec]
  cancels := by
    show t.cancels + _ = _
    rw [if_pos ((h.lane d).target.trans hp), ht.cancels, hcancels]
  cancelAnswers := by
    show t.cancelAnswers + _ = _
    rw [ht.cancelAnswers, ← hans]
    simp [(h.lane d).target.trans hp]
  finalized := by
    have hrel := (((h.step hs).lane d).stage n hp').2.releaseAuthorized
    show t.finalized + _ = 0
    rw [ht.finalized, if_neg (by rw [hrel]; simp)]
  scheduled := by
    have hlink : ¬Links s s' d n := fun hx => by
      rw [(links_pending h hs hx).2] at hp'
      cases hp'
    show t.scheduled + _ = 0
    rw [ht.scheduled, if_neg hlink]
  answers := hanswers

theorem over_of_holding (ht : t.Holding (s.lanes d) n) (hsound : (s.lanes d).Sound d)
    (hp : (s.lanes d).pending = some n)
    (hrel : ((s'.lanes d).awaiters n).releaseAuthorized = true)
    (hnew : (s'.lanes d).primaries = [])
    (hprim : (if (a.primary d n).isSome then 1 else 0) = (s.lanes d).primaries.length)
    (hterm : ((if (s.lanes d).primaryTerminal then 1 else 0) +
      if (a.completes d n).any ((s.lanes d).awaiters n).entry.endsWith then 1 else 0) = 1)
    (hdec : ((a.completes d n).any fun e =>
        (((s.lanes d).awaiters n).entry.dispatchCompletion e false).decrementInflight) =
      (a.completes d n).any ((s.lanes d).awaiters n).entry.endsWith)
    (hcancels : (s'.lanes d).cancels = 0)
    (hans : ((if (s.lanes d).cancelTerminal then 1 else 0) +
      if a.answersCancel d then 1 else 0) = if (s.lanes d).cancelSubmitted then 1 else 0)
    (hanswers : (t.observe d n s a s').Answers ((s'.lanes d).awaiters n)) :
    (t.observe d n s a s').Over ((s'.lanes d).awaiters n) := by
  have htarget : (s.lanes d).target = some n := hsound.target.trans hp
  obtain ⟨hlt, hstage⟩ := hsound.stage n hp
  have hcancels : (t.observe d n s a s').cancels = t.cancels := by
    show t.cancels + _ = _
    rw [if_pos htarget, hcancels, Nat.zero_sub, Nat.add_zero]
  have hone : t.cancels ≤ 1 := by
    rw [ht.cancels]
    split_ifs <;> omega
  constructor
  · show t.submitted + _ = 1
    rw [hnew, ht.submitted]
    simp
  · show t.primaries + _ = 1
    rw [hprim, ht.primaries]
  · show t.terminals + _ = 1
    rw [ht.terminals, hterm]
  · show t.decrements + _ = 1
    rw [ht.decrements, ht.terminals, hdec, hterm]
  · rw [hcancels, ht.cancels, ← hans, ← ht.cancelAnswers]
    show t.cancelAnswers + _ = _
    simp [htarget]
  · rw [hcancels]
    exact hone
  · show t.finalized + _ = 1
    rw [ht.finalized, if_pos ⟨hlt, hstage.releaseAuthorized, hrel⟩]
  · show t.scheduled + _ ≤ 1
    rw [ht.scheduled]
    split_ifs <;> omega
  · exact hanswers

theorem holding_same (ht : t.Holding (s.lanes d) n) (h : s.Sound) (hs : Steps s a s')
    (hp : (s.lanes d).pending = some n) (hp' : (s'.lanes d).pending = some n)
    (htouch : a.touches d = false) (h1 : (s'.lanes d).primaries = (s.lanes d).primaries)
    (h2 : (s'.lanes d).timedOut = (s.lanes d).timedOut)
    (h3 : (s'.lanes d).primaryTerminal = (s.lanes d).primaryTerminal)
    (h4 : (s'.lanes d).cancelSubmitted = (s.lanes d).cancelSubmitted)
    (h5 : (s'.lanes d).cancelTerminal = (s.lanes d).cancelTerminal)
    (h6 : (s'.lanes d).cancels = (s.lanes d).cancels)
    (h7 : (s'.lanes d).awaiters n = (s.lanes d).awaiters n) :
    (t.observe d n s a s').Holding (s'.lanes d) n := by
  have hnone := Action.completes_of_touches (n := n) htouch
  have hprim := Action.primary_of_completes hnone
  refine holding_observe ht h hs hp hp' (fun m hm => by rwa [h1] at hm)
    (fun hx => by rwa [h2]) (by simp [hprim, h1]) (by simp [hnone, h3]) (by simp [hnone])
    (by simp [h4, h6]) (by simp [h5, Action.answersCancel_of_touches htouch]) fun hx => ?_
  refine (ht.answers (by rw [← h1]; exact hx)).congr ?_ (by rw [h7]) (by rw [h7])
  simp [Tally.observe, hprim]

end Stream

end Alyrn.Uring
