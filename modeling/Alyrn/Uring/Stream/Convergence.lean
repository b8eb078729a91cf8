import Alyrn.Uring.Stream.Tally

/-!
# The convergence of an operation

For every order of its completions, the expiry of its deadline and the answer to its cancel request
the finalizer of an operation runs exactly once, after the last completion that the kernel owes and
after the answer to a cancel request; and what the call returns is decided by the primary completion
and by whether the expiry had been observed by then (`Tally.Converges`).
-/

namespace Alyrn.Uring

open Transition Function

/-- The convergence of an operation of lane `x`. -/
structure Tally.Converges (t : Tally) (x : Lane) (n : ℕ) : Prop where
  /-- The finalizer runs once, when the request has ended in the kernel and a cancel request is
  answered. -/
  finalized : t.finalized =
    if t.submitted = 1 ∧ t.terminals = 1 ∧ t.cancelAnswers = t.cancels then 1 else 0
  primary : t.terminals ≤ t.primaries ∧ t.primaries ≤ t.submitted ∧ t.submitted ≤ 1
  cancelled : t.cancelAnswers ≤ t.cancels ∧ t.cancels ≤ 1
  /-- The slot is free when the continuation is scheduled. -/
  scheduled : t.scheduled ≤ t.finalized
  released : 0 < t.finalized → x.pending ≠ some n ∧ x.target ≠ some n
  /-- Without an operation in the lane its bookkeeping is reset. -/
  reset : x.pending = none → x.target = none ∧ x.Idle ∧ x.timers = [] ∧ x.cancels = 0
  /-- A call that was submitted returns what its primary completion decides. -/
  result : ∀ r, (n, r) ∈ x.results → 0 < t.submitted →
    ∃ e p expired, t.completion = some (e, p, expired) ∧
      r = outcome (x.awaiters n).op.kind e p expired

namespace Stream

variable {s s' : Stream} {a : Action} {d : Dir} {n : ℕ} {t : Tally} {sent : List (ℕ × List UInt8)}
  {b : Awaiter}

/-! ## Steps of the operation that holds the slot -/

theorem Ends.primaries {x : Lane} (h : Ends x n a d b sent) (hs : x.Stage n) :
    (if (a.primary d n).isSome then 1 else 0) = x.primaries.length := by
  cases h with
  | single hsub _ _ | primary hsub _ _ => simp [Action.primary, hs.primaries_of_submitted hsub]
  | notification hrec => simp [Action.primary, hs.primaries_of_recorded hrec]

theorem Ends.answersCancel {x : Lane} (h : Ends x n a d b sent) : a.answersCancel d = false := by
  cases h <;> rfl

section Holding

variable (ht : t.Holding (s.lanes d) n) (h : s.Sound) (hp : (s.lanes d).pending = some n)

include ht h hp

theorem holding_deadline {D : Option ℕ} {ok : Bool} (hs : Steps s a s') (hsets : a.sets d = true)
    (heq : s'.lanes d = ((s.lanes d).setDeadline D s.shared.now ok).2) :
    (s'.lanes d).pending = some n ∧ (t.observe d n s a s').Holding (s'.lanes d) n := by
  have hops := (h.lane d).timed.setDeadline_sameOps D s.shared.now ok
  rw [← heq] at hops
  have hp' := hops.pending.trans hp
  have hflags : (s'.lanes d).timedOut = (s.lanes d).timedOut ∧
      (s'.lanes d).cancelSubmitted = (s.lanes d).cancelSubmitted ∧
      (s'.lanes d).cancels = (s.lanes d).cancels := by
    rw [heq]
    obtain ⟨G, heq' | ⟨-, -, expiration, heq'⟩⟩ :=
      (h.lane d).timed.setDeadline_eq D s.shared.now ok
    · rw [heq']
      exact ⟨rfl, rfl, rfl⟩
    · rw [heq']
      exact ⟨rfl, rfl, rfl⟩
  exact ⟨hp', holding_same ht h hs hp hp' (Action.touches_of_sets hsets d) hops.primaries
    hflags.1 hops.primaryTerminal hflags.2.1 hops.cancelTerminal hflags.2.2
    (by rw [hops.awaiters])⟩

theorem holding_fired {tm : Timer} {ans : Lane.TimerAnswers} {stop : Bool}
    (hs : Steps s (.fire d tm ans) s') (hmem : tm ∈ (s.lanes d).timers)
    (hfire : (s.lanes d).fire tm s.shared.now ans = some (stop, s'.lanes d)) :
    (s'.lanes d).pending = some n ∧
      (t.observe d n s (.fire d tm ans) s').Holding (s'.lanes d) n := by
  have hl := (h.lane d).toProtocol
  have hops := hl.fire_sameOps hmem hfire
  have hp' := hops.pending.trans hp
  have hflags : ((s.lanes d).timedOut = true → (s'.lanes d).timedOut = true) ∧
      (if (s.lanes d).cancelSubmitted then 1 else 0) +
        ((s'.lanes d).cancels - (s.lanes d).cancels) =
        if (s'.lanes d).cancelSubmitted then 1 else 0 := by
    rcases hl.fire_cases hmem s.shared.now ans with
      ⟨-, heq⟩ | ⟨⟨-, -, hsub⟩, ⟨-, heq⟩ | ⟨-, -, heq⟩ | ⟨-, -, heq⟩⟩
    all_goals
      rw [hfire] at heq
      obtain ⟨-, hlane⟩ := Prod.ext_iff.mp (Option.some.inj heq)
      dsimp only at hlane
      rw [hlane]
    · exact ⟨fun hx => hx, by simp⟩
    · exact ⟨fun _ => rfl, by simp [hsub]⟩
    · exact ⟨fun _ => rfl, congrArg (_ + ·) (Nat.sub_self _)⟩
    · exact ⟨fun _ => rfl, congrArg (_ + ·) (Nat.sub_self _)⟩
  refine ⟨hp', holding_observe ht h hs hp hp' (fun m hm => by rwa [hops.primaries] at hm) hflags.1
    (by simp [Action.primary, hops.primaries])
    (by simp [Action.completes, hops.primaryTerminal]) rfl hflags.2
    (by simp [Action.answersCancel, hops.cancelTerminal]) fun hx => ?_⟩
  rw [hops.awaiters]
  exact (ht.answers (by rw [← hops.primaries]; exact hx)).congr rfl rfl rfl

theorem over_ended {G : ℕ} (hf : a.flagged)
    (hterm : (s.lanes d).primaryTerminal = false) (hfly : (s.lanes d).cancelInFlight = false)
    (he : Ends (s.lanes d) n a d b sent)
    (heq : s'.lanes d = ((s.lanes d).relieved sent).ended n b.released.scheduled G) :
    (s'.lanes d).pending = none ∧ (t.observe d n s a s').Over ((s'.lanes d).awaiters n) := by
  have hl := h.lane d
  have hstage := (hl.stage n hp).2
  have hself : (s'.lanes d).awaiters n = b.released.scheduled := by
    rw [heq]
    exact update_self ..
  refine ⟨by rw [heq]; rfl, over_of_holding ht hl hp ?_ (by rw [heq]; rfl)
    (he.primaries hstage) (by simp [hterm, (he.terminal hf).1])
    ((he.terminal hf).2.trans (he.terminal hf).1.symm)
    (by rw [heq]; exact hl.cancels_eq_zero hfly) ?_ ?_⟩
  · rw [hself]
    exact Awaiter.scheduled_releaseAuthorized b.released_releaseAuthorized
  · rw [he.answersCancel]
    have hsub := hl.submitted
    simp only [Lane.cancelInFlight] at hfly
    cases hx : (s.lanes d).cancelSubmitted <;> cases hy : (s.lanes d).cancelTerminal <;>
      simp_all
  · rw [hself]
    exact (he.answers ht hstage).congr rfl (by simp) (by simp)

theorem holding_awaiting {G : ℕ} (hs : Steps s a s')
    (hf : a.flagged) (hterm : (s.lanes d).primaryTerminal = false)
    (he : Ends (s.lanes d) n a d b sent)
    (heq : s'.lanes d = ((s.lanes d).relieved sent).awaitingCancel n b G) :
    (s'.lanes d).pending = some n ∧ (t.observe d n s a s').Holding (s'.lanes d) n := by
  have hstage := ((h.lane d).stage n hp).2
  have hself : (s'.lanes d).awaiters n = { b with op := { b.op with handle := none } } := by
    rw [heq]
    exact update_self ..
  have hp' : (s'.lanes d).pending = some n := by rw [heq]; exact hp
  refine ⟨hp', holding_observe ht h hs hp hp'
    (fun k hk => by rw [heq] at hk; cases hk) (fun hx => by rw [heq]; exact hx)
    (by rw [heq, he.primaries hstage]; rfl)
    (by rw [heq, hterm, (he.terminal hf).1]; rfl)
    ((he.terminal hf).2.trans (he.terminal hf).1.symm)
    (by rw [heq]; exact congrArg (_ + ·) (Nat.sub_self _))
    (by rw [heq, he.answersCancel]; rfl) fun _ => ?_⟩
  rw [hself]
  exact (he.answers ht hstage).congr rfl rfl rfl

theorem holding_recorded {e : CompletionEvent} {p : PoolAnswer}
    (hs : Steps s (.cqe d n e p) s') (hf : e.notification = false)
    (hsub : ((s.lanes d).awaiters n).Submitted n)
    (hk : ((s.lanes d).awaiters n).op.kind = .sendZeroCopyComplete) (hm : e.more = true)
    (heq : s'.lanes d = (s.lanes d).recorded n
      (((s.lanes d).awaiters n).recordedWith (s.lanes d).timedOut e) sent) :
    (s'.lanes d).pending = some n ∧
      (t.observe d n s (.cqe d n e p) s').Holding (s'.lanes d) n := by
  have hself : (s'.lanes d).awaiters n =
      ((s.lanes d).awaiters n).recordedWith (s.lanes d).timedOut e := by
    rw [heq]
    exact update_self ..
  have hp' : (s'.lanes d).pending = some n := by rw [heq]; exact hp
  have hprim := ((h.lane d).stage n hp).2.primaries_of_submitted hsub
  have hends : ((Action.cqe d n e p).completes d n).any
      ((s.lanes d).awaiters n).entry.endsWith = false := by
    simp [Action.completes, Entry.endsWith, Awaiter.entry, hk, hm, hf, completionModelFor]
  refine ⟨hp', holding_observe ht h hs hp hp'
    (fun k hk => by rw [heq] at hk; cases hk) (fun hx => by rw [heq]; exact hx)
    (by rw [heq, hprim]; simp [Action.primary, Lane.recorded])
    (by rw [heq, hends]; rfl) ?_
    (by rw [heq]; exact congrArg (_ + ·) (Nat.sub_self _)) (by rw [heq]; rfl) fun _ => ?_⟩
  · rw [hends]
    simp [Action.completes, Entry.dispatchCompletion, Awaiter.entry, hk, hm, hf, hsub.split,
      completionModelFor, SplitReleaseLifecycle.recordLogicalResult]
  · rw [hself]
    exact answers_recorded ht hk

theorem holding_answered {result : ℤ} (hs : Steps s (.cancelCqe d result) s')
    (hfly : (s.lanes d).cancelInFlight = true) (heq : s'.lanes d = (s.lanes d).cancelDone result) :
    (s'.lanes d).pending = some n ∧
      (t.observe d n s (.cancelCqe d result) s').Holding (s'.lanes d) n := by
  have hp' : (s'.lanes d).pending = some n := by rw [heq]; exact hp
  have hct : (s.lanes d).cancelTerminal = false := by
    have := (Bool.and_eq_true_iff.mp hfly).2
    simpa using this
  refine ⟨hp', holding_observe ht h hs hp hp' (fun m hm => by rwa [heq] at hm)
    (fun hx => by rw [heq]; exact hx)
    (by rw [heq]; simp [Action.primary, Lane.cancelDone, Lane.cancelAnswered])
    (by rw [heq]; rfl) rfl (by rw [heq]; exact congrArg (_ + ·) (Nat.zero_sub _))
    (by rw [heq]; simp [Action.answersCancel, Lane.cancelDone, Lane.cancelAnswered, hct])
    fun hx => ?_⟩
  rw [heq] at hx ⊢
  exact (ht.answers hx).congr rfl rfl rfl

theorem over_finished {result : ℤ} {G : ℕ} (hterm : (s.lanes d).primaryTerminal = true)
    (hfly : (s.lanes d).cancelInFlight = true)
    (heq : s'.lanes d = ((s.lanes d).cancelDone result).ended n
      ((s.lanes d).awaiters n).released G) :
    (s'.lanes d).pending = none ∧
      (t.observe d n s (.cancelCqe d result) s').Over ((s'.lanes d).awaiters n) := by
  have hself : (s'.lanes d).awaiters n = ((s.lanes d).awaiters n).released := by
    rw [heq]
    exact update_self ..
  have hprim := ((h.lane d).stage n hp).2.primaries_of_terminal hterm
  obtain ⟨hcs, hct⟩ := Bool.and_eq_true_iff.mp hfly
  have hct : (s.lanes d).cancelTerminal = false := by simpa using hct
  refine ⟨by rw [heq]; rfl, over_of_holding ht (h.lane d) hp ?_ (by rw [heq]; exact hprim)
    (by simp [hprim, Action.primary]) (by simp [hterm, Action.completes]) rfl
    (by rw [heq]; rfl) (by simp [hcs, hct, Action.answersCancel]) ?_⟩
  · rw [hself]
    exact Awaiter.released_releaseAuthorized _
  · rw [hself]
    exact (ht.answers hprim).congr rfl (by simp) (by simp)

theorem holding_step (hs : Steps s a s') (hf : a.flagged) :
    (s'.lanes d).pending = some n ∧ (t.observe d n s a s').Holding (s'.lanes d) n ∨
    (s'.lanes d).pending = none ∧ (t.observe d n s a s').Over ((s'.lanes d).awaiters n) := by
  have hlt := ((h.lane d).stage n hp).1
  have hnone (hx : (s.lanes d).pending = none) : False := by rw [hp] at hx; cases hx
  have hsame {m : ℕ} (hpend : (s.lanes d).pending = some m) : m = n :=
    Option.some.inj (hpend.symm.trans hp)
  cases hs.lane d with
  | same htouch heq =>
    have hp' : (s'.lanes d).pending = some n := by rw [heq]; exact hp
    exact .inl ⟨hp', holding_same ht h hs hp hp' htouch (by rw [heq]) (by rw [heq]) (by rw [heq])
      (by rw [heq]) (by rw [heq]) (by rw [heq]) (by rw [heq])⟩
  | refused hstart hb heq =>
    have hp' : (s'.lanes d).pending = some n := by rw [heq]; exact hp
    refine .inl ⟨hp', holding_same ht h hs hp hp' (Action.touches_of_starts hstart d)
      (by rw [heq]; rfl) (by rw [heq]; rfl) (by rw [heq]; rfl) (by rw [heq]; rfl)
      (by rw [heq]; rfl) (by rw [heq]; rfl) ?_⟩
    rw [heq]
    exact update_of_ne (Nat.ne_of_lt hlt) ..
  | undone _ _ hx _ | suspended _ _ _ _ hx _ => exact (hnone hx).elim
  | deadline hsets heq => exact .inl (holding_deadline ht h hp hs hsets heq)
  | fired ha hmem hfire hstop =>
    subst ha
    exact .inl (holding_fired ht h hp hs hmem hfire)
  | ended hpend hterm hfly he heq =>
    obtain rfl := hsame hpend
    exact .inr (over_ended ht h hp hf hterm hfly he heq)
  | awaiting hpend hterm hfly he heq =>
    obtain rfl := hsame hpend
    exact .inl (holding_awaiting ht h hp hs hf hterm he heq)
  | recorded hd ha hpend hterm hsub hk hm heq =>
    obtain rfl := hsame hpend
    subst ha
    exact .inl (holding_recorded ht h hp hs hf hsub hk hm heq)
  | answered ha hterm hfly heq =>
    subst ha
    exact .inl (holding_answered ht h hp hs hfly heq)
  | finished ha hpend hterm hfly hset heq =>
    obtain rfl := hsame hpend
    subst ha
    exact .inr (over_finished ht h hp hterm hfly heq)
  | returned ha _ _ _ heq =>
    have hp' : (s'.lanes d).pending = some n := by rw [heq]; exact hp
    exact .inl ⟨hp', holding_same ht h hs hp hp' (by rw [ha]; rfl) (by rw [heq]) (by rw [heq])
      (by rw [heq]) (by rw [heq]) (by rw [heq]) (by rw [heq]) (by rw [heq])⟩

end Holding

theorem holding_of_suspended {G K : ℕ} {P : Option ℕ} {L : List Timer} (h : s.Sound)
    (hs : Steps s a s') (ht : t = {}) (htouch : a.touches d = false)
    (hp : (s.lanes d).pending = none)
    (heq : s'.lanes d = (s.lanes d).suspended b G P L K) :
    (t.observe d (s.lanes d).started s a s').Holding (s'.lanes d) (s.lanes d).started := by
  have hidle := (h.lane d).idle hp
  have hnone := Action.completes_of_touches (n := (s.lanes d).started) htouch
  have hlink : ¬Links s s' d (s.lanes d).started := by
    intro hx
    rw [(links_pending h hs hx).1] at hp
    cases hp
  have htarget : (s.lanes d).target ≠ some (s.lanes d).started := by
    rw [(h.lane d).target, hp]
    simp
  subst ht
  constructor
  · show 0 + _ = 1
    rw [if_pos ⟨by rw [heq]; exact List.mem_singleton_self _, by rw [hidle.primaries]; simp⟩]
  · show (false || (decide ((s'.lanes d).target = some (s.lanes d).started) &&
      (s'.lanes d).timedOut)) = (s'.lanes d).timedOut
    rw [show (s'.lanes d).target = some (s.lanes d).started by rw [heq]; rfl]
    simp
  · show 0 + _ + _ = 1
    rw [Action.primary_of_completes hnone, heq]
    rfl
  · show 0 + _ = _
    rw [hnone, heq]
    show 0 = if (s.lanes d).primaryTerminal then 1 else 0
    rw [hidle.primaryTerminal]
    rfl
  · show 0 + _ = 0 + _
    rw [hnone]
    rfl
  · show 0 + _ = _
    rw [if_neg htarget, heq]
    show 0 = if (s.lanes d).cancelSubmitted then 1 else 0
    rw [hidle.cancelSubmitted]
    rfl
  · show 0 + _ = _
    rw [if_neg (fun hx => htarget hx.1), heq]
    show 0 = if (s.lanes d).cancelTerminal then 1 else 0
    rw [hidle.cancelTerminal]
    rfl
  · show 0 + _ = 0
    rw [if_neg (fun hx => Nat.lt_irrefl _ hx.1)]
  · show 0 + _ = 0
    rw [if_neg hlink]
  · intro hx
    rw [heq] at hx
    cases hx

/-! ## Whole runs -/

structure Tallied (x : Lane) (n : ℕ) (t : Tally) : Prop where
  fresh : x.started ≤ n → t = {}
  holding : x.pending = some n → t.Holding x n
  gone : n < x.started → x.pending ≠ some n → t = {} ∨ t.Over (x.awaiters n)
  returned : ∀ r, (n, r) ∈ x.results → n < x.started ∧
    (x.pending = some n → x.primaryTerminal = true) ∧
    (t ≠ {} → (x.awaiters n).awaitResume = some r)

theorem Tallied.step (h : s.Sound) (hc : s.Carrying) (hs : Steps s a s') (hf : a.flagged)
    (ht : Tallied (s.lanes d) n t) : Tallied (s'.lanes d) n (t.observe d n s a s') := by
  have hl := h.lane d
  have hl' := (h.step hs).lane d
  have hstarted := (hs.lane d).started_le hl
  -- what a step makes of the tally
  obtain ⟨hfresh, hholding, hover⟩ : ((s'.lanes d).started ≤ n → t.observe d n s a s' = {}) ∧
      ((s'.lanes d).pending = some n → (t.observe d n s a s').Holding (s'.lanes d) n) ∧
      (n < (s'.lanes d).started → (s'.lanes d).pending ≠ some n →
        t.observe d n s a s' = {} ∨ (t.observe d n s a s').Over ((s'.lanes d).awaiters n)) := by
    by_cases hp : (s.lanes d).pending = some n
    · have hlt := Nat.lt_of_lt_of_le (hl.stage n hp).1 hstarted
      rcases holding_step (ht.holding hp) h hp hs hf with ⟨hp', hh⟩ | ⟨hp', ho⟩
      · exact ⟨fun hx => absurd hlt (Nat.not_lt.mpr hx), fun _ => hh, fun _ hx => absurd hp' hx⟩
      · have hne : (s'.lanes d).pending ≠ some n := by rw [hp']; simp
        exact ⟨fun hx => absurd hlt (Nat.not_lt.mpr hx), fun hx => absurd hx hne,
          fun _ _ => .inr ho⟩
    · by_cases hp' : (s'.lanes d).pending = some n
      · obtain ⟨rfl, hnone, ⟨kind, buffer, hstart⟩, b, G, T, L, K, heq⟩ :=
          (hs.lane d).taken hl hp hp'
        have hlt : (s.lanes d).started < (s'.lanes d).started := (hl'.stage _ hp').1
        exact ⟨fun hx => absurd hlt (Nat.not_lt.mpr hx),
          fun _ => holding_of_suspended h hs (ht.fresh (Nat.le_refl _))
            (Action.touches_of_starts hstart d) hnone heq,
          fun _ hx => absurd hp' hx⟩
      · rw [observe_other h hs hp hp']
        refine ⟨fun hx => ht.fresh (Nat.le_trans hstarted hx), fun hx => absurd hx hp',
          fun _ _ => ?_⟩
        by_cases hlt : n < (s.lanes d).started
        · rw [((hs.lane d).past hl hlt hp).1]
          exact ht.gone hlt hp
        · exact .inl (ht.fresh (Nat.not_lt.mp hlt))
  refine ⟨hfresh, hholding, hover, fun r hr => ?_⟩
  rcases (hs.lane d).results hl hr with hold | ⟨hn, hlt, hne⟩ | ⟨w, q, hq, hcar, hres, heq⟩
  · obtain ⟨h1, h2, h3⟩ := ht.returned r hold
    refine ⟨Nat.lt_of_lt_of_le h1 hstarted, fun hp' => ?_, fun hne => ?_⟩
    · by_cases hp : (s.lanes d).pending = some n
      · rcases (hs.lane d).terminal hl hp (h2 hp) with hx | ⟨-, hx⟩
        · rw [hx] at hp'; cases hp'
        · exact hx
      · exact absurd hp' ((hs.lane d).past hl h1 hp).2.1
    · rw [(hs.lane d).awaitResume hl h1 h2]
      refine h3 fun hx => hne ?_
      have hp : (s.lanes d).pending ≠ some n := by
        intro hp
        have := (ht.holding hp).submitted
        rw [hx] at this
        cases this
      rw [observe_other h hs hp ((hs.lane d).past hl h1 hp).2.1, hx]
  · -- a call that has returned at once was never submitted
    refine ⟨hlt, fun hp' => absurd hp' hne, fun hx => absurd ?_ hx⟩
    have hp : (s.lanes d).pending ≠ some n := by
      rw [hn]
      exact fun hx => Nat.lt_irrefl _ (hl.stage _ hx).1
    rw [observe_other h hs hp hne]
    exact ht.fresh (Nat.le_of_eq hn.symm)
  · have hmem : w ∈ s.shared.works := (Shared.works_perm_of_next hq).mem_iff.mpr (by simp)
    obtain ⟨h1, h2⟩ := hc.carries hmem hcar
    rw [heq]
    exact ⟨h1, h2, fun _ => hres⟩

variable {p : Stream × (Dir → ℕ → Tally)}

theorem reaches_of_tallied (h : tallied.Reaches p) :
    system.Reaches p.1 :=
  System.ReachesBy.of_withHistory (C := fun _ _ => True) h

theorem tallied_of_reaches (h : tallied.Reaches p) (d : Dir)
    (n : ℕ) : Tallied (p.1.lanes d) n (p.2 d n) := by
  refine System.ReachesBy.invariant_withHistory (I := fun s T => Tallied (s.lanes d) n (T d n))
    (J := fun s => s.Sound ∧ s.Carrying)
    (fun s hs => ⟨sound_of_reaches hs, carrying_of_reaches hs⟩) ?_ ?_ h
  · rintro s ⟨closeResult, zeroCopy, now, rfl⟩
    exact ⟨fun _ => rfl, nofun, fun hx => absurd hx (Nat.not_lt_zero n),
      fun r hx => (by cases hx)⟩
  · intro s a s' T hJ hI _ hstep
    exact hI.step hJ.1 hJ.2 (hJ.1.steps hstep).2 (flagged_of_step hstep)

theorem converges_of_tallied {x : Lane} (ht : Tallied x n t) (hl : x.Sound d) :
    t.Converges x n := by
  have hreset (hp : x.pending = none) : x.target = none ∧ x.Idle ∧ x.timers = [] ∧ x.cancels = 0 :=
    ⟨hl.target.trans hp, hl.idle hp, hl.timers_eq_nil hp,
      hl.cancels_eq_zero (hl.idle hp).cancelInFlight⟩
  by_cases hp : x.pending = some n
  · have hh := ht.holding hp
    have hone : t.cancelAnswers ≤ t.cancels ∧ t.cancels ≤ 1 := by
      rw [hh.cancelAnswers, hh.cancels]
      have := hl.submitted
      cases hx : x.cancelTerminal <;> cases hy : x.cancelSubmitted <;> simp_all
    have hprim := hh.primaries
    obtain ⟨hlt, hstage⟩ := hl.stage n hp
    have hterm : t.terminals ≤ t.primaries := by
      rw [hh.terminals]
      cases hstage with
      | submitted g _ _ _ | recorded g _ _ _ => rw [g]; exact Nat.zero_le _
      | settled g g' _ _ =>
        rw [g'] at hprim
        rw [g, if_pos rfl]
        exact Nat.le_of_eq hprim.symm
    refine ⟨?_, ⟨hterm, ?_, Nat.le_of_eq hh.submitted⟩, hone, ?_, ?_, hreset, ?_⟩
    · -- the kernel has not ended the request, or the cancel request is unanswered
      rw [if_neg ?_, hh.finalized]
      rintro ⟨-, hone, heq⟩
      have hpt : x.primaryTerminal = true := by
        by_contra hx
        rw [hh.terminals, if_neg hx] at hone
        cases hone
      obtain ⟨hcs, hct⟩ := Bool.and_eq_true_iff.mp (hl.waiting hpt)
      rw [hh.cancelAnswers, hh.cancels, hcs, if_neg (by simpa using hct)] at heq
      cases heq
    · rw [hh.submitted]
      omega
    · rw [hh.scheduled]
      exact Nat.zero_le _
    · intro hx
      rw [hh.finalized] at hx
      cases hx
    · intro r hr _
      obtain ⟨-, hpt, hres⟩ := ht.returned r hr
      obtain ⟨e, q, c, hc, hb⟩ := hh.answers (hstage.primaries_of_terminal (hpt hp))
      refine ⟨e, q, c, hc, ?_⟩
      have hne : t ≠ {} := by
        rintro rfl
        cases hh.submitted
      exact Option.some.inj ((hres hne).symm.trans hb)
  · have htarget : x.target ≠ some n := by rw [hl.target]; exact hp
    have hcases : t = {} ∨ t.Over (x.awaiters n) := by
      by_cases hlt : n < x.started
      · exact ht.gone hlt hp
      · exact .inl (ht.fresh (Nat.not_lt.mp hlt))
    rcases hcases with rfl | ho
    · exact ⟨rfl, ⟨Nat.le_refl _, Nat.le_refl _, Nat.zero_le _⟩, ⟨Nat.le_refl _, Nat.zero_le _⟩,
        Nat.le_refl _, fun _ => ⟨hp, htarget⟩, hreset, fun r _ hx => absurd hx (Nat.lt_irrefl 0)⟩
    · refine ⟨?_, ⟨?_, ?_, Nat.le_of_eq ho.submitted⟩, ⟨Nat.le_of_eq ho.answered, ho.cancels⟩, ?_,
        fun _ => ⟨hp, htarget⟩, hreset, ?_⟩
      · rw [if_pos ⟨ho.submitted, ho.terminals, ho.answered⟩, ho.finalized]
      · exact Nat.le_of_eq (ho.terminals.trans ho.primaries.symm)
      · exact Nat.le_of_eq (ho.primaries.trans ho.submitted.symm)
      · rw [ho.finalized]
        exact ho.scheduled
      · intro r hr _
        obtain ⟨e, q, c, hc, hb⟩ := ho.answers
        refine ⟨e, q, c, hc, ?_⟩
        have hne : t ≠ {} := by
          rintro rfl
          cases ho.submitted
        exact Option.some.inj (((ht.returned r hr).2.2 hne).symm.trans hb)

/-- **Deadline convergence.** In every run, whatever the order of completions, expiries, cancel
requests and calls, every operation of a lane converges. -/
theorem deadline_converges {p : Stream × (Dir → ℕ → Tally)} (h : tallied.Reaches p) (d : Dir)
    (n : ℕ) : (p.2 d n).Converges (p.1.lanes d) n :=
  converges_of_tallied (tallied_of_reaches h d n)
    ((sound_of_reaches (reaches_of_tallied h)).lane d)

/-- A read whose deadline expires while the kernel holds it, with its cancel request answered after
its own completion. -/
theorem deadline_converges_expired :
    ∃ p, (tallied.Reaches p ∧ (p.2 .read 0).cancels = 1 ∧ (p.2 .read 0).finalized = 1 ∧
      (p.1.lanes .read).results = [(0, .error ETIMEDOUT)]) ∧
      (p.2 .read 0).Converges (p.1.lanes .read) 0 :=
  tallied.exists_reachesBy_and _ (make (.ok ()) false 0, fun _ _ => {}) ⟨⟨_, _, _, rfl⟩, rfl⟩
    [.setReadDeadline (some 10) true, .read 100 {}, .advanceClock 10,
      .fire .read ⟨0, 10, .deadline, 2⟩ {}, .advance, .advance, .cqe .read 0 ⟨-125, 0⟩ {}, .advance,
      .cancelCqe .read 0, .runNext] (by decide) fun _ hr _ => deadline_converges hr .read 0

/-- A read without a deadline reports a timeout, because the kernel completes it with one: to have
observed an expiry is not the only way to this result. -/
theorem timeout_without_expiry :
    ¬ ∀ p, tallied.Reaches p → ∀ d n r, (n, r) ∈ (p.1.lanes d).results →
      ∀ e q expired, (p.2 d n).completion = some (e, q, expired) →
        (r = .error ETIMEDOUT ↔ expired = true) ∧
        (expired = false → r = Awaiter.sizeResult e.result false) := by
  intro hall
  obtain ⟨p, hr, hc, hres⟩ := tallied.exists_reachesBy (fun _ _ => True)
    (make (.ok ()) false 0, fun _ _ => {}) ⟨⟨_, _, _, rfl⟩, rfl⟩
    [.read 100 {}, .advance, .advance, .cqe .read 0 ⟨-110, 0⟩ {}, .runNext]
    (P := fun p => (p.2 .read 0).completion = some (⟨-110, 0⟩, {}, false) ∧
      (p.1.lanes .read).results = [(0, .error ETIMEDOUT)]) (by decide)
  have hmem : (0, .error ETIMEDOUT) ∈ (p.1.lanes .read).results := by rw [hres]; simp
  have hexp := (hall p hr .read 0 _ hmem _ _ _ hc).1.mp rfl
  cases hexp

end Stream

end Alyrn.Uring
