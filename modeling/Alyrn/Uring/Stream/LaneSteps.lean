import Alyrn.Uring.Stream.Steps

/-!
# The steps of a lane

The steps of a stream as one of its lanes sees them.
-/

namespace Alyrn.Uring

open Function

namespace Stream

variable {s s' : Stream} {a : Action} {d : Dir} {n : ℕ} {buffer : List UInt8} {kind : OpKind}

def Action.touches : Action → Dir → Bool
  | .cqe d _ _ _, d' | .cancelCqe d _, d' | .fire d _ _, d' => d = d'
  | .notification _ _, d' => d' = .write
  | _, _ => false

def Action.answersCancel (a : Action) (d : Dir) : Bool :=
  match a with
  | .cancelCqe d' _ => d' = d
  | _ => false

inductive LaneStep (s : Stream) (a : Action) (d : Dir) (s' : Stream) : Prop where
  | same : a.touches d = false → s'.lanes d = s.lanes d → LaneStep s a d s'
  | refused {kind : OpKind} {buffer : List UInt8} {b : Awaiter} {r : Except Error ℕ} :
      a.starts = some (d, kind, buffer) → b.op.kind = kind →
      s'.lanes d = (s.lanes d).refused b r → LaneStep s a d s'
  | undone {kind : OpKind} {buffer : List UInt8} {b : Awaiter} {e : Error} {G K : ℕ} :
      a.starts = some (d, kind, buffer) → b.op.kind = kind → (s.lanes d).pending = none →
      s'.lanes d = (s.lanes d).undone b e G K → LaneStep s a d s'
  | suspended {kind : OpKind} {buffer : List UInt8} {b : Awaiter} {G : ℕ} {T : Option ℕ}
      {L : List Timer} {K : ℕ} :
      a.starts = some (d, kind, buffer) → b.op.kind = kind → b.buffer = buffer →
      b.Submitted (s.lanes d).started → (s.lanes d).pending = none →
      s'.lanes d = (s.lanes d).suspended b G T L K → LaneStep s a d s'
  | deadline {D : Option ℕ} {ok : Bool} : a.sets d = true →
      s'.lanes d = ((s.lanes d).setDeadline D s.shared.now ok).2 → LaneStep s a d s'
  | fired {t : Timer} {ans : Lane.TimerAnswers} {stop : Bool} : a = .fire d t ans →
      t ∈ (s.lanes d).timers → (s.lanes d).fire t s.shared.now ans = some (stop, s'.lanes d) →
      (stop = true → s'.shared.loopState.isStopping = true) → LaneStep s a d s'
  | ended {n : ℕ} {b : Awaiter} {sent : List (ℕ × List UInt8)} :
      (s.lanes d).pending = some n → (s.lanes d).primaryTerminal = false →
      (s.lanes d).cancelInFlight = false → Ends (s.lanes d) n a d b sent →
      s'.lanes d = ((s.lanes d).relieved sent).ended n b.released.scheduled
        ((s.lanes d).timerGeneration + 2) → LaneStep s a d s'
  | awaiting {n : ℕ} {b : Awaiter} {sent : List (ℕ × List UInt8)} :
      (s.lanes d).pending = some n → (s.lanes d).primaryTerminal = false →
      (s.lanes d).cancelInFlight = true → Ends (s.lanes d) n a d b sent →
      s'.lanes d = ((s.lanes d).relieved sent).awaitingCancel n b
        ((s.lanes d).timerGeneration + 1) → LaneStep s a d s'
  | recorded {n : ℕ} {e : CompletionEvent} {p : PoolAnswer} : d = .write → a = .cqe d n e p →
      (s.lanes d).pending = some n → (s.lanes d).primaryTerminal = false →
      ((s.lanes d).awaiters n).Submitted n →
      ((s.lanes d).awaiters n).op.kind = .sendZeroCopyComplete → e.more = true →
      s'.lanes d = (s.lanes d).recorded n
        (((s.lanes d).awaiters n).recordedWith (s.lanes d).timedOut e)
        ((s.lanes d).sent ++ [(n, ((s.lanes d).awaiters n).buffer.take e.result.toNat)]) →
      LaneStep s a d s'
  | answered {result : ℤ} : a = .cancelCqe d result → (s.lanes d).primaryTerminal = false →
      (s.lanes d).cancelInFlight = true → s'.lanes d = (s.lanes d).cancelDone result →
      LaneStep s a d s'
  | finished {result : ℤ} {n : ℕ} : a = .cancelCqe d result → (s.lanes d).pending = some n →
      (s.lanes d).primaryTerminal = true → (s.lanes d).cancelInFlight = true →
      ((s.lanes d).awaiters n).Settled →
      s'.lanes d = ((s.lanes d).cancelDone result).ended n ((s.lanes d).awaiters n).released
        ((s.lanes d).timerGeneration + 1) → LaneStep s a d s'
  | returned {w : Work} {q : WorkQueues Work} {m : ℕ} {r : Except Error ℕ} : a = .runNext →
      s.shared.queues.next = some (w, q) → s.carries w = some (d, m) →
      ((s.lanes d).awaiters m).awaitResume = some r →
      s'.lanes d = { s.lanes d with results := (s.lanes d).results ++ [(m, r)] } →
      LaneStep s a d s'

theorem Action.touches_of_starts
    (h : a.starts = some (d, kind, buffer)) (d' : Dir) : a.touches d' = false := by
  cases a <;> first | rfl | cases h

theorem Ends.touches {x : Lane} {b : Awaiter} {sent : List (ℕ × List UInt8)}
    (h : Ends x n a d b sent) {d' : Dir} (hd : d' ≠ d) : a.touches d' = false := by
  cases h with
  | single | primary => simp [Action.touches, hd.symm]
  | notification => simp [Action.touches, hd]

theorem Action.touches_of_quiet (h : a.quiet = true) (d : Dir) : a.touches d = false := by
  cases a <;> first | rfl | cases h

theorem Action.touches_of_sets (h : a.sets d = true) (d' : Dir) : a.touches d' = false := by
  cases a <;> first | rfl | cases h

theorem Starts.lane {d' : Dir}
    (ha : a.starts = some (d', kind, buffer)) (hs : Starts s d' kind buffer s') (d : Dir) :
    LaneStep s a d s' := by
  by_cases hd : d = d'
  · subst hd
    cases hs with
    | refused hb => exact .refused ha hb setLane_self
    | released hb hp => exact .refused ha hb conclude_self
    | undone hb hp => exact .undone ha hb hp conclude_self
    | suspended hb hbuf hsub hv hp hdue ht =>
      exact .suspended ha hb hbuf hsub hp setLane_self
  · refine .same (Action.touches_of_starts ha d) ?_
    cases hs with
    | refused | suspended => exact setLane_of_ne hd
    | released | undone => exact conclude_of_ne hd

theorem Resumes.lane {w : Work} {q : WorkQueues Work} (hq : s.shared.queues.next = some (w, q))
    (hr : Resumes (s.setQueues q) w s') (d : Dir) : LaneStep s .runNext d s' := by
  cases hr with
  | failed _ | close _ _ _ | other _ => exact .same rfl rfl
  | operation hc hres =>
    rename_i d' m r
    by_cases hd : d = d'
    · subst hd
      exact .returned rfl hq (by cases w <;> exact hc) hres (update_self ..)
    · exact .same rfl (update_of_ne hd ..)

theorem Steps.lane (hs : Steps s a s') (d : Dir) : LaneStep s a d s' := by
  cases hs with
  | quiet hq _ => exact .same (Action.touches_of_quiet hq d) rfl
  | destroyed _ _ | closeAnswered _ _ | closes _ _ => exact .same rfl rfl
  | started ha hk hd hstart => exact hstart.lane ha d
  | deadlines hsets hL =>
    rcases hL d with heq | ⟨hd, D, ok, heq⟩
    · obtain ⟨d', hd'⟩ := hsets
      exact .same (Action.touches_of_sets hd' d) heq
    · exact .deadline hd heq
  | fired ht hfire =>
    rename_i d' t ans stop y
    by_cases hd : d = d'
    · subst hd
      have hself : ({ s.setLane d y with
          shared := if stop then s.shared.requestStop else s.shared } : Stream).lanes d = y :=
        update_self ..
      refine .fired rfl ht (by rw [hfire, hself]) fun hstop => ?_
      show (if stop then s.shared.requestStop else s.shared).loopState.isStopping = true
      rw [hstop, if_pos rfl]
      show s.shared.loopState.requestStop.isStopping = true
      cases s.shared.loopState <;> rfl
    · exact .same (by simp [Action.touches, Ne.symm hd]) (update_of_ne hd ..)
  | settled hp hterm he =>
    rename_i d' n b sent
    have hfly : ((s.lanes d').relieved sent).cancelInFlight = (s.lanes d').cancelInFlight := rfl
    cases hc : (s.lanes d').cancelInFlight with
    | true =>
      have heq : ((s.setLane d' ((s.lanes d').relieved sent)).settle d' n b).drains.lanes =
          (s.setLane d' (((s.lanes d').relieved sent).awaitingCancel n b
            ((s.lanes d').timerGeneration + 1))).lanes := by
        unfold settle
        dsimp only
        rw [setLane_self, hfly, hc, if_pos rfl, setLane_setLane]
        rfl
      by_cases hd : d = d'
      · subst hd
        exact .awaiting hp hterm hc he (by rw [heq, setLane_self])
      · exact .same (he.touches hd) (by rw [heq, setLane_of_ne hd])
    | false =>
      have heq : ((s.setLane d' ((s.lanes d').relieved sent)).settle d' n b).drains.lanes =
          (s.conclude d' (((s.lanes d').relieved sent).ended n b.released.scheduled
            ((s.lanes d').timerGeneration + 2))).lanes := by
        unfold settle
        dsimp only
        rw [setLane_self, hfly, hc, if_neg (by simp), setLane_conclude]
        rfl
      by_cases hd : d = d'
      · subst hd
        exact .ended hp hterm hc he (by rw [heq, conclude_self])
      · exact .same (he.touches hd) (by rw [heq, conclude_of_ne hd])
  | recorded hp hterm hsub hk hm =>
    by_cases hd : d = .write
    · subst hd
      exact .recorded rfl rfl hp hterm hsub hk hm (by rw [drains_lanes, setLane_self])
    · exact .same (by simp [Action.touches, Ne.symm hd]) (update_of_ne hd ..)
  | answered hterm hc =>
    rename_i d' result
    by_cases hd : d = d'
    · subst hd
      exact .answered rfl hterm hc (update_self ..)
    · exact .same (by simp [Action.touches, Ne.symm hd]) (update_of_ne hd ..)
  | finished hp hterm hc hset =>
    rename_i d' result n
    by_cases hd : d = d'
    · subst hd
      exact .finished rfl hp hterm hc hset (update_self ..)
    · exact .same (by simp [Action.touches, Ne.symm hd]) (update_of_ne hd ..)
  | resumed hq hr => exact hr.lane hq d

theorem Steps.starts_inv (hs : Steps s a s')
    (ha : a.starts = some (d, kind, buffer)) : s.destroyed = false ∧ Starts s d kind buffer s' := by
  cases hs with
  | quiet hq _ => cases a <;> first | (cases ha; done) | cases hq
  | destroyed _ _ | fired _ _ | recorded | answered | finished | closeAnswered | closes _ _
  | resumed _ _ => cases ha
  | started ha' _ hd hstart =>
    rw [ha] at ha'
    cases ha'
    exact ⟨hd, hstart⟩
  | deadlines hx _ =>
    obtain ⟨d, hd⟩ := hx
    cases a <;> first | (cases ha; done) | cases hd
  | settled _ _ he => cases he <;> cases ha

theorem settle_destroyed {b : Awaiter} : (s.settle d n b).destroyed = s.destroyed := by
  unfold settle
  dsimp only
  split_ifs <;> rfl

theorem Steps.destroyed_eq (hs : Steps s a s') : s'.destroyed = s.destroyed ∨ a = .destroy := by
  cases hs with
  | destroyed _ _ => exact .inr rfl
  | started _ _ _ hstart => exact .inl (by cases hstart <;> rfl)
  | settled _ _ _ => exact .inl settle_destroyed
  | resumed hq hr => exact .inl (by cases hr <;> rfl)
  | _ => exact .inl rfl

theorem Steps.of_destroy (hs : Steps s .destroy s') :
    s.destructible = true ∧ s.destroyed = false ∧ s' = { s with destroyed := true } := by
  cases hs with
  | quiet hq _ => cases hq
  | started hx _ _ _ => cases hx
  | deadlines hx _ =>
    obtain ⟨d, hd⟩ := hx
    cases hd
  | settled _ _ he => cases he
  | destroyed hfree hd => exact ⟨hfree, hd, rfl⟩

end Stream

end Alyrn.Uring
