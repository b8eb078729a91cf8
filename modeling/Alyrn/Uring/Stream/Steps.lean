import Alyrn.Uring.Stream.Closing
import Alyrn.Uring.Stream.Sound

/-!
# The steps of a stream

What each step does to the lanes and to the part they share, said once (`Stream.Steps`), and that
every reachable stream follows its protocols (`Stream.sound_of_reaches`). A call, a completion or
a timer callback never fails a check; only the resumption of a work can, when its continuation was
taken away.
-/

namespace Alyrn.Uring

open Function Transition

namespace Stream

variable {s s' : Stream} {d : Dir} {n : ℕ}

/-- The kind and the buffer of the operation that an action starts, with its lane. -/
def Action.starts : Action → Option (Dir × OpKind × List UInt8)
  | .read _ _ => some (.read, .readComplete, [])
  | .recv _ _ => some (.read, .recvComplete, [])
  | .recvCopy _ _ => some (.read, .recvCopyComplete, [])
  | .send buffer _ => some (.write, .writeComplete, buffer)
  | .sendZeroCopy buffer _ => some (.write, .sendZeroCopyComplete, buffer)
  | _ => none

def Action.sets : Action → Dir → Bool
  | .setReadDeadline _ _, .read | .setWriteDeadline _ _, .write | .setDeadline _ _ _, _ => true
  | _, _ => false

def Action.quiet : Action → Bool
  | .setZeroCopyWritesEnabled _ | .closeRead _ | .closeWrite _ | .schedule _ _ | .requestStop
  | .callbacks | .advanceClock _ | .beginTurn | .advance | .flushFailed => true
  | _ => false

inductive Ends (x : Lane) (n : ℕ) : Action → Dir → Awaiter → List (ℕ × List UInt8) → Prop where
  | single {d : Dir} {e : CompletionEvent} {p : PoolAnswer} : (x.awaiters n).Submitted n →
      d.hosts (x.awaiters n).op.kind = true → (x.awaiters n).op.kind ≠ .sendZeroCopyComplete →
      Ends x n (.cqe d n e p) d ((x.awaiters n).completedWith x.timedOut e p)
        (x.sent ++ [(n, (x.awaiters n).buffer.take e.result.toNat)])
  | primary {e : CompletionEvent} {p : PoolAnswer} : (x.awaiters n).Submitted n →
      (x.awaiters n).op.kind = .sendZeroCopyComplete → e.more = false →
      Ends x n (.cqe .write n e p) .write ((x.awaiters n).recordedWith x.timedOut e)
        (x.sent ++ [(n, (x.awaiters n).buffer.take e.result.toNat)])
  | notification {e : CompletionEvent} : (x.awaiters n).Recorded n →
      Ends x n (.notification n e) .write ((x.awaiters n).notifiedWith e) x.sent

def drains (s : Stream) : Stream := { s with shared := s.shared.drains }

def scheduleCompletion (s : Stream) (w : Work) : Stream :=
  { s with shared := s.shared.scheduleCompletion w }

def carries (s : Stream) : Work → Option (Dir × ℕ)
  | .op d n => ((s.lanes d).awaiters n).op.handle.map fun m => (d, m)
  | .cancel d => (s.lanes d).cancelOp.handle.map fun m => (d, m)
  | .close _ | .other _ => none

inductive Resumes (s : Stream) (w : Work) : Stream → Prop where
  | failed : s.runWork w = none → Resumes s w { s with aborted := true }
  | operation {d : Dir} {m : ℕ} {r : Except Error ℕ} : s.carries w = some (d, m) →
      ((s.lanes d).awaiters m).awaitResume = some r →
      Resumes s w (s.setLane d { s.lanes d with results := (s.lanes d).results ++ [(m, r)] })
  | close {k m : ℕ} {r : Except Error Unit} : w = .close k →
      (s.shared.closers k).op.handle = some m → (s.shared.closers m).result = some r →
      Resumes s w { s with shared := { s.shared with
        closeResults := s.shared.closeResults ++ [(m, r)] } }
  | other {i : ℕ} : w = .other i → Resumes s w s

@[simp] theorem drains_lanes : s.drains.lanes = s.lanes := rfl

@[simp] theorem scheduleCompletion_lanes {w : Work} : (s.scheduleCompletion w).lanes = s.lanes :=
  rfl

/-- The steps of a sound stream. -/
inductive Steps (s : Stream) : Action → Stream → Prop where
  | quiet {a : Action} {h : Shared} : a.quiet = true → s.shared.Quiet h →
      Steps s a { s with shared := h }
  | destroyed : s.destructible = true → s.destroyed = false →
      Steps s .destroy { s with destroyed := true }
  | started {a : Action} {d : Dir} {kind : OpKind} {buffer : List UInt8} {s' : Stream} :
      a.starts = some (d, kind, buffer) → d.hosts kind = true → s.destroyed = false →
      Starts s d kind buffer s' → Steps s a s'
  | deadlines {a : Action} {L : Dir → Lane} : (∃ d, a.sets d = true) →
      (∀ d, L d = s.lanes d ∨ a.sets d = true ∧
        ∃ D ok, L d = ((s.lanes d).setDeadline D s.shared.now ok).2) →
      Steps s a { s with lanes := L }
  | fired {d : Dir} {t : Timer} {ans : Lane.TimerAnswers} {stop : Bool} {y : Lane} :
      t ∈ (s.lanes d).timers → (s.lanes d).fire t s.shared.now ans = some (stop, y) →
      Steps s (.fire d t ans)
        { s.setLane d y with shared := if stop then s.shared.requestStop else s.shared }
  | settled {a : Action} {d : Dir} {n : ℕ} {b : Awaiter} {sent : List (ℕ × List UInt8)} :
      (s.lanes d).pending = some n → (s.lanes d).primaryTerminal = false →
      Ends (s.lanes d) n a d b sent →
      Steps s a ((s.setLane d ((s.lanes d).relieved sent)).settle d n b).drains
  | recorded {n : ℕ} {e : CompletionEvent} {p : PoolAnswer} :
      (s.lanes .write).pending = some n → (s.lanes .write).primaryTerminal = false →
      ((s.lanes .write).awaiters n).Submitted n →
      ((s.lanes .write).awaiters n).op.kind = .sendZeroCopyComplete → e.more = true →
      Steps s (.cqe .write n e p) (s.setLane .write ((s.lanes .write).recorded n
        (((s.lanes .write).awaiters n).recordedWith (s.lanes .write).timedOut e)
        ((s.lanes .write).sent ++
          [(n, ((s.lanes .write).awaiters n).buffer.take e.result.toNat)]))).drains
  | answered {d : Dir} {result : ℤ} : (s.lanes d).primaryTerminal = false →
      (s.lanes d).cancelInFlight = true →
      Steps s (.cancelCqe d result) (s.setLane d ((s.lanes d).cancelDone result)).drains
  | finished {d : Dir} {result : ℤ} {n : ℕ} : (s.lanes d).pending = some n →
      (s.lanes d).primaryTerminal = true → (s.lanes d).cancelInFlight = true →
      ((s.lanes d).awaiters n).Settled →
      Steps s (.cancelCqe d result) ((s.conclude d (((s.lanes d).cancelDone result).ended n
        ((s.lanes d).awaiters n).released ((s.lanes d).timerGeneration + 1))).scheduleCompletion
          (.cancel d)).drains
  | closeAnswered {k : ℕ} {result : ℤ} : s.shared.pendingClose = some k →
      (s.shared.closers k).convergence.cancelRequestTerminal = false →
      Steps s (.closeCqe k result)
        ({ s with shared := s.shared.closeAnswered k result }.notifyCloseProgress).drains
  | closes {submit : Option Error} {h : Shared} : s.destroyed = false → Closes s submit h →
      Steps s (.close submit) { s with shared := h }
  | resumed {w : Work} {q : WorkQueues Work} {s' : Stream} :
      s.shared.queues.next = some (w, q) → Resumes (s.setQueues q) w s' → Steps s .runNext s'

/-- The invariant of a run. -/
structure Sound (s : Stream) : Prop where
  lane : ∀ d, (s.lanes d).Sound d
  closing : s.Closing

/-! ### Inversion -/

theorem call_eq {t : Stream} (h : s.call (some t) = some s') : s.destroyed = false ∧ s' = t := by
  unfold call at h
  split_ifs at h with hg
  exact ⟨hg.2, (Option.some.inj h).symm⟩

theorem completion_eq {t : Stream} (h : s.completion (some t) = some s') : s' = t.drains := by
  unfold completion at h
  split_ifs at h
  exact (Option.some.inj h).symm

theorem quiet_of_lifecycle {l : Net.StreamLifecycle}
    (hl : l.resource = s.shared.lifecycle.resource) :
    s.shared.Quiet { s.shared with lifecycle := l } :=
  ⟨rfl, hl, rfl, rfl, rfl, rfl, rfl, fun hx => hx, fun _ _ => rfl⟩

theorem closeRead_quiet (shutdown : Option Error) :
    ∃ h, s.closeRead shutdown = some { s with shared := h } ∧ s.shared.Quiet h := by
  unfold closeRead
  by_cases hfd : (!s.shared.fdOpen) = true
  · rw [if_pos hfd]
    exact ⟨_, rfl, quiet_of_lifecycle rfl⟩
  · rw [if_neg hfd]
    cases hpc : s.shared.lifecycle.prepareCloseRead (s.lanes .read).pending.isSome with
    | error e => exact ⟨_, rfl, quiet_of_lifecycle rfl⟩
    | ok q =>
      obtain ⟨fresh, l⟩ := q
      cases fresh with
      | false => exact ⟨_, rfl, quiet_of_lifecycle rfl⟩
      | true =>
        obtain ⟨hopen, rfl⟩ := Net.StreamLifecycle.prepareCloseRead_fresh hpc
        cases shutdown with
        | none =>
          refine ⟨_, ?_, quiet_of_lifecycle (l := { s.shared.lifecycle with read := .shutdown })
            rfl⟩
          simp [Net.StreamLifecycle.commitCloseRead, hopen]
        | some e =>
          refine ⟨_, ?_, quiet_of_lifecycle (l := { s.shared.lifecycle with read := .usable }) rfl⟩
          simp [Net.StreamLifecycle.abortCloseReadPreparation, hopen]

theorem closeWrite_quiet (shutdown : Option Error) :
    ∃ h, s.closeWrite shutdown = some { s with shared := h } ∧ s.shared.Quiet h := by
  unfold closeWrite
  by_cases hfd : (!s.shared.fdOpen) = true
  · rw [if_pos hfd]
    exact ⟨_, rfl, quiet_of_lifecycle rfl⟩
  · rw [if_neg hfd]
    cases hpc : s.shared.lifecycle.prepareShutdown (s.lanes .write).pending.isSome with
    | error e => exact ⟨_, rfl, quiet_of_lifecycle rfl⟩
    | ok q =>
      obtain ⟨fresh, l⟩ := q
      cases fresh with
      | false => exact ⟨_, rfl, quiet_of_lifecycle rfl⟩
      | true =>
        obtain ⟨hopen, rfl⟩ := Net.StreamLifecycle.prepareShutdown_fresh hpc
        cases shutdown with
        | none =>
          refine ⟨_, ?_, quiet_of_lifecycle (l := { s.shared.lifecycle with write := .shutdown })
            rfl⟩
          simp [Net.StreamLifecycle.commitShutdown, hopen]
        | some e =>
          refine ⟨_, ?_, quiet_of_lifecycle (l := { s.shared.lifecycle with write := .usable }) rfl⟩
          simp [Net.StreamLifecycle.abortShutdownPreparation, hopen]

theorem Sound.cqe (h : s.Sound) {e : CompletionEvent} {p : PoolAnswer}
    (hs : step (.cqe d n e p) s = some s') (ha : s.aborted = false) :
    Steps s (.cqe d n e p) s' := by
  have hl := h.lane d
  simp only [step, ha, Bool.false_eq_true, if_false, Option.bind_eq_bind] at hs
  obtain ⟨t, ht, hs⟩ := Option.bind_eq_some_iff.mp hs
  obtain ⟨⟨hmem, hnot, -⟩, ht⟩ := Option.ite_none_right_eq_some.mp ht
  -- the operation is in its first stage
  obtain ⟨hp, hterm, hprim, hnotif, hsub⟩ : (s.lanes d).pending = some n ∧
      (s.lanes d).primaryTerminal = false ∧ (s.lanes d).primaries = [n] ∧
      (s.lanes d).notifications = [] ∧ ((s.lanes d).awaiters n).Submitted n := by
    cases hp : (s.lanes d).pending with
    | none => rw [(hl.idle hp).primaries] at hmem; cases hmem
    | some m =>
      cases (hl.stage m hp).2 with
      | submitted h1 h2 h3 h4 =>
        rw [h2, List.mem_singleton] at hmem
        subst hmem
        exact ⟨rfl, h1, h2, h3, h4⟩
      | recorded h1 h2 h3 h4 | settled h1 h2 h3 h4 => rw [h2] at hmem; cases hmem
  have hd := hl.hosts n (hl.stage n hp).1
  have ht := (Option.some.inj ht).symm
  simp only [hprim, List.erase_cons_head, hnotif, List.nil_append] at ht
  set sent := (s.lanes d).sent ++ [(n, ((s.lanes d).awaiters n).buffer.take e.result.toNat)]
  by_cases hk : ((s.lanes d).awaiters n).op.kind = .sendZeroCopyComplete
  · obtain rfl : d = .write := by
      rw [hk] at hd
      cases d
      · cases hd
      · rfl
    have hkind : ((t.lanes .write).awaiters n).op.kind = .sendZeroCopyComplete := by
      rw [ht, setLane_self]
      exact hk
    rw [handleCqe, if_pos hkind, handleSendZeroCopy_primary
      (by rw [ht, setLane_self]; exact hl.target.trans hp) (by rw [ht, setLane_self]; exact hp)
      (by rw [ht, setLane_self]; exact hsub) hkind
      (by rw [ht, setLane_self]; exact ⟨hl.timed.ids, hl.timed.live, hl.timed.retry⟩) hnot] at hs
    have hs := completion_eq hs
    cases hm : e.more with
    | true =>
      rw [hs, hm, if_pos rfl, ht, setLane_self, setLane_setLane, hm, if_pos ⟨hk, rfl⟩]
      exact .recorded hp hterm hsub hk hm
    | false =>
      rw [hs, hm, if_neg (by simp), ht, setLane_self, hm, if_neg (by simp)]
      exact .settled hp hterm (.primary hsub hk hm)
  · rw [if_neg (by simp [hk])] at ht
    have ht' : t = s.setLane d ((s.lanes d).relieved sent) := ht
    have hkind : ((t.lanes d).awaiters n).op.kind ≠ .sendZeroCopyComplete := by
      rw [ht', setLane_self]
      exact hk
    rw [handleCqe, if_neg hkind, handleSingleShot_eq
      (by rw [ht', setLane_self]; exact hl.target.trans hp) (by rw [ht', setLane_self]; exact hp)
      (by rw [ht', setLane_self]; exact hsub)
      (by rw [ht', setLane_self]; exact hd) hkind
      (by rw [ht', setLane_self]; exact ⟨hl.timed.ids, hl.timed.live, hl.timed.retry⟩)] at hs
    rw [completion_eq hs, ht', setLane_self]
    exact .settled hp hterm (.single hsub hd hk)

theorem Sound.notification (h : s.Sound) {e : CompletionEvent}
    (hs : step (.notification n e) s = some s') (ha : s.aborted = false) :
    Steps s (.notification n e) s' := by
  have hl := h.lane .write
  simp only [step, ha, Bool.false_eq_true, if_false] at hs
  split_ifs at hs with hg
  obtain ⟨hmem, hnot⟩ := hg
  obtain ⟨hp, hterm, hprim, hnotif, hrec⟩ : (s.lanes .write).pending = some n ∧
      (s.lanes .write).primaryTerminal = false ∧ (s.lanes .write).primaries = [] ∧
      (s.lanes .write).notifications = [n] ∧ ((s.lanes .write).awaiters n).Recorded n := by
    cases hp : (s.lanes .write).pending with
    | none => rw [(hl.idle hp).notifications] at hmem; cases hmem
    | some m =>
      cases (hl.stage m hp).2 with
      | submitted h1 h2 h3 h4 | settled h1 h2 h3 h4 => rw [h3] at hmem; cases hmem
      | recorded h1 h2 h3 h4 =>
        rw [h3, List.mem_singleton] at hmem
        subst hmem
        exact ⟨rfl, h1, h2, h3, h4⟩
  have hlane : ({ s.lanes .write with
      notifications := (s.lanes .write).notifications.erase n } : Lane) =
      (s.lanes .write).relieved (s.lanes .write).sent := by
    simp [Lane.relieved, hprim, hnotif]
  rw [hlane] at hs
  have hkind : (((s.setLane .write ((s.lanes .write).relieved (s.lanes .write).sent)).lanes
      .write).awaiters n).op.kind = .sendZeroCopyComplete := by
    rw [setLane_self]
    exact hrec.kind
  rw [handleCqe, if_pos hkind, handleSendZeroCopy_notification
    (by rw [setLane_self]; exact hl.target.trans hp) (by rw [setLane_self]; exact hp)
    (by rw [setLane_self]; exact hrec)
    (by rw [setLane_self]; exact ⟨hl.timed.ids, hl.timed.live, hl.timed.retry⟩) hnot] at hs
  rw [completion_eq hs, setLane_self]
  exact .settled hp hterm (.notification hrec)

theorem Sound.cancelCqe (h : s.Sound) {result : ℤ}
    (hs : step (.cancelCqe d result) s = some s') (ha : s.aborted = false) :
    Steps s (.cancelCqe d result) s' := by
  have hl := h.lane d
  simp only [step, ha, Bool.false_eq_true, if_false] at hs
  split_ifs at hs with hg
  have hc : (s.lanes d).cancelInFlight = true := by
    by_contra hx
    rw [hl.cancels_eq_zero (by simpa using hx)] at hg
    exact absurd hg (by simp)
  have hone : (s.lanes d).cancels - 1 = 0 := by rw [hl.cancels, if_pos hc]
  rw [hone] at hs
  obtain ⟨n, hp⟩ : ∃ n, (s.lanes d).pending = some n := by
    rw [← Option.isSome_iff_exists]
    by_contra hx
    rw [(hl.idle (by simpa using hx)).cancelInFlight] at hc
    cases hc
  have hset : (s.lanes d).primaryTerminal = true → ((s.lanes d).awaiters n).Settled := by
    intro hterm
    cases (hl.stage n hp).2 with
    | submitted h1 h2 h3 h4 | recorded h1 h2 h3 h4 => rw [hterm] at h1; cases h1
    | settled h1 h2 h3 h4 => exact h4
  rw [handleCancelCqe_eq (n := n) (by rw [setLane_self]; exact hc)
    (by rw [setLane_self]; exact hl.cancelOp hc) (by rw [setLane_self]; exact hl.cancelKind) result
    (by rw [setLane_self]; exact fun hterm => ⟨hl.target.trans hp, hp, hset hterm⟩)
    (by rw [setLane_self]; exact ⟨hl.timed.ids, hl.timed.live, hl.timed.retry⟩)] at hs
  rw [completion_eq hs]
  simp only [setLane_self, setLane_setLane, setLane_conclude]
  have hlane : Lane.cancelAnswered { s.lanes d with cancels := 0 } result =
      (s.lanes d).cancelDone result := rfl
  rw [hlane]
  cases hterm : (s.lanes d).primaryTerminal with
  | false =>
    have hterm' : ¬ ((s.lanes d).cancelDone result).primaryTerminal = true := by
      simp [Lane.cancelDone, Lane.cancelAnswered, hterm]
    rw [if_neg hterm']
    exact .answered hterm hc
  | true =>
    have hhandle : ((s.lanes d).cancelDone result).cancelOp.handle = some n := hl.carried n hp hterm
    have hterm' : ((s.lanes d).cancelDone result).primaryTerminal = true := hterm
    rw [if_pos hterm', hhandle, if_pos (by rfl)]
    exact .finished hp hterm hc (hset hterm)

theorem Sound.closeCqe (h : s.Sound) {k : ℕ} {result : ℤ}
    (hs : step (.closeCqe k result) s = some s') (ha : s.aborted = false) :
    Steps s (.closeCqe k result) s' := by
  rw [step, if_neg (by simp [ha])] at hs
  obtain ⟨hmem, hs⟩ := Option.ite_none_right_eq_some.mp hs
  have hc := h.closing
  -- only the pending close has a request in flight
  obtain ⟨hp, hterm⟩ : s.shared.pendingClose = some k ∧
      (s.shared.closers k).convergence.cancelRequestTerminal = false := by
    cases hp : s.shared.pendingClose with
    | none => rw [(hc.idle hp).1] at hmem; cases hmem
    | some j =>
      have hreq := hc.request j hp
      cases hj : (s.shared.closers j).convergence.cancelRequestTerminal with
      | true => rw [hreq, hj] at hmem; cases hmem
      | false =>
        rw [hreq, hj] at hmem
        obtain rfl : k = j := by simpa using hmem
        exact ⟨rfl, hj⟩
  have hw := (hc.waiting k hp).2.2
  obtain ⟨hcompleted, hresult⟩ := hw.unanswered hterm
  have hrec : (s.shared.closers k).op.recordCqe result =
      some { (s.shared.closers k).op with completed := true, result := some result } := by
    have hpub : cqeResultDirectlyPublishesLogicalResult (s.shared.closers k).op.kind = false := by
      rw [hw.kind]; rfl
    simp [Op.recordCqe, Op.setResult, hresult, hpub]
  have hhandle : ({ s with shared := { s.shared with
      closeRequests := s.shared.closeRequests.erase k } } : Stream).handleCloseCqe k result =
      some ({ s with shared := s.shared.closeAnswered k result } : Stream).notifyCloseProgress := by
    have hanswer := Shared.answer_eq (h := s.shared.closeAnswered k result) (k := k)
      s.operationsPending hp (by simp [Shared.closeAnswered, hw.attached])
      (by simp [Shared.closeAnswered, hw.completed]) (by simp [Shared.closeAnswered])
      (by simp [Shared.closeAnswered, hw.handle]) (by simp [Shared.closeAnswered, hw.continuation])
    unfold handleCloseCqe
    rw [if_neg (by simp [hcompleted])]
    simp only [hrec, Option.bind_eq_bind, Option.bind_some]
    exact congrArg (fun g => some { s with shared := g }) hanswer
  have hs : ({ s with shared := { s.shared with
      closeRequests := s.shared.closeRequests.erase k } } : Stream).completion (({ s with shared :=
        { s.shared with closeRequests := s.shared.closeRequests.erase k } } : Stream).handleCloseCqe
          k result) = some s' := hs
  rw [hhandle] at hs
  rw [completion_eq hs]
  exact .closeAnswered hp hterm

theorem setLaneDeadline_eq (d : Dir) (D : Option ℕ) (ok : Bool) :
    (s.setLaneDeadline d D ok).2 = s.setLane d ((s.lanes d).setDeadline D s.shared.now ok).2 := rfl

variable {a : Action} {x : Lane}

theorem deadlines_of_setLane (ha : a.sets d = true) (D : Option ℕ) (ok : Bool) :
    Steps s a (s.setLane d ((s.lanes d).setDeadline D s.shared.now ok).2) := by
  refine .deadlines ⟨d, ha⟩ fun d' => ?_
  by_cases hd : d' = d
  · subst hd
    exact .inr ⟨ha, D, ok, update_self ..⟩
  · exact .inl (update_of_ne hd ..)

theorem setDeadline_steps (D : Option ℕ) (r w : Bool) :
    Steps s (.setDeadline D r w) (s.setDeadline D r w).2 := by
  unfold setDeadline setReadDeadline setWriteDeadline
  rcases hr : s.setLaneDeadline .read D r with ⟨_ | u, t⟩
  · have ht : t = _ := (congrArg Prod.snd hr).symm
    rw [ht, setLaneDeadline_eq]
    exact deadlines_of_setLane rfl D r
  · have ht : t = _ := (congrArg Prod.snd hr).symm
    show Steps s _ (t.setLaneDeadline .write D w).2
    rw [setLaneDeadline_eq, ht, setLaneDeadline_eq]
    refine .deadlines ⟨.read, rfl⟩ fun d => ?_
    cases d with
    | read => exact .inr ⟨rfl, D, r, by simp [setLane]⟩
    | write => exact .inr ⟨rfl, D, w, by simp [setLane]⟩

theorem resumes_resumeOperation {w : Work} {m : ℕ} (hw : s.runWork w = s.resumeOperation d m)
    (hc : s.carries w = some (d, m)) : Resumes s w (s.orAbort (s.runWork w)) := by
  cases hr : ((s.lanes d).awaiters m).awaitResume with
  | none =>
    have hnone : s.runWork w = none := by simp [hw, resumeOperation, hr]
    rw [hnone]
    exact .failed hnone
  | some r =>
    have hsome : s.runWork w =
        some (s.setLane d { s.lanes d with results := (s.lanes d).results ++ [(m, r)] }) := by
      simp [hw, resumeOperation, hr, updateLane_eq]
    rw [hsome]
    exact .operation hc hr

theorem resumes_runWork (w : Work) : Resumes s w (s.orAbort (s.runWork w)) := by
  have hfailed (h : s.runWork w = none) : Resumes s w (s.orAbort (s.runWork w)) := by
    rw [h]
    exact .failed h
  cases w with
  | op d n =>
    cases hh : ((s.lanes d).awaiters n).op.handle with
    | none => exact hfailed (by simp [runWork, hh])
    | some m =>
      exact resumes_resumeOperation (d := d) (m := m) (by simp [runWork, hh])
        (by simp [carries, hh])
  | cancel d =>
    cases hd : s.destroyed with
    | true => exact hfailed (by simp [runWork, hd])
    | false =>
      cases hh : (s.lanes d).cancelOp.handle with
      | none => exact hfailed (by simp [runWork, hh])
      | some m =>
        exact resumes_resumeOperation (d := d) (m := m) (by simp [runWork, hd, hh])
          (by simp [carries, hh])
  | close k =>
    cases hh : (s.shared.closers k).op.handle with
    | none => exact hfailed (by simp [runWork, hh])
    | some m =>
      cases hr : (s.shared.closers m).result with
      | none => exact hfailed (by simp [runWork, resumeClose, hh, hr])
      | some r =>
        have hsome : s.runWork (.close k) = some { s with shared := { s.shared with
            closeResults := s.shared.closeResults ++ [(m, r)] } } := by
          simp [runWork, resumeClose, hh, hr]
        rw [hsome]
        exact .close rfl hh hr
  | other i => exact .other rfl

/-! ### The kinds of action -/

theorem started_steps {kind : OpKind} {buffer : List UInt8} {f : Option Stream}
    (ha : a.starts = some (d, kind, buffer)) (hk : d.hosts kind = true)
    (hf : ∃ t, f = some t ∧ Starts s d kind buffer t) (hs : s.call f = some s') : Steps s a s' := by
  obtain ⟨t, rfl, hstart⟩ := hf
  obtain ⟨hd, rfl⟩ := call_eq hs
  exact .started ha hk hd hstart

theorem quiet_steps {f : Option Stream} (ha : a.quiet = true)
    (hf : ∃ h, f = some { s with shared := h } ∧ s.shared.Quiet h) (hs : s.call f = some s') :
    Steps s a s' := by
  obtain ⟨h, rfl, hq⟩ := hf
  obtain ⟨-, rfl⟩ := call_eq hs
  exact .quiet ha hq

theorem setQueues_steps {q : WorkQueues Work} (ha : a.quiet = true)
    (hq : ∀ w, (∀ i, w ≠ .other i) →
      (q.completionReady ++ q.ready).count w = s.shared.works.count w) :
    Steps s a (s.setQueues q) := .quiet ha (.of_queues _ hq)

theorem schedule_steps (i : ℕ) (completion : Bool) : Steps s (.schedule i completion)
    (s.setQueues (if completion then s.shared.queues.scheduleCompletion (.other i)
      else s.shared.queues.schedule (.other i))) := by
  refine setQueues_steps rfl fun w hw => ?_
  have hne : Work.other i ≠ w := fun hx => hw i hx.symm
  cases completion with
  | true =>
    rw [if_pos rfl, WorkQueues.scheduleCompletion]
    split_ifs
    · rfl
    · simp [Shared.works, List.count_append, hne]
  | false =>
    rw [if_neg (by simp), WorkQueues.schedule]
    split_ifs
    · rfl
    · simp [Shared.works, List.count_append, hne]

theorem advance_steps {q : WorkQueues Work} (hq : s.shared.queues.advance = some q) :
    Steps s .advance (s.setQueues q) := by
  refine setQueues_steps rfl fun w _ => ?_
  unfold WorkQueues.advance at hq
  cases hturn : s.shared.queues.turn <;> rw [hturn] at hq <;> dsimp only at hq
  · cases hq
  · cases hq; rfl
  · split_ifs at hq
    cases hq; rfl
  · split_ifs at hq
    cases hq; rfl

theorem flushFailed_steps : Steps s .flushFailed
    { s.setQueues { s.shared.queues with turn := .poll } with
      shared := (s.setQueues { s.shared.queues with turn := .poll }).shared.requestStop } := by
  have hpoll : s.shared.Quiet { s.shared with
      queues := { s.shared.queues with turn := .poll } } := .of_queues _ fun _ _ => rfl
  exact .quiet rfl (hpoll.trans (.requestStop _))

theorem Sound.fires (h : s.Sound) {t : Timer} (ht : t ∈ (s.lanes d).timers)
    (ans : Lane.TimerAnswers) : Steps s (.fire d t ans)
      (s.orAbort (((s.lanes d).fire t s.shared.now ans).map fun (stop, x) =>
        let s := s.setLane d x
        if stop then { s with shared := s.shared.requestStop } else s)) := by
  obtain ⟨stop, y, hfire, -⟩ := (h.lane d).fire ht s.shared.now ans
  have hstep := Steps.fired ht hfire
  rw [hfire, Option.map_some]
  cases stop with
  | true | false => exact hstep

/-- **What a step does**: every action of a sound stream is one of the kinds above. -/
theorem Sound.steps (h : s.Sound) (hs : step a s = some s') :
    s.aborted = false ∧ Steps s a s' := by
  have ha : s.aborted = false := by
    by_contra hx
    rw [step.eq_def, if_pos (by simpa using hx)] at hs
    cases hs
  refine ⟨ha, ?_⟩
  have hread := (h.lane .read).toProtocol
  have hwrite := (h.lane .write).toProtocol
  have hs' := hs
  rw [step.eq_def, if_neg (by simp [ha])] at hs
  cases a with
  | read length ans =>
    obtain ⟨hans, hs⟩ := Option.ite_none_right_eq_some.mp hs
    exact started_steps rfl rfl (read_starts hread length hans) hs
  | recv reservation ans =>
    obtain ⟨hans, hs⟩ := Option.ite_none_right_eq_some.mp hs
    exact started_steps rfl rfl (recv_starts hread reservation hans) hs
  | recvCopy pool ans =>
    obtain ⟨⟨hans, hpool⟩, hs⟩ := Option.ite_none_right_eq_some.mp hs
    exact started_steps rfl rfl (recvCopy_starts hread hpool hans) hs
  | send buffer ans | sendZeroCopy buffer ans =>
    obtain ⟨hans, hs⟩ := Option.ite_none_right_eq_some.mp hs
    exact started_steps rfl rfl (startSend_starts hwrite (by decide) buffer hans) hs
  | setReadDeadline D ok | setWriteDeadline D ok =>
    obtain ⟨-, rfl⟩ := call_eq hs
    exact deadlines_of_setLane rfl D ok
  | setDeadline D r w =>
    obtain ⟨-, rfl⟩ := call_eq hs
    exact setDeadline_steps D r w
  | setZeroCopyWritesEnabled enabled =>
    obtain ⟨-, rfl⟩ := call_eq hs
    exact .quiet rfl ⟨rfl, rfl, rfl, rfl, rfl, rfl, rfl, fun hx => hx, fun _ _ => rfl⟩
  | close submit =>
    obtain ⟨g, hg, hclose⟩ := close_closes (s := s) submit
    dsimp only at hs
    rw [hg] at hs
    obtain ⟨hd, rfl⟩ := call_eq hs
    exact .closes hd hclose
  | closeRead shutdown => exact quiet_steps rfl (closeRead_quiet shutdown) hs
  | closeWrite shutdown => exact quiet_steps rfl (closeWrite_quiet shutdown) hs
  | destroy =>
    obtain ⟨hg, hs⟩ := Option.ite_none_right_eq_some.mp hs
    obtain ⟨hd, rfl⟩ := call_eq hs
    exact .destroyed hg hd
  | schedule i completion =>
    obtain ⟨-, rfl⟩ := of_guard hs
    exact schedule_steps i completion
  | requestStop =>
    cases hs
    exact .quiet rfl (.requestStop _)
  | cqe d n e p => exact h.cqe hs' ha
  | notification n e => exact h.notification hs' ha
  | cancelCqe d result => exact h.cancelCqe hs' ha
  | closeCqe k result => exact h.closeCqe hs' ha
  | callbacks | beginTurn =>
    obtain ⟨-, rfl⟩ := of_guard hs
    exact setQueues_steps rfl fun _ _ => rfl
  | fire d t ans =>
    obtain ⟨⟨-, ht, -⟩, rfl⟩ := of_guard hs
    exact h.fires ht ans
  | advanceClock elapsed =>
    cases hs
    exact .quiet rfl ⟨rfl, rfl, rfl, rfl, rfl, rfl, rfl, fun hx => hx, fun _ _ => rfl⟩
  | runNext =>
    obtain ⟨⟨w, q⟩, hnext, hs⟩ := Option.bind_eq_some_iff.mp hs
    cases hs
    exact .resumed hnext (resumes_runWork w)
  | advance =>
    obtain ⟨q, hq, hs⟩ := Option.bind_eq_some_iff.mp hs
    cases hs
    exact advance_steps hq
  | flushFailed =>
    obtain ⟨-, rfl⟩ := of_guard hs
    exact flushFailed_steps

/-! ### Preservation -/

theorem validate_open (h : s.validate d = .ok ()) : s.shared.lifecycle.resource = .opened := by
  unfold validate at h
  cases hstop : s.shared.loopState.isStopping with
  | true => rw [hstop] at h; cases h
  | false =>
    rw [hstop] at h
    cases hr : s.shared.lifecycle.resource with
    | opened => rfl
    | closing | closed =>
      cases d <;> simp [Net.StreamLifecycle.validateRead, Net.StreamLifecycle.validateWrite,
        Net.StreamLifecycle.validateResource, hr, bind, Except.bind] at h

theorem Closable.pendingClose_eq_none (h : s.Closable)
    (ho : s.shared.lifecycle.resource = .opened) : s.shared.pendingClose = none := by
  cases hp : s.shared.pendingClose with
  | none => rfl
  | some k =>
    have := (h.waiting k hp).2.1
    rw [ho] at this
    cases this

theorem Closing.of_open (h : s.Closing) (ho : s.shared.lifecycle.resource = .opened)
    (hc : SameClose s s') : s'.Closing := by
  have hp := hc.pendingClose.trans (h.pendingClose_eq_none ho)
  have hr := hc.resource.trans ho
  refine ⟨⟨fun k hk => ?_, fun k hk => ?_, fun _ => ?_, ?_, fun hx => ?_⟩, fun k hk => ?_⟩
  · rw [hp] at hk; cases hk
  · rw [hp] at hk; cases hk
  · rw [hc.closeRequests, hr]
    exact ⟨(h.idle (h.pendingClose_eq_none ho)).1, by simp⟩
  · rw [hc.fdOpen, hr, h.fd, ho]
  · rw [hr] at hx; cases hx
  · rw [hp] at hk; cases hk

theorem lanes_setLane (h : ∀ d, (s.lanes d).Sound d) (hx : x.Sound d) :
    ∀ d', ((s.setLane d x).lanes d').Sound d' := by
  intro d'
  by_cases hd : d' = d
  · subst hd
    rw [setLane_self]
    exact hx
  · rw [setLane_of_ne hd]
    exact h d'

section

variable (h : s.Sound)
include h

theorem Sound.setLane (hx : x.Sound d)
    (hp : x.pending = (s.lanes d).pending) : (s.setLane d x).Sound :=
  ⟨lanes_setLane h.lane hx, h.closing.congr (.of_shared rfl) (operationsPending_setLane_self hp)⟩

theorem Sound.conclude (hx : x.Sound d) (hp : x.pending = none) : (s.conclude d x).Sound :=
  have hc : (s.setLane d x).Closable :=
    h.closing.toClosable.congr (.of_shared rfl) (operationsPending_vacate hp)
  ⟨lanes_setLane h.lane hx, hc.notifyCloseProgress⟩

theorem Sound.quiet {g : Shared} (hq : s.shared.Quiet g) : Sound { s with shared := g } :=
  ⟨h.lane, h.closing.congr (.of_quiet hq rfl) rfl⟩

theorem Sound.drains : s.drains.Sound := h.quiet (.drains _)

theorem Sound.scheduleCompletion (w : Work) : (s.scheduleCompletion w).Sound :=
  ⟨h.lane, h.closing.congr ⟨rfl, rfl, rfl, rfl, rfl, rfl⟩ rfl⟩

theorem Sound.starts {kind : OpKind} {buffer : List UInt8}
    (hk : d.hosts kind = true) (hs : Starts s d kind buffer s') : s'.Sound := by
  cases hs with
  | refused hb => exact h.setLane ((h.lane d).refused (by rw [hb]; exact hk) _) rfl
  | released hb hp => exact h.conclude ((h.lane d).refused (by rw [hb]; exact hk) _) hp
  | undone hb hp => exact h.conclude ((h.lane d).undone hp (by rw [hb]; exact hk) _ _ _) hp
  | suspended hb hbuf hsub hv hp hdue htimed =>
    exact ⟨lanes_setLane h.lane ((h.lane d).suspended hp (by rw [hb]; exact hk) hsub htimed),
      h.closing.of_open (validate_open hv) (.of_shared rfl)⟩

end

variable {sent : List (ℕ × List UInt8)} {b : Awaiter}

theorem Ends.kind (h : Ends x n a d b sent) : b.op.kind = (x.awaiters n).op.kind := by
  cases h <;> rfl

theorem Ends.handle (h : Ends x n a d b sent) : b.op.handle = some n := by
  cases h with
  | single hsub | primary hsub => exact hsub.handle
  | notification hrec => exact hrec.handle

theorem Ends.settled (h : Ends x n a d b sent) : b.Settled := by
  cases h with
  | single hsub hd hk => exact Awaiter.Submitted.settled hd hk _ _ _
  | primary hsub hk hm => exact Awaiter.recordedWith_settled hk _ hm
  | notification hrec => exact hrec.settled _

theorem Sound.settle (h : s.Sound)
    (hp : (s.lanes d).pending = some n) (he : Ends (s.lanes d) n a d b sent) :
    ((s.setLane d ((s.lanes d).relieved sent)).settle d n b).Sound := by
  unfold Stream.settle
  dsimp only
  rw [setLane_self]
  have hfly : ((s.lanes d).relieved sent).cancelInFlight = (s.lanes d).cancelInFlight := rfl
  cases hc : (s.lanes d).cancelInFlight with
  | true =>
    rw [hfly, hc, if_pos rfl, setLane_setLane]
    exact h.setLane ((h.lane d).awaitingCancel hp hc he.kind he.settled he.handle _ _) rfl
  | false =>
    rw [hfly, hc, if_neg (by simp), setLane_conclude]
    have hkind : b.released.scheduled.op.kind = ((s.lanes d).awaiters n).op.kind := by
      simpa using he.kind
    exact (h.conclude ((h.lane d).ended ((h.lane d).cancels_eq_zero hc) hkind _ _)
      rfl).scheduleCompletion _

theorem Sound.resumes (h : s.Sound) {w : Work} (hr : Resumes s w s') : s'.Sound := by
  cases hr with
  | failed _ => exact ⟨h.lane, h.closing.congr (.of_shared rfl) rfl⟩
  | operation _ _ => exact h.setLane ((h.lane _).returned _) rfl
  | close _ _ _ => exact ⟨h.lane, h.closing.congr ⟨rfl, rfl, rfl, rfl, rfl, rfl⟩ rfl⟩
  | other _ => exact h

theorem Sound.closes (h : s.Sound) {submit : Option Error} {g : Shared} (hc : Closes s submit g) :
    Sound { s with shared := g } := by
  refine ⟨h.lane, ?_⟩
  have hne {k : ℕ} (hk : k < s.shared.closeCalls) : k ≠ s.shared.closeCalls := Nat.ne_of_lt hk
  cases hc with
  | refused =>
    -- the numbers of earlier closes are smaller
    have hold {k : ℕ} {r : Except Error Unit} (hp : s.shared.pendingClose = some k) :
        ({ s with shared := s.shared.closeReturned r } : Stream).shared.closers k =
          s.shared.closers k :=
      update_of_ne (hne (h.closing.waiting k hp).1) ..
    refine ⟨⟨fun k hp => ?_, fun k hp => ?_, h.closing.idle, h.closing.fd, h.closing.drained⟩,
      fun k hp hterm => ?_⟩
    · obtain ⟨h1, h2, h3⟩ := h.closing.waiting k hp
      refine ⟨Nat.lt_succ_of_lt h1, h2, ?_⟩
      rw [hold hp]
      exact h3
    · rw [hold hp]
      exact h.closing.request k hp
    · rw [hold hp] at hterm
      exact h.closing.progress k hp hterm
  | now hp ho hops =>
    have hnone {k : ℕ} (hk : s.shared.pendingClose = some k) : False := by rw [hp] at hk; cases hk
    exact ⟨⟨fun k hk => (hnone hk).elim, fun k hk => (hnone hk).elim,
      fun _ => ⟨(h.closing.idle hp).1, fun hx => (by cases hx)⟩,
      ⟨fun hx => (by cases hx), fun hx => absurd rfl hx⟩, fun _ => hops⟩,
      fun k hk => (hnone hk).elim⟩
  | suspended hp ho hops hsub =>
    have hself : s.shared.closeSuspended.closers s.shared.closeCalls =
        { continuation := some s.shared.closeCalls } := update_self ..
    refine ⟨⟨fun k hk => ?_, fun k hk => ?_, fun hx => (by cases hx), ?_, fun hx => (by cases hx)⟩,
      fun k hk hterm => ?_⟩
    · cases hk
      refine ⟨Nat.lt_succ_self _, rfl, ?_⟩
      rw [hself]
      exact ⟨rfl, rfl, rfl, rfl, rfl, fun _ => ⟨rfl, rfl⟩⟩
    · cases hk
      rw [hself, Shared.closeSuspended, (h.closing.idle hp).1]
      rfl
    · have := h.closing.fd
      rw [ho] at this
      exact ⟨fun _ hx => (by cases hx), fun _ => this.mpr (by simp)⟩
    · cases hk
      rw [hself] at hterm
      cases hterm

theorem Sound.closeAnswered (h : s.Sound) {k : ℕ} (hp : s.shared.pendingClose = some k)
    (result : ℤ) :
    ({ s with shared := s.shared.closeAnswered k result } : Stream).notifyCloseProgress.Sound := by
  refine ⟨h.lane, Closable.notifyCloseProgress ?_⟩
  have hself : (s.shared.closeAnswered k result).closers k = { s.shared.closers k with
      op := { (s.shared.closers k).op with completed := true, result := some result }
      convergence := { (s.shared.closers k).convergence with cancelRequestTerminal := true } } :=
    update_self ..
  have hreq := h.closing.request k hp
  obtain ⟨h1, h2, h3⟩ := h.closing.waiting k hp
  refine ⟨fun j hj => ?_, fun j hj => ?_, fun hx => ?_, h.closing.fd, h.closing.drained⟩
  · cases hp.symm.trans hj
    refine ⟨h1, h2, ?_⟩
    rw [hself]
    exact { h3 with unanswered := nofun }
  · cases hp.symm.trans hj
    rw [hself, Shared.closeAnswered, hreq]
    simp
  · rw [show s.shared.pendingClose = none from hx] at hp
    cases hp

/-- **Preservation.** Every step keeps the protocols of the lanes and of the close. -/
theorem Sound.step (h : s.Sound) (hs : Steps s a s') : s'.Sound := by
  cases hs with
  | quiet hquiet hq => exact h.quiet hq
  | destroyed hd hn => exact ⟨h.lane, h.closing.congr (.of_shared rfl) rfl⟩
  | started ha hk hd hstart => exact h.starts hk hstart
  | deadlines hsets hL =>
    rename_i L
    have hlane (d : Dir) : (L d).Sound d ∧ (L d).pending = (s.lanes d).pending := by
      rcases hL d with heq | ⟨-, D, ok, heq⟩
      · rw [heq]
        exact ⟨h.lane d, rfl⟩
      · rw [heq]
        refine ⟨(h.lane d).setDeadline D _ ok, ?_⟩
        obtain ⟨G, heq' | ⟨-, -, expiration, heq'⟩⟩ :=
          (h.lane d).timed.setDeadline_eq D s.shared.now ok
        · rw [heq']
        · rw [heq']
    refine ⟨fun d => (hlane d).1, h.closing.congr (.of_shared rfl) ?_⟩
    simp [operationsPending, (hlane _).2]
  | fired ht hfire =>
    rename_i d t ans stop y
    obtain ⟨stop', y', hfire', hy⟩ := (h.lane d).fire ht s.shared.now ans
    rw [hfire] at hfire'
    obtain ⟨rfl, rfl⟩ := Prod.ext_iff.mp (Option.some.inj hfire')
    have hp : y.pending = (s.lanes d).pending := by
      obtain ⟨-, heq⟩ | ⟨-, ⟨-, heq⟩ | ⟨-, -, heq⟩ | ⟨-, -, heq⟩⟩ :=
        (h.lane d).toProtocol.fire_cases ht s.shared.now ans
      all_goals
        rw [hfire] at heq
        obtain ⟨-, rfl⟩ := Prod.ext_iff.mp (Option.some.inj heq)
        rfl
    have hset := h.setLane hy hp
    cases stop with
    | true => exact hset.quiet (.requestStop _)
    | false => exact hset
  | settled hp hterm he => exact (h.settle hp he).drains
  | recorded hp hterm hsub hk hm =>
    exact (h.setLane ((h.lane .write).recorded hp hterm (b := Awaiter.recordedWith _ _ _) rfl
      (hsub.recorded hk _ hm) _) rfl).drains
  | answered hterm hc => exact (h.setLane ((h.lane _).cancelDone hterm hc _) rfl).drains
  | finished hp hterm hc hset =>
    rename_i d result n
    refine Sound.drains (.scheduleCompletion (h.conclude ?_ rfl) _)
    have hstage := ((h.lane d).stage n hp).2
    exact .of_idle rfl rfl ⟨rfl, rfl, rfl, rfl, rfl, rfl, hstage.primaries_of_terminal hterm,
      hstage.notifications_of_terminal hterm⟩ rfl rfl
      ((h.lane d).hosts_update (by simp)) (h.lane d).cancelKind
  | closeAnswered hp hterm => exact (h.closeAnswered hp _).drains
  | closes hd hc => exact h.closes hc
  | resumed hq hr =>
    rename_i w q
    have hset : (s.setQueues q).Sound :=
      ⟨h.lane, h.closing.congr ⟨rfl, rfl, rfl, rfl, rfl, rfl⟩ rfl⟩
    exact hset.resumes hr

theorem Sound.make (closeResult : Except Error Unit) (zeroCopy : Bool) (now : ℕ) :
    (Stream.make closeResult zeroCopy now).Sound := by
  refine ⟨fun d => .make d, ⟨⟨fun k hk => (by cases hk), fun k hk => (by cases hk), fun _ => ?_, ?_,
    nofun⟩, fun k hk => (by cases hk)⟩⟩
  · exact ⟨rfl, nofun⟩
  · exact ⟨nofun, fun _ => rfl⟩

theorem sound_of_reaches (h : system.Reaches s) : s.Sound := by
  refine h.invariant (I := Sound) ?_ ?_
  · rintro s ⟨closeResult, zeroCopy, now, rfl⟩
    exact .make closeResult zeroCopy now
  · intro s a s' hs _ hstep
    exact hs.step (hs.steps hstep).2

end Stream

end Alyrn.Uring
