import Alyrn.Uring.Stream

/-!
# The protocol of a lane

What a lane can look like between two entries into the stream. It is empty, or holds one operation
in one of three stages: submitted, recorded (a zero-copy send whose notification is still owed), or
settled (completed, but waiting for the completion of its deadline's cancel request).

Nothing here depends on the work queues: continuations may be late or lost, the lanes keep their
protocol (`Lane.Protocol`).
-/

namespace Alyrn.Uring

open Function

/-! ## Stages of an awaiter -/

namespace Awaiter

/-- The operation is in the kernel. -/
structure Submitted (n : ℕ) (a : Awaiter) : Prop where
  handle : a.op.handle = some n
  result : a.op.result = none
  completed : a.op.completed = false
  lifecycle : a.op.lifecycle = .pending
  outcome : a.outcome = none
  split : a.split = {}
  reservation : a.op.kind = .recvComplete → a.reservation ≠ .none

/-- A zero-copy send has its result, and the kernel owes the notification. -/
structure Recorded (n : ℕ) (a : Awaiter) : Prop where
  kind : a.op.kind = .sendZeroCopyComplete
  handle : a.op.handle = some n
  result : a.op.result.isSome = true
  split : a.split = { logicalResult := true }

/-- The operation is over, and its awaiter can be resumed. -/
structure Settled (a : Awaiter) : Prop where
  coupled : a.op.kind ≠ .sendZeroCopyComplete →
    usesCoupledSingleResultLifecycle a.op.kind = true ∧ a.op.lifecycle = .resultReady
  split : a.op.kind = .sendZeroCopyComplete →
    a.split = { logicalResult := true, physicalTerminal := true }
  resumable : a.awaitResume.isSome = true

def released (a : Awaiter) : Awaiter :=
  if a.op.kind = .sendZeroCopyComplete then
    { a with split := { a.split with releaseAuthorized := true, continuationAuthorized := true } }
  else { a with op := { a.op with lifecycle := .releaseAuthorized } }

def scheduled (a : Awaiter) : Awaiter :=
  if usesCoupledSingleResultLifecycle a.op.kind then
    { a with op := { a.op with lifecycle := .continuationAuthorized } }
  else { a with op := { a.op with completed := true } }

variable {a : Awaiter} {n : ℕ} {e : CompletionEvent}

@[simp] theorem released_kind : a.released.op.kind = a.op.kind := by
  unfold released; split_ifs <;> rfl

@[simp] theorem released_handle : a.released.op.handle = a.op.handle := by
  unfold released; split_ifs <;> rfl

@[simp] theorem released_awaitResume : a.released.awaitResume = a.awaitResume := by
  unfold released; split_ifs <;> rfl

@[simp] theorem scheduled_kind : a.scheduled.op.kind = a.op.kind := by
  unfold scheduled; split_ifs <;> rfl

@[simp] theorem scheduled_handle : a.scheduled.op.handle = a.op.handle := by
  unfold scheduled; split_ifs <;> rfl

@[simp] theorem scheduled_awaitResume : a.scheduled.awaitResume = a.awaitResume := by
  unfold scheduled; split_ifs <;> rfl

theorem Settled.finalize (h : a.Settled) : ∃ b, a.authorizeRelease = some b ∧
    b.authorizeContinuation = some a.released := by
  by_cases hk : a.op.kind = .sendZeroCopyComplete
  · refine ⟨{ a with split := { a.split with releaseAuthorized := true } }, ?_, ?_⟩
    · simp [authorizeRelease, hk, SplitReleaseLifecycle.tryAuthorizeRelease, h.split hk]
    · simp [authorizeContinuation, released, hk, SplitReleaseLifecycle.tryAuthorizeContinuation,
        h.split hk]
  · obtain ⟨hc, hl⟩ := h.coupled hk
    refine ⟨a.released, ?_, by simp [authorizeContinuation, hk]⟩
    simp [authorizeRelease, released, hk, Op.tryAuthorizeCoupledRelease, Op.tryAuthorizeCoupled,
      hc, hl, SingleResultLifecycle.tryAuthorizeRelease]

theorem Settled.authorize (h : a.Settled) :
    a.released.op.authorizeResume = some a.released.scheduled.op := by
  rw [Op.authorizeResume, released_kind]
  by_cases hk : a.op.kind = .sendZeroCopyComplete
  · simp [scheduled, released, hk, usesCoupledSingleResultLifecycle]
  · have hc := (h.coupled hk).1
    simp [scheduled, released, hk, hc, Op.tryAuthorizeCoupledContinuation, Op.tryAuthorizeCoupled,
      SingleResultLifecycle.tryAuthorizeContinuation]

theorem scheduled_eq : a.scheduled = { a with op := a.scheduled.op } := by
  unfold scheduled; split_ifs <;> rfl

theorem Settled.handOver (h : a.Settled) :
    Settled { a with op := { a.op with handle := none } } :=
  { h with }

def sizeResult (result : ℤ) (timedOut : Bool) : Except Error ℕ :=
  if timedOut then .error ETIMEDOUT
  else if result < 0 then .error (negErrno result)
  else .ok result.toNat

theorem toSizeResult_some (r : ℤ) (t : Bool) : toSizeResult (some r) t = some (sizeResult r t) := by
  show (if t then _ else if r < 0 then _ else _ : Option (Except Error ℕ)) = _
  unfold sizeResult
  split_ifs <;> rfl

def completedWith (a : Awaiter) (t : Bool) (e : CompletionEvent) (p : PoolAnswer) : Awaiter :=
  { a with
    timedOut := t
    op := { a.op with result := some e.result, completed := true, lifecycle := .resultReady }
    reservation := if a.op.kind = .recvComplete then .none else a.reservation
    committed := if a.op.kind = .recvComplete then (sizeResult e.result t).toOption else a.committed
    outcome := if a.op.kind = .recvCopyComplete then some (recvCopyOutcome t e p) else a.outcome }

theorem completedWith_awaitResume (t : Bool) (e : CompletionEvent) (p : PoolAnswer) :
    (a.completedWith t e p).awaitResume =
      some (if a.op.kind = .recvCopyComplete then recvCopyOutcome t e p
        else sizeResult e.result t) := by
  unfold awaitResume
  split
  · simp [completedWith, show a.op.kind = _ from ‹_›]
  · simp [completedWith, show a.op.kind = _ from ‹_›, toSizeResult_some]
  · rename_i hk _
    have hk : a.op.kind ≠ .recvCopyComplete := hk
    simp [completedWith, hk, toSizeResult_some]

theorem hosts_coupled {d : Dir} (hd : d.hosts a.op.kind = true)
    (hk : a.op.kind ≠ .sendZeroCopyComplete) :
    usesCoupledSingleResultLifecycle a.op.kind = true := by
  revert hd hk
  cases d <;> cases a.op.kind <;> simp [Dir.hosts, usesCoupledSingleResultLifecycle]

theorem Submitted.complete {d : Dir} (h : a.Submitted n) (hd : d.hosts a.op.kind = true)
    (hk : a.op.kind ≠ .sendZeroCopyComplete) (t : Bool) (e : CompletionEvent) (p : PoolAnswer) :
    ∃ op, a.op.recordCqe e.result = some op ∧
      Awaiter.onComplete { a with op } t e p = some (a.completedWith t e p) := by
  obtain ⟨op, buffer, timedOut, reservation, committed, outcome, split, usage, received⟩ := a
  obtain ⟨kind, handle, result, completed, lifecycle⟩ := op
  obtain ⟨rfl, rfl, rfl, rfl, rfl, rfl, hres⟩ := h
  cases d <;> cases kind <;> simp only [Dir.hosts, Bool.false_eq_true] at hd
  · exact ⟨_, rfl, rfl⟩
  · -- `Recv(buffer)` gives up its reservation
    refine ⟨_, rfl, ?_⟩
    simp [onComplete, completedWith, toSizeResult_some, finishReservation, hres]
  · exact ⟨_, rfl, rfl⟩
  · exact absurd rfl hk
  · exact ⟨_, rfl, rfl⟩

theorem Submitted.settled {d : Dir} (hd : d.hosts a.op.kind = true)
    (hk : a.op.kind ≠ .sendZeroCopyComplete) (t : Bool) (e : CompletionEvent) (p : PoolAnswer) :
    (a.completedWith t e p).Settled :=
  ⟨fun _ => ⟨hosts_coupled hd hk, rfl⟩, fun h => absurd h hk,
    by rw [completedWith_awaitResume]; rfl⟩

/-! ### Zero-copy sends -/

def recordedWith (a : Awaiter) (t : Bool) (e : CompletionEvent) : Awaiter :=
  { a with
    timedOut := t
    op := { a.op with result := some e.result }
    split := { logicalResult := true, physicalTerminal := !e.more } }

def notifiedWith (a : Awaiter) (e : CompletionEvent) : Awaiter :=
  { a with
    notificationReceived := true
    usage := if e.zeroCopyWasCopied then .copied else .zeroCopy
    split := { logicalResult := true, physicalTerminal := true } }

theorem awaitResume_of_sendZeroCopy {r : ℤ} (hk : a.op.kind = .sendZeroCopyComplete)
    (hr : a.op.result = some r) : a.awaitResume = some (sizeResult r a.timedOut) := by
  unfold awaitResume
  simp only [hk, hr]
  exact toSizeResult_some r a.timedOut

theorem Submitted.record (h : a.Submitted n) (t : Bool)
    (he : e.notification = false) : a.onSendZeroCopy t e = some (a.recordedWith t e) := by
  unfold onSendZeroCopy recordedWith
  simp only [he, h.split, SplitReleaseLifecycle.recordLogicalResult, Op.setResult, h.result]
  cases e.more <;> rfl

theorem Submitted.recorded (h : a.Submitted n) (hk : a.op.kind = .sendZeroCopyComplete) (t : Bool)
    (he : e.more = true) : (a.recordedWith t e).Recorded n :=
  ⟨hk, h.handle, rfl, by simp [recordedWith, he]⟩

theorem recordedWith_settled (hk : a.op.kind = .sendZeroCopyComplete) (t : Bool)
    (he : e.more = false) : (a.recordedWith t e).Settled := by
  refine ⟨fun h => absurd hk h, fun _ => by simp [recordedWith, he], ?_⟩
  rw [awaitResume_of_sendZeroCopy (a := a.recordedWith t e) hk rfl]
  rfl

theorem Recorded.notify (h : a.Recorded n) (t : Bool)
    (he : e.notification = true) : a.onSendZeroCopy t e = some (a.notifiedWith e) := by
  unfold onSendZeroCopy notifiedWith
  simp [he, h.split, SplitReleaseLifecycle.markPhysicalTerminal]

theorem notifiedWith_awaitResume (e : CompletionEvent) :
    (a.notifiedWith e).awaitResume = a.awaitResume := rfl

theorem Recorded.settled (h : a.Recorded n) (e : CompletionEvent) :
    (a.notifiedWith e).Settled := by
  obtain ⟨r, hr⟩ := Option.isSome_iff_exists.mp h.result
  refine ⟨fun hk => absurd h.kind hk, fun _ => rfl, ?_⟩
  rw [notifiedWith_awaitResume, awaitResume_of_sendZeroCopy h.kind hr]
  rfl

end Awaiter

/-! ## The protocol -/

namespace Lane

/-- The stages of a pending operation. -/
inductive Stage (x : Lane) (n : ℕ) : Prop where
  | submitted : x.primaryTerminal = false → x.primaries = [n] → x.notifications = [] →
      (x.awaiters n).Submitted n → Stage x n
  | recorded : x.primaryTerminal = false → x.primaries = [] → x.notifications = [n] →
      (x.awaiters n).Recorded n → Stage x n
  | settled : x.primaryTerminal = true → x.primaries = [] → x.notifications = [] →
      (x.awaiters n).Settled → Stage x n

/-- Nothing is left of an operation. -/
structure Idle (x : Lane) : Prop where
  cancelRequested : x.cancelRequested = false
  cancelSubmitted : x.cancelSubmitted = false
  cancelTerminal : x.cancelTerminal = false
  primaryTerminal : x.primaryTerminal = false
  timedOut : x.timedOut = false
  timer : x.timer = none
  primaries : x.primaries = []
  notifications : x.notifications = []

def cancelInFlight (x : Lane) : Bool := x.cancelSubmitted && !x.cancelTerminal

/-- The registered timers: at most one, of the current generation; a retry follows an expiry. -/
structure Timed (x : Lane) : Prop where
  ids : x.timers.map (·.id) = x.timer.toList
  live : ∀ t ∈ x.timers, t.generation = x.timerGeneration
  retry : ∀ t ∈ x.timers, t.callback = .retry → x.cancelRequested = true

/-- The invariant of a lane. -/
structure Protocol (d : Dir) (x : Lane) : Prop where
  target : x.target = x.pending
  idle : x.pending = none → x.Idle
  stage : ∀ n, x.pending = some n → n < x.started ∧ x.Stage n
  hosts : ∀ n < x.started, d.hosts (x.awaiters n).op.kind = true
  timedOut : x.timedOut = x.cancelRequested
  requested : x.cancelSubmitted = true → x.cancelRequested = true
  submitted : x.cancelTerminal = true → x.cancelSubmitted = true
  waiting : x.primaryTerminal = true → x.cancelInFlight = true
  cancels : x.cancels = if x.cancelInFlight then 1 else 0
  cancelOp : x.cancelInFlight = true → x.cancelOp.completed = false ∧ x.cancelOp.result = none
  cancelKind : x.cancelOp.kind = d.cancelKind
  timed : x.Timed

theorem Protocol.make (d : Dir) : (Lane.make d).Protocol d where
  target := rfl
  idle _ := ⟨rfl, rfl, rfl, rfl, rfl, rfl, rfl, rfl⟩
  stage n h := by cases h
  hosts n h := absurd h (Nat.not_lt_zero n)
  timedOut := rfl
  requested h := by cases h
  submitted h := by cases h
  waiting h := by cases h
  cancels := rfl
  cancelOp h := by cases h
  cancelKind := rfl
  timed := ⟨rfl, by simp [Lane.make], by simp [Lane.make]⟩

variable {d : Dir} {x : Lane} {n : ℕ}

/-! ### Timers -/

theorem Timed.of_nil (ht : x.timer = none) (hl : x.timers = []) : x.Timed :=
  ⟨by rw [ht, hl]; rfl, by simp [hl], by simp [hl]⟩

theorem Timed.filter_eq_nil (h : x.Timed) :
    (x.timers.filter fun t => x.timer ≠ some t.id) = [] := by
  rw [List.filter_eq_nil_iff]
  intro t ht
  have hid : t.id ∈ x.timer.toList := by
    rw [← h.ids]
    exact List.mem_map_of_mem ht
  simpa using hid

theorem Timed.cancelDeadlineTimer_eq (h : x.Timed) : x.cancelDeadlineTimer =
    { x with timerGeneration := x.timerGeneration + 1, timer := none, timers := [] } := by
  rw [cancelDeadlineTimer, h.filter_eq_nil]

theorem Timed.eq_singleton (h : x.Timed) {t : Timer} (ht : t ∈ x.timers) : x.timers = [t] := by
  have hlen : x.timers.length ≤ 1 := by
    have := congrArg List.length h.ids
    cases hx : x.timer <;> simp_all
  match hl : x.timers, ht, hlen with
  | [u], ht, _ => rw [List.mem_singleton.mp ht]

section

variable (h : x.Stage n)
include h

theorem Stage.congr {y : Lane} (h1 : y.primaryTerminal = x.primaryTerminal)
    (h2 : y.primaries = x.primaries) (h3 : y.notifications = x.notifications)
    (h4 : y.awaiters n = x.awaiters n) : y.Stage n := by
  cases h with
  | submitted g1 g2 g3 g4 =>
    exact .submitted (h1.trans g1) (h2.trans g2) (h3.trans g3) (by rwa [h4])
  | recorded g1 g2 g3 g4 =>
    exact .recorded (h1.trans g1) (h2.trans g2) (h3.trans g3) (by rwa [h4])
  | settled g1 g2 g3 g4 =>
    exact .settled (h1.trans g1) (h2.trans g2) (h3.trans g3) (by rwa [h4])

theorem Stage.primaries_of_submitted (hs : (x.awaiters n).Submitted n) : x.primaries = [n] := by
  cases h with
  | submitted _ g _ _ => exact g
  | recorded _ _ _ g =>
    have hsplit := hs.split
    rw [g.split] at hsplit
    cases hsplit
  | settled _ _ _ g =>
    by_cases hk : (x.awaiters n).op.kind = .sendZeroCopyComplete
    · have hsplit := hs.split
      rw [g.split hk] at hsplit
      cases hsplit
    · have hlife := hs.lifecycle
      rw [(g.coupled hk).2] at hlife
      cases hlife

theorem Stage.primaries_of_recorded (hr : (x.awaiters n).Recorded n) : x.primaries = [] := by
  cases h with
  | submitted _ _ _ g =>
    have hsplit := g.split
    rw [hr.split] at hsplit
    cases hsplit
  | recorded _ g _ _ | settled _ g _ _ => exact g

section

variable (ht : x.primaryTerminal = true)
include ht

theorem Stage.primaries_of_terminal : x.primaries = [] := by
  cases h with
  | submitted g _ _ _ => rw [ht] at g; cases g
  | recorded _ g _ _ | settled _ g _ _ => exact g

theorem Stage.settled_of_terminal : (x.awaiters n).Settled := by
  cases h with
  | submitted g _ _ _ | recorded g _ _ _ => rw [ht] at g; cases g
  | settled _ _ _ g => exact g

theorem Stage.notifications_of_terminal : x.notifications = [] := by
  cases h with
  | submitted g _ _ _ | recorded g _ _ _ => rw [ht] at g; cases g
  | settled _ _ g _ => exact g

end

end

theorem Protocol.retime (h : x.Protocol d) {D T : Option ℕ} {G N : ℕ} {L : List Timer}
    (ht : Timed { x with deadline := D, timer := T, timerGeneration := G, timers := L,
                         nextTimer := N })
    (hT : x.pending = none → T = none) :
    Protocol d { x with deadline := D, timer := T, timerGeneration := G, timers := L,
                        nextTimer := N } :=
  { h with
    idle := fun hp => ⟨(h.idle hp).1, (h.idle hp).2, (h.idle hp).3, (h.idle hp).4, (h.idle hp).5,
      hT hp, (h.idle hp).7, (h.idle hp).8⟩
    stage := fun n hn => ⟨(h.stage n hn).1, (h.stage n hn).2.congr rfl rfl rfl rfl⟩, timed := ht }

theorem armDeadlineTimer_cases (now : ℕ) (ok : Bool) :
    (x.armDeadlineTimer now ok = (true, x)) ∨
    (x.target.isSome = true ∧ x.cancelRequested = false ∧ x.deadline.isSome = true ∧
      ((ok = true ∧ ∃ expiration, x.armDeadlineTimer now ok =
        (true, { x with timerGeneration := x.timerGeneration + 1 }.runAfter expiration .deadline
          (x.timerGeneration + 1))) ∨
      (ok = false ∧ x.armDeadlineTimer now ok =
        (false, { x with timerGeneration := x.timerGeneration + 1 })))) := by
  unfold armDeadlineTimer
  cases hD : x.deadline with
  | none => exact .inl rfl
  | some deadline =>
    by_cases hg : (x.target.isNone || x.cancelRequested) = true
    · exact .inl (by simp only [if_pos hg])
    · right
      simp only [if_neg hg]
      obtain ⟨ht, hr⟩ : x.target.isSome = true ∧ x.cancelRequested = false := by
        simpa [← Option.isSome_iff_ne_none] using hg
      refine ⟨ht, hr, rfl, ?_⟩
      cases ok with
      | true => exact .inl ⟨rfl, _, rfl⟩
      | false => exact .inr ⟨rfl, rfl⟩

theorem Timed.setDeadline_eq (h : x.Timed) (D : Option ℕ) (now : ℕ) (ok : Bool) :
    ∃ G, (x.setDeadline D now ok).2 =
        { x with deadline := D, timer := none, timerGeneration := G, timers := [] } ∨
      x.target.isSome = true ∧ x.cancelRequested = false ∧
        ∃ expiration, (x.setDeadline D now ok).2 =
          { x with
            deadline := D, timer := some x.nextTimer, timerGeneration := G
            timers := [⟨x.nextTimer, expiration, .deadline, G⟩]
            nextTimer := x.nextTimer + 1 } := by
  unfold setDeadline
  simp only [h.cancelDeadlineTimer_eq]
  by_cases hg : (x.target.isSome && !x.cancelRequested) = true
  · simp only [if_pos hg]
    rcases armDeadlineTimer_cases
      (x := { x with deadline := D, timer := none, timerGeneration := x.timerGeneration + 1,
                     timers := [] }) now ok with
      ha | ⟨ht, hr, -, ⟨-, expiration, ha⟩ | ⟨-, ha⟩⟩
    · exact ⟨_, .inl (by rw [ha])⟩
    · exact ⟨_, .inr ⟨ht, hr, expiration, by rw [ha]; rfl⟩⟩
    · exact ⟨_, .inl (by rw [ha])⟩
  · simp only [if_neg hg]
    exact ⟨_, .inl rfl⟩

theorem Protocol.setDeadline (h : x.Protocol d) (D : Option ℕ) (now : ℕ) (ok : Bool) :
    (x.setDeadline D now ok).2.Protocol d := by
  obtain ⟨G, heq | ⟨ht, -, expiration, heq⟩⟩ := h.timed.setDeadline_eq D now ok
  · rw [heq]
    exact h.retime (N := x.nextTimer) (.of_nil rfl rfl) fun _ => rfl
  · rw [heq]
    refine h.retime ⟨rfl, by simp, by simp⟩ fun hp => ?_
    rw [h.target, hp] at ht
    cases ht

/-! ### Expiry -/

def expired (x : Lane) : Lane :=
  { x with timer := none, timers := [], timedOut := true, cancelRequested := true }

def observed (x : Lane) : Lane := { x.expired with cancelOp := x.cancelOp.beginNextRequest }

theorem submitOrRetry_cases (ht : x.target.isSome = true) (hs : x.cancelSubmitted = false)
    (generation now : ℕ) (ans : TimerAnswers) :
    let y := { x with cancelOp := x.cancelOp.beginNextRequest }
    ans.submit = none ∧ x.submitOrRetry generation now ans =
        some (false, { y with cancelSubmitted := true, cancels := x.cancels + 1 }) ∨
      ans.submit.isSome = true ∧ ans.retry = true ∧ x.submitOrRetry generation now ans =
        some (false, y.runAfter (now + retryDelay) .retry generation) ∨
      ans.submit.isSome = true ∧ ans.retry = false ∧
        x.submitOrRetry generation now ans = some (true, y) := by
  obtain ⟨n, hn⟩ := Option.isSome_iff_exists.mp ht
  obtain ⟨submit, retry⟩ := ans
  unfold submitOrRetry submitDeadlineCancel scheduleDeadlineCancelRetry
  cases submit with
  | none => simp [hn, hs]
  | some e => cases retry <;> simp [hn, hs]

theorem Protocol.fire_cases (h : x.Protocol d) {t : Timer} (ht : t ∈ x.timers) (now : ℕ)
    (ans : TimerAnswers) :
    (x.primaryTerminal = true ∨ x.cancelSubmitted = true) ∧
      x.fire t now ans = some (false, { x with timer := none, timers := [] }) ∨
    (x.target.isSome = true ∧ x.primaryTerminal = false ∧ x.cancelSubmitted = false) ∧
      (ans.submit = none ∧ x.fire t now ans =
          some (false, { x.observed with cancelSubmitted := true, cancels := x.cancels + 1 }) ∨
        ans.submit.isSome = true ∧ ans.retry = true ∧ x.fire t now ans =
          some (false, x.observed.runAfter (now + retryDelay) .retry x.timerGeneration) ∨
        ans.submit.isSome = true ∧ ans.retry = false ∧
          x.fire t now ans = some (true, x.observed)) := by
  have hl := h.timed.eq_singleton ht
  have hg := h.timed.live t ht
  obtain ⟨n, hn⟩ : ∃ n, x.target = some n := by
    rw [← Option.isSome_iff_exists, h.target]
    by_contra hp
    have hid := h.timed.ids
    rw [(h.idle (by simpa using hp)).timer, hl] at hid
    cases hid
  by_cases hb : x.primaryTerminal = true ∨ x.cancelSubmitted = true
  · have hb' : (x.target.isNone || x.primaryTerminal || x.cancelSubmitted) = true := by
      simpa [hn] using hb
    refine .inl ⟨hb, ?_⟩
    unfold fire handleDeadline retryDeadlineCancel
    cases t.callback <;>
      simp only [hl, hg, List.erase_cons_head, ne_eq, not_true_eq_false, if_false, if_pos hb']
  · obtain ⟨hp, hs⟩ : x.primaryTerminal = false ∧ x.cancelSubmitted = false := by simpa using hb
    refine .inr ⟨⟨by rw [hn]; rfl, hp, hs⟩, ?_⟩
    -- a retry runs with the flags of the expiry it follows
    have hfire : x.fire t now ans = x.expired.submitOrRetry x.timerGeneration now ans := by
      unfold fire handleDeadline retryDeadlineCancel expired
      cases hc : t.callback with
      | deadline => simp [hl, hg, hn, hp, hs]
      | retry =>
        have hr := h.timed.retry t ht hc
        have ht := h.timedOut.trans hr
        simp [hl, hg, hn, hp, hs, hr, ht]
    rw [hfire]
    exact submitOrRetry_cases (x := x.expired) (by show x.target.isSome = true; rw [hn]; rfl) hs _
      now ans

theorem Protocol.observed (h : x.Protocol d) (ht : x.target.isSome = true)
    (hp : x.primaryTerminal = false) (hs : x.cancelSubmitted = false) :
    x.observed.Protocol d := by
  have hfly : x.observed.cancelInFlight = false := by
    simp [cancelInFlight, Lane.observed, expired, hs]
  refine ⟨h.target, fun hn => ?_,
    fun n hn => ⟨(h.stage n hn).1, (h.stage n hn).2.congr rfl rfl rfl rfl⟩,
    h.hosts, rfl, fun _ => rfl, h.submitted, fun hw => ?_, ?_, fun hw => ?_, h.cancelKind,
    .of_nil rfl rfl⟩
  · rw [h.target, show x.pending = none from hn] at ht
    cases ht
  · rw [show x.primaryTerminal = true from hw] at hp
    cases hp
  · rw [if_neg (by rw [hfly]; simp)]
    show x.cancels = 0
    rw [h.cancels, cancelInFlight, hs]
    rfl
  · rw [hfly] at hw
    cases hw

theorem Protocol.submit (h : x.Protocol d) (hr : x.cancelRequested = true)
    (hs : x.cancelSubmitted = false)
    (hc : x.cancelOp.completed = false ∧ x.cancelOp.result = none) :
    Protocol d { x with cancelSubmitted := true, cancels := x.cancels + 1 } := by
  have hterm : x.cancelTerminal = false := by
    by_contra hc
    rw [h.submitted (by simpa using hc)] at hs
    cases hs
  refine ⟨h.target, fun hn => ?_,
    fun n hn => ⟨(h.stage n hn).1, (h.stage n hn).2.congr rfl rfl rfl rfl⟩,
    h.hosts, h.timedOut, fun _ => hr, fun _ => rfl, fun _ => by simp [cancelInFlight, hterm], ?_,
    fun _ => hc, h.cancelKind, h.timed.ids, h.timed.live, h.timed.retry⟩
  · rw [(h.idle hn).cancelRequested] at hr
    cases hr
  · have hzero : x.cancels = 0 := by rw [h.cancels, cancelInFlight, hs]; rfl
    simp [cancelInFlight, hterm, hzero]

theorem Protocol.fire (h : x.Protocol d) {t : Timer} (ht : t ∈ x.timers) (now : ℕ)
    (ans : TimerAnswers) : ∃ stop y, x.fire t now ans = some (stop, y) ∧ y.Protocol d := by
  obtain ⟨-, heq⟩ | ⟨⟨htarget, hp, hs⟩, ⟨-, heq⟩ | ⟨-, -, heq⟩ | ⟨-, -, heq⟩⟩ :=
    h.fire_cases ht now ans
  · exact ⟨_, _, heq, h.retime (.of_nil rfl rfl) fun _ => rfl⟩
  · exact ⟨_, _, heq, (h.observed htarget hp hs).submit rfl hs ⟨rfl, rfl⟩⟩
  · refine ⟨_, _, heq, (h.observed htarget hp hs).retime ⟨rfl, by simp [Lane.observed, expired],
      fun _ _ _ => rfl⟩ fun hn => ?_⟩
    rw [h.target, show x.pending = none from hn] at htarget
    cases htarget
  · exact ⟨_, _, heq, h.observed htarget hp hs⟩

/-! ### The end of an operation -/

def vacated (x : Lane) (n : ℕ) (a : Awaiter) : Lane :=
  { x with pending := none, awaiters := update x.awaiters n a }

/-- The lane after the end of operation `n`, whose awaiter is left as `a`. -/
def ended (x : Lane) (n : ℕ) (a : Awaiter) (generation : ℕ) : Lane :=
  { x.reset with
    pending := none, timer := none, timers := [], timerGeneration := generation
    awaiters := update x.awaiters n a }

/-- The lane of a completed operation that waits for its cancel request; the continuation has moved
from its awaiter `a` to the cancel operation. -/
def awaitingCancel (x : Lane) (n : ℕ) (a : Awaiter) (generation : ℕ) : Lane :=
  { x with
    primaryTerminal := true, timer := none, timers := [], timerGeneration := generation
    cancelOp := { x.cancelOp with handle := a.op.handle }
    awaiters := update x.awaiters n { a with op := { a.op with handle := none } } }

def cancelAnswered (x : Lane) (result : ℤ) : Lane :=
  { x with
    cancelTerminal := true
    cancelOp := { x.cancelOp with completed := true, result := some result } }

end Lane

namespace Stream

variable {s : Stream} {d d' : Dir} {x y : Lane} {n : ℕ} {a : Awaiter}

/-! ## Lanes of a stream -/

@[simp] theorem setLane_self : (s.setLane d x).lanes d = x := by simp [setLane]

theorem setLane_of_ne (h : d' ≠ d) : (s.setLane d x).lanes d' = s.lanes d' := by
  simp [setLane, h]

@[simp] theorem setLane_shared : (s.setLane d x).shared = s.shared := rfl

@[simp] theorem setLane_setLane : (s.setLane d x).setLane d y = s.setLane d y := by
  simp [setLane]

@[simp] theorem setLane_lanes : s.setLane d (s.lanes d) = s := by simp [setLane]

theorem updateLane_eq (f : Lane → Lane) : s.updateLane d f = s.setLane d (f (s.lanes d)) := rfl

def conclude (s : Stream) (d : Dir) (x : Lane) : Stream := (s.setLane d x).notifyCloseProgress

@[simp] theorem conclude_self : (s.conclude d x).lanes d = x := setLane_self

theorem conclude_of_ne (h : d' ≠ d) : (s.conclude d x).lanes d' = s.lanes d' := setLane_of_ne h

@[simp] theorem setLane_conclude : (s.setLane d x).conclude d y = s.conclude d y := by
  simp [conclude]

theorem operationsPending_setLane (h : x.pending = y.pending) :
    (s.setLane d x).operationsPending = (s.setLane d y).operationsPending := by
  cases d <;> simp [operationsPending, setLane, h]

theorem conclude_setLane (h : x.pending = y.pending) :
    (s.conclude d x).setLane d y = s.conclude d y := by
  have hp := operationsPending_setLane (s := s) (d := d) h
  unfold conclude notifyCloseProgress
  rw [hp]
  simp [setLane]

theorem release_eq (h : (s.lanes d).pending = some n) :
    s.release d n = s.conclude d { s.lanes d with pending := none } := by
  rw [release, if_pos h]
  rfl

/-- **The end of an operation** whose awaiter is settled: no check fails, the slot is given up,
the bookkeeping is reset, and a waiting close may go on. -/
theorem finalizeOperation_eq (ht : (s.lanes d).target = some n)
    (hp : (s.lanes d).pending = some n) (hprimary : (s.lanes d).primaryTerminal = true)
    (hcancel : (s.lanes d).cancelInFlight = false) (hs : ((s.lanes d).awaiters n).Settled)
    (htimed : (s.lanes d).Timed) : s.finalizeOperation d =
      some (s.conclude d
        ((s.lanes d).ended n ((s.lanes d).awaiters n).released
          ((s.lanes d).timerGeneration + 1))) := by
  obtain ⟨b, hb, hc⟩ := hs.finalize
  have hvacated (a : Awaiter) : ((s.lanes d).vacated n a).awaiters n = a := update_self ..
  have hfinal : s.finalizer d n =
      some (s.conclude d ((s.lanes d).vacated n ((s.lanes d).awaiters n).released)) := by
    have hrel : (s.setLane d ((s.lanes d).setAwaiter n b)).release d n =
        s.conclude d ((s.lanes d).vacated n b) := by
      rw [release_eq (by rw [setLane_self]; exact hp), setLane_self, setLane_conclude]
      rfl
    simp only [finalizer, hb, updateLane_eq, Option.bind_eq_bind, Option.bind_some, hrel,
      conclude_self, hvacated, hc]
    rw [conclude_setLane (by rfl)]
    simp [Lane.setAwaiter, Lane.vacated]
  unfold finalizeOperation
  simp only [ht, Option.bind_eq_bind, Option.bind_some, hprimary]
  rw [if_neg (by simpa [Lane.cancelInFlight] using hcancel), hfinal, Option.bind_some,
    updateLane_eq, conclude_self, conclude_setLane (by rfl),
    Lane.Timed.cancelDeadlineTimer_eq (x := (s.lanes d).vacated n _)
      { htimed with }]
  rfl

/-- **The completion of an operation** whose awaiter is settled: it ends at once, or waits for the
completion of its cancel request, which then carries the continuation. -/
theorem completeOperation_eq (ht : x.target = some n) (hp : x.pending = some n)
    (hs : a.Settled) (hh : a.op.handle = some n) (htimed : x.Timed) :
    (s.setLane d (x.setAwaiter n a)).completeOperation d n = some (if x.cancelInFlight then
      s.setLane d (x.awaitingCancel n a (x.timerGeneration + 1))
      else s.conclude d (x.ended n a.released (x.timerGeneration + 2))) := by
  have htimed' : Lane.Timed { x.setAwaiter n a with primaryTerminal := true } :=
    { htimed with }
  have hawaiter : (x.setAwaiter n a).awaiters n = a := update_self ..
  unfold completeOperation
  rw [setLane_self, if_neg (by simpa [Lane.setAwaiter] using ht)]
  simp only [updateLane_eq, setLane_self, htimed'.cancelDeadlineTimer_eq, setLane_setLane]
  cases hc : x.cancelInFlight with
  | true =>
    have hc' : ((x.setAwaiter n a).cancelSubmitted && !(x.setAwaiter n a).cancelTerminal) = true :=
      hc
    simp only [hc', if_true, Lane.handOver, hawaiter, hh, Lane.awaitingCancel]
    simp [Lane.setAwaiter]
  | false =>
    have hc' : ((x.setAwaiter n a).cancelSubmitted && !(x.setAwaiter n a).cancelTerminal) = false :=
      hc
    simp only [hc', Bool.false_eq_true, if_false]
    rw [finalizeOperation_eq (n := n) (by rw [setLane_self]; exact ht)
      (by rw [setLane_self]; exact hp) (by rw [setLane_self]) (by rw [setLane_self]; exact hc')
      (by rw [setLane_self, hawaiter]; exact hs) (by rw [setLane_self]; exact .of_nil rfl rfl)]
    simp [Lane.ended, Lane.reset, Lane.setAwaiter]

/-! ## Completions -/

/-- A completion has settled awaiter `a` of operation `n`: the operation ends and its continuation
is scheduled, or it waits for the completion of its cancel request. -/
def settle (s : Stream) (d : Dir) (n : ℕ) (a : Awaiter) : Stream :=
  let x := s.lanes d
  if x.cancelInFlight then s.setLane d (x.awaitingCancel n a (x.timerGeneration + 1))
  else
    let s := s.conclude d (x.ended n a.released.scheduled (x.timerGeneration + 2))
    { s with shared := s.shared.scheduleCompletion (.op d n) }

theorem scheduleContinuation_eq {G : ℕ} (hs : a.Settled) (hh : a.op.handle = some n) :
    (s.conclude d (x.ended n a.released G)).scheduleContinuation d n =
      let s := s.conclude d (x.ended n a.released.scheduled G)
      some { s with shared := s.shared.scheduleCompletion (.op d n) } := by
  have hawaiter : (x.ended n a.released G).awaiters n = a.released := update_self ..
  have hhandle : a.released.scheduled.op.handle.isSome = true := by simp [hh]
  unfold scheduleContinuation
  simp only [conclude_self, hawaiter, hs.authorize, Option.bind_eq_bind, Option.bind_some, hhandle,
    if_true, updateLane_eq, ← Awaiter.scheduled_eq]
  rw [conclude_setLane (by rfl)]
  simp [Lane.ended, Lane.setAwaiter]

/-- **A completion of `Read`, `Recv` or `Send`** passes every check and settles the operation. -/
theorem handleSingleShot_eq (ht : (s.lanes d).target = some n) (hp : (s.lanes d).pending = some n)
    (hsub : ((s.lanes d).awaiters n).Submitted n)
    (hd : d.hosts ((s.lanes d).awaiters n).op.kind = true)
    (hk : ((s.lanes d).awaiters n).op.kind ≠ .sendZeroCopyComplete) (htimed : (s.lanes d).Timed)
    (e : CompletionEvent) (p : PoolAnswer) :
    s.handleSingleShot d n e p =
      some (s.settle d n (((s.lanes d).awaiters n).completedWith (s.lanes d).timedOut e p)) := by
  obtain ⟨op, hop, hon⟩ := hsub.complete hd hk (s.lanes d).timedOut e p
  have hset := Awaiter.Submitted.settled hd hk (s.lanes d).timedOut e p
  have hh : (((s.lanes d).awaiters n).completedWith (s.lanes d).timedOut e p).op.handle = some n :=
    hsub.handle
  unfold handleSingleShot settle
  rw [if_neg (by simp [hsub.completed])]
  simp only [hop, hon, Option.bind_eq_bind, Option.bind_some, updateLane_eq,
    completeOperation_eq ht hp hset hh htimed]
  cases hc : (s.lanes d).cancelInFlight with
  | true => simp [Lane.awaitingCancel]
  | false =>
    simp only [Bool.false_eq_true, if_false, conclude_self]
    rw [if_pos (by simp [Lane.ended, hh]), scheduleContinuation_eq hset hh]

section

variable (ht : (s.lanes .write).target = some n)
include ht

section

variable (hp : (s.lanes .write).pending = some n)
include hp

theorem settle_sendZeroCopy (hset : a.Settled)
    (hk : a.op.kind = .sendZeroCopyComplete) (hh : a.op.handle = some n)
    (htimed : (s.lanes .write).Timed) :
    ((s.setLane .write ((s.lanes .write).setAwaiter n a)).completeOperation .write n).bind
      (fun s => if ((s.lanes .write).awaiters n).split.continuationAuthorized then
        s.scheduleContinuation .write n else some s) = some (s.settle .write n a) := by
  have hsplit := hset.split hk
  rw [completeOperation_eq ht hp hset hh htimed, Option.bind_some]
  unfold settle
  cases hc : (s.lanes .write).cancelInFlight with
  | true => simp [hc, Lane.awaitingCancel, hsplit]
  | false =>
    simp only [hc, Bool.false_eq_true, if_false, conclude_self]
    rw [if_pos (by simp [Lane.ended, Awaiter.released, hk]), scheduleContinuation_eq hset hh]

/-- **The primary completion of a zero-copy send.** With `F_MORE` the send keeps its slot until the
notification, without it the send is settled. -/
theorem handleSendZeroCopy_primary (hsub : ((s.lanes .write).awaiters n).Submitted n)
    (hk : ((s.lanes .write).awaiters n).op.kind = .sendZeroCopyComplete)
    (htimed : (s.lanes .write).Timed) {e : CompletionEvent} (he : e.notification = false) :
    let a := ((s.lanes .write).awaiters n).recordedWith (s.lanes .write).timedOut e
    s.handleSendZeroCopy n e = some (if e.more then
      s.setLane .write ((s.lanes .write).setAwaiter n a) else s.settle .write n a) := by
  intro a
  have hrec : ((s.lanes .write).awaiters n).onSendZeroCopy (s.lanes .write).timedOut e = some a :=
    hsub.record _ he
  unfold handleSendZeroCopy
  rw [if_neg (by simp [he])]
  simp only [hrec, Option.bind_eq_bind, Option.bind_some, updateLane_eq]
  cases hm : e.more with
  | true =>
    have hphys : a.split = { logicalResult := true } := by simp [a, Awaiter.recordedWith, hm]
    simp [hphys, Lane.setAwaiter]
  | false =>
    have hset : a.Settled := Awaiter.recordedWith_settled hk _ hm
    have hsettle := settle_sendZeroCopy ht hp hset hk hsub.handle htimed
    have hphys : a.split.physicalTerminal = true := by simp [a, Awaiter.recordedWith, hm]
    simp only [hphys, if_true, Bool.false_eq_true, if_false]
    exact hsettle

theorem handleSendZeroCopy_notification (hrec : ((s.lanes .write).awaiters n).Recorded n)
    (htimed : (s.lanes .write).Timed) {e : CompletionEvent} (he : e.notification = true) :
    s.handleSendZeroCopy n e =
      some (s.settle .write n (((s.lanes .write).awaiters n).notifiedWith e)) := by
  have hsettle := settle_sendZeroCopy ht hp (hrec.settled e) hrec.kind hrec.handle htimed
  unfold handleSendZeroCopy
  rw [if_neg (by simp [hrec.split])]
  simp only [hrec.notify _ he, Option.bind_eq_bind, Option.bind_some, updateLane_eq]
  have hphys : (((s.lanes .write).awaiters n).notifiedWith e).split.physicalTerminal = true := rfl
  simp only [hphys, if_true]
  exact hsettle

end

end

/-- **The completion of a cancel request.** It ends the operation that waits for it and schedules
the continuation that moved to the cancel operation; otherwise it is only recorded. -/
theorem handleCancelCqe_eq (hfly : (s.lanes d).cancelInFlight = true)
    (hop : (s.lanes d).cancelOp.completed = false ∧ (s.lanes d).cancelOp.result = none)
    (hkind : (s.lanes d).cancelOp.kind = d.cancelKind) (result : ℤ)
    (hset : (s.lanes d).primaryTerminal = true → (s.lanes d).target = some n ∧
      (s.lanes d).pending = some n ∧ ((s.lanes d).awaiters n).Settled)
    (htimed : (s.lanes d).Timed) :
    let x := (s.lanes d).cancelAnswered result
    s.handleCancelCqe d result = some (if x.primaryTerminal then
      let s := s.conclude d (x.ended n (x.awaiters n).released (x.timerGeneration + 1))
      if x.cancelOp.handle.isSome then
        { s with shared := s.shared.scheduleCompletion (.cancel d) }
      else s
      else s.setLane d x) := by
  intro x
  have hrec : (s.lanes d).cancelOp.recordCqe result = some x.cancelOp := by
    have : cqeResultDirectlyPublishesLogicalResult (s.lanes d).cancelOp.kind = false := by
      rw [hkind]; cases d <;> rfl
    simp [Op.recordCqe, Op.setResult, hop.2, this, x, Lane.cancelAnswered]
  have hsub : (s.lanes d).cancelSubmitted = true := by
    simp only [Lane.cancelInFlight, Bool.and_eq_true] at hfly
    exact hfly.1
  -- the cancel operation records its completion, and its request is terminal
  have hcomplete :
      (s.setLane d { s.lanes d with cancelOp := x.cancelOp }).completeDeadlineCancel d =
      if x.primaryTerminal then
        ((s.setLane d x).finalizeOperation d).map fun s => (x.cancelOp.handle.isSome, s)
      else some (false, s.setLane d x) := by
    unfold completeDeadlineCancel
    rw [setLane_self, if_neg (by simpa using hsub)]
    simp only [updateLane_eq, setLane_self, setLane_setLane]
    show (if !x.primaryTerminal then some (false, s.setLane d x)
      else ((s.setLane d x).finalizeOperation d).bind
        fun s => some (x.cancelOp.handle.isSome, s)) = _
    cases x.primaryTerminal with
    | false => rfl
    | true => exact Option.map_eq_bind.symm
  unfold handleCancelCqe
  rw [if_neg (by simp [hop.1])]
  simp only [hrec, Option.bind_eq_bind, Option.bind_some, updateLane_eq, hcomplete]
  cases hprimary : x.primaryTerminal with
  | false => rfl
  | true =>
    obtain ⟨ht, hp, hsettled⟩ := hset hprimary
    have hfinal := finalizeOperation_eq (s := s.setLane d x) (d := d) (n := n)
      (by rw [setLane_self]; exact ht) (by rw [setLane_self]; exact hp)
      (by rw [setLane_self]; exact hprimary)
      (by rw [setLane_self]; simp [x, Lane.cancelAnswered, Lane.cancelInFlight])
      (by rw [setLane_self]; exact hsettled)
      (by rw [setLane_self]; exact { htimed with })
    simp only [setLane_self, setLane_conclude] at hfinal
    simp only [if_true, hfinal, Option.map_some, Option.bind_some, conclude_self]
    show (if (x.cancelOp.handle.isSome && x.cancelOp.handle.isSome) = true then _ else _) = _
    rw [Bool.and_self]
    split_ifs <;> rfl

end Stream

end Alyrn.Uring
