import Alyrn.Uring.Stream.Protocol

/-!
# Starting an operation

What a call of `Read`, `Recv`, `Send` or `SendZeroCopy` does: it returns at once (`Returned`), or it
suspends with its operation submitted (`Launched`). No check fails on the way.
-/

namespace Alyrn.Uring

open Function

namespace Awaiter

variable {a : Awaiter}

structure Fresh (a : Awaiter) : Prop where
  result : a.op.result = none
  timedOut : a.timedOut = false
  outcome : a.outcome = none

def immediate : Except Error ℕ → Bool
  | .ok n => n = 0
  | .error e => 0 < e

theorem sizeResult_neg {e : ℕ} (he : 0 < e) : sizeResult (-(e : ℤ)) false = .error e := by
  have hneg : negErrno (-(e : ℤ)) = e := by simp [negErrno]
  rw [sizeResult, if_neg (by simp), if_pos (by omega), hneg]

theorem setImmediate_value {r : Except Error ℕ} (hr : immediate r = true) {op : Op}
    (hop : op.result = none) : ∃ value : ℤ,
      op.setImmediate r = some { op with result := some value } ∧ sizeResult value false = r := by
  cases r with
  | ok n =>
    obtain rfl : n = 0 := by simpa [immediate] using hr
    exact ⟨0, by simp [Op.setImmediate, Op.setImmediateSuccess, Op.setResult, hop], rfl⟩
  | error e =>
    have he : 0 < e := by simpa [immediate] using hr
    refine ⟨-(e : ℤ), ?_, sizeResult_neg he⟩
    simp [Op.setImmediate, Op.setImmediateError, Op.setResult, hop, he]

theorem Fresh.setImmediate (h : a.Fresh) {r : Except Error ℕ} (hr : immediate r = true) :
    ∃ b, a.setImmediate r = some b ∧ b.awaitResume = some r ∧ b.op.kind = a.op.kind := by
  obtain ⟨value, hvalue, hsize⟩ := setImmediate_value hr h.result
  unfold Awaiter.setImmediate
  simp only [hvalue, Option.bind_eq_bind, Option.bind_some]
  by_cases hk : a.op.kind = .recvCopyComplete
  · rw [if_pos hk, finish, if_neg (by simp [h.outcome])]
    exact ⟨_, rfl, by simp [awaitResume, hk], rfl⟩
  · rw [if_neg hk]
    refine ⟨_, rfl, ?_, rfl⟩
    unfold awaitResume
    split
    · exact absurd ‹_› hk
    · simp only [h.timedOut, toSizeResult_some, hsize]
    · simp only [h.timedOut, toSizeResult_some, hsize]

theorem Fresh.abandon (h : a.Fresh) (hr : a.op.kind = .recvComplete → a.reservation ≠ .none)
    (e : Error) : ∃ b, a.abandon e = some b ∧ b.Fresh ∧ b.op.kind = a.op.kind := by
  unfold Awaiter.abandon
  by_cases hk : a.op.kind = .recvComplete
  · rw [if_pos hk, finishReservation, if_neg (hr hk)]
    exact ⟨_, rfl, { h with }, rfl⟩
  · rw [if_neg hk]
    exact ⟨a, rfl, h, rfl⟩

end Awaiter

namespace Awaiter

variable {a : Awaiter} {n : ℕ}

structure Prepared (a : Awaiter) : Prop extends Fresh a where
  completed : a.op.completed = false
  lifecycle : a.op.lifecycle = .pending
  split : a.split = {}
  reservation : a.op.kind = .recvComplete → a.reservation ≠ .none

def withHandle (a : Awaiter) (n : ℕ) : Awaiter := { a with op := { a.op with handle := some n } }

theorem Prepared.submitted (h : a.Prepared) : (a.withHandle n).Submitted n :=
  { h with handle := rfl }

end Awaiter

def Lane.begun (x : Lane) (n : ℕ) : Lane :=
  { x with target := some n, cancelOp := x.cancelOp.beginNextRequest }

def Lane.retimed (x : Lane) (G : ℕ) (T : Option ℕ) (L : List Timer) (K : ℕ) : Lane :=
  { x with timerGeneration := G, timer := T, timers := L, nextTimer := K }

def Lane.rolledBack (x : Lane) (n : ℕ) (a : Awaiter) (e : Error) (G K : ℕ) : Lane :=
  { x with
    pending := none, target := none, cancelOp := x.cancelOp.beginNextRequest
    timer := none, timers := [], timerGeneration := G, nextTimer := K
    awaiters := update x.awaiters n a, results := x.results ++ [(n, .error e)] }

def Lane.launched (x : Lane) (n : ℕ) : Lane :=
  { x with
    target := some n, primaries := [n]
    awaiters := update x.awaiters n ((x.awaiters n).withHandle n) }

def Lane.withResult (x : Lane) (n : ℕ) (a : Awaiter) (r : Except Error ℕ) : Lane :=
  { x with awaiters := update x.awaiters n a, results := x.results ++ [(n, r)] }

variable {x : Lane}

@[simp] theorem Lane.setAwaiter_self {n : ℕ} {a : Awaiter} :
    (x.setAwaiter n a).awaiters n = a := update_self ..

theorem Lane.setAwaiter_eq_self (x : Lane) (n : ℕ) : x.setAwaiter n (x.awaiters n) = x := by
  simp [Lane.setAwaiter]

@[simp] theorem Lane.setAwaiter_withResult {n : ℕ} {a b : Awaiter}
    {r : Except Error ℕ} : (x.setAwaiter n a).withResult n b r = x.withResult n b r := by
  simp [Lane.setAwaiter, Lane.withResult]

namespace Stream

variable {s : Stream} {d : Dir} {n : ℕ}

/-! ## Calls that return at once -/

theorem returnImmediate_eq (h : ((s.lanes d).awaiters n).Fresh) {r : Except Error ℕ}
    (hr : Awaiter.immediate r = true) : ∃ b, b.op.kind = ((s.lanes d).awaiters n).op.kind ∧
      s.returnImmediate d n r = some (s.setLane d ((s.lanes d).withResult n b r)) := by
  obtain ⟨b, hb, hresume, hkind⟩ := h.setImmediate hr
  refine ⟨b, hkind, ?_⟩
  simp only [returnImmediate, resumeOperation, hb, Option.bind_eq_bind, Option.bind_some,
    updateLane_eq, setLane_self, Lane.setAwaiter_self, hresume, setLane_setLane]
  rfl

theorem rollBack_eq (ht : (s.lanes d).target = some n) (hp : (s.lanes d).pending = some n)
    (htimed : (s.lanes d).Timed) (hf : ((s.lanes d).awaiters n).Fresh)
    (hr : ((s.lanes d).awaiters n).op.kind = .recvComplete →
      ((s.lanes d).awaiters n).reservation ≠ .none) {e : Error} (he : 0 < e) :
    ∃ b, b.op.kind = ((s.lanes d).awaiters n).op.kind ∧
      s.rollBack d n e = some (s.conclude d
        (((s.lanes d).ended n b ((s.lanes d).timerGeneration + 1)).withResult n b (.error e))) := by
  obtain ⟨a, ha, hfresh, hakind⟩ := hf.abandon hr e
  have habort : (s.lanes d).abortOperation n = some { (s.lanes d).reset with
      timer := none, timers := [], timerGeneration := (s.lanes d).timerGeneration + 1 } := by
    rw [Lane.abortOperation, if_pos ht, htimed.cancelDeadlineTimer_eq]
    rfl
  have hrel : (s.setLane d { (s.lanes d).reset with
        timer := none, timers := [], timerGeneration := (s.lanes d).timerGeneration + 1 }).release
        d n = s.conclude d
          ((s.lanes d).ended n ((s.lanes d).awaiters n) ((s.lanes d).timerGeneration + 1)) := by
    rw [release_eq (by rw [setLane_self]; exact hp), setLane_self, setLane_conclude]
    simp [Lane.ended, Lane.reset]
  set y := (s.lanes d).ended n ((s.lanes d).awaiters n) ((s.lanes d).timerGeneration + 1) with hy
  have hya : y.awaiters n = (s.lanes d).awaiters n := update_self ..
  obtain ⟨b, hkind, hret⟩ := returnImmediate_eq (s := s.conclude d (y.setAwaiter n a)) (d := d)
    (n := n) (r := .error e) (by simpa using hfresh) (by simpa [Awaiter.immediate] using he)
  rw [conclude_self, Lane.setAwaiter_self, hakind] at hkind
  refine ⟨b, hkind, ?_⟩
  rw [conclude_self, Lane.setAwaiter_withResult, conclude_setLane (by rfl)] at hret
  unfold rollBack
  simp only [habort, Option.bind_eq_bind, Option.bind_some, hrel, conclude_self, hya, ha,
    updateLane_eq]
  rw [conclude_setLane (by rfl), hret]
  simp [hy, Lane.withResult, Lane.ended]

/-! ## Calls that submit -/

structure Reserved (x : Lane) (n : ℕ) : Prop where
  pending : x.pending = some n
  target : x.target = none
  idle : x.Idle
  timers : x.timers = []
  awaiter : (x.awaiters n).Prepared

theorem Reserved.reset_eq (h : Reserved x n) : x.reset = x := by
  obtain ⟨-, ht, ⟨h1, h2, h3, h4, h5, -, -, -⟩, -, -⟩ := h
  cases x
  simp_all [Lane.reset]

theorem Reserved.beginOperation_cases (h : Reserved x n) (now : ℕ) (ok : Bool) :
    ∃ G T L K, ((x.begun n).retimed G T L K).Timed ∧
      (x.deadline.any (· ≤ now) = true ∧
        x.beginOperation n now ok = some (.error ETIMEDOUT, (x.begun n).retimed G T L K) ∨
      x.deadline.any (· ≤ now) = false ∧
        (x.beginOperation n now ok = some (.error ENOMEM, (x.begun n).retimed G T L K) ∨
          x.beginOperation n now ok = some (.ok (), (x.begun n).retimed G T L K))) := by
  have hbegun :
      ({ x.reset with cancelOp := x.cancelOp.beginNextRequest, target := some n } : Lane) =
      x.begun n := by rw [h.reset_eq]; rfl
  have heq : x.beginOperation n now ok = if x.deadline.any (· ≤ now) then
      some (.error ETIMEDOUT, x.begun n)
      else some (if ((x.begun n).armDeadlineTimer now ok).1 then .ok () else .error ENOMEM,
        ((x.begun n).armDeadlineTimer now ok).2) := by
    rw [Lane.beginOperation, if_neg (by simp [h.target]), hbegun]
    rfl
  rw [heq]
  cases hd : x.deadline.any (· ≤ now) with
  | true => exact ⟨_, _, _, _, .of_nil h.idle.timer h.timers, .inl ⟨rfl, rfl⟩⟩
  | false =>
    simp only [Bool.false_eq_true, if_false]
    rcases Lane.armDeadlineTimer_cases (x := x.begun n) now ok with
      ha | ⟨-, -, -, ⟨-, expiration, ha⟩ | ⟨-, ha⟩⟩
    · rw [ha]
      exact ⟨_, _, _, _, .of_nil h.idle.timer h.timers, .inr ⟨trivial, .inr rfl⟩⟩
    · rw [ha]
      refine ⟨x.timerGeneration + 1, some x.nextTimer,
        [⟨x.nextTimer, expiration, .deadline, x.timerGeneration + 1⟩], x.nextTimer + 1,
        ⟨rfl, by simp [Lane.retimed], by simp [Lane.retimed]⟩, .inr ⟨trivial, .inr ?_⟩⟩
      simp [Lane.runAfter, Lane.retimed, Lane.begun, h.timers]
    · rw [ha]
      exact ⟨_, _, _, _, .of_nil h.idle.timer h.timers, .inr ⟨trivial, .inl rfl⟩⟩

theorem Reserved.rollBack (h : Reserved x n) {a : Awaiter} (hf : a.Fresh)
    (hr : a.op.kind = .recvComplete → a.reservation ≠ .none) {G K : ℕ} {T : Option ℕ}
    {L : List Timer} (htimed : ((x.begun n).retimed G T L K).Timed) {e : Error} (he : 0 < e) :
    ∃ b, b.op.kind = a.op.kind ∧
      (s.setLane d (((x.begun n).retimed G T L K).setAwaiter n a)).rollBack d n e =
        some (s.conclude d (x.rolledBack n b e (G + 1) K)) := by
  obtain ⟨b, hkind, heq⟩ := rollBack_eq
    (s := s.setLane d (((x.begun n).retimed G T L K).setAwaiter n a)) (d := d) (n := n) (e := e)
    (by rw [setLane_self]; rfl) (by rw [setLane_self]; exact h.pending)
    (by rw [setLane_self]; exact { htimed with })
    (by rw [setLane_self, Lane.setAwaiter_self]; exact hf)
    (by rw [setLane_self, Lane.setAwaiter_self]; exact hr) he
  rw [setLane_self, Lane.setAwaiter_self] at hkind
  refine ⟨b, hkind, ?_⟩
  rw [heq, setLane_self, setLane_conclude]
  have hlane : ((((x.begun n).retimed G T L K).setAwaiter n a).ended n b (G + 1)).withResult n b
      (.error e) = x.reset.rolledBack n b e (G + 1) K := by
    simp [Lane.ended, Lane.withResult, Lane.setAwaiter, Lane.reset, Lane.retimed, Lane.begun,
      Lane.rolledBack]
  rw [← h.reset_eq, ← hlane, h.reset_eq]
  rfl

theorem submitAnswer_pos {ans : StartAnswers} (hans : ans.valid = true) {e : Error}
    (h : s.shared.submitAnswer ans.submit = some e) : 0 < e := by
  unfold Shared.submitAnswer at h
  split_ifs at h
  · cases h
    decide
  · rw [StartAnswers.valid, h] at hans
    simpa [Nat.pos_iff_ne_zero] using hans

/-- **From `Begin…Operation` on.** The call returns with an error, which is `ETIMEDOUT` if the
deadline has passed; or the deadline has not passed and the operation is submitted. -/
theorem Reserved.launch (h : Reserved (s.lanes d) n) {ans : StartAnswers}
    (hans : ans.valid = true) : (∃ b e G K, b.op.kind = ((s.lanes d).awaiters n).op.kind ∧ 0 < e ∧
      ((s.lanes d).deadline.any (· ≤ s.shared.now) = true → e = ETIMEDOUT) ∧
      s.launch d n ans = some (s.conclude d ((s.lanes d).rolledBack n b e G K))) ∨
    (s.lanes d).deadline.any (· ≤ s.shared.now) = false ∧ ∃ G T L K,
      (((s.lanes d).begun n).retimed G T L K).Timed ∧ s.launch d n ans =
        some (s.setLane d ((((s.lanes d).begun n).retimed G T L K).launched n)) := by
  have hprep := h.awaiter
  -- the roll-back before the handle is set
  have hback {G T L K} (htimed : (((s.lanes d).begun n).retimed G T L K).Timed) {e : Error}
      (he : 0 < e) : ∃ b, b.op.kind = ((s.lanes d).awaiters n).op.kind ∧
      (s.setLane d (((s.lanes d).begun n).retimed G T L K)).rollBack d n e =
        some (s.conclude d ((s.lanes d).rolledBack n b e (G + 1) K)) := by
    have hself := Lane.setAwaiter_eq_self (((s.lanes d).begun n).retimed G T L K) n
    rw [← hself]
    exact h.rollBack hprep.toFresh hprep.reservation htimed he
  unfold Stream.launch
  obtain ⟨G, T, L, K, htimed, ⟨hpassed, hbegin⟩ | ⟨hdue, hbegin | hbegin⟩⟩ :=
    h.beginOperation_cases s.shared.now ans.timer
  · -- the deadline has passed
    obtain ⟨b, hkind, heq⟩ := hback htimed (e := ETIMEDOUT) (by decide)
    exact .inl ⟨b, ETIMEDOUT, _, _, hkind, by decide, fun _ => rfl, by simpa [hbegin] using heq⟩
  · -- the timer cannot be registered
    obtain ⟨b, hkind, heq⟩ := hback htimed (e := ENOMEM) (by decide)
    refine .inl ⟨b, ENOMEM, _, _, hkind, by decide, fun hp => ?_, by simpa [hbegin] using heq⟩
    rw [hp] at hdue
    cases hdue
  · simp only [hbegin, Option.bind_eq_bind, Option.bind_some, setLane_shared, updateLane_eq,
      setLane_self, setLane_setLane]
    cases hsub : s.shared.submitAnswer ans.submit with
    | none =>
      refine .inr ⟨hdue, G, T, L, K, htimed, ?_⟩
      have hnil : (s.lanes d).primaries = [] := h.idle.primaries
      simp [Lane.launched, Lane.setAwaiter, Lane.retimed, Lane.begun, hnil, Awaiter.withHandle]
    | some e =>
      have he : 0 < e := submitAnswer_pos hans hsub
      have hdue' (hp : (s.lanes d).deadline.any (· ≤ s.shared.now) = true) : e = ETIMEDOUT := by
        rw [hp] at hdue
        cases hdue
      refine .inl ?_
      by_cases hz : ((s.lanes d).awaiters n).op.kind = .sendZeroCopyComplete
      · obtain ⟨b, hkind, heq⟩ := h.rollBack (s := s) (d := d)
          (a := ((s.lanes d).awaiters n).withHandle n) { hprep with }
          hprep.reservation htimed he
        refine ⟨b, e, G + 1, K, hkind, he, hdue', ?_⟩
        show (if ((s.lanes d).awaiters n).op.kind = .sendZeroCopyComplete then _ else _) = _
        rw [if_pos hz]
        exact heq
      · obtain ⟨b, hkind, heq⟩ := hback htimed he
        refine ⟨b, e, G + 1, K, hkind, he, hdue', ?_⟩
        show (if ((s.lanes d).awaiters n).op.kind = .sendZeroCopyComplete then _ else _) = _
        rw [if_neg hz]
        exact heq

/-! ## The calls -/

end Stream

namespace Lane

variable (x : Lane)

/-- The lane after a call that returned `r` and touched nothing else. -/
def refused (b : Awaiter) (r : Except Error ℕ) : Lane :=
  { x with
    started := x.started + 1, awaiters := update x.awaiters x.started b
    results := x.results ++ [(x.started, r)] }

def undone (b : Awaiter) (e : Error) (G K : ℕ) : Lane :=
  { x.refused b (.error e) with
    cancelOp := x.cancelOp.beginNextRequest, timerGeneration := G, nextTimer := K }

def suspended (a : Awaiter) (G : ℕ) (T : Option ℕ) (L : List Timer) (K : ℕ) : Lane :=
  { x with
    started := x.started + 1, awaiters := update x.awaiters x.started a
    pending := some x.started, target := some x.started, primaries := [x.started]
    cancelOp := x.cancelOp.beginNextRequest
    timerGeneration := G, timer := T, timers := L, nextTimer := K }

end Lane

namespace Stream

variable {s : Stream} {d : Dir} {a : Awaiter}

/-- How the start of an operation goes. -/
inductive Starts (s : Stream) (d : Dir) (kind : OpKind) (buffer : List UInt8) : Stream → Prop where
  | refused {b : Awaiter} {r : Except Error ℕ} : b.op.kind = kind →
      Starts s d kind buffer (s.setLane d ((s.lanes d).refused b r))
  | released {b : Awaiter} {r : Except Error ℕ} : b.op.kind = kind → (s.lanes d).pending = none →
      Starts s d kind buffer (s.conclude d ((s.lanes d).refused b r))
  | undone {b : Awaiter} {e : Error} {G K : ℕ} : b.op.kind = kind → (s.lanes d).pending = none →
      Starts s d kind buffer (s.conclude d ((s.lanes d).undone b e G K))
  | suspended {b : Awaiter} {G : ℕ} {T : Option ℕ} {L : List Timer} {K : ℕ} :
      b.op.kind = kind → b.buffer = buffer → b.Submitted (s.lanes d).started →
      s.validate d = .ok () → (s.lanes d).pending = none →
      (s.lanes d).deadline.any (· ≤ s.shared.now) = false →
      ((s.lanes d).suspended b G T L K).Timed →
      Starts s d kind buffer (s.setLane d ((s.lanes d).suspended b G T L K))

def made (s : Stream) (d : Dir) (a : Awaiter) : Stream := s.setLane d ((s.lanes d).makeAwaiter a)

theorem made_eq : s.updateLane d (·.makeAwaiter a) = s.made d a := rfl

@[simp] theorem made_awaiter : ((s.made d a).lanes d).awaiters (s.lanes d).started = a := by
  simp [made, Lane.makeAwaiter]

@[simp] theorem made_validate : (s.made d a).validate d = s.validate d := rfl

theorem made_validateAvailable : (s.made d a).validateAvailable d = s.validateAvailable d := by
  unfold validateAvailable
  rw [made_validate]
  simp [made, Lane.makeAwaiter]

theorem validateAvailable_ok (h : s.validateAvailable d = .ok ()) :
    s.validate d = .ok () ∧ (s.lanes d).pending = none := by
  unfold validateAvailable at h
  cases hv : s.validate d with
  | error e => rw [hv] at h; cases h
  | ok u =>
    rw [hv] at h
    refine ⟨rfl, ?_⟩
    cases hp : (s.lanes d).pending with
    | none => rfl
    | some n => simp [hp, bind, Except.bind] at h

def Proper {α : Type} (r : Except Error α) : Prop := ∀ e, r = .error e → 0 < e

theorem Proper.ok {α : Type} (v : α) : Proper (.ok v) := fun e h => by cases h

theorem Proper.error {α : Type} {e : Error} (h : 0 < e) : Proper (.error e : Except Error α) :=
  fun e' h' => by cases h'; exact h

theorem Proper.bind {α β : Type} {r : Except Error α} {f : α → Except Error β} (hr : Proper r)
    (hf : ∀ v, Proper (f v)) : Proper (r >>= f) := by
  cases r with
  | error e => exact .error (hr e rfl)
  | ok v => exact hf v

theorem Proper.ite {α : Type} {c : Prop} [Decidable c] {r q : Except Error α} (hr : Proper r)
    (hq : Proper q) : Proper (if c then r else q) := by
  split_ifs
  · exact hr
  · exact hq

theorem validateResource_proper (l : Net.StreamLifecycle) : Proper l.validateResource := by
  unfold Net.StreamLifecycle.validateResource
  cases l.resource with
  | opened => exact .ok _
  | closing | closed => exact .error (by decide)

theorem validateRead_proper (l : Net.StreamLifecycle) : Proper l.validateRead :=
  (validateResource_proper l).bind fun _ => .ite (.error (by decide)) (.ok _)

theorem validateWrite_proper (l : Net.StreamLifecycle) : Proper l.validateWrite := by
  refine (validateResource_proper l).bind fun _ => ?_
  cases l.write with
  | usable => exact .ok _
  | shutdownPreparing | shutdown => exact .error (by decide)

theorem validate_proper : Proper (s.validate d) := by
  have hfd : Proper (if s.shared.fdOpen then .ok () else .error EBADF : Except Error Unit) :=
    .ite (.ok _) (.error (by decide))
  unfold validate
  cases s.shared.loopState.isStopping with
  | true => exact .error (by decide)
  | false =>
    cases d with
    | read => exact (validateRead_proper _).bind fun _ => hfd
    | write => exact (validateWrite_proper _).bind fun _ => hfd

theorem validateAvailable_proper : Proper (s.validateAvailable d) :=
  validate_proper.bind fun _ => .ite (.error (by decide)) (.ok _)

/-! ### The parts of a call -/

theorem starts_refused (ha : a.Fresh) {r : Except Error ℕ} (hr : Awaiter.immediate r = true) :
    ∃ b, b.op.kind = a.op.kind ∧ (s.made d a).returnImmediate d (s.lanes d).started r =
      some (s.setLane d ((s.lanes d).refused b r)) := by
  obtain ⟨b, hkind, heq⟩ := returnImmediate_eq (s := s.made d a) (d := d)
    (n := (s.lanes d).started) (by rw [made_awaiter]; exact ha) hr
  rw [made_awaiter] at hkind
  refine ⟨b, hkind, ?_⟩
  rw [heq, made, setLane_self, setLane_setLane]
  simp [Lane.withResult, Lane.makeAwaiter, Lane.refused]

theorem starts_of_error (ha : a.Fresh) {e : Error} (he : 0 < e) :
    ∃ s', (s.made d a).returnImmediate d (s.lanes d).started (.error e) = some s' ∧
      Starts s d a.op.kind a.buffer s' := by
  obtain ⟨b, hkind, heq⟩ := starts_refused (s := s) (d := d) ha (r := .error e)
    (by simpa [Awaiter.immediate] using he)
  exact ⟨_, heq, .refused hkind⟩

theorem starts_of_ok (ha : a.Fresh) :
    ∃ s', (s.made d a).returnImmediate d (s.lanes d).started (.ok 0) = some s' ∧
      Starts s d a.op.kind a.buffer s' := by
  obtain ⟨b, hkind, heq⟩ := starts_refused (s := s) (d := d) ha (r := .ok 0) rfl
  exact ⟨_, heq, .refused hkind⟩

def reservedFor (s : Stream) (d : Dir) (a : Awaiter) : Stream :=
  s.setLane d { (s.lanes d).makeAwaiter a with pending := some (s.lanes d).started }

theorem reserve_eq (h : s.validateAvailable d = .ok ()) :
    (s.made d a).reserve d (s.lanes d).started = .ok (s.reservedFor d a) := by
  unfold reserve
  rw [made_validateAvailable, h]
  simp [bind, Except.bind, made, reservedFor, updateLane_eq]

theorem starts_of_release (hp : (s.lanes d).pending = none) (ha : a.Fresh) {r : Except Error ℕ}
    (hr : Awaiter.immediate r = true) :
    ∃ s', ((s.reservedFor d a).release d (s.lanes d).started).returnImmediate d
      (s.lanes d).started r = some s' ∧ Starts s d a.op.kind a.buffer s' := by
  have hrel : (s.reservedFor d a).release d (s.lanes d).started =
      s.conclude d ((s.lanes d).makeAwaiter a) := by
    rw [release_eq (by simp [reservedFor]), reservedFor, setLane_self, setLane_conclude]
    congr 1
    have : ((s.lanes d).makeAwaiter a).pending = none := hp
    rw [← this]
  obtain ⟨b, hkind, heq⟩ := returnImmediate_eq (s := s.conclude d ((s.lanes d).makeAwaiter a))
    (d := d) (n := (s.lanes d).started) (by rw [conclude_self]; simpa [Lane.makeAwaiter] using ha)
    hr
  have hkind' : b.op.kind = a.op.kind := by simpa [Lane.makeAwaiter] using hkind
  have hlane : ((s.lanes d).makeAwaiter a).withResult (s.lanes d).started b r =
      (s.lanes d).refused b r := by simp [Lane.withResult, Lane.makeAwaiter, Lane.refused]
  rw [conclude_self, hlane, conclude_setLane (by rfl)] at heq
  exact ⟨_, by rw [hrel, heq], .released hkind' hp⟩

variable {ans : StartAnswers}

theorem starts_of_launch (hP : (s.lanes d).Protocol d) (hv : s.validateAvailable d = .ok ())
    (ha : a.Prepared) (hans : ans.valid = true) :
    ∃ s', (s.reservedFor d a).launch d (s.lanes d).started ans = some s' ∧
      Starts s d a.op.kind a.buffer s' := by
  obtain ⟨hvalid, hp⟩ := validateAvailable_ok hv
  have hidle := hP.idle hp
  have htimers : (s.lanes d).timers = [] := by
    have := hP.timed.ids
    rw [hidle.timer] at this
    simpa using this
  set x : Lane := { (s.lanes d).makeAwaiter a with pending := some (s.lanes d).started } with hx
  have hawaiter : x.awaiters (s.lanes d).started = a := update_self ..
  have hres : Reserved ((s.reservedFor d a).lanes d) (s.lanes d).started := by
    rw [reservedFor, setLane_self]
    exact ⟨rfl, hP.target.trans hp, { hidle with }, htimers,
      by rw [show Lane.awaiters _ _ = a from hawaiter]; exact ha⟩
  have hself : (s.reservedFor d a).lanes d = x := setLane_self
  rcases hres.launch hans with ⟨b, e, G, K, hkind, he, -, heq⟩ | ⟨hdue, G, T, L, K, htimed, heq⟩
  · rw [hself, hawaiter] at hkind
    have hlane : x.rolledBack (s.lanes d).started b e G K = (s.lanes d).undone b e G K := by
      simp [hx, Lane.rolledBack, Lane.undone, Lane.refused, Lane.makeAwaiter, hp,
        hP.target.trans hp, hidle.timer, htimers]
    rw [hself, hlane, reservedFor, setLane_conclude] at heq
    exact ⟨_, heq, .undone hkind hp⟩
  · have hlane : ((x.begun (s.lanes d).started).retimed G T L K).launched (s.lanes d).started =
        (s.lanes d).suspended (a.withHandle (s.lanes d).started) G T L K := by
      simp [hx, Lane.begun, Lane.retimed, Lane.launched, Lane.suspended, Lane.makeAwaiter]
    rw [hself, hlane, reservedFor, setLane_setLane] at heq
    rw [hself] at hdue htimed
    exact ⟨_, heq, .suspended rfl rfl ha.submitted hvalid hp hdue
      { htimed with }⟩

/-! ### The members -/

theorem prepared_of_kind {kind : OpKind} {buffer : List UInt8} (h : kind ≠ .recvComplete) :
    Awaiter.Prepared { op := { kind }, buffer } :=
  ⟨⟨rfl, rfl, rfl⟩, rfl, rfl, rfl, fun hk => absurd hk h⟩

section

variable (hP : (s.lanes .read).Protocol .read)
include hP

theorem read_starts (length : ℕ) (hans : ans.valid = true) :
    ∃ s', s.read length ans = some s' ∧ Starts s .read .readComplete [] s' := by
  have ha : Awaiter.Prepared { op := { kind := .readComplete } } := prepared_of_kind (by decide)
  unfold read
  simp only [made_eq, made_validateAvailable]
  cases hv : s.validateAvailable .read with
  | error e => exact starts_of_error ha.toFresh (validateAvailable_proper e hv)
  | ok u =>
    simp only [reserve_eq hv]
    split_ifs with hshut hlen
    · exact starts_of_ok ha.toFresh
    · exact starts_of_release (validateAvailable_ok hv).2 ha.toFresh rfl
    · exact starts_of_launch hP hv ha hans

theorem recv_starts (reservation : ReservationKind) (hans : ans.valid = true) :
    ∃ s', s.recv reservation ans = some s' ∧ Starts s .read .recvComplete [] s' := by
  have ha : Awaiter.Fresh { op := { kind := .recvComplete } } := ⟨rfl, rfl, rfl⟩
  unfold recv
  simp only [made_eq, made_validateAvailable]
  cases hv : s.validateAvailable .read with
  | error e => exact starts_of_error ha (validateAvailable_proper e hv)
  | ok u =>
    simp only [reserve_eq hv]
    split_ifs with hshut hres
    · exact starts_of_ok ha
    · exact starts_of_release (validateAvailable_ok hv).2 ha (by decide)
    · have hupdate : (s.reservedFor .read { op := { kind := .recvComplete } }).updateLane .read
          (fun x => x.setAwaiter (s.lanes .read).started
            { x.awaiters (s.lanes .read).started with reservation }) =
          s.reservedFor .read { op := { kind := .recvComplete }, reservation } := by
        simp [reservedFor, updateLane_eq, Lane.setAwaiter, Lane.makeAwaiter]
      rw [hupdate]
      exact starts_of_launch hP hv ⟨⟨rfl, rfl, rfl⟩, rfl, rfl, rfl, fun _ => hres⟩ hans

theorem recvCopy_starts {pool : Option Error} (hpool : pool ≠ some 0) (hans : ans.valid = true) :
    ∃ s', s.recvCopy pool ans = some s' ∧ Starts s .read .recvCopyComplete [] s' := by
  have ha : Awaiter.Prepared { op := { kind := .recvCopyComplete } } := prepared_of_kind (by decide)
  unfold recvCopy
  simp only [made_eq, made_validateAvailable]
  cases hv : s.validateAvailable .read with
  | error e => exact starts_of_error ha.toFresh (validateAvailable_proper e hv)
  | ok u =>
    simp only [reserve_eq hv]
    split_ifs with hshut
    · exact starts_of_ok ha.toFresh
    · cases pool with
      | some e => exact starts_of_error ha.toFresh (Nat.pos_of_ne_zero fun h => hpool (by rw [h]))
      | none => exact starts_of_launch hP hv ha hans

end

theorem startSend_starts (hP : (s.lanes .write).Protocol .write) {kind : OpKind}
    (hkind : kind ≠ .recvComplete) (buffer : List UInt8)
    (hans : ans.valid = true) :
    ∃ s', s.startSend kind buffer ans = some s' ∧ Starts s .write kind buffer s' := by
  have ha : Awaiter.Prepared { op := { kind }, buffer } := prepared_of_kind hkind
  unfold startSend
  simp only [made_eq, made_validateAvailable]
  by_cases hb : buffer.isEmpty = true
  · simp only [if_pos hb]
    cases hv : s.validateAvailable .write with
    | error e => exact starts_of_error ha.toFresh (validateAvailable_proper e hv)
    | ok u => exact starts_of_ok ha.toFresh
  · simp only [if_neg hb]
    cases hv : s.validateAvailable .write with
    | error e =>
      have hres : (s.made .write { op := { kind }, buffer }).reserve .write
          (s.lanes .write).started = .error e := by
        rw [reserve, made_validateAvailable, hv]
        rfl
      simp only [hres]
      exact starts_of_error ha.toFresh (validateAvailable_proper e hv)
    | ok u =>
      simp only [reserve_eq hv]
      exact starts_of_launch hP hv ha hans

end Stream

end Alyrn.Uring
