import Mathlib.Tactic.Common
import Alyrn.Uring.Connector

/-!
# A connect converges

The caller is resumed once, after every completion that names the awaiter has been handled; then the
descriptor has gone into the returned stream or has been closed, and no timer is left.

`Stage` follows the awaiter: before its start, while the connect is in flight, while only the
cancel's completion is missing, while the continuation is queued, and after the resumption.
-/

namespace Alyrn.Uring.ConnectAwaiter

variable {s s' : ConnectAwaiter} {r : Except Error Unit}

def reported (s : ConnectAwaiter) : Option (Except Error Unit) :=
  match s.completion with
  | some c => some (if c.observed then .error ETIMEDOUT else outcome c.result c.answers)
  | none => s.localError.map .error

/-- What is promised of a connect. -/
structure Converges (s : ConnectAwaiter) : Prop where
  noAbort : s.aborted = false
  once : s.queue.length + s.resumed.length ≤ 1
  progress : s.started = true → s.resumed = [] →
    s.connectInFlight = true ∨ s.cancelInFlight = true ∨ s.queue ≠ []
  settled : s.queue ≠ [] ∨ s.resumed ≠ [] → s.connectInFlight = false ∧ s.cancelInFlight = false ∧
    (s.submitted = true → s.connectTerminal = true) ∧
    (s.cancelSubmitted = true → s.cancelTerminal = true)
  /-- Resumed with the timeout if it was observed before the connect's completion, and else with
  what that completion says. -/
  result : ∀ r ∈ s.resumed, s.reported = some r
  /-- Before the resumption the descriptor went into the returned stream or was closed. -/
  descriptor : s.queue ≠ [] ∨ s.resumed ≠ [] → s.fdOpen = false ∧ s.closes + s.streams = s.sockets ∧
    s.sockets ≤ 1
  stream : s.resumed ≠ [] → (s.streams = 1 ↔ s.resumed = [.ok ()])
  timers : s.queue ≠ [] ∨ s.resumed ≠ [] → s.timers = []

/-! ## Timers and the descriptor -/

/-- At most one timer is registered, and `timer_` names it. -/
def Timed (s : ConnectAwaiter) : Prop :=
  s.timer = none ∧ s.timers = [] ∨ ∃ id c, s.timer = some id ∧ s.timers = [(id, c)]

def untimed (s : ConnectAwaiter) : ConnectAwaiter := { s with timers := [], timer := none }

theorem Timed.cancelTimer_eq (h : Timed s) : s.cancelTimer = s.untimed := by
  rcases h with ⟨ht, hts⟩ | ⟨id, c, ht, hts⟩
  · simp only [ConnectAwaiter.cancelTimer, ht, untimed, ← hts]
    rw [← ht]
  · simp [ConnectAwaiter.cancelTimer, ht, hts, untimed]

def unopened (s : ConnectAwaiter) : ConnectAwaiter :=
  { s with fdOpen := false, closes := s.closes + s.fdOpen.toNat }

theorem closeFd_eq (s : ConnectAwaiter) : s.closeFd = s.unopened := by
  cases h : s.fdOpen with
  | true => simp [ConnectAwaiter.closeFd, unopened, h]
  | false =>
    simp only [ConnectAwaiter.closeFd, unopened, h, Bool.false_eq_true, if_false, Bool.toNat_false,
      Nat.add_zero]
    rw [← h]

def withOp (s : ConnectAwaiter) (op : Op) : ConnectAwaiter := { s with connectOp := op }

theorem finish_eq (h : Timed s) {handle : Option ℕ} {result : Option ℤ} {completed : Bool}
    (hop : s.connectOp = { kind := .connect, handle, result, completed }) :
    s.finish = some { s.untimed.unopened with
      connectOp := { kind := .connect, handle, result, completed
                     lifecycle := .releaseAuthorized } } := by
  have ht : Timed (s.withOp { kind := .connect, handle, result, completed
                              lifecycle := .releaseAuthorized }) := h
  simp only [finish, hop]
  exact congrArg some ((congrArg closeFd ht.cancelTimer_eq).trans (closeFd_eq _))

/-! ## The stages -/

/-- After `await_suspend` began and before a connect was submitted. -/
structure Unsubmitted (s : ConnectAwaiter) : Prop where
  connectOp : s.connectOp = { kind := .connect }
  cancelOp : s.cancelOp = { kind := .connectCancelComplete }
  flags : s.timedOut = false ∧ s.connectTerminal = false ∧ s.cancelSubmitted = false ∧
    s.cancelTerminal = false
  flight : s.connectInFlight = false ∧ s.cancelInFlight = false ∧ s.submitted = false
  outcome : s.result = none ∧ s.completion = none ∧ s.resumed = [] ∧ s.queue = []
  timed : Timed s
  descriptor : s.sockets = s.fdOpen.toNat ∧ s.closes = 0 ∧ s.streams = 0
  noAbort : s.aborted = false

/-- The connect is in the kernel. -/
structure Waiting (s : ConnectAwaiter) : Prop where
  started : s.started = true
  connectOp : s.connectOp = { kind := .connect, handle := some 0 }
  cancelOp : s.cancelOp.kind = .connectCancelComplete ∧ s.cancelOp.handle = none
  connectTerminal : s.connectTerminal = false
  flight : s.connectInFlight = true ∧ s.submitted = true
  cancel : s.cancelSubmitted = false ∧ s.cancelInFlight = false ∧ s.cancelTerminal = false ∨
    s.cancelSubmitted = true ∧ s.cancelInFlight = true ∧ s.cancelTerminal = false ∧
      s.cancelOp = { kind := .connectCancelComplete } ∨
    s.cancelSubmitted = true ∧ s.cancelInFlight = false ∧ s.cancelTerminal = true
  outcome : s.result = none ∧ s.completion = none ∧ s.resumed = [] ∧ s.queue = []
  timed : Timed s
  descriptor : s.sockets = 1 ∧ s.fdOpen = true ∧ s.closes = 0 ∧ s.streams = 0
  noAbort : s.aborted = false

/-- The connect is over, with result `r`. -/
structure Released (s : ConnectAwaiter) (r : Except Error Unit) : Prop where
  started : s.started = true
  reported : s.reported = some r
  terminal : s.connectInFlight = false ∧ (s.submitted = true → s.connectTerminal = true)
  timers : s.timers = [] ∧ s.timer = none
  descriptor : s.fdOpen = false ∧ s.closes + s.streams = s.sockets ∧ s.sockets ≤ 1 ∧
    (s.streams = 1 ↔ r = .ok ())
  noAbort : s.aborted = false

/-- The stages of an awaiter. -/
inductive Stage (s : ConnectAwaiter) : Prop where
  | fresh : s.started = false → Unsubmitted s → s.timers = [] → s.fdOpen = false → Stage s
  | waiting : Waiting s → Stage s
  | draining (r : Except Error Unit) : Released s r → s.result = some r → s.cancelInFlight = true →
      s.cancelSubmitted = true → s.connectTerminal = true → s.connectOp.handle = none →
      s.cancelOp = { kind := .connectCancelComplete, handle := some 0 } → s.resumed = [] →
      s.queue = [] → Stage s
  | queued (r : Except Error Unit) (w : ConnectWork) : Released s r → s.result = some r →
      s.cancelInFlight = false → (s.cancelSubmitted = true → s.cancelTerminal = true) →
      s.connectTerminal = true → (s.connectOp.handle = none ∨ s.connectOp.completed = true) →
      (w = .connect → s.connectOp.handle = some 0) → (w = .cancel → s.cancelOp.handle = some 0) →
      s.resumed = [] → s.queue = [w] → Stage s
  | done (r : Except Error Unit) : Released s r → s.cancelInFlight = false →
      (s.cancelSubmitted = true → s.cancelTerminal = true) → s.resumed = [r] → s.queue = [] →
      Stage s

theorem Stage.converges (h : Stage s) : Converges s := by
  cases h with
  | fresh hs hu =>
    obtain ⟨-, -, hres, hq⟩ := hu.outcome
    constructor <;> simp [hq, hres, hs, hu.noAbort]
  | waiting hw =>
    obtain ⟨-, -, hres, hq⟩ := hw.outcome
    constructor <;> simp [hq, hres, hw.flight.1, hw.noAbort]
  | draining r hr _ hf _ _ _ _ hres hq =>
    constructor <;> simp [hq, hres, hf, hr.noAbort]
  | queued r w hr _ hf hc ht _ _ _ hres hq =>
    obtain ⟨hfd, hsum, hle, -⟩ := hr.descriptor
    exact ⟨hr.noAbort, by simp [hq, hres], fun _ _ => .inr (.inr (by simp [hq])),
      fun _ => ⟨hr.terminal.1, hf, hr.terminal.2, hc⟩, by simp [hres],
      fun _ => ⟨hfd, hsum, hle⟩, by simp [hres], fun _ => hr.timers.1⟩
  | done r hr hf hc hres hq =>
    obtain ⟨hfd, hsum, hle, hiff⟩ := hr.descriptor
    refine ⟨hr.noAbort, by simp [hq, hres], by simp [hres],
      fun _ => ⟨hr.terminal.1, hf, hr.terminal.2, hc⟩, ?_, fun _ => ⟨hfd, hsum, hle⟩, ?_,
      fun _ => hr.timers.1⟩
    · intro r' hr'
      rw [hres, List.mem_singleton] at hr'
      rw [hr', hr.reported]
    · intro _
      rw [hiff, hres]
      simp

/-! ## Resumption -/

theorem Released.resume (h : Released s r) (hres : s.result = some r)
    (hone : s.resumed = []) (hq : s.queue = []) (hflight : s.cancelInFlight = false)
    (hcancel : s.cancelSubmitted = true → s.cancelTerminal = true)
    (hop : s.connectOp.handle = none ∨ s.connectOp.completed = true) :
    ∃ s', s.resume = some s' ∧ Stage s' := by
  have hcheck : (s.connectOp.handle.isSome && !s.connectOp.completed) = false := by
    rcases hop with hop | hop <;> simp [hop]
  have hcheck' : (s.cancelSubmitted && !s.cancelTerminal) = false := by
    cases hc : s.cancelSubmitted with
    | false => rfl
    | true => simp [hcancel hc]
  obtain ⟨hts, ht⟩ := h.timers
  obtain ⟨hfd, hsum, hle, hiff⟩ := h.descriptor
  have heq : s.resume =
      some { s with result := none, resumed := s.resumed ++ [r], destroyed := true } := by
    simp only [ConnectAwaiter.resume, hres, Option.bind_eq_bind, Option.bind_some, hcheck, hcheck',
      Bool.false_eq_true, if_false, cancelTimer, ht, closeFd, hfd]
  refine ⟨_, heq, .done r { h with
    timers := ⟨hts, ht⟩, descriptor := ⟨hfd, hsum, hle, hiff⟩ } hflight hcancel ?_ hq⟩
  simp [hone]

/-! ## The call -/

theorem Unsubmitted.completeInline (h : Unsubmitted s) (hstart : s.started = true) (e : Error) :
    ∃ s', s.completeInline e = some s' ∧ Stage s' := by
  obtain ⟨hres, hcomp, hrd, hq⟩ := h.outcome
  obtain ⟨hsock, hcl, hst⟩ := h.descriptor
  obtain ⟨hf₁, hf₂, hf₃⟩ := h.flight
  obtain ⟨-, -, hcs, -⟩ := h.flags
  have hset : ({ s with localError := some e } : ConnectAwaiter).setResult (.error e) =
      some { s with localError := some e, result := some (.error e) } := by
    simp [setResult, hres]
  have hfin := finish_eq (s := { s with localError := some e, result := some (.error e) }) h.timed
    h.connectOp
  simp only [ConnectAwaiter.completeInline, hset, Option.bind_eq_bind, Option.bind_some, hfin]
  refine Released.resume (r := .error e) ⟨hstart, ?_, ⟨hf₁, ?_⟩, ⟨rfl, rfl⟩, ⟨rfl, ?_, ?_, ?_⟩,
    h.noAbort⟩ rfl hrd hq hf₂ ?_ (.inl rfl)
  · simp [ConnectAwaiter.reported, unopened, untimed, hcomp]
  · simp [unopened, untimed, hf₃]
  · simp [unopened, untimed, hcl, hst, hsock]
  · simp only [unopened, untimed, hsock]
    exact Bool.toNat_le _
  · simp [unopened, untimed, hst]
  · simp [unopened, untimed, hcs]

theorem Unsubmitted.submitConnect (h : Unsubmitted s) (hstart : s.started = true)
    (hfd : s.fdOpen = true) (answer : Option Error) :
    ∃ s', s.submitConnect answer = some s' ∧ Stage s' := by
  obtain ⟨hsock, hcl, hst⟩ := h.descriptor
  obtain ⟨hf₁, hf₂, hf₃⟩ := h.flight
  obtain ⟨-, hct, hcs, hctm⟩ := h.flags
  unfold ConnectAwaiter.submitConnect
  cases s.submitOp answer with
  | some e => exact h.completeInline hstart e
  | none =>
    refine ⟨_, rfl, .waiting ⟨hstart, by simp [h.connectOp], by simp [h.cancelOp], hct, ⟨rfl, rfl⟩,
      .inl ⟨hcs, hf₂, hctm⟩, h.outcome, h.timed, ⟨by simp [hsock, hfd], hfd, hcl, hst⟩, h.noAbort⟩⟩

def opened (s : ConnectAwaiter) : ConnectAwaiter :=
  { s with started := true, fdOpen := true, sockets := s.sockets + 1 }

theorem Unsubmitted.awaitSuspend (h : Unsubmitted s) (htimers : s.timers = [])
    (hfd : s.fdOpen = false) (ans : StartAnswers) :
    ∃ s', s.awaitSuspend ans = some s' ∧ Stage s' := by
  obtain ⟨hsock, hcl, hst⟩ := h.descriptor
  have hstarted : Unsubmitted { s with started := true } :=
    { h with }
  have hopen : Unsubmitted s.opened :=
    ⟨h.1, h.2, h.3, h.4, h.5, h.6, ⟨by simp [opened, hsock, hfd], hcl, hst⟩, h.8⟩
  have htimed : Unsubmitted (s.opened.runAfter .timeout) :=
    ⟨h.1, h.2, h.3, h.4, h.5,
      .inr ⟨s.nextTimer, .timeout, rfl, by simp [opened, runAfter, htimers]⟩,
      ⟨by simp [opened, runAfter, hsock, hfd], hcl, hst⟩, h.8⟩
  unfold ConnectAwaiter.awaitSuspend
  simp only
  split_ifs with hstop htime
  · exact hstarted.completeInline rfl _
  · cases ans.socket with
    | some e => exact hstarted.completeInline rfl e
    | none =>
      simp only
      cases ans.timer with
      | some e => exact hopen.completeInline rfl e
      | none => exact htimed.submitConnect rfl rfl _
  · cases ans.socket with
    | some e => exact hstarted.completeInline rfl e
    | none => exact hopen.submitConnect rfl rfl _

/-! ## The completions -/

def yielding (s : ConnectAwaiter) (r : Except Error Unit) : ConnectAwaiter :=
  match r with
  | .ok _ => { s with result := some r, fdOpen := false, streams := s.streams + 1 }
  | .error _ => { s with result := some r }

def verdict (s : ConnectAwaiter) (result : ℤ) (ans : SocketAnswers) : Except Error Unit :=
  if s.timedOut then .error ETIMEDOUT else outcome result ans

theorem connected_eq (hres : s.result = none) (result : ℤ) (ans : SocketAnswers) :
    s.connected result ans = some (s.yielding (s.verdict result ans)) := by
  unfold connected verdict
  by_cases ht : s.timedOut = true
  · simp [ht, setResult, hres, yielding]
  · cases ho : outcome result ans with
    | error e | ok u => simp [ht, setResult, hres, yielding]

def landed (s : ConnectAwaiter) (result : ℤ) (ans : SocketAnswers) : ConnectAwaiter :=
  { s with
    connectOp := { kind := .connect, handle := some 0, result := some result, completed := true }
    connectInFlight := false, connectTerminal := true
    completion := some ⟨result, ans, s.timedOut⟩, timers := [], timer := none }

def concluded (s : ConnectAwaiter) (result : ℤ) (ans : SocketAnswers) : ConnectAwaiter :=
  { ((s.landed result ans).yielding (s.verdict result ans)).unopened with
    connectOp := { kind := .connect, handle := some 0, result := some result, completed := true
                   lifecycle := .releaseAuthorized } }

theorem Waiting.onComplete_eq (h : Waiting s) (result : ℤ) (ans : SocketAnswers) :
    ({ s with connectInFlight := false } : ConnectAwaiter).handleConnectCqe result ans =
      (s.concluded result ans).moveContinuation.bind fun s =>
        if s.connectOp.handle.isSome then
          s.connectOp.authorizeResume.bind fun op =>
            some { s with connectOp := op, queue := s.queue ++ [.connect] }
        else some s := by
  obtain ⟨hres, -, -, -⟩ := h.outcome
  have htimed : Timed { s with
      connectInFlight := false, connectTerminal := true
      connectOp := { kind := .connect, handle := some 0, result := some result, completed := true }
      completion := some ⟨result, ans, s.timedOut⟩ } := h.timed
  have hcan : ConnectAwaiter.cancelTimer { s with
      connectInFlight := false, connectTerminal := true
      connectOp := { kind := .connect, handle := some 0, result := some result, completed := true }
      completion := some ⟨result, ans, s.timedOut⟩ } = s.landed result ans := htimed.cancelTimer_eq
  have hconn := connected_eq (s := s.landed result ans) hres result ans
  have hyield : ∀ v, Timed ((s.landed result ans).yielding v) ∧
      ((s.landed result ans).yielding v).connectOp =
      { kind := .connect, handle := some 0, result := some result, completed := true } ∧
      ((s.landed result ans).yielding v).untimed = (s.landed result ans).yielding v := by
    intro v
    cases v <;> exact ⟨.inl ⟨rfl, rfl⟩, rfl, rfl⟩
  obtain ⟨hty, hopy, huy⟩ := hyield (s.verdict result ans)
  have hfin := finish_eq hty hopy
  rw [huy] at hfin
  have hdone : ({ s with
      connectInFlight := false
      connectOp := { kind := .connect, handle := some 0, result := some result
                     completed := true } } :
      ConnectAwaiter).onComplete result ans = (s.concluded result ans).moveContinuation := by
    simp only [onComplete, hcan, Option.bind_eq_bind]
    rw [hconn, Option.bind_some]
    exact (congrArg (Option.bind · moveContinuation) hfin).trans rfl
  simp only [handleConnectCqe, h.connectOp]
  exact congrArg (Option.bind · _) hdone

theorem Waiting.concluded (h : Waiting s) (result : ℤ) (ans : SocketAnswers) :
    Released (s.concluded result ans) (s.verdict result ans) ∧
      (s.concluded result ans).result = some (s.verdict result ans) := by
  obtain ⟨hsock, hfd, hcl, hst⟩ := h.descriptor
  cases hv : s.verdict result ans with
  | ok u | error e =>
    refine ⟨⟨?_, ?_, ?_, ?_, ?_, ?_⟩, ?_⟩ <;>
      simp_all [ConnectAwaiter.concluded, yielding, landed, unopened, ConnectAwaiter.reported,
        verdict, h.started, h.noAbort]

theorem concluded_frame (s : ConnectAwaiter) (result : ℤ) (ans : SocketAnswers) :
    (s.concluded result ans).cancelOp = s.cancelOp ∧
      (s.concluded result ans).cancelSubmitted = s.cancelSubmitted ∧
      (s.concluded result ans).cancelTerminal = s.cancelTerminal ∧
      (s.concluded result ans).cancelInFlight = s.cancelInFlight ∧
      (s.concluded result ans).connectTerminal = true ∧
      (s.concluded result ans).resumed = s.resumed ∧ (s.concluded result ans).queue = s.queue := by
  unfold ConnectAwaiter.concluded
  cases s.verdict result ans <;> exact ⟨rfl, rfl, rfl, rfl, rfl, rfl, rfl⟩

theorem Waiting.connectCqe (h : Waiting s) (result : ℤ) (ans : SocketAnswers) :
    ∃ s', ({ s with connectInFlight := false } : ConnectAwaiter).handleConnectCqe result ans =
      some s' ∧ Stage s' := by
  obtain ⟨hrel, hres⟩ := h.concluded result ans
  obtain ⟨hop, hsub, hterm, hfl, hct, hrd, hq⟩ := concluded_frame s result ans
  obtain ⟨-, -, hrd', hq'⟩ := h.outcome
  rw [hrd'] at hrd
  rw [hq'] at hq
  rw [h.onComplete_eq]
  rcases h.cancel with ⟨hcs, hcf, -⟩ | ⟨hcs, hcf, hctm, hcop⟩ | ⟨hcs, hcf, hctm⟩
  · -- no cancel was sent
    have hmove : (s.concluded result ans).moveContinuation = some (s.concluded result ans) := by
      simp [moveContinuation, hsub, hcs]
    rw [hmove]
    refine ⟨_, rfl, .queued _ .connect { hrel with } hres
      (hfl.trans hcf) (fun hx => ?_) hct (.inr rfl) (fun _ => rfl) (by simp) hrd (by simp [hq])⟩
    exact absurd ((hsub.trans hcs).symm.trans hx) (by simp)
  · -- the continuation waits for the cancel
    have hmove : (s.concluded result ans).moveContinuation = some { s.concluded result ans with
        cancelOp := { kind := .connectCancelComplete, handle := some 0 }
        connectOp := { kind := .connect, result := some result, completed := true
                       lifecycle := .releaseAuthorized } } := by
      simp only [moveContinuation, hsub, hcs, hterm, hctm, hop, hcop, Bool.not_false, Bool.and_self,
        if_true]
      rfl
    rw [hmove]
    exact ⟨_, rfl, .draining _ { hrel with } hres (hfl.trans hcf)
      (hsub.trans hcs) hct rfl rfl hrd hq⟩
  · -- the cancel has completed before
    have hmove : (s.concluded result ans).moveContinuation = some (s.concluded result ans) := by
      simp [moveContinuation, hsub, hcs, hterm, hctm]
    rw [hmove]
    exact ⟨_, rfl, .queued _ .connect { hrel with } hres
      (hfl.trans hcf) (fun _ => hterm.trans hctm) hct (.inr rfl) (fun _ => rfl) (by simp) hrd
      (by simp [hq])⟩

theorem Waiting.cancelCqe (h : Waiting s) (hf : s.cancelInFlight = true) (result : ℤ) :
    ∃ s', ({ s with cancelInFlight := false } : ConnectAwaiter).handleCancelCqe result = some s' ∧
      Stage s' := by
  obtain ⟨hcs, hop⟩ : s.cancelSubmitted = true ∧
      s.cancelOp = { kind := .connectCancelComplete } := by
    rcases h.cancel with ⟨-, hcf, -⟩ | ⟨hcs, -, -, hcop⟩ | ⟨-, hcf, -⟩
    · exact absurd (hf.symm.trans hcf) (by simp)
    · exact ⟨hcs, hcop⟩
    · exact absurd (hf.symm.trans hcf) (by simp)
  have heq : ({ s with cancelInFlight := false } : ConnectAwaiter).handleCancelCqe result =
      some { s with
        cancelInFlight := false, cancelTerminal := true
        cancelOp := { kind := .connectCancelComplete, result := some result
                      completed := true } } := by
    simp only [handleCancelCqe, hop]
    simp [Op.recordCqe, Op.setResult, cqeResultDirectlyPublishesLogicalResult, h.connectTerminal]
  exact ⟨_, heq, .waiting { h with cancelOp := ⟨rfl, rfl⟩, cancel := .inr (.inr ⟨hcs, rfl, rfl⟩) }⟩

theorem draining_cancelCqe (h : Released s r) (hres : s.result = some r)
    (hct : s.connectTerminal = true) (hop : s.connectOp.handle = none)
    (hcop : s.cancelOp = { kind := .connectCancelComplete, handle := some 0 })
    (hrd : s.resumed = []) (hq : s.queue = []) (result : ℤ) :
    ∃ s', ({ s with cancelInFlight := false } : ConnectAwaiter).handleCancelCqe result = some s' ∧
      Stage s' := by
  have heq : ({ s with cancelInFlight := false } : ConnectAwaiter).handleCancelCqe result =
      some { s with
        cancelInFlight := false, cancelTerminal := true, queue := s.queue ++ [.cancel]
        cancelOp := { kind := .connectCancelComplete, handle := some 0, result := some result
                      completed := true } } := by
    simp only [handleCancelCqe, hcop]
    simp [Op.recordCqe, Op.setResult, cqeResultDirectlyPublishesLogicalResult, hct,
      Op.authorizeResume, usesCoupledSingleResultLifecycle]
  exact ⟨_, heq, .queued r .cancel { h with } hres rfl (fun _ => rfl) hct
    (.inl hop) (by simp) (fun _ => rfl) hrd (by simp [hq])⟩

/-! ## Timers -/

theorem Waiting.submitCancel (h : Waiting s) (hcs : s.cancelSubmitted = false)
    (htimer : s.timer = none ∧ s.timers = []) (ans : CancelAnswers) :
    Waiting (s.submitCancel ans) := by
  obtain ⟨hcf, hctm⟩ : s.cancelInFlight = false ∧ s.cancelTerminal = false := by
    rcases h.cancel with ⟨-, hcf, hctm⟩ | ⟨hx, -⟩ | ⟨hx, -⟩
    · exact ⟨hcf, hctm⟩
    · exact absurd (hcs.symm.trans hx) (by simp)
    · exact absurd (hcs.symm.trans hx) (by simp)
  have hop : s.cancelOp.beginNextRequest = { kind := .connectCancelComplete } := by
    simp [Op.beginNextRequest, h.cancelOp.1]
  unfold ConnectAwaiter.submitCancel
  simp only [hop]
  split
  · exact { h with
    cancelOp := ⟨rfl, rfl⟩, cancel := .inr (.inl ⟨rfl, rfl, hctm, rfl⟩), timed := .inl htimer }
  · split_ifs
    · exact { h with cancelOp := ⟨rfl, rfl⟩, cancel := .inl ⟨hcs, hcf, hctm⟩, timed := .inl htimer }
    · split
      · -- the retry timer is the only one
        exact { h with
          cancelOp := ⟨rfl, rfl⟩, cancel := .inl ⟨hcs, hcf, hctm⟩,
          timed := .inr ⟨s.nextTimer, .retry, rfl, by simp [runAfter, htimer.2]⟩ }
      · exact { h with
        cancelOp := ⟨rfl, rfl⟩, cancel := .inl ⟨hcs, hcf, hctm⟩, timed := .inl htimer }

theorem Waiting.fire (h : Waiting s) {id : ℕ} {callback : ConnectTimer}
    (hmem : (id, callback) ∈ s.timers) (ans : CancelAnswers) :
    Waiting (s.fire id callback ans) := by
  -- the fired timer was the only one
  have hnone : s.timers.filter (·.1 ≠ id) = [] := by
    rcases h.timed with ⟨-, hts⟩ | ⟨id', c, -, hts⟩
    · exact absurd (hts ▸ hmem) (by simp)
    · rw [hts, List.mem_singleton] at hmem
      cases hmem
      simp [hts]
  have hfired (b : Bool) : Waiting { s with timers := [], timer := none, timedOut := b } :=
    { h with timed := .inl ⟨rfl, rfl⟩ }
  have hct := h.connectTerminal
  unfold ConnectAwaiter.fire
  simp only [hnone]
  cases hcs : s.cancelSubmitted with
  | true =>
    cases callback with
    | timeout => simpa only [onTimeout, hct, hcs, Bool.or_true, if_true] using hfired s.timedOut
    | retry =>
      simpa only [onRetry, hcs, Bool.not_true, Bool.and_false, Bool.false_eq_true, if_false] using
        hfired s.timedOut
  | false =>
    cases callback with
    | timeout =>
      simpa only [onTimeout, hct, hcs, Bool.or_false, Bool.false_eq_true, if_false] using
        (hfired true).submitCancel hcs ⟨rfl, rfl⟩ ans
    | retry =>
      simpa only [onRetry, hct, hcs, Bool.not_false, Bool.and_self, if_true] using
        (hfired s.timedOut).submitCancel hcs ⟨rfl, rfl⟩ ans

/-! ## Steps and runs -/

theorem Stage.requestStop (h : Stage s) :
    Stage { s with loopState := s.loopState.requestStop } := by
  have hrel {r : Except Error Unit} (hr : Released s r) :
      Released { s with loopState := s.loopState.requestStop } r :=
    { hr with }
  cases h with
  | fresh hs hu => exact .fresh hs { hu with } ‹_› ‹_›
  | waiting hw =>
    exact .waiting { hw with }
  | draining r hr => exact .draining r (hrel hr) ‹_› ‹_› ‹_› ‹_› ‹_› ‹_› ‹_› ‹_›
  | queued r w hr => exact .queued r w (hrel hr) ‹_› ‹_› ‹_› ‹_› ‹_› ‹_› ‹_› ‹_› ‹_›
  | done r hr => exact .done r (hrel hr) ‹_› ‹_› ‹_› ‹_›

theorem orAbort_stage {o : Option ConnectAwaiter} (h : ∃ s', o = some s' ∧ Stage s') :
    Stage (s.orAbort o) := by
  obtain ⟨s', rfl, hs⟩ := h
  exact hs

theorem queued_runWork {w : ConnectWork} (h : Released s r)
    (hres : s.result = some r) (hf : s.cancelInFlight = false)
    (hc : s.cancelSubmitted = true → s.cancelTerminal = true)
    (hop : s.connectOp.handle = none ∨ s.connectOp.completed = true)
    (hw₁ : w = .connect → s.connectOp.handle = some 0)
    (hw₂ : w = .cancel → s.cancelOp.handle = some 0) (hrd : s.resumed = []) :
    ∃ s', ({ s with queue := [] } : ConnectAwaiter).runWork w = some s' ∧ Stage s' := by
  have hrun : ({ s with queue := [] } : ConnectAwaiter).runWork w =
      ({ s with queue := [] } : ConnectAwaiter).resume := by
    cases w with
    | connect => simp [runWork, hw₁ rfl]
    | cancel => simp [runWork, hw₂ rfl]
  rw [hrun]
  exact Released.resume (s := { s with queue := [] }) { h with } hres hrd rfl
    hf hc hop

theorem Stage.waiting_of_timer (h : Stage s) (hts : s.timers ≠ []) : Waiting s := by
  cases h with
  | fresh _ _ h => exact absurd h hts
  | waiting hw => exact hw
  | draining r hr | queued r w hr | done r hr => exact absurd hr.timers.1 hts

theorem Stage.waiting_of_connectInFlight (h : Stage s) (hf : s.connectInFlight = true) :
    Waiting s := by
  cases h with
  | fresh _ hu => exact absurd (hf.symm.trans hu.flight.1) (by simp)
  | waiting hw => exact hw
  | draining r hr | queued r w hr | done r hr =>
    exact absurd (hf.symm.trans hr.terminal.1) (by simp)

theorem Stage.cancelCqe (h : Stage s) (hf : s.cancelInFlight = true) (result : ℤ) :
    ∃ s', ({ s with cancelInFlight := false } : ConnectAwaiter).handleCancelCqe result = some s' ∧
      Stage s' := by
  cases h with
  | fresh _ hu => exact absurd (hf.symm.trans hu.flight.2.1) (by simp)
  | waiting hw => exact hw.cancelCqe hf result
  | draining r hr hres _ _ hct hop hcop hrd hq =>
    exact draining_cancelCqe hr hres hct hop hcop hrd hq result
  | queued r w _ _ hx | done r _ hx => exact absurd (hf.symm.trans hx) (by simp)

theorem Stage.runNext (h : Stage s) {w : ConnectWork} {rest : List ConnectWork}
    (hq : s.queue = w :: rest) :
    ∃ s', ({ s with queue := rest } : ConnectAwaiter).runWork w = some s' ∧ Stage s' := by
  cases h with
  | fresh _ hu => exact absurd (hq.symm.trans hu.outcome.2.2.2) (by simp)
  | waiting hw => exact absurd (hq.symm.trans hw.outcome.2.2.2) (by simp)
  | draining r _ _ _ _ _ _ _ _ hx | done r _ _ _ _ hx => exact absurd (hq.symm.trans hx) (by simp)
  | queued r w' hr hres hf hc _ hop hw₁ hw₂ hrd hx =>
    obtain ⟨rfl, rfl⟩ : w = w' ∧ rest = [] := by simpa using hq.symm.trans hx
    exact queued_runWork hr hres hf hc hop hw₁ hw₂ hrd

theorem Stage.step {a : Action} (h : Stage s) (hs : s.step a = some s') : Stage s' := by
  have hab : s.aborted = false := h.converges.noAbort
  unfold ConnectAwaiter.step at hs
  rw [if_neg (by simp [hab])] at hs
  cases a with
  | connect ans =>
    obtain ⟨hst, rfl⟩ : s.started = false ∧ s.orAbort (s.awaitSuspend ans) = s' := by simpa using hs
    cases h with
    | fresh _ hu hts hfd => exact orAbort_stage (hu.awaitSuspend hts hfd ans)
    | waiting hw => exact absurd (hst.symm.trans hw.started) (by simp)
    | draining r hr | queued r w hr | done r hr =>
      exact absurd (hst.symm.trans hr.started) (by simp)
  | connectCqe result ans =>
    obtain ⟨hf, rfl⟩ := Transition.of_guard hs
    exact orAbort_stage ((h.waiting_of_connectInFlight hf).connectCqe result ans)
  | cancelCqe result =>
    obtain ⟨hf, rfl⟩ := Transition.of_guard hs
    exact orAbort_stage (h.cancelCqe hf result)
  | fire id callback ans =>
    obtain ⟨hmem, rfl⟩ := Transition.of_guard hs
    exact .waiting ((h.waiting_of_timer (List.ne_nil_of_mem hmem)).fire hmem ans)
  | requestStop =>
    cases hs
    exact h.requestStop
  | runNext =>
    cases hq : s.queue with
    | nil => simp [hq] at hs
    | cons w rest =>
      rw [hq] at hs
      cases hs
      exact orAbort_stage (h.runNext hq)

/-- **Convergence.** In every run of the awaiter, whatever the order of the timer and of the two
completions and whatever the submissions, the retries and the loop answer. -/
theorem connect_converges (h : system.Reaches s) : Converges s := by
  have hstage : Stage s := by
    refine h.invariant (I := Stage) ?_ ?_
    · rintro s ⟨hasTimeout, loopState, rfl⟩
      exact .fresh rfl ⟨rfl, rfl, ⟨rfl, rfl, rfl, rfl⟩, ⟨rfl, rfl, rfl⟩, ⟨rfl, rfl, rfl, rfl⟩,
        .inl ⟨rfl, rfl⟩, ⟨rfl, rfl, rfl⟩, rfl⟩ rfl rfl
    · intro s a s' hs _ hstep
      exact hs.step hstep
  exact hstage.converges

/-- The timeout is observed, and the connect succeeds before its cancel arrives: the descriptor is
closed, and the caller is resumed after the cancel. -/
theorem connect_converges_timeout :
    ∃ s, (system.Reaches s ∧ s.resumed = [.error ETIMEDOUT] ∧ s.closes = 1) ∧ Converges s :=
  system.exists_reachesBy_and _ { hasTimeout := true } ⟨true, .running, rfl⟩
    [.connect {}, .fire 0 .timeout {}, .connectCqe 0 {}, .cancelCqe (-2), .runNext] (by decide)
    fun _ hr _ => connect_converges hr

/-- The connect itself fails with `ETIMEDOUT`. -/
theorem timedOut_without_timeout : ¬ ∀ s, system.Reaches s → Converges s ∧ ∀ r ∈ s.resumed,
    (r = .error ETIMEDOUT ↔ ∃ c ∈ s.completion, c.observed = true) := by
  intro hall
  obtain ⟨s, hr, hres, hcomp⟩ := system.exists_reachesBy (fun _ _ => True) { hasTimeout := false }
    ⟨false, .running, rfl⟩ [.connect {}, .connectCqe (-110) {}, .runNext]
    (P := fun s => s.resumed = [.error ETIMEDOUT] ∧ s.completion = some ⟨-110, {}, false⟩)
    (by decide)
  obtain ⟨c, hc, hobs⟩ := ((hall s hr).2 (.error ETIMEDOUT) (by simp [hres])).mp rfl
  rw [hcomp] at hc
  cases hc
  exact absurd hobs (by simp)

end Alyrn.Uring.ConnectAwaiter
