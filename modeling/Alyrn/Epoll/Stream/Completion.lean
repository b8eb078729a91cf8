import Mathlib.Tactic.Common
import Alyrn.Epoll.Stream

/-!
# Operations of the epoll stream complete once

Whatever wins, an operation that was suspended leaves its slot through `CompleteRead` or
`CompleteWrite`, or with its awaiter. `completed` is the lane after it. `Inv` says what holds of a
direction between two entries from the loop: a call that is over has one result, and a call that
waits is watched, has its deadline armed, and cannot miss the socket.
-/

namespace Alyrn.Epoll

open Function

/-- An awaiter that waits for its result. -/
def Awaiter.Waiting (a : Awaiter) : Prop :=
  ∃ kind left, a = { kind, left, reservationActive := kind.reserves, suspended := true }

/-- The call is over: it has one result, unless the awaiter was destroyed while it waited. -/
def Awaiter.Settled (a : Awaiter) : Prop :=
  if a.dropped then a.results = [] else ∃ r, a.result = some r ∧ a.results = [(r, a.suspended)]

namespace Lane

variable {x y : Lane} {d : Side} {n now : ℕ} {r : Except Error ℕ} {edge isOpen : Bool}
  {answers : List (Except Error ℕ)} {a : Awaiter}

def Logged (x : Lane) : Prop :=
  ∀ n < x.started, x.pending ≠ some n → (x.awaiters n).Settled

/-- Call `n` waits in the slot. -/
structure Held (x : Lane) (edge isOpen : Bool) (n : ℕ) : Prop where
  started : n < x.started
  waiting : (x.awaiters n).Waiting
  interest : x.interest = true
  wakeup : x.ready = true → x.hasEvent edge = true ∨ x.polled = true
  isOpen : isOpen = true

/-- The invariant of a lane. -/
structure Inv (x : Lane) (edge isOpen : Bool) : Prop where
  logged : x.Logged
  held : ∀ n, x.pending = some n → x.Held edge isOpen n
  timers : x.timers = x.timer.toList
  timer : ∀ t, x.timer = some t → x.pending.isSome = true ∧ t.generation = x.timerGeneration ∧
    x.deadline = some t.expiration
  armed : x.pending.isSome = true → x.deadline.isSome = true → x.timer.isSome = true

/-- Call `n` has its result and its continuation is scheduled. -/
def Resumed (x : Lane) (n : ℕ) : Prop := ∃ r, (r, true) ∈ (x.awaiters n).results

/-- Call `n` has its result, or waits with awaiter `a`. -/
def Owes (x : Lane) (n : ℕ) (a : Awaiter) : Prop :=
  x.Resumed n ∨ x.pending = some n ∧ x.awaiters n = a

/-! ## The end of an operation -/

theorem Logged.set (h : x.Logged) (haw : y.awaiters = update x.awaiters n a)
    (hother : ∀ m ≠ n, m < y.started → y.pending ≠ some m → m < x.started ∧ x.pending ≠ some m)
    (ha : y.pending ≠ some n → a.Settled) : y.Logged := by
  intro m hm hp
  rw [haw]
  by_cases hmn : m = n
  · subst hmn
    rw [update_self]
    exact ha hp
  · rw [update_of_ne hmn]
    obtain ⟨hlt, hne⟩ := hother m hmn hm hp
    exact h m hlt hne

theorem ne_of_pending {m : ℕ} (hp : x.pending = some n) (hm : m ≠ n) : x.pending ≠ some m := by
  rw [hp]
  exact fun h => hm (Option.some.inj h).symm

theorem Logged.idle (h : x.Logged) (hp : x.pending = none) (ht : x.timer = none)
    (hts : x.timers = []) : x.Inv edge isOpen where
  logged := h
  held := by simp [hp]
  timers := by simp [ht, hts]
  timer := by simp [ht]
  armed := by simp [hp]

theorem Inv.idle (h : x.Inv edge isOpen) (hp : x.pending = none) :
    x.timer = none ∧ x.timers = [] := by
  have ht : x.timer = none := by
    rw [Option.eq_none_iff_forall_ne_some]
    intro t ht
    simpa [hp] using (h.timer t ht).1
  exact ⟨ht, by rw [h.timers, ht]; rfl⟩

theorem setInterest_eq (x : Lane) (b : Bool) :
    ∃ reported, x.setInterest b = { x with interest := b, reported } := by
  unfold Lane.setInterest
  split_ifs with hb
  · exact ⟨x.reported, by rw [← hb]⟩
  · exact ⟨_, rfl⟩

theorem Inv.setInterest (h : x.Inv edge isOpen) (hp : x.pending = none) (b : Bool) :
    (x.setInterest b).Inv edge isOpen := by
  obtain ⟨ht, hts⟩ := h.idle hp
  obtain ⟨_, heq⟩ := x.setInterest_eq b
  rw [heq]
  exact Logged.idle h.logged hp ht hts

theorem cancelDeadline_timers (hts : x.timers = x.timer.toList) : x.cancelDeadline.timers = [] := by
  unfold cancelDeadline
  rw [hts]
  cases x.timer <;> simp

/-- The slot is free, the result is given and the continuation scheduled. -/
def ended (x : Lane) (n : ℕ) (r : Except Error ℕ) : Lane :=
  { x.cancelDeadline.setAwaiter n { x.awaiters n with
      lifecycle := .continuationAuthorized, result := some r, reservationActive := false
      results := [(r, true)] } with pending := none }

/-- The lane after `CompleteRead` or `CompleteWrite`. -/
def completed (x : Lane) (d : Side) (n : ℕ) (r : Except Error ℕ) : Lane :=
  if d = .write ∨ r.toOption.getD 0 = 0 then (x.ended n r).setInterest false else x.ended n r

theorem finishAttempt_eq (hnone : a.result = none)
    (hres : a.reservationActive = a.kind.reserves) (hr : r ≠ .error 0) :
    a.finishAttempt r = some { a with result := some r, reservationActive := false } := by
  cases hk : a.kind.reserves <;>
    simp [Awaiter.finishAttempt, Awaiter.setResult, hk, hr, hnone, hres]

theorem complete_eq (hp : x.pending = some n) (hw : (x.awaiters n).Waiting) (hr : r ≠ .error 0) :
    x.complete d r = some (x.completed d n r) := by
  obtain ⟨kind, left, ha⟩ := hw
  have hres : (x.cancelDeadline.awaiters n).completeResult r = some { x.awaiters n with
      lifecycle := .resultReady, result := some r, reservationActive := false } := by
    show (x.awaiters n).completeResult r = _
    rw [ha]
    exact finishAttempt_eq (a := { kind, left, lifecycle := .resultReady, suspended := true
                                   reservationActive := kind.reserves }) rfl rfl hr
  have hnil : (x.awaiters n).results = [] := by rw [ha]
  unfold complete completed
  rw [hp]
  simp only [hres, Option.bind_eq_bind, Option.bind_some, SingleResultLifecycle.tryAuthorizeRelease,
    SingleResultLifecycle.tryAuthorizeContinuation, Option.some.injEq, hnil, List.nil_append]
  split_ifs
  · -- the interest is given up before or after the result is noted
    cases hi : x.interest <;>
      simp [Lane.setInterest, rechecked, ended, cancelDeadline, setAwaiter, hi]
  · rfl

theorem completed_eq (x : Lane) (d : Side) (n : ℕ) (r : Except Error ℕ) :
    ∃ interest reported, x.completed d n r = { x.ended n r with interest, reported } := by
  unfold completed
  split_ifs
  · exact ⟨false, setInterest_eq _ _⟩
  · exact ⟨_, _, rfl⟩

theorem completed_resumed (x : Lane) (d : Side) (n : ℕ) (r : Except Error ℕ) :
    (r, true) ∈ ((x.completed d n r).awaiters n).results := by
  obtain ⟨_, _, heq⟩ := x.completed_eq d n r
  rw [heq]
  show (r, true) ∈ (update x.awaiters n _ n).results
  rw [update_self]
  exact List.mem_cons_self

theorem Logged.completed (h : x.Logged) (hp : x.pending = some n) (hw : (x.awaiters n).Waiting)
    (hts : x.timers = x.timer.toList) : (x.completed d n r).Inv edge isOpen := by
  obtain ⟨_, _, heq⟩ := x.completed_eq d n r
  rw [heq]
  refine Logged.idle
    (h.set rfl (fun m hm hlt _ => ⟨hlt, ne_of_pending hp hm⟩) fun _ => ?_) rfl rfl ?_
  · obtain ⟨kind, left, ha⟩ := hw
    rw [ha]
    exact ⟨r, rfl, rfl⟩
  · exact cancelDeadline_timers hts

/-- **Completion.** It changes nothing if nobody waits, and fails no check. -/
theorem Inv.complete (h : x.Inv edge isOpen) (hr : r ≠ .error 0) :
    ∃ y, x.complete d r = some y ∧ y.Inv edge isOpen ∧ y.pending = none ∧
      ∀ m a, x.Owes m a → y.Resumed m := by
  cases hp : x.pending with
  | none =>
    refine ⟨x, by rw [Lane.complete, hp], h, hp, ?_⟩
    rintro m a (hres | ⟨hm, -⟩)
    · exact hres
    · exact absurd (hp.symm.trans hm) nofun
  | some n =>
    have hw := (h.held n hp).waiting
    obtain ⟨_, _, heq⟩ := x.completed_eq d n r
    refine ⟨_, complete_eq hp hw hr, h.logged.completed hp hw h.timers, by rw [heq]; rfl, ?_⟩
    intro m a ho
    by_cases hm : m = n
    · subst hm
      exact ⟨r, x.completed_resumed d m r⟩
    · rcases ho with ⟨q, hq⟩ | ⟨hpm, -⟩
      · refine ⟨q, ?_⟩
        rw [heq]
        show (q, true) ∈ (update x.awaiters n _ m).results
        rw [update_of_ne hm]
        exact hq
      · exact absurd hpm (ne_of_pending hp hm)

/-! ## Deadlines -/

theorem Held.armOrFail (hl : x.Logged) (hp : x.pending = some n) (h : x.Held edge isOpen n)
    (ht : x.timer = none) (hts : x.timers = []) (ok : Bool) :
    ∃ y, x.armOrFail d now ok = some y ∧ y.Inv edge isOpen := by
  have hts' : x.timers = x.timer.toList := by rw [ht, hts]; rfl
  have hheld : ∀ m, x.pending = some m → x.Held edge isOpen m := by
    intro m hm
    cases hp.symm.trans hm
    exact h
  cases hd : x.deadline with
  | none =>
    have heq : x.armOrFail d now ok = some x := by simp [Lane.armOrFail, armDeadline, hd]
    exact ⟨x, heq, hl, hheld, hts', by simp [ht], by simp [hd]⟩
  | some t =>
    let y : Lane := { x with timerGeneration := x.timerGeneration + 1 }
    by_cases hnow : t ≤ now
    · have hc := complete_eq (d := d) hp h.waiting (r := .error ETIMEDOUT) (by decide)
      have heq : x.armOrFail d now ok = some (x.completed d n (.error ETIMEDOUT)) := by
        simp [Lane.armOrFail, armDeadline, hp, hd, hnow, hc]
      exact ⟨_, heq, hl.completed hp h.waiting hts'⟩
    · cases ok with
      | true =>
        have heq : x.armOrFail d now true = some { y with
            timer := some ⟨t, y.timerGeneration⟩
            timers := y.timers ++ [⟨t, y.timerGeneration⟩] } := by
          simp [Lane.armOrFail, armDeadline, hp, hd, hnow, y]
        refine ⟨_, heq, hl, fun m hm => { hheld m hm with }, ?_, ?_, fun _ _ => rfl⟩
        · show x.timers ++ _ = _
          rw [hts]
          rfl
        · intro u hu
          cases hu
          exact ⟨Option.isSome_iff_exists.mpr ⟨n, hp⟩, rfl, hd⟩
      | false =>
        have hc := complete_eq (x := y) (d := d) hp h.waiting (r := .error ENOMEM) (by decide)
        have heq : x.armOrFail d now false = some (y.completed d n (.error ENOMEM)) := by
          rw [← hc]
          simp [Lane.armOrFail, armDeadline, hp, hd, hnow, y]
        exact ⟨_, heq, Logged.completed (x := y) hl hp h.waiting hts'⟩

theorem Inv.setDeadline (h : x.Inv edge isOpen) (deadline : Option ℕ) (ok : Bool) :
    ∃ y, x.setDeadline d deadline now ok = some y ∧ y.Inv edge isOpen := by
  have hts := cancelDeadline_timers h.timers
  have hl : Logged { x.cancelDeadline with deadline } := h.logged
  unfold Lane.setDeadline
  cases hp : x.pending with
  | none =>
    have heq : ({ x.cancelDeadline with deadline } : Lane).armOrFail d now ok =
        some { x.cancelDeadline with deadline } := by
      simp [armOrFail, armDeadline, Lane.cancelDeadline, hp]
    exact ⟨_, heq, hl.idle hp rfl hts⟩
  | some n =>
    have hh := h.held n hp
    exact Held.armOrFail hl hp { hh with } rfl hts ok

/-- **Expiry.** A timer of the lane is the one of the call that waits, and times it out. -/
theorem Inv.fire (h : x.Inv edge isOpen) {t : Timer} (ht : t ∈ x.timers) :
    ∃ y n, Lane.handleDeadline { x with timers := x.timers.erase t } d t.generation = some y ∧
      y.Inv edge isOpen ∧ x.pending = some n ∧ x.deadline = some t.expiration ∧
      y.pending = none ∧ (.error ETIMEDOUT, true) ∈ (y.awaiters n).results := by
  have htimer : x.timer = some t := by
    rw [h.timers] at ht
    exact Option.mem_toList.mp ht
  obtain ⟨hp, hg, hd⟩ := h.timer t htimer
  obtain ⟨n, hp⟩ := Option.isSome_iff_exists.mp hp
  have hh := h.held n hp
  let y : Lane := { x with timers := x.timers.erase t, timer := none }
  have heq := complete_eq (x := y) (d := d) hp hh.waiting (r := .error ETIMEDOUT) (by decide)
  have hts : y.timers = y.timer.toList := by
    show x.timers.erase t = []
    simp [h.timers, htimer]
  obtain ⟨_, _, hpend⟩ := y.completed_eq d n (.error ETIMEDOUT)
  refine ⟨y.completed d n (.error ETIMEDOUT), n, ?_,
    Logged.completed (x := y) h.logged hp hh.waiting hts, hp, hd, by rw [hpend]; rfl,
    y.completed_resumed d n _⟩
  rw [Lane.handleDeadline, if_neg (by simp [hg])]
  exact heq

theorem Inv.drop (h : x.Inv edge isOpen) (n : ℕ) : (x.drop n).Inv edge isOpen := by
  have hts := cancelDeadline_timers h.timers
  unfold Lane.drop
  split_ifs with hp
  · obtain ⟨kind, left, ha⟩ := (h.held n hp).waiting
    have hl : Logged { x.cancelDeadline.setAwaiter n { x.awaiters n with dropped := true } with
        pending := none } := by
      refine h.logged.set rfl (fun m hm hlt _ => ⟨hlt, ne_of_pending hp hm⟩) fun _ => ?_
      rw [ha]
      exact rfl
    exact (hl.idle rfl rfl hts).setInterest rfl false
  · exact h

/-! ## The calls -/

/-- The next call, with awaiter `a`. -/
def called (x : Lane) (a : Awaiter) : Lane :=
  { x.setAwaiter x.started a with started := x.started + 1 }

theorem called_awaiters (x : Lane) (a : Awaiter) : (x.called a).awaiters x.started = a :=
  update_self ..

theorem called_setAwaiter (x : Lane) (a b : Awaiter) :
    (x.called a).setAwaiter x.started b = x.called b := by
  simp [called, setAwaiter]

section

variable (h : x.Inv edge isOpen)
include h

theorem Inv.called (ha : a.Settled) : (x.called a).Inv edge isOpen := by
  refine { h with logged := h.logged.set rfl ?_ fun _ => ha, held := fun m hp => ?_ }
  · intro m hm hlt hp
    have hlt : m < x.started + 1 := hlt
    exact ⟨by omega, hp⟩
  · have hh := h.held m hp
    have hw : ((x.called a).awaiters m).Waiting := by
      show (update x.awaiters x.started a m).Waiting
      rw [update_of_ne (Nat.ne_of_lt hh.started)]
      exact hh.waiting
    exact { hh with started := Nat.lt_succ_of_lt hh.started, waiting := hw }

theorem Inv.returnInline (a : Awaiter) {b : Awaiter}
    (hb : b = { kind := b.kind, left := b.left, result := some r }) :
    ∃ y, (x.called a).returnInline x.started r (some b) = some y ∧ y.Inv edge isOpen := by
  have heq : b.completeStoredInline = some { b with lifecycle := .releaseAuthorized } := by
    rw [hb]
    rfl
  refine ⟨x.called { b with lifecycle := .releaseAuthorized, results := [(r, false)] }, ?_,
    h.called ?_⟩
  · simp only [Lane.returnInline, heq, Option.bind_eq_bind, Option.bind_some, called_setAwaiter]
    rw [hb]
    rfl
  · rw [hb]
    exact ⟨r, rfl, rfl⟩

theorem Inv.completeInline {kind : OperationKind} {left : ℕ} (hr : r ≠ .error 0) :
    ∃ y, (x.called { kind, left }).completeInline x.started r = some y ∧ y.Inv edge isOpen := by
  have heq : Awaiter.setResult { kind, left } r = some { kind, left, result := some r } := by
    simp [Awaiter.setResult, hr]
  rw [Lane.completeInline, called_awaiters, heq]
  exact h.returnInline _ rfl

/-- **Suspension.** The call is watched for from now on, or its deadline has passed. -/
theorem Inv.suspend (hp : x.pending = none) (ho : isOpen = true)
    {kind : OperationKind} {left : ℕ} (ok : Bool) :
    ∃ y, Lane.suspend { x.called { kind, left, reservationActive := kind.reserves } with
      ready := false } d x.started now ok = some y ∧ y.Inv edge isOpen := by
  obtain ⟨ht, hts⟩ := h.idle hp
  let a : Awaiter := { kind, left, reservationActive := kind.reserves, suspended := true }
  let y : Lane := { x.called a with ready := false, pending := some x.started }
  have heq : Lane.suspend { x.called { kind, left, reservationActive := kind.reserves } with
      ready := false } d x.started now ok = (y.setInterest true).armOrFail d now ok := by
    simp [Lane.suspend, Lane.called, setAwaiter, y, a]
  obtain ⟨reported, hset⟩ := y.setInterest_eq true
  rw [heq, hset]
  have hl : y.Logged := by
    refine h.logged.set rfl (fun m hm hlt _ => ?_) fun hne => absurd rfl hne
    have hlt : m < x.started + 1 := hlt
    exact ⟨by omega, by rw [hp]; nofun⟩
  have hw : ((x.called a).awaiters x.started).Waiting := ⟨kind, left, called_awaiters x a⟩
  exact Held.armOrFail (x := { y with interest := true, reported }) hl rfl
    ⟨Nat.lt_succ_self _, hw, rfl, fun hx => absurd hx Bool.false_ne_true, ho⟩ ht hts ok

end

theorem tryWrite_proper {left : ℕ}
    (hans : Stream.proper answers = true) (hr : (tryWrite left answers).2 = some r) :
    r ≠ .error 0 := by
  fun_induction tryWrite left answers with
  | case1 => cases hr; nofun
  | case2 => cases hr
  | case3 left e => cases hr; simp_all [Stream.proper]
  | case4 => cases hr; decide
  | case5 left n answers _ _ ih => exact ih (by simp_all [Stream.proper]) hr

theorem tryIo_proper
    (hans : Stream.proper answers = true) (hr : (a.tryIo answers).2 = some r) : r ≠ .error 0 := by
  unfold Awaiter.tryIo at hr
  split_ifs at hr
  · exact tryWrite_proper hans hr
  · rintro rfl
    have := List.all_eq_true.mp hans _ (List.mem_of_mem_head? hr)
    simp at this

/-- **Launch.** A call tries the socket, and waits only if that would block. -/
theorem Inv.launch (h : x.Inv edge isOpen) (hp : x.pending = none) (ho : isOpen = true)
    (hans : Stream.proper answers = true)
    (kind : OperationKind) (left : ℕ) (reserved ok : Bool) :
    ∃ y, (x.called { kind, left }).launch d x.started now reserved answers ok = some y ∧
      y.Inv edge isOpen := by
  unfold Lane.launch
  simp only [called_awaiters, called_setAwaiter]
  split_ifs
  · exact h.completeInline (by decide)
  · generalize htry : Awaiter.tryIo _ answers = p
    obtain ⟨left', r⟩ := p
    cases r with
    | some r =>
      have hr : r ≠ .error 0 := tryIo_proper hans (congrArg Prod.snd htry)
      show ∃ y, (x.called _).returnInline x.started r (Awaiter.finishAttempt
        { kind, left := left', reservationActive := kind.reserves } r) = some y ∧ _
      rw [finishAttempt_eq rfl rfl hr]
      exact h.returnInline _ rfl
    | none => exact h.suspend hp ho ok

/-! ## Events -/

theorem Inv.setLeft (h : x.Inv edge isOpen) (hp : x.pending = some n) (left : ℕ) :
    (x.setAwaiter n { x.awaiters n with left }).Inv edge isOpen := by
  refine { h with logged := h.logged.set rfl (fun m _ hlt hne => ⟨hlt, hne⟩) (absurd hp ·)
                  held := fun m hm => ?_ }
  cases hp.symm.trans hm
  have hh := h.held n hp
  obtain ⟨kind, _, ha⟩ := hh.waiting
  have hw : ((x.setAwaiter n { x.awaiters n with left }).awaiters n).Waiting := by
    show (update x.awaiters n _ n).Waiting
    rw [update_self, ha]
    exact ⟨kind, left, rfl⟩
  exact { hh with waiting := hw }

theorem setLeft_results (x : Lane) (n m left : ℕ) :
    ((x.setAwaiter n { x.awaiters n with left }).awaiters m).results = (x.awaiters m).results := by
  show (update x.awaiters n _ m).results = _
  by_cases hm : m = n
  · subst hm
    rw [update_self]
  · rw [update_of_ne hm]

section

variable (h : x.Inv edge isOpen)
include h

/-- What epoll knows changes, and no wakeup is lost. -/
theorem Inv.watch (ready reported polled : Bool)
    (hwake : x.pending.isSome = true → x.interest = true →
      (x.ready = true → x.hasEvent edge = true ∨ x.polled = true) →
      ready = true → hasEvent { x with ready, reported } edge = true ∨ polled = true) :
    Lane.Inv { x with ready, reported, polled } edge isOpen := by
  refine { h with logged := h.logged, held := fun m hm => ?_ }
  have hh := h.held m hm
  exact { hh with
    wakeup := hwake (Option.isSome_iff_exists.mpr ⟨m, hm⟩) hh.interest hh.wakeup }

theorem Inv.rechecked : x.rechecked.Inv edge isOpen := by
  refine h.watch x.ready _ x.polled fun _ hi hwake hr => (hwake hr).imp_left fun hev => ?_
  cases edge <;> simp_all [hasEvent]

theorem Inv.becomeReady :
    Lane.Inv { x with ready := true, reported := x.reported || x.interest } edge isOpen := by
  refine h.watch true _ x.polled fun _ hi _ _ => .inl ?_
  cases edge <;> simp_all [hasEvent]

theorem Inv.poll (more : Bool) :
    Lane.Inv { x with
      polled := x.polled || x.hasEvent edge || more
      reported := false } edge isOpen := by
  refine h.watch x.ready false _ fun _ _ hwake hr => .inr ?_
  rcases hwake hr with hev | hpolled <;> simp_all

theorem Inv.dispatched (hx : x.pending = none ∨ x.ready = false) :
    Lane.Inv { x with polled := false } edge isOpen := by
  refine h.watch x.ready x.reported false fun hp _ _ hr => ?_
  rcases hx with hx | hx
  · rw [hx] at hp
    cases hp
  · rw [hx] at hr
    cases hr

/-- **Readiness.** The call that waits tries the socket again. -/
theorem Inv.dispatchReady (hans : Stream.proper answers = true) :
    ∃ y, x.dispatchReady d edge answers = some y ∧ y.Inv edge isOpen ∧
      ∀ m a, x.Owes m a → (a.tryIo answers).2.isSome = true → y.Resumed m := by
  unfold Lane.dispatchReady handleReady
  cases hp : x.pending with
  | none =>
    refine ⟨_, rfl, ?_, ?_⟩
    · split_ifs
      · obtain ⟨_, heq⟩ := x.setInterest_eq false
        exact (h.setInterest hp false).dispatched (.inl (by rw [heq]; exact hp))
      · exact h.dispatched (.inl hp)
    · rintro m a (hres | ⟨hm, -⟩) -
      · split_ifs
        · obtain ⟨_, heq⟩ := x.setInterest_eq false
          rw [heq]
          exact hres
        · exact hres
      · exact absurd (hp.symm.trans hm) nofun
  | some n =>
    show ∃ y, (x.onReady d n answers).map _ = some y ∧ _
    obtain ⟨⟨left, r⟩, htry⟩ : ∃ p, (x.awaiters n).tryIo answers = p := ⟨_, rfl⟩
    simp only [onReady, htry]
    have hx := h.setLeft hp left
    have hkeep {m : ℕ} (hres : x.Resumed m) :
        (x.setAwaiter n { x.awaiters n with left }).Resumed m := by
      obtain ⟨q, hq⟩ := hres
      exact ⟨q, (x.setLeft_results n m left).symm ▸ hq⟩
    cases r with
    | some r =>
      obtain ⟨y, heq, hy, hyp, hres⟩ :=
        hx.complete (d := d) (tryIo_proper hans (congrArg Prod.snd htry))
      refine ⟨_, congrArg (Option.map _) heq, hy.dispatched (.inl hyp), fun m a ho _ => ?_⟩
      exact hres m _ (ho.imp hkeep fun hm => ⟨hm.1, rfl⟩)
    | none =>
      refine ⟨_, rfl, (hx.watch false _ _ nofun).dispatched (.inr rfl), ?_⟩
      rintro m a (hres | ⟨hm, rfl⟩) hio
      · exact hkeep hres
      · cases hp.symm.trans hm
        rw [htry] at hio
        cases hio

end

end Lane

end Alyrn.Epoll
