import Alyrn.Uring.Stream.Start

/-!
# What keeps the protocol of a lane

One lemma for each way in which a lane goes on: a call returns or suspends, the kernel completes
its operation, its notification or its cancel request, a timer fires, a deadline is set.
-/

namespace Alyrn.Uring

open Function

namespace Lane

/-- The protocol of a lane, whose cancel operation carries the continuation of a settled
operation. -/
structure Sound (d : Dir) (x : Lane) : Prop extends x.Protocol d where
  carried : ∀ n, x.pending = some n → x.primaryTerminal = true → x.cancelOp.handle = some n

variable {d : Dir} {x : Lane} {n : ℕ} {b : Awaiter}

theorem Sound.make (d : Dir) : (Lane.make d).Sound d :=
  ⟨.make d, fun n h => by cases h⟩

theorem Protocol.timers_eq_nil (h : x.Protocol d) (hp : x.pending = none) : x.timers = [] := by
  have hids := h.timed.ids
  rw [(h.idle hp).timer] at hids
  simpa using hids

theorem Protocol.cancels_eq_zero (h : x.Protocol d) (hc : x.cancelInFlight = false) :
    x.cancels = 0 := by
  rw [h.cancels, hc]
  rfl

theorem Idle.cancelInFlight (h : x.Idle) : x.cancelInFlight = false := by
  simp [Lane.cancelInFlight, h.cancelSubmitted]

theorem Sound.of_idle (ht : x.target = none) (hp : x.pending = none) (hi : x.Idle)
    (hc : x.cancels = 0) (hl : x.timers = [])
    (hh : ∀ n < x.started, d.hosts (x.awaiters n).op.kind = true)
    (hk : x.cancelOp.kind = d.cancelKind) : x.Sound d where
  target := ht.trans hp.symm
  idle _ := hi
  stage n h := by rw [hp] at h; cases h
  hosts := hh
  timedOut := hi.timedOut.trans hi.cancelRequested.symm
  requested h := by rw [hi.cancelSubmitted] at h; cases h
  submitted h := by rw [hi.cancelTerminal] at h; cases h
  waiting h := by rw [hi.primaryTerminal] at h; cases h
  cancels := by rw [hi.cancelInFlight, hc]; rfl
  cancelOp h := by rw [hi.cancelInFlight] at h; cases h
  cancelKind := hk
  timed := .of_nil hi.timer hl
  carried n h := by rw [hp] at h; cases h

theorem Protocol.hosts_update (h : x.Protocol d) (hk : b.op.kind = (x.awaiters n).op.kind) :
    ∀ m < x.started, d.hosts (update x.awaiters n b m).op.kind = true := by
  intro m hm
  by_cases hmn : m = n
  · subst hmn
    rw [update_self, hk]
    exact h.hosts m hm
  · rw [update_of_ne hmn]
    exact h.hosts m hm

theorem Protocol.hosts_new (h : x.Protocol d) (hk : d.hosts b.op.kind = true) :
    ∀ m < x.started + 1, d.hosts (update x.awaiters x.started b m).op.kind = true := by
  intro m hm
  by_cases hmn : m = x.started
  · rw [hmn, update_self]
    exact hk
  · rw [update_of_ne hmn]
    exact h.hosts m (by omega)

/-! ### Calls -/

theorem Sound.refused (h : x.Sound d) (hk : d.hosts b.op.kind = true) (r : Except Error ℕ) :
    (x.refused b r).Sound d :=
  { h with
    idle hp := { h.idle hp with }
    stage n hn := by
      obtain ⟨hlt, hst⟩ := h.stage n hn
      exact ⟨Nat.lt_succ_of_lt hlt, hst.congr rfl rfl rfl
        (update_of_ne (Nat.ne_of_lt hlt) ..)⟩
    hosts := h.hosts_new hk
    timed := { h.timed with } }

theorem Sound.undone (h : x.Sound d) (hp : x.pending = none) (hk : d.hosts b.op.kind = true)
    (e : Error) (G K : ℕ) : (x.undone b e G K).Sound d :=
  have hi := h.idle hp
  .of_idle (h.target.trans hp) hp { hi with }
    (h.cancels_eq_zero hi.cancelInFlight) (h.timers_eq_nil hp) (h.hosts_new hk) h.cancelKind

theorem Sound.suspended (h : x.Sound d) (hp : x.pending = none) (hk : d.hosts b.op.kind = true)
    (hb : b.Submitted x.started) {G K : ℕ} {T : Option ℕ} {L : List Timer}
    (ht : (x.suspended b G T L K).Timed) : (x.suspended b G T L K).Sound d :=
  { h with
    target := rfl
    idle hx := by cases hx
    stage n hn := by
      cases hn
      refine ⟨Nat.lt_succ_self _, .submitted (h.idle hp).primaryTerminal rfl
        (h.idle hp).notifications ?_⟩
      rw [show (x.suspended b G T L K).awaiters x.started = b from update_self ..]
      exact hb
    hosts := h.hosts_new hk
    cancelOp _ := ⟨rfl, rfl⟩
    timed := ht
    carried n _ hx := absurd (show x.primaryTerminal = true from hx)
      (by simp [(h.idle hp).primaryTerminal]) }

/-! ### Completions -/

def relieved (x : Lane) (sent : List (ℕ × List UInt8)) : Lane :=
  { x with primaries := [], notifications := [], sent }

theorem Sound.ended (h : x.Sound d) (hc : x.cancels = 0)
    (hk : b.op.kind = (x.awaiters n).op.kind) (G : ℕ) (sent : List (ℕ × List UInt8)) :
    ((x.relieved sent).ended n b G).Sound d :=
  .of_idle rfl rfl ⟨rfl, rfl, rfl, rfl, rfl, rfl, rfl, rfl⟩ hc rfl (h.hosts_update hk) h.cancelKind

theorem Sound.awaitingCancel (h : x.Sound d) (hp : x.pending = some n)
    (hc : x.cancelInFlight = true) (hk : b.op.kind = (x.awaiters n).op.kind) (hs : b.Settled)
    (hh : b.op.handle = some n) (G : ℕ) (sent : List (ℕ × List UInt8)) :
    ((x.relieved sent).awaitingCancel n b G).Sound d :=
  { h with
    idle hx := by rw [show x.pending = none from hx] at hp; cases hp
    stage m hm := by
      cases hp.symm.trans hm
      refine ⟨(h.stage n hp).1, .settled rfl rfl rfl ?_⟩
      rw [show ((x.relieved sent).awaitingCancel n b G).awaiters n =
        { b with op := { b.op with handle := none } } from update_self ..]
      exact hs.handOver
    hosts := h.hosts_update (b := { b with op := { b.op with handle := none } }) hk
    waiting _ := hc
    timed := .of_nil rfl rfl
    carried m hm _ := by
      cases hp.symm.trans hm
      exact hh }

def recorded (x : Lane) (n : ℕ) (b : Awaiter) (sent : List (ℕ × List UInt8)) : Lane :=
  { x with
    primaries := [], notifications := [n], sent
    awaiters := update x.awaiters n b }

theorem Sound.recorded (h : x.Sound d) (hp : x.pending = some n)
    (hterm : x.primaryTerminal = false) (hk : b.op.kind = (x.awaiters n).op.kind)
    (hb : b.Recorded n) (sent : List (ℕ × List UInt8)) : (x.recorded n b sent).Sound d :=
  { h with
    idle hx := by rw [show x.pending = none from hx] at hp; cases hp
    stage m hm := by
      cases hp.symm.trans hm
      refine ⟨(h.stage n hp).1, .recorded hterm rfl rfl ?_⟩
      rw [show (x.recorded n b sent).awaiters n = b from update_self ..]
      exact hb
    hosts := h.hosts_update hk
    timed := { h.timed with } }

def cancelDone (x : Lane) (result : ℤ) : Lane := { x.cancelAnswered result with cancels := 0 }

theorem Sound.cancelDone (h : x.Sound d) (hterm : x.primaryTerminal = false)
    (hc : x.cancelInFlight = true) (result : ℤ) : (x.cancelDone result).Sound d := by
  have hsub : x.cancelSubmitted = true := by
    simp only [cancelInFlight, Bool.and_eq_true] at hc
    exact hc.1
  have hnot : (x.cancelDone result).cancelInFlight = false := by
    simp [Lane.cancelDone, cancelAnswered, cancelInFlight]
  exact
    { target := h.target
      idle := fun hp => by
        rw [(h.idle hp).cancelInFlight] at hc
        cases hc
      stage := fun n hn => ⟨(h.stage n hn).1, (h.stage n hn).2.congr rfl rfl rfl rfl⟩
      hosts := h.hosts
      timedOut := h.timedOut
      requested := h.requested
      submitted := fun _ => hsub
      waiting := fun hx => by rw [show x.primaryTerminal = true from hx] at hterm; cases hterm
      cancels := by rw [hnot]; rfl
      cancelOp := fun hx => by rw [hnot] at hx; cases hx
      cancelKind := h.cancelKind
      timed := { h.timed with }
      carried := fun n _ hx => by rw [show x.primaryTerminal = true from hx] at hterm; cases hterm }

/-! ### Timers and results -/

structure SameOps (x y : Lane) : Prop where
  pending : y.pending = x.pending
  target : y.target = x.target
  awaiters : y.awaiters = x.awaiters
  started : y.started = x.started
  results : y.results = x.results
  primaries : y.primaries = x.primaries
  notifications : y.notifications = x.notifications
  primaryTerminal : y.primaryTerminal = x.primaryTerminal
  cancelTerminal : y.cancelTerminal = x.cancelTerminal

theorem Timed.setDeadline_sameOps (h : x.Timed) (D : Option ℕ) (now : ℕ) (ok : Bool) :
    x.SameOps (x.setDeadline D now ok).2 := by
  obtain ⟨G, heq | ⟨-, -, expiration, heq⟩⟩ := h.setDeadline_eq D now ok
  · rw [heq]
    exact ⟨rfl, rfl, rfl, rfl, rfl, rfl, rfl, rfl, rfl⟩
  · rw [heq]
    exact ⟨rfl, rfl, rfl, rfl, rfl, rfl, rfl, rfl, rfl⟩

theorem Protocol.fire_sameOps (h : x.Protocol d) {t : Timer} (ht : t ∈ x.timers) {now : ℕ}
    {ans : TimerAnswers} {stop : Bool} {y : Lane} (hf : x.fire t now ans = some (stop, y)) :
    x.SameOps y := by
  obtain ⟨-, heq⟩ | ⟨-, ⟨-, heq⟩ | ⟨-, -, heq⟩ | ⟨-, -, heq⟩⟩ := h.fire_cases ht now ans
  all_goals
    rw [hf] at heq
    obtain ⟨-, rfl⟩ := Prod.ext_iff.mp (Option.some.inj heq)
    exact ⟨rfl, rfl, rfl, rfl, rfl, rfl, rfl, rfl, rfl⟩

theorem Sound.setDeadline (h : x.Sound d) (D : Option ℕ) (now : ℕ) (ok : Bool) :
    (x.setDeadline D now ok).2.Sound d := by
  refine ⟨h.toProtocol.setDeadline D now ok, ?_⟩
  obtain ⟨G, heq | ⟨-, -, expiration, heq⟩⟩ := h.timed.setDeadline_eq D now ok
  · rw [heq]
    exact h.carried
  · rw [heq]
    exact h.carried

theorem Sound.fire (h : x.Sound d) {t : Timer} (ht : t ∈ x.timers) (now : ℕ)
    (ans : TimerAnswers) : ∃ stop y, x.fire t now ans = some (stop, y) ∧ y.Sound d := by
  obtain ⟨stop, y, heq, hy⟩ := h.toProtocol.fire ht now ans
  refine ⟨stop, y, heq, hy, fun n hn hterm => ?_⟩
  obtain ⟨-, heq'⟩ | ⟨⟨-, hprim, -⟩, ⟨-, heq'⟩ | ⟨-, -, heq'⟩ | ⟨-, -, heq'⟩⟩ :=
    h.toProtocol.fire_cases ht now ans
  · rw [heq] at heq'
    obtain ⟨rfl, rfl⟩ := Prod.ext_iff.mp (Option.some.inj heq')
    exact h.carried n hn hterm
  all_goals
    rw [heq] at heq'
    obtain ⟨rfl, rfl⟩ := Prod.ext_iff.mp (Option.some.inj heq')
    exact absurd (show x.primaryTerminal = true from hterm) (by simp [hprim])

theorem Sound.returned (h : x.Sound d) (results : List (ℕ × Except Error ℕ)) :
    Sound d { x with results } :=
  { h with
    idle hp := { h.idle hp with }
    stage n hn := ⟨(h.stage n hn).1, (h.stage n hn).2.congr rfl rfl rfl rfl⟩
    timed := { h.timed with } }

end Lane

end Alyrn.Uring
