import Alyrn.Lib.Transition
import Alyrn.Uring.Stream.Lane

/-!
# Write on both backends

`Write` sends its buffer in as many sends as the kernel needs. On uring it is a coroutine that
awaits one `SendZeroCopy` or `Send` after the other, on epoll an awaiter that sends until the socket
would block and goes on when it is ready. A step is the end of one send, or what happens to the
suspended awaiter.
-/

namespace Alyrn

open Transition

/-! ## Calls -/

/-- A call of `Write`, which stands at `pc` until it has its result. -/
structure WriteCall (π : Type) where
  whole : List UInt8
  /-- The bytes that are left, which every send offers. -/
  buffer : List UInt8 := whole
  accepted : List UInt8 := []
  pc : π
  result : Option (Except Error Unit) := none
  deriving DecidableEq

namespace WriteCall

variable {π : Type} (w : WriteCall π)

def fail (e : Error) : WriteCall π := { w with result := some (.error e) }

/-- The head of the loop: it ends with an empty buffer. -/
def loop (pc : π) : WriteCall π :=
  if w.buffer = [] then { w with result := some (.ok ()) } else { w with pc }

/-- The kernel accepts the first `n` of the bytes it is offered. -/
def accept (n : ℕ) : WriteCall π := { w with accepted := w.accepted ++ w.buffer.take n }

/-- The bytes accepted are a prefix of the buffer. Before the result, the bytes left to send are
all the others; and success means that nothing is left. -/
structure Sound (w : WriteCall π) : Prop where
  isPrefix : w.accepted <+: w.whole
  rest : w.result = none → w.accepted ++ w.buffer = w.whole
  success : w.result = some (.ok ()) → w.accepted = w.whole

variable {w : WriteCall π}

theorem Sound.fail (h : w.Sound) (e : Error) : (w.fail e).Sound := ⟨h.isPrefix, nofun, nofun⟩

theorem Sound.loop (h : w.Sound) (hr : w.result = none) (pc : π) : (w.loop pc).Sound := by
  unfold WriteCall.loop
  split_ifs with hb
  · refine ⟨h.isPrefix, nofun, fun _ => ?_⟩
    have hrest := h.rest hr
    rwa [hb, List.append_nil] at hrest
  · exact { h with }

theorem Sound.accept_fail (h : w.Sound) (hr : w.result = none) (n : ℕ) (e : Error) :
    ((w.accept n).fail e).Sound := by
  refine ⟨⟨w.buffer.drop n, ?_⟩, nofun, nofun⟩
  show w.accepted ++ w.buffer.take n ++ w.buffer.drop n = w.whole
  rw [List.append_assoc, List.take_append_drop, h.rest hr]

theorem Sound.advance (h : w.Sound) (hr : w.result = none) (n : ℕ) :
    Sound { w.accept n with buffer := w.buffer.drop n } := by
  obtain ⟨k, hk⟩ := (h.accept_fail hr n 0).isPrefix
  refine ⟨⟨k, hk⟩, fun _ => ?_, fun hx => nomatch hr.symm.trans hx⟩
  show w.accepted ++ w.buffer.take n ++ w.buffer.drop n = w.whole
  rw [List.append_assoc, List.take_append_drop, h.rest hr]

end WriteCall

/-! ## uring -/

namespace Uring

/-- How a send of `Write` ends: refused before its submission, or completed by the kernel, perhaps
after its deadline has expired. -/
inductive SendEnd where
  | refused (e : Error)
  | completed (result : ℤ) (timedOut : Bool)
  deriving DecidableEq

def SendEnd.awaitResume : SendEnd → Option (Except Error ℕ)
  | .refused e => some (.error e)
  | .completed result timedOut => toSizeResult (some result) timedOut

def SendEnd.accepts : SendEnd → ℕ
  | .refused _ => 0
  | .completed result _ => result.toNat

/-- The kind of send the call awaits. -/
inductive WritePc where
  | zeroCopy
  | send
  deriving DecidableEq

/-- The send of the loop's next turn, by the answer of `ZeroCopyWritesEnabled()`. -/
def WritePc.next (enabled : Bool) : WritePc := if enabled then .zeroCopy else .send

/-- `Stream::Write`, with the answer of `ValidateAvailable` to an empty buffer. -/
def write (buffer : List UInt8) (available : Except Error Unit) (enabled : Bool) :
    WriteCall WritePc :=
  { whole := buffer, pc := .next enabled, result := if buffer = [] then some available else none }

def resumeWrite (w : WriteCall WritePc) (enabled : Bool) : Except Error ℕ → WriteCall WritePc
  | .ok bytes =>
    if bytes = 0 then w.fail EPIPE
    else WriteCall.loop { w with buffer := w.buffer.drop bytes } (.next enabled)
  | .error e => if w.pc = .zeroCopy ∧ e = ENOMEM then { w with pc := .send } else w.fail e

/-- The end of a send. The kernel accepts at most what it is offered. -/
def stepWrite (a : SendEnd × Bool) (w : WriteCall WritePc) : Option (WriteCall WritePc) :=
  if w.result.isSome ∨ w.buffer.length < a.1.accepts then none
  else a.1.awaitResume.map (resumeWrite (w.accept a.1.accepts) a.2)

def writes : System (WriteCall WritePc) (SendEnd × Bool) where
  init w := ∃ buffer available enabled, w = write buffer available enabled
  step := stepWrite

theorem accepts_eq {a : SendEnd} {sent : Except Error ℕ} (h : a.awaitResume = some sent) :
    (∀ n, sent = .ok n → a.accepts = n) ∧ (sent = .error ENOMEM → a.accepts = 0) := by
  cases a with
  | refused e =>
    cases h
    exact ⟨nofun, fun _ => rfl⟩
  | completed result timedOut =>
    simp only [SendEnd.awaitResume, toSizeResult, Option.bind_eq_bind, Option.bind_some] at h
    split_ifs at h with ht hneg <;> cases h
    · exact ⟨nofun, fun hx => absurd (Except.error.inj hx) (by decide)⟩
    · exact ⟨nofun, fun _ => Int.toNat_of_nonpos (Int.le_of_lt hneg)⟩
    · exact ⟨fun n hn => Except.ok.inj hn, nofun⟩

/-- **A step.** A send without progress or with an error ends the call, but for `ENOMEM` of a
zero-copy send, after which a plain send offers the same bytes. -/
theorem sound_stepWrite {w w' : WriteCall WritePc} (h : w.Sound) {a : SendEnd × Bool}
    (hs : stepWrite a w = some w') : w'.Sound ∧ w.result = none ∧
      ((∃ e, w'.result = some (.error e)) ∨ (∃ n > 0, a.1.awaitResume = some (.ok n)) ∨
        w.pc = .zeroCopy ∧ a.1.awaitResume = some (.error ENOMEM) ∧
          w' = { w with pc := .send }) := by
  obtain ⟨hg, hs⟩ := Option.ite_none_left_eq_some.mp hs
  obtain ⟨sent, hsent, rfl⟩ := Option.map_eq_some_iff.mp hs
  obtain ⟨hok, hmem⟩ := accepts_eq hsent
  have hr : w.result = none := by simpa using (not_or.mp hg).1
  rw [hsent]
  cases sent with
  | ok n =>
    rw [hok n rfl, resumeWrite]
    split_ifs with hn
    · exact ⟨h.accept_fail hr n EPIPE, hr, .inl ⟨_, rfl⟩⟩
    · exact ⟨(h.advance hr n).loop hr _, hr, .inr (.inl ⟨n, Nat.pos_of_ne_zero hn, rfl⟩)⟩
  | error e =>
    rw [resumeWrite]
    split_ifs with he
    · obtain ⟨hpc, rfl⟩ := he
      have hw : w.accept a.1.accepts = w := by simp [WriteCall.accept, hmem rfl]
      rw [hw]
      exact ⟨{ h with }, hr, .inr (.inr ⟨hw ▸ hpc, rfl, rfl⟩)⟩
    · exact ⟨h.accept_fail hr _ e, hr, .inl ⟨e, rfl⟩⟩

theorem sound_write (buffer : List UInt8) (available : Except Error Unit) (enabled : Bool) :
    (write buffer available enabled).Sound := by
  refine ⟨List.nil_prefix, fun _ => rfl, fun hr => ?_⟩
  by_cases hb : buffer = []
  · exact hb.symm
  · simp [write, hb] at hr

end Uring

/-! ## epoll -/

namespace Epoll

/-- The awaiter is in a loop of sends, which may be that of `await_suspend`, or suspended. -/
inductive WritePc where
  | sending (inline : Bool)
  | suspended
  deriving DecidableEq

/-- `WriteAwaiter::await_suspend` up to the first send, with the answer of its checks. -/
def write (buffer : List UInt8) : Except Error Unit → WriteCall WritePc
  | .error e => { whole := buffer, pc := .suspended, result := some (.error e) }
  | .ok _ => WriteCall.loop { whole := buffer, pc := .suspended } (.sending true)

/-- The answers of the kernel and of the loop. -/
inductive WriteAction where
  /-- `::send` returns, with a count or an errno. If the call then suspends, `armed` is the error
  of its deadline timer. -/
  | sent (answer : Except Error ℕ) (armed : Option Error)
  | ready
  /-- `CompleteWrite` with an error: the deadline, a hang-up, an error event, or a close. -/
  | completed (e : Error)
  deriving DecidableEq

/-- The loop of sends goes on with a result of `TryWrite`, which sends again after `EINTR`. -/
def resumeWrite (w : WriteCall WritePc) (inline : Bool) (armed : Option Error) :
    Except Error ℕ → WriteCall WritePc
  | .ok n =>
    if n = 0 then w.fail EPIPE
    else WriteCall.loop { w.accept n with buffer := w.buffer.drop n } (.sending inline)
  | .error e =>
    if e = EINTR then w
    else if e = EAGAIN ∨ e = EWOULDBLOCK then
      match if inline then armed else none with
      | some e => w.fail e
      | none => { w with pc := .suspended }
    else w.fail e

/-- One step. The kernel accepts at most what it is offered. -/
def stepWrite (a : WriteAction) (w : WriteCall WritePc) : Option (WriteCall WritePc) :=
  if w.result.isSome then none
  else
    match w.pc, a with
    | .sending inline, .sent answer armed =>
      if (∃ n ∈ answer.toOption, w.buffer.length < n) then none
      else some (resumeWrite w inline armed answer)
    | .suspended, .ready => some (w.loop (.sending false))
    | .suspended, .completed e => some (w.fail e)
    | _, _ => none

def writes : System (WriteCall WritePc) WriteAction where
  init w := ∃ buffer valid, w = write buffer valid
  step := stepWrite

theorem sound_write (buffer : List UInt8) (valid : Except Error Unit) :
    (write buffer valid).Sound := by
  cases valid with
  | error e => exact ⟨List.nil_prefix, nofun, nofun⟩
  | ok _ =>
    have hnew : ({ whole := buffer, pc := .suspended } : WriteCall WritePc).Sound :=
      ⟨List.nil_prefix, fun _ => rfl, nofun⟩
    exact hnew.loop rfl _

/-- **A step.** A send without progress or with an error ends the call, but for `EINTR`, after which
the same bytes are offered again, and for a socket that would block. -/
theorem sound_stepWrite {w w' : WriteCall WritePc} (h : w.Sound) {a : WriteAction}
    (hs : stepWrite a w = some w') : w'.Sound ∧ w.result = none ∧
      ∀ answer armed, a = .sent answer armed → (∃ e, w'.result = some (.error e)) ∨
        (∃ n > 0, answer = .ok n) ∨ answer = .error EINTR ∧ w' = w ∨
        (answer = .error EAGAIN ∨ answer = .error EWOULDBLOCK) ∧
          w' = { w with pc := .suspended } := by
  obtain ⟨hg, hs⟩ := Option.ite_none_left_eq_some.mp hs
  have hr : w.result = none := by simpa using hg
  rw [and_left_comm]
  refine ⟨hr, ?_⟩
  split at hs
  · rename_i inline answer armed _ _
    obtain ⟨-, rfl⟩ := of_unless hs
    suffices hsend : (resumeWrite w inline armed answer).Sound ∧ _ from
      ⟨hsend.1, fun _ _ ha => by cases ha; exact hsend.2⟩
    cases answer with
    | ok n =>
      rw [resumeWrite]
      split_ifs with hn
      · exact ⟨h.fail _, .inl ⟨_, rfl⟩⟩
      · exact ⟨(h.advance hr n).loop hr _, .inr (.inl ⟨n, Nat.pos_of_ne_zero hn, rfl⟩)⟩
    | error e =>
      rw [resumeWrite]
      by_cases he : e = EINTR
      · rw [if_pos he]
        exact ⟨h, .inr (.inr (.inl ⟨by rw [he], rfl⟩))⟩
      rw [if_neg he]
      by_cases hblock : e = EAGAIN ∨ e = EWOULDBLOCK
      · rw [if_pos hblock]
        have hsuspend : ({ w with pc := .suspended } : WriteCall WritePc).Sound :=
          { h with }
        have hanswer : Except.error e = (.error EAGAIN : Except Error ℕ) ∨
            Except.error e = (.error EWOULDBLOCK : Except Error ℕ) :=
          hblock.imp (congrArg _) (congrArg _)
        cases (if inline then armed else none) with
        | some e => exact ⟨h.fail e, .inl ⟨e, rfl⟩⟩
        | none => exact ⟨hsuspend, .inr (.inr (.inr ⟨hanswer, rfl⟩))⟩
      · rw [if_neg hblock]
        exact ⟨h.fail e, .inl ⟨e, rfl⟩⟩
  · cases hs
    exact ⟨h.loop hr _, nofun⟩
  · cases hs
    exact ⟨h.fail _, nofun⟩
  · cases hs

end Epoll

/-! ## Both -/

namespace WriteCall

theorem sound_of_reaches {π α : Type} {S : System (WriteCall π) α}
    (h0 : ∀ w, S.init w → w.Sound) (hstep : ∀ {w w' a}, Sound w → S.step a w = some w' → w'.Sound)
    {w : WriteCall π} (h : S.Reaches w) : w.Sound :=
  h.invariant h0 fun _ _ _ hw _ hs => hstep hw hs

/-- **`Write` is complete.** At every moment the kernel has accepted a prefix of the buffer, and the
next send offers exactly the rest; success means that the prefix is the whole buffer. A call that
has its result sends no more, and a send without progress or with an error gives it an error
result. The exceptions are the fallback from a zero-copy send that fails with `ENOMEM`, and on epoll
the retry after `EINTR` and the wait for a socket that would block. -/
theorem write_sends_all :
    (∀ w, Uring.writes.Reaches w → w.Sound ∧ ∀ a w', Uring.stepWrite a w = some w' →
      w.result = none ∧ ((∃ e, w'.result = some (.error e)) ∨
        (∃ n > 0, a.1.awaitResume = some (.ok n)) ∨ w.pc = .zeroCopy ∧
          a.1.awaitResume = some (.error ENOMEM) ∧ w' = { w with pc := .send })) ∧
    ∀ w, Epoll.writes.Reaches w → w.Sound ∧ ∀ a w', Epoll.stepWrite a w = some w' →
      w.result = none ∧ ∀ answer armed, a = .sent answer armed →
        (∃ e, w'.result = some (.error e)) ∨ (∃ n > 0, answer = .ok n) ∨
          answer = .error EINTR ∧ w' = w ∨
          (answer = .error EAGAIN ∨ answer = .error EWOULDBLOCK) ∧
            w' = { w with pc := .suspended } := by
  refine ⟨fun w h => ?_, fun w h => ?_⟩
  · have hw : w.Sound := by
      refine sound_of_reaches ?_ (fun hw hs => (Uring.sound_stepWrite hw hs).1) h
      rintro _ ⟨buffer, available, enabled, rfl⟩
      exact Uring.sound_write buffer available enabled
    exact ⟨hw, fun a w' hs => (Uring.sound_stepWrite hw hs).2⟩
  · have hw : w.Sound := by
      refine sound_of_reaches ?_ (fun hw hs => (Epoll.sound_stepWrite hw hs).1) h
      rintro _ ⟨buffer, valid, rfl⟩
      exact Epoll.sound_write buffer valid
    exact ⟨hw, fun a w' hs => (Epoll.sound_stepWrite hw hs).2⟩

/-- A zero-copy send without memory and then a short send; on epoll a short send, a socket that
would block, and the rest. -/
theorem write_sends_all_short : (∃ w, (Uring.writes.Reaches w ∧ w.accepted = [1, 2] ∧
    w.buffer = [3]) ∧ w.Sound) ∧ ∃ w, (Epoll.writes.Reaches w ∧ w.accepted = [1, 2, 3] ∧
    w.result = some (.ok ())) ∧ w.Sound :=
  ⟨Uring.writes.exists_reachesBy_and _ (Uring.write [1, 2, 3] (.ok ()) true) ⟨_, _, _, rfl⟩
    [(.completed (-12) false, true), (.completed 2 false, true)] (by decide)
    fun w hr _ => (write_sends_all.1 w hr).1,
  Epoll.writes.exists_reachesBy_and _ (Epoll.write [1, 2, 3] (.ok ())) ⟨_, _, rfl⟩
    [.sent (.ok 2) none, .sent (.error EAGAIN) none, .ready, .sent (.ok 1) none] (by decide)
    fun w hr _ => (write_sends_all.2 w hr).1⟩

/-- **`EINTR` is retried.** The send of an epoll write fails, and the call sends again. -/
theorem write_retries_interrupted : ∃ w w', Epoll.writes.Reaches w ∧
    Epoll.stepWrite (.sent (.error EINTR) none) w = some w' ∧
    w'.result = none ∧ w'.pc = .sending true ∧ w'.buffer = [7] :=
  ⟨_, _, .init ⟨[7], .ok (), rfl⟩, rfl, rfl, rfl, rfl⟩

end WriteCall

end Alyrn
