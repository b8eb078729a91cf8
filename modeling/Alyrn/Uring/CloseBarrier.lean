import Alyrn.Uring.Listening.Steps
import Alyrn.Uring.Stream.CloseRuns

/-!
# Close as a drain barrier

The descriptor of a stream or of a listener is closed when nothing in the kernel uses it any more,
and once. A call of `Close()` that has to wait returns after that; one whose cancel request cannot
be submitted changes nothing.
-/

namespace Alyrn.Uring

open Alyrn.Net Transition

namespace AcceptSource

variable {s : AcceptSource}

/-- The source after a `Close()` of its listener whose cancel request was refused. -/
def closeRefused (s : AcceptSource) (e : Error) : AcceptSource :=
  { s with
    ctl := { s.ctl with answers := [] }
    listener := { s.listener with
      closeCalls := s.listener.closeCalls + 1
      closes := s.listener.closes ++ [(s.listener.closeCalls, .error e)] } }

theorem closeListener_failed (h : s.listener.Closable) (hopen : s.listener.closed = false)
    (hz : s.listener.pendingAccepts ≠ 0) (e : Error) :
    (s.withAnswers [some e]).closeListener = s.closeRefused e := by
  have hp := h.pendingClose_eq (.inl hopen)
  have hfd := h.fdOpen_of_open hopen
  unfold closeListener
  dsimp only [withAnswers]
  rw [if_neg (by simp [hp]), if_neg (by simp [listenerClosed, hopen, hfd]), if_neg hz]
  dsimp only [SourceControl.submitOp, Listener.completeClose]
  rw [complete_eq _ h.fresh]
  rfl

theorem closeListener_waits (h : s.listener.Closable) (hopen : s.listener.closed = false)
    (hz : s.listener.pendingAccepts ≠ 0) :
    (s.withAnswers [none]).closeListener.listener.pendingClose =
      some (s.listener.closeCalls, {}) := by
  have hp := h.pendingClose_eq (.inl hopen)
  have hfd := h.fdOpen_of_open hopen
  unfold closeListener
  dsimp only [withAnswers]
  rw [if_neg (by simp [hp]), if_neg (by simp [listenerClosed, hopen, hfd]), if_neg hz]
  exact admits_commitClose.pendingClose

end AcceptSource

namespace Listening

variable {s s' : Listening} {a : Action} {p : Listening × ℕ}

/-- The times that the descriptor has been closed, by a close or by the destructor. -/
def countClosings (s : Listening) (_ : Action) (s' : Listening) (n : ℕ) : ℕ :=
  n + (if s.listener.fdOpen = true ∧ s'.listener.fdOpen = false then 1 else 0) +
    if s.listener.fdOpen = true ∧ s.destroyed = false ∧ s'.destroyed = true then 1 else 0

def closing : System (Listening × ℕ) Action := system.withHistory countClosings 0

/-- A close whose cancel request cannot be submitted returns the error and changes nothing, and the
next one, whose request is taken, waits. -/
structure Retries (s s' : Listening) (e : Error) : Prop where
  accepts : s'.accepts = s.accepts
  closeRequests : s'.closeRequests = s.closeRequests
  closeResults : s'.closeResults = s.closeResults ++ [(s.listener.closeCalls, .error e)]
  source : s'.source = s.source.closeRefused e
  waits : ∃ s'', step (.close none) s' = some s'' ∧ s''.accepts = s.accepts ∧
    s''.listener.pendingClose = some (s'.listener.closeCalls, {})

/-- What `Close()` of a listener promises. -/
structure CloseBarrier (s : Listening) (closings : ℕ) : Prop where
  closings : closings = if s.listener.fdOpen = true ∧ s.destroyed = false then 0 else 1
  /-- Nothing that uses the descriptor is left when it is closed, in the count or in the kernel. -/
  drained : s.listener.fdOpen = false → s.listener.pendingAccepts = 0 ∧ s.accepts = [] ∧
    s.source.ctl.inFlight = false ∧ s.listener.pendingClose = none ∧ s.closeRequests = []
  /-- A call that waits has something in the kernel to wait for. -/
  waits : ∀ k c, s.listener.pendingClose = some (k, c) →
    s.closeRequests = [k] ∨ s.accepts ≠ [] ∨ s.source.ctl.inFlight = true
  /-- Each call that does not wait has returned, or its work is queued, once. -/
  once : ∀ k, (s.closeResults.map Prod.fst).count k + s.works.count (.close k) =
    if k < s.listener.closeCalls ∧ s.listener.pendingClose.map Prod.fst ≠ some k then 1 else 0
  /-- A call that has waited, or that reports success, returns after the descriptor was closed. -/
  returned : ∀ k r, (k, r) ∈ s.closeResults →
    r = .ok () ∨ (s.closers k).continuation.isSome = true → s.listener.fdOpen = false
  /-- A call with nothing to wait for closes the descriptor, whatever the kernel answers. -/
  now : s.listener.closed = false → s.listener.pendingAccepts = 0 →
    ∀ submit s', step (.close submit) s = some s' → s'.listener.fdOpen = false
  /-- After a committed close no request enters the kernel. -/
  admits : s.listener.closed = true → ∀ a s', step a s = some s' →
    s'.listener.closed = true ∧ (∀ n ∈ s'.accepts, n ∈ s.accepts) ∧
    (s'.source.ctl.inFlight = true → s.source.ctl.inFlight = true)
  retries : s.listener.closed = false → s.listener.pendingAccepts ≠ 0 →
    ∀ e s', step (.close (some e)) s = some s' → Retries s s' e

theorem closings_of_reaches (h : closing.Reaches p) :
    p.2 = if p.1.listener.fdOpen = true ∧ p.1.destroyed = false then 0 else 1 := by
  refine System.ReachesBy.invariant_withHistory (C := fun _ _ => True) (J := Sound)
    (I := fun s n => n = if s.listener.fdOpen = true ∧ s.destroyed = false then 0 else 1)
    (fun s hs => sound_of_reaches hs) ?_ ?_ h
  · rintro s ⟨closeResult, loopStopping, rfl⟩
    rfl
  · intro s a s' n hs hn _ hstep
    have hst := hs.step hstep
    unfold countClosings
    rw [hn]
    rcases hst.fdOpen with hfd | ⟨h1, h2, h3⟩
    · rw [hfd]
      have hkept := hst.kept
      cases s.listener.fdOpen <;> cases hd : s.destroyed <;> cases hd' : s'.destroyed <;>
        simp_all
    · rw [h1, h2, h3]
      cases s.listener.fdOpen <;> simp

theorem close_retries (h : s.Sound) (hopen : s.listener.closed = false)
    (hz : s.listener.pendingAccepts ≠ 0) {e : Error} (hs : step (.close (some e)) s = some s') :
    Retries s s' e := by
  have hsound := (h.step hs).sound
  have halive : s.source.ctl.aborted = false := by
    by_contra hx
    rw [step.eq_def, if_pos (by simpa using hx)] at hs
    cases hs
  rw [step.eq_def, if_neg (by simp [halive])] at hs
  obtain ⟨hd, rfl⟩ := of_unless hs
  have hfailed := AcceptSource.closeListener_failed h.closing.toClosable hopen hz e
  rw [close_returned h.closing.toClosable hfailed rfl rfl, Option.getD_some] at hsound ⊢
  set t := s.closeReturned (s.source.closeRefused e) (.error e) with ht
  refine ⟨rfl, rfl, rfl, rfl, ?_⟩
  have hwaits := AcceptSource.closeListener_waits (s := t.source) hsound.closing.toClosable hopen hz
  have halive' : ¬t.source.ctl.aborted = true := by
    rw [show t.source.ctl.aborted = false from halive]
    simp
  have hstep : step (.close none) t = some ((t.close none).getD t.abort) := by
    rw [step.eq_def, if_neg halive']
    exact if_neg hd
  refine ⟨_, hstep, ?_⟩
  rcases close_cases hsound.closing.toClosable none with ⟨r, -, -, -, hp, -⟩ | ⟨heq, -, -, hp⟩
  · -- the close would not wait
    rw [hsound.closing.pendingClose_eq (.inl hopen), hwaits] at hp
    cases hp
  · rw [heq]
    exact ⟨rfl, hp⟩

theorem close_now {submit : Option Error} (h : s.Sound) (hopen : s.listener.closed = false)
    (hz : s.listener.pendingAccepts = 0) (hs : step (.close submit) s = some s') :
    s'.listener.fdOpen = false := by
  rw [step.eq_def] at hs
  obtain ⟨-, hs⟩ := Option.ite_none_left_eq_some.mp hs
  obtain ⟨-, rfl⟩ := of_unless hs
  rcases close_cases h.closing.toClosable submit with ⟨r, heq, -, -, -, hfd⟩ | ⟨-, -, hpos, -⟩
  · rw [heq]
    exact hfd (.inr ⟨hopen, hz⟩)
  · exact absurd hz hpos

/-- **The close of a listener is a drain barrier** in every run. -/
theorem closeBarrier_of_reaches (h : closing.Reaches p) : CloseBarrier p.1 p.2 := by
  have hs := sound_of_reaches (System.ReachesBy.of_withHistory (C := fun _ _ => True) h)
  have hflight : p.1.source.ctl.inFlight = p.1.source.ctl.submitted := hs.between.inv.inStep.1
  have hcount := hs.count
  refine ⟨closings_of_reaches h, fun hfd => ?_, fun k c hk => ?_, hs.returning.once,
    hs.returning.returned, fun hopen hz submit s' hstep => close_now hs hopen hz hstep,
    fun hc a s' hstep => ?_,
    fun hopen hz e s' hstep => close_retries hs hopen hz hstep⟩
  · have hp := hs.closing.pendingClose_eq (.inr hfd)
    have hz := hs.closing.drained hfd
    refine ⟨hz, List.eq_nil_of_length_eq_zero (by omega), ?_, hp, ?_⟩
    · rw [hflight]
      cases hsub : p.1.source.ctl.submitted with
      | false => rfl
      | true =>
        rw [hsub, Bool.toNat_true] at hcount
        omega
    · rw [hs.request, Listener.owed, hp]
  · cases ht : c.cancelRequestTerminal with
    | false =>
      left
      rw [hs.request, Listener.owed, hk]
      dsimp only
      rw [ht, if_neg (by simp)]
    | true =>
      right
      have hpos := hs.closing.progress k c hk ht
      cases hsub : p.1.source.ctl.submitted with
      | true => exact .inr (hflight.trans hsub)
      | false =>
        refine .inl fun hnil => hpos ?_
        rw [hcount, hsub, hnil]
        rfl
  · have hst := hs.step hstep
    obtain ⟨h1, h2, h3, -⟩ := hst.admits hc
    have hflight' : s'.source.ctl.inFlight = s'.source.ctl.submitted :=
      hst.sound.between.inv.inStep.1
    refine ⟨h1, h2, fun hx => ?_⟩
    rw [hflight]
    exact h3 (hflight'.symm.trans hx)

end Listening

/-- **`Close()` is a drain barrier** in every run of a stream and of a listener, whatever the order
of the completions and whichever submissions fail. -/
theorem close_drains :
    (∀ p, Stream.closing.Reaches p → Stream.CloseBarrier p.1 p.2) ∧
    ∀ p, Listening.closing.Reaches p → Listening.CloseBarrier p.1 p.2 :=
  ⟨fun _ h => Stream.closeBarrier_of_reaches h, fun _ h => Listening.closeBarrier_of_reaches h⟩

/-- A close of a stream with a read in the kernel, and one of a listener whose source has its
request there; the loop has refused each once. -/
theorem close_drains_pending :
    (∃ p, (Stream.closing.Reaches p ∧ p.1.shared.closeResults =
      [(0, .error 11), (1, .ok ())]) ∧ p.1.shared.fdOpen = false ∧
      Stream.CloseBarrier p.1 p.2) ∧
    ∃ p, (Listening.closing.Reaches p ∧ p.1.closeResults = [(0, .error 11), (1, .ok ())]) ∧
      p.1.listener.fdOpen = false ∧ Listening.CloseBarrier p.1 p.2 := by
  obtain ⟨p, hr, h1, h2⟩ := Stream.closing.exists_reachesBy (fun _ _ => True)
    (Stream.make (.ok ()) false 0, 0) ⟨⟨_, _, _, rfl⟩, rfl⟩
    [.read 8 {}, .close (some 11), .close none, .advance, .advance, .closeCqe 1 0,
      .advance, .cqe .read 0 ⟨-125, 0⟩ {}, .runNext, .runNext]
    (P := fun p => p.1.shared.closeResults = [(0, .error 11), (1, .ok ())] ∧
      p.1.shared.fdOpen = false) (by decide)
  obtain ⟨q, hr', h3, h4⟩ := Listening.closing.exists_reachesBy (fun _ _ => True)
    (Listening.make (.ok ()) false, 0) ⟨⟨_, _, rfl⟩, rfl⟩
    [.createSource {}, .source (.next []), .close (some 11), .close none,
      .closeCqe 1 0, .source (.acceptCqe ⟨-125, 0⟩ .stream []), .resume (.close 1)]
    (P := fun p => p.1.closeResults = [(0, .error 11), (1, .ok ())] ∧
      p.1.listener.fdOpen = false) (by decide)
  exact ⟨⟨p, ⟨hr, h1⟩, h2, close_drains.1 p hr⟩, q, ⟨hr', h3⟩, h4, close_drains.2 q hr'⟩

end Alyrn.Uring
