import Alyrn.Uring.AcceptSource.Runs

/-!
# What a source does to its listener

Between the last completion of a request and the progress of a close, an accept source changes two
things of its listener: who holds it, and by its own request the number of accepts that may still
use the descriptor. A closed listener gets no new request (`AcceptSource.Admits`).
-/

namespace Alyrn.Uring

open Net Transition

namespace AcceptSource

variable {s s' s'' : AcceptSource}

/-- The listener is as before, but for a request that was submitted. -/
structure Admits (s s' : AcceptSource) : Prop where
  fdOpen : s'.listener.fdOpen = s.listener.fdOpen
  closed : s'.listener.closed = s.listener.closed
  pendingClose : s'.listener.pendingClose = s.listener.pendingClose
  closeCalls : s'.listener.closeCalls = s.listener.closeCalls
  closes : s'.listener.closes = s.listener.closes
  count : s'.listener.pendingAccepts + s.ctl.submitted.toNat =
    s.listener.pendingAccepts + s'.ctl.submitted.toNat
  kept : s.ctl.submitted = true → s'.ctl.submitted = true
  new : s'.ctl.submitted = true → s.ctl.submitted = true ∨ s.listener.closed = false

theorem Admits.refl (s : AcceptSource) : Admits s s := ⟨rfl, rfl, rfl, rfl, rfl, rfl, id, .inl⟩

theorem Admits.trans (h : Admits s s') (h' : Admits s' s'') : Admits s s'' where
  fdOpen := h'.fdOpen.trans h.fdOpen
  closed := h'.closed.trans h.closed
  pendingClose := h'.pendingClose.trans h.pendingClose
  closeCalls := h'.closeCalls.trans h.closeCalls
  closes := h'.closes.trans h.closes
  count := by
    have h1 := h.count
    have h2 := h'.count
    omega
  kept hx := h'.kept (h.kept hx)
  new hx := by
    rcases h'.new hx with hx | hx
    · exact h.new hx
    · exact .inr (h.closed.symm.trans hx)

theorem Admits.of_eq (hl : s'.listener = s.listener) (hs : s'.ctl.submitted = s.ctl.submitted) :
    Admits s s' := by
  constructor <;> simp only [hl, hs]
  · exact id
  · exact .inl

theorem admits_requestBackendStop (e : Option Error) : Admits s (s.requestBackendStop e) :=
  .of_eq rfl SourceControl.requestBackendStop_submitted

theorem admits_requestBackendPause : Admits s s.requestBackendPause := by
  obtain ⟨_, -, ⟨hsub, -⟩, -⟩ := s.ctl.requestBackendPause_cases
    AcceptSourceStateMachine.requestPause AcceptSourceStateMachine.requestStop
  exact .of_eq rfl hsub

theorem admits_releaseListenerReservation : Admits s s.releaseListenerReservation := by
  unfold releaseListenerReservation
  split_ifs
  · exact ⟨rfl, rfl, rfl, rfl, rfl, rfl, id, .inl⟩
  · exact .refl s

theorem admits_completeStopIfReady : Admits s s.completeStopIfReady := by
  unfold completeStopIfReady
  split
  · exact .refl s
  · split_ifs
    · exact .refl s
    · exact .of_eq rfl rfl

theorem admits_startOperation : Admits s s.startOperation.2 := by
  by_cases hg : s.listenerClosed = false ∧ s.ctl.submitted = false ∧ s.machine.canArm = true
  · obtain ⟨hclosed, hsub, harm⟩ := hg
    rcases startOperation_cases hclosed hsub harm with ⟨-, answers, heq⟩ | ⟨-, e, answers, heq⟩
    · rw [heq]
      refine ⟨rfl, rfl, rfl, rfl, rfl, ?_, fun _ => rfl, fun _ => .inr ?_⟩
      · show s.listener.pendingAccepts + 1 + s.ctl.submitted.toNat =
          s.listener.pendingAccepts + 1
        rw [hsub]
        rfl
      · unfold listenerClosed at hclosed
        simp at hclosed
        exact hclosed.1
    · rw [heq]
      exact .of_eq rfl rfl
  · -- nothing is submitted
    unfold startOperation
    split_ifs with h1 h2 h3 h4
    · exact .refl s
    · exact .refl s
    · exact .refl s
    · exact .refl s
    · exact absurd ⟨by simpa using h1, by simpa using h3, by simpa using h4⟩ hg

section

variable {deliver : AcceptSource → AcceptSource} (hd : ∀ s, Admits s (deliver s))

include hd

theorem admits_ensureSubmissionWith : Admits s (s.ensureSubmissionWith deliver) := by
  unfold ensureSubmissionWith
  split_ifs
  · exact .refl s
  · have hstart := admits_startOperation (s := s)
    split
    · rename_i t ht
      rw [ht] at hstart
      exact hstart
    · rename_i e t ht
      rw [ht] at hstart
      exact (hstart.trans (admits_requestBackendStop _)).trans (hd _)

theorem admits_maybeResumeWith : Admits s (s.maybeResumeWith deliver) := by
  unfold maybeResumeWith
  split_ifs
  · exact .refl s
  · split
    · exact .refl s
    · refine Admits.trans ?_ (admits_ensureSubmissionWith hd)
      exact .of_eq rfl rfl

theorem admits_tryTakeNextWith : Admits s (s.tryTakeNextWith deliver).2 := by
  unfold tryTakeNextWith
  split
  · dsimp only
    split
    · exact .of_eq rfl rfl
    · split_ifs
      · refine Admits.trans ?_ (admits_maybeResumeWith hd)
        exact .of_eq rfl rfl
      · refine Admits.trans ?_ (admits_ensureSubmissionWith hd)
        exact .of_eq rfl rfl
  · split
    · dsimp only
      split_ifs
      · refine Admits.trans ?_ (admits_maybeResumeWith hd)
        exact .of_eq rfl rfl
      · exact .of_eq rfl rfl
    · split_ifs
      · exact admits_releaseListenerReservation
      · exact .refl s

theorem admits_deliverNextWith : Admits s (s.deliverNextWith deliver) := by
  unfold deliverNextWith
  split_ifs
  · exact .refl s
  · have htake := admits_tryTakeNextWith (s := s) hd
    split
    · rename_i t ht
      rw [ht] at htake
      exact htake
    · rename_i r t ht
      rw [ht] at htake
      dsimp only
      split
      · exact htake.trans (.of_eq rfl rfl)
      · exact htake.trans (.of_eq rfl rfl)

end

theorem admits_deliverNext (depth : ℕ) (s : AcceptSource) : Admits s (deliverNext depth s) := by
  induction depth generalizing s with
  | zero => exact .of_eq rfl rfl
  | succ depth ih => exact admits_deliverNextWith ih

theorem admits_deliverNextIfReady (s : AcceptSource) : Admits s (deliverNextIfReady s) :=
  admits_deliverNext 2 s

theorem admits_ensureSubmission : Admits s s.ensureSubmission :=
  admits_ensureSubmissionWith admits_deliverNextIfReady

theorem admits_maybeResume : Admits s s.maybeResume :=
  admits_maybeResumeWith admits_deliverNextIfReady

/-! ## Entries -/

theorem admits_onAccepted (stream : ℕ) (wrapped : Wrapped) :
    Admits s (s.onAccepted stream wrapped).2 := by
  unfold onAccepted
  split
  · exact .refl s
  · exact admits_requestBackendStop _
  · split_ifs
    · refine Admits.trans ?_ admits_requestBackendPause
      exact .of_eq rfl rfl
    · exact .of_eq rfl rfl

theorem admits_onFailure (result : ℤ) : Admits s (s.onFailure result) := by
  unfold onFailure
  dsimp only
  split_ifs
  · exact .of_eq rfl rfl
  · exact admits_requestBackendStop _
  · exact .refl s

theorem admits_handleResult (event : CompletionEvent) (wrapped : Wrapped) :
    Admits s (s.handleResult event wrapped).2 := by
  unfold handleResult
  split_ifs
  · exact admits_onAccepted _ _
  · exact admits_onFailure _
  · exact .refl s

theorem admits_recordEvent (produced more : Bool) : Admits s (s.recordEvent produced more) := by
  unfold recordEvent
  split
  · exact .of_eq rfl rfl
  · exact admits_requestBackendStop _

theorem admits_recorded (event : CompletionEvent) (wrapped : Wrapped) :
    Admits s (s.recorded event wrapped) :=
  (admits_handleResult event wrapped).trans (admits_recordEvent _ _)

theorem admits_rearmed (more : Bool) : Admits s (s.rearmed more) := by
  unfold rearmed
  dsimp only
  set t := if s.machine.state = .active ∧
    s.machine.options.eventCapacity ≤ s.machine.queuedEvents then s.requestBackendPause else s
    with ht
  have h : Admits s t := by
    rw [ht]
    split_ifs
    · exact admits_requestBackendPause
    · exact .refl s
  split_ifs
  · exact h.trans admits_ensureSubmission
  · exact h

theorem admits_resumed (more : Bool) :
    Admits s (deliverNextIfReady (s.rearmed more)).maybeResume :=
  ((admits_rearmed more).trans (admits_deliverNextIfReady _)).trans admits_maybeResume

theorem admits_onCancelComplete (result : ℤ) : Admits s (s.onCancelComplete result) := by
  refine Admits.trans ?_ admits_completeStopIfReady
  refine Admits.trans ?_ admits_maybeResume
  split_ifs
  · exact .of_eq rfl rfl
  · exact .of_eq rfl rfl

theorem admits_onListenerClosed : Admits s s.onListenerClosed := by
  refine Admits.trans ?_ admits_completeStopIfReady
  refine Admits.trans ?_ (admits_deliverNextIfReady _)
  exact .of_eq rfl rfl

theorem admits_start : Admits s s.start.2 := by
  unfold start
  split_ifs
  · exact .refl s
  · exact .refl s
  · exact .refl s
  · split
    · exact .refl s
    · rename_i m _
      dsimp only
      set t : AcceptSource := { s.setMachine m with
        listener := { s.listener with acceptSource := some .this } } with ht
      have h : Admits s t := ⟨rfl, rfl, rfl, rfl, rfl, rfl, id, .inl⟩
      have hop := admits_startOperation (s := t)
      split
      · rename_i u hu
        rw [hu] at hop
        exact h.trans hop
      · rename_i e u hu
        rw [hu] at hop
        exact (h.trans hop).trans (admits_requestBackendStop _)

theorem admits_next : Admits s s.next := by
  unfold next
  set t : AcceptSource := { s with nextCalls := s.nextCalls + 1 } with ht
  have h : Admits s t := .of_eq rfl rfl
  by_cases hp : t.pendingNext.isSome = true
  · rw [if_pos hp]
    exact h.trans (.of_eq rfl rfl)
  · rw [if_neg hp]
    have hstart : Admits t (if t.machine.state = .idle then t.start else (none, t)).2 := by
      split_ifs
      · exact admits_start
      · exact .refl t
    rcases hst : (if t.machine.state = .idle then t.start else (none, t)) with ⟨e | _, u⟩
    · rw [hst] at hstart
      dsimp only
      have htake := admits_tryTakeNextWith (s := u) admits_deliverNextIfReady
      rcases hu : u.tryTakeNextWith deliverNextIfReady with ⟨_ | r, v⟩
      · rw [hu] at htake
        have hn : u.tryTakeNext = (none, v) := hu
        rw [hn]
        exact ((h.trans hstart).trans htake).trans (.of_eq rfl rfl)
      · rw [hu] at htake
        have hn : u.tryTakeNext = (some r, v) := hu
        rw [hn]
        exact ((h.trans hstart).trans htake).trans (.of_eq rfl rfl)
    · rw [hst] at hstart
      exact (h.trans hstart).trans (.of_eq rfl rfl)

theorem admits_beginStop : Admits s s.beginStop.2 := by
  obtain ⟨ctl, heq, -, hsub, -⟩ := beginStop_eq (s := s)
  rw [heq]
  exact .of_eq rfl hsub

theorem admits_stop : Admits s s.stop := by
  unfold stop
  dsimp only
  set t : AcceptSource := { s with stopCalls := s.stopCalls + 1 } with ht
  have h : Admits s t := .of_eq rfl rfl
  split_ifs with h1 h2
  · exact h.trans (.of_eq rfl rfl)
  · have hd := admits_deliverNextIfReady (t.setMachine t.machine.requestStop)
    refine (h.trans ((Admits.trans ?_ hd).trans admits_releaseListenerReservation)).trans ?_
    · exact .of_eq rfl rfl
    · exact .of_eq rfl rfl
  · have hb := admits_beginStop (s := { t with pendingStop := some s.stopCalls })
    have h' : Admits s { t with pendingStop := some s.stopCalls } := .of_eq rfl rfl
    split
    · rename_i e u hu
      rw [hu] at hb
      exact (h'.trans hb).trans (.of_eq rfl rfl)
    · rename_i u hu
      rw [hu] at hb
      exact (h'.trans hb).trans (.of_eq rfl rfl)
    · rename_i u hu
      rw [hu] at hb
      exact h'.trans hb

/-! ## Entries of the loop and the program -/

def requestEnded (s : AcceptSource) : AcceptSource :=
  { s with
    ctl := { s.ctl with submitted := false }
    listener := { s.listener with pendingAccepts := s.listener.pendingAccepts - 1 } }

inductive Enters (s s' : AcceptSource) : Prop where
  | admits : Admits s s' → Enters s s'
  | ended (t : AcceptSource) : s.ctl.submitted = true → 0 < s.listener.pendingAccepts →
      Admits s.requestEnded t →
      Admits { t with listener := t.listener.notifyCloseProgress } s' → Enters s s'

theorem Between.enters {a : Action} (h : Between s) (ha : a.ofSource = true)
    (hstep : AcceptSource.step a s = some s') : Enters s s' := by
  unfold AcceptSource.step at hstep
  obtain ⟨halive, hstep⟩ := Option.ite_none_left_eq_some.mp hstep
  cases a with
  | acceptCqe event wrapped answers =>
    obtain ⟨hin, rfl⟩ := of_guard hstep
    have hsub : s.ctl.submitted = true := h.inv.inStep.1 ▸ hin
    have hacc : 1 ≤ s.listener.pendingAccepts := by simpa [hsub] using h.inv.reserved
    rw [onCompletion_eq]
    have hrec := admits_recorded (s := s.arrived event wrapped answers) event wrapped
    cases hm : event.more with
    | true =>
      have harr : Admits s (s.arrived event wrapped answers) := by
        unfold AcceptSource.arrived endRequest
        rw [hm, if_pos rfl]
        exact .of_eq rfl rfl
      rw [afterResult_eq, if_pos rfl]
      exact .admits (((harr.trans hrec).trans (admits_resumed _)).trans
        admits_completeStopIfReady)
    | false =>
      have harr : Admits s.requestEnded (s.arrived event wrapped answers) := by
        unfold AcceptSource.arrived endRequest
        rw [hm, if_neg (by simp)]
        rw [if_neg (by show s.listener.pendingAccepts ≠ 0; omega)]
        exact .of_eq rfl rfl
      rw [afterResult_eq, if_neg (by simp)]
      exact .ended _ hsub hacc ((harr.trans hrec).trans (admits_resumed _))
        admits_completeStopIfReady
  | cancelCqe result answers =>
    obtain ⟨-, rfl⟩ := of_guard hstep
    refine .admits (Admits.trans ?_ (admits_onCancelComplete _))
    exact .of_eq rfl rfl
  | next answers =>
    cases hstep
    refine .admits (Admits.trans ?_ admits_next)
    exact .of_eq rfl rfl
  | stop answers =>
    cases hstep
    refine .admits (Admits.trans ?_ admits_stop)
    exact .of_eq rfl rfl
  | _ => cases ha

end AcceptSource

end Alyrn.Uring
