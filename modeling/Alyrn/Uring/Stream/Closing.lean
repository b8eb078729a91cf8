import Alyrn.Uring.Stream.Start

/-!
# The close of a stream

A close that finds operations pending waits for them and for its own cancel request. What the
stream says about it meanwhile (`Stream.Closing`) is kept when operations end, because the last
one to end lets the close go on; and a call of `Close()` never fails a check (`Stream.Closes`).
-/

namespace Alyrn.Uring

open Function

namespace Shared

def works (h : Shared) : List Work := h.queues.completionReady ++ h.queues.ready

/-- What no operation but a close touches. -/
structure Quiet (h h' : Shared) : Prop where
  fdOpen : h'.fdOpen = h.fdOpen
  resource : h'.lifecycle.resource = h.lifecycle.resource
  pendingClose : h'.pendingClose = h.pendingClose
  closers : h'.closers = h.closers
  closeCalls : h'.closeCalls = h.closeCalls
  closeRequests : h'.closeRequests = h.closeRequests
  closeResults : h'.closeResults = h.closeResults
  stopping : h.loopState.isStopping = true → h'.loopState.isStopping = true
  works : ∀ w, (∀ i, w ≠ .other i) → h'.works.count w = h.works.count w

theorem Quiet.of_queues (h : Shared) {q : WorkQueues Work}
    (hq : ∀ w, (∀ i, w ≠ .other i) →
      (q.completionReady ++ q.ready).count w = h.works.count w) :
    h.Quiet { h with queues := q } :=
  ⟨rfl, rfl, rfl, rfl, rfl, rfl, rfl, fun hs => hs, hq⟩

theorem Quiet.requestStop (h : Shared) : h.Quiet h.requestStop := by
  refine ⟨rfl, rfl, rfl, rfl, rfl, rfl, rfl, fun hs => ?_, fun _ _ => rfl⟩
  show h.loopState.requestStop.isStopping = true
  cases hl : h.loopState <;> rw [hl] at hs <;> rfl

theorem Quiet.trans {h h' h'' : Shared} (h1 : h.Quiet h') (h2 : h'.Quiet h'') : h.Quiet h'' :=
  ⟨h2.1.trans h1.1, h2.2.trans h1.2, h2.3.trans h1.3, h2.4.trans h1.4, h2.5.trans h1.5,
    h2.6.trans h1.6, h2.7.trans h1.7, fun hs => h2.8 (h1.8 hs),
    fun w hw => (h2.9 w hw).trans (h1.9 w hw)⟩

def drains (h : Shared) : Shared := { h with queues := { h.queues with turn := .drain 0 } }

theorem Quiet.drains (h : Shared) : h.Quiet h.drains := .of_queues h fun _ _ => rfl

def finishClose (h : Shared) (k : ℕ) : Shared :=
  let c := h.closers k
  { h with
    pendingClose := none, fdOpen := false, lifecycle := h.lifecycle.markClosed
    closers := update h.closers k { c with
      convergence := { c.convergence with completed := true }
      result := some (if h.fdOpen then h.closeResult else .ok ()), attached := false
      op := { c.op with handle := c.continuation } } }

theorem tryComplete_eq (h : Shared) (k : ℕ) (own pending : Bool)
    (ha : (h.closers k).attached = true) (hc : (h.closers k).convergence.completed = false) :
    h.tryComplete k own pending =
      if (h.closers k).convergence.cancelRequestTerminal = true ∧ pending = false then
        if own then h.finishClose k else (h.finishClose k).scheduleCompletion (.close k)
      else h := by
  unfold tryComplete FdCloseConvergence.tryAuthorizeClose
  rw [if_neg (by simp [ha])]
  by_cases hg : (h.closers k).convergence.cancelRequestTerminal = true ∧ pending = false
  · rw [if_pos hg, if_neg (by simp [hc, hg.1, hg.2])]
    rfl
  · rw [if_neg hg, if_pos ?_]
    by_cases ht : (h.closers k).convergence.cancelRequestTerminal = true
    · exact .inr (.inr (by simpa using fun hp => hg ⟨ht, hp⟩))
    · exact .inr (.inl (by simpa using ht))

end Shared

theorem Shared.notifyCloseProgress_cases (h : Shared) (pending : Bool) :
    h.notifyCloseProgress pending = h ∨ ∃ k, h.pendingClose = some k ∧ pending = false ∧
      (h.closers k).convergence.cancelRequestTerminal = true ∧
      h.notifyCloseProgress pending = (h.finishClose k).scheduleCompletion (.close k) := by
  cases hp : h.pendingClose with
  | none => exact .inl (by simp [Shared.notifyCloseProgress, hp])
  | some k =>
    have heq : h.notifyCloseProgress pending = h.tryComplete k false pending := by
      simp [Shared.notifyCloseProgress, hp]
    rw [heq]
    by_cases ha : (h.closers k).attached = true ∧ (h.closers k).convergence.completed = false
    · rw [tryComplete_eq _ _ _ _ ha.1 ha.2]
      by_cases hg : (h.closers k).convergence.cancelRequestTerminal = true ∧ pending = false
      · exact .inr ⟨k, rfl, hg.2, hg.1, by rw [if_pos hg]; rfl⟩
      · exact .inl (by rw [if_neg hg])
    · left
      unfold Shared.tryComplete FdCloseConvergence.tryAuthorizeClose
      by_cases hat : (h.closers k).attached = true
      · have hc : (h.closers k).convergence.completed = true := by
          by_contra hc
          exact ha ⟨hat, by simpa using hc⟩
        rw [if_neg (by simp [hat]), if_pos (.inl hc)]
      · rw [if_pos (by simp [hat])]

theorem Shared.answer_eq {h : Shared} {k : ℕ} (pending : Bool) (hp : h.pendingClose = some k)
    (ha : (h.closers k).attached = true) (hc : (h.closers k).convergence.completed = false)
    (ht : (h.closers k).convergence.cancelRequestTerminal = true)
    (hh : (h.closers k).op.handle = none) (hk : (h.closers k).continuation = some k) :
    (let h' := h.tryComplete k true pending
      if (h'.closers k).op.handle.isSome then h'.scheduleCompletion (.close k) else h') =
      h.notifyCloseProgress pending := by
  have hsome : ((h.finishClose k).closers k).op.handle = some k := by
    simp [Shared.finishClose, hk]
  unfold Shared.notifyCloseProgress
  simp only [hp]
  rw [tryComplete_eq _ _ _ _ ha hc, tryComplete_eq _ _ _ _ ha hc]
  cases pending with
  | false => simp [ht, hsome]
  | true => simp [hh]

variable {l l' : Net.StreamLifecycle}

theorem Net.StreamLifecycle.prepareCloseRead_fresh {pending : Bool}
    (h : l.prepareCloseRead pending = .ok (true, l')) :
    l.resource = .opened ∧ l' = { l with read := .shutdownPreparing } := by
  obtain ⟨resource, read, write⟩ := l
  cases resource <;> cases read <;> cases pending <;> cases h
  exact ⟨rfl, rfl⟩

theorem Net.StreamLifecycle.prepareClose_fresh (h : l.prepareClose = .ok (true, l')) :
    l.resource = .opened ∧ l' = { l with resource := .closing } := by
  unfold Net.StreamLifecycle.prepareClose at h
  cases hr : l.resource with
  | closed | closing => rw [hr] at h; cases h
  | opened =>
    rw [hr] at h
    split_ifs at h
    cases h
    exact ⟨rfl, rfl⟩

theorem Net.StreamLifecycle.prepareClose_again
    (h : l.prepareClose = .ok (false, l')) : l.resource = .closed := by
  unfold Net.StreamLifecycle.prepareClose at h
  cases hr : l.resource with
  | closed => rfl
  | closing => rw [hr] at h; cases h
  | opened =>
    rw [hr] at h
    split_ifs at h
    cases h

theorem Net.StreamLifecycle.prepareShutdown_fresh {pending : Bool}
    (h : l.prepareShutdown pending = .ok (true, l')) :
    l.resource = .opened ∧ l' = { l with write := .shutdownPreparing } := by
  obtain ⟨resource, read, write⟩ := l
  cases resource <;> cases write <;> cases pending <;> cases h
  exact ⟨rfl, rfl⟩

/-- The close with number `k` waits. -/
structure Closer.Waiting (k : ℕ) (c : Closer) : Prop where
  kind : c.op.kind = .streamCloseComplete
  handle : c.op.handle = none
  continuation : c.continuation = some k
  attached : c.attached = true
  completed : c.convergence.completed = false
  unanswered : c.convergence.cancelRequestTerminal = false →
    c.op.completed = false ∧ c.op.result = none

namespace Shared

def closeReturned (h : Shared) (r : Except Error Unit) : Shared :=
  { h with
    closeCalls := h.closeCalls + 1
    closers := update h.closers h.closeCalls { result := some r }
    closeResults := h.closeResults ++ [(h.closeCalls, r)] }

def closedNow (h : Shared) : Shared :=
  { h with fdOpen := false, lifecycle := h.lifecycle.markClosed }

def closeSuspended (h : Shared) : Shared :=
  { h with
    closeCalls := h.closeCalls + 1
    closers := update h.closers h.closeCalls { continuation := some h.closeCalls }
    pendingClose := some h.closeCalls
    lifecycle := { h.lifecycle with resource := .closing }
    closeRequests := h.closeRequests ++ [h.closeCalls] }

def closeAnswered (h : Shared) (k : ℕ) (result : ℤ) : Shared :=
  let c := h.closers k
  { h with
    closeRequests := h.closeRequests.erase k
    closers := update h.closers k { c with
      op := { c.op with completed := true, result := some result }
      convergence := { c.convergence with cancelRequestTerminal := true } } }

end Shared

namespace Stream

variable {s s' : Stream} {d : Dir} {n : ℕ}

/-- What holds of a stream's close between two steps. -/
structure Closable (s : Stream) : Prop where
  waiting : ∀ k, s.shared.pendingClose = some k → k < s.shared.closeCalls ∧
    s.shared.lifecycle.resource = .closing ∧ (s.shared.closers k).Waiting k
  request : ∀ k, s.shared.pendingClose = some k → s.shared.closeRequests =
    if (s.shared.closers k).convergence.cancelRequestTerminal then [] else [k]
  idle : s.shared.pendingClose = none →
    s.shared.closeRequests = [] ∧ s.shared.lifecycle.resource ≠ .closing
  fd : s.shared.fdOpen = true ↔ s.shared.lifecycle.resource ≠ .closed
  drained : s.shared.lifecycle.resource = .closed → s.operationsPending = false

/-- A close waits for operations, or for the answer to its cancel request. -/
structure Closing (s : Stream) : Prop extends s.Closable where
  progress : ∀ k, s.shared.pendingClose = some k →
    (s.shared.closers k).convergence.cancelRequestTerminal = true → s.operationsPending = true

theorem Closable.notifyCloseProgress (h : s.Closable) : s.notifyCloseProgress.Closing := by
  cases hp : s.shared.pendingClose with
  | none =>
    have heq : s.notifyCloseProgress = s := by
      simp [Stream.notifyCloseProgress, Shared.notifyCloseProgress, hp]
    rw [heq]
    exact ⟨h, fun k hk => by rw [hp] at hk; cases hk⟩
  | some k =>
    obtain ⟨hk, hres, hw⟩ := h.waiting k hp
    have heq : s.notifyCloseProgress =
        { s with shared := s.shared.tryComplete k false s.operationsPending } := by
      simp [Stream.notifyCloseProgress, Shared.notifyCloseProgress, hp]
    rw [heq, Shared.tryComplete_eq _ _ _ _ hw.attached hw.completed]
    by_cases hg : (s.shared.closers k).convergence.cancelRequestTerminal = true ∧
        s.operationsPending = false
    · rw [if_pos hg]
      have hreq := h.request k hp
      rw [hg.1] at hreq
      have hnone {j : ℕ} (hx : (none : Option ℕ) = some j) : False := by cases hx
      exact ⟨⟨fun j hx => (hnone hx).elim, fun j hx => (hnone hx).elim,
        fun _ => ⟨hreq, nofun⟩,
        ⟨nofun, fun hx => absurd rfl hx⟩,
        fun _ => hg.2⟩, fun j hx => (hnone hx).elim⟩
    · rw [if_neg hg]
      refine ⟨h, fun j hj hterm => ?_⟩
      cases hp.symm.trans hj
      by_contra hx
      exact hg ⟨hterm, by simpa using hx⟩

structure SameClose (s s' : Stream) : Prop where
  fdOpen : s'.shared.fdOpen = s.shared.fdOpen
  resource : s'.shared.lifecycle.resource = s.shared.lifecycle.resource
  pendingClose : s'.shared.pendingClose = s.shared.pendingClose
  closers : s'.shared.closers = s.shared.closers
  closeCalls : s'.shared.closeCalls = s.shared.closeCalls
  closeRequests : s'.shared.closeRequests = s.shared.closeRequests

theorem SameClose.of_shared (h : s'.shared = s.shared) : SameClose s s' := by
  constructor <;> rw [h]

theorem SameClose.of_quiet {h : Shared} (hq : s.shared.Quiet h) (hs : s'.shared = h) :
    SameClose s s' := by
  subst hs
  exact { hq with }

theorem Closable.congr (h : s.Closable) (hc : SameClose s s')
    (hops : s.operationsPending = false → s'.operationsPending = false) : s'.Closable where
  waiting k hk := by
    have := h.waiting k (hc.pendingClose.symm.trans hk)
    rwa [← hc.closeCalls, ← hc.resource, ← hc.closers] at this
  request k hk := by
    have := h.request k (hc.pendingClose.symm.trans hk)
    rwa [← hc.closeRequests, ← hc.closers] at this
  idle hk := by
    have := h.idle (hc.pendingClose.symm.trans hk)
    rwa [← hc.closeRequests, ← hc.resource] at this
  fd := by
    have := h.fd
    rwa [← hc.fdOpen, ← hc.resource] at this
  drained hx := hops (h.drained (hc.resource.symm.trans hx))

theorem Closing.congr (h : s.Closing) (hc : SameClose s s')
    (hops : s'.operationsPending = s.operationsPending) : s'.Closing := by
  refine ⟨h.toClosable.congr hc fun hx => hops.trans hx, fun k hk hterm => ?_⟩
  rw [hc.closers] at hterm
  exact hops.trans (h.progress k (hc.pendingClose.symm.trans hk) hterm)

theorem operationsPending_setLane_self {x : Lane} (h : x.pending = (s.lanes d).pending) :
    (s.setLane d x).operationsPending = s.operationsPending := by
  have := operationsPending_setLane (s := s) (d := d) h
  rwa [setLane_lanes] at this

theorem operationsPending_vacate {x : Lane} (h : x.pending = none)
    (hs : s.operationsPending = false) : (s.setLane d x).operationsPending = false := by
  simp only [operationsPending, Bool.or_eq_false_iff] at hs ⊢
  cases d <;> simp [setLane, h, hs]

/-- How a call of `Close()` goes. -/
inductive Closes (s : Stream) (submit : Option Error) : Shared → Prop where
  | refused {r : Except Error Unit} : (r = .ok () → s.shared.lifecycle.resource = .closed) →
      Closes s submit (s.shared.closeReturned r)
  | now {r : Except Error Unit} : s.shared.pendingClose = none →
      s.shared.lifecycle.resource = .opened → s.operationsPending = false →
      Closes s submit (s.shared.closedNow.closeReturned r)
  | suspended : s.shared.pendingClose = none → s.shared.lifecycle.resource = .opened →
      s.operationsPending = true → s.shared.submitAnswer submit = none →
      Closes s submit s.shared.closeSuspended

theorem returnClose_eq (k : ℕ) (r : Except Error Unit) :
    s.returnClose k r = some { s with shared := { s.shared with
      closers := update s.shared.closers k { s.shared.closers k with result := some r }
      closeResults := s.shared.closeResults ++ [(k, r)] } } := by
  simp [returnClose, resumeClose]

theorem returnClose_new (r : Except Error Unit) (h : Shared) :
    ({ s with shared := { h with
        closeCalls := h.closeCalls + 1
        closers := update h.closers h.closeCalls {} } } : Stream).returnClose
          h.closeCalls r =
      some { s with shared := h.closeReturned r } := by
  rw [returnClose_eq]
  simp [Shared.closeReturned]

theorem close_closes (submit : Option Error) :
    ∃ h, s.close submit = some { s with shared := h } ∧ Closes s submit h := by
  unfold close
  by_cases hp : s.shared.pendingClose.isSome = true
  · rw [if_pos hp]
    exact ⟨_, returnClose_new _ s.shared, .refused nofun⟩
  · rw [if_neg hp]
    have hnone : s.shared.pendingClose = none := by simpa using hp
    cases hpc : s.shared.lifecycle.prepareClose with
    | error e => exact ⟨_, returnClose_new _ s.shared, .refused nofun⟩
    | ok q =>
      obtain ⟨fresh, lifecycle⟩ := q
      cases fresh with
      | false =>
        exact ⟨_, returnClose_new _ s.shared,
          .refused fun _ => Net.StreamLifecycle.prepareClose_again hpc⟩
      | true =>
        obtain ⟨hopen, rfl⟩ := Net.StreamLifecycle.prepareClose_fresh hpc
        have hback : ({ s.shared.lifecycle with resource := .opened } : Net.StreamLifecycle) =
            s.shared.lifecycle := by rw [← hopen]
        split_ifs with hops
        · have hops : (!s.operationsPending) = true := hops
          have hpend : s.operationsPending = false := by simpa using hops
          refine ⟨_, returnClose_new _ s.shared.closedNow, .now hnone hopen hpend⟩
        · have hops : ¬ (!s.operationsPending) = true := hops
          have hpend : s.operationsPending = true := by simpa using hops
          cases hsub : s.shared.submitAnswer submit with
          | none =>
            have hsub' : Shared.submitAnswer { s.shared with
                closeCalls := s.shared.closeCalls + 1
                closers := update s.shared.closers s.shared.closeCalls {}
                lifecycle := { s.shared.lifecycle with resource := .closing } } submit = none :=
              hsub
            simp only [hsub']
            refine ⟨_, ?_, .suspended hnone hopen hpend hsub⟩
            simp [Shared.closeSuspended]
          | some e =>
            have hsub' : Shared.submitAnswer { s.shared with
                closeCalls := s.shared.closeCalls + 1
                closers := update s.shared.closers s.shared.closeCalls {}
                lifecycle := { s.shared.lifecycle with resource := .closing } } submit = some e :=
              hsub
            simp only [hsub', Net.StreamLifecycle.abortClosePreparation, if_true, hback,
              Option.bind_eq_bind, Option.bind_some]
            exact ⟨_, returnClose_new _ s.shared, .refused nofun⟩

end Stream

end Alyrn.Uring
