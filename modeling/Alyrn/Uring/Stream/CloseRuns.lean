import Alyrn.Lib.Ledger
import Alyrn.Uring.Stream.Works

/-!
# Runs of a close

A call of `Close()` returns at once, or waits; each call returns exactly once, and one that waits
returns after the descriptor was closed (`Shared.Returning`). The descriptor is closed when neither
an operation nor the close's own cancel request is left (`Stream.CloseBarrier`).
-/

namespace Alyrn.Uring

open Transition Function

namespace Shared

variable {h g : Shared} {w : Work} {k : ℕ}

/-- Each call of `Close()` that does not wait has returned, or its work is queued. -/
structure Returning (h : Shared) : Prop where
  once : Ledger.Once (fun k => (h.closeResults.map Prod.fst).count k + h.works.count (.close k))
    h.closeCalls h.pendingClose
  work : ∀ k, Work.close k ∈ h.works →
    (h.closers k).op.handle = some k ∧ (h.closers k).result.isSome = true ∧ h.fdOpen = false
  returned : ∀ k r, (k, r) ∈ h.closeResults →
    r = .ok () ∨ (h.closers k).continuation.isSome = true → h.fdOpen = false

section

variable (hr : h.Returning)
include hr

theorem Returning.not_queued (hp : h.pendingClose = some k) :
    Work.close k ∉ h.works ∧ k ∉ h.closeResults.map Prod.fst := by
  have := hr.once.waiting hp
  exact ⟨List.count_eq_zero.mp (by omega), List.count_eq_zero.mp (by omega)⟩

theorem Returning.fresh :
    Work.close h.closeCalls ∉ h.works ∧ h.closeCalls ∉ h.closeResults.map Prod.fst := by
  have := hr.once.fresh (Nat.le_refl _)
  exact ⟨List.count_eq_zero.mp (by omega), List.count_eq_zero.mp (by omega)⟩

theorem Returning.congr (h1 : g.closeResults = h.closeResults)
    (h2 : ∀ k, g.works.count (.close k) = h.works.count (.close k))
    (h3 : g.closeCalls = h.closeCalls) (h4 : g.pendingClose = h.pendingClose)
    (h5 : ∀ k < h.closeCalls, h.pendingClose ≠ some k → g.closers k = h.closers k)
    (h6 : h.fdOpen = false → g.fdOpen = false) : g.Returning := by
  have hlt {k : ℕ} (hk : k ∈ h.closeResults.map Prod.fst ∨ Work.close k ∈ h.works) :
      g.closers k = h.closers k := by
    have hg := hr.once.of_pos (k := k) <| by
      rcases hk with hk | hk
      · exact Nat.add_pos_left (List.count_pos_iff.mpr hk) _
      · exact Nat.add_pos_right _ (List.count_pos_iff.mpr hk)
    exact h5 k hg.1 hg.2
  constructor
  · simp only [h1, h2, h3, h4]
    exact hr.once
  · intro k hk
    have hmem : Work.close k ∈ h.works := by
      rw [← List.count_pos_iff] at hk ⊢
      rwa [h2] at hk
    rw [hlt (.inr hmem)]
    obtain ⟨g1, g2, g3⟩ := hr.work k hmem
    exact ⟨g1, g2, h6 g3⟩
  · intro k r hk hc
    rw [h1] at hk
    rw [hlt (.inl (List.mem_map_of_mem hk))] at hc
    exact h6 (hr.returned k r hk hc)

theorem Returning.quiet (hq : h.Quiet g) : g.Returning :=
  hr.congr hq.closeResults (fun k => hq.works _ (by simp)) hq.closeCalls hq.pendingClose
    (fun k _ _ => by rw [hq.closers]) fun hx => hq.fdOpen.trans hx

theorem Returning.scheduleCompletion (hw : ∀ k, w ≠ .close k) :
    (h.scheduleCompletion w).Returning := by
  refine hr.congr rfl (fun k => ?_) rfl rfl (fun _ _ _ => rfl) id
  rw [count_scheduleCompletion, if_neg (fun hx => hw k hx.1.symm), Nat.add_zero]

theorem Returning.closeAnswered (hp : h.pendingClose = some k) (result : ℤ) :
    (h.closeAnswered k result).Returning :=
  hr.congr rfl (fun _ => rfl) rfl rfl
    (fun j _ hj => update_of_ne (fun hx => hj (by rw [hx]; exact hp)) ..) id

theorem Returning.notifyCloseProgress (pending : Bool)
    (hw : ∀ k, h.pendingClose = some k → k < h.closeCalls ∧ (h.closers k).Waiting k) :
    (h.notifyCloseProgress pending).Returning := by
  rcases h.notifyCloseProgress_cases pending with heq | ⟨k, hp, -, -, heq⟩
  · rw [heq]
    exact hr
  · rw [heq]
    obtain ⟨hk, hwait⟩ := hw k hp
    obtain ⟨hnw, hnr⟩ := hr.not_queued hp
    have hnw' : Work.close k ∉ (h.finishClose k).works := hnw
    have hself : (h.finishClose k).closers k = { h.closers k with
        convergence := { (h.closers k).convergence with completed := true }
        result := some (if h.fdOpen then h.closeResult else .ok ()), attached := false
        op := { (h.closers k).op with handle := (h.closers k).continuation } } :=
      update_self ..
    have hother {j : ℕ} (hj : j ≠ k) : (h.finishClose k).closers j = h.closers j :=
      update_of_ne hj ..
    constructor
    · have honce := hr.once
      rw [hp] at honce
      refine honce.answer hk fun j => ?_
      rw [count_scheduleCompletion]
      simp only [Work.close.injEq, hnw', not_false_eq_true, and_true]
      exact (Nat.add_assoc ..).symm
    · intro j hj
      show ((h.finishClose k).closers j).op.handle = some j ∧
        ((h.finishClose k).closers j).result.isSome = true ∧ false = false
      by_cases hjk : j = k
      · subst hjk
        rw [hself]
        exact ⟨hwait.continuation, rfl, rfl⟩
      · rw [hother hjk]
        have hmem : Work.close j ∈ h.works := by
          rw [← List.count_pos_iff, count_scheduleCompletion,
            if_neg (fun hx => hjk (Work.close.inj hx.1)), Nat.add_zero] at hj
          exact List.count_pos_iff.mp hj
        obtain ⟨g1, g2, -⟩ := hr.work j hmem
        exact ⟨g1, g2, rfl⟩
    · intro j r _ _
      rfl

theorem Returning.closeReturned {r : Except Error Unit}
    (hp : ∀ k, h.pendingClose = some k → k < h.closeCalls) (hok : r = .ok () → h.fdOpen = false) :
    (h.closeReturned r).Returning := by
  obtain ⟨hnw, hnr⟩ := hr.fresh
  have hother {k : ℕ} (hk : k ≠ h.closeCalls) : (h.closeReturned r).closers k = h.closers k :=
    update_of_ne hk ..
  constructor
  · exact hr.once.returns (fun hx => absurd (hp _ hx) (Nat.lt_irrefl _)) r
  · intro k hk
    have hne : k ≠ h.closeCalls := fun hx => hnw (by rw [← hx]; exact hk)
    rw [hother hne]
    exact hr.work k hk
  · intro k r' hk hc
    rcases List.mem_append.mp hk with hk | hk
    · have hne : k ≠ h.closeCalls := fun hx => hnr (by rw [← hx]; exact List.mem_map_of_mem hk)
      rw [hother hne] at hc
      exact hr.returned k r' hk hc
    · cases List.mem_singleton.mp hk
      refine hok (hc.resolve_right ?_)
      rw [show (h.closeReturned r).closers h.closeCalls = { result := some r } from
        update_self ..]
      nofun

theorem Returning.closedNow : h.closedNow.Returning :=
  hr.congr rfl (fun _ => rfl) rfl rfl (fun _ _ _ => rfl) fun _ => rfl

theorem Returning.closeSuspended (hp : h.pendingClose = none) : h.closeSuspended.Returning := by
  obtain ⟨hnw, hnr⟩ := hr.fresh
  have hother {k : ℕ} (hk : k ≠ h.closeCalls) : h.closeSuspended.closers k = h.closers k :=
    update_of_ne hk ..
  constructor
  · have honce := hr.once
    rw [hp] at honce
    exact honce.park
  · intro k hk
    have hne : k ≠ h.closeCalls := fun hx => hnw (by rw [← hx]; exact hk)
    rw [hother hne]
    exact hr.work k hk
  · intro k r hk hc
    have hne : k ≠ h.closeCalls := fun hx => hnr (by rw [← hx]; exact List.mem_map_of_mem hk)
    rw [hother hne] at hc
    exact hr.returned k r hk hc

theorem Returning.take {q : WorkQueues Work}
    (hn : h.queues.next = some (w, q)) (hw : ∀ k, w ≠ .close k) :
    Returning { h with queues := q } := by
  refine hr.congr rfl (fun k => ?_) rfl rfl (fun _ _ _ => rfl) id
  rw [(works_perm_of_next hn).count_eq, List.count_cons, if_neg (by simpa using hw k),
    Nat.add_zero]
  rfl

theorem Returning.resume {q : WorkQueues Work}
    (hn : h.queues.next = some (.close k, q)) (r : Except Error Unit) :
    Returning { h with queues := q, closeResults := h.closeResults ++ [(k, r)] } := by
  have hperm := works_perm_of_next hn
  have hmem : Work.close k ∈ h.works := hperm.mem_iff.mpr (by simp)
  have hsub {j : ℕ} (hj : Work.close j ∈ q.completionReady ++ q.ready) : Work.close j ∈ h.works :=
    hperm.mem_iff.mpr (List.mem_cons_of_mem _ hj)
  constructor
  · refine hr.once.resumes (fun j => ?_) r
    rw [hperm.count_eq, List.count_cons]
    simp only [beq_iff_eq, Work.close.injEq, eq_comm (a := k)]
    rfl
  · intro j hj
    exact hr.work j (hsub hj)
  · intro j r' hj hc
    rcases List.mem_append.mp hj with hj | hj
    · exact hr.returned j r' hj hc
    · cases List.mem_singleton.mp hj
      exact (hr.work _ hmem).2.2

end

end Shared

namespace Stream

variable {s s' : Stream} {a : Action} {d : Dir} {n : ℕ} {submit : Option Error}

theorem conclude_returning (h : s.Sound) (hr : s.shared.Returning) {x : Lane} :
    (s.conclude d x).shared.Returning :=
  hr.notifyCloseProgress _ fun k hk =>
    ⟨(h.closing.waiting k hk).1, (h.closing.waiting k hk).2.2⟩

/-- **Calls of `Close()` return once**: kept by every step. -/
theorem Steps.returning (h : s.Sound) (hr : s.shared.Returning) (hs : Steps s a s') :
    s'.shared.Returning := by
  have hpend (k : ℕ) (hk : s.shared.pendingClose = some k) : k < s.shared.closeCalls :=
    (h.closing.waiting k hk).1
  cases hs with
  | quiet _ hq => exact hr.quiet hq
  | destroyed _ _ | deadlines _ _ => exact hr
  | started _ _ _ hstart =>
    cases hstart with
    | refused | suspended => exact hr
    | released | undone => exact conclude_returning h hr
  | fired ht hfire =>
    rename_i d t ans stop y
    cases stop with
    | true => exact hr.quiet (.requestStop _)
    | false => exact hr
  | settled hp hterm he =>
    rename_i d n b sent
    refine Shared.Returning.quiet ?_ (.drains _)
    unfold settle
    dsimp only
    rw [setLane_self]
    cases ((s.lanes d).relieved sent).cancelInFlight with
    | true => exact hr
    | false =>
      rw [if_neg (by simp), setLane_conclude]
      exact (conclude_returning h hr).scheduleCompletion (by simp)
  | recorded | answered => exact hr.quiet (.drains _)
  | finished => exact ((conclude_returning h hr).scheduleCompletion (by simp)).quiet (.drains _)
  | closeAnswered hp hterm =>
    rename_i k result
    refine Shared.Returning.quiet ?_ (.drains _)
    refine (hr.closeAnswered hp result).notifyCloseProgress _ fun j hj => ?_
    cases hp.symm.trans hj
    obtain ⟨h1, -, h3⟩ := h.closing.waiting k hp
    refine ⟨h1, ?_⟩
    rw [show (s.shared.closeAnswered k result).closers k = { s.shared.closers k with
      op := { (s.shared.closers k).op with completed := true, result := some result }
      convergence := { (s.shared.closers k).convergence with cancelRequestTerminal := true } } from
      update_self ..]
    exact { h3 with unanswered := nofun }
  | closes _ hc =>
    cases hc with
    | refused hok =>
      refine hr.closeReturned hpend fun hx => ?_
      by_contra hfd
      exact h.closing.fd.mp (by simpa using hfd) (hok hx)
    | now => exact hr.closedNow.closeReturned hpend fun _ => rfl
    | suspended hp => exact hr.closeSuspended hp
  | resumed hq hres =>
    rename_i w q
    cases hres with
    | failed hnone =>
      refine hr.take hq fun k hk => ?_
      subst hk
      -- the work of a close has all that it needs
      have hmem : Work.close k ∈ s.shared.works :=
        (Shared.works_perm_of_next hq).mem_iff.mpr (by simp)
      obtain ⟨h1, h2, -⟩ := hr.work k hmem
      obtain ⟨r, hr'⟩ := Option.isSome_iff_exists.mp h2
      have hrun : (s.setQueues q).runWork (.close k) = some { s.setQueues q with
          shared := { (s.setQueues q).shared with
            closeResults := (s.setQueues q).shared.closeResults ++ [(k, r)] } } := by
        simp [runWork, resumeClose, setQueues, h1, hr']
      rw [hrun] at hnone
      cases hnone
    | operation hc _ =>
      refine hr.take hq fun k hk => ?_
      subst hk
      cases hc
    | close hw hh hres =>
      rename_i k m r
      subst hw
      have hmem : Work.close k ∈ s.shared.works :=
        (Shared.works_perm_of_next hq).mem_iff.mpr (by simp)
      cases hh.symm.trans (hr.work k hmem).1
      exact hr.resume hq r
    | other hw =>
      refine hr.take hq fun k hk => ?_
      subst hk
      cases hw

theorem returning_of_reaches (h : system.Reaches s) : s.shared.Returning := by
  refine h.invariant_of (J := Sound) (I := fun s => s.shared.Returning)
    (fun s hs => sound_of_reaches hs) ?_ ?_
  · rintro s ⟨closeResult, zeroCopy, now, rfl⟩
    exact ⟨fun k => rfl, fun k hk => (by cases hk), fun k r hk => (by cases hk)⟩
  · intro s a s' hs _ hr _ hstep
    exact (hs.steps hstep).2.returning hs hr

/-! ## The barrier -/

theorem close_submits (hp : s.shared.pendingClose = none)
    (hprep : ∃ l, s.shared.lifecycle.prepareClose = .ok (true, l))
    (hops : s.operationsPending = true) : s.close submit = some { s with
      shared := match s.shared.submitAnswer submit with
        | none => s.shared.closeSuspended
        | some e => s.shared.closeReturned (.error e) } := by
  obtain ⟨l, hl⟩ := hprep
  obtain ⟨hopen, rfl⟩ := Net.StreamLifecycle.prepareClose_fresh hl
  have hback : ({ s.shared.lifecycle with resource := .opened } : Net.StreamLifecycle) =
      s.shared.lifecycle := by rw [← hopen]
  unfold close
  rw [if_neg (by simp [hp]), hl]
  dsimp only
  split_ifs with hnone
  · have hnone : (!s.operationsPending) = true := hnone
    rw [hops] at hnone
    cases hnone
  · have hanswer : Shared.submitAnswer { s.shared with
        closeCalls := s.shared.closeCalls + 1
        closers := update s.shared.closers s.shared.closeCalls {}
        lifecycle := { s.shared.lifecycle with resource := .closing } } submit =
        s.shared.submitAnswer submit := rfl
    rw [hanswer]
    cases s.shared.submitAnswer submit with
    | none => simp [Shared.closeSuspended]
    | some e =>
      simp only [Net.StreamLifecycle.abortClosePreparation, if_true, hback, Option.bind_eq_bind,
        Option.bind_some]
      exact returnClose_new _ s.shared

theorem Steps.shared (hs : Steps s a s') :
    (s'.shared.fdOpen = s.shared.fdOpen ∧ s'.shared.pendingClose = s.shared.pendingClose) ∨
    (s.shared.pendingClose.isSome = true ∧ s'.shared.pendingClose = none ∧
      s'.shared.fdOpen = false) ∨
    ∃ submit, a = .close submit ∧ s.destroyed = false ∧ Closes s submit s'.shared := by
  have hprogress (h : Shared) (b : Bool) (hp : h.pendingClose = s.shared.pendingClose)
      (hf : h.fdOpen = s.shared.fdOpen) :
      ((h.notifyCloseProgress b).fdOpen = s.shared.fdOpen ∧
        (h.notifyCloseProgress b).pendingClose = s.shared.pendingClose) ∨
      (s.shared.pendingClose.isSome = true ∧ (h.notifyCloseProgress b).pendingClose = none ∧
        (h.notifyCloseProgress b).fdOpen = false) := by
    rcases h.notifyCloseProgress_cases b with heq | ⟨k, hk, -, -, heq⟩
    · rw [heq]
      exact .inl ⟨hf, hp⟩
    · rw [heq]
      exact .inr ⟨by rw [← hp, hk]; rfl, rfl, rfl⟩
  have hconclude {d : Dir} {x : Lane} :=
    hprogress s.shared (s.setLane d x).operationsPending rfl rfl
  cases hs with
  | quiet _ hq => exact .inl ⟨hq.fdOpen, hq.pendingClose⟩
  | destroyed _ _ | deadlines _ _ | recorded | answered => exact .inl ⟨rfl, rfl⟩
  | started _ _ _ hstart =>
    cases hstart with
    | refused | suspended => exact .inl ⟨rfl, rfl⟩
    | released | undone => exact hconclude.imp_right .inl
  | fired ht hfire =>
    rename_i d t ans stop y
    cases stop <;> exact .inl ⟨rfl, rfl⟩
  | settled hp hterm he =>
    rename_i d n b sent
    unfold settle
    dsimp only
    rw [setLane_self]
    cases ((s.lanes d).relieved sent).cancelInFlight with
    | true => exact .inl ⟨rfl, rfl⟩
    | false =>
      rw [if_neg (by simp), setLane_conclude]
      exact hconclude.imp_right .inl
  | finished => exact hconclude.imp_right .inl
  | closeAnswered hp hterm =>
    exact (hprogress (s.shared.closeAnswered _ _) _ rfl rfl).imp_right .inl
  | closes hd hc => exact .inr (.inr ⟨_, rfl, hd, hc⟩)
  | resumed hq hr => exact .inl (by cases hr <;> exact ⟨rfl, rfl⟩)

theorem Closes.fdOpen {g : Shared} (hc : Closes s submit g) :
    g.fdOpen = s.shared.fdOpen ∨ g.fdOpen = false := by
  cases hc with
  | refused | suspended => exact .inl rfl
  | now => exact .inr rfl

theorem Steps.admits (h : s.Sound) (hs : Steps s a s')
    (hc : s.shared.pendingClose.isSome = true ∨ s.shared.fdOpen = false) {d : Dir} {n : ℕ}
    (hn : n ∈ (s'.lanes d).primaries) : n ∈ (s.lanes d).primaries := by
  have hclosing : s.shared.lifecycle.resource ≠ .opened := by
    rcases hc with hc | hc
    · obtain ⟨k, hk⟩ := Option.isSome_iff_exists.mp hc
      rw [(h.closing.waiting k hk).2.1]
      simp
    · intro hx
      rw [h.closing.fd.mpr (by rw [hx]; simp)] at hc
      cases hc
  have hl := h.lane d
  cases hs.lane d with
  | same _ heq | returned _ _ _ _ heq => rwa [heq] at hn
  | refused _ _ heq | undone _ _ _ heq | answered _ _ _ heq | finished _ _ _ _ _ heq =>
    rw [heq] at hn; exact hn
  | suspended ha _ _ _ hp heq =>
    -- a call that suspends has found the stream open
    exfalso
    have hp' : (s'.lanes d).pending = some (s.lanes d).started := by rw [heq]; rfl
    have hsame (hx : (s.lanes d).pending = some (s.lanes d).started) : False := by
      rw [hp] at hx
      cases hx
    cases (hs.starts_inv ha).2 with
    | refused => rw [setLane_self] at hp'; exact hsame hp'
    | released | undone => rw [conclude_self] at hp'; exact hsame hp'
    | suspended _ _ _ hv _ _ _ => exact hclosing (validate_open hv)
  | deadline _ heq => rwa [heq, (hl.timed.setDeadline_sameOps _ _ _).primaries] at hn
  | fired _ hmem hfire _ => rwa [(hl.toProtocol.fire_sameOps hmem hfire).primaries] at hn
  | ended _ _ _ _ heq | awaiting _ _ _ _ heq | recorded _ _ _ _ _ _ _ heq =>
    rw [heq] at hn; cases hn

/-- The times that the descriptor has been closed, by a close or by the destructor. -/
def countClosings (s : Stream) (a : Action) (s' : Stream) (n : ℕ) : ℕ :=
  n + (if s.shared.fdOpen = true ∧ s'.shared.fdOpen = false then 1 else 0) +
    if a = .destroy ∧ s.shared.fdOpen = true then 1 else 0

def closing : System (Stream × ℕ) Action := system.withHistory countClosings 0

/-- A close whose cancel request cannot be submitted returns the error and changes nothing, and the
next one, whose request is taken, waits. -/
structure Retries (s s' : Stream) (e : Error) : Prop where
  closeResults : ∃ e', s.shared.submitAnswer (some e) = some e' ∧
    s'.shared.closeResults = s.shared.closeResults ++ [(s.shared.closeCalls, .error e')]
  lanes : s'.lanes = s.lanes
  fdOpen : s'.shared.fdOpen = s.shared.fdOpen
  lifecycle : s'.shared.lifecycle = s.shared.lifecycle
  pendingClose : s'.shared.pendingClose = none
  closeRequests : s'.shared.closeRequests = s.shared.closeRequests
  waits : s.shared.loopState.isStopping = false → ∃ s'', step (.close none) s' = some s'' ∧
    s''.lanes = s.lanes ∧ s''.shared.pendingClose = some s'.shared.closeCalls

/-- What `Close()` of a stream promises. -/
structure CloseBarrier (s : Stream) (closings : ℕ) : Prop where
  closings : closings = if s.shared.fdOpen = true ∧ s.destroyed = false then 0 else 1
  /-- Nothing that uses the descriptor is left when it is closed, in the slots or in the kernel. -/
  drained : s.shared.fdOpen = false → s.shared.closeRequests = [] ∧ ∀ d,
    (s.lanes d).pending = none ∧ (s.lanes d).primaries = [] ∧ (s.lanes d).notifications = [] ∧
    (s.lanes d).cancels = 0
  /-- A call that waits has something in the kernel to wait for. -/
  waits : ∀ k, s.shared.pendingClose = some k → s.shared.closeRequests = [k] ∨ ∃ d,
    (s.lanes d).primaries ≠ [] ∨ (s.lanes d).notifications ≠ [] ∨ (s.lanes d).cancels ≠ 0
  /-- Each call that does not wait has returned, or its work is queued, once. -/
  once : ∀ k, (s.shared.closeResults.map Prod.fst).count k + s.shared.works.count (.close k) =
    if k < s.shared.closeCalls ∧ s.shared.pendingClose ≠ some k then 1 else 0
  /-- A call that has waited, or that reports success, returns after the descriptor was closed. -/
  returned : ∀ k r, (k, r) ∈ s.shared.closeResults →
    r = .ok () ∨ (s.shared.closers k).continuation.isSome = true → s.shared.fdOpen = false
  /-- A call with nothing to wait for closes the descriptor, whatever the kernel answers. -/
  now : s.shared.pendingClose = none → (∃ l, s.shared.lifecycle.prepareClose = .ok (true, l)) →
    s.operationsPending = false → ∀ submit s', step (.close submit) s = some s' →
      s'.shared.fdOpen = false
  /-- After a committed close no request enters the kernel. -/
  admits : s.shared.pendingClose.isSome = true ∨ s.shared.fdOpen = false →
    ∀ a s', step a s = some s' → ∀ d, ∀ n ∈ (s'.lanes d).primaries, n ∈ (s.lanes d).primaries
  retries : s.shared.pendingClose = none →
    (∃ l, s.shared.lifecycle.prepareClose = .ok (true, l)) → s.operationsPending = true →
    ∀ e s', step (.close (some e)) s = some s' → Retries s s' e

structure Closings (s : Stream) (closings : ℕ) : Prop where
  idle : s.destroyed = true → s.shared.pendingClose = none
  count : closings = if s.shared.fdOpen = true ∧ s.destroyed = false then 0 else 1

theorem Closings.step {n : ℕ} (hc : Closings s n) (hs : Steps s a s') :
    Closings s' (countClosings s a s' n) := by
  have hcount := hc.count
  unfold countClosings
  rcases hs.destroyed_eq with heq | rfl
  · -- the destructor runs in no other step
    have hne : ¬(a = .destroy ∧ s.shared.fdOpen = true) := by
      rintro ⟨rfl, -⟩
      obtain ⟨-, hd, rfl⟩ := hs.of_destroy
      rw [hd] at heq
      cases heq
    rw [if_neg hne, Nat.add_zero]
    have hopen (hd : s.destroyed = false) (hfd : s'.shared.fdOpen = false) : Closings s'
        (n + if s.shared.fdOpen = true ∧ s'.shared.fdOpen = false then 1 else 0) := by
      refine ⟨fun hx => absurd (heq.symm.trans hx) (by simp [hd]), ?_⟩
      rw [hcount]
      cases s.shared.fdOpen <;> simp [hd, hfd]
    have hsame (hfd : s'.shared.fdOpen = s.shared.fdOpen)
        (hidle : s.destroyed = true → s'.shared.pendingClose = none) : Closings s'
        (n + if s.shared.fdOpen = true ∧ s'.shared.fdOpen = false then 1 else 0) := by
      refine ⟨fun hx => hidle (heq.symm.trans hx), ?_⟩
      rw [hfd, heq, if_neg (by cases s.shared.fdOpen <;> simp), Nat.add_zero]
      exact hcount
    rcases hs.shared with ⟨h1, h2⟩ | ⟨h1, h2, h3⟩ | ⟨submit, -, hd, hcl⟩
    · exact hsame h1 fun hx => h2.trans (hc.idle hx)
    · refine hopen ?_ h3
      by_contra hx
      rw [hc.idle (by simpa using hx)] at h1
      cases h1
    · have hidle {x : Option ℕ} (hx : s.destroyed = true) : x = none := by
        rw [hd] at hx
        cases hx
      rcases hcl.fdOpen with h1 | h1
      · exact hsame h1 hidle
      · exact hopen hd h1
  · obtain ⟨hfree, hd, rfl⟩ := hs.of_destroy
    simp only [destructible, Bool.and_eq_true, Option.isNone_iff_eq_none] at hfree
    refine ⟨fun _ => hfree.2, ?_⟩
    rw [hcount]
    cases s.shared.fdOpen <;> simp [hd]

theorem closings_of_reaches {p : Stream × ℕ} (h : closing.Reaches p) : Closings p.1 p.2 := by
  refine System.ReachesBy.invariant_withHistory (C := fun _ _ => True) (J := Sound)
    (I := Closings) (fun s hs => sound_of_reaches hs) ?_ ?_ h
  · rintro s ⟨closeResult, zeroCopy, now, rfl⟩
    exact ⟨nofun, rfl⟩
  · intro s a s' n hJ hI _ hstep
    exact hI.step (hJ.steps hstep).2

theorem close_retries (hp : s.shared.pendingClose = none)
    (hprep : ∃ l, s.shared.lifecycle.prepareClose = .ok (true, l))
    (hops : s.operationsPending = true) {e : Error} (hs : step (.close (some e)) s = some s') :
    Retries s s' e := by
  have hab : s.aborted = false := by
    by_contra hx
    rw [step.eq_def, if_pos (by simpa using hx)] at hs
    cases hs
  rw [step.eq_def, if_neg (by simp [hab])] at hs
  dsimp only at hs
  rw [close_submits hp hprep hops] at hs
  have hcall := (Option.ite_none_right_eq_some.mp hs).1
  obtain ⟨-, rfl⟩ := call_eq hs
  have hanswer : ∃ e', s.shared.submitAnswer (some e) = some e' := by
    unfold Shared.submitAnswer
    split_ifs <;> exact ⟨_, rfl⟩
  obtain ⟨e', hanswer⟩ := hanswer
  rw [hanswer]
  refine ⟨⟨e', hanswer, rfl⟩, rfl, rfl, rfl, hp, rfl, fun hrun => ?_⟩
  set t : Stream := { s with shared := s.shared.closeReturned (.error e') } with ht
  have hnone : t.shared.submitAnswer none = none :=
    if_neg (show ¬s.shared.loopState.isStopping = true by simp [hrun])
  have hclose : t.close none = _ := close_submits (s := t) hp hprep hops
  rw [hnone] at hclose
  refine ⟨{ t with shared := t.shared.closeSuspended }, ?_, rfl, rfl⟩
  rw [step.eq_def, if_neg (by rw [ht]; simp [hab])]
  dsimp only
  rw [hclose]
  exact if_pos hcall

theorem close_now (hp : s.shared.pendingClose = none)
    (hprep : ∃ l, s.shared.lifecycle.prepareClose = .ok (true, l))
    (hops : s.operationsPending = false) (hs : step (.close submit) s = some s') :
    s'.shared.fdOpen = false := by
  obtain ⟨l, hl⟩ := hprep
  have hclose : ∃ h : Shared, s.close submit = some { s with shared := h } ∧ h.fdOpen = false := by
    unfold close
    rw [if_neg (by simp [hp]), hl]
    have hidle : (!s.operationsPending) = true := by simp [hops]
    exact ⟨_, (if_pos hidle).trans (returnClose_eq _ _), rfl⟩
  obtain ⟨h, hclose, hfd⟩ := hclose
  rw [step.eq_def] at hs
  obtain ⟨-, hs⟩ := Option.ite_none_left_eq_some.mp hs
  dsimp only at hs
  rw [hclose] at hs
  obtain ⟨-, rfl⟩ := call_eq hs
  exact hfd

theorem Sound.in_kernel (h : s.Sound) (hp : (s.lanes d).pending = some n) :
    (s.lanes d).primaries ≠ [] ∨ (s.lanes d).notifications ≠ [] ∨ (s.lanes d).cancels ≠ 0 := by
  have hl := (h.lane d).toProtocol
  cases (hl.stage n hp).2 with
  | submitted _ g _ _ => exact .inl (by rw [g]; simp)
  | recorded _ _ g _ => exact .inr (.inl (by rw [g]; simp))
  | settled g _ _ _ => exact .inr (.inr (by rw [hl.cancels, hl.waiting g]; simp))

theorem Sound.close_waits (h : s.Sound) {k : ℕ} (hk : s.shared.pendingClose = some k) :
    s.shared.closeRequests = [k] ∨ ∃ d, (s.lanes d).primaries ≠ [] ∨
      (s.lanes d).notifications ≠ [] ∨ (s.lanes d).cancels ≠ 0 := by
  cases ht : (s.shared.closers k).convergence.cancelRequestTerminal with
  | false => exact .inl (by rw [h.closing.request k hk, ht, if_neg (by simp)])
  | true =>
    right
    have hops := h.closing.progress k hk ht
    simp only [operationsPending, Bool.or_eq_true] at hops
    rcases hops with hops | hops
    · obtain ⟨n, hn⟩ := Option.isSome_iff_exists.mp hops
      exact ⟨.read, h.in_kernel hn⟩
    · obtain ⟨n, hn⟩ := Option.isSome_iff_exists.mp hops
      exact ⟨.write, h.in_kernel hn⟩

/-- **The close of a stream is a drain barrier** in every run. -/
theorem closeBarrier_of_reaches {p : Stream × ℕ} (h : closing.Reaches p) :
    CloseBarrier p.1 p.2 := by
  have hreach : system.Reaches p.1 := System.ReachesBy.of_withHistory (C := fun _ _ => True) h
  have hsound := sound_of_reaches hreach
  have hret := returning_of_reaches hreach
  refine ⟨(closings_of_reaches h).count, fun hfd => ?_, fun k => hsound.close_waits, hret.once,
    hret.returned, fun hp hprep hops submit s' hstep => close_now hp hprep hops hstep,
    fun hc a s' hstep d n hn => (hsound.steps hstep).2.admits hsound hc hn,
    fun hp hprep hops e s' hstep => close_retries hp hprep hops hstep⟩
  have hclosed : p.1.shared.lifecycle.resource = .closed := by
    by_contra hx
    rw [hsound.closing.fd.mpr hx] at hfd
    cases hfd
  have hops := hsound.closing.drained hclosed
  simp only [operationsPending, Bool.or_eq_false_iff, Option.isSome_eq_false_iff,
    Option.isNone_iff_eq_none] at hops
  have hpend (d : Dir) : (p.1.lanes d).pending = none := by
    cases d
    · exact hops.1
    · exact hops.2
  refine ⟨?_, fun d => ?_⟩
  · cases hpc : p.1.shared.pendingClose with
    | none => exact (hsound.closing.idle hpc).1
    | some k =>
      rw [(hsound.closing.waiting k hpc).2.1] at hclosed
      cases hclosed
  · have hidle := (hsound.lane d).idle (hpend d)
    exact ⟨hpend d, hidle.primaries, hidle.notifications,
      (hsound.lane d).cancels_eq_zero hidle.cancelInFlight⟩

end Stream

end Alyrn.Uring
