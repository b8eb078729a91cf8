import Alyrn.Uring.AcceptSource.Admission
import Alyrn.Uring.Listening

/-!
# The close of a listener

What a listener says about its close between two entries (`Listener.Closing`), what an entry may do
to it (`Listener.Goes`), and what a call of `Close()` does (`AcceptSource.Closes`).
-/

namespace Alyrn.Uring

open Net Transition

namespace Listener

variable {l l' : Listener}

/-- What holds of a listener's close at any time. -/
structure Closable (l : Listener) : Prop where
  pending : ∀ k c, l.pendingClose = some (k, c) →
    l.closed = true ∧ l.fdOpen = true ∧ c.completed = false
  idle : l.pendingClose = none → (l.closed = true ↔ l.fdOpen = false)
  drained : l.fdOpen = false → l.pendingAccepts = 0
  results : Awaiters l.closes l.closeCalls (l.pendingClose.map Prod.fst)
  answered : ∀ k < l.closeCalls, l.pendingClose.map Prod.fst ≠ some k → k ∈ l.closes.map Prod.fst

/-- The same between two entries: a close that has its answer waits for accepts. -/
structure Closing (l : Listener) : Prop extends l.Closable where
  progress : ∀ k c, l.pendingClose = some (k, c) → c.cancelRequestTerminal = true →
    l.pendingAccepts ≠ 0

section

variable (h : l.Closable)
include h

theorem Closable.pendingClose_eq (hc : l.closed = false ∨ l.fdOpen = false) :
    l.pendingClose = none := by
  cases hp : l.pendingClose with
  | none => rfl
  | some p =>
    obtain ⟨h1, h2, -⟩ := h.pending p.1 p.2 hp
    rcases hc with hc | hc
    · rw [h1] at hc
      cases hc
    · rw [h2] at hc
      cases hc

theorem Closable.fdOpen_of_open (hc : l.closed = false) : l.fdOpen = true := by
  have hiff := h.idle (h.pendingClose_eq (.inl hc))
  cases hfd : l.fdOpen with
  | true => rfl
  | false =>
    rw [hiff.mpr hfd] at hc
    cases hc

theorem Closable.closed_of_fd (hfd : l.fdOpen = false) : l.closed = true :=
  (h.idle (h.pendingClose_eq (.inr hfd))).mpr hfd

theorem Closable.fresh : ∀ p ∈ l.closes, p.1 ≠ l.closeCalls := fun p hp hx =>
  absurd (h.results.past p hp).1 (by omega)

theorem Closable.newResult (r : Except Error Unit) :
    Awaiters (complete l.closes l.closeCalls r) (l.closeCalls + 1)
      (l.pendingClose.map Prod.fst) ∧
    ∀ k < l.closeCalls + 1, l.pendingClose.map Prod.fst ≠ some k →
      k ∈ (complete l.closes l.closeCalls r).map Prod.fst := by
  have hpend : l.pendingClose.map Prod.fst ≠ some l.closeCalls := fun hx =>
    absurd (h.results.parked _ hx) (Nat.lt_irrefl _)
  obtain ⟨heq, haw⟩ := h.results.call.answer (Nat.lt_succ_self _) h.fresh hpend r
  rw [heq]
  refine ⟨haw, fun k hk hne => ?_⟩
  rw [List.map_append, List.mem_append]
  by_cases hx : k = l.closeCalls
  · exact .inr (by simp [hx])
  · exact .inl (h.answered k (by omega) hne)

theorem Closable.congr (h1 : l'.fdOpen = l.fdOpen) (h2 : l'.closed = l.closed)
    (h3 : l'.pendingClose = l.pendingClose) (h4 : l'.closeCalls = l.closeCalls)
    (h5 : l'.closes = l.closes) (h6 : l.fdOpen = false → l'.pendingAccepts = 0) : l'.Closable where
  pending := by rw [h1, h2, h3]; exact h.pending
  idle := by rw [h1, h2, h3]; exact h.idle
  drained := by rw [h1]; exact h6
  results := by rw [h3, h4, h5]; exact h.results
  answered := by rw [h3, h4, h5]; exact h.answered

end

/-- What an entry may do to a close that waits. -/
inductive Goes (l l' : Listener) : Prop where
  | stays : l'.fdOpen = l.fdOpen → l'.closed = l.closed → l'.pendingClose = l.pendingClose →
      l'.closeCalls = l.closeCalls → l'.closes = l.closes → Goes l l'
  | finished (k : ℕ) (c : FdCloseConvergence) (r : Except Error Unit) :
      l.pendingClose = some (k, c) → c.cancelRequestTerminal = true → l'.fdOpen = false →
      l'.closed = l.closed → l'.pendingClose = none → l'.closeCalls = l.closeCalls →
      l'.closes = l.closes ++ [(k, r)] → Goes l l'

theorem Goes.closed_eq (h : Goes l l') : l'.closed = l.closed := by
  cases h with
  | stays _ h | finished _ _ _ _ _ _ h => exact h

theorem Closable.notifyCloseProgress (h : l.Closable) :
    l.notifyCloseProgress.Closing ∧ Goes l l.notifyCloseProgress := by
  unfold Listener.notifyCloseProgress
  cases hp : l.pendingClose with
  | none => exact ⟨⟨h, fun k c hk => by rw [hp] at hk; cases hk⟩, .stays rfl rfl rfl rfl rfl⟩
  | some p =>
    obtain ⟨k, c⟩ := p
    obtain ⟨hcl, hfd, hcomp⟩ := h.pending k c hp
    dsimp only
    unfold FdCloseConvergence.tryAuthorizeClose
    by_cases hg : c.cancelRequestTerminal = true ∧ l.pendingAccepts = 0
    · rw [if_neg (by simp [hcomp, hg.1, hg.2])]
      have hres := h.results
      rw [hp] at hres
      obtain ⟨heq, haw⟩ := hres.complete l.closeResult
      have hclose : { l with pendingClose := none }.closeFd =
          (l.closeResult, { l with pendingClose := none, fdOpen := false }) := if_pos hfd
      rw [hclose]
      unfold completeClose
      rw [heq]
      refine ⟨⟨⟨fun j d hj => (by cases hj), fun _ => ?_, fun _ => hg.2, haw, fun j hj hne => ?_⟩,
        fun j d hj => (by cases hj)⟩, .finished k c l.closeResult hp hg.1 rfl rfl rfl rfl rfl⟩
      · exact ⟨fun _ => rfl, fun _ => hcl⟩
      · rw [List.map_append, List.mem_append]
        by_cases hjk : j = k
        · exact .inr (by simp [hjk])
        · refine .inl (h.answered j hj ?_)
          rw [hp]
          exact fun hx => hjk (Option.some.inj hx).symm
    · rw [if_pos]
      · refine ⟨⟨h, fun j d hj ht hz => ?_⟩, .stays rfl rfl rfl rfl rfl⟩
        cases hp.symm.trans hj
        exact hg ⟨ht, hz⟩
      · by_cases ht : c.cancelRequestTerminal = true
        · exact .inr (.inr (by simpa using fun hz => hg ⟨ht, hz⟩))
        · exact .inr (.inl (by simpa using ht))

theorem Closable.releaseAccept (h : l.Closable) :
    l.releaseAccept.Closing ∧ Goes l l.releaseAccept := by
  have hc : Closable { l with pendingAccepts := l.pendingAccepts - 1 } :=
    h.congr rfl rfl rfl rfl rfl fun hfd => by simp [h.drained hfd]
  obtain ⟨h1, h2⟩ := hc.notifyCloseProgress
  refine ⟨h1, ?_⟩
  cases h2 with
  | stays g1 g2 g3 g4 g5 => exact .stays g1 g2 g3 g4 g5
  | finished k c r g1 g2 g3 g4 g5 g6 g7 => exact .finished k c r g1 g2 g3 g4 g5 g6 g7

end Listener

namespace AcceptSource

variable {s s' : AcceptSource}

theorem Admits.closable (h : Admits s s') (hc : s.listener.Closable) : s'.listener.Closable := by
  refine hc.congr h.fdOpen h.closed h.pendingClose h.closeCalls h.closes fun hfd => ?_
  have hcl := hc.closed_of_fd hfd
  have hz := hc.drained hfd
  have hcount := h.count
  cases hs : s.ctl.submitted with
  | true =>
    rw [hs, h.kept hs, hz] at hcount
    simpa using hcount
  | false =>
    cases hs' : s'.ctl.submitted with
    | true =>
      rcases h.new hs' with hx | hx
      · rw [hs] at hx
        cases hx
      · rw [hcl] at hx
        cases hx
    | false =>
      rw [hs, hs', hz] at hcount
      simpa using hcount

theorem Admits.pendingAccepts_le (h : Admits s s') :
    s.listener.pendingAccepts ≤ s'.listener.pendingAccepts := by
  have hcount := h.count
  cases hs : s.ctl.submitted with
  | true =>
    rw [hs, h.kept hs] at hcount
    omega
  | false =>
    rw [hs, Bool.toNat_false] at hcount
    omega

theorem Admits.closing (h : Admits s s') (hc : s.listener.Closing) : s'.listener.Closing := by
  refine ⟨h.closable hc.toClosable, fun k c hk ht => ?_⟩
  have := hc.progress k c (h.pendingClose.symm.trans hk) ht
  have := h.pendingAccepts_le
  omega

theorem Admits.goes (h : Admits s s') : Listener.Goes s.listener s'.listener :=
  .stays h.fdOpen h.closed h.pendingClose h.closeCalls h.closes

theorem Enters.goes {n : ℕ} (he : Enters s s') (hc : s.listener.Closing)
    (hn : s.listener.pendingAccepts = n + s.ctl.submitted.toNat) :
    s'.listener.Closing ∧ Listener.Goes s.listener s'.listener ∧
    s'.listener.pendingAccepts = n + s'.ctl.submitted.toNat ∧
    (s.listener.closed = true → s'.ctl.submitted = true → s.ctl.submitted = true) := by
  cases he with
  | admits h =>
    refine ⟨h.closing hc, h.goes, ?_, fun hcl hs => ?_⟩
    · have := h.count
      omega
    · refine (h.new hs).resolve_right fun hx => ?_
      rw [hcl] at hx
      cases hx
  | ended t hsub hpos h1 h2 =>
    have hended : s.requestEnded.listener.Closable :=
      hc.toClosable.congr rfl rfl rfl rfl rfl fun hfd => by
        show s.listener.pendingAccepts - 1 = 0
        rw [hc.drained hfd]
    obtain ⟨hu, hgo⟩ := (h1.closable hended).notifyCloseProgress
    refine ⟨h2.closing hu, ?_, ?_, fun _ _ => hsub⟩
    · have g1 : t.listener.fdOpen = s.listener.fdOpen := h1.fdOpen
      have g2 : t.listener.closed = s.listener.closed := h1.closed
      have g3 : t.listener.pendingClose = s.listener.pendingClose := h1.pendingClose
      have g4 : t.listener.closeCalls = s.listener.closeCalls := h1.closeCalls
      have g5 : t.listener.closes = s.listener.closes := h1.closes
      cases hgo with
      | stays e1 e2 e3 e4 e5 =>
        exact .stays (h2.fdOpen.trans (e1.trans g1)) (h2.closed.trans (e2.trans g2))
          (h2.pendingClose.trans (e3.trans g3)) (h2.closeCalls.trans (e4.trans g4))
          (h2.closes.trans (e5.trans g5))
      | finished k c r e1 e2 e3 e4 e5 e6 e7 =>
        exact .finished k c r (g3.symm.trans e1) e2 (h2.fdOpen.trans e3)
          (h2.closed.trans (e4.trans g2)) (h2.pendingClose.trans e5)
          (h2.closeCalls.trans (e6.trans g4)) (h2.closes.trans (by rw [e7, g5]))
    · have c1 : t.listener.pendingAccepts + 0 =
        s.listener.pendingAccepts - 1 + t.ctl.submitted.toNat := h1.count
      have c2 := h2.count
      have c3 : t.listener.notifyCloseProgress.pendingAccepts = t.listener.pendingAccepts :=
        Listener.notifyCloseProgress_frame.2.1
      dsimp only at c2
      rw [hsub, Bool.toNat_true] at hn
      omega

/-! ## Calls of `Close()` -/

/-- How a call of `Close()` goes. -/
inductive Closes (s s' : AcceptSource) : Prop where
  | returned (answers : List (Option Error)) (r : Except Error Unit) :
      s.listener.pendingClose ≠ none ∨ s.listener.closed = true ∨ s.listener.pendingAccepts ≠ 0 →
      (r = .ok () → s.listener.fdOpen = false) → s' = { s.withAnswers answers with
        listener := Listener.completeClose { s.listener with
          closeCalls := s.listener.closeCalls + 1 } s.listener.closeCalls r } → Closes s s'
  | now (t : AcceptSource) (r : Except Error Unit) :
      s.listener.closed = false → s.listener.pendingAccepts = 0 →
      Admits { s with listener := { s.listener with
        closed := true, closeCalls := s.listener.closeCalls + 1 } } t →
      s' = { t with
        listener := Listener.completeClose { t.listener with fdOpen := false }
          s.listener.closeCalls r } → Closes s s'
  | suspended (answers : List (Option Error)) :
      s.listener.closed = false → s.listener.pendingAccepts ≠ 0 →
      Admits { s.withAnswers answers with listener := { s.listener with
        closed := true, closeCalls := s.listener.closeCalls + 1,
        pendingClose := some (s.listener.closeCalls, {}) } } s' → Closes s s'

theorem admits_commitClose :
    Admits { s with listener := { s.listener with closed := true } } s.commitClose := by
  unfold commitClose
  dsimp only
  split_ifs
  · exact admits_onListenerClosed
  · exact .refl _

theorem closes_closeListener (h : s.listener.Closable) : Closes s s.closeListener := by
  unfold closeListener
  dsimp only
  split_ifs with hbusy hclosed hidle
  · refine .returned s.ctl.answers (.error EBUSY) (.inl fun hnone => ?_) nofun rfl
    rw [hnone] at hbusy
    cases hbusy
  · have hc : s.listener.closed = true := (of_decide_eq_true hclosed).elim id h.closed_of_fd
    exact .returned s.ctl.answers (.ok ()) (.inr (.inl hc))
      (fun _ => (h.idle (by simpa using hbusy)).1 hc) rfl
  all_goals
    have hopen : s.listener.closed = false := by
      by_contra hx
      exact hclosed (decide_eq_true (.inl (by simpa using hx)))
  · set u : AcceptSource := { s with listener := { s.listener with
      closeCalls := s.listener.closeCalls + 1 } } with hu
    have ha := admits_commitClose (s := u)
    have hfd : u.commitClose.listener.fdOpen = true := ha.fdOpen.trans (h.fdOpen_of_open hopen)
    have hclose : u.commitClose.listener.closeFd = (u.commitClose.listener.closeResult,
      { u.commitClose.listener with fdOpen := false }) := if_pos hfd
    rw [hclose]
    exact .now _ _ hopen hidle ha rfl
  · obtain ⟨answers, hans⟩ := submitOp_eq s.ctl
    rcases hsub : s.ctl.submitOp with ⟨_ | e, ctl⟩
    · rw [hsub] at hans
      obtain rfl : ctl = { s.ctl with answers } := hans
      exact .suspended answers hopen hidle (admits_commitClose (s := { s.withAnswers answers with
        listener := { s.listener with
          closeCalls := s.listener.closeCalls + 1
          pendingClose := some (s.listener.closeCalls, {}) } }))
    · rw [hsub] at hans
      obtain rfl : ctl = { s.ctl with answers } := hans
      exact .returned answers (.error e) (.inr (.inr hidle)) nofun rfl

theorem Closes.closing {n : ℕ} (h : Closes s s') (hc : s.listener.Closing)
    (hn : s.listener.pendingAccepts = n + s.ctl.submitted.toNat) :
    s'.listener.Closing ∧ s'.listener.closeCalls = s.listener.closeCalls + 1 ∧
    (s.listener.fdOpen = false → s'.listener.fdOpen = false) ∧
    (s.listener.closed = true → s'.listener.closed = true) ∧
    s'.listener.pendingAccepts = n + s'.ctl.submitted.toNat ∧
    (s'.ctl.submitted = true → s.ctl.submitted = true) := by
  have hres (r : Except Error Unit) := (hc.newResult r).1
  have hans (r : Except Error Unit) := (hc.newResult r).2
  cases h with
  | returned answers r _ _ heq =>
    subst heq
    exact ⟨⟨⟨hc.pending, hc.idle, hc.drained, hres r, hans r⟩, hc.progress⟩, rfl, id, id, hn, id⟩
  | now t r hopen hz ha heq =>
    subst heq
    have hp := hc.pendingClose_eq (.inl hopen)
    have hsub (hx : t.ctl.submitted = true) : s.ctl.submitted = true :=
      (ha.new hx).resolve_right (by simp)
    have heq : t.ctl.submitted = s.ctl.submitted := by
      cases hx : s.ctl.submitted with
      | true => exact ha.kept hx
      | false =>
        cases hy : t.ctl.submitted with
        | false => rfl
        | true =>
          rw [hsub hy] at hx
          cases hx
    have hcount : t.listener.pendingAccepts = s.listener.pendingAccepts := by
      have := ha.count
      dsimp only at this
      rw [heq] at this
      omega
    have hcloses : t.listener.closes = s.listener.closes := ha.closes
    have hcalls : t.listener.closeCalls = s.listener.closeCalls + 1 := ha.closeCalls
    have hpc : t.listener.pendingClose = s.listener.pendingClose := ha.pendingClose
    refine ⟨⟨⟨fun k c hk => ?_, fun _ => ⟨fun _ => rfl, fun _ => ha.closed⟩,
      fun _ => hcount.trans hz, ?_, ?_⟩, fun k c hk => ?_⟩, hcalls, fun _ => rfl,
      fun _ => ha.closed, ?_, hsub⟩
    · cases (hpc.trans hp).symm.trans hk
    · show Awaiters (complete t.listener.closes s.listener.closeCalls r) t.listener.closeCalls
        (t.listener.pendingClose.map Prod.fst)
      rw [hcloses, hcalls, hpc]
      exact hres r
    · show ∀ k < t.listener.closeCalls, t.listener.pendingClose.map Prod.fst ≠ some k →
        k ∈ (complete t.listener.closes s.listener.closeCalls r).map Prod.fst
      rw [hcloses, hcalls, hpc]
      exact hans r
    · cases (hpc.trans hp).symm.trans hk
    · show t.listener.pendingAccepts = n + t.ctl.submitted.toNat
      rw [hcount, heq]
      exact hn
  | suspended answers hopen hz ha =>
    have hp := hc.pendingClose_eq (.inl hopen)
    have hfd := hc.fdOpen_of_open hopen
    have hres' := hc.results
    rw [hp] at hres'
    have hpc : s'.listener.pendingClose = some (s.listener.closeCalls, {}) := ha.pendingClose
    refine ⟨⟨⟨fun k c hk => ?_, fun hx => ?_, fun hx => ?_, ?_, fun k hk hne => ?_⟩,
      fun k c hk ht => ?_⟩, ha.closeCalls, fun hx => ?_, fun _ => ha.closed, ?_,
      fun hx => (ha.new hx).resolve_right (by simp)⟩
    · cases hpc.symm.trans hk
      exact ⟨ha.closed, ha.fdOpen.trans hfd, rfl⟩
    · rw [hpc] at hx
      cases hx
    · rw [ha.fdOpen.trans hfd] at hx
      cases hx
    · rw [hpc, ha.closes, ha.closeCalls]
      exact hres'.call.park (Nat.lt_succ_self _) hc.fresh
    · rw [hpc] at hne
      rw [ha.closeCalls] at hk
      rw [ha.closes]
      refine hc.answered k ?_ (by rw [hp]; simp)
      have : k ≠ s.listener.closeCalls := fun hx => hne (by rw [hx]; rfl)
      have hk : k < s.listener.closeCalls + 1 := hk
      omega
    · cases hpc.symm.trans hk
      cases ht
    · rw [hfd] at hx
      cases hx
    · have := ha.count
      dsimp only [withAnswers] at this
      omega

end AcceptSource

end Alyrn.Uring
