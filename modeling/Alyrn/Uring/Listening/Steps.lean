import Alyrn.Uring.Listening.Calls

/-!
# Runs of a listener

The invariant of a listener on its loop (`Listening.Sound`) and what one step does
(`Listening.Stepped`).
-/

namespace Alyrn.Uring

open Net Transition

variable {l : Listener}

theorem Listener.Closable.ok (h : l.Closable) : l.Ok := fun hc =>
  ⟨h.fdOpen_of_open hc, h.pendingClose_eq (.inl hc)⟩

def Listener.owed (l : Listener) : List ℕ :=
  match l.pendingClose with
  | some (k, c) => if c.cancelRequestTerminal then [] else [k]
  | none => []

theorem Listener.Goes.owed_eq {l l' : Listener} (h : Goes l l') : l'.owed = l.owed := by
  unfold owed
  cases h with
  | stays _ _ h3 => rw [h3]
  | finished k c r h1 h2 _ _ h5 =>
    rw [h1, h5]
    dsimp only
    rw [if_pos h2]

namespace AcceptSource

variable {s : AcceptSource}

theorem Between.withListener (h : Between s) (hok : l.Ok)
    (hc : l.closed = s.listener.closed) (ha : s.ctl.submitted.toNat ≤ l.pendingAccepts)
    (hs : l.acceptSource = s.listener.acceptSource) : Between { s with listener := l } :=
  have hr : Resumed s { s with listener := l } :=
    .aside h.inv (h.inv.withListener hok hc ha fun h' => hs.trans h')
  hr.between h

theorem Between.abort (h : Between s) : Between s.abort :=
  { h with
    inv := { h.inv with } }

theorem Between.stopLoop (h : Between s) : Between { s with loopStopping := true } :=
  { h with
    inv := { h.inv with } }

theorem between_vacant (hok : l.Ok) (loopStopping : Bool) : Between (vacant l loopStopping) :=
  between_make (show AcceptSourceStateMachine.create {} = .ok _ from rfl) hok loopStopping

theorem create_frame {loopStopping : Bool} {options : AcceptSourceOptions}
    (h : create l loopStopping options = .ok s) :
    s.listener = l ∧ s.ctl.submitted = false ∧ l.pendingAccepts = 0 ∧ l.closed = false := by
  unfold create at h
  split_ifs at h with h1 h2 h3
  cases hm : AcceptSourceStateMachine.create options with
  | error e => rw [hm] at h; cases h
  | ok m =>
    rw [hm] at h
    obtain rfl := Except.ok.inj h
    simp only [not_or, Bool.not_eq_true, ne_eq, Decidable.not_not] at h2 h3
    exact ⟨rfl, rfl, h3.1, h2.1⟩

end AcceptSource

namespace Listening

variable {s s' : Listening} {n k : ℕ} {a : Action}

/-- The invariant of a run. -/
structure Sound (s : Listening) : Prop where
  between : s.source.Between
  count : s.listener.pendingAccepts = s.accepts.length + s.source.ctl.submitted.toNat
  closing : s.listener.Closing
  request : s.closeRequests = s.listener.owed
  accepting : s.Accepting
  returning : s.Returning
  gone : s.destroyed = true → s.listener.pendingAccepts = 0 ∧ s.listener.pendingClose = none

/-! ## Steps -/

structure Stepped (s s' : Listening) : Prop where
  sound : s'.Sound
  fdOpen : s'.listener.fdOpen = s.listener.fdOpen ∨
    s.destroyed = false ∧ s'.destroyed = false ∧ s'.listener.fdOpen = false
  kept : s.destroyed = true → s'.destroyed = true
  admits : s.listener.closed = true → s'.listener.closed = true ∧
    (∀ n ∈ s'.accepts, n ∈ s.accepts) ∧
    (s'.source.ctl.submitted = true → s.source.ctl.submitted = true) ∧
    (s'.live = true → s.live = true)

theorem Sound.abort (h : s.Sound) : s.abort.Sound :=
  ⟨h.between.abort, h.count, h.closing, h.request, { h.accepting with }, { h.returning with },
    h.gone⟩

theorem Sound.stepped_abort (h : s.Sound) : Stepped s s.abort :=
  ⟨h.abort, .inl rfl, id, fun hc => ⟨hc, fun _ hn => hn, id, id⟩⟩

theorem Sound.accept (h : s.Sound) (hd : s.destroyed = false) (submit : Option Error) :
    Stepped s ((s.accept submit).getD s.abort) := by
  rcases accept_cases h.closing.toClosable submit with ⟨r, heq⟩ | ⟨hopen, heq⟩
  · rw [heq]
    exact ⟨{ h with
      accepting := h.accepting.acceptReturned r
      returning := { h.returning with } }, .inl rfl, id, fun hc => ⟨hc, fun _ hn => hn, id, id⟩⟩
  · rw [heq]
    have hclosable : Listener.Closable { s.listener with
        pendingAccepts := s.listener.pendingAccepts + 1 } := by
      refine h.closing.toClosable.congr rfl rfl rfl rfl rfl fun hfd => ?_
      rw [h.closing.fdOpen_of_open hopen] at hfd
      cases hfd
    refine ⟨⟨h.between.withListener hclosable.ok rfl (Nat.le_succ_of_le h.between.inv.reserved) rfl,
      ?_, ⟨hclosable, fun _ _ _ _ => Nat.succ_ne_zero _⟩, h.request, h.accepting.acceptSuspended,
      { h.returning with }, fun hx => ?_⟩, .inl rfl, id, fun hc => ?_⟩
    · show s.listener.pendingAccepts + 1 = (s.accepts ++ [s.acceptCalls]).length + _
      rw [h.count, List.length_append]
      simp only [List.length_singleton]
      show _ = s.accepts.length + 1 + s.source.ctl.submitted.toNat
      omega
    · have hx : s.destroyed = true := hx
      rw [hd] at hx
      cases hx
    · rw [hopen] at hc
      cases hc

theorem sound_entered {t : Listening} {source : AcceptSource} (hb : source.Between)
    (hc : source.listener.Closing)
    (hg : Listener.Goes t.listener source.listener) (ht : t.listener.Closable)
    (hn : source.listener.pendingAccepts = t.accepts.length + source.ctl.submitted.toNat)
    (hreq : t.closeRequests = t.listener.owed) (ha : t.Accepting) (hr : t.Returning)
    (hd : t.destroyed = false) : (t.entered false source).Sound := by
  obtain ⟨closers, works, heq, -⟩ := entered_eq (s := t) false source
  have hsource : (t.entered false source).source = source := by rw [heq]
  refine ⟨by rw [hsource]; exact hb, ?_, by rw [Listening.listener, hsource]; exact hc, ?_,
    ha.entered _ _, hr.entered ht hg, fun hx => ?_⟩
  · rw [Listening.listener, hsource, heq]
    exact hn
  · rw [Listening.listener, hsource, heq]
    exact hreq.trans hg.owed_eq.symm
  · rw [heq] at hx
    rw [show t.destroyed = true from hx] at hd
    cases hd

section

variable (h : s.Sound)
include h

theorem Sound.not_destroyed (hx : s.listener.pendingAccepts ≠ 0 ∨ s.listener.pendingClose ≠ none) :
    s.destroyed = false := by
  cases hd : s.destroyed with
  | false => rfl
  | true =>
    obtain ⟨h1, h2⟩ := h.gone hd
    exact (hx.elim (fun hx => hx h1) fun hx => hx h2).elim

theorem Sound.acceptCqe (hn : n ∈ s.accepts) (result : ℤ) (configured : Option Error) : Stepped s
      (({ s with accepts := s.accepts.erase n }.handleAcceptCqe n result configured).getD
        s.abort) := by
  have hlen : 0 < s.accepts.length := List.length_pos_of_mem hn
  have hcount := h.count
  have hpos : s.listener.pendingAccepts ≠ 0 := by omega
  have hd := h.not_destroyed (.inl hpos)
  obtain ⟨r, heq⟩ := handleAcceptCqe_eq h.accepting hn hpos result configured
  rw [heq]
  have hacc := h.accepting.acceptAnswered hn result r
  obtain ⟨hclosing, hgoes⟩ := h.closing.toClosable.releaseAccept
  obtain ⟨f1, f2, f3⟩ := Listener.notifyCloseProgress_frame (l := { s.listener with
    pendingAccepts := s.listener.pendingAccepts - 1 })
  have hpend : s.listener.releaseAccept.pendingAccepts = s.listener.pendingAccepts - 1 := f2
  have hret : ({ s with accepts := s.accepts.erase n }.entered false
      { s.source with listener := s.listener.releaseAccept }).Returning :=
    Returning.entered (s := { s with accepts := s.accepts.erase n }) { h.returning with }
      h.closing.toClosable hgoes
  unfold acceptAnswered at hacc ⊢
  obtain ⟨closers, works, hent, -⟩ := entered_eq (s := { s with accepts := s.accepts.erase n })
    false { s.source with listener := s.listener.releaseAccept }
  rw [hent] at hret hacc ⊢
  obtain ⟨works', hsched, hworks⟩ := scheduleCompletion_eq (s := setAccepter { s with
    accepts := s.accepts.erase n, source := { s.source with listener := s.listener.releaseAccept },
    closers, works } n
    { op := answeredOp n result .continuationAuthorized, result := some r }) (.accept n)
  rw [hsched] at hacc ⊢
  refine ⟨⟨h.between.withListener hclosing.ok f1 ?_ f3, ?_, hclosing, ?_, hacc,
    hret.congr rfl (fun k => ?_) rfl rfl rfl rfl, fun hx => ?_⟩, ?_, fun hx => ?_, fun hc => ?_⟩
  · rw [hpend]
    omega
  · show s.listener.releaseAccept.pendingAccepts = (s.accepts.erase n).length + _
    rw [hpend, List.length_erase_of_mem hn]
    show _ = s.accepts.length - 1 + s.source.ctl.submitted.toNat
    omega
  · exact h.request.trans hgoes.owed_eq.symm
  · show works'.count (.close k) = works.count (.close k)
    rw [hworks, if_neg (by simp), Nat.add_zero]
    rfl
  · rw [hd] at hx
    cases hx
  · cases hgoes with
    | stays h1 => exact .inl h1
    | finished _ _ _ _ _ h3 => exact .inr ⟨hd, hd, h3⟩
  · exact hx
  · exact ⟨f1.trans hc, fun m hm => List.mem_of_mem_erase hm, id, id⟩

theorem Sound.close (hd : s.destroyed = false) (submit : Option Error) :
    Stepped s ((s.close submit).getD s.abort) := by
  have hb := (h.between.withAnswers [submit]).closeListener.1.between
  obtain ⟨h1, h2, h3, h4, h5, h6⟩ := (AcceptSource.closes_closeListener
    (s := s.source.withAnswers [submit]) h.closing.toClosable).closing h.closing h.count
  set source := (s.source.withAnswers [submit]).closeListener with hsource
  have hfd : source.listener.fdOpen = s.listener.fdOpen ∨
      s.destroyed = false ∧ s.destroyed = false ∧ source.listener.fdOpen = false := by
    cases hx : source.listener.fdOpen with
    | false => exact .inr ⟨hd, hd, rfl⟩
    | true =>
      cases hy : s.listener.fdOpen with
      | true => exact .inl rfl
      | false =>
        rw [h3 hy] at hx
        cases hx
  have hgone (hx : s.destroyed = true) :
      source.listener.pendingAccepts = 0 ∧ source.listener.pendingClose = none := by
    rw [hd] at hx
    cases hx
  rcases close_cases h.closing.toClosable submit with ⟨r, heq, g1, -, g3, g4⟩ | ⟨heq, hopen, -, g2⟩
  · rw [heq]
    refine ⟨⟨hb, h5, h1, ?_, { h.accepting with },
      h.returning.closeReturned h.closing.toClosable g1 g3 h3 fun hr => g4 (.inl hr), hgone⟩, hfd,
      id, fun hc => ⟨h4 hc, fun _ hn => hn, h6, id⟩⟩
    show s.closeRequests = source.listener.owed
    rw [h.request]
    unfold Listener.owed
    rw [g3]
  · rw [heq]
    have hp := h.closing.pendingClose_eq (.inl hopen)
    refine ⟨⟨hb, h5, h1, ?_, { h.accepting with }, h.returning.closeSuspended hp h2 g2 h3, hgone⟩,
      hfd, id, fun hc => ⟨h4 hc, fun _ hn => hn, h6, id⟩⟩
    show s.closeRequests ++ [s.listener.closeCalls] = source.listener.owed
    rw [h.request]
    unfold Listener.owed
    rw [g2, hp]
    rfl

theorem Sound.closeCqe (hk : k ∈ s.closeRequests) (result : ℤ) : Stepped s
    (({ s with closeRequests := s.closeRequests.erase k }.handleCloseCqe k result).getD
      s.abort) := by
  -- the kernel owes an answer to the close that waits
  obtain ⟨c, hp, ht, hreq⟩ : ∃ c, s.listener.pendingClose = some (k, c) ∧
      c.cancelRequestTerminal = false ∧ s.closeRequests = [k] := by
    have hreq := h.request
    unfold Listener.owed at hreq
    cases hp : s.listener.pendingClose with
    | none =>
      rw [hp] at hreq
      rw [hreq] at hk
      cases hk
    | some p =>
      obtain ⟨j, c⟩ := p
      rw [hp] at hreq
      dsimp only at hreq
      cases ht : c.cancelRequestTerminal with
      | true =>
        rw [ht, if_pos rfl] at hreq
        rw [hreq] at hk
        cases hk
      | false =>
        rw [ht, if_neg (by simp)] at hreq
        rw [hreq] at hk
        cases List.mem_singleton.mp hk
        exact ⟨c, rfl, ht, hreq⟩
  have hd := h.not_destroyed (.inr (by rw [hp]; simp))
  have hc := h.closing.toClosable
  obtain ⟨p1, p2, p3⟩ := hc.pending k c hp
  set l : Listener := { s.listener with
    pendingClose := some (k, { c with cancelRequestTerminal := true }) } with hl
  have hclosable : l.Closable := by
    refine ⟨fun j d hj => ?_, nofun, hc.drained, ?_, ?_⟩
    · cases hj
      exact ⟨p1, p2, p3⟩
    · have := hc.results
      rw [hp] at this
      exact this
    · have := hc.answered
      rw [hp] at this
      exact this
  have hnotify : s.listener.onCloseCancelComplete = l.notifyCloseProgress := by
    unfold Listener.onCloseCancelComplete
    rw [hp]
    rfl
  obtain ⟨hclosing, hgoes⟩ := hclosable.notifyCloseProgress
  obtain ⟨f1, f2, f3⟩ := Listener.notifyCloseProgress_frame (l := l)
  rw [handleCloseCqe_eq h.returning hp ht result, hnotify, Option.getD_some]
  have hbetween : AcceptSource.Between { s.source with listener := l.notifyCloseProgress } :=
    h.between.withListener hclosing.ok f1 (by rw [f2]; exact h.between.inv.reserved) f3
  have hsound := sound_entered (t := s.closeAnswered k c result) hbetween hclosing hgoes hclosable
    (by rw [f2]; exact h.count) (by
      show s.closeRequests.erase k = _
      rw [hreq, List.erase_cons_head]
      rfl)
    { h.accepting with } (h.returning.closeAnswered hp result) hd
  obtain ⟨closers, works, heq, -⟩ := entered_eq (s := s.closeAnswered k c result) false
    { s.source with listener := l.notifyCloseProgress }
  rw [heq] at hsound ⊢
  refine ⟨hsound, ?_, id, fun hcl => ⟨f1.trans hcl, fun _ hn => hn, id, id⟩⟩
  cases hgoes with
  | stays h1 => exact .inl h1
  | finished _ _ _ _ _ h3 => exact .inr ⟨hd, hd, h3⟩

theorem Sound.source (hd : s.destroyed = false) {a : AcceptSource.Action}
    (ha : a.ofSource = true) {source : AcceptSource}
    (hstep : AcceptSource.step a s.source = some source) : Stepped s (s.entered false source) := by
  obtain ⟨hclosing, hgoes, hcount, hnew⟩ :=
    (h.between.enters ha hstep).goes h.closing h.count
  have hsound := sound_entered (t := s) (h.between.step hstep).between hclosing hgoes
    h.closing.toClosable hcount h.request h.accepting h.returning hd
  obtain ⟨closers, works, heq, -⟩ := entered_eq (s := s) false source
  rw [heq] at hsound ⊢
  refine ⟨hsound, ?_, id, fun hc => ⟨hgoes.closed_eq.trans hc, fun _ hn => hn, hnew hc, id⟩⟩
  cases hgoes with
  | stays h1 => exact .inl h1
  | finished _ _ _ _ _ h3 => exact .inr ⟨hd, hd, h3⟩

theorem Sound.createSource (options : AcceptSourceOptions) :
    Stepped s (s.createSource options) := by
  unfold Listening.createSource
  cases hcr : AcceptSource.create s.listener s.source.loopStopping options with
  | error e => exact ⟨h, .inl rfl, id, fun hc => ⟨hc, fun _ hn => hn, id, id⟩⟩
  | ok source =>
    obtain ⟨hl, hsub, hzero, hopen⟩ := AcceptSource.create_frame hcr
    have hcount := h.count
    refine ⟨⟨(AcceptSource.create_ok hcr).1, ?_, ?_, ?_, { h.accepting with },
      h.returning.congr rfl (fun _ => rfl) rfl ?_ ?_ ?_, fun hx => ?_⟩, .inl ?_, id, fun hc => ?_⟩
    · show source.listener.pendingAccepts = s.accepts.length + source.ctl.submitted.toNat
      rw [hl, hsub, Bool.toNat_false]
      omega
    · show source.listener.Closing
      rw [hl]
      exact h.closing
    · show s.closeRequests = source.listener.owed
      rw [hl]
      exact h.request
    · exact congrArg Listener.closeCalls hl
    · exact congrArg Listener.pendingClose hl
    · exact congrArg Listener.fdOpen hl
    · show source.listener.pendingAccepts = 0 ∧ source.listener.pendingClose = none
      rw [hl]
      exact h.gone hx
    · exact congrArg Listener.fdOpen hl
    · rw [hopen] at hc
      cases hc

theorem Sound.destroySource : Stepped s (s.destroySource.getD s.abort) := by
  unfold Listening.destroySource
  dsimp only
  split_ifs with hx hthis
  · exact h.stepped_abort
  all_goals
    have hsub : s.source.ctl.submitted = false := by
      by_contra hy
      exact hx (.inr (.inr (.inl (by simpa using hy))))
    have hcount : s.listener.pendingAccepts = s.accepts.length + 0 := by
      have := h.count
      rwa [hsub] at this
    have hok := h.closing.toClosable.ok
  · exact ⟨⟨AcceptSource.between_vacant (l := { s.listener with acceptSource := none }) hok _,
      hcount, ⟨{ h.closing with }, h.closing.progress⟩, h.request, { h.accepting with },
      { h.returning with }, h.gone⟩, .inl rfl, id, fun hc => ⟨hc, fun _ hn => hn, nofun, nofun⟩⟩
  · exact ⟨⟨AcceptSource.between_vacant hok _, hcount, h.closing, h.request, { h.accepting with },
      { h.returning with }, h.gone⟩, .inl rfl, id, fun hc => ⟨hc, fun _ hn => hn, nofun, nofun⟩⟩

theorem Sound.resume {w : ListenerWork} (hw : w ∈ s.works) :
    Stepped s (({ s with works := s.works.erase w }.runWork w).getD s.abort) := by
  cases w with
  | accept n =>
    obtain ⟨r, heq, hacc⟩ := h.accepting.resume hw
    rw [heq]
    refine ⟨{ h with
      accepting := hacc
      returning := h.returning.congr rfl (fun k => ?_) rfl rfl rfl rfl }, .inl rfl, id,
      fun hc => ⟨hc, fun _ hn => hn, id, id⟩⟩
    exact List.count_erase_of_ne (by simp)
  | close k =>
    obtain ⟨r, heq, hret⟩ := h.returning.resume h.closing.toClosable hw
    rw [heq]
    refine ⟨{ h with
      accepting := h.accepting.congr rfl rfl rfl rfl fun n => ?_,
      returning := hret }, .inl rfl, id, fun hc => ⟨hc, fun _ hn => hn, id, id⟩⟩
    exact List.count_erase_of_ne (by simp)

theorem Sound.step (hstep : step a s = some s') : Stepped s s' := by
  unfold Listening.step at hstep
  obtain ⟨halive, hstep⟩ := Option.ite_none_left_eq_some.mp hstep
  cases a with
  | accept submit =>
    obtain ⟨hd, rfl⟩ := of_unless hstep
    exact h.accept (by simpa using hd) submit
  | acceptCqe n result configured =>
    obtain ⟨hn, rfl⟩ := of_guard hstep
    exact h.acceptCqe hn result configured
  | close submit =>
    obtain ⟨hd, rfl⟩ := of_unless hstep
    exact h.close (by simpa using hd) submit
  | closeCqe k result =>
    obtain ⟨hk, rfl⟩ := of_guard hstep
    exact h.closeCqe hk result
  | createSource options =>
    obtain ⟨-, rfl⟩ := of_unless hstep
    exact h.createSource options
  | source a =>
    obtain ⟨⟨-, ha⟩, heq⟩ := Option.ite_none_right_eq_some.mp hstep
    by_cases hd : s.destroyed = true
    · rw [if_pos hd] at heq
      cases heq
      exact h.stepped_abort
    · rw [if_neg hd] at heq
      obtain ⟨source, hsource, rfl⟩ := Option.map_eq_some_iff.mp heq
      exact h.source (by simpa using hd) ha hsource
  | destroySource =>
    obtain ⟨-, rfl⟩ := of_unless hstep
    exact h.destroySource
  | resume w =>
    obtain ⟨hw, rfl⟩ := of_guard hstep
    exact h.resume hw
  | stopLoop =>
    cases hstep
    exact ⟨⟨h.between.stopLoop, h.count, h.closing, h.request, { h.accepting with },
      { h.returning with }, h.gone⟩, .inl rfl, id, fun hc => ⟨hc, fun _ hn => hn, id, id⟩⟩
  | destroy =>
    obtain ⟨-, rfl⟩ := of_unless hstep
    split_ifs with hfree
    · obtain ⟨h1, h2, -⟩ := of_decide_eq_true hfree
      exact ⟨⟨h.between, h.count, h.closing, h.request, { h.accepting with },
        { h.returning with }, fun _ => ⟨h1, h2⟩⟩, .inl rfl, fun _ => rfl,
        fun hc => ⟨hc, fun _ hn => hn, id, id⟩⟩
    · exact h.stepped_abort

end

theorem sound_make (closeResult : Except Error Unit) (loopStopping : Bool) :
    (make closeResult loopStopping).Sound := by
  refine ⟨AcceptSource.between_vacant (fun _ => ⟨rfl, rfl⟩) _, rfl, ⟨⟨fun k c hk => (by cases hk),
    fun _ => ⟨nofun, nofun⟩, fun _ => rfl, .init,
    fun k hk => ?_⟩, fun k c hk => (by cases hk)⟩, rfl, ⟨fun n hn => (by cases hn), fun n => rfl,
    fun n hn => (by cases hn)⟩, ⟨fun k c hk => (by cases hk), fun k => rfl,
    fun k hk => (by cases hk), fun k r hk => (by cases hk)⟩, nofun⟩
  exact absurd hk (Nat.not_lt_zero k)

theorem sound_of_reaches (h : system.Reaches s) : s.Sound := by
  refine h.invariant ?_ ?_
  · rintro s ⟨closeResult, loopStopping, rfl⟩
    exact sound_make closeResult loopStopping
  · intro s a s' hs _ hstep
    exact (hs.step hstep).sound

end Listening

end Alyrn.Uring
