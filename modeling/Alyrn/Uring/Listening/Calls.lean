import Alyrn.Lib.Ledger
import Alyrn.Uring.Listening.Closing

/-!
# Calls of a listener

What the calls, the completions and the resumptions of `Accept()` and of `Close()` do. Each call of
`Accept()` has a request in the kernel, or its work is queued, or it has returned
(`Listening.Accepting`); each call of `Close()` waits, or its work is queued, or it has returned
(`Listening.Returning`).
-/

namespace Alyrn.Uring

open Net Transition Function

namespace Listening

variable {s : Listening} {n k : ℕ}

/-! ## Works -/

theorem scheduleCompletion_eq (w : ListenerWork) :
    ∃ works, s.scheduleCompletion w = { s with works } ∧
      ∀ v, works.count v = s.works.count v + if v = w ∧ w ∉ s.works then 1 else 0 := by
  by_cases hw : w ∈ s.works
  · refine ⟨s.works, if_pos hw, fun v => ?_⟩
    rw [if_neg (fun hx => hx.2 hw), Nat.add_zero]
  · refine ⟨s.works ++ [w], if_neg hw, fun v => ?_⟩
    rw [List.count_append]
    by_cases hv : v = w
    · rw [if_pos ⟨hv, hw⟩, hv, List.count_singleton_self]
    · rw [if_neg (fun hx => hv hx.1), List.count_eq_zero_of_not_mem (a := v) (l := [w])
        (by simpa using hv)]

theorem entered_eq (own : Bool) (source : AcceptSource) : ∃ closers works,
    s.entered own source = { s with source, closers, works } ∧
      ∀ n, works.count (.accept n) = s.works.count (.accept n) := by
  unfold entered
  split
  · rename_i k c hk _
    cases own with
    | true => exact ⟨_, _, rfl, fun _ => rfl⟩
    | false =>
      rw [if_neg (by simp)]
      obtain ⟨works, heq, hcount⟩ := scheduleCompletion_eq (s := { s with source }.setCloser k
        { s.closers k with op := { (s.closers k).op with handle := (s.closers k).continuation } })
        (.close k)
      refine ⟨_, works, heq, fun n => ?_⟩
      rw [hcount, if_neg (by simp), Nat.add_zero]
      rfl
  · exact ⟨_, _, rfl, fun _ => rfl⟩

variable {source : AcceptSource} {own : Bool}

theorem entered_of_stays (h : source.listener.pendingClose = s.listener.pendingClose) :
    s.entered own source = { s with source } := by
  unfold entered
  rw [h]
  split
  · rename_i k c hk hnone
    rw [hk] at hnone
    cases hnone
  · rfl

variable {c : FdCloseConvergence}

theorem entered_of_finished
    (h : s.listener.pendingClose = some (k, c)) (h' : source.listener.pendingClose = none) :
    s.entered own source =
      let t := { s with source }.setCloser k
        { s.closers k with op := { (s.closers k).op with handle := (s.closers k).continuation } }
      if own then t else t.scheduleCompletion (.close k) := by
  unfold entered
  rw [h, h']

theorem entered_own (source : AcceptSource)
    (h : s.listener.pendingClose = some (k, c)) (hh : (s.closers k).op.handle = none)
    (hc : (s.closers k).continuation = some k) :
    (let t := s.entered true source
      if (t.closers k).op.handle.isSome then t.scheduleCompletion (.close k) else t) =
      s.entered false source := by
  dsimp only
  cases hn : source.listener.pendingClose with
  | none =>
    rw [entered_of_finished h hn, entered_of_finished h hn]
    have hself : (setCloser { s with source } k { s.closers k with
        op := { (s.closers k).op with handle := (s.closers k).continuation } }).closers k =
        { s.closers k with op := { (s.closers k).op with handle := (s.closers k).continuation } } :=
      update_self ..
    rw [if_pos rfl, if_neg (show ¬false = true by decide), hself]
    exact if_pos (by rw [hc]; rfl)
  | some p =>
    have hstay (own : Bool) : s.entered own source = { s with source } := by
      unfold entered
      rw [h, hn]
    rw [hstay, hstay]
    exact if_neg (by simp [hh])

theorem entered_marked {source source' : AcceptSource} {c c' : FdCloseConvergence}
    (h : s.listener.pendingClose = some (k, c))
    (h' : source'.listener.pendingClose = some (k, c')) :
    { s with source := source' }.entered own source = s.entered own source := by
  unfold entered
  rw [h, show ({ s with source := source' } : Listening).listener.pendingClose = _ from h']
  cases source.listener.pendingClose <;> rfl

theorem entered_setAccepter (own : Bool) (source : AcceptSource) (a : Accepter) :
    (s.setAccepter n a).entered own source = (s.entered own source).setAccepter n a := by
  unfold entered
  split
  · rename_i k c hk hnone
    have hk' : s.listener.pendingClose = some (k, c) := hk
    rw [hk', hnone]
    cases own with
    | true => rfl
    | false =>
      by_cases hw : ListenerWork.close k ∈ s.works
      · simp [scheduleCompletion, setAccepter, setCloser, hw]
      · simp [scheduleCompletion, setAccepter, setCloser, hw]
  · rename_i h
    split
    · rename_i k c hk hnone
      exact (h k c hk hnone).elim
    · rfl

/-! ## Calls of `Accept()` -/

/-- Each call of `Accept()` has a request in the kernel, or its work is queued, or it has
returned. -/
structure Accepting (s : Listening) : Prop where
  flight : ∀ n ∈ s.accepts, s.accepters n =
    { op := { kind := .acceptComplete, handle := some n }, reservation := true }
  once : Ledger.Once (fun n => (s.acceptResults.map Prod.fst).count n +
    (s.works.count (.accept n) + s.accepts.count n)) s.acceptCalls none
  work : ∀ n, ListenerWork.accept n ∈ s.works →
    (s.accepters n).op.handle = some n ∧ (s.accepters n).result.isSome = true

theorem Accepting.fresh (h : s.Accepting) :
    ListenerWork.accept s.acceptCalls ∉ s.works ∧ s.acceptCalls ∉ s.accepts := by
  have := h.once.fresh (Nat.le_refl _)
  exact ⟨List.count_eq_zero.mp (by omega), List.count_eq_zero.mp (by omega)⟩

theorem Accepting.congr {t : Listening} (h : s.Accepting) (h1 : t.accepts = s.accepts)
    (h2 : t.accepters = s.accepters) (h3 : t.acceptResults = s.acceptResults)
    (h4 : t.acceptCalls = s.acceptCalls)
    (h5 : ∀ n, t.works.count (.accept n) = s.works.count (.accept n)) : t.Accepting where
  flight := by rw [h1, h2]; exact h.flight
  once := by simp only [h1, h3, h4, h5]; exact h.once
  work n hn := by
    rw [h2]
    refine h.work n ?_
    rw [← List.count_pos_iff] at hn ⊢
    rwa [h5] at hn

def acceptReturned (s : Listening) (r : Except Error ℕ) : Listening :=
  { s with
    acceptCalls := s.acceptCalls + 1
    accepters := update s.accepters s.acceptCalls
      { op := { kind := .acceptComplete, lifecycle := .releaseAuthorized }, result := some r }
    acceptResults := s.acceptResults ++ [(s.acceptCalls, r)] }

def acceptSuspended (s : Listening) : Listening :=
  { s with
    acceptCalls := s.acceptCalls + 1
    accepters := update s.accepters s.acceptCalls
      { op := { kind := .acceptComplete, handle := some s.acceptCalls }, reservation := true }
    accepts := s.accepts ++ [s.acceptCalls]
    source := { s.source with
      listener := { s.listener with pendingAccepts := s.listener.pendingAccepts + 1 } } }

theorem publishAccept_eq {op : Op} {r : Except Error ℕ} (hk : op.kind = .acceptComplete)
    (hl : op.lifecycle = .pending) : s.publishAccept n op r =
      (s.setAccepter n { s.accepters n with
        op := { op with lifecycle := .releaseAuthorized }
        result := some r }).releaseListenerReservation n := by
  obtain ⟨kind, handle, result, completed, lifecycle⟩ := op
  cases hk
  cases hl
  rfl

theorem releaseListenerReservation_eq (hr : (s.accepters n).reservation = true)
    (hp : s.listener.pendingAccepts ≠ 0) : s.releaseListenerReservation n =
      some ((s.setAccepter n { s.accepters n with reservation := false }).entered false
        { s.source with listener := s.listener.releaseAccept }) := by
  unfold releaseListenerReservation
  rw [if_neg (by simp [hr]), if_neg hp]

theorem completeInline_refused (e : Error) :
    ({ s with acceptCalls := s.acceptCalls + 1 }.setAccepter s.acceptCalls {}).completeInline
      s.acceptCalls (.error e) = some (s.acceptReturned (.error e)) := by
  unfold completeInline
  rw [publishAccept_eq (by simp [setAccepter]) (by simp [setAccepter])]
  simp [releaseListenerReservation, setAccepter, acceptReturned]

theorem completeInline_undone (e : Error) (hp : s.listener.pendingClose = none) :
    ((({ s with acceptCalls := s.acceptCalls + 1 }.setAccepter s.acceptCalls {}).setListener
      { s.listener with pendingAccepts := s.listener.pendingAccepts + 1 }).setAccepter
        s.acceptCalls { reservation := true }).completeInline s.acceptCalls (.error e) =
      some (s.acceptReturned (.error e)) := by
  unfold completeInline
  rw [publishAccept_eq (by simp [setAccepter]) (by simp [setAccepter]),
    releaseListenerReservation_eq (by simp [setAccepter]) (Nat.succ_ne_zero _)]
  simp [entered, setAccepter, setListener, acceptReturned, Listener.releaseAccept,
    Listener.notifyCloseProgress, hp]
  rw [← hp]

/-- **A call of `Accept()`** returns, or finds the listener open and suspends. -/
theorem accept_cases (h : s.listener.Closable) (submit : Option Error) :
    (∃ r, s.accept submit = some (s.acceptReturned r)) ∨
      (s.listener.closed = false ∧ s.accept submit = some s.acceptSuspended) := by
  unfold accept
  dsimp only
  split_ifs with h1 h2
  · exact .inl ⟨_, completeInline_refused EBADF⟩
  · exact .inl ⟨_, completeInline_refused EBUSY⟩
  · have hopen : s.listener.closed = false := by
      by_contra hx
      have hcl : s.listener.closed = true := by simpa using hx
      exact h1 (decide_eq_true (.inl hcl))
    cases submit with
    | none =>
      refine .inr ⟨hopen, ?_⟩
      simp [acceptSuspended, setAccepter, setListener]
    | some e =>
      refine .inl ⟨.error e, ?_⟩
      have hp := h.pendingClose_eq (.inl hopen)
      exact completeInline_undone e hp

def answeredOp (n : ℕ) (result : ℤ) (lifecycle : SingleResultLifecycle) : Op where
  kind := .acceptComplete
  handle := some n
  result := some result
  completed := true
  lifecycle := lifecycle

def acceptAnswered (s : Listening) (n : ℕ) (result : ℤ) (r : Except Error ℕ) : Listening :=
  (({ s with accepts := s.accepts.erase n }.entered false
    { s.source with listener := s.listener.releaseAccept }).setAccepter n
    { op := answeredOp n result .continuationAuthorized, result := some r }).scheduleCompletion
      (.accept n)

theorem handleAcceptCqe_eq (h : s.Accepting) (hn : n ∈ s.accepts)
    (hp : s.listener.pendingAccepts ≠ 0) (result : ℤ) (configured : Option Error) :
    ∃ r, { s with accepts := s.accepts.erase n }.handleAcceptCqe n result configured =
      some (s.acceptAnswered n result r) := by
  have hflight := h.flight n hn
  set t : Listening := { s with accepts := s.accepts.erase n } with ht
  have hacc : t.accepters n =
      { op := { kind := .acceptComplete, handle := some n }, reservation := true } := hflight
  unfold handleAcceptCqe onAcceptComplete
  rw [hacc, if_neg (by simp)]
  have hrec : Op.recordCqe { kind := .acceptComplete, handle := some n } result = some
      { kind := .acceptComplete, handle := some n, result := some result, completed := true } := rfl
  dsimp only
  rw [hrec]
  dsimp only [Option.bind_eq_bind, Option.bind_some]
  rw [if_neg (by simp), publishAccept_eq rfl rfl, hacc]
  generalize (ite (result < 0) _ _ : Except Error ℕ) = r
  refine ⟨r, ?_⟩
  set a : Accepter :=
    { op := answeredOp n result .releaseAuthorized, reservation := true, result := some r } with ha
  have hself : (t.setAccepter n a).accepters n = a := update_self ..
  show ((t.setAccepter n a).releaseListenerReservation n).bind _ = _
  rw [releaseListenerReservation_eq (s := t.setAccepter n a) (by rw [hself]) hp,
    entered_setAccepter, hself, entered_setAccepter]
  simp only [Option.bind_some, setAccepter, update_self, update_idem]
  rfl

/-! ### What a call leaves -/

theorem Accepting.acceptReturned (h : s.Accepting) (r : Except Error ℕ) :
    (s.acceptReturned r).Accepting := by
  obtain ⟨hf2, hf3⟩ := h.fresh
  have hother {n : ℕ} (hn : n ≠ s.acceptCalls) :
      (s.acceptReturned r).accepters n = s.accepters n := update_of_ne hn ..
  constructor
  · intro n hn
    rw [hother (fun hx => hf3 (by rw [← hx]; exact hn))]
    exact h.flight n hn
  · exact h.once.returns nofun r
  · intro n hn
    rw [hother (fun hx => hf2 (by rw [← hx]; exact hn))]
    exact h.work n hn

theorem Accepting.acceptSuspended (h : s.Accepting) : s.acceptSuspended.Accepting := by
  obtain ⟨hf2, -⟩ := h.fresh
  have hother {n : ℕ} (hn : n ≠ s.acceptCalls) :
      s.acceptSuspended.accepters n = s.accepters n := update_of_ne hn ..
  constructor
  · intro n hn
    by_cases hx : n = s.acceptCalls
    · subst hx
      exact update_self ..
    · rw [hother hx]
      refine h.flight n ((List.mem_append.mp hn).resolve_right fun hmem => ?_)
      exact hx (List.mem_singleton.mp hmem)
  · refine h.once.call nofun fun n => ?_
    show _ + (_ + (s.accepts ++ [s.acceptCalls]).count n) = _
    rw [List.count_append, List.count_singleton', Nat.add_assoc, Nat.add_assoc]
    simp only [eq_comm (a := n)]
    rfl
  · intro n hn
    rw [hother (fun hx => hf2 (by rw [← hx]; exact hn))]
    exact h.work n hn

theorem Accepting.entered (h : s.Accepting) (own : Bool) (source : AcceptSource) :
    (s.entered own source).Accepting := by
  obtain ⟨closers, works, heq, hcount⟩ := entered_eq (s := s) own source
  rw [heq]
  exact h.congr rfl rfl rfl rfl hcount

theorem Accepting.acceptAnswered (h : s.Accepting) (hn : n ∈ s.accepts) (result : ℤ)
    (r : Except Error ℕ) : (s.acceptAnswered n result r).Accepting := by
  have hle := h.once.le_one n
  have hpos := List.count_pos_iff.mpr hn
  have hnw : ListenerWork.accept n ∉ s.works := List.count_eq_zero.mp (by omega)
  unfold Listening.acceptAnswered
  obtain ⟨closers, works, heq, hcount⟩ := entered_eq (s := { s with accepts := s.accepts.erase n })
    false { s.source with listener := s.listener.releaseAccept }
  rw [heq]
  set t := setAccepter { s with
    accepts := s.accepts.erase n, source := { s.source with listener := s.listener.releaseAccept },
    closers, works } n
    { op := answeredOp n result .continuationAuthorized, result := some r } with ht
  have hwork (m : ℕ) : t.works.count (.accept m) = s.works.count (.accept m) := hcount m
  have hnot : ListenerWork.accept n ∉ t.works := by
    rw [← List.count_eq_zero, hwork, List.count_eq_zero]
    exact hnw
  have hother {m : ℕ} (hm : m ≠ n) : t.accepters m = s.accepters m := update_of_ne hm ..
  obtain ⟨works', heq', hcount'⟩ := scheduleCompletion_eq (s := t) (.accept n)
  rw [heq']
  have hnodup := Ledger.count_of_mem hn
  constructor
  · intro m hm
    have hm : m ∈ s.accepts.erase n := hm
    by_cases hx : m = n
    · subst hx
      have := hnodup m
      have := List.count_pos_iff.mpr hm
      rw [if_pos rfl] at *
      omega
    · show t.accepters m = _
      rw [hother hx]
      exact h.flight m (List.mem_of_mem_erase hm)
  · intro m
    refine Eq.trans ?_ (h.once m)
    show _ + (works'.count (.accept m) + (s.accepts.erase n).count m) = _
    rw [hcount', hwork]
    dsimp only
    rw [hnodup]
    by_cases hx : m = n
    · rw [if_pos ⟨by rw [hx], hnot⟩, if_pos hx, Nat.add_right_comm]
      rfl
    · rw [if_neg (fun hy => hx (ListenerWork.accept.inj hy.1)), if_neg hx]
      rfl
  · intro m hm
    show (t.accepters m).op.handle = some m ∧ (t.accepters m).result.isSome = true
    by_cases hx : m = n
    · subst hx
      rw [show t.accepters m = _ from update_self ..]
      exact ⟨rfl, rfl⟩
    · rw [hother hx]
      refine h.work m ?_
      rw [← List.count_pos_iff, hcount', hwork,
        if_neg (fun hy => hx (ListenerWork.accept.inj hy.1)), Nat.add_zero] at hm
      exact List.count_pos_iff.mp hm

/-! ## Calls of `Close()` -/

/-- Each call of `Close()` that does not wait has returned, or its work is queued. -/
structure Returning (s : Listening) : Prop where
  waiting : ∀ k c, s.listener.pendingClose = some (k, c) → (s.closers k).continuation = some k ∧
    (s.closers k).op.handle = none ∧ (s.closers k).op.kind = .listenerCloseComplete ∧
    (c.cancelRequestTerminal = false →
      (s.closers k).op.completed = false ∧ (s.closers k).op.result = none)
  once : Ledger.Once (fun k => (s.closeResults.map Prod.fst).count k + s.works.count (.close k))
    s.listener.closeCalls (s.listener.pendingClose.map Prod.fst)
  work : ∀ k, ListenerWork.close k ∈ s.works →
    (s.closers k).op.handle = some k ∧ s.listener.fdOpen = false
  returned : ∀ k r, (k, r) ∈ s.closeResults →
    r = .ok () ∨ (s.closers k).continuation.isSome = true → s.listener.fdOpen = false

theorem Returning.not_queued (h : s.Returning)
    (hp : s.listener.pendingClose = some (k, c)) :
    ListenerWork.close k ∉ s.works ∧ k ∉ s.closeResults.map Prod.fst := by
  have := h.once.waiting (k := k) (by rw [hp]; rfl)
  exact ⟨List.count_eq_zero.mp (by omega), List.count_eq_zero.mp (by omega)⟩

theorem Returning.fresh (h : s.Returning) : ListenerWork.close s.listener.closeCalls ∉ s.works ∧
    s.listener.closeCalls ∉ s.closeResults.map Prod.fst := by
  have := h.once.fresh (Nat.le_refl _)
  exact ⟨List.count_eq_zero.mp (by omega), List.count_eq_zero.mp (by omega)⟩

theorem Returning.congr {t : Listening} (h : s.Returning) (h1 : t.closeResults = s.closeResults)
    (h2 : ∀ k, t.works.count (.close k) = s.works.count (.close k)) (h3 : t.closers = s.closers)
    (h4 : t.listener.closeCalls = s.listener.closeCalls)
    (h5 : t.listener.pendingClose = s.listener.pendingClose)
    (h6 : t.listener.fdOpen = s.listener.fdOpen) : t.Returning where
  waiting := by rw [h3, h5]; exact h.waiting
  once := by simp only [h1, h2, h4, h5]; exact h.once
  work k hk := by
    rw [h3, h6]
    refine h.work k ?_
    rw [← List.count_pos_iff] at hk ⊢
    rwa [h2] at hk
  returned := by rw [h1, h3, h6]; exact h.returned

theorem Returning.entered (h : s.Returning) (hc : s.listener.Closable)
    (hg : Listener.Goes s.listener source.listener) : (s.entered false source).Returning := by
  cases hg with
  | stays h1 h2 h3 h4 h5 =>
    rw [entered_of_stays h3]
    exact h.congr rfl (fun _ => rfl) rfl h4 h3 h1
  | finished k c r h1 h2 h3 h4 h5 h6 h7 =>
    rw [entered_of_finished h1 h5, if_neg (by simp)]
    obtain ⟨hcont, -⟩ := h.waiting k c h1
    obtain ⟨hnw, hnr⟩ := h.not_queued h1
    have hk : k < s.listener.closeCalls := hc.results.parked k (by rw [h1]; rfl)
    set t := { s with source }.setCloser k
      { s.closers k with op := { (s.closers k).op with handle := (s.closers k).continuation } }
      with ht
    have hself : t.closers k = { s.closers k with
      op := { (s.closers k).op with handle := (s.closers k).continuation } } :=
      update_self ..
    have hother {j : ℕ} (hj : j ≠ k) : t.closers j = s.closers j := update_of_ne hj ..
    obtain ⟨works, heq, hcount⟩ := scheduleCompletion_eq (s := t) (.close k)
    have hcount (j : ℕ) : works.count (.close j) =
        s.works.count (.close j) + if j = k then 1 else 0 := by
      rw [hcount]
      by_cases hj : j = k
      · rw [if_pos ⟨by rw [hj], hnw⟩, if_pos hj]
        rfl
      · rw [if_neg (fun hx => hj (ListenerWork.close.inj hx.1)), if_neg hj]
        rfl
    rw [heq]
    constructor
    · intro j d hj
      rw [show ({ t with works } : Listening).listener.pendingClose = none from h5] at hj
      cases hj
    · show Ledger.Once _ source.listener.closeCalls (source.listener.pendingClose.map Prod.fst)
      have honce := h.once
      rw [h1] at honce
      rw [h5, h6]
      refine honce.answer hk fun j => ?_
      rw [Nat.add_assoc, ← hcount]
      rfl
    · intro j hj
      refine ⟨?_, h3⟩
      show (t.closers j).op.handle = some j
      by_cases hjk : j = k
      · subst hjk
        rw [hself]
        exact hcont
      · rw [hother hjk]
        refine (h.work j ?_).1
        rw [← List.count_pos_iff, hcount, if_neg hjk, Nat.add_zero] at hj
        exact List.count_pos_iff.mp hj
    · intro j r' _ _
      exact h3

def closeReturned (s : Listening) (source : AcceptSource) (r : Except Error Unit) : Listening :=
  { s with
    source
    closers := update s.closers s.listener.closeCalls {}
    closeResults := s.closeResults ++ [(s.listener.closeCalls, r)] }

def closeSuspended (s : Listening) (source : AcceptSource) : Listening :=
  { s with
    source
    closers := update s.closers s.listener.closeCalls
      { continuation := some s.listener.closeCalls }
    closeRequests := s.closeRequests ++ [s.listener.closeCalls] }

theorem close_returned (h : s.listener.Closable) {submit : Option Error}
    {r : Except Error Unit} (hs : (s.source.withAnswers [submit]).closeListener = source)
    (hp : source.listener.pendingClose = s.listener.pendingClose)
    (hr : source.listener.closes = s.listener.closes ++ [(s.listener.closeCalls, r)]) :
    s.close submit = some (s.closeReturned source r) := by
  have hfind : (source.listener.closes.find? (·.1 = s.listener.closeCalls)).map Prod.snd =
      some r := by
    have hnone : s.listener.closes.find? (·.1 = s.listener.closeCalls) = none :=
      List.find?_eq_none.mpr fun p hp => by simpa using h.fresh p hp
    rw [hr, List.find?_append, hnone]
    simp
  have hne : source.listener.pendingClose.map Prod.fst ≠ some s.listener.closeCalls := by
    rw [hp]
    exact fun hx => absurd (h.results.parked _ hx) (Nat.lt_irrefl _)
  unfold close
  rw [hs]
  refine (if_neg hne).trans ?_
  show (source.listener.closes.find? (·.1 = s.listener.closeCalls)).map Prod.snd >>= _ = _
  rw [hfind]
  rfl

/-- **A call of `Close()`** returns, with or without the descriptor closed, or suspends. -/
theorem close_cases (h : s.listener.Closable) (submit : Option Error) :
    let source := (s.source.withAnswers [submit]).closeListener
    (∃ r, s.close submit = some (s.closeReturned source r) ∧
      source.listener.closeCalls = s.listener.closeCalls + 1 ∧
      source.listener.closes = s.listener.closes ++ [(s.listener.closeCalls, r)] ∧
      source.listener.pendingClose = s.listener.pendingClose ∧
      (r = .ok () ∨ s.listener.closed = false ∧ s.listener.pendingAccepts = 0 →
        source.listener.fdOpen = false)) ∨
    (s.close submit = some (s.closeSuspended source) ∧ s.listener.closed = false ∧
      s.listener.pendingAccepts ≠ 0 ∧
      source.listener.pendingClose = some (s.listener.closeCalls, {})) := by
  intro source
  have hreturn {r : Except Error Unit} (h1 : source.listener.closeCalls = s.listener.closeCalls + 1)
      (h2 : source.listener.closes = complete s.listener.closes s.listener.closeCalls r)
      (h3 : source.listener.pendingClose = s.listener.pendingClose)
      (h4 : r = .ok () ∨ s.listener.closed = false ∧ s.listener.pendingAccepts = 0 →
        source.listener.fdOpen = false) :
      ∃ r, s.close submit = some (s.closeReturned source r) ∧
        source.listener.closeCalls = s.listener.closeCalls + 1 ∧
        source.listener.closes = s.listener.closes ++ [(s.listener.closeCalls, r)] ∧
        source.listener.pendingClose = s.listener.pendingClose ∧
        (r = .ok () ∨ s.listener.closed = false ∧ s.listener.pendingAccepts = 0 →
          source.listener.fdOpen = false) := by
    rw [complete_eq r h.fresh] at h2
    exact ⟨r, close_returned h rfl h3 h2, h1, h2, h3, h4⟩
  have hcl : AcceptSource.Closes (s.source.withAnswers [submit]) source :=
    AcceptSource.closes_closeListener h
  cases hcl with
  | returned answers r hwhy hok heq =>
    refine .inl (hreturn (r := r) ?_ ?_ ?_ fun hx => ?_)
    iterate 3 rw [heq]; rfl
    rcases hx with hx | ⟨hopen, hz⟩
    · rw [heq]
      exact hok hx
    · -- a call with nothing to wait for is not refused
      have hp := h.pendingClose_eq (.inl hopen)
      rcases hwhy with hy | hy | hy
      · exact absurd hp hy
      · exact absurd hopen (by rw [show s.listener.closed = true from hy]; simp)
      · exact absurd hz hy
  | now t r _ _ ha heq =>
    refine .inl (hreturn (r := r) ?_ ?_ ?_ fun _ => by rw [heq]; rfl)
    · rw [heq]
      exact ha.closeCalls
    · rw [heq]
      exact congrArg (complete · _ r) ha.closes
    · rw [heq]
      exact ha.pendingClose
  | suspended answers hopen hz ha =>
    refine .inr ⟨?_, hopen, hz, ha.pendingClose⟩
    have hp : source.listener.pendingClose.map Prod.fst = some s.listener.closeCalls := by
      rw [ha.pendingClose]
      rfl
    refine (if_pos hp).trans ?_
    simp [closeSuspended, setCloser, source]

theorem Returning.closeReturned (h : s.Returning) (hc : s.listener.Closable)
    {r : Except Error Unit}
    (h1 : source.listener.closeCalls = s.listener.closeCalls + 1)
    (h2 : source.listener.pendingClose = s.listener.pendingClose)
    (h3 : s.listener.fdOpen = false → source.listener.fdOpen = false)
    (h4 : r = .ok () → source.listener.fdOpen = false) :
    (s.closeReturned source r).Returning := by
  obtain ⟨hnw, hnr⟩ := h.fresh
  have hpend : s.listener.pendingClose.map Prod.fst ≠ some s.listener.closeCalls := fun hx =>
    absurd (hc.results.parked _ hx) (Nat.lt_irrefl _)
  have hother {k : ℕ} (hk : k ≠ s.listener.closeCalls) :
      (s.closeReturned source r).closers k = s.closers k := update_of_ne hk ..
  constructor
  · intro k c hk
    have hk : s.listener.pendingClose = some (k, c) := h2.symm.trans hk
    rw [hother (fun hx => hpend (by rw [hk, hx]; rfl))]
    exact h.waiting k c hk
  · show Ledger.Once _ source.listener.closeCalls (source.listener.pendingClose.map Prod.fst)
    rw [h1, h2]
    exact h.once.returns hpend r
  · intro k hk
    rw [hother (fun hx => hnw (by rw [← hx]; exact hk))]
    exact ⟨(h.work k hk).1, h3 (h.work k hk).2⟩
  · intro k r' hk hcont
    rcases List.mem_append.mp hk with hk | hk
    · rw [hother (fun hx => hnr (by rw [← hx]; exact List.mem_map_of_mem hk))] at hcont
      exact h3 (h.returned k r' hk hcont)
    · cases List.mem_singleton.mp hk
      refine h4 (hcont.resolve_right ?_)
      rw [show (s.closeReturned source r).closers s.listener.closeCalls = {} from update_self ..]
      nofun

theorem Returning.closeSuspended (h : s.Returning) (hp : s.listener.pendingClose = none)
    (h1 : source.listener.closeCalls = s.listener.closeCalls + 1)
    (h2 : source.listener.pendingClose = some (s.listener.closeCalls, {}))
    (h3 : s.listener.fdOpen = false → source.listener.fdOpen = false) :
    (s.closeSuspended source).Returning := by
  obtain ⟨hnw, hnr⟩ := h.fresh
  have hother {k : ℕ} (hk : k ≠ s.listener.closeCalls) :
      (s.closeSuspended source).closers k = s.closers k := update_of_ne hk ..
  constructor
  · intro k c hk
    cases h2.symm.trans hk
    rw [show (s.closeSuspended source).closers s.listener.closeCalls = _ from
      update_self ..]
    exact ⟨rfl, rfl, rfl, fun _ => ⟨rfl, rfl⟩⟩
  · show Ledger.Once _ source.listener.closeCalls (source.listener.pendingClose.map Prod.fst)
    have honce := h.once
    rw [hp] at honce
    rw [h1, h2]
    exact honce.park
  · intro k hk
    rw [hother (fun hx => hnw (by rw [← hx]; exact hk))]
    exact ⟨(h.work k hk).1, h3 (h.work k hk).2⟩
  · intro k r hk hcont
    rw [hother (fun hx => hnr (by rw [← hx]; exact List.mem_map_of_mem hk))] at hcont
    exact h3 (h.returned k r hk hcont)

def closeAnswered (s : Listening) (k : ℕ) (c : FdCloseConvergence) (result : ℤ) : Listening :=
  setCloser { s with
    closeRequests := s.closeRequests.erase k
    source := { s.source with
      listener := { s.listener with
        pendingClose := some (k, { c with cancelRequestTerminal := true }) } } }
    k { s.closers k with op := { (s.closers k).op with completed := true, result := some result } }

theorem Returning.closeAnswered (h : s.Returning)
    (hp : s.listener.pendingClose = some (k, c)) (result : ℤ) :
    (s.closeAnswered k c result).Returning := by
  obtain ⟨hnw, hnr⟩ := h.not_queued hp
  obtain ⟨h1, h2, h3, -⟩ := h.waiting k c hp
  have hother {j : ℕ} (hj : j ≠ k) : (s.closeAnswered k c result).closers j = s.closers j :=
    update_of_ne hj ..
  constructor
  · intro j d hj
    cases hj
    rw [show (s.closeAnswered k c result).closers k = _ from update_self ..]
    exact ⟨h1, h2, h3, nofun⟩
  · intro j
    have := h.once j
    rw [hp] at this
    exact this
  · intro j hj
    rw [hother (fun hx => hnw (by rw [← hx]; exact hj))]
    exact h.work j hj
  · intro j r hj hcont
    rw [hother (fun hx => hnr (by rw [← hx]; exact List.mem_map_of_mem hj))] at hcont
    exact h.returned j r hj hcont

/-- **The completion of a close's cancel request** lets the close go on, if nothing else is
left. -/
theorem handleCloseCqe_eq (h : s.Returning)
    (hp : s.listener.pendingClose = some (k, c)) (ht : c.cancelRequestTerminal = false)
    (result : ℤ) :
    { s with closeRequests := s.closeRequests.erase k }.handleCloseCqe k result =
      some ((s.closeAnswered k c result).entered false
        { s.source with listener := s.listener.onCloseCancelComplete }) := by
  obtain ⟨hcont, hhandle, hkind, hopen⟩ := h.waiting k c hp
  obtain ⟨hcomp, hres⟩ := hopen ht
  have hrec : (s.closers k).op.recordCqe result =
      some { (s.closers k).op with completed := true, result := some result } := by
    simp [Op.recordCqe, Op.setResult, hres, hkind, cqeResultDirectlyPublishesLogicalResult]
  have hmine : s.listener.pendingClose.map Prod.fst = some k := by
    rw [hp]
    rfl
  set t := setCloser { s with closeRequests := s.closeRequests.erase k } k
    { s.closers k with op := { (s.closers k).op with completed := true, result := some result } }
    with ht'
  set source := { s.source with listener := s.listener.onCloseCancelComplete } with hsource
  have hself : t.closers k = { s.closers k with
      op := { (s.closers k).op with completed := true, result := some result } } :=
    update_self ..
  have hown := entered_own (s := t) source hp (by rw [hself]; exact hhandle)
    (by rw [hself]; exact hcont)
  have hmark : (s.closeAnswered k c result).entered false source = t.entered false source :=
    entered_marked (s := t) hp rfl
  rw [hmark, ← hown]
  unfold handleCloseCqe
  rw [if_neg (by simp [hcomp]), hrec]
  show (let u := if s.listener.pendingClose.map Prod.fst = some k then t.entered true source else t
    if (u.closers k).op.handle.isSome then some (u.scheduleCompletion (.close k)) else some u) = _
  rw [if_pos hmine]
  dsimp only
  split_ifs <;> rfl

/-! ## Resumptions -/

theorem Accepting.resume (h : s.Accepting) (hn : ListenerWork.accept n ∈ s.works) :
    ∃ r, { s with works := s.works.erase (.accept n) }.runWork (.accept n) = some { s with
      works := s.works.erase (.accept n), acceptResults := s.acceptResults ++ [(n, r)] } ∧
    Accepting { s with
      works := s.works.erase (.accept n), acceptResults := s.acceptResults ++ [(n, r)] } := by
  obtain ⟨hh, hres⟩ := h.work n hn
  obtain ⟨r, hr⟩ := Option.isSome_iff_exists.mp hres
  refine ⟨r, ?_, h.flight, h.once.resumes (fun m => ?_) r,
    fun m hm => h.work m (List.mem_of_mem_erase hm)⟩
  · simp [runWork, hh, hr]
  · rw [Ledger.count_of_mem hn, Nat.add_right_comm]
    simp only [ListenerWork.accept.injEq]

theorem Returning.resume (h : s.Returning) (hc : s.listener.Closable)
    (hk : ListenerWork.close k ∈ s.works) :
    ∃ r, { s with works := s.works.erase (.close k) }.runWork (.close k) = some { s with
      works := s.works.erase (.close k), closeResults := s.closeResults ++ [(k, r)] } ∧
    Returning { s with
      works := s.works.erase (.close k), closeResults := s.closeResults ++ [(k, r)] } := by
  obtain ⟨hh, hfd⟩ := h.work k hk
  have hpos := List.count_pos_iff.mpr hk
  have hlt := h.once.of_pos (k := k) (by omega)
  have hmem := hc.answered k hlt.1 hlt.2
  obtain ⟨r, hr⟩ : ∃ r, (s.listener.closes.find? (·.1 = k)).map Prod.snd = some r := by
    cases hf : s.listener.closes.find? (·.1 = k) with
    | some p => exact ⟨p.2, rfl⟩
    | none =>
      obtain ⟨p, hp, hpk⟩ := List.mem_map.mp hmem
      have := List.find?_eq_none.mp hf p hp
      simp [hpk] at this
  refine ⟨r, ?_, h.waiting, h.once.resumes (fun j => ?_) r,
    fun j hj => h.work j (List.mem_of_mem_erase hj), fun _ _ _ _ => hfd⟩
  · simp [runWork, returnClose, hh, hr]
  · rw [Ledger.count_of_mem hk]
    simp only [ListenerWork.close.injEq]

end Listening

end Alyrn.Uring
