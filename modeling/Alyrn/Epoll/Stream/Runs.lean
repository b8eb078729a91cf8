import Alyrn.Epoll.Stream.Completion

/-!
# Runs of the epoll stream

Every step takes both directions from `Lane.Inv` to `Lane.Inv`, so it holds in every state that a
stream reaches: each call gets one result (`completes_once`), none waits without an event to come
(`waiting_watched`, `ready_call_resumed`), a timer is the one of the call it ends
(`timer_of_waiting_call`), and nothing is left of a destroyed stream (`destroyed_idle`).
-/

namespace Alyrn.Epoll

open Net Transition

namespace Stream

variable {s s' : Stream} {d : Side} {n : ℕ} {r w : Except Error ℕ}
  {answers : List (Except Error ℕ)} {f : Lane → Option Lane}

/-- Both directions keep `Lane.Inv`. -/
def Sound (s : Stream) : Prop := ∀ d, (s.lanes d).Inv s.edge s.fdOpen

/-- The invariant of a run. -/
structure Inv (s : Stream) : Prop where
  alive : s.aborted = false
  sound : s.Sound
  resource : s.lifecycle.resource = if s.fdOpen then .opened else .closed
  read : s.lifecycle.read ≠ .shutdownPreparing
  write : s.lifecycle.write ≠ .shutdownPreparing
  gone : s.destroyed = true → s.fdOpen = false

/-! ## Steps of one direction -/

/-- The other direction is as before, but for what epoll has to report. -/
theorem Sound.onLane (h : s.Sound) {y : Lane}
    (hf : f (s.lanes d) = some y) (hy : y.Inv s.edge s.fdOpen) :
    ∃ lanes, s.onLane d f = some { s with lanes } ∧ Sound { s with lanes } ∧ lanes d = y ∧
      ∀ e ≠ d, lanes e = s.lanes e ∨ lanes e = (s.lanes e).rechecked := by
  refine ⟨_, by rw [Stream.onLane, hf]; rfl, fun e => ?_, if_pos rfl, fun e he => ?_⟩
  · show Lane.Inv (if e = d then y else _) s.edge s.fdOpen
    split_ifs
    · exact hy
    · exact h e
    · exact (h e).rechecked
  · rw [if_neg he]
    split_ifs
    · exact .inl rfl
    · exact .inr rfl

theorem Inv.onLane (h : s.Inv) (hf : ∃ y, f (s.lanes d) = some y ∧ y.Inv s.edge s.fdOpen) :
    ∃ s', s.onLane d f = some s' ∧ s'.Inv := by
  obtain ⟨y, hf, hy⟩ := hf
  obtain ⟨lanes, heq, hs, -⟩ := h.sound.onLane hf hy
  exact ⟨_, heq, { h with sound := hs }⟩

theorem owes_of_eq_or {x y : Lane} (h : y = x ∨ y = x.rechecked) {a : Awaiter}
    (ho : x.Owes n a) : y.Owes n a := by
  rcases h with rfl | rfl
  · exact ho
  · exact ho

theorem Sound.completeBoth (h : s.Sound) (hr : r ≠ .error 0) (hw : w ≠ .error 0) :
    ∃ lanes, s.completeBoth r w = some { s with lanes } ∧ Sound { s with lanes } ∧
      ∀ d, (lanes d).pending = none ∧ ∀ n a, (s.lanes d).Owes n a → (lanes d).Owes n a := by
  obtain ⟨x, hx, hxi, hxp, hxr⟩ := (h .read).complete (d := .read) hr
  obtain ⟨lanes, heq, hs, hl, hother⟩ := h.onLane (f := (·.complete .read r)) hx hxi
  obtain ⟨y, hy, hyi, hyp, hyr⟩ := (hs .write).complete (d := .write) hw
  obtain ⟨lanes', heq', hs', hl', hother'⟩ := hs.onLane (f := (·.complete .write w)) hy hyi
  refine ⟨lanes', by rw [Stream.completeBoth, heq]; exact heq', hs', fun d => ?_⟩
  cases d with
  | read =>
    have hsame := hother' .read nofun
    rw [show ({ s with lanes } : Stream).lanes .read = x from hl] at hsame
    refine ⟨?_, fun n a ho => owes_of_eq_or hsame (.inl (hxr n a ho))⟩
    rcases hsame with heq | heq <;> rw [heq]
    · exact hxp
    · exact hxp
  | write =>
    rw [hl']
    exact ⟨hyp, fun n a ho => .inl (hyr n a (owes_of_eq_or (hother .write nofun) ho))⟩

/-! ## Calls -/

theorem validate_proper : s.validate d ≠ .error 0 := by
  unfold validate
  obtain ⟨resource, read, write⟩ := s.lifecycle
  cases d <;> cases resource <;> cases read <;> cases write <;> nofun

/-- A call that is not refused has an open descriptor and a free slot; the others have their
result. -/
theorem refusal_cases (s : Stream) (d : Side) :
    (∃ r, s.refusal d = some r ∧ r ≠ .error 0) ∨
      s.refusal d = none ∧ s.fdOpen = true ∧ (s.lanes d).pending = none := by
  unfold refusal
  split
  · exact .inl ⟨_, rfl, by decide⟩
  · split
    next e hv => exact .inl ⟨_, rfl, by rintro ⟨rfl⟩; exact validate_proper hv⟩
    next =>
      split_ifs with hopen _ hp
      · exact .inl ⟨_, rfl, by decide⟩
      · exact .inl ⟨_, rfl, nofun⟩
      · exact .inl ⟨_, rfl, by decide⟩
      · exact .inr ⟨rfl, by simpa using hopen, by simpa using hp⟩

theorem Inv.start (h : s.Inv) (hans : proper answers = true)
    (kind : OperationKind) (left : ℕ) (reserved ok : Bool) :
    ∃ s', s.start kind left reserved answers ok = some s' ∧ s'.Inv := by
  have hx := h.sound kind.side
  refine h.onLane ?_
  rcases s.refusal_cases kind.side with ⟨r, href, hr⟩ | ⟨href, hopen, hp⟩ <;> simp only [href]
  · exact hx.completeInline hr
  · exact hx.launch hp hopen hans kind left reserved ok

theorem Inv.closeNow (h : s.Inv) :
    ∃ s', s.closeNow = some s' ∧ s'.Inv ∧ s'.fdOpen = false := by
  have hres := h.resource
  cases hopen : s.fdOpen with
  | false =>
    rw [hopen] at hres
    refine ⟨s, ?_, h, hopen⟩
    rw [Stream.closeNow, StreamLifecycle.prepareClose, hres]
    rfl
  | true =>
    rw [hopen] at hres
    have hprep : s.lifecycle.prepareClose =
        .ok (true, { s.lifecycle with resource := .closing }) := by
      simp [StreamLifecycle.prepareClose, hres, h.read, h.write]
    obtain ⟨lanes, heq, hs, hp⟩ := Sound.completeBoth
      (s := { s with lifecycle := { s.lifecycle with resource := .closing } }) h.sound
      (r := .error ECANCELED) (w := .error ECANCELED) (by decide) (by decide)
    refine ⟨{ s with
      lanes := fun d => (lanes d).setInterest false
      fdOpen := false
      lifecycle := { s.lifecycle with resource := .closed } }, ?_, ?_, rfl⟩
    · rw [Stream.closeNow, hprep]
      simp only [heq, Option.bind_eq_bind, Option.bind_some]
      rfl
    · refine { h with sound := fun d => ?_, resource := rfl, gone := fun _ => rfl }
      obtain ⟨ht, hts⟩ := (hs d).idle (hp d).1
      have hi : (lanes d).Inv s.edge false := (hs d).logged.idle (hp d).1 ht hts
      exact hi.setInterest (hp d).1 false

theorem Inv.setLifecycle (h : s.Inv) {l : StreamLifecycle}
    (hres : l.resource = s.lifecycle.resource) (hr : l.read ≠ .shutdownPreparing)
    (hw : l.write ≠ .shutdownPreparing) : Inv { s with lifecycle := l } :=
  { h with resource := hres.trans h.resource, read := hr, write := hw }

/-- A half-close commits or gives up what it has prepared. -/
theorem Inv.halfClose (h : s.Inv) {prepare : Except Error (Bool × StreamLifecycle)}
    {abort commit : StreamLifecycle → Option StreamLifecycle} {done : Stream → Option Stream}
    (hok : ∀ l, s.lifecycle.resource = .opened → prepare = .ok (true, l) →
      (∃ l', abort l = some l' ∧ Inv { s with lifecycle := l' }) ∧
        ∃ l' s', commit l = some l' ∧ done { s with lifecycle := l' } = some s' ∧ s'.Inv)
    (shutdown : Option Error) :
    ∃ s', s.halfClose prepare abort commit shutdown done = some s' ∧ s'.Inv := by
  unfold Stream.halfClose
  split
  · exact ⟨s, rfl, h⟩
  next hopen =>
    have hres : s.lifecycle.resource = .opened := by rw [h.resource, if_pos (by simpa using hopen)]
    rcases prepare with e | ⟨_ | _, l⟩
    · exact ⟨s, rfl, h⟩
    · exact ⟨s, rfl, h⟩
    · obtain ⟨⟨l', habort, hs⟩, l'', s', hcommit, hdone, hs'⟩ := hok l hres rfl
      cases shutdown with
      | some e => exact ⟨_, congrArg (Option.map _) habort, hs⟩
      | none => exact ⟨s', (congrArg (Option.bind · _) hcommit).trans hdone, hs'⟩

theorem prepareCloseRead_fresh {l l' : StreamLifecycle} {pending : Bool}
    (h : l.prepareCloseRead pending = .ok (true, l')) :
    pending = false ∧ l' = { l with read := .shutdownPreparing } := by
  obtain ⟨resource, read, write⟩ := l
  cases resource <;> cases read <;> cases pending <;> cases h
  exact ⟨rfl, rfl⟩

theorem prepareShutdown_fresh {l l' : StreamLifecycle} {pending : Bool}
    (h : l.prepareShutdown pending = .ok (true, l')) :
    l' = { l with write := .shutdownPreparing } := by
  obtain ⟨resource, read, write⟩ := l
  cases resource <;> cases write <;> cases pending <;> cases h
  rfl

theorem Inv.closeRead (h : s.Inv) (shutdown : Option Error) :
    ∃ s', s.closeRead shutdown = some s' ∧ s'.Inv := by
  refine h.halfClose (fun l hres hprep => ?_) shutdown
  obtain ⟨hp, rfl⟩ := prepareCloseRead_fresh hprep
  have hs : Inv { s with lifecycle := { s.lifecycle with read := .shutdown } } :=
    h.setLifecycle rfl nofun h.write
  have hp : (s.lanes .read).pending = none := by simpa using hp
  obtain ⟨s', heq, hs'⟩ := hs.onLane (f := fun x => some (x.setInterest false))
    ⟨_, rfl, (hs.sound .read).setInterest hp false⟩
  exact ⟨⟨_, if_pos ⟨hres, rfl⟩, h.setLifecycle rfl nofun h.write⟩,
    _, s', if_pos ⟨hres, rfl⟩, heq, hs'⟩

theorem Inv.closeWrite (h : s.Inv) (shutdown : Option Error) :
    ∃ s', s.closeWrite shutdown = some s' ∧ s'.Inv := by
  refine h.halfClose (fun l hres hprep => ?_) shutdown
  obtain rfl := prepareShutdown_fresh hprep
  exact ⟨⟨_, if_pos ⟨hres, rfl⟩, h.setLifecycle rfl h.read nofun⟩,
    _, _, if_pos ⟨hres, rfl⟩, rfl, h.setLifecycle rfl h.read nofun⟩

/-! ## Events -/

theorem Sound.completeBoth_if (h : s.Sound) (hr : r ≠ .error 0) (hw : w ≠ .error 0) (b : Bool) :
    ∃ lanes, (if b then s.completeBoth r w else some s) = some { s with lanes } ∧
      Sound { s with lanes } ∧ ∀ d n a, (s.lanes d).Owes n a → (lanes d).Owes n a := by
  cases b with
  | false => exact ⟨s.lanes, rfl, h, fun _ _ _ ho => ho⟩
  | true =>
    obtain ⟨lanes, heq, hs, hl⟩ := h.completeBoth hr hw
    exact ⟨lanes, heq, hs, fun d => (hl d).2⟩

theorem Sound.dispatchReady_if (h : s.Sound) (hans : proper answers = true) (b : Bool) :
    ∃ lanes, (if b then s.onLane d (·.dispatchReady d s.edge answers) else some s) =
        some { s with lanes } ∧ Sound { s with lanes } ∧
      (∀ e ≠ d, lanes e = s.lanes e ∨ lanes e = (s.lanes e).rechecked) ∧
      ∀ n a, b = true → (s.lanes d).Owes n a → (a.tryIo answers).2.isSome = true →
        (lanes d).Resumed n := by
  cases b with
  | false => exact ⟨s.lanes, rfl, h, fun _ _ => .inl rfl, nofun⟩
  | true =>
    obtain ⟨y, hy, hyi, hres⟩ := (h d).dispatchReady (d := d) hans
    obtain ⟨lanes, heq, hs, hl, hother⟩ :=
      h.onLane (f := (·.dispatchReady d s.edge answers)) hy hyi
    refine ⟨lanes, heq, hs, hother, fun n a _ ho hio => ?_⟩
    rw [hl]
    exact hres n a ho hio

theorem errorFromSocketErrorEvent_ne (e : Error) : errorFromSocketErrorEvent e ≠ 0 := by
  unfold errorFromSocketErrorEvent
  split_ifs with he
  · decide
  · exact he

/-- The answers that the socket gives in one direction. -/
def answersOf (reads writes : List (Except Error ℕ)) : Side → List (Except Error ℕ)
  | .read => reads
  | .write => writes

/-- **An event.** A reported direction that the socket lets go on ends its call. -/
theorem Sound.handleEvent (h : s.Sound) {reads writes : List (Except Error ℕ)}
    (hreads : proper reads = true) (hwrites : proper writes = true) (hup : Bool)
    (error : Option Error) :
    ∃ lanes, s.handleEvent hup error reads writes = some { s with lanes } ∧
      Sound { s with lanes } ∧
      ∀ d n a, (s.lanes d).polled = true → (s.lanes d).Owes n a →
        (a.tryIo (answersOf reads writes d)).2.isSome = true → (lanes d).Resumed n := by
  have he := errorFromSocketErrorEvent_ne (error.getD 0)
  obtain ⟨l₁, heq₁, h₁, ho₁⟩ := h.completeBoth_if (r := .ok 0) (w := .error EPIPE) nofun
    (by decide) (hup && !(s.lanes .read).polled)
  obtain ⟨l₂, heq₂, h₂, ho₂⟩ := h₁.completeBoth_if
    (r := .error (errorFromSocketErrorEvent (error.getD 0)))
    (w := .error (errorFromSocketErrorEvent (error.getD 0))) (by simpa using he) (by simpa using he)
    error.isSome
  obtain ⟨l₃, heq₃, h₃, ho₃, hr₃⟩ := h₂.dispatchReady_if (d := .read) hreads (s.lanes .read).polled
  obtain ⟨l₄, heq₄, h₄, ho₄, hr₄⟩ :=
    h₃.dispatchReady_if (d := .write) hwrites (s.lanes .write).polled
  refine ⟨l₄, ?_, h₄, ?_⟩
  · simp only [Stream.handleEvent, heq₁, Option.bind_eq_bind, Option.bind_some]
    simp only [heq₂, Option.bind_some]
    simp only [heq₃, Option.bind_some]
    exact heq₄
  · intro d n a hpoll ho hio
    have ho := ho₂ d n a (ho₁ d n a ho)
    cases d with
    | read =>
      rcases ho₄ .read nofun with heq | heq <;> rw [heq]
      · exact hr₃ n a hpoll ho hio
      · exact hr₃ n a hpoll ho hio
    | write => exact hr₄ n a hpoll (owes_of_eq_or (ho₃ .write nofun) ho) hio

/-! ## Runs -/

theorem Inv.perform (h : s.Inv) {a : Action} (he : s.enabled a = true) :
    ∃ s', s.perform a = some s' ∧ s'.Inv := by
  unfold Stream.perform
  cases a with
  | start kind left reserved answers ok => exact h.start he kind left reserved ok
  | setDeadline d deadline ok =>
    refine h.onLane ?_
    exact (h.sound d).setDeadline deadline ok
  | closeRead shutdown => exact h.closeRead shutdown
  | closeWrite shutdown => exact h.closeWrite shutdown
  | close =>
    obtain ⟨s', heq, hs, -⟩ := h.closeNow
    exact ⟨s', heq, hs⟩
  | destroyAwaiter d n =>
    refine h.onLane ?_
    exact ⟨_, rfl, (h.sound d).drop n⟩
  | destroy =>
    obtain ⟨s', heq, hs, hclosed⟩ := h.closeNow
    exact ⟨_, congrArg (Option.map _) heq, { hs with gone := fun _ => hclosed }⟩
  | requestStop => exact ⟨_, rfl, { h with }⟩
  | advanceClock elapsed => exact ⟨_, rfl, { h with }⟩
  | fire d t =>
    have ht : t ∈ (s.lanes d).timers := (of_decide_eq_true he).1
    obtain ⟨y, n, heq, hy, -⟩ := (h.sound d).fire (d := d) ht
    refine h.onLane ?_
    exact ⟨y, heq, hy⟩
  | becomeReady d =>
    refine h.onLane ?_
    exact ⟨_, rfl, (h.sound d).becomeReady⟩
  | poll more => exact ⟨_, rfl, { h with sound := fun d => (h.sound d).poll (more d) }⟩
  | dispatch hup error reads writes =>
    obtain ⟨hr, hw⟩ := Bool.and_eq_true_iff.mp he
    obtain ⟨lanes, heq, hs, -⟩ := h.sound.handleEvent hr hw hup error
    exact ⟨_, heq, { h with sound := hs }⟩

theorem of_step {a : Action} (h : step a s = some s') (hi : s.Inv) :
    s.enabled a = true ∧ s.perform a = some s' ∧ s'.Inv := by
  obtain ⟨⟨-, -, he⟩, hs⟩ := of_guard h
  obtain ⟨t, heq, ht⟩ := hi.perform he
  rw [heq] at hs
  obtain rfl : t = s' := hs
  exact ⟨he, heq, ht⟩

theorem inv_of_reaches (h : system.Reaches s) : s.Inv := by
  refine h.invariant (I := Inv) ?_ fun _ _ _ hi _ hs => (of_step hs hi).2.2
  rintro _ ⟨edge, rfl⟩
  have hl : Lane.Logged {} := nofun
  exact ⟨rfl, fun _ => hl.idle rfl rfl rfl, rfl, nofun, nofun, nofun⟩

/-- What a stream owes its callers between two steps, whatever has raced so far. -/
structure Served (s : Stream) : Prop where
  alive : s.aborted = false
  /-- A call has exactly one result, unless it waits in its slot or its awaiter was destroyed while
  it waited, and then it has none. A continuation is scheduled with the result of a call that was
  suspended, and of no other. -/
  once : ∀ d, ∀ n < (s.lanes d).started,
    ((s.lanes d).awaiters n).results.length =
      (if (s.lanes d).pending = some n ∨ ((s.lanes d).awaiters n).dropped = true then 0 else 1) ∧
    ∀ p ∈ ((s.lanes d).awaiters n).results,
      ((s.lanes d).awaiters n).result = some p.1 ∧ p.2 = ((s.lanes d).awaiters n).suspended
  /-- A call that waits is watched, its deadline is in the loop, and an event is on its way if the
  socket has become ready since it would have blocked. -/
  watched : ∀ d n, (s.lanes d).pending = some n →
    s.fdOpen = true ∧ (s.lanes d).interest = true ∧
      ((s.lanes d).ready = true → (s.lanes d).hasEvent s.edge = true ∨ (s.lanes d).polled = true) ∧
      (s.lanes d).timers.map (·.expiration) = (s.lanes d).deadline.toList
  /-- The event, once taken and dispatched, resumes the call if the socket lets it go on. -/
  resumed : ∀ d n more hup error reads writes s₁ s₂, (s.lanes d).pending = some n →
    (s.lanes d).ready = true →
    (((s.lanes d).awaiters n).tryIo (answersOf reads writes d)).2.isSome = true →
    step (.poll more) s = some s₁ → step (.dispatch hup error reads writes) s₁ = some s₂ →
      ∃ r, (r, true) ∈ ((s₂.lanes d).awaiters n).results
  /-- A timer that the loop runs is the one of the call that waits, and ends it. -/
  expires : ∀ d t s', step (.fire d t) s = some s' →
    ∃ n, (s.lanes d).pending = some n ∧ (s.lanes d).deadline = some t.expiration ∧
      t.expiration ≤ s.now ∧ (s'.lanes d).pending = none ∧
      (.error ETIMEDOUT, true) ∈ ((s'.lanes d).awaiters n).results
  /-- After a close nobody waits. -/
  closed : ∀ s', step .close s = some s' → ∀ d, (s'.lanes d).pending = none

theorem Inv.once (h : s.Inv) (hn : n < (s.lanes d).started) :
    ((s.lanes d).awaiters n).results.length =
      (if (s.lanes d).pending = some n ∨ ((s.lanes d).awaiters n).dropped = true then 0 else 1) ∧
    ∀ p ∈ ((s.lanes d).awaiters n).results,
      ((s.lanes d).awaiters n).result = some p.1 ∧ p.2 = ((s.lanes d).awaiters n).suspended := by
  by_cases hp : (s.lanes d).pending = some n
  · obtain ⟨kind, left, ha⟩ := ((h.sound d).held n hp).waiting
    simp [hp, ha]
  · have hs := (h.sound d).logged n hn hp
    unfold Awaiter.Settled at hs
    split_ifs at hs with hd
    · simp [hs, hd]
    · obtain ⟨r, hr, heq⟩ := hs
      simp [hp, hd, hr, heq]

theorem Inv.deadline (h : s.Inv) (hp : (s.lanes d).pending = some n) :
    (s.lanes d).timers.map (·.expiration) = (s.lanes d).deadline.toList := by
  have hx := h.sound d
  rw [hx.timers]
  cases ht : (s.lanes d).timer with
  | some t => rw [(hx.timer t ht).2.2]; rfl
  | none =>
    cases hd : (s.lanes d).deadline with
    | none => rfl
    | some t =>
      have harmed := hx.armed (by rw [hp]; rfl) (by rw [hd]; rfl)
      rw [ht] at harmed
      cases harmed

theorem Inv.idle_of_closed (h : s.Inv) (hfd : s.fdOpen = false) (d : Side) :
    (s.lanes d).pending = none := by
  rw [Option.eq_none_iff_forall_ne_some]
  intro n hp
  have hopen := ((h.sound d).held n hp).isOpen
  rw [hfd] at hopen
  cases hopen

theorem Inv.served (h : s.Inv) : s.Served where
  alive := h.alive
  once d n hn := h.once hn
  watched d n hp := by
    have hh := (h.sound d).held n hp
    exact ⟨hh.isOpen, hh.interest, hh.wakeup, h.deadline hp⟩
  resumed d n more hup error reads writes s₁ s₂ hp hready hio hpoll hdispatch := by
    obtain ⟨-, heq, hi₁⟩ := of_step hpoll h
    cases heq
    obtain ⟨he, heq₂, -⟩ := of_step hdispatch hi₁
    obtain ⟨hr, hw⟩ := Bool.and_eq_true_iff.mp he
    obtain ⟨lanes, heq, -, hres⟩ := hi₁.sound.handleEvent hr hw hup error
    cases heq.symm.trans heq₂
    refine hres d n _ ?_ (.inr ⟨hp, rfl⟩) hio
    rcases ((h.sound d).held n hp).wakeup hready with hev | hpolled
    · simp [hev]
    · simp [hpolled]
  expires d t s' hfire := by
    obtain ⟨he, heq, -⟩ := of_step hfire h
    obtain ⟨ht, hnow⟩ := of_decide_eq_true he
    obtain ⟨y, n, hy, hyi, hp, hd, hyp, hmem⟩ := (h.sound d).fire (d := d) ht
    obtain ⟨lanes, heq', -, rfl, -⟩ := h.sound.onLane (d := d)
      (f := fun x => { x with timers := x.timers.erase t }.handleDeadline d t.generation) hy hyi
    cases heq'.symm.trans heq
    exact ⟨n, hp, hd, hnow, hyp, hmem⟩
  closed s' hclose d := by
    obtain ⟨-, heq, hi⟩ := of_step hclose h
    obtain ⟨t, heq', -, hfd⟩ := h.closeNow
    cases heq'.symm.trans heq
    exact hi.idle_of_closed hfd d

/-- **Operations are served** in every run, edge-triggered and level-triggered. -/
theorem operations_served (h : system.Reaches s) : s.Served := (inv_of_reaches h).served

/-- A read waits with a deadline, its socket becomes ready, and its timer fires before the event is
taken. The next read waits with a timer of its own. -/
theorem operations_served_race : ∃ s, (system.Reaches s ∧
    ((s.lanes .read).awaiters 0).results = [(.error ETIMEDOUT, true)] ∧
    (s.lanes .read).pending = some 1) ∧ s.Served :=
  system.exists_reachesBy_and _ { edge := true } ⟨_, rfl⟩
    [.setDeadline .read (some 7) true, .start .read 0 true [] true, .becomeReady .read,
      .advanceClock 7, .fire .read ⟨7, 2⟩, .setDeadline .read (some 9) true,
      .start .recv 0 true [] true] (by decide) fun _ hr _ => operations_served hr

/-- **Completion.** In every run no check fails. A call has exactly one result, unless it waits or
its awaiter was destroyed while it waited, and then it has none. A continuation is scheduled with
the result of a call that was suspended, and of no other. -/
theorem completes_once (h : system.Reaches s) :
    s.aborted = false ∧ ∀ d, ∀ n < (s.lanes d).started,
      ((s.lanes d).awaiters n).results.length =
        (if (s.lanes d).pending = some n ∨ ((s.lanes d).awaiters n).dropped = true then 0 else 1) ∧
      ∀ p ∈ ((s.lanes d).awaiters n).results,
        ((s.lanes d).awaiters n).result = some p.1 ∧ p.2 = ((s.lanes d).awaiters n).suspended := by
  have hi := inv_of_reaches h
  exact ⟨hi.alive, fun d n hn => hi.once hn⟩

/-- A read waits until the peer sends three bytes, while a write is done at once. -/
theorem completes_once_edge : ∃ s, (system.Reaches s ∧
    ((s.lanes .read).awaiters 0).results = [(.ok 3, true)] ∧
    ((s.lanes .write).awaiters 0).results = [(.ok 0, false)]) ∧ s.aborted = false :=
  system.exists_reachesBy_and _ { edge := true } ⟨_, rfl⟩
    [.start .read 0 true [] true, .start .write 5 true [.ok 2, .ok 3] true, .becomeReady .read,
      .poll fun _ => false, .dispatch false none [.ok 3] []] (by decide)
    fun _ hr _ => (completes_once hr).1

/-- **No lost wakeup.** A call that waits has its direction watched and its deadline in the loop.
If the socket has become ready since it would have blocked, an event is on its way. -/
theorem waiting_watched (h : system.Reaches s) (hp : (s.lanes d).pending = some n) :
    s.fdOpen = true ∧ (s.lanes d).interest = true ∧
      ((s.lanes d).ready = true → (s.lanes d).hasEvent s.edge = true ∨ (s.lanes d).polled = true) ∧
      (s.lanes d).timers.map (·.expiration) = (s.lanes d).deadline.toList := by
  exact (inv_of_reaches h).served.watched d n hp

/-- A level-triggered read with a deadline, whose socket becomes ready. -/
theorem waiting_watched_level : ∃ s, (system.Reaches s ∧ (s.lanes .read).pending = some 0) ∧
    (s.lanes .read).timers.map (·.expiration) = (s.lanes .read).deadline.toList :=
  system.exists_reachesBy_and _ { edge := false } ⟨_, rfl⟩
    [.setDeadline .read (some 7) true, .start .recv 0 true [] true, .becomeReady .read] (by decide)
    fun _ hr hp => (waiting_watched hr hp).2.2.2

/-- **Progress.** Once the socket is ready, the next event that the loop takes and dispatches
resumes the call, if the socket lets it go on. -/
theorem ready_call_resumed {s₁ s₂ : Stream} {more : Side → Bool} {hup : Bool}
    {error : Option Error} {reads writes : List (Except Error ℕ)} (h : system.Reaches s)
    (hp : (s.lanes d).pending = some n) (hready : (s.lanes d).ready = true)
    (hio : (((s.lanes d).awaiters n).tryIo (answersOf reads writes d)).2.isSome = true)
    (hpoll : system.step (.poll more) s = some s₁)
    (hdispatch : system.step (.dispatch hup error reads writes) s₁ = some s₂) :
    ∃ r, (r, true) ∈ ((s₂.lanes d).awaiters n).results := by
  exact (inv_of_reaches h).served.resumed d n more hup error reads writes s₁ s₂ hp hready hio hpoll
    hdispatch

/-- A write of five bytes finds room for two, and later for three. -/
theorem ready_call_resumed_write : ∃ s s' : Stream, system.Reaches s ∧
    (s.lanes .write).pending = some 0 ∧
      ∃ r, (r, true) ∈ ((s'.lanes .write).awaiters 0).results := by
  obtain ⟨s, hr, hp, hready, hio, hsome⟩ := system.exists_reachesBy (fun _ _ => True)
    { edge := true } ⟨_, rfl⟩ [.start .write 5 true [.ok 2] true, .becomeReady .write]
    (P := fun s => (s.lanes .write).pending = some 0 ∧ (s.lanes .write).ready = true ∧
      (((s.lanes .write).awaiters 0).tryIo [.ok 3]).2.isSome = true ∧
      ((system.step (.poll fun _ => false) s).bind
        (system.step (.dispatch false none [] [.ok 3]))).isSome = true) (by decide)
  obtain ⟨s₂, hs⟩ := Option.isSome_iff_exists.mp hsome
  obtain ⟨s₁, hpoll, hdispatch⟩ := Option.bind_eq_some_iff.mp hs
  exact ⟨s, s₂, hr, hp, ready_call_resumed hr hp hready hio hpoll hdispatch⟩

/-- **Expiry.** A timer that the loop runs is the deadline of the call that waits, which is over
with `ETIMEDOUT`: none is left of an earlier call. -/
theorem timer_of_waiting_call {t : Timer} (h : system.Reaches s)
    (hfire : system.step (.fire d t) s = some s') :
    ∃ n, (s.lanes d).pending = some n ∧ (s.lanes d).deadline = some t.expiration ∧
      t.expiration ≤ s.now ∧ (s'.lanes d).pending = none ∧
      (.error ETIMEDOUT, true) ∈ ((s'.lanes d).awaiters n).results := by
  exact (inv_of_reaches h).served.expires d t s' hfire

/-- The deadline of a read passes. -/
theorem timer_of_waiting_call_read : ∃ s s' : Stream, system.Reaches s ∧
    system.step (.fire .read ⟨7, 2⟩) s = some s' ∧ ∃ n, (s.lanes .read).pending = some n := by
  obtain ⟨s, hr, hp⟩ := system.exists_reachesBy (fun _ _ => True) { edge := true } ⟨_, rfl⟩
    [.setDeadline .read (some 7) true, .start .read 0 true [] true, .advanceClock 7]
    (P := fun s => (system.step (.fire .read ⟨7, 2⟩) s).isSome) (by decide)
  obtain ⟨s', hfire⟩ := Option.isSome_iff_exists.mp hp
  obtain ⟨n, hn, -⟩ := timer_of_waiting_call hr hfire
  exact ⟨s, s', hr, hfire, n, hn⟩

/-- **Destruction.** Nothing of a destroyed stream is left in the loop, and each of its calls had
its result. -/
theorem destroyed_idle (h : system.Reaches s) (hd : s.destroyed = true) (d : Side) :
    (s.lanes d).pending = none ∧ (s.lanes d).timers = [] ∧
      ∀ n < (s.lanes d).started, ((s.lanes d).awaiters n).dropped = false →
        ∃ r, ((s.lanes d).awaiters n).result = some r := by
  have hi := inv_of_reaches h
  have hp := hi.idle_of_closed (hi.gone hd) d
  refine ⟨hp, ((hi.sound d).idle hp).2, fun n hn hdrop => ?_⟩
  have hs := (hi.sound d).logged n hn (by rw [hp]; nofun)
  rw [Awaiter.Settled, if_neg (by simp [hdrop])] at hs
  obtain ⟨r, hr, -⟩ := hs
  exact ⟨r, hr⟩

/-- A stream is destroyed while a read waits. -/
theorem destroyed_idle_read : ∃ s, (system.Reaches s ∧ s.destroyed = true ∧
    ((s.lanes .read).awaiters 0).suspended = true) ∧ (s.lanes .read).timers = [] :=
  system.exists_reachesBy_and _ { edge := true } ⟨_, rfl⟩
    [.setDeadline .read (some 7) true, .start .read 0 true [] true, .destroy] (by decide)
    fun _ hr hp => (destroyed_idle hr hp.1 .read).2.1

end Stream

end Alyrn.Epoll
