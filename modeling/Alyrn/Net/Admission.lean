import Alyrn.Lib.Transition
import Alyrn.Net.AcceptSourceState
import Alyrn.Net.RecvSourceState

/-!
# Admission

The two admission machines, under any sequence of calls. What is said of them is said once, of a
machine that shows its counters (`Admission`), and holds of both (`admission_kept`).

A machine that has been asked to stop is `stopping`, `draining` or `terminal` from then on
(`SourceState.Stopped`); in these states nothing is armed and nothing resumes.
-/

namespace Alyrn.Net

open Transition

/-! ## What both machines show -/

/-- The state and the counters of a machine, with their bounds. An accept machine has no leases. -/
structure Counters where
  state : SourceState
  queued : ℕ
  armed : ℕ
  leases : ℕ
  eventCapacity : ℕ
  bufferCapacity : ℕ
  pendingDepth : ℕ

/-- The counters keep their bounds and agree with the state. -/
structure Counters.Kept (c : Counters) : Prop where
  queued_le : c.queued ≤ c.eventCapacity
  leases_le : c.leases ≤ c.bufferCapacity
  armed_le : c.armed ≤ c.pendingDepth
  ends : c.state = .idle ∨ c.state = .terminal → c.queued = 0 ∧ c.armed = 0 ∧ c.leases = 0
  quiet : c.state = .paused ∨ c.state = .draining → c.armed = 0
  waiting : c.state = .pausing ∨ c.state = .stopping → c.armed ≠ 0
  draining : c.state = .draining → c.queued ≠ 0 ∨ c.leases ≠ 0

/-- A machine `M` with its public calls `C`. Every call of the source makes its tests before its
first write, so a call that is refused has no successor of its own. -/
structure Admission (M C : Type) where
  create : M → Prop
  call : C → M → Option M
  counters : M → Counters
  tryArm : C
  tryResume : C
  requestStop : C

namespace Admission

variable {M C : Type} (A : Admission M C)

/-- A call, and whether it was accepted. -/
def perform (c : C) (m : M) : Bool × M :=
  match A.call c m with
  | some m' => (true, m')
  | none => (false, m)

def run (cs : List C) (m : M) : M := cs.foldl (fun m c => (A.perform c m).2) m

def system : System M C where
  init := A.create
  step c m := some (A.perform c m).2

/-- The machine stays stopped under `c`, and nothing is armed again. -/
structure Stays (c : C) (m : M) : Prop where
  stopped : (A.counters (A.perform c m).2).state.Stopped
  armed_le : (A.counters (A.perform c m).2).armed ≤ (A.counters m).armed
  arm_refused : (A.perform A.tryArm m).1 = false
  resume_refused : (A.perform A.tryResume m).1 = false

/-- What admission promises of a reachable machine. -/
structure Sound (m : M) : Prop where
  kept : (A.counters m).Kept
  /-- This is how refused calls are modelled: in the source, every test comes before a write. -/
  refused : ∀ c, (A.perform c m).1 = false → (A.perform c m).2 = m
  /-- `TryArm` arms one request of an active machine, and changes nothing else. -/
  armed : (A.perform A.tryArm m).1 = true → (A.counters m).state = .active ∧
    A.counters (A.perform A.tryArm m).2 = { A.counters m with armed := (A.counters m).armed + 1 }
  /-- `TryResume` makes a paused machine active, and changes nothing else. -/
  resumed : (A.perform A.tryResume m).1 = true → (A.counters m).state = .paused ∧
    A.counters (A.perform A.tryResume m).2 = { A.counters m with state := .active }
  /-- After a stop request, no call of any sequence arms or resumes. -/
  stopped : (A.perform A.requestStop m).1 = true ∧
    ∀ cs c, A.Stays c (A.run cs (A.perform A.requestStop m).2)
  absorbing : (A.counters m).state = .terminal → ∀ c, (A.perform c m).2 = m
  arms : (A.counters m).state = .active → (A.counters m).armed = 0 → (A.counters m).queued = 0 →
    (A.counters m).leases = 0 → (A.perform A.tryArm m).1 = true
  resumes : (A.counters m).state = .paused → (A.counters m).queued = 0 →
    (A.perform A.tryResume m).1 = true

variable {A} {m : M} {c : C}

theorem perform_of_some {m' : M} (h : A.call c m = some m') : A.perform c m = (true, m') := by
  unfold perform
  rw [h]

theorem perform_of_none (h : A.call c m = none) : A.perform c m = (false, m) := by
  unfold perform
  rw [h]

theorem perform_refused (h : (A.perform c m).1 = false) : (A.perform c m).2 = m := by
  cases hc : A.call c m with
  | none => rw [perform_of_none hc]
  | some m' =>
    rw [perform_of_some hc] at h
    cases h

theorem perform_keeps {P : M → Prop} (h : P m) (hc : ∀ m', A.call c m = some m' → P m') :
    P (A.perform c m).2 := by
  cases hcall : A.call c m with
  | none =>
    rw [perform_of_none hcall]
    exact h
  | some m' =>
    rw [perform_of_some hcall]
    exact hc m' hcall

/-- **The run lemma.** A property that every accepted call keeps is kept by every sequence of
calls. -/
theorem run_keeps {P : M → Prop} (hc : ∀ c m m', P m → A.call c m = some m' → P m') (cs : List C)
    (h : P m) : P (A.run cs m) := by
  induction cs generalizing m with
  | nil => exact h
  | cons c cs ih => exact ih (perform_keeps h fun m' => hc c m m' h)

/-- What has to be shown of a machine with the invariant `I`. -/
structure Lawful (A : Admission M C) (I : M → Prop) : Prop where
  created : ∀ m, A.create m → I m
  called : ∀ m c m', I m → A.call c m = some m' → I m'
  kept : ∀ m, I m → (A.counters m).Kept
  stop : ∀ m, ∃ m', A.call A.requestStop m = some m' ∧ (A.counters m').state.Stopped
  stopped : ∀ m c m', (A.counters m).state.Stopped → A.call c m = some m' →
    (A.counters m').state.Stopped ∧ (A.counters m').armed ≤ (A.counters m).armed
  terminal : ∀ m c m', I m → (A.counters m).state = .terminal → A.call c m = some m' → m' = m
  armed : ∀ m m', A.call A.tryArm m = some m' → (A.counters m).state = .active ∧
    A.counters m' = { A.counters m with armed := (A.counters m).armed + 1 }
  resumed : ∀ m m', A.call A.tryResume m = some m' → (A.counters m).state = .paused ∧
    A.counters m' = { A.counters m with state := .active }
  arms : ∀ m, I m → (A.counters m).state = .active → (A.counters m).armed = 0 →
    (A.counters m).queued = 0 → (A.counters m).leases = 0 → (A.call A.tryArm m).isSome = true
  resumes : ∀ m, I m → (A.counters m).state = .paused → (A.counters m).queued = 0 →
    (A.call A.tryResume m).isSome = true

variable {I : M → Prop}

theorem perform_accepted (h : (A.call c m).isSome = true) : (A.perform c m).1 = true := by
  obtain ⟨m', hm'⟩ := Option.isSome_iff_exists.mp h
  rw [perform_of_some hm']

theorem call_of_accepted (h : (A.perform c m).1 = true) : A.call c m = some (A.perform c m).2 := by
  cases hc : A.call c m with
  | none =>
    rw [perform_of_none hc] at h
    cases h
  | some m' => rw [perform_of_some hc]

theorem Lawful.stays (h : A.Lawful I) (hs : (A.counters m).state.Stopped) (c : C) :
    A.Stays c m := by
  have hrefused {c : C} {st : SourceState} (hst : st = .active ∨ st = .paused)
      (hc : ∀ m', A.call c m = some m' → (A.counters m).state = st) :
      (A.perform c m).1 = false := by
    cases hcall : A.call c m with
    | none => rw [perform_of_none hcall]
    | some m' =>
      exfalso
      rw [hc m' hcall] at hs
      rcases hs with hs | hs | hs <;> subst hs <;> simp at hst
  have hkeeps := perform_keeps (A := A) (c := c)
    (P := fun m' => (A.counters m').state.Stopped ∧ (A.counters m').armed ≤ (A.counters m).armed)
    ⟨hs, Nat.le_refl _⟩ fun m' hc => h.stopped m c m' hs hc
  exact ⟨hkeeps.1, hkeeps.2, hrefused (.inl rfl) fun m' hc => (h.armed m m' hc).1,
    hrefused (.inr rfl) fun m' hc => (h.resumed m m' hc).1⟩

theorem Lawful.sound (h : A.Lawful I) (hm : I m) : A.Sound m where
  kept := h.kept m hm
  refused _ := perform_refused
  armed ha := h.armed m _ (call_of_accepted ha)
  resumed hr := h.resumed m _ (call_of_accepted hr)
  stopped := by
    obtain ⟨m', hcall, hs⟩ := h.stop m
    rw [perform_of_some hcall]
    refine ⟨rfl, fun cs c => h.stays ?_ c⟩
    exact run_keeps (P := fun m => (A.counters m).state.Stopped)
      (fun c m m' hm hc => (h.stopped m c m' hm hc).1) cs hs
  absorbing hs c := perform_keeps (P := fun m' => m' = m) rfl fun m' => h.terminal m c m' hm hs
  arms hs ha hq hl := perform_accepted (h.arms m hm hs ha hq hl)
  resumes hs hq := perform_accepted (h.resumes m hm hs hq)

theorem Lawful.sound_of_reaches (h : A.Lawful I) (hr : A.system.Reaches m) : A.Sound m := by
  refine h.sound (hr.invariant h.created ?_)
  intro m c m' hm _ hstep
  cases hstep
  exact perform_keeps hm fun m' => h.called m c m' hm

end Admission

/-! ## The receive machine -/

theorem toOption_eq_some {α : Type} {r : Except Error α} {a : α} (h : r.toOption = some a) :
    r = .ok a := by
  cases r with
  | error e => cases h
  | ok b => rw [Option.some.inj h]

/-- The public calls. -/
inductive RecvCall where
  | start
  | tryArm
  | requestPause
  | tryResume
  | completeMultishotEvent (event : EventDisposition) (request : MultishotRequestDisposition)
  | acquireEvent
  | discardQueuedEvent
  | releaseLease
  | requestStop
  deriving DecidableEq, Repr

namespace RecvSourceStateMachine

variable {m m' : RecvSourceStateMachine}

def call (m : RecvSourceStateMachine) : RecvCall → Option RecvSourceStateMachine
  | .start => m.start.toOption
  | .tryArm => m.tryArm
  | .requestPause => m.requestPause.toOption
  | .tryResume => m.tryResume
  | .completeMultishotEvent event request => (m.completeMultishotEvent event request).toOption
  | .acquireEvent => m.acquireEvent
  | .discardQueuedEvent => m.discardQueuedEvent
  | .releaseLease => m.releaseLease
  | .requestStop => some m.requestStop

def admission : Admission RecvSourceStateMachine RecvCall where
  create m := ∃ options, create options = .ok m
  call c m := m.call c
  counters m :=
    { state := m.state, queued := m.queuedEvents, armed := m.armedRequests,
      leases := m.outstandingLeases, eventCapacity := m.options.eventCapacity,
      bufferCapacity := m.options.bufferCapacity, pendingDepth := m.options.pendingDepth }
  tryArm := .tryArm
  tryResume := .tryResume
  requestStop := .requestStop

theorem start_ok (h : m.start = .ok m') : m.state = .idle ∧ m' = { m with state := .active } := by
  unfold start at h
  split_ifs at h with hs
  exact ⟨not_not.mp hs, (Except.ok.inj h).symm⟩

theorem tryArm_some (h : m.tryArm = some m') :
    m.canArm = true ∧ m' = { m with armedRequests := m.armedRequests + 1 } := by
  unfold tryArm at h
  split_ifs at h with hc
  exact ⟨hc, (Option.some.inj h).symm⟩

theorem tryResume_some (h : m.tryResume = some m') :
    m.state = .paused ∧ m' = { m with state := .active } := by
  unfold tryResume at h
  split_ifs at h with hc
  exact ⟨by_contra fun hx => hc (.inl hx), (Option.some.inj h).symm⟩

/-- **Every accepted call keeps the machine consistent.** -/
theorem Consistent.call (h : m.Consistent) {c : RecvCall} (hc : m.call c = some m') :
    m'.Consistent := by
  cases c with
  | start =>
    obtain ⟨-, rfl⟩ := start_ok (toOption_eq_some hc)
    exact h.activate
  | tryArm =>
    obtain ⟨harm, rfl⟩ := tryArm_some hc
    exact h.arm harm
  | requestPause => exact h.requestPause (toOption_eq_some hc)
  | tryResume =>
    obtain ⟨-, rfl⟩ := tryResume_some hc
    exact h.activate
  | completeMultishotEvent event request => exact h.completeMultishotEvent (toOption_eq_some hc)
  | acquireEvent | discardQueuedEvent => exact h.dropQueuedEvent hc
  | releaseLease => exact h.releaseLease hc
  | requestStop =>
    cases hc
    exact h.requestStop

theorem stopped_call (h : m.state.Stopped) {c : RecvCall} (hc : m.call c = some m') :
    m'.state.Stopped ∧ m'.armedRequests ≤ m.armedRequests ∧ (m.state = .terminal → m' = m ∨
      m.armedRequests ≠ 0 ∨ m.queuedEvents ≠ 0 ∨ m.outstandingLeases ≠ 0) := by
  cases c with
  | start => exact absurd (start_ok (toOption_eq_some hc)).1 h.ne.2.2.2
  | tryArm => exact absurd (canArm_iff.mp (tryArm_some hc).1).1 h.ne.1
  | requestPause =>
    obtain ⟨st, hst, rfl⟩ := requestPause_ok (toOption_eq_some hc)
    obtain rfl := h.requestPause hst
    exact ⟨h, Nat.le_refl _, fun _ => .inl rfl⟩
  | tryResume => exact absurd (tryResume_some hc).1 h.ne.2.2.1
  | completeMultishotEvent event request =>
    obtain ⟨⟨ha, -⟩, rfl⟩ := completeMultishotEvent_ok (toOption_eq_some hc)
    exact ⟨h.reconcileStopping, Nat.sub_le _ _, fun _ => .inr (.inl ha)⟩
  | acquireEvent | discardQueuedEvent =>
    have hc : m.dropQueuedEvent = some m' := hc
    have hq : m.queuedEvents ≠ 0 := fun hq => by simp [dropQueuedEvent, hq] at hc
    rw [dropQueuedEvent_eq hq] at hc
    cases hc
    exact ⟨h.reconcileStopping, Nat.le_refl _, fun _ => .inr (.inr (.inl hq))⟩
  | releaseLease =>
    have hc : m.releaseLease = some m' := hc
    have hl : m.outstandingLeases ≠ 0 := fun hl => by simp [releaseLease, hl] at hc
    rw [releaseLease_eq hl] at hc
    cases hc
    exact ⟨h.reconcileStopping, Nat.le_refl _, fun _ => .inr (.inr (.inr hl))⟩
  | requestStop =>
    cases hc
    exact ⟨SourceState.stopped_requestStop, Nat.le_refl _,
      fun _ => .inl (congrArg ({ m with state := · }) h.requestStop)⟩

theorem Consistent.kept (h : m.Consistent) : (admission.counters m).Kept where
  queued_le := h.queued_le
  leases_le := h.leases_le
  armed_le := h.armed_le
  ends hs := by
    obtain ⟨hq, hl⟩ := drained_iff.mp (h.lifecycle.ends hs)
    exact ⟨hq, h.lifecycle.quiet (hs.elim .inl fun hs => .inr (.inr (.inr hs))), hl⟩
  quiet hs := h.lifecycle.quiet (hs.elim (fun hs => .inr (.inl hs)) fun hs => .inr (.inr (.inl hs)))
  waiting := h.lifecycle.waiting
  draining hs := by
    have hd := h.lifecycle.draining hs
    by_contra hx
    rw [not_or, not_not, not_not] at hx
    rw [drained_iff.mpr hx] at hd
    cases hd

theorem lawful : admission.Lawful Consistent where
  created := by
    rintro m ⟨options, hc⟩
    exact (create_ok hc).1
  called _ _ _ h hc := h.call hc
  kept _ h := h.kept
  stop m := ⟨m.requestStop, rfl, SourceState.stopped_requestStop⟩
  stopped _ _ _ h hc := (stopped_call h hc).imp_right And.left
  terminal _ _ _ h hs hc := by
    obtain ⟨hq, ha, hl⟩ := h.kept.ends (.inr hs)
    exact ((stopped_call (.inr (.inr hs)) hc).2.2 hs).resolve_right (by simp_all [admission])
  armed _ _ hc := by
    obtain ⟨harm, rfl⟩ := tryArm_some hc
    exact ⟨(canArm_iff.mp harm).1, rfl⟩
  resumed _ _ hc := by
    obtain ⟨hs, rfl⟩ := tryResume_some hc
    exact ⟨hs, rfl⟩
  arms m h hs ha hq hl := by
    have harm : m.tryArm = some { m with armedRequests := m.armedRequests + 1 } :=
      if_pos (h.canArm_of_empty hs ha hq hl)
    exact congrArg Option.isSome harm
  resumes m _ hs hq := by
    have hs : m.state = .paused := hs
    have hq : m.queuedEvents = 0 := hq
    simp [admission, call, tryResume, hs, hq]

end RecvSourceStateMachine

/-! ## The accept machine -/

/-- The public calls. -/
inductive AcceptCall where
  | start
  | tryArm
  | requestPause
  | tryResume
  | completeRequest (producedEvent : Bool)
  | completeMultishotEvent (event : EventDisposition) (request : MultishotRequestDisposition)
  | consumeEvent
  | requestStop
  deriving DecidableEq, Repr

namespace AcceptSourceStateMachine

variable {m m' : AcceptSourceStateMachine}

def call (m : AcceptSourceStateMachine) : AcceptCall → Option AcceptSourceStateMachine
  | .start => m.start.toOption
  | .tryArm => m.tryArm
  | .requestPause => m.requestPause.toOption
  | .tryResume => m.tryResume
  | .completeRequest producedEvent => (m.completeRequest producedEvent).toOption
  | .completeMultishotEvent event request => (m.completeMultishotEvent event request).toOption
  | .consumeEvent => m.consumeEvent
  | .requestStop => some m.requestStop

def admission : Admission AcceptSourceStateMachine AcceptCall where
  create m := ∃ options, create options = .ok m
  call c m := m.call c
  counters m :=
    { state := m.state, queued := m.queuedEvents, armed := m.armedRequests, leases := 0,
      eventCapacity := m.options.eventCapacity, bufferCapacity := 0,
      pendingDepth := m.options.pendingDepth }
  tryArm := .tryArm
  tryResume := .tryResume
  requestStop := .requestStop

theorem start_ok (h : m.start = .ok m') : m.state = .idle ∧ m' = { m with state := .active } := by
  unfold start at h
  split_ifs at h with hs
  exact ⟨not_not.mp hs, (Except.ok.inj h).symm⟩

theorem tryArm_some (h : m.tryArm = some m') :
    m.canArm = true ∧ m' = { m with armedRequests := m.armedRequests + 1 } := by
  rw [tryArm_eq] at h
  split_ifs at h with hc
  exact ⟨hc, (Option.some.inj h).symm⟩

theorem tryResume_some (h : m.tryResume = some m') :
    m.state = .paused ∧ m' = { m with state := .active } := by
  unfold tryResume at h
  split_ifs at h with hc
  exact ⟨by_contra fun hx => hc (.inl hx), (Option.some.inj h).symm⟩

theorem requestPause_ok (h : m.requestPause = .ok m') :
    ∃ st, m.state.requestPause m.armedRequests = .ok st ∧ m' = { m with state := st } := by
  unfold requestPause at h
  cases hs : m.state.requestPause m.armedRequests with
  | error e => rw [hs] at h; cases h
  | ok st =>
    rw [hs] at h
    exact ⟨st, rfl, (Except.ok.inj h).symm⟩

theorem completeMultishotEvent_ok {event : EventDisposition}
    {request : MultishotRequestDisposition} (h : m.completeMultishotEvent event request = .ok m') :
    m.admits event ∧ m' = (m.counted event request).reconcileStopping := by
  have hadmits : m.admits event := by
    unfold completeMultishotEvent at h
    split_ifs at h with ha hd hp
    all_goals exact ⟨ha, hd, fun he => Nat.not_le.mp fun hle => hp ⟨he, hle⟩⟩
  rw [completeMultishotEvent_of_admits request hadmits] at h
  exact ⟨hadmits, (Except.ok.inj h).symm⟩

theorem consumeEvent_some (h : m.consumeEvent = some m') : m.queuedEvents ≠ 0 ∧
    m' = { m with queuedEvents := m.queuedEvents - 1 }.reconcileStopping := by
  unfold consumeEvent at h
  split_ifs at h with hq
  exact ⟨hq, (Option.some.inj h).symm⟩

/-- **Every accepted call keeps the machine consistent.** -/
theorem Consistent.call (h : m.Consistent) {c : AcceptCall} (hc : m.call c = some m') :
    m'.Consistent := by
  cases c with
  | start =>
    obtain ⟨-, rfl⟩ := start_ok (toOption_eq_some hc)
    exact h.activate
  | tryArm =>
    obtain ⟨harm, rfl⟩ := tryArm_some hc
    exact h.arm harm
  | requestPause =>
    obtain ⟨st, hst, rfl⟩ := requestPause_ok (toOption_eq_some hc)
    exact { h with lifecycle := SourceState.requestPause_consistent h.lifecycle hst }
  | tryResume =>
    obtain ⟨-, rfl⟩ := tryResume_some hc
    exact h.activate
  | completeRequest producedEvent =>
    have hc := toOption_eq_some hc
    rw [completeRequest_eq] at hc
    obtain ⟨ha, rfl⟩ := completeMultishotEvent_ok hc
    exact h.completed .terminal ha
  | completeMultishotEvent event request =>
    obtain ⟨ha, rfl⟩ := completeMultishotEvent_ok (toOption_eq_some hc)
    exact h.completed request ha
  | consumeEvent =>
    obtain ⟨hq, rfl⟩ := consumeEvent_some hc
    exact (h.consumed hq).1
  | requestStop =>
    cases hc
    exact h.requestStop

theorem stopped_call (h : m.state.Stopped) {c : AcceptCall} (hc : m.call c = some m') :
    m'.state.Stopped ∧ m'.armedRequests ≤ m.armedRequests ∧ (m.state = .terminal → m' = m ∨
      m.armedRequests ≠ 0 ∨ m.queuedEvents ≠ 0) := by
  have hcompleted {event : EventDisposition} {request : MultishotRequestDisposition}
      (hok : m.completeMultishotEvent event request = .ok m') : m'.state.Stopped ∧
      m'.armedRequests ≤ m.armedRequests ∧ (m.state = .terminal → m' = m ∨
        m.armedRequests ≠ 0 ∨ m.queuedEvents ≠ 0) := by
    obtain ⟨ha, rfl⟩ := completeMultishotEvent_ok hok
    exact ⟨h.reconcileStopping, Nat.sub_le _ _, fun _ => .inr (.inl ha.1)⟩
  cases c with
  | start => exact absurd (start_ok (toOption_eq_some hc)).1 h.ne.2.2.2
  | tryArm => exact absurd (canArm_iff.mp (tryArm_some hc).1).1 h.ne.1
  | requestPause =>
    obtain ⟨st, hst, rfl⟩ := requestPause_ok (toOption_eq_some hc)
    obtain rfl := h.requestPause hst
    exact ⟨h, Nat.le_refl _, fun _ => .inl rfl⟩
  | tryResume => exact absurd (tryResume_some hc).1 h.ne.2.2.1
  | completeRequest producedEvent =>
    exact hcompleted (completeRequest_eq .. ▸ toOption_eq_some hc)
  | completeMultishotEvent event request => exact hcompleted (toOption_eq_some hc)
  | consumeEvent =>
    obtain ⟨hq, rfl⟩ := consumeEvent_some hc
    exact ⟨h.reconcileStopping, Nat.le_refl _, fun _ => .inr (.inr hq)⟩
  | requestStop =>
    cases hc
    exact ⟨SourceState.stopped_requestStop, Nat.le_refl _,
      fun _ => .inl (congrArg ({ m with state := · }) h.requestStop)⟩

theorem Consistent.kept (h : m.Consistent) : (admission.counters m).Kept where
  queued_le := h.queued_le
  leases_le := Nat.le_refl _
  armed_le := h.armed_le
  ends hs := ⟨drained_iff.mp (h.lifecycle.ends hs),
    h.lifecycle.quiet (hs.elim .inl fun hs => .inr (.inr (.inr hs))), rfl⟩
  quiet hs := h.lifecycle.quiet (hs.elim (fun hs => .inr (.inl hs)) fun hs => .inr (.inr (.inl hs)))
  waiting := h.lifecycle.waiting
  draining hs := by
    have hd := h.lifecycle.draining hs
    refine .inl fun hx => ?_
    rw [drained_iff.mpr hx] at hd
    cases hd

theorem lawful : admission.Lawful Consistent where
  created := by
    rintro m ⟨options, hc⟩
    exact (create_ok hc).1
  called _ _ _ h hc := h.call hc
  kept _ h := h.kept
  stop m := ⟨m.requestStop, rfl, SourceState.stopped_requestStop⟩
  stopped _ _ _ h hc := (stopped_call h hc).imp_right And.left
  terminal _ _ _ h hs hc := by
    obtain ⟨hq, ha, -⟩ := h.kept.ends (.inr hs)
    exact ((stopped_call (.inr (.inr hs)) hc).2.2 hs).resolve_right (by simp_all [admission])
  armed _ _ hc := by
    obtain ⟨harm, rfl⟩ := tryArm_some hc
    exact ⟨(canArm_iff.mp harm).1, rfl⟩
  resumed _ _ hc := by
    obtain ⟨hs, rfl⟩ := tryResume_some hc
    exact ⟨hs, rfl⟩
  arms m h hs ha hq _ := by
    have hq : m.queuedEvents = 0 := hq
    obtain ⟨hd, hcap, -⟩ := AcceptSourceOptions.valid_iff.mp h.valid
    have harm : m.tryArm = some { m with armedRequests := m.armedRequests + 1 } := by
      rw [tryArm_eq, if_pos (h.canArm_of_room hs ha (by omega))]
    exact congrArg Option.isSome harm
  resumes m _ hs hq := by
    have hs : m.state = .paused := hs
    have hq : m.queuedEvents = 0 := hq
    simp [admission, call, tryResume, hs, hq]

end AcceptSourceStateMachine

/-! ## Both machines -/

/-- **The admission machines keep their counters and states consistent** under every sequence of
calls: refused calls change nothing, an accepted one makes its own change only, a stop is for good,
and admission does not starve. -/
theorem admission_kept :
    (∀ m, RecvSourceStateMachine.admission.system.Reaches m →
      RecvSourceStateMachine.admission.Sound m) ∧
    ∀ m, AcceptSourceStateMachine.admission.system.Reaches m →
      AcceptSourceStateMachine.admission.Sound m :=
  ⟨fun _ h => RecvSourceStateMachine.lawful.sound_of_reaches h,
    fun _ h => AcceptSourceStateMachine.lawful.sound_of_reaches h⟩

/-- A receive machine that drains with a lease out, and an accept machine that has paused. -/
theorem admission_kept_runs :
    (∃ m, (RecvSourceStateMachine.admission.system.Reaches m ∧ m.state = .draining) ∧
      RecvSourceStateMachine.admission.Sound m) ∧
    ∃ m, (AcceptSourceStateMachine.admission.system.Reaches m ∧ m.state = .paused) ∧
      AcceptSourceStateMachine.admission.Sound m := by
  obtain ⟨m, hr, hm⟩ := RecvSourceStateMachine.admission.system.exists_reachesBy (fun _ _ => True)
    { options := {}, state := .idle, queuedEvents := 0, armedRequests := 0, outstandingLeases := 0 }
    ⟨{}, rfl⟩ [.start, .tryArm, .completeMultishotEvent .produced .terminal, .acquireEvent,
      .requestStop] (P := fun m => m.state = .draining) (by decide)
  obtain ⟨n, hr', hn⟩ := AcceptSourceStateMachine.admission.system.exists_reachesBy
    (fun _ _ => True) { options := {}, state := .idle, queuedEvents := 0, armedRequests := 0 }
    ⟨{}, rfl⟩ [.start, .tryArm, .requestPause, .completeRequest true]
    (P := fun m => m.state = .paused) (by decide)
  exact ⟨⟨m, ⟨hr, hm⟩, admission_kept.1 m hr⟩,
    n, ⟨hr', hn⟩, admission_kept.2 n hr'⟩

end Alyrn.Net
