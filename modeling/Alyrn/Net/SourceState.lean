import Mathlib.Tactic.Common
import Alyrn.Result

/-!
# The lifecycle of a source

The receive and the accept admission machine move through the same states. Each keeps its own
counters; what a move depends on is only the number of armed requests and whether everything the
source holds for its consumer has been given up (`drained`): queued events for an accept source,
queued events and buffer leases for a receive source. Every move keeps what the state says about
the two (`SourceState.Consistent`).
-/

namespace Alyrn.Net

/-- The states of a source. -/
inductive SourceState where
  | idle
  | active
  | pausing
  | paused
  | stopping
  | draining
  | terminal
  deriving DecidableEq, Repr

/-- Whether the request stays armed. -/
inductive MultishotRequestDisposition where
  | more
  | terminal
  deriving DecidableEq, Repr

/-- What a completion brought. -/
inductive EventDisposition where
  | none
  | produced
  /-- Handed to a consumer that already waits, past the bounded queue (receive sources only). -/
  | delivered
  deriving DecidableEq, Repr

def queuedBy (event : EventDisposition) : ℕ := if event = .produced then 1 else 0
def endedBy (request : MultishotRequestDisposition) : ℕ := if request = .terminal then 1 else 0

namespace SourceState

def reconcilePause (armed : ℕ) (st : SourceState) : SourceState :=
  if st = .pausing ∧ armed = 0 then .paused else st

def reconcileStopping (armed : ℕ) (drained : Bool) (st : SourceState) : SourceState :=
  match st.reconcilePause armed with
  | .stopping => if armed ≠ 0 then .stopping else if drained then .terminal else .draining
  | .draining => if drained ∧ armed = 0 then .terminal else .draining
  | st => st

def requestPause (armed : ℕ) : SourceState → Except Error SourceState
  | .idle => .error EINVAL
  | .active => .ok (reconcilePause armed .pausing)
  | st => .ok st

def requestStop (armed : ℕ) (drained : Bool) : SourceState → SourceState
  | .idle => .terminal
  | .active | .pausing | .paused => reconcileStopping armed drained .stopping
  | st => st

/-- Nothing is armed, and the two ends of the lifecycle hold nothing. -/
structure Settled (st : SourceState) (armed : ℕ) (drained : Bool) : Prop where
  quiet : st = .idle ∨ st = .paused ∨ st = .draining ∨ st = .terminal → armed = 0
  ends : st = .idle ∨ st = .terminal → drained = true

/-- What a state says about the requests and the held events of its machine. -/
structure Consistent (st : SourceState) (armed : ℕ) (drained : Bool) : Prop
    extends Settled st armed drained where
  waiting : st = .pausing ∨ st = .stopping → armed ≠ 0
  draining : st = .draining → drained = false

variable {st : SourceState} {armed : ℕ} {drained : Bool}

theorem consistent_active : Consistent .active armed drained :=
  ⟨⟨by simp, by simp⟩, by simp, by simp⟩

@[simp] theorem reconcileStopping_active : reconcileStopping armed drained .active = .active := by
  simp [reconcileStopping, reconcilePause]

theorem reconcileStopping_consistent (h : Settled st armed drained) :
    Consistent (st.reconcileStopping armed drained) armed drained := by
  unfold reconcileStopping reconcilePause
  cases st with
  | idle | terminal | active | paused => exact ⟨h, by simp, by simp⟩
  | pausing =>
    by_cases ha : armed = 0
    · simpa [ha] using ⟨⟨by simp, by simp⟩, by simp, by simp⟩
    · simpa [ha] using ⟨h, by simp [ha], by simp⟩
  | stopping =>
    by_cases ha : armed = 0
    · cases drained <;> simpa [ha] using ⟨⟨by simp, by simp⟩, by simp, by simp⟩
    · simpa [ha] using ⟨h, by simp [ha], by simp⟩
  | draining =>
    have ha : armed = 0 := h.quiet (by simp)
    cases drained <;> simpa [ha] using ⟨⟨by simp, by simp⟩, by simp, by simp⟩

theorem reconcileStopping_origin :
    (st.reconcileStopping armed drained = .active → st = .active) ∧
      (st.reconcileStopping armed drained = .pausing ∨
        st.reconcileStopping armed drained = .paused → st = .pausing ∨ st = .paused) ∧
      (st.reconcileStopping armed drained = .idle → st = .idle) := by
  unfold reconcileStopping reconcilePause
  by_cases ha : armed = 0 <;> cases drained <;> cases st <;> simp [ha]

theorem reconcileStopping_eq {drained' : Bool} (h : Consistent st armed drained') :
    st.reconcileStopping armed drained =
      if st = .draining ∧ drained = true then .terminal else st := by
  unfold reconcileStopping reconcilePause
  cases st with
  | idle | active | paused | terminal => simp
  | pausing | stopping => simp [h.waiting]
  | draining => simp [h.quiet]

section

variable (h : Consistent st armed drained)
include h

theorem requestPause_consistent {st' : SourceState}
    (hp : st.requestPause armed = .ok st') : Consistent st' armed drained := by
  cases st with
  | idle => simp [requestPause] at hp
  | active =>
    obtain rfl : reconcilePause armed .pausing = st' := by simpa [requestPause] using hp
    by_cases ha : armed = 0
    · rw [reconcilePause, if_pos ⟨rfl, ha⟩]
      exact ⟨⟨fun _ => ha, by simp⟩, by simp, by simp⟩
    · rw [reconcilePause, if_neg (fun hc => ha hc.2)]
      exact ⟨⟨by simp, by simp⟩, fun _ => ha, by simp⟩
  | pausing | paused | stopping | draining | terminal =>
    cases hp
    exact h

theorem requestStop_consistent : Consistent (st.requestStop armed drained) armed drained := by
  have hstop : Settled .stopping armed drained := ⟨by simp, by simp⟩
  cases st with
  | idle =>
    have ha := h.quiet (by simp)
    have hd := h.ends (by simp)
    exact ⟨⟨fun _ => ha, fun _ => hd⟩, by simp [requestStop], by simp [requestStop]⟩
  | active | pausing | paused => exact reconcileStopping_consistent hstop
  | stopping | draining | terminal => exact h

theorem requestStop_eq :
    st.requestStop armed drained =
      if armed ≠ 0 then .stopping else if drained then .terminal else .draining := by
  cases st with
  | idle | terminal => simp [requestStop, h.quiet, h.ends]
  | active | pausing | paused =>
    simp [requestStop, reconcileStopping, reconcilePause]
  | stopping => simp [requestStop, h.waiting]
  | draining => simp [requestStop, h.quiet, h.draining]

end

/-- A source that has been asked to stop. -/
def Stopped (st : SourceState) : Prop := st = .stopping ∨ st = .draining ∨ st = .terminal

theorem stopped_requestStop : (st.requestStop armed drained).Stopped := by
  cases st with
  | idle | terminal => exact .inr (.inr rfl)
  | stopping => exact .inl rfl
  | draining => exact .inr (.inl rfl)
  | active | pausing | paused =>
    unfold requestStop reconcileStopping reconcilePause
    by_cases ha : armed = 0 <;> cases drained <;> simp [ha, Stopped]

theorem Stopped.reconcileStopping (h : st.Stopped) :
    (st.reconcileStopping armed drained).Stopped := by
  unfold SourceState.reconcileStopping reconcilePause
  rcases h with rfl | rfl | rfl
  · by_cases ha : armed = 0 <;> cases drained <;> simp [ha, Stopped]
  · by_cases ha : armed = 0 <;> cases drained <;> simp [ha, Stopped]
  · simp [Stopped]

theorem Stopped.requestStop (h : st.Stopped) : st.requestStop armed drained = st := by
  rcases h with rfl | rfl | rfl <;> rfl

theorem Stopped.ne (h : st.Stopped) :
    st ≠ .active ∧ st ≠ .pausing ∧ st ≠ .paused ∧ st ≠ .idle := by
  rcases h with rfl | rfl | rfl <;> simp

theorem Stopped.requestPause (h : st.Stopped) {st' : SourceState}
    (hp : st.requestPause armed = .ok st') : st' = st := by
  rcases h with rfl | rfl | rfl <;> exact (Except.ok.inj hp).symm

end SourceState

end Alyrn.Net
