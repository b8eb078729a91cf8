import Mathlib
import Alyrn.Net.SourceState

/-!
# The requests of a multishot source

What the uring receive and accept source have in common: one multishot request, one cancel request
aimed at it, and the first error that ended the source. `M` is the source's admission machine.

Every `SubmitOp` asks the environment, whose answers for the current step stand in `answers`; an
exhausted list answers with success. `inFlight` and `cancelInFlight` are the kernel's side: a
request is in flight from its submission to its terminal completion.
-/

namespace Alyrn.Uring

/-- What both sources have: a machine `M`, a request and its cancel request. -/
structure SourceControl (M : Type) where
  state : M
  submitted : Bool
  cancelSubmitted : Bool
  terminalError : Option Error
  inFlight : Bool
  cancelInFlight : Bool
  answers : List (Option Error)
  /-- An `ALYRN_CHECK` has failed, or a null pointer was followed: the process is gone. -/
  aborted : Bool
  deriving DecidableEq, Repr

namespace SourceControl

variable {M : Type}

def create (state : M) : SourceControl M where
  state := state
  submitted := false
  cancelSubmitted := false
  terminalError := none
  inFlight := false
  cancelInFlight := false
  answers := []
  aborted := false

variable (c : SourceControl M)

def submitOp : Option Error × SourceControl M :=
  match c.answers with
  | [] => (none, c)
  | a :: answers => (a, { c with answers })

def startCancel : Option Error × SourceControl M :=
  if c.submitted = false ∨ c.cancelSubmitted = true then (none, c)
  else
    match c.submitOp with
    | (some e, c) => (some e, c)
    | (none, c) => (none, { c with cancelSubmitted := true, cancelInFlight := true })

def requestBackendStop (requestStop : M → M) (error : Option Error) : SourceControl M :=
  let c := { c with terminalError := c.terminalError.or error }
  let c := { c with state := requestStop c.state }
  if c.submitted = true ∧ c.cancelSubmitted = false then
    match c.startCancel with
    | (some e, c) => { c with terminalError := c.terminalError.or (some e) }
    | (none, c) => c
  else c

/-- `RequestBackendPause`; the result of `RequestPause` is ignored. -/
def requestBackendPause (requestPause : M → Except Error M) (requestStop : M → M) :
    SourceControl M :=
  let c := { c with state := (requestPause c.state).toOption.getD c.state }
  if c.submitted = true ∧ c.cancelSubmitted = false then
    match c.startCancel with
    | (some e, c) => c.requestBackendStop requestStop (some e)
    | (none, c) => c
  else c

/-- The kernel has exactly the requests that the source believes to be in flight. -/
def InStep (c : SourceControl M) : Prop :=
  c.inFlight = c.submitted ∧ c.cancelInFlight = c.cancelSubmitted

/-! ## What the requests leave alone -/

variable {c : SourceControl M}

theorem startCancel_frame : c.startCancel.2.state = c.state ∧
    c.startCancel.2.submitted = c.submitted ∧ c.startCancel.2.inFlight = c.inFlight ∧
    c.startCancel.2.terminalError = c.terminalError ∧ c.startCancel.2.aborted = c.aborted := by
  unfold startCancel submitOp
  split_ifs
  · exact ⟨rfl, rfl, rfl, rfl, rfl⟩
  · rcases c.answers with _ | ⟨_ | e, answers⟩ <;> exact ⟨rfl, rfl, rfl, rfl, rfl⟩

@[simp] theorem startCancel_state : c.startCancel.2.state = c.state := startCancel_frame.1

@[simp] theorem startCancel_submitted : c.startCancel.2.submitted = c.submitted :=
  startCancel_frame.2.1

@[simp] theorem startCancel_aborted : c.startCancel.2.aborted = c.aborted :=
  startCancel_frame.2.2.2.2

theorem InStep.startCancel (h : c.InStep) : c.startCancel.2.InStep := by
  unfold SourceControl.startCancel submitOp
  split_ifs
  · exact h
  · rcases c.answers with _ | ⟨_ | e, answers⟩
    · exact ⟨h.1, rfl⟩
    · exact ⟨h.1, rfl⟩
    · exact h

section

variable {requestStop : M → M} {requestPause : M → Except Error M} {error : Option Error}

theorem requestBackendStop_eq :
    c.requestBackendStop requestStop error =
      let c₁ := { c with terminalError := c.terminalError.or error, state := requestStop c.state }
      { c₁.startCancel.2 with terminalError := c₁.terminalError.or c₁.startCancel.1 } := by
  unfold requestBackendStop startCancel
  dsimp only
  by_cases h : c.submitted = true ∧ c.cancelSubmitted = false
  · rw [if_pos h, if_neg (by simp [h.1, h.2])]
    unfold submitOp
    rcases c.answers with _ | ⟨_ | e, answers⟩ <;> simp
  · rw [if_neg h, if_pos (by cases hs : c.submitted <;> simp_all)]
    simp

@[simp] theorem requestBackendStop_state :
    (c.requestBackendStop requestStop error).state = requestStop c.state := by
  simp [requestBackendStop_eq]

@[simp] theorem requestBackendStop_submitted :
    (c.requestBackendStop requestStop error).submitted = c.submitted := by
  simp [requestBackendStop_eq]

@[simp] theorem requestBackendStop_aborted :
    (c.requestBackendStop requestStop error).aborted = c.aborted := by
  simp [requestBackendStop_eq]

theorem requestBackendStop_terminalError (h : c.terminalError.isSome ∨ error.isSome) :
    (c.requestBackendStop requestStop error).terminalError.isSome := by
  rw [requestBackendStop_eq]
  rcases h with h | h <;> simp [h]

theorem InStep.requestBackendStop (h : c.InStep) :
    (c.requestBackendStop requestStop error).InStep := by
  rw [requestBackendStop_eq]
  exact InStep.startCancel (c := { c with
    terminalError := c.terminalError.or error, state := requestStop c.state }) h

theorem requestBackendPause_cases (c : SourceControl M) (requestPause : M → Except Error M)
    (requestStop : M → M) :
    ∃ m, m = (requestPause c.state).toOption.getD c.state ∧
      let c' := c.requestBackendPause requestPause requestStop
      (c'.submitted = c.submitted ∧ c'.aborted = c.aborted ∧ (c.InStep → c'.InStep)) ∧
      (c'.state = m ∧ c'.terminalError = c.terminalError ∨
        c'.state = requestStop m ∧ c'.terminalError.isSome) := by
  refine ⟨_, rfl, ?_⟩
  unfold requestBackendPause
  set c₁ := { c with state := (requestPause c.state).toOption.getD c.state } with hc₁
  by_cases h : c₁.submitted = true ∧ c₁.cancelSubmitted = false
  · rw [if_pos h]
    have hstep : c.InStep → c₁.startCancel.2.InStep := fun hi => InStep.startCancel (c := c₁) hi
    have hf := startCancel_frame (c := c₁)
    rcases hsc : c₁.startCancel with ⟨_ | e, c₂⟩
    · rw [hsc] at hstep hf
      exact ⟨⟨hf.2.1, hf.2.2.2.2, hstep⟩, .inl ⟨hf.1, hf.2.2.2.1⟩⟩
    · rw [hsc] at hstep hf
      refine ⟨⟨?_, ?_, fun hi => (hstep hi).requestBackendStop⟩, .inr ⟨?_, ?_⟩⟩
      · simpa using hf.2.1
      · simpa using hf.2.2.2.2
      · simpa using congrArg requestStop hf.1
      · exact requestBackendStop_terminalError (.inr rfl)
  · rw [if_neg h]
    exact ⟨⟨rfl, rfl, id⟩, .inl ⟨rfl, rfl⟩⟩

end

end SourceControl

end Alyrn.Uring
