import Mathlib.Tactic.Common
import Alyrn.Net.Awaiters

/-!
# Listener

The part of a uring listener that its accept source shares with it: the descriptor, the accepts
that may still use it, and the close that waits for them.
-/

namespace Alyrn.Uring

open Net

/-- `FdCloseConvergence`: a close waits for its own cancel request and for every operation that
can still use the descriptor. -/
structure FdCloseConvergence where
  cancelRequestTerminal : Bool := false
  completed : Bool := false
  deriving DecidableEq, Repr

def FdCloseConvergence.tryAuthorizeClose (c : FdCloseConvergence) (operationsPending : Bool) :
    Option FdCloseConvergence :=
  if c.completed = true ∨ c.cancelRequestTerminal = false ∨ operationsPending = true then none
  else some { c with completed := true }

/-- The source that holds a listener's `accept_source_`: the one under consideration, or another
one on the same listener. -/
inductive SourceOwner where
  | this
  | other
  deriving DecidableEq, Repr

/-- A listener, as its accept source sees it. -/
structure Listener where
  fdOpen : Bool
  closed : Bool
  pendingAccepts : ℕ
  acceptSource : Option SourceOwner
  pendingClose : Option (ℕ × FdCloseConvergence)
  closeCalls : ℕ
  closes : List (ℕ × Except Error Unit)
  closeResult : Except Error Unit

namespace Listener

def make (closeResult : Except Error Unit) : Listener where
  fdOpen := true
  closed := false
  pendingAccepts := 0
  acceptSource := none
  pendingClose := none
  closeCalls := 0
  closes := []
  closeResult := closeResult

variable (l : Listener)

def closeFd : Except Error Unit × Listener :=
  if l.fdOpen then (l.closeResult, { l with fdOpen := false }) else (.ok (), l)

def completeClose (awaiter : ℕ) (r : Except Error Unit) : Listener :=
  { l with closes := complete l.closes awaiter r }

/-- `CloseAwaiter::TryComplete` of the parked close, if there is one: `NotifyCloseProgress`. -/
def notifyCloseProgress : Listener :=
  match l.pendingClose with
  | none => l
  | some (awaiter, convergence) =>
    match convergence.tryAuthorizeClose (l.pendingAccepts ≠ 0) with
    | none => l
    | some _ =>
      let (r, l) := { l with pendingClose := none }.closeFd
      l.completeClose awaiter r

def onCloseCancelComplete : Listener :=
  notifyCloseProgress { l with
    pendingClose := l.pendingClose.map fun (awaiter, convergence) =>
      (awaiter, { convergence with cancelRequestTerminal := true }) }

/-- The end of another accept: `ReleaseListenerReservation` of its awaiter. -/
def releaseAccept : Listener :=
  notifyCloseProgress { l with pendingAccepts := l.pendingAccepts - 1 }

variable {l}

theorem notifyCloseProgress_frame : l.notifyCloseProgress.closed = l.closed ∧
    l.notifyCloseProgress.pendingAccepts = l.pendingAccepts ∧
    l.notifyCloseProgress.acceptSource = l.acceptSource := by
  unfold notifyCloseProgress closeFd completeClose
  split
  · exact ⟨rfl, rfl, rfl⟩
  · split
    · exact ⟨rfl, rfl, rfl⟩
    · split_ifs <;> exact ⟨rfl, rfl, rfl⟩

end Listener

end Alyrn.Uring
