import Mathlib.Tactic.Common
import Alyrn.Detail.OperationLifecycle
import Alyrn.Result

/-!
# Completion events and operations

The raw completion that the loop hands to an operation: a result and the flags that qualify it.
An operation, `Op`, is what the completion is addressed to: it records one result and carries the
work that resumes the waiting coroutine.
-/

namespace Alyrn.Uring

/-- `IORING_CQE_F_BUFFER`, `IORING_CQE_F_MORE`, `IORING_CQE_F_NOTIF`, `IORING_CQE_F_BUF_MORE`. -/
def cqeBuffer : BitVec 32 := 1
def cqeMore : BitVec 32 := 2
def cqeNotif : BitVec 32 := 8
def cqeBufMore : BitVec 32 := 16

def cqeBufferShift : ℕ := 16

/-- A completion queue entry. -/
structure CompletionEvent where
  result : ℤ
  flags : BitVec 32
  deriving DecidableEq, Repr

namespace CompletionEvent

variable (e : CompletionEvent)

def more : Bool := e.flags &&& cqeMore ≠ 0

def notification : Bool := e.flags &&& cqeNotif ≠ 0

def bufferMore : Bool := e.flags &&& cqeBufMore ≠ 0

def hasSelectedBuffer : Bool := e.flags &&& cqeBuffer ≠ 0

def selectedBufferId : ℕ := (e.flags >>> cqeBufferShift).toNat

/-- `ZeroCopyWasCopied`: bit 31 of the result, `IORING_NOTIF_USAGE_ZC_COPIED`. -/
def zeroCopyWasCopied : Bool := (BitVec.ofInt 32 e.result).getLsbD 31

end CompletionEvent

def bufferFlags (id : ℕ) (more : Bool) : BitVec 32 :=
  BitVec.ofNat 32 id <<< cqeBufferShift ||| cqeBuffer ||| if more then cqeMore else 0

/-- `IsExpectedCancelCqeResult`: the outcomes of a cancel request while its target converges on
its own. -/
def isExpectedCancelCqeResult (result : ℤ) : Bool :=
  0 ≤ result ∨ result = -ENOENT ∨ result = -EALREADY ∨ result = -ECANCELED

/-! ## Operations -/

/-- The kinds of operations. -/
inductive OpKind where
  | none
  | acceptComplete
  | acceptSourceComplete
  | acceptSourceCancelComplete
  | recvSourceComplete
  | recvSourceCancelComplete
  | sendZeroCopyComplete
  | listenerCloseComplete
  | readComplete
  | recvComplete
  | recvCopyComplete
  | writeComplete
  | streamCloseComplete
  | streamReadCancelComplete
  | streamWriteCancelComplete
  | timerDriverComplete
  | timerControlComplete
  | connect
  | connectCancelComplete
  | wake
  | cancelAll
  | nop
  deriving DecidableEq, Repr

inductive CompletionModel where
  | singleShot
  | eventStream
  | splitRelease
  deriving DecidableEq, Repr

def completionModelFor : OpKind → CompletionModel
  | .acceptSourceComplete | .recvSourceComplete => .eventStream
  | .sendZeroCopyComplete => .splitRelease
  | _ => .singleShot

def usesCoupledSingleResultLifecycle : OpKind → Bool
  | .readComplete | .recvComplete | .recvCopyComplete | .writeComplete | .acceptComplete
  | .connect => true
  | _ => false

def cqeResultDirectlyPublishesLogicalResult : OpKind → Bool
  | .readComplete | .recvComplete | .writeComplete => true
  | _ => false

/-- An operation. Coroutines are numbered by the awaiter they wait at. -/
structure Op where
  kind : OpKind
  handle : Option ℕ := Option.none
  result : Option ℤ := Option.none
  completed : Bool := false
  lifecycle : SingleResultLifecycle := .pending
  deriving DecidableEq, Repr

namespace Op

variable (op : Op)

def setResult (value : ℤ) : Option Op :=
  if op.result.isNone then some { op with result := some value } else Option.none

/-- `TryRecordCqeCompletion` of an operation whose slot is not settled. -/
def recordCqe (value : ℤ) : Option Op := do
  let op ← { op with completed := true }.setResult value
  if cqeResultDirectlyPublishesLogicalResult op.kind then
    let lifecycle ← op.lifecycle.tryAuthorizeResult
    some { op with lifecycle }
  else
    some op

def setImmediateSuccess : Option Op := op.setResult 0

def setImmediateError (e : Error) : Option Op :=
  if 0 < e then op.setResult (-e) else Option.none

def setImmediate : Except Error ℕ → Option Op
  | .ok _ => op.setImmediateSuccess
  | .error e => op.setImmediateError e

/-- `TryAuthorizeCoupledResult`, `TryAuthorizeCoupledRelease` and
`TryAuthorizeCoupledContinuation` are one check of the kind and one transition. -/
def tryAuthorizeCoupled (transition : SingleResultLifecycle → Option SingleResultLifecycle) :
    Option Op :=
  if usesCoupledSingleResultLifecycle op.kind then
    (transition op.lifecycle).map fun lifecycle => { op with lifecycle }
  else
    Option.none

def tryAuthorizeCoupledResult : Option Op :=
  op.tryAuthorizeCoupled SingleResultLifecycle.tryAuthorizeResult

def tryAuthorizeCoupledRelease : Option Op :=
  op.tryAuthorizeCoupled SingleResultLifecycle.tryAuthorizeRelease

def tryAuthorizeCoupledContinuation : Option Op :=
  op.tryAuthorizeCoupled SingleResultLifecycle.tryAuthorizeContinuation

/-- The checks of `apply_disposition` before the work of an operation is scheduled: a coupled
operation authorizes its continuation, another one settles its completion slot. -/
def authorizeResume : Option Op :=
  if usesCoupledSingleResultLifecycle op.kind then op.tryAuthorizeCoupledContinuation
  else some { op with completed := true }

def beginNextRequest : Op :=
  { op with completed := false, lifecycle := .pending, result := Option.none,
            handle := Option.none }

end Op

end Alyrn.Uring
