import Alyrn.Lib.Chain
import Alyrn.Lib.While

/-!
# `IntrusiveList` on a heap of nodes

A family of doubly linked lists over shared nodes. A list is its sentinel `head_`; the nodes hang
on a circular chain in each direction. Being linked is nothing but a `next_` that is not null.

The functions are the source's, write by write, on the links of all nodes at once. `none` stands
for a null pointer that is followed, or for a sentinel that is taken for an element. The predicate
of `RemoveIf` may change the links itself.
-/

namespace Alyrn.Detail

open Chain Function

/-- The hooks of all lists: a head per list `κ`, a node per element `ν`. -/
structure IntrusiveLists (κ ν : Type) where
  next : Cell κ ν → Option (Cell κ ν)
  prev : Cell κ ν → Option (Cell κ ν)

namespace IntrusiveLists

variable {κ ν : Type}

def initial : IntrusiveLists κ ν where
  next
    | .head k => some (.head k)
    | .elem _ => none
  prev
    | .head k => some (.head k)
    | .elem _ => none

variable (h : IntrusiveLists κ ν)

def inList (x : ν) : Bool := (h.next (.elem x)).isSome

variable [DecidableEq κ] [DecidableEq ν]

def setNext (c : Cell κ ν) (p : Option (Cell κ ν)) : IntrusiveLists κ ν :=
  { h with next := update h.next c p }

def setPrev (c : Cell κ ν) (p : Option (Cell κ ν)) : IntrusiveLists κ ν :=
  { h with prev := update h.prev c p }

def clearHook (c : Cell κ ν) : IntrusiveLists κ ν := (h.setPrev c none).setNext c none

/-- The neighbours of the node are linked to each other. -/
def spliceOut (node : Cell κ ν) : Option (IntrusiveLists κ ν) := do
  let before ← h.prev node
  let h := h.setNext before (h.next node)
  let after ← h.next node
  return h.setPrev after (h.prev node)

def linkBetween (node before after : Cell κ ν) : IntrusiveLists κ ν :=
  let h := h.setPrev node (some before)
  let h := h.setNext node (some after)
  let h := h.setNext before (some node)
  h.setPrev after (some node)

def unlink (node : Cell κ ν) : Option (IntrusiveLists κ ν) :=
  (h.spliceOut node).map (·.clearHook node)

def reset (k : κ) : IntrusiveLists κ ν :=
  (h.setNext (.head k) (some (.head k))).setPrev (.head k) (some (.head k))

def empty (k : κ) : Bool := h.next (.head k) = some (.head k)

def pushFront (k : κ) : Option ν → Option (Bool × IntrusiveLists κ ν)
  | none => some (false, h)
  | some x =>
    if h.inList x then some (false, h)
    else do
      let first ← h.next (.head k)
      return (true, h.linkBetween (.elem x) (.head k) first)

def pushBack (k : κ) : Option ν → Option (Bool × IntrusiveLists κ ν)
  | none => some (false, h)
  | some x =>
    if h.inList x then some (false, h)
    else do
      let last ← h.prev (.head k)
      return (true, h.linkBetween (.elem x) last (.head k))

def popFront (k : κ) : Option (Option ν × IntrusiveLists κ ν) :=
  if h.empty k then some (none, h)
  else do
    let node ← h.next (.head k)
    let h ← h.unlink node
    let x ← node.elem?
    return (some x, h)

/-- `Erase`, which does not look at the list that it is called on. -/
def erase : Option ν → Option (Bool × IntrusiveLists κ ν)
  | none => some (false, h)
  | some x => if h.inList x then (h.unlink (.elem x)).map (true, ·) else some (false, h)

/-- One pass of the loop of `RemoveIf`, which holds `cur`. The predicate sees the links and a
state of its own. -/
def removeIfBody {σ : Type} (k : κ)
    (pred : ν → IntrusiveLists κ ν × σ → Option (Bool × IntrusiveLists κ ν × σ))
    (s : Option (Cell κ ν) × IntrusiveLists κ ν × σ) :
    Option ((Option (Cell κ ν) × IntrusiveLists κ ν × σ) ⊕ (IntrusiveLists κ ν × σ)) :=
  let (cur, h, t) := s
  if cur = some (.head k) then some (.inr (h, t))
  else do
    let cur ← cur
    let x ← cur.elem?
    let next := h.next cur
    let (remove, h, t) ← pred x (h, t)
    let h ← if remove then h.unlink cur else some h
    return .inl (next, h, t)

/-- `RemoveIf` with a predicate without side effects. It is asked once about each node, so that its
answers are a function of the node. The loops take a bound on their passes. -/
def removeIf (n : ℕ) (k : κ) (pred : ν → Bool) : Option (IntrusiveLists κ ν) :=
  (While.exec (removeIfBody k fun x s => some (pred x, s)) n (h.next (.head k), h, ())).map (·.1)

/-- One pass of the loop of `Clear`, which holds `cur`. -/
def clearBody (k : κ) (s : Option (Cell κ ν) × IntrusiveLists κ ν) :
    Option ((Option (Cell κ ν) × IntrusiveLists κ ν) ⊕ IntrusiveLists κ ν) :=
  let (cur, h) := s
  if cur = some (.head k) then some (.inr h)
  else do
    let cur ← cur
    return .inl (h.next cur, h.clearHook cur)

def clear (n : ℕ) (k : κ) : Option (IntrusiveLists κ ν) :=
  (While.exec (clearBody k) n (h.next (.head k), h)).map (·.reset k)

def splice (k other : κ) : Option (IntrusiveLists κ ν) :=
  if other = k then some h
  else if h.empty other then some h
  else do
    let first ← h.next (.head other)
    let last ← h.prev (.head other)
    let tail ← h.prev (.head k)
    let h := h.setNext tail (some first)
    let h := h.setPrev first (some tail)
    let h := h.setNext last (some (.head k))
    let h := h.setPrev (.head k) (some last)
    return h.reset other

/-! ## Sequences of calls -/

/-- The public calls. -/
inductive Call (κ ν : Type) where
  | pushFront (k : κ) (x : Option ν)
  | pushBack (k : κ) (x : Option ν)
  | popFront (k : κ)
  | erase (x : Option ν)
  | removeIf (k : κ) (pred : ν → Bool)
  | splice (k other : κ)
  | clear (k : κ)

inductive Answer (ν : Type) where
  | did (ok : Bool)
  | popped (x : Option ν)
  | done
  deriving DecidableEq, Repr

def call (n : ℕ) : Call κ ν → Option (Answer ν × IntrusiveLists κ ν)
  | .pushFront k x => (h.pushFront k x).map (Prod.map .did id)
  | .pushBack k x => (h.pushBack k x).map (Prod.map .did id)
  | .popFront k => (h.popFront k).map (Prod.map .popped id)
  | .erase x => (h.erase x).map (Prod.map .did id)
  | .removeIf k pred => (h.removeIf n k pred).map (.done, ·)
  | .splice k other => (h.splice k other).map (.done, ·)
  | .clear k => (h.clear n k).map (.done, ·)

/-- The calls in order, with a bound `n` on the passes of each loop, and their answers. -/
def calls (n : ℕ) : List (Call κ ν) → IntrusiveLists κ ν →
    Option (List (Answer ν) × IntrusiveLists κ ν)
  | [], h => some ([], h)
  | c :: cs, h => do
    let (answer, h) ← h.call n c
    let (answers, h) ← calls n cs h
    return (answer :: answers, h)

end IntrusiveLists

end Alyrn.Detail
