import Alyrn.Lib.Chain
import Alyrn.Lib.While

/-!
# `IntrusiveQueue` on a heap of nodes

A family of queues over shared nodes. A queue is a node of its own, `head_`, and a pointer to its
last node; the elements hang on a circular chain that leaves the head and comes back to it. Being
queued is nothing but a `next_` that is not null.

The functions are the source's, write by write, on the links of all nodes at once. `none` stands
for a null pointer that is followed, or for a head that is taken for an element. The loops of
`Clear` and `ForEachSafe` take a bound on their passes.
-/

namespace Alyrn.Detail

open Chain Function

/-- The links of all nodes, heads included, and the tail pointers. -/
structure IntrusiveQueues (κ ν : Type) where
  next : Cell κ ν → Option (Cell κ ν)
  tail : κ → Cell κ ν

namespace IntrusiveQueues

variable {κ ν : Type}

def initial : IntrusiveQueues κ ν where
  next
    | .head q => some (.head q)
    | .elem _ => none
  tail := .head

variable (h : IntrusiveQueues κ ν)

def inQueue (x : ν) : Bool := (h.next (.elem x)).isSome

variable [DecidableEq κ] [DecidableEq ν]

def setNext (c : Cell κ ν) (p : Option (Cell κ ν)) : IntrusiveQueues κ ν :=
  { h with next := update h.next c p }

def setTail (q : κ) (c : Cell κ ν) : IntrusiveQueues κ ν :=
  { h with tail := update h.tail q c }

def reset (q : κ) : IntrusiveQueues κ ν :=
  (h.setNext (.head q) (some (.head q))).setTail q (.head q)

def empty (q : κ) : Bool := h.next (.head q) = some (.head q)

def front (q : κ) : Option ν := if h.empty q then none else (h.next (.head q)).bind Cell.elem?

def pushBack (q : κ) : Option ν → Bool × IntrusiveQueues κ ν
  | none => (false, h)
  | some x =>
    if h.inQueue x then (false, h)
    else
      let h := h.setNext (h.tail q) (some (.elem x))
      let h := h.setNext (.elem x) (some (.head q))
      (true, h.setTail q (.elem x))

def popFront (q : κ) : Option (Option ν × IntrusiveQueues κ ν) :=
  if h.next (.head q) = some (.head q) then some (none, h)
  else do
    let node ← h.next (.head q)
    let x ← node.elem?
    let next := h.next node
    let h := h.setNext (.head q) next
    let h := h.setNext node none
    let h := if next = some (.head q) then h.setTail q (.head q) else h
    return (some x, h)

/-- One pass of the loop of `Clear`, which holds `cur`. -/
def clearBody (q : κ) (s : Option (Cell κ ν) × IntrusiveQueues κ ν) :
    Option ((Option (Cell κ ν) × IntrusiveQueues κ ν) ⊕ IntrusiveQueues κ ν) :=
  let (cur, h) := s
  if cur = some (.head q) then some (.inr h)
  else do
    let cur ← cur
    return .inl (h.next cur, h.setNext cur none)

def clear (n : ℕ) (q : κ) : Option (IntrusiveQueues κ ν) :=
  (While.exec (clearBody q) n (h.next (.head q), h)).map (·.reset q)

def splice (q other : κ) : IntrusiveQueues κ ν :=
  if other = q then h
  else if h.empty other then h
  else
    let first := h.next (.head other)
    let last := h.tail other
    let h := h.setNext (h.tail q) first
    let h := h.setNext last (some (.head q))
    let h := h.setTail q last
    h.reset other

/-- One pass of the loop of `ForEachSafe`, which holds `prev` and `cur`. -/
def forEachBody (q : κ) (fn : ν → Bool)
    (s : Cell κ ν × Option (Cell κ ν) × IntrusiveQueues κ ν) :
    Option ((Cell κ ν × Option (Cell κ ν) × IntrusiveQueues κ ν) ⊕ IntrusiveQueues κ ν) :=
  let (prev, cur, h) := s
  if cur = some (.head q) then some (.inr h)
  else do
    let cur ← cur
    let x ← cur.elem?
    let next := h.next cur
    if fn x then
      let h := h.setNext prev next
      let h := if h.tail q = cur then h.setTail q prev else h
      return .inl (prev, next, h.setNext cur none)
    else return .inl (cur, next, h)

/-- `ForEachSafe` with the predicate `fn`, which says which elements leave the queue. -/
def forEachSafe (n : ℕ) (q : κ) (fn : ν → Bool) : Option (IntrusiveQueues κ ν) :=
  While.exec (forEachBody q fn) n (.head q, h.next (.head q), h)

/-! ## Sequences of calls -/

/-- The public calls. -/
inductive Call (κ ν : Type) where
  | pushBack (q : κ) (x : Option ν)
  | popFront (q : κ)
  | forEachSafe (q : κ) (fn : ν → Bool)
  | splice (q other : κ)
  | clear (q : κ)

inductive Answer (ν : Type) where
  | pushed (ok : Bool)
  | popped (x : Option ν)
  | done
  deriving DecidableEq, Repr

def call (n : ℕ) : Call κ ν → Option (Answer ν × IntrusiveQueues κ ν)
  | .pushBack q x => some ((h.pushBack q x).map .pushed id)
  | .popFront q => (h.popFront q).map (Prod.map .popped id)
  | .forEachSafe q fn => (h.forEachSafe n q fn).map (.done, ·)
  | .splice q other => some (.done, h.splice q other)
  | .clear q => (h.clear n q).map (.done, ·)

/-- The calls in order, with a bound `n` on the passes of each loop, and their answers. -/
def calls (n : ℕ) : List (Call κ ν) → IntrusiveQueues κ ν →
    Option (List (Answer ν) × IntrusiveQueues κ ν)
  | [], h => some ([], h)
  | c :: cs, h => do
    let (answer, h) ← h.call n c
    let (answers, h) ← calls n cs h
    return (answer :: answers, h)

end IntrusiveQueues

end Alyrn.Detail
