import Mathlib.Algebra.GroupWithZero.Nat
import Mathlib.Logic.Function.Basic
import Alyrn.Lib.Slice
import Alyrn.Lib.Transition

/-!
# `net::Buffer`

A move-only chain of blocks. Bytes are read from the front block on and written behind the last
one, either by `Append` or through a reservation: `PrepareWrite` marks the tail and new blocks, a
writer fills the ranges it returned, and `CommitWrite` makes some of their bytes readable.

A block has an address, so that a returned range names storage and not a place in the chain. What
`new` answers is given with each call, with the indeterminate contents of the storage, and `none` is
`std::bad_alloc`. A failed check ends the run. Loops that only test a condition get a number of
turns; running out of them is a failed check of its own.
-/

namespace Alyrn.Net

open Transition

/-- The checks of `Buffer`: those on its caller, and those on itself. -/
inductive BufferCheck where
  | nestedPrepareWrite
  | reservedWithoutPrepareWrite
  | commitWithoutPrepareWrite
  | commitExceedsReserved
  | mutationDuringReservation
  | linearizePastReadable
  | movingPendingReservation
  | reservationTooSmall
  | reservationInconsistent
  | noFront
  /-- A loop is still running after its turns. -/
  | running
  deriving DecidableEq, Repr

def BufferCheck.isMisuse : BufferCheck → Bool
  | .nestedPrepareWrite | .reservedWithoutPrepareWrite | .commitWithoutPrepareWrite
  | .commitExceedsReserved | .mutationDuringReservation | .linearizePastReadable
  | .movingPendingReservation => true
  | _ => false

/-- `Block`: the readable bytes are those in `[readPos, writePos)`. -/
structure Block (β : Type) where
  address : ℕ
  data : List β
  readPos : ℕ
  writePos : ℕ
  reservedForWrite : Bool
  readPos_le : readPos ≤ writePos
  writePos_le : writePos ≤ data.length

/-- A range of bytes in a block. -/
structure Iovec where
  address : ℕ
  offset : ℕ
  length : ℕ
  deriving DecidableEq, Repr

namespace Block

variable {β : Type}

def create (address : ℕ) (data : List β) : Block β where
  address
  data
  readPos := 0
  writePos := 0
  reservedForWrite := false
  readPos_le := Nat.le_refl 0
  writePos_le := Nat.zero_le _

def capacity (k : Block β) : ℕ := k.data.length

def readableBytes (k : Block β) : ℕ := k.writePos - k.readPos

def writableBytes (k : Block β) : ℕ := k.capacity - k.writePos

def readable (k : Block β) : List β := (k.data.take k.writePos).drop k.readPos

def writable (k : Block β) : List β := k.data.drop k.writePos

theorem length_splice_take (data xs : List β) (off : ℕ) :
    (data.splice off (xs.take (data.length - off))).length = data.length := by
  rcases Nat.lt_or_ge data.length off with h | h
  · simp [List.splice, Nat.sub_eq_zero_of_le (Nat.le_of_lt h)]
  · refine List.length_splice ?_
    rw [List.length_take]
    omega

def store (off : ℕ) (xs : List β) (k : Block β) : Block β :=
  { k with
    data := k.data.splice off (xs.take (k.data.length - off))
    writePos_le := by rw [length_splice_take]; exact k.writePos_le }

def commit (n : ℕ) (k : Block β) : Block β :=
  { k with
    writePos := k.writePos + min n k.writableBytes
    readPos_le := Nat.le_trans k.readPos_le (Nat.le_add_right ..)
    writePos_le := by
      have := k.writePos_le
      unfold writableBytes capacity
      omega }

def drain (n : ℕ) (k : Block β) : Block β :=
  { k with
    readPos := k.readPos + min n k.readableBytes
    readPos_le := by
      have := k.readPos_le
      unfold readableBytes
      omega }

def reserve (flag : Bool) (k : Block β) : Block β := { k with reservedForWrite := flag }

def writeIov (k : Block β) : Iovec := ⟨k.address, k.writePos, k.writableBytes⟩

end Block

/-- What `new` answers for the block at an address: the contents of its storage, or nothing. -/
abbrev Alloc (β : Type) := ℕ → Option (ℕ → β)

def newBlock {β : Type} (alloc : Alloc β) (next capacity : ℕ) : Option (Block β) :=
  (alloc next).map fun garbage => .create next ((List.range capacity).map garbage)

/-- A `Buffer`: its chain of blocks, its counters and its reservation. -/
structure Buffer (β : Type) where
  blocks : List (Block β)
  readableBytes : ℕ
  blockSize : ℕ
  writeReserved : Bool
  reservedBytes : ℕ

/-- What a call left: whether an exception left it, the ranges it returned, the buffer and the next
address. -/
structure Outcome (β : Type) where
  threw : Bool
  ranges : List Iovec
  buffer : Buffer β
  next : ℕ

namespace Buffer

variable {β : Type}

def create (blockSize : ℕ) : Buffer β where
  blocks := []
  readableBytes := 0
  blockSize := max blockSize 1
  writeReserved := false
  reservedBytes := 0

def clearWriteReservation (b : Buffer β) : Buffer β :=
  if b.writeReserved = false then b
  else { b with
    blocks := b.blocks.map (Block.reserve false)
    writeReserved := false
    reservedBytes := 0 }

def clear (b : Buffer β) : Buffer β :=
  { b.clearWriteReservation with blocks := [], readableBytes := 0 }

/-! ## Append -/

def ensureOneTailBlock (alloc : Alloc β) (hint : ℕ) (b : Buffer β) (next : ℕ) :
    Option (Buffer β × ℕ) :=
  let grow : Option (Buffer β × ℕ) :=
    (newBlock alloc next (max b.blockSize hint)).map fun k =>
      ({ b with blocks := b.blocks ++ [k] }, next + 1)
  match b.blocks.getLast? with
  | some tail => if 0 < tail.writableBytes then some (b, next) else grow
  | none => grow

def appendLoop (alloc : Alloc β) : ℕ → List β → Buffer β → ℕ → Except BufferCheck (Outcome β)
  | 0, xs, b, next => if xs = [] then .ok ⟨false, [], b, next⟩ else .error .running
  | turns + 1, xs, b, next =>
    if xs = [] then .ok ⟨false, [], b, next⟩
    else match b.ensureOneTailBlock alloc xs.length next with
      | none => .ok ⟨true, [], b, next⟩
      | some (b, next) =>
        match b.blocks.getLast? with
        | none => .error .noFront
        | some tail =>
          let n := min xs.length tail.writableBytes
          let tail := (tail.store tail.writePos (xs.take n)).commit n
          let b := { b with
            blocks := b.blocks.dropLast ++ [tail]
            readableBytes := b.readableBytes + n }
          appendLoop alloc turns (xs.drop n) b next

def append (alloc : Alloc β) (xs : List β) (b : Buffer β) (next : ℕ) :
    Except BufferCheck (Outcome β) :=
  if b.writeReserved then .error .mutationDuringReservation
  else appendLoop alloc xs.length xs b next

/-! ## Reservations -/

/-- The loop of `EnsureTailWritable`, with the number of ranges that may still be reserved. The
flag says that no exception left it. -/
def growTail (alloc : Alloc β) (hint : ℕ) : ℕ → ℕ → Buffer β → ℕ → Bool × Buffer β × ℕ
  | 0, _, b, next => (true, b, next)
  | ranges + 1, writable, b, next =>
    if writable < hint then
      match newBlock alloc next (max b.blockSize (hint - writable)) with
      | none => (false, b, next)
      | some k => growTail alloc hint ranges (writable + k.writableBytes)
          { b with blocks := b.blocks ++ [k.reserve true] } (next + 1)
    else (true, b, next)

def ensureTailWritable (alloc : Alloc β) (hint maxIov : ℕ) (b : Buffer β) (next : ℕ) :
    Bool × Buffer β × ℕ :=
  match b.blocks.getLast? with
  | some tail =>
    if 0 < tail.writableBytes then
      growTail alloc hint (maxIov - 1) tail.writableBytes
        { b with blocks := b.blocks.dropLast ++ [tail.reserve true] } next
    else growTail alloc hint maxIov 0 b next
  | none => growTail alloc hint maxIov 0 b next

/-- `FillReservedWriteIov`, and the same loop in the other form of `PrepareWrite`. -/
def reservedIov : ℕ → List (Block β) → List Iovec
  | _, [] => []
  | count, k :: ks =>
    if k.reservedForWrite = false then reservedIov count ks
    else match count with
      | 0 => []
      | count + 1 =>
        if k.writableBytes = 0 then reservedIov (count + 1) ks
        else k.writeIov :: reservedIov count ks

/-- Both forms of `PrepareWrite`. In the one that returns a vector, `reserve` may throw. -/
def prepareWriteInto (reserve : Bool) (alloc : Alloc β) (hint maxIov : ℕ) (b : Buffer β)
    (next : ℕ) : Except BufferCheck (Outcome β) :=
  if b.writeReserved then .error .nestedPrepareWrite
  else if maxIov = 0 then .ok ⟨false, [], b, next⟩
  else
    let hint := if hint = 0 then b.blockSize else hint
    let b := { b with reservedBytes := 0, writeReserved := true }
    let (done, b, next) := b.ensureTailWritable alloc hint maxIov next
    if done && reserve then
      let iovs := reservedIov maxIov b.blocks
      let b := { b with reservedBytes := (iovs.map Iovec.length).sum }
      .ok ⟨false, iovs, if iovs = [] then b.clearWriteReservation else b, next⟩
    else .ok ⟨true, [], b.clearWriteReservation, next⟩

def prepareWriteVector (reserve : Bool) (alloc : Alloc β) (hint maxIov : ℕ) (b : Buffer β)
    (next : ℕ) : Except BufferCheck (Outcome β) :=
  b.prepareWriteInto reserve alloc hint maxIov next

def prepareWrite (alloc : Alloc β) (hint size : ℕ) (b : Buffer β) (next : ℕ) :
    Except BufferCheck (Outcome β) :=
  b.prepareWriteInto true alloc hint size next

/-- `ReservedWriteIov`, into the caller's storage of `size` ranges. -/
def reservedWriteIov (size : ℕ) (b : Buffer β) (next : ℕ) : Except BufferCheck (Outcome β) :=
  if b.writeReserved = false then .error .reservedWithoutPrepareWrite
  else .ok ⟨false, reservedIov size b.blocks, b, next⟩

/-- `TryPrepareWriteOne`; it returns no range if it does not reserve. -/
def tryPrepareWriteOne (alloc : Alloc β) (hint : ℕ) (b : Buffer β) (next : ℕ) :
    Except BufferCheck (Outcome β) :=
  let hint := if hint = 0 then b.blockSize else hint
  let reserveTail (before : List (Block β)) (tail : Block β) (next : ℕ) :
      Except BufferCheck (Outcome β) :=
    if tail.writableBytes < hint then .error .reservationTooSmall
    else .ok ⟨false, [tail.writeIov], { b with
      blocks := before ++ [tail.reserve true]
      writeReserved := true
      reservedBytes := tail.writableBytes }, next⟩
  if b.writeReserved then .error .nestedPrepareWrite
  else match b.blocks.getLast? with
    | some tail =>
      if tail.writableBytes < hint then .ok ⟨false, [], b, next⟩
      else reserveTail b.blocks.dropLast tail next
    | none =>
      match newBlock alloc next (max b.blockSize hint) with
      | none => .ok ⟨true, [],
          { b with reservedBytes := 0, writeReserved := true }.clearWriteReservation, next⟩
      | some k => reserveTail [] k (next + 1)

/-- The loop of `CommitWrite` over the blocks, with what remains. -/
def commitBlocks : ℕ → List (Block β) → List (Block β) × ℕ
  | remaining, [] => ([], remaining)
  | remaining, k :: ks =>
    if k.reservedForWrite = false then
      let (ks, left) := commitBlocks remaining ks
      (k :: ks, left)
    else if remaining = 0 then (k :: ks, 0)
    else
      let (ks, left) := commitBlocks (remaining - min remaining k.writableBytes) ks
      (k.commit (min remaining k.writableBytes) :: ks, left)

def commitWrite (n : ℕ) (b : Buffer β) (next : ℕ) : Except BufferCheck (Outcome β) :=
  if b.writeReserved = false then .error .commitWithoutPrepareWrite
  else if b.reservedBytes < n then .error .commitExceedsReserved
  else
    let (blocks, remaining) := commitBlocks n b.blocks
    let b := { b with blocks, readableBytes := b.readableBytes + (n - remaining) }
    if remaining ≠ 0 then .error .reservationInconsistent
    else .ok ⟨false, [], b.clearWriteReservation, next⟩

def abortWrite (b : Buffer β) (next : ℕ) : Except BufferCheck (Outcome β) :=
  .ok ⟨false, [], b.clearWriteReservation, next⟩

/-! ## Reading -/

def drainCommitted : ℕ → ℕ → Buffer β → Except BufferCheck (Buffer β)
  | 0, n, b => if n = 0 then .ok b else .error .running
  | turns + 1, n, b =>
    if n = 0 then .ok b
    else match b.blocks with
      | [] => .ok b
      | front :: rest =>
        let m := min n front.readableBytes
        let front := front.drain m
        let b := { b with readableBytes := b.readableBytes - m }
        if front.readableBytes = 0 then drainCommitted turns (n - m) { b with blocks := rest }
        else drainCommitted turns (n - m) { b with blocks := front :: rest }

def drain (n : ℕ) (b : Buffer β) (next : ℕ) : Except BufferCheck (Outcome β) :=
  if b.writeReserved then .error .mutationDuringReservation
  else (drainCommitted (b.blocks.length + 1) (min n b.readableBytes) b).map (⟨false, [], ·, next⟩)

def drainAll (b : Buffer β) (next : ℕ) : Except BufferCheck (Outcome β) :=
  if b.writeReserved then .error .mutationDuringReservation else .ok ⟨false, [], b.clear, next⟩

/-- The copying loop of `Linearize`: `remaining` bytes of the front blocks go to `merged`. -/
def mergeFront : ℕ → ℕ → Block β → List (Block β) →
    Except BufferCheck (Block β × List (Block β))
  | turns, remaining, merged, blocks =>
    if remaining = 0 then .ok (merged, blocks)
    else match turns, blocks with
      | 0, _ => .error .running
      | _ + 1, [] => .error .noFront
      | turns + 1, front :: rest =>
        let take := min front.readableBytes remaining
        let merged := (merged.store merged.writePos (front.readable.take take)).commit take
        let front := front.drain take
        if front.readableBytes = 0 then mergeFront turns (remaining - take) merged rest
        else mergeFront turns (remaining - take) merged (front :: rest)

def linearize (alloc : Alloc β) (n : ℕ) (b : Buffer β) (next : ℕ) :
    Except BufferCheck (Outcome β) :=
  if b.writeReserved then .error .mutationDuringReservation
  else if b.readableBytes < n then .error .linearizePastReadable
  else if n = 0 then .ok ⟨false, [], b, next⟩
  else
    let blocks := b.blocks.dropWhile (·.readableBytes = 0)
    let b := { b with blocks }
    match blocks with
    | [] => .error .noFront
    | first :: _ =>
      if n ≤ first.readableBytes then .ok ⟨false, [⟨first.address, first.readPos, n⟩], b, next⟩
      else match newBlock alloc next (max b.blockSize n) with
        | none => .ok ⟨true, [], b, next⟩
        | some merged =>
          (mergeFront (blocks.length + 1) n merged blocks).map fun (merged, blocks) =>
            ⟨false, [⟨merged.address, merged.readPos, n⟩],
              { b with blocks := merged :: blocks }, next + 1⟩

/-- `MoveFromObject`: the new object and what is left of the old one. -/
def moveFrom (other : Buffer β) : Except BufferCheck (Buffer β × Buffer β) :=
  if other.writeReserved then .error .movingPendingReservation
  else .ok ({ other with writeReserved := false, reservedBytes := 0 },
    { other with blocks := [], readableBytes := 0, writeReserved := false, reservedBytes := 0 })

def moveAssign (other b : Buffer β) : Except BufferCheck (Buffer β × Buffer β) :=
  if b.writeReserved then .error .mutationDuringReservation else moveFrom other

end Buffer

/-! ## Buffers and their writers -/

/-- The calls on one buffer. -/
inductive BufferCall (β : Type) where
  | append (alloc : Alloc β) (xs : List β)
  | prepareWriteVector (reserve : Bool) (alloc : Alloc β) (hint maxIov : ℕ)
  | prepareWrite (alloc : Alloc β) (hint size : ℕ)
  | reservedWriteIov (size : ℕ)
  | tryPrepareWriteOne (alloc : Alloc β) (hint : ℕ)
  | commitWrite (n : ℕ)
  | abortWrite
  | drain (n : ℕ)
  | drainAll
  | linearize (alloc : Alloc β) (n : ℕ)

def BufferCall.run {β : Type} : BufferCall β → Buffer β → ℕ → Except BufferCheck (Outcome β)
  | append alloc xs => Buffer.append alloc xs
  | prepareWriteVector reserve alloc hint maxIov =>
    Buffer.prepareWriteVector reserve alloc hint maxIov
  | prepareWrite alloc hint size => Buffer.prepareWrite alloc hint size
  | reservedWriteIov size => Buffer.reservedWriteIov size
  | tryPrepareWriteOne alloc hint => Buffer.tryPrepareWriteOne alloc hint
  | commitWrite n => Buffer.commitWrite n
  | abortWrite => Buffer.abortWrite
  | drain n => Buffer.drain n
  | drainAll => Buffer.drainAll
  | linearize alloc n => Buffer.linearize alloc n

/-- The caller writes `xs` into the ranges. -/
def fillRanges {β : Type} : List Iovec → List β → List (Block β) → List (Block β)
  | [], _, ks => ks
  | r :: rs, xs, ks => fillRanges rs (xs.drop r.length) (ks.map fun k =>
      if k.address = r.address then k.store r.offset (xs.take r.length) else k)

def Buffer.fill {β : Type} (rs : List Iovec) (xs : List β) (b : Buffer β) : Buffer β :=
  { b with blocks := fillRanges rs xs b.blocks }

/-- All buffers, with the ranges that the writer of each one holds. -/
structure BufferStore (β : Type) where
  next : ℕ
  buffers : ℕ → Buffer β
  ranges : ℕ → List Iovec
  aborted : Option BufferCheck

/-- What happens to the buffers of a program. -/
inductive BufferAction (β : Type) where
  | construct (i blockSize : ℕ)
  | call (i : ℕ) (c : BufferCall β)
  | write (i : ℕ) (xs : List β)
  | moveConstruct (i j : ℕ)
  | moveAssign (i j : ℕ)

namespace BufferStore

variable {β : Type}

def setBuffer (s : BufferStore β) (i : ℕ) (b : Buffer β) : BufferStore β :=
  { s with buffers := Function.update s.buffers i b }

/-- The writer of buffer `i` gets the ranges of a reservation, which end with it. -/
def setRanges (s : BufferStore β) (i : ℕ) (rs : List Iovec) : BufferStore β :=
  { s with ranges := Function.update s.ranges i rs }

/-- What a call leaves; it also says whether an exception left it and what it returned. -/
def returned (s : BufferStore β) (i : ℕ) (o : Outcome β) : BufferStore β :=
  { (s.setBuffer i o.buffer).setRanges i (if o.buffer.writeReserved then o.ranges else []) with
    next := o.next }

def moved (s : BufferStore β) (i j : ℕ) : Buffer β × Buffer β → BufferStore β
  | (b, other) => ((s.setBuffer i b).setBuffer j other).setRanges i []

def perform (s : BufferStore β) : BufferAction β → Except BufferCheck (BufferStore β)
  | .construct i blockSize => .ok ((s.setBuffer i (.create blockSize)).setRanges i [])
  | .call i c => (c.run (s.buffers i) s.next).map (s.returned i)
  | .write i xs => .ok (s.setBuffer i ((s.buffers i).fill (s.ranges i) xs))
  | .moveConstruct i j =>
    if i = j then .ok s else (Buffer.moveFrom (s.buffers j)).map (s.moved i j)
  | .moveAssign i j =>
    if i = j then .ok s else (Buffer.moveAssign (s.buffers j) (s.buffers i)).map (s.moved i j)

def step (a : BufferAction β) (s : BufferStore β) : Option (BufferStore β) :=
  if s.aborted.isSome then none
  else match s.perform a with
    | .ok s' => some s'
    | .error e => some { s with aborted := some e }

def create (blockSize : ℕ → ℕ) : BufferStore β where
  next := 0
  buffers i := .create (blockSize i)
  ranges _ := []
  aborted := none

def system (β : Type) : System (BufferStore β) (BufferAction β) where
  init s := ∃ blockSize, s = create blockSize
  step := step

end BufferStore

end Alyrn.Net
