import Mathlib.Algebra.Group.Nat.Defs
import Alyrn.Lib.Slice
import Alyrn.Uring.Op

/-!
# ProvidedBufferPool

The provided-buffer ring that the receive sources of one loop share. `ring` holds the identifiers
the kernel may select, `inUse` those that a source has acquired. Everything runs on the loop
thread.
-/

namespace Alyrn.Uring

/-- The pool's buffers, and the ring the kernel selects from. -/
structure ProvidedBufferPool where
  capacity : ℕ
  publishedCapacity : ℕ
  bufferSize : ℕ
  storage : List (List UInt8)
  inUse : List Bool
  /-- The identifiers in the buffer ring, the next one to be selected first. -/
  ring : List ℕ
  deriving DecidableEq, Repr

namespace ProvidedBufferPool

def create (capacity bufferSize initialCapacity : ℕ) : Except Error ProvidedBufferPool :=
  if capacity = 0 ∨ 32 * 1024 < capacity ∨ capacity &&& (capacity - 1) ≠ 0 ∨ bufferSize = 0 ∨
      2 ^ 32 - 1 < bufferSize ∨ initialCapacity = 0 ∨ capacity < initialCapacity then
    .error EINVAL
  else
    .ok {
      capacity, bufferSize
      publishedCapacity := initialCapacity
      storage := List.replicate capacity (List.replicate bufferSize 0)
      inUse := List.replicate capacity false
      ring := List.range initialCapacity }

variable (p : ProvidedBufferPool)

def ensurePublished (additional : ℕ) : ProvidedBufferPool :=
  if additional = 0 ∨ p.publishedCapacity = p.capacity then p
  else
    let count := min additional (p.capacity - p.publishedCapacity)
    { p with
      ring := p.ring ++ (List.range count).map (p.publishedCapacity + ·)
      publishedCapacity := p.publishedCapacity + count }

def slot (id : ℕ) : Option (List UInt8) := if id < p.capacity then p.storage[id]? else none

def acquire (id : ℕ) : Option ProvidedBufferPool :=
  if p.inUse[id]? = some false then some { p with inUse := p.inUse.set id true } else none

def giveBack (id : ℕ) : Option ProvidedBufferPool :=
  if p.inUse[id]? = some true then
    some { p with inUse := p.inUse.set id false, ring := p.ring ++ [id] }
  else none

def kernelFill (id : ℕ) (bytes : List UInt8) : ProvidedBufferPool :=
  { p with
    ring := p.ring.erase id
    storage := p.storage.modify id fun old => old.splice 0 (bytes.take p.bufferSize) }

/-- What every pool satisfies while no source holds a buffer: each published identifier is once
in the ring. -/
structure WellFormed (p : ProvidedBufferPool) : Prop where
  size_pos : 0 < p.bufferSize
  published_le : p.publishedCapacity ≤ p.capacity
  storage_length : p.storage.length = p.capacity
  slot_length : ∀ bytes ∈ p.storage, bytes.length = p.bufferSize
  inUse : p.inUse = List.replicate p.capacity false
  ring : p.ring.Perm (List.range p.publishedCapacity)

theorem create_wellFormed {capacity bufferSize initialCapacity : ℕ} {p : ProvidedBufferPool}
    (h : create capacity bufferSize initialCapacity = .ok p) : p.WellFormed := by
  unfold create at h
  split_ifs at h with hc
  obtain rfl := Except.ok.inj h
  simp only [ne_eq, not_or, not_not] at hc
  refine ⟨?_, Nat.le_of_not_lt hc.2.2.2.2.2.2, by simp, ?_, rfl, List.Perm.refl _⟩
  · exact Nat.pos_of_ne_zero hc.2.2.2.1
  · intro bytes hb
    rw [List.eq_of_mem_replicate hb, List.length_replicate]

theorem WellFormed.ensurePublished {p : ProvidedBufferPool} (h : p.WellFormed) (n : ℕ) :
    (p.ensurePublished n).WellFormed := by
  unfold ProvidedBufferPool.ensurePublished
  split_ifs
  · exact h
  · refine { h with published_le := ?_, ring := ?_ }
    · have := h.published_le
      dsimp only
      omega
    · rw [List.range_add]
      exact h.ring.append_right _

end ProvidedBufferPool

/-- The loop's shared buffers: their configuration and the pool, once a source has asked for it. -/
structure SharedBuffers where
  capacity : ℕ
  size : ℕ
  pool : Option ProvidedBufferPool
  deriving DecidableEq, Repr

def SharedBuffers.getSharedProvidedBufferPool (l : SharedBuffers)
    (bufferSize sourceCapacity : ℕ) : Except Error ProvidedBufferPool :=
  if l.capacity = 0 then .error ENOENT
  else if sourceCapacity = 0 ∨ l.capacity < sourceCapacity then .error EINVAL
  else if bufferSize ≠ l.size then .error EINVAL
  else
    match l.pool with
    | some pool => .ok (pool.ensurePublished sourceCapacity)
    | none => ProvidedBufferPool.create l.capacity l.size sourceCapacity

theorem SharedBuffers.getSharedProvidedBufferPool_wellFormed {l : SharedBuffers}
    (h : ∀ p, l.pool = some p → p.WellFormed) {bufferSize sourceCapacity : ℕ}
    {p : ProvidedBufferPool}
    (hp : l.getSharedProvidedBufferPool bufferSize sourceCapacity = .ok p) : p.WellFormed := by
  unfold getSharedProvidedBufferPool at hp
  split_ifs at hp
  cases hl : l.pool with
  | none =>
    rw [hl] at hp
    exact ProvidedBufferPool.create_wellFormed hp
  | some pool =>
    rw [hl] at hp
    obtain rfl := Except.ok.inj hp
    exact (h pool hl).ensurePublished _

end Alyrn.Uring
