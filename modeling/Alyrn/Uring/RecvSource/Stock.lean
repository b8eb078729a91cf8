import Alyrn.Lib.SlotPool
import Alyrn.Uring.RecvSource

/-!
# The storage of RecvSource

What the source owns between completions. `BufferSlots.Idle` says that no provided buffer is
borrowed, and its lemmas follow one buffer through a completion: it is lent, marked done by the
kernel, and given back to the ring. `Stock` accounts for the copy slots: every slot is free, in the
queue or on lease, so that filling a free slot cannot disturb a queued payload or a lease.
-/

namespace Alyrn.Uring

open Net Transition

/-! ## Borrowed buffers -/

namespace BufferSlots

/-- No pool buffer is in use. -/
structure Idle (b : BufferSlots) (bufferSize : ℕ) : Prop where
  slots : b.slots = List.replicate b.pool.capacity {}
  count : b.activeSlotCount = 0
  inUse : b.pool.inUse = List.replicate b.pool.capacity false
  size : b.pool.bufferSize = bufferSize
  storage : b.pool.storage.length = b.pool.capacity
  slotSize : ∀ bytes ∈ b.pool.storage, bytes.length = bufferSize

def returned (b : BufferSlots) (id : ℕ) : BufferSlots :=
  { b with pool := { b.pool with ring := b.pool.ring ++ [id] } }

def lent (b : BufferSlots) (id n : ℕ) (kernelDone : Bool) : BufferSlots where
  slots := b.slots.set id { active := true, kernelDone, leaseCount := n }
  activeSlotCount := b.activeSlotCount + 1
  pool := { b.pool with inUse := b.pool.inUse.set id true }

variable {b : BufferSlots} {bufferSize id size : ℕ}

section

variable (h : b.Idle bufferSize)
include h

theorem Idle.returned (id : ℕ) : (b.returned id).Idle bufferSize :=
  { h with }

theorem Idle.slot_length : b.slots.length = b.pool.capacity := by
  rw [h.slots, List.length_replicate]

theorem Idle.slot (id : ℕ) : b.slot id = {} := by
  rw [BufferSlots.slot, h.slots, List.getElem?_replicate]
  split_ifs <;> rfl

theorem Idle.acquire (hid : id < b.pool.capacity) :
    b.pool.acquire id = some { b.pool with inUse := b.pool.inUse.set id true } := by
  rw [ProvidedBufferPool.acquire, if_pos (by rw [h.inUse, List.getElem?_replicate, if_pos hid])]

theorem Idle.acquireBuffer (hid : id < b.pool.capacity)
    (hsize : size ≤ bufferSize) : b.acquireBuffer id size = .ok (b.lent id 1 false) := by
  rw [BufferSlots.acquireBuffer, if_neg (by rw [h.slot_length, h.size]; omega), h.slot,
    h.acquire hid]
  rfl

theorem Idle.acquireBuffer_error (id : ℕ) (hsize : bufferSize < size) :
    b.acquireBuffer id size = .error EPROTO := by
  rw [BufferSlots.acquireBuffer, if_pos (by rw [h.size]; exact .inr hsize)]

theorem Idle.lent_slot (hid : id < b.pool.capacity) (n : ℕ) (k : Bool) :
    (b.lent id n k).slot id = { active := true, kernelDone := k, leaseCount := n } := by
  have hlt : id < b.slots.length := by rwa [h.slot_length]
  simp [BufferSlots.slot, BufferSlots.lent, hlt]

end

theorem setSlot_lent (n n' : ℕ) (k k' : Bool) :
    (b.lent id n k).setSlot id { active := true, kernelDone := k', leaseCount := n' } =
      b.lent id n' k' := by
  simp [setSlot, lent]

section

variable (h : b.Idle bufferSize)
include h

section

variable (hid : id < b.pool.capacity)
include hid

theorem Idle.markKernelDone : (b.lent id 1 false).markKernelDone id = some (b.lent id 1 true) := by
  have hlen : (b.lent id 1 false).slots.length = b.pool.capacity := by
    simp [lent, h.slot_length]
  rw [BufferSlots.markKernelDone, hlen, h.lent_slot hid, if_neg (by simp; omega),
    setSlot_lent, returnIfReclaimable, h.lent_slot hid, if_pos (by simp)]

theorem Idle.giveBack :
    ({ b.pool with inUse := b.pool.inUse.set id true } : ProvidedBufferPool).giveBack id =
      some (b.returned id).pool := by
  have hlt : id < b.pool.inUse.length := by rw [h.inUse, List.length_replicate]; exact hid
  have hset : (b.pool.inUse.set id true).set id false = b.pool.inUse := by
    rw [List.set_set, h.inUse, List.set_replicate_self]
  rw [ProvidedBufferPool.giveBack, if_pos (List.getElem?_set_self hlt)]
  simp only [hset, BufferSlots.returned]

theorem Idle.releaseSlotLease : (b.lent id 1 true).releaseSlotLease id = some (b.returned id) := by
  have hlen : (b.lent id 1 true).slots.length = b.pool.capacity := by simp [lent, h.slot_length]
  have hslots : (b.lent id 0 true).slots.set id {} = b.slots := by
    simp only [lent, List.set_set]
    rw [h.slots, List.set_replicate_self]
  have hreturn : (b.lent id 0 true).returnIfReclaimable id = some (b.returned id) := by
    rw [returnIfReclaimable, h.lent_slot hid, if_neg (by simp)]
    have hpool : (b.lent id 0 true).pool.giveBack id = some (b.returned id).pool := h.giveBack hid
    rw [hpool]
    simp only [setSlot, hslots]
    simp only [lent, Nat.add_one_ne_zero, if_false, Nat.add_sub_cancel]
    rfl
  rw [BufferSlots.releaseSlotLease, hlen, h.lent_slot hid, if_neg (by simp; omega), setSlot_lent]
  exact hreturn

theorem Idle.settle : b.settle id = some (b.returned id) := by
  rw [BufferSlots.settle, h.slot, if_neg (by simp), h.acquire hid]
  dsimp only
  rw [h.giveBack hid]
  rfl

end

theorem Idle.markActiveSlotsKernelDone : b.markActiveSlotsKernelDone = some b := by
  rw [BufferSlots.markActiveSlotsKernelDone, if_pos h.count]

theorem Idle.kernelFill (id : ℕ) (bytes : List UInt8) :
    Idle { b with pool := b.pool.kernelFill id bytes } bufferSize := by
  refine { h with storage := ?_, slotSize := ?_ }
  · simpa [ProvidedBufferPool.kernelFill] using h.storage
  · intro bs hbs
    obtain ⟨i, hi⟩ := List.mem_iff_getElem?.mp hbs
    simp only [ProvidedBufferPool.kernelFill, List.getElem?_modify] at hi
    obtain ⟨old, hold, rfl⟩ := Option.map_eq_some_iff.mp hi
    have hlen := h.slotSize old (List.mem_iff_getElem?.mpr ⟨i, hold⟩)
    split_ifs
    · rw [List.length_splice, hlen]
      simp [hlen, h.size]
    · exact hlen

end

end BufferSlots

/-! ## The stock of copy slots -/

def usedSlots (events : RingBuffer PendingEvent) (leases : List Lease) : List ℕ :=
  events.toList.map (·.copySlot) ++ leases.map (·.copySlot)

/-- The copy slots and what they hold. Every slot is free, in the queue or on lease, and a lease
still shows the bytes it was handed out with. -/
structure Stock (m : RecvSourceStateMachine) (events : RingBuffer PendingEvent)
    (memory : List UInt8) (copyFree : List ℕ) (leases : List Lease) (bufferSize : ℕ) : Prop where
  consistent : m.Consistent
  depth : m.options.pendingDepth = 1
  capacity : events.capacity = m.options.eventCapacity
  queued : events.count = m.queuedEvents
  leased : m.outstandingLeases = m.queuedEvents + leases.length
  slots : SlotPool.Covers m.options.bufferCapacity bufferSize memory copyFree
    (usedSlots events leases)
  eventSize : ∀ e ∈ events.toList, e.size ≤ bufferSize
  leaseSize : ∀ l ∈ leases, l.size ≤ bufferSize
  leaseBytes : ∀ l ∈ leases, memory.slice (l.copySlot * bufferSize) l.size = l.bytes

namespace Stock

variable {m m' : RecvSourceStateMachine} {events events' : RingBuffer PendingEvent}
  {memory bytes : List UInt8} {copyFree : List ℕ} {leases : List Lease}
  {bufferSize slot size : ℕ}

theorem mem_used_event {e : PendingEvent} (he : e ∈ events.toList) :
    e.copySlot ∈ usedSlots events leases :=
  List.mem_append_left _ (List.mem_map_of_mem he)

theorem mem_used_lease {l : Lease} (hl : l ∈ leases) : l.copySlot ∈ usedSlots events leases :=
  List.mem_append_right _ (List.mem_map_of_mem hl)

theorem withMachine (h : Stock m events memory copyFree leases bufferSize) (hm : m'.Consistent)
    (ho : m'.options = m.options) (hq : m'.queuedEvents = m.queuedEvents)
    (hl : m'.outstandingLeases = m.outstandingLeases) :
    Stock m' events memory copyFree leases bufferSize :=
  { h with
    consistent := hm
    depth := ho ▸ h.depth
    capacity := ho ▸ h.capacity
    queued := hq ▸ h.queued
    leased := by rw [hl, hq]; exact h.leased
    slots := ho ▸ h.slots }

theorem free_ne_nil (h : Stock m events memory copyFree leases bufferSize)
    (hl : m.outstandingLeases < m.options.bufferCapacity) : copyFree ≠ [] := by
  have := h.leased
  have := h.queued
  refine h.slots.free_ne_nil ?_
  rw [usedSlots, List.length_append, List.length_map, List.length_map, RingBuffer.length_toList]
  omega

theorem queue (h : Stock m events memory (slot :: copyFree) leases bufferSize)
    (hm : m'.Consistent) (ho : m'.options = m.options)
    (hq : m'.queuedEvents = m.queuedEvents + 1)
    (hl : m'.outstandingLeases = m.outstandingLeases + 1) (hsize : size ≤ bufferSize)
    (hb : bytes.length ≤ bufferSize)
    (hp : events.push? { copySlot := slot, size } = some events') :
    Stock m' events' (memory.splice (slot * bufferSize) bytes) copyFree leases bufferSize := by
  obtain ⟨hlist, hcap⟩ := RingBuffer.toList_push hp
  have hcount : events'.count = events.count + 1 := by
    rw [← RingBuffer.length_toList, hlist, List.length_append, RingBuffer.length_toList]
    rfl
  refine ⟨hm, ho ▸ h.depth, by rw [hcap, ho, h.capacity], by rw [hcount, hq, h.queued], ?_,
    ho ▸ h.slots.take hb ?_, ?_, h.leaseSize, ?_⟩
  · have := h.leased
    omega
  · rw [usedSlots, hlist, List.map_append, List.append_assoc]
    exact List.perm_middle
  · intro e he
    rw [hlist, List.mem_append, List.mem_singleton] at he
    rcases he with he | rfl
    · exact h.eventSize e he
    · exact hsize
  · intro l hl
    rw [h.slots.slice_splice_used hb (h.leaseSize l hl) (mem_used_lease hl)]
    exact h.leaseBytes l hl

theorem lend (h : Stock m events memory (slot :: copyFree) leases bufferSize)
    (hm : m'.Consistent) (ho : m'.options = m.options)
    (hq : m'.queuedEvents = m.queuedEvents)
    (hl : m'.outstandingLeases = m.outstandingLeases + 1) (hsize : size ≤ bufferSize)
    (hb : bytes.length ≤ bufferSize) :
    Stock m' events (memory.splice (slot * bufferSize) bytes) copyFree
      (leases ++ [{ copySlot := slot, size,
                    bytes := (memory.splice (slot * bufferSize) bytes).slice
                      (slot * bufferSize) size }]) bufferSize := by
  refine ⟨hm, ho ▸ h.depth, by rw [ho, h.capacity], by rw [hq, h.queued], ?_,
    ho ▸ h.slots.take hb ?_, h.eventSize, ?_, ?_⟩
  · have := h.leased
    rw [List.length_append, List.length_singleton]
    omega
  · rw [usedSlots, List.map_append, ← List.append_assoc]
    exact List.perm_append_singleton _ _
  · intro l hl
    rw [List.mem_append, List.mem_singleton] at hl
    rcases hl with hl | rfl
    · exact h.leaseSize l hl
    · exact hsize
  · intro l hl
    rw [List.mem_append, List.mem_singleton] at hl
    rcases hl with hl | rfl
    · rw [h.slots.slice_splice_used hb (h.leaseSize l hl) (mem_used_lease hl)]
      exact h.leaseBytes l hl
    · rfl

theorem pop (h : Stock m events memory copyFree leases bufferSize) (hm : m'.Consistent)
    (ho : m'.options = m.options) (hq : m'.queuedEvents = m.queuedEvents - 1)
    (hl : m'.outstandingLeases = m.outstandingLeases) {e : PendingEvent}
    (hp : events.pop? = some (e, events')) :
    Stock m' events' memory copyFree
      (leases ++ [{ copySlot := e.copySlot, size := e.size,
                    bytes := memory.slice (e.copySlot * bufferSize) e.size }]) bufferSize := by
  obtain ⟨hlist, hcap⟩ := RingBuffer.toList_pop hp
  have hcount : events.count = events'.count + 1 := by
    rw [← RingBuffer.length_toList, hlist, List.length_cons, RingBuffer.length_toList]
  have hqueued := h.queued
  refine ⟨hm, ho ▸ h.depth, by rw [hcap, ho, h.capacity], by omega, ?_, ho ▸ h.slots.perm ?_,
    fun x hx => h.eventSize x (hlist ▸ List.mem_cons_of_mem e hx), ?_, ?_⟩
  · have := h.leased
    rw [List.length_append, List.length_singleton]
    omega
  · rw [usedSlots, usedSlots, hlist, List.map_append, ← List.append_assoc]
    exact List.perm_append_singleton _ _
  · intro l hl
    rw [List.mem_append, List.mem_singleton] at hl
    rcases hl with hl | rfl
    · exact h.leaseSize l hl
    · exact h.eventSize e (hlist ▸ List.mem_cons_self)
  · intro l hl
    rw [List.mem_append, List.mem_singleton] at hl
    rcases hl with hl | rfl
    · exact h.leaseBytes l hl
    · rfl

theorem release (h : Stock m events memory copyFree leases bufferSize) (hm : m'.Consistent)
    (ho : m'.options = m.options) (hq : m'.queuedEvents = m.queuedEvents)
    (hl : m'.outstandingLeases = m.outstandingLeases - 1) {i : ℕ} {l : Lease}
    (hi : leases[i]? = some l) :
    Stock m' events memory (l.copySlot :: copyFree) (leases.eraseIdx i) bufferSize := by
  obtain ⟨hlt, hget⟩ := List.getElem?_eq_some_iff.mp hi
  refine ⟨hm, ho ▸ h.depth, ho ▸ h.capacity, hq ▸ h.queued, ?_, ho ▸ h.slots.giveBack ?_,
    h.eventSize, fun x hx => h.leaseSize x (List.mem_of_mem_eraseIdx hx),
    fun x hx => h.leaseBytes x (List.mem_of_mem_eraseIdx hx)⟩
  · have := h.leased
    rw [List.length_eraseIdx_of_lt hlt]
    omega
  · have hperm := (List.getElem_cons_eraseIdx_perm hlt).map (·.copySlot)
    rw [List.map_cons, hget] at hperm
    rw [usedSlots]
    exact (hperm.symm.append_left _).trans List.perm_middle

end Stock

end Alyrn.Uring
