import Alyrn.Lib.RingBuffer

/-!
# The buffer of a Channel

The ring of a channel: `buffer_` is rounded up to a power of two so that indices wrap with a mask,
while the logical capacity stays what the caller asked for. The checks of `PushBuffer` and
`PopBuffer` are the errors of this module.

`Channel.Holds ch xs`: the ring of `ch` is a ring buffer (`RingBuffer`) that holds the values `xs`,
oldest first. On that list `pushBuffer` adds at the end and `popBuffer` takes from the front
(`Holds.push`, `Holds.pop`); the checks fail exactly on a full and on an empty list.
-/

namespace Alyrn.Coro

/-- The checks of channels and Selects. The first two are contract violations of the caller: a
send on a closed channel, which includes closing it under a waiting sender, and a second `Close`. -/
inductive Check where
  | sendOnClosed
  | closeOfClosed
  | bufferOverflow
  | bufferUnderflow
  | slotEmpty
  | senderNotQueued
  | receiverNotQueued
  | queuedTwice
  | valueTakenTwice
  | notWaiting
  | senderNotReady
  | receiverNotReady
  | registeredOnClosed
  | armedInactive
  | armedTwice
  | notArming
  | completedBeforeWaiting
  | invalidCase
  deriving DecidableEq, Repr

/-- The buffer of `ChannelCore`: a ring of slots, with its head, tail and size. -/
structure Channel (V : Type) where
  capacity : ℕ
  buffer : List (Option V)
  mask : ℕ
  head : ℕ
  tail : ℕ
  size : ℕ
  closed : Bool

namespace Channel

variable {V : Type}

def bitCeil (n : ℕ) : ℕ := if n ≤ 1 then 1 else 2 ^ (Nat.log2 (n - 1) + 1)

def ringSize (capacity : ℕ) : ℕ := if capacity = 0 then 0 else bitCeil capacity

def create (capacity : ℕ) : Channel V where
  capacity
  buffer := List.replicate (ringSize capacity) none
  mask := if ringSize capacity = 0 then 0 else ringSize capacity - 1
  head := 0
  tail := 0
  size := 0
  closed := false

def pushBuffer (v : V) (ch : Channel V) : Except Check (Channel V) :=
  if ch.size = ch.capacity then .error .bufferOverflow
  else .ok { ch with
    buffer := ch.buffer.set ch.tail (some v)
    tail := (ch.tail + 1) &&& ch.mask
    size := ch.size + 1 }

def popBuffer (ch : Channel V) : Except Check (V × Channel V) :=
  if ch.size = 0 then .error .bufferUnderflow
  else match ch.buffer[ch.head]? with
    | some (some v) => .ok (v, { ch with
        buffer := ch.buffer.set ch.head none
        head := (ch.head + 1) &&& ch.mask
        size := ch.size - 1 })
    | _ => .error .slotEmpty

theorem le_bitCeil (n : ℕ) : n ≤ bitCeil n := by
  unfold bitCeil
  split_ifs with h
  · exact h
  · have hlt : n - 1 < 2 ^ (Nat.log2 (n - 1) + 1) := Nat.lt_log2_self
    omega

theorem exists_bitCeil (n : ℕ) : ∃ k, bitCeil n = 2 ^ k := by
  unfold bitCeil
  split_ifs
  · exact ⟨0, rfl⟩
  · exact ⟨_, rfl⟩

/-- The ring of `ch` holds the values `xs`, oldest first. -/
structure Holds (ch : Channel V) (xs : List V) : Prop where
  wraps : ch.capacity ≠ 0 → ∃ k, ch.buffer.length = 2 ^ k ∧ ch.mask = 2 ^ k - 1
  capacity_le : ch.capacity ≤ ch.buffer.length
  size_le : ch.size ≤ ch.capacity
  tail : ch.capacity ≠ 0 → ch.tail = (ch.head + ch.size) % ch.buffer.length
  ring : ∃ r : RingBuffer (Option V), r.buf = ch.buffer ∧ r.head = ch.head ∧ r.count = ch.size ∧
    r.toList = xs.map some

/-- The buffered values, the oldest first. -/
def contents (ch : Channel V) : List V :=
  (List.range ch.size).filterMap fun i => (ch.buffer[(ch.head + i) % ch.buffer.length]?).join

theorem filterMap_range_eq {xs : List V} {f : ℕ → Option V}
    (h : ∀ (i : ℕ) (v : V), xs[i]? = some v → f i = some v) :
    (List.range xs.length).filterMap f = xs := by
  induction xs generalizing f with
  | nil => rfl
  | cons x xs ih =>
    rw [List.length_cons, List.range_succ_eq_map, List.filterMap_cons, h 0 x rfl,
      List.filterMap_map]
    exact congrArg (x :: ·) (ih fun i v hv => h (i + 1) v hv)

variable {ch : Channel V} {xs : List V}

theorem Holds.length (h : ch.Holds xs) : xs.length = ch.size := by
  obtain ⟨r, -, -, hcount, hlist⟩ := h.ring
  rw [← hcount, ← r.length_toList, hlist, List.length_map]

theorem Holds.contents_eq (h : ch.Holds xs) : ch.contents = xs := by
  obtain ⟨r, hbuf, hhead, hcount, hlist⟩ := h.ring
  unfold contents
  rw [← h.length]
  refine filterMap_range_eq fun i v hv => ?_
  have hi : i < r.count := by
    rw [hcount, ← h.length]
    exact (List.getElem?_eq_some_iff.mp hv).1
  rw [← hbuf, ← hhead, ← RingBuffer.getElem?_toList hi, hlist, List.getElem?_map, hv]
  rfl

theorem holds_create (capacity : ℕ) : (create capacity : Channel V).Holds [] := by
  obtain ⟨k, hk⟩ := exists_bitCeil capacity
  have hpos : 0 < 2 ^ k := Nat.two_pow_pos k
  have hring (h0 : capacity ≠ 0) : ringSize capacity = 2 ^ k := by rw [ringSize, if_neg h0, hk]
  refine ⟨fun h0 => ⟨k, ?_, ?_⟩, ?_, Nat.zero_le _, fun h0 => (Nat.zero_mod _).symm,
    RingBuffer.empty (ringSize capacity) none, rfl, rfl, rfl, RingBuffer.toList_empty ..⟩
  · simp [create, hring h0]
  · simp only [create, hring h0]
    rw [if_neg (by omega)]
  · simp only [create, List.length_replicate]
    by_cases h0 : capacity = 0
    · omega
    · rw [hring h0, ← hk]
      exact le_bitCeil capacity

theorem Holds.and_mask (h : ch.Holds xs) (hc : ch.capacity ≠ 0) (n : ℕ) :
    n &&& ch.mask = n % ch.buffer.length := by
  obtain ⟨k, hlen, hmask⟩ := h.wraps hc
  rw [hmask, hlen, Nat.and_two_pow_sub_one_eq_mod]

theorem Holds.push (h : ch.Holds xs) (hs : ch.size ≠ ch.capacity) (v : V) :
    ∃ ch', ch.pushBuffer v = .ok ch' ∧ ch'.Holds (xs ++ [v]) ∧ ch'.capacity = ch.capacity ∧
      ch'.closed = ch.closed := by
  have hsize := h.size_le
  have hcap := h.capacity_le
  have hc : ch.capacity ≠ 0 := by omega
  have htail := h.tail hc
  obtain ⟨r, hbuf, hhead, hcount, hlist⟩ := h.ring
  have hlt : r.count < r.buf.length := by
    rw [hbuf]
    omega
  obtain ⟨r', hpush, hbuf', hhead', hcount'⟩ : ∃ r', r.push? (some v) = some r' ∧
      r'.buf = r.buf.set ((r.head + r.count) % r.buf.length) (some v) ∧ r'.head = r.head ∧
      r'.count = r.count + 1 := ⟨_, dif_pos hlt, rfl, rfl, rfl⟩
  refine ⟨_, if_neg hs, ⟨fun _ => ?_, ?_, ?_, fun _ => ?_, r', ?_, hhead'.trans hhead, ?_, ?_⟩, rfl,
    rfl⟩
  · simpa only [List.length_set] using h.wraps hc
  · simpa only [List.length_set] using hcap
  · show ch.size + 1 ≤ ch.capacity
    omega
  · show (ch.tail + 1) &&& ch.mask = (ch.head + (ch.size + 1)) % (ch.buffer.set _ _).length
    rw [h.and_mask hc, List.length_set, htail, Nat.mod_add_mod, Nat.add_assoc]
  · rw [hbuf', hbuf, hhead, hcount, ← htail]
  · rw [hcount', hcount]
  · rw [(RingBuffer.toList_push hpush).1, hlist, List.map_append]
    rfl

theorem Holds.pop (h : ch.Holds xs) (hs : ch.size ≠ 0) :
    ∃ x rest ch', xs = x :: rest ∧ ch.popBuffer = .ok (x, ch') ∧ ch'.Holds rest ∧
      ch'.size + 1 = ch.size ∧ ch'.capacity = ch.capacity ∧ ch'.closed = ch.closed := by
  have hsize := h.size_le
  have hc : ch.capacity ≠ 0 := by omega
  obtain ⟨r, hbuf, hhead, hcount, hlist⟩ := h.ring
  obtain ⟨a, r', hcell, hcons, hbuf', hhead', hcount'⟩ := r.exists_pop_set (hcount ▸ hs) none
  rw [hcons] at hlist
  cases xs with
  | nil => cases hlist
  | cons x rest =>
    obtain ⟨rfl, hrest⟩ := List.cons.inj hlist
    rw [hbuf, hhead] at hcell
    have hpop : ch.popBuffer = .ok (x, { ch with
        buffer := ch.buffer.set ch.head none
        head := (ch.head + 1) &&& ch.mask
        size := ch.size - 1 }) := by
      unfold popBuffer
      rw [if_neg hs, hcell]
    refine ⟨x, rest, _, rfl, hpop, ⟨fun _ => ?_, ?_, ?_, fun _ => ?_, r', ?_, ?_, ?_, hrest⟩, ?_,
      rfl, rfl⟩
    · simpa only [List.length_set] using h.wraps hc
    · simpa only [List.length_set] using h.capacity_le
    · show ch.size - 1 ≤ ch.capacity
      omega
    · show ch.tail = ((ch.head + 1 &&& ch.mask) + (ch.size - 1)) % (ch.buffer.set _ _).length
      rw [h.and_mask hc, List.length_set, h.tail hc, Nat.mod_add_mod]
      congr 1
      omega
    · rw [hbuf', hbuf, hhead]
    · rw [hhead', hhead, hbuf, h.and_mask hc]
    · rw [hcount', hcount]
    · show ch.size - 1 + 1 = ch.size
      omega

end Channel

end Alyrn.Coro
