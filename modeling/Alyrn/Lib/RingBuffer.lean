import Mathlib.Data.List.Rotate
import Mathlib.Data.Nat.ModEq

/-!
# Ring buffers

A ring over a fixed storage: `count` live elements from position `head` on, wrapping at the end of
the storage. The bounds are fields of the structure, so a ring that overran its storage cannot be
built; `push?` refuses a full ring and `pop?` an empty one.

* `RingBuffer.toList`: the live elements in order.
* `toList_push`, `toList_pop`: on that list the ring is a bounded queue.
* `toList_set`: a write outside the live positions changes nothing.
-/

/-- A ring of `buf.length` positions. -/
structure RingBuffer (α : Type*) where
  buf : List α
  head : ℕ
  count : ℕ
  head_lt : buf ≠ [] → head < buf.length
  count_le : count ≤ buf.length

namespace RingBuffer

variable {α : Type*} {r r' : RingBuffer α} {a : α}

/-- The empty ring over `n` positions, filled with `a`. -/
def empty (n : ℕ) (a : α) : RingBuffer α where
  buf := List.replicate n a
  head := 0
  count := 0
  head_lt h := List.length_pos_iff.mpr h
  count_le := Nat.zero_le _

def capacity (r : RingBuffer α) : ℕ := r.buf.length

/-- The live elements in order. -/
def toList (r : RingBuffer α) : List α := (r.buf.rotate r.head).take r.count

@[simp] theorem length_toList (r : RingBuffer α) : r.toList.length = r.count := by
  simp [toList, r.count_le]

@[simp] theorem capacity_empty (n : ℕ) (a : α) : (empty n a).capacity = n := by
  simp [empty, capacity]

@[simp] theorem toList_empty (n : ℕ) (a : α) : (empty n a).toList = [] := by
  simp [empty, toList]

theorem toList_eq_nil : r.toList = [] ↔ r.count = 0 := by
  rw [← List.length_eq_zero_iff, length_toList]

theorem getElem?_toList {i : ℕ} (hi : i < r.count) :
    r.toList[i]? = r.buf[(r.head + i) % r.buf.length]? := by
  have hlen : i < r.buf.length := Nat.lt_of_lt_of_le hi r.count_le
  rw [toList, List.getElem?_take, if_pos hi, List.getElem?_rotate hlen, Nat.add_comm]

theorem mod_ne_of_lt {a i j n : ℕ} (hi : i < n) (hj : j < n) (hij : i ≠ j) :
    (a + i) % n ≠ (a + j) % n := by
  intro heq
  have hmod : i % n = j % n := Nat.ModEq.add_left_cancel' a heq
  rw [Nat.mod_eq_of_lt hi, Nat.mod_eq_of_lt hj] at hmod
  exact hij hmod

theorem toList_set {i : ℕ} (hbuf : r'.buf = r.buf.set i a)
    (hhead : r'.head = r.head) (hcount : r'.count = r.count)
    (hi : ∀ j < r.count, i ≠ (r.head + j) % r.buf.length) : r'.toList = r.toList := by
  apply List.ext_getElem?
  intro j
  by_cases hj : j < r.count
  · rw [getElem?_toList (by omega), getElem?_toList hj, hbuf, hhead, List.length_set,
      List.getElem?_set_ne (hi j hj)]
  · rw [List.getElem?_eq_none (by simp; omega), List.getElem?_eq_none (by simpa using hj)]

def push? (r : RingBuffer α) (a : α) : Option (RingBuffer α) :=
  if h : r.count < r.buf.length then
    some {
      buf := r.buf.set ((r.head + r.count) % r.buf.length) a
      head := r.head
      count := r.count + 1
      head_lt := fun _ => by
        rw [List.length_set]
        exact r.head_lt fun hb => by simp [hb] at h
      count_le := by
        rw [List.length_set]
        exact h }
  else none

def pop? (r : RingBuffer α) : Option (α × RingBuffer α) :=
  if h : r.count = 0 then none
  else
    have hpos : 0 < r.buf.length :=
      Nat.lt_of_lt_of_le (Nat.pos_of_ne_zero h) r.count_le
    some (r.buf.get ⟨r.head, r.head_lt (List.length_pos_iff.mp hpos)⟩, {
      buf := r.buf
      head := (r.head + 1) % r.buf.length
      count := r.count - 1
      head_lt := fun _ => Nat.mod_lt _ hpos
      count_le := Nat.le_trans (Nat.sub_le _ _) r.count_le })

theorem push?_eq_none : r.push? a = none ↔ r.capacity ≤ r.count := by
  unfold push? capacity
  split_ifs with h
  · simpa using h
  · simpa using h

theorem pop?_eq_none : r.pop? = none ↔ r.toList = [] := by
  rw [toList_eq_nil]
  unfold pop?
  split_ifs with h <;> simp [h]

theorem toList_push (h : r.push? a = some r') :
    r'.toList = r.toList ++ [a] ∧ r'.capacity = r.capacity := by
  unfold push? at h
  split_ifs at h with hlt
  cases h
  refine ⟨?_, by simp [capacity]⟩
  have hpos : 0 < r.buf.length := by omega
  apply List.ext_getElem?
  intro i
  rcases Nat.lt_trichotomy i r.count with hi | rfl | hi
  · -- an older element: its position is not the one written
    have hne : (r.head + r.count) % r.buf.length ≠ (r.head + i) % r.buf.length :=
      mod_ne_of_lt hlt (by omega) (by omega)
    rw [getElem?_toList (by simpa using Nat.lt_succ_of_lt hi), List.getElem?_append_left
      (by simpa using hi), getElem?_toList hi, List.length_set, List.getElem?_set_ne hne]
  · rw [getElem?_toList (by simp), List.getElem?_append_right (by simp), List.length_set,
      List.getElem?_set_self (Nat.mod_lt _ hpos)]
    simp
  · rw [List.getElem?_eq_none (by simp; omega), List.getElem?_eq_none (by simp; omega)]

theorem toList_pop (h : r.pop? = some (a, r')) :
    r.toList = a :: r'.toList ∧ r'.capacity = r.capacity := by
  unfold pop? at h
  split_ifs at h with hz
  cases h
  refine ⟨?_, rfl⟩
  have hcount := r.count_le
  have hhead : r.head < r.buf.length := r.head_lt (List.length_pos_iff.mp (by omega))
  apply List.ext_getElem?
  intro i
  cases i with
  | zero =>
    rw [getElem?_toList (by omega), Nat.add_zero, Nat.mod_eq_of_lt hhead]
    simp [hhead]
  | succ i =>
    rw [List.getElem?_cons_succ]
    by_cases hi : i + 1 < r.count
    · rw [getElem?_toList hi, getElem?_toList (by simp only; omega)]
      congr 1
      rw [Nat.mod_add_mod]
      congr 1
      omega
    · rw [List.getElem?_eq_none (by simpa using hi), List.getElem?_eq_none (by simp; omega)]

/-- The oldest element is taken and its position is overwritten. -/
theorem exists_pop_set (r : RingBuffer α) (hz : r.count ≠ 0) (b : α) :
    ∃ (a : α) (r' : RingBuffer α), r.buf[r.head]? = some a ∧ r.toList = a :: r'.toList ∧
      r'.buf = r.buf.set r.head b ∧ r'.head = (r.head + 1) % r.buf.length ∧
      r'.count = r.count - 1 := by
  have hcount := r.count_le
  have hpos : 0 < r.buf.length := by omega
  have hhead : r.head < r.buf.length := r.head_lt (List.length_pos_iff.mp hpos)
  have hpop : ∃ a r', r.pop? = some (a, r') ∧ r.buf[r.head]? = some a ∧ r'.buf = r.buf ∧
      r'.head = (r.head + 1) % r.buf.length ∧ r'.count = r.count - 1 :=
    ⟨_, _, dif_neg hz, List.getElem?_eq_getElem hhead, rfl, rfl, rfl⟩
  obtain ⟨a, r', hp, ha, hbuf, hh, hc⟩ := hpop
  refine ⟨a, ⟨r.buf.set r.head b, r'.head, r'.count, fun _ => ?_, ?_⟩, ha, ?_, rfl, hh, hc⟩
  · rw [List.length_set, hh]
    exact Nat.mod_lt _ hpos
  · rw [List.length_set, hc]
    omega
  · rw [(toList_pop hp).1]
    refine congrArg (a :: ·) (Eq.symm ?_)
    refine toList_set (congrArg (·.set r.head b) hbuf.symm) rfl rfl fun j hj => ?_
    rw [hbuf, hh, Nat.mod_add_mod, Nat.add_assoc]
    have := mod_ne_of_lt (a := r.head) hpos (show 1 + j < r.buf.length by omega) (by omega)
    rwa [Nat.add_zero, Nat.mod_eq_of_lt hhead] at this

end RingBuffer
