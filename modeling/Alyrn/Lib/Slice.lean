import Mathlib.Data.List.Basic

/-!
# Slices of a flat storage

`slice` reads a range of a list and `splice` overwrites one, as a copy into a flat array does. A
range reads back what was written to it, and ranges that do not overlap do not see each other;
`slice_splice_slot` is the case of equal-sized slots side by side.
-/

namespace List

variable {α : Type*}

/-- The `n` elements from position `off` on. -/
def slice (l : List α) (off n : ℕ) : List α := (l.drop off).take n

/-- Overwrites the elements from position `off` on by `src`. -/
def splice (l : List α) (off : ℕ) (src : List α) : List α :=
  l.take off ++ src ++ l.drop (off + src.length)

variable {l src : List α} {off : ℕ}

theorem length_splice (h : off + src.length ≤ l.length) : (l.splice off src).length = l.length := by
  simp only [splice, length_append, length_take, length_drop]
  omega

theorem getElem?_slice (l : List α) (off n i : ℕ) :
    (l.slice off n)[i]? = if i < n then l[off + i]? else none := by
  rw [slice, getElem?_take, getElem?_drop]

theorem getElem?_splice (h : off ≤ l.length) (i : ℕ) :
    (l.splice off src)[i]? =
      if off ≤ i ∧ i < off + src.length then src[i - off]? else l[i]? := by
  have hlen : (l.take off).length = off := by rw [length_take]; exact Nat.min_eq_left h
  rw [splice, append_assoc]
  rcases Nat.lt_or_ge i off with hi | hi
  · rw [getElem?_append_left (by omega), getElem?_take, if_pos hi, if_neg (by omega)]
  · rw [getElem?_append_right (by omega), hlen]
    by_cases hs : i < off + src.length
    · rw [getElem?_append_left (by omega), if_pos ⟨hi, hs⟩]
    · rw [getElem?_append_right (by omega), getElem?_drop, if_neg (by omega)]
      congr 1
      omega

theorem slice_splice_self (h : off ≤ l.length) : (l.splice off src).slice off src.length = src := by
  apply ext_getElem?
  intro i
  rw [getElem?_slice, getElem?_splice h]
  by_cases hi : i < src.length
  · rw [if_pos hi, if_pos (by omega)]
    congr 1
    omega
  · rw [if_neg hi, getElem?_eq_none (by omega)]

theorem slice_splice_of_disjoint {off off' n : ℕ} (h : off ≤ l.length)
    (hd : off' + n ≤ off ∨ off + src.length ≤ off') :
    (l.splice off src).slice off' n = l.slice off' n := by
  apply ext_getElem?
  intro i
  rw [getElem?_slice, getElem?_slice, getElem?_splice h]
  by_cases hi : i < n
  · rw [if_pos hi, if_pos hi, if_neg (by omega)]
  · rw [if_neg hi, if_neg hi]

theorem slice_splice_slot {size i j n : ℕ} (hi : (i + 1) * size ≤ l.length)
    (hsrc : src.length ≤ size) (hn : n ≤ size) (hij : i ≠ j) :
    (l.splice (i * size) src).slice (j * size) n = l.slice (j * size) n := by
  have hi' : i * size ≤ l.length :=
    Nat.le_trans (Nat.mul_le_mul_right size (Nat.le_succ i)) hi
  refine slice_splice_of_disjoint hi' ?_
  rcases Nat.lt_or_gt_of_ne hij with h | h
  · right
    have := Nat.mul_le_mul_right size (Nat.succ_le_of_lt h)
    rw [Nat.succ_mul] at this
    omega
  · left
    have := Nat.mul_le_mul_right size (Nat.succ_le_of_lt h)
    rw [Nat.succ_mul] at this
    omega

end List
