import Mathlib.Data.List.Perm.Basic
import Alyrn.Lib.Slice

/-!
# Pools of equal slots

A flat memory of `n` slots of `size` elements each. `Covers` says that every slot is either free or
in use; filling a free slot then changes nothing that a slot in use shows.
-/

namespace SlotPool

/-- Each of the `n` slots is once among the free or the used ones. -/
structure Covers {α : Type*} (n size : ℕ) (memory : List α) (free used : List ℕ) : Prop where
  slots : (free ++ used).Perm (List.range n)
  length : memory.length = n * size

namespace Covers

variable {α : Type*} {n size slot : ℕ} {memory src : List α} {free used used' : List ℕ}

theorem init (n size : ℕ) (a : α) :
    Covers n size (List.replicate (n * size) a) (List.range n).reverse [] :=
  ⟨by rw [List.append_nil]; exact List.reverse_perm _, List.length_replicate⟩

section

variable (h : Covers n size memory free used)
include h

theorem lt {i : ℕ} (hi : i ∈ free ∨ i ∈ used) : i < n :=
  List.mem_range.mp (h.slots.subset (List.mem_append.mpr hi))

theorem end_le {i : ℕ} (hi : i < n) : (i + 1) * size ≤ memory.length := by
  rw [h.length]
  exact Nat.mul_le_mul_right _ hi

theorem length_add : free.length + used.length = n := by
  have := h.slots.length_eq
  rwa [List.length_append, List.length_range] at this

theorem free_ne_nil (hn : used.length < n) : free ≠ [] := by
  rintro rfl
  have := h.length_add
  rw [List.length_nil] at this
  omega

end

section

variable (h : Covers n size memory (slot :: free) used)
include h

theorem free_ne {i : ℕ} (hi : i ∈ used) : slot ≠ i := by
  have hnd : (slot :: free ++ used).Nodup := h.slots.nodup_iff.mpr List.nodup_range
  rintro rfl
  rw [List.cons_append, List.nodup_cons] at hnd
  exact hnd.1 (List.mem_append_right _ hi)

theorem start_add_le : slot * size + size ≤ memory.length := by
  have := h.end_le (h.lt (.inl List.mem_cons_self))
  rwa [Nat.succ_mul] at this

theorem slice_splice_used (hsrc : src.length ≤ size) {i k : ℕ} (hk : k ≤ size) (hi : i ∈ used) :
    (memory.splice (slot * size) src).slice (i * size) k = memory.slice (i * size) k :=
  List.slice_splice_slot (h.end_le (h.lt (.inl List.mem_cons_self))) hsrc hk (h.free_ne hi)

theorem length_splice (hsrc : src.length ≤ size) :
    (memory.splice (slot * size) src).length = memory.length := by
  have := h.start_add_le
  exact List.length_splice (by omega)

theorem slice_splice (src : List α) :
    (memory.splice (slot * size) src).slice (slot * size) src.length = src := by
  have := h.start_add_le
  exact List.slice_splice_self (by omega)

end

theorem perm (h : Covers n size memory free used) (hp : used'.Perm used) :
    Covers n size memory free used' :=
  ⟨(hp.append_left free).trans h.slots, h.length⟩

theorem take (h : Covers n size memory (slot :: free) used) (hsrc : src.length ≤ size)
    (hp : used'.Perm (slot :: used)) :
    Covers n size (memory.splice (slot * size) src) free used' := by
  refine ⟨?_, (h.length_splice hsrc).trans h.length⟩
  refine ((hp.append_left free).trans ?_).trans h.slots
  exact List.perm_middle

theorem giveBack (h : Covers n size memory free used) (hp : used.Perm (slot :: used')) :
    Covers n size memory (slot :: free) used' := by
  refine ⟨?_, h.length⟩
  refine List.Perm.trans ?_ ((hp.symm.append_left free).trans h.slots)
  exact List.perm_middle.symm

end Covers

end SlotPool
