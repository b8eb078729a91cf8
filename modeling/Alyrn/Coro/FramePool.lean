import Mathlib.Tactic.NormNum

/-!
# The slabs of `CoroFramePoolResource`

A chunk is 64 KiB, aligned to its size. It begins with the header of the slab; the rest is cut into
slots of one size class. A slab is found by the address of its chunk in a two-level map, and an
address is a slot exactly when it is the beginning of one.
-/

namespace Alyrn.Coro

/-- `kSizeClassCount`, `kChunkBytes`, `kSlabHeaderBytes`, `kMaxPooledBytes`, `kSizeClasses`. -/
def sizeClassCount : ℕ := 13
def chunkBytes : ℕ := 64 * 1024
def slabHeaderBytes : ℕ := 64
def maxPooledBytes : ℕ := 16 * 1024
def sizeClasses : List ℕ :=
  [64, 96, 128, 192, 256, 384, 512, 768, 1024, 2048, 4096, 8192, 16384]

/-- `kSlotAlignment`, the alignment of `std::max_align_t`. -/
def slotAlignment : ℕ := 16

def slotsPerChunk (blockSize : ℕ) : ℕ := (chunkBytes - slabHeaderBytes) / blockSize

/-- `kClassByBytes`: the first class that is large enough. -/
def classByBytes (bytes : ℕ) : ℕ := sizeClasses.findIdx (bytes ≤ ·)

def findSizeClass (bytes alignment : ℕ) : ℕ :=
  if bytes = 0 ∨ bytes > maxPooledBytes ∨ alignment > slotAlignment then sizeClassCount
  else classByBytes bytes

/-- A slab, as `AddChunk` writes its header: the chunk, the pool that owns it and the size class. -/
structure Slab where
  base : ℕ
  owner : ℕ
  sizeClass : Fin sizeClassCount
  aligned : chunkBytes ∣ base
  deriving DecidableEq

namespace Slab

variable (s : Slab)

def slotSize : ℕ := sizeClasses.get (s.sizeClass.cast (by decide))

def slotCount : ℕ := slotsPerChunk s.slotSize

/-- The address of slot `i`. -/
def slot (i : ℕ) : ℕ := s.base + slabHeaderBytes + i * s.slotSize

def isSlot (pointer : ℕ) : Bool :=
  let first := s.base + slabHeaderBytes
  if pointer < first then false
  else
    let offset := pointer - first
    if s.slotSize = 0 ∨ offset % s.slotSize ≠ 0 then false
    else offset / s.slotSize < s.slotCount

end Slab

/-- `SlabMapIndex`: the indices of an address in the two levels of the map. -/
def slabMapIndex (address : ℕ) : ℕ × ℕ :=
  let canonical := address % 2 ^ 48
  (canonical / 2 ^ 32, canonical / 2 ^ 16 % 2 ^ 16)

/-- The slab map: an entry for each pair of indices. -/
abbrev SlabMap := ℕ → ℕ → Option Slab

def SlabMap.lookupSlab (map : SlabMap) (pointer : ℕ) : Option Slab :=
  let (l1, l2) := slabMapIndex pointer
  if l1 ≥ 2 ^ 16 then none else map l1 l2

/-! ## Geometry -/

namespace Slab

variable (s : Slab)

theorem slotSize_mem : s.slotSize ∈ sizeClasses := List.get_mem ..

theorem slotSize_pos : 0 < s.slotSize := by
  have : ∀ n ∈ sizeClasses, 0 < n := by decide
  exact this _ s.slotSize_mem

theorem slots_le : slabHeaderBytes + s.slotCount * s.slotSize ≤ chunkBytes := by
  have := Nat.div_mul_le_self (chunkBytes - slabHeaderBytes) s.slotSize
  unfold slotCount slotsPerChunk
  have : slabHeaderBytes ≤ chunkBytes := by decide
  omega

theorem slotAlignment_dvd (i : ℕ) : slotAlignment ∣ s.slot i := by
  have hbase : slotAlignment ∣ s.base := Nat.dvd_trans (by decide) s.aligned
  have hsize : slotAlignment ∣ s.slotSize := by
    have : ∀ n ∈ sizeClasses, slotAlignment ∣ n := by decide
    exact this _ s.slotSize_mem
  exact Nat.dvd_add (Nat.dvd_add hbase (by decide)) (Nat.dvd_mul_left_of_dvd hsize i)

theorem isSlot_iff (pointer : ℕ) :
    s.isSlot pointer = true ↔ ∃ i < s.slotCount, pointer = s.slot i := by
  have hpos := s.slotSize_pos
  unfold isSlot slot
  constructor
  · intro h
    dsimp only at h
    split_ifs at h with hfirst hmod
    obtain ⟨-, hmod⟩ := not_or.mp hmod
    refine ⟨_, of_decide_eq_true h, ?_⟩
    have := Nat.div_mul_cancel (Nat.dvd_of_mod_eq_zero (not_not.mp hmod))
    omega
  · rintro ⟨i, hi, rfl⟩
    have hoff : s.base + slabHeaderBytes + i * s.slotSize - (s.base + slabHeaderBytes) =
        i * s.slotSize := by omega
    rw [if_neg (by omega), hoff, if_neg (by simp; omega), Nat.mul_div_cancel _ hpos]
    exact decide_eq_true hi

end Slab

theorem le_of_findSizeClass {bytes alignment : ℕ} {s : Slab}
    (h : findSizeClass bytes alignment = s.sizeClass.val) :
    bytes ≤ s.slotSize ∧ alignment ≤ slotAlignment := by
  unfold findSizeClass at h
  split_ifs at h with hc
  · exact absurd h (Nat.ne_of_gt s.sizeClass.isLt)
  · obtain ⟨-, -, halign⟩ : bytes ≠ 0 ∧ ¬ bytes > maxPooledBytes ∧
        ¬ alignment > slotAlignment := by simpa only [not_or] using hc
    refine ⟨?_, Nat.le_of_not_lt halign⟩
    have hlt : classByBytes bytes < sizeClasses.length := h ▸ s.sizeClass.isLt
    have hfits := of_decide_eq_true (List.findIdx_getElem (w := hlt))
    have hget : s.slotSize = sizeClasses[classByBytes bytes] := by
      simp only [Slab.slotSize, List.get_eq_getElem, Fin.val_cast, h]
    rw [hget]
    exact hfits

end Alyrn.Coro
