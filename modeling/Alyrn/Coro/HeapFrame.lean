import Alyrn.Coro.FramePool
import Mathlib.Logic.Function.Basic
import Mathlib.Tactic.IntervalCases

/-!
# Heap coroutine frames

`AllocateHeapFrame` puts a header at the beginning of the block that it gets from the current
resource, the frame at the first aligned address behind header and marker, and a pointer to the
header into the word before the frame. `DeallocateFrame` has only the frame: it first asks the slab
map whether it is a pooled slot, and otherwise goes through the marker to the header, which holds
the resource and, packed into one word, the byte count and the alignment.

Sizes and addresses are 64-bit words, with the arithmetic of `std::size_t`. Memory is a map from
the addresses of words to words. What the resource answers is given as a function.
-/

namespace Alyrn.Coro

open Function

/-! ## The source -/

/-- Addition, subtraction and the largest value of `std::size_t`. -/
def addSize (a b : ℕ) : ℕ := (a + b) % 2 ^ 64
def subSize (a b : ℕ) : ℕ := (2 ^ 64 + a - b) % 2 ^ 64
def maxSize : ℕ := 2 ^ 64 - 1

/-- `std::has_single_bit` and `std::countr_zero`. -/
def hasSingleBit (x : ℕ) : Bool := x ≠ 0 ∧ x &&& (x - 1) = 0
def countrZero (x : ℕ) : ℕ := ((List.range 64).find? x.testBit).getD 64

/-- `std::align`: the first aligned address, if the object still fits into the space. -/
def alignPointer (alignment size pointer space : ℕ) : Option ℕ :=
  let aligned := (pointer + alignment - 1) / alignment * alignment
  if size + (aligned - pointer) ≤ space then some aligned else none

/-- `kFrameMetadataBytesBits`, `kFrameMetadataBytesMask`, `kFrameMetadataMaxAlignmentExponent`. -/
def frameMetadataBytesBits : ℕ := 60
def frameMetadataBytesMask : ℕ := 2 ^ 60 - 1
def frameMetadataMaxAlignmentExponent : ℕ := 15

/-- `PackFrameMetadata`; `none` is a failed check. -/
def packFrameMetadata (bytes alignment : ℕ) : Option ℕ :=
  if ¬ bytes ≤ frameMetadataBytesMask then none
  else if ¬ (alignment ≠ 0 ∧ hasSingleBit alignment) then none
  else if ¬ countrZero alignment ≤ frameMetadataMaxAlignmentExponent then none
  else some (bytes ||| (countrZero alignment <<< frameMetadataBytesBits) % 2 ^ 64)

def unpackFrameBytes (metadata : ℕ) : ℕ := metadata &&& frameMetadataBytesMask

def unpackFrameAlignment (metadata : ℕ) : ℕ :=
  (1 <<< (metadata >>> frameMetadataBytesBits)) % 2 ^ 64

/-- The sizes of `FrameAllocationHeader` and of the marker, and their alignment. -/
def frameHeaderSize : ℕ := 16
def frameMarkerSize : ℕ := 8
def wordAlignment : ℕ := 8

/-- The words of memory by address. -/
abbrev Memory := ℕ → ℕ

/-- A call of `deallocate` on a resource. -/
structure Release where
  resource : ℕ
  allocation : ℕ
  bytes : ℕ
  alignment : ℕ
  deriving DecidableEq, Repr

/-- How `AllocateHeapFrame` ends. -/
inductive FrameOutcome where
  | threw
  | aborted
  | returned (frame : ℕ)
  deriving DecidableEq, Repr

/-- The outcome, the memory left, and a block that was given back. -/
structure HeapFrame where
  outcome : FrameOutcome
  memory : Memory
  released : Option Release := none

/-- The number of bytes that `AllocateHeapFrame` asks for, behind its first two tests. -/
def heapFrameBytes (frameSize alignment : ℕ) : Option ℕ :=
  let before := frameHeaderSize + frameMarkerSize
  if frameSize > subSize maxSize before ∨
      alignment > subSize maxSize (addSize before frameSize) then none
  else some (subSize (addSize (addSize before frameSize) alignment) 1)

/-- `AllocateHeapFrame` with the current resource, whose answers are `allocate`. -/
def allocateHeapFrame (resource : ℕ) (allocate : ℕ → ℕ → Option ℕ) (memory : Memory)
    (frameSize frameAlignment : ℕ) : HeapFrame :=
  let alignment := max frameAlignment wordAlignment
  let before := frameHeaderSize + frameMarkerSize
  match heapFrameBytes frameSize alignment with
  | none => ⟨.threw, memory, none⟩
  | some bytes =>
    if bytes > frameMetadataBytesMask ∨ ¬ hasSingleBit alignment ∨
        countrZero alignment > frameMetadataMaxAlignmentExponent then ⟨.threw, memory, none⟩
    else
      match allocate bytes alignment with
      | none => ⟨.threw, memory, none⟩
      | some allocation =>
        match packFrameMetadata bytes alignment with
        | none => ⟨.aborted, memory, none⟩
        | some metadata =>
          let memory := update memory allocation resource
          let memory := update memory (addSize allocation 8) metadata
          let available := subSize bytes before
          match alignPointer frameAlignment frameSize (addSize allocation before) available with
          | none => ⟨.threw, memory, some ⟨resource, allocation, bytes, alignment⟩⟩
          | some frame =>
            ⟨.returned frame, update memory (subSize frame frameMarkerSize) allocation,
              none⟩

/-- What `DeallocateFrame` does with a frame. -/
inductive FrameRelease where
  /-- `TryDeallocate` has taken the frame for a slot of the slab. -/
  | pooled (slab : Slab)
  | nothing
  | release (r : Release)
  deriving DecidableEq

def tryDeallocate (map : SlabMap) (frame : ℕ) : Option Slab :=
  if frame = 0 then none
  else (map.lookupSlab frame).filter (·.isSlot frame)

def deallocateFrame (map : SlabMap) (memory : Memory) (frame : ℕ) : FrameRelease :=
  match tryDeallocate map frame with
  | some slab => .pooled slab
  | none =>
    if frame = 0 then .nothing
    else
      let header := memory (subSize frame frameMarkerSize)
      let metadata := memory (addSize header 8)
      .release ⟨memory header, header, unpackFrameBytes metadata, unpackFrameAlignment metadata⟩

/-! ## Powers of two -/

theorem hasSingleBit_two_pow (e : ℕ) : hasSingleBit (2 ^ e) = true := by
  have hpos : 2 ^ e ≠ 0 := Nat.ne_of_gt (Nat.two_pow_pos e)
  simp [hasSingleBit, Nat.and_two_pow_sub_one_eq_mod]

theorem countrZero_two_pow {e : ℕ} (he : e < 64) : countrZero (2 ^ e) = e := by
  have : (List.range 64).find? (2 ^ e).testBit = some e := by
    rw [List.find?_range_eq_some]
    refine ⟨by simp, by simpa using he, fun j hj => ?_⟩
    simp [Nat.testBit_two_pow]
    omega
  rw [countrZero, this]
  rfl

theorem unpack_packFrameMetadata {bytes e : ℕ} (hb : bytes < 2 ^ 60) (he : e ≤ 15) :
    ∃ m, packFrameMetadata bytes (2 ^ e) = some m ∧ unpackFrameBytes m = bytes ∧
      unpackFrameAlignment m = 2 ^ e := by
  have hc := countrZero_two_pow (e := e) (by omega)
  have hshift : (e <<< 60) % 2 ^ 64 = e * 2 ^ 60 := by
    rw [Nat.shiftLeft_eq]
    exact Nat.mod_eq_of_lt (by omega)
  have hor : bytes ||| e * 2 ^ 60 = e * 2 ^ 60 + bytes := by
    rw [← Nat.shiftLeft_eq, Nat.or_comm, Nat.shiftLeft_add_eq_or_of_lt hb]
  refine ⟨e * 2 ^ 60 + bytes, ?_, ?_, ?_⟩
  · have hm : ¬ ¬ bytes ≤ frameMetadataBytesMask := by
      simp only [frameMetadataBytesMask]
      omega
    have he' : ¬ ¬ countrZero (2 ^ e) ≤ frameMetadataMaxAlignmentExponent := by
      rw [hc]
      simpa [frameMetadataMaxAlignmentExponent] using he
    rw [packFrameMetadata, if_neg hm, if_neg (by simp [hasSingleBit_two_pow]), if_neg he', hc,
      frameMetadataBytesBits, hshift, hor]
  · rw [unpackFrameBytes, frameMetadataBytesMask, Nat.and_two_pow_sub_one_eq_mod]
    omega
  · have hdiv : (e * 2 ^ 60 + bytes) >>> 60 = e := by
      rw [Nat.shiftRight_eq_div_pow]
      omega
    rw [unpackFrameAlignment, frameMetadataBytesBits, hdiv, Nat.one_shiftLeft]
    exact Nat.mod_eq_of_lt (Nat.pow_lt_pow_right (by omega) (by omega))

/-! ## The block -/

/-- The alignment and the size that the block is requested with, over the natural numbers. -/
def blockAlignment (frameAlignment : ℕ) : ℕ := max frameAlignment wordAlignment
/-- The exact size of a block, before any overflow. -/
def blockBytes (frameSize frameAlignment : ℕ) : ℕ :=
  frameHeaderSize + frameMarkerSize + frameSize + blockAlignment frameAlignment - 1

/-- What a resource answers: memory within the address space, aligned as requested, or the slot
that `AllocatePooled` takes from the free list of the class of the request. -/
def Serves (bytes alignment allocation : ℕ) : Prop :=
  allocation + bytes ≤ 2 ^ 64 ∧ (alignment ∣ allocation ∨ ∃ (s : Slab) (i : ℕ), i < s.slotCount ∧
    findSizeClass bytes alignment = s.sizeClass ∧ allocation = s.slot i)

/-- A slab next to a block that is in use: the block is not in its chunk, or within one slot, or it
is a slot that the pool has served. -/
def Slab.Beside (s : Slab) (bytes alignment allocation : ℕ) : Prop :=
  (allocation + bytes ≤ s.base ∨ s.base + chunkBytes ≤ allocation) ∨
  ∃ i, s.slot i ≤ allocation ∧ (allocation + bytes ≤ s.slot i + s.slotSize ∨
    findSizeClass bytes alignment = s.sizeClass ∧ allocation = s.slot i)

/-- A frame in its block, with the header at the beginning of the block. -/
structure Placed (frameSize frameAlignment allocation frame : ℕ) : Prop where
  aligned : frameAlignment ∣ frame
  marker : allocation + frameHeaderSize ≤ frame - frameMarkerSize
  marker_aligned : wordAlignment ∣ allocation ∧ wordAlignment ∣ frame - frameMarkerSize
  inside : frame + frameSize ≤ allocation + blockBytes frameSize frameAlignment
  /-- Also an empty frame begins inside the block. -/
  begins : allocation < frame ∧ frame < allocation + blockBytes frameSize frameAlignment

theorem addSize_eq {a b : ℕ} (h : a + b < 2 ^ 64) : addSize a b = a + b := Nat.mod_eq_of_lt h

theorem subSize_eq {a b : ℕ} (ha : a < 2 ^ 64) (h : b ≤ a) : subSize a b = a - b := by
  unfold subSize
  omega

theorem blockAlignment_two_pow (e : ℕ) : blockAlignment (2 ^ e) = 2 ^ max e 3 := by
  rcases Nat.le_total e 3 with he | he
  · rw [Nat.max_eq_right he]
    exact Nat.max_eq_right (Nat.pow_le_pow_right (by decide) he)
  · rw [Nat.max_eq_left he]
    exact Nat.max_eq_left (Nat.pow_le_pow_right (n := 2) (i := 3) (by decide) he)

theorem Serves.dvd {bytes e a : ℕ} (h : Serves bytes (2 ^ e) a) : 2 ^ e ∣ a := by
  obtain ⟨-, h | ⟨s, i, -, hclass, rfl⟩⟩ := h
  · exact h
  · have hle : 2 ^ e ≤ 2 ^ 4 := (le_of_findSizeClass hclass).2
    have he : e ≤ 4 := (Nat.pow_le_pow_iff_right (by decide)).mp hle
    exact Nat.dvd_trans (Nat.pow_dvd_pow 2 he) (s.slotAlignment_dvd i)

/-- **Where the frame begins**: at most the alignment less one word behind header and marker. -/
theorem first_aligned {e a : ℕ} (ha : 2 ^ max e 3 ∣ a) :
    let frame := (a + 24 + 2 ^ e - 1) / 2 ^ e * 2 ^ e
    2 ^ e ∣ frame ∧ 8 ∣ frame ∧ a + 24 ≤ frame ∧ frame + 8 ≤ a + 24 + 2 ^ max e 3 := by
  rcases Nat.le_total e 3 with he | he
  · rw [Nat.max_eq_right he] at ha ⊢
    interval_cases e <;> omega
  · rw [Nat.max_eq_left he] at ha ⊢
    -- the bounds of the division, with both sides multiples of a word
    have h8 : 8 ∣ 2 ^ e := Nat.pow_dvd_pow (m := 3) 2 he
    have hlow := Nat.lt_div_mul_add (a := a + 24 + 2 ^ e - 1) (Nat.two_pow_pos e)
    have hhigh := Nat.div_mul_le_self (a + 24 + 2 ^ e - 1) (2 ^ e)
    have hdvd : 2 ^ e ∣ (a + 24 + 2 ^ e - 1) / 2 ^ e * 2 ^ e := Nat.dvd_mul_left ..
    have hdvd8 := Nat.dvd_trans h8 hdvd
    have ha8 := Nat.dvd_trans h8 ha
    have hpos := Nat.two_pow_pos e
    exact ⟨hdvd, hdvd8, by omega, by omega⟩

theorem Slab.Beside.not_isSlot {s : Slab} {bytes alignment a frame : ℕ}
    (h : s.Beside bytes alignment a) (hlow : a < frame) (hhigh : frame < a + bytes) :
    s.isSlot frame = false := by
  rw [Bool.eq_false_iff, Ne, s.isSlot_iff]
  rintro ⟨j, hj, rfl⟩
  have hend : s.slot j + s.slotSize ≤ s.base + chunkBytes := by
    have h₁ := s.slots_le
    have h₂ : (j + 1) * s.slotSize ≤ s.slotCount * s.slotSize := Nat.mul_le_mul_right _ hj
    rw [Nat.add_one_mul] at h₂
    unfold Slab.slot
    omega
  rcases h with h | ⟨i, hi, h⟩
  · have hbase : s.base ≤ s.slot j := by unfold Slab.slot; omega
    have := s.slotSize_pos
    omega
  · -- between the beginnings of two consecutive slots there is none
    have hfits : s.slot j < s.slot i + s.slotSize := by
      rcases h with h | ⟨hclass, rfl⟩
      · omega
      · have := (le_of_findSizeClass hclass).1
        omega
    have hij : i * s.slotSize < j * s.slotSize := by
      unfold Slab.slot at *
      omega
    have hji : j * s.slotSize < (i + 1) * s.slotSize := by
      rw [Nat.add_one_mul]
      unfold Slab.slot at *
      omega
    have := Nat.lt_of_mul_lt_mul_right hij
    have := Nat.lt_of_mul_lt_mul_right hji
    omega

theorem heapFrameBytes_eq {frameSize alignment n : ℕ} (hpos : 0 < alignment)
    (h : heapFrameBytes frameSize alignment = some n) :
    n = 24 + frameSize + alignment - 1 ∧ n < 2 ^ 64 := by
  unfold heapFrameBytes at h
  dsimp only at h
  rw [show frameHeaderSize + frameMarkerSize = 24 from rfl,
    show subSize maxSize 24 = 2 ^ 64 - 25 by decide] at h
  split_ifs at h with hg
  obtain ⟨hsize, halign⟩ := not_or.mp hg
  have hsum : addSize 24 frameSize = 24 + frameSize := addSize_eq (by omega)
  rw [hsum, subSize_eq (by decide) (by unfold maxSize; omega), maxSize] at halign
  rw [hsum, addSize_eq (by omega), subSize_eq (by omega) (by omega)] at h
  have hn := Option.some.inj h
  omega

/-! ## Allocation and release -/

section

variable {e : ℕ} {allocate : ℕ → ℕ → Option ℕ} {memory : Memory}

/-- **What `AllocateHeapFrame` does**: it throws before it writes, or it writes the header and the
marker. `std::align` does not fail. -/
theorem allocateHeapFrame_cases (resource : ℕ) (memory : Memory) (frameSize : ℕ) (he : e < 64)
    (hserves : ∀ bytes alignment a, allocate bytes alignment = some a → Serves bytes alignment a) :
    allocateHeapFrame resource allocate memory frameSize (2 ^ e) = ⟨.threw, memory, none⟩ ∨
    ∃ a frame metadata, blockBytes frameSize (2 ^ e) < 2 ^ 60 ∧
      allocate (blockBytes frameSize (2 ^ e)) (blockAlignment (2 ^ e)) = some a ∧
      Placed frameSize (2 ^ e) a frame ∧
      unpackFrameBytes metadata = blockBytes frameSize (2 ^ e) ∧
      unpackFrameAlignment metadata = blockAlignment (2 ^ e) ∧ frame < 2 ^ 64 ∧
      allocateHeapFrame resource allocate memory frameSize (2 ^ e) = ⟨.returned frame,
        update (update (update memory a resource) (a + 8) metadata)
          (frame - 8) a, none⟩ := by
  have hblock := blockAlignment_two_pow e
  have hbytes : blockBytes frameSize (2 ^ e) = 24 + frameSize + 2 ^ max e 3 - 1 := by
    rw [blockBytes, hblock]
    rfl
  rw [hbytes, hblock]
  have hlow : 8 ≤ 2 ^ max e 3 :=
    Nat.pow_le_pow_right (n := 2) (i := 3) (by decide) (Nat.le_max_right ..)
  unfold allocateHeapFrame
  dsimp only
  rw [show max (2 ^ e) wordAlignment = 2 ^ max e 3 from hblock,
    show frameHeaderSize + frameMarkerSize = 24 from rfl]
  cases hn : heapFrameBytes frameSize (2 ^ max e 3) with
  | none => exact .inl rfl
  | some n =>
  obtain ⟨rfl, hlt⟩ := heapFrameBytes_eq (Nat.two_pow_pos _) hn
  dsimp only
  set bytes := 24 + frameSize + 2 ^ max e 3 - 1
  by_cases h₂ : bytes > frameMetadataBytesMask ∨ ¬ hasSingleBit (2 ^ max e 3) = true ∨
      countrZero (2 ^ max e 3) > frameMetadataMaxAlignmentExponent
  · rw [if_pos h₂]
    exact .inl rfl
  rw [if_neg h₂]
  obtain ⟨hmask, -, hexp⟩ : ¬ bytes > frameMetadataBytesMask ∧ _ ∧
      ¬ countrZero (2 ^ max e 3) > frameMetadataMaxAlignmentExponent := by
    simpa only [not_or] using h₂
  rw [countrZero_two_pow (by omega), frameMetadataMaxAlignmentExponent] at hexp
  have hmask : bytes < 2 ^ 60 := by
    unfold frameMetadataBytesMask at hmask
    omega
  cases hall : allocate bytes (2 ^ max e 3) with
  | none => exact .inl rfl
  | some a =>
    have ha := hserves _ _ _ hall
    obtain ⟨metadata, hpack, hub, hua⟩ := unpack_packFrameMetadata hmask (e := max e 3) (by omega)
    obtain ⟨hdvd, h8, hge, hle⟩ := first_aligned ha.dvd
    have hend := ha.1
    have hword : 8 ∣ a := Nat.dvd_trans (Nat.pow_dvd_pow (m := 3) 2 (Nat.le_max_right ..)) ha.dvd
    set frame := (a + 24 + 2 ^ e - 1) / 2 ^ e * 2 ^ e
    have hptr : alignPointer (2 ^ e) frameSize (addSize a 24) (subSize bytes 24) = some frame := by
      rw [addSize_eq (by omega), subSize_eq (by omega) (by omega)]
      exact if_pos (by omega)
    refine .inr ⟨a, frame, metadata, hmask, rfl, ?_, hub, hua, by omega, ?_⟩
    · have hb : blockBytes frameSize (2 ^ e) = bytes := hbytes
      exact ⟨hdvd, by simp only [frameHeaderSize, frameMarkerSize]; omega,
        ⟨hword, Nat.dvd_sub h8 (Nat.dvd_refl 8)⟩, by rw [hb]; omega, by omega, by rw [hb]; omega⟩
    · rw [hpack]
      dsimp only
      rw [hptr]
      dsimp only
      rw [addSize_eq (a := a) (b := 8) (by omega), frameMarkerSize,
        subSize_eq (a := frame) (b := 8) (by omega) (by omega)]

theorem deallocateFrame_eq {map : SlabMap} {a frame metadata : ℕ} (hframe : frame < 2 ^ 64)
    (hlow : a + 24 ≤ frame) (hslot : ∀ l1 l2 s, map l1 l2 = some s → s.isSlot frame = false)
    (hmarker : memory (frame - 8) = a) (hmeta : memory (a + 8) = metadata) :
    deallocateFrame map memory frame = .release
      ⟨memory a, a, unpackFrameBytes metadata, unpackFrameAlignment metadata⟩ := by
  have hnone : tryDeallocate map frame = none := by
    unfold tryDeallocate SlabMap.lookupSlab
    rw [if_neg (by omega), Option.filter_eq_none_iff]
    dsimp only
    split_ifs
    · nofun
    · intro s hs
      simp [hslot _ _ s hs]
  unfold deallocateFrame
  rw [hnone]
  dsimp only
  rw [if_neg (by omega), subSize_eq (b := frameMarkerSize) hframe
    (by simp only [frameMarkerSize]; omega), frameMarkerSize, hmarker,
    addSize_eq (a := a) (b := 8) (by omega), hmeta]

end

/-- **Heap frames come back as they were allocated.** For every size and every alignment, the size
of the block does not wrap, and `AllocateHeapFrame` throws with nothing written, or returns a frame
that lies aligned in its block with the marker before it; whatever is then written to the frame and
whatever slabs there are, `DeallocateFrame` hands the resource the address, size and alignment of
the block. -/
theorem heap_frame_returned (resource : ℕ) (allocate : ℕ → ℕ → Option ℕ) (memory : Memory)
    (frameSize e : ℕ) (he : e < 64)
    (hserves : ∀ bytes alignment a, allocate bytes alignment = some a → Serves bytes alignment a) :
    let bytes := blockBytes frameSize (2 ^ e)
    let alignment := blockAlignment (2 ^ e)
    let r := allocateHeapFrame resource allocate memory frameSize (2 ^ e)
    (∀ n ∈ heapFrameBytes frameSize alignment, n = bytes ∧ bytes < 2 ^ 64) ∧
    ((r.outcome = .threw ∧ r.memory = memory ∧ r.released = none) ∨
    ∃ a frame, bytes < 2 ^ 60 ∧ allocate bytes alignment = some a ∧
      r.outcome = .returned frame ∧ r.released = none ∧ Placed frameSize (2 ^ e) a frame ∧
      ∀ (map : SlabMap) (memory' : Memory),
        (∀ l1 l2 s, map l1 l2 = some s → s.Beside bytes alignment a) →
        (∀ w, a ≤ w → w + 8 ≤ frame → memory' w = r.memory w) →
        deallocateFrame map memory' frame = .release ⟨resource, a, bytes, alignment⟩) := by
  intro bytes alignment r
  have hpos : 0 < alignment := Nat.lt_of_lt_of_le (Nat.two_pow_pos e) (Nat.le_max_left ..)
  refine ⟨fun n hn => ?_, ?_⟩
  · obtain ⟨rfl, hlt⟩ := heapFrameBytes_eq hpos hn
    exact ⟨rfl, hlt⟩
  obtain hr | ⟨a, frame, metadata, hb, hall, hp, hub, hua, hlt, hr⟩ :=
    allocateHeapFrame_cases resource memory frameSize he hserves
  · exact .inl (by simp only [r, hr, and_self])
  refine .inr ⟨a, frame, hb, hall, by simp only [r, hr], by simp only [r, hr], hp, ?_⟩
  intro map memory' hmap hkeep
  have hm : a + 16 ≤ frame - 8 := hp.marker
  have hmemory : r.memory = update (update (update memory a resource) (a + 8) metadata)
      (frame - 8) a := by simp only [r, hr]
  rw [hmemory] at hkeep
  have hmarker := hkeep (frame - 8) (by omega) (by omega)
  have hmeta := hkeep (a + 8) (by omega) (by omega)
  have hresource := hkeep a (by omega) (by omega)
  rw [update_self] at hmarker
  rw [update_of_ne (by omega), update_self] at hmeta
  rw [update_of_ne (by omega), update_of_ne (by omega), update_self] at hresource
  rw [deallocateFrame_eq hlt (by omega) (fun l1 l2 s hs =>
    (hmap l1 l2 s hs).not_isSlot hp.begins.1 hp.begins.2) hmarker hmeta, hresource, hub, hua]

def sampleSlab : Slab := ⟨2 ^ 20, 1, ⟨0, by decide⟩, by decide⟩

def sampleAllocate (bytes alignment : ℕ) : Option ℕ :=
  if bytes = 63 ∧ alignment = 16 then some (sampleSlab.slot 2) else none

/-- A frame of 24 bytes in a slot of the slab in whose chunk it lies. -/
theorem heap_frame_returned_slot :
    (allocateHeapFrame 7 sampleAllocate (fun _ => 0) 24 (2 ^ 4)).outcome =
      .returned (sampleSlab.slot 2 + 32) ∧
    deallocateFrame (fun _ _ => some sampleSlab)
      (allocateHeapFrame 7 sampleAllocate (fun _ => 0) 24 (2 ^ 4)).memory
      (sampleSlab.slot 2 + 32) = .release ⟨7, sampleSlab.slot 2, 63, 16⟩ := by
  have hclass : findSizeClass 63 16 = sampleSlab.sizeClass.val := by decide
  have hr : (allocateHeapFrame 7 sampleAllocate (fun _ => 0) 24 (2 ^ 4)).outcome =
      .returned (sampleSlab.slot 2 + 32) := by decide
  obtain ⟨-, ⟨hthrew, -⟩ | ⟨a, frame, -, ha, hframe, -, -, hd⟩⟩ :=
    heap_frame_returned 7 sampleAllocate (fun _ => 0) 24 4 (by decide) (by
      intro bytes alignment a ha
      obtain ⟨⟨rfl, rfl⟩, ha⟩ := Option.ite_none_right_eq_some.mp ha
      cases ha
      exact ⟨by decide, .inr ⟨sampleSlab, 2, by decide, hclass, rfl⟩⟩)
  · exact absurd (hr.symm.trans hthrew) (by simp)
  · cases ha
    obtain rfl : sampleSlab.slot 2 + 32 = frame := FrameOutcome.returned.inj (hr.symm.trans hframe)
    refine ⟨hr, hd _ _ (fun l1 l2 s hs => ?_) fun w _ _ => rfl⟩
    cases hs
    exact .inr ⟨2, Nat.le_refl _, .inr ⟨hclass, rfl⟩⟩

end Alyrn.Coro
