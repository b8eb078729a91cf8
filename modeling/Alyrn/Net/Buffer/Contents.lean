import Alyrn.Net.Buffer

/-!
# The byte sequence of a buffer

The readable ranges of the blocks, one after the other, are the contents of a buffer; the ranges
reserved for writing, one after the other, are its region. Every call is described by what it does
to these two lists.
-/

namespace Alyrn.Net

variable {β : Type}

/-! ## One block -/

namespace Block

variable (k : Block β) (n off : ℕ) (xs : List β)

@[simp] theorem length_readable : k.readable.length = k.readableBytes := by
  have := k.writePos_le
  simp only [readable, readableBytes, List.length_drop, List.length_take]
  omega

@[simp] theorem length_writable : k.writable.length = k.writableBytes := by
  simp only [writable, writableBytes, capacity, List.length_drop]

@[simp] theorem create_writableBytes (address : ℕ) (data : List β) :
    (create address data).writableBytes = data.length := rfl

theorem readable_eq_nil : k.readable = [] ↔ k.readableBytes = 0 := by
  rw [← length_readable, List.length_eq_zero_iff]

theorem writable_eq_nil : k.writable = [] ↔ k.writableBytes = 0 := by
  rw [← length_writable, List.length_eq_zero_iff]

@[simp] theorem reserve_readable (flag : Bool) : (k.reserve flag).readable = k.readable := rfl

@[simp] theorem drain_readable : (k.drain n).readable = k.readable.drop n := by
  show (k.data.take k.writePos).drop (k.readPos + min n k.readableBytes) = _
  rw [← List.drop_drop]
  show k.readable.drop _ = _
  rcases Nat.le_total n k.readableBytes with h | h
  · rw [Nat.min_eq_left h]
  · rw [Nat.min_eq_right h, List.drop_eq_nil_of_le (by simp), List.drop_eq_nil_of_le (by simpa)]

@[simp] theorem commit_readable : (k.commit n).readable = k.readable ++ k.writable.take n := by
  have hr := k.readPos_le
  have hw := k.writePos_le
  show (k.data.take (k.writePos + min n k.writableBytes)).drop k.readPos = _
  rw [List.take_add, List.drop_append_of_le_length (by rw [List.length_take]; omega)]
  refine congrArg (k.readable ++ ·) ?_
  show k.writable.take _ = _
  rcases Nat.le_total n k.writableBytes with h | h
  · rw [Nat.min_eq_left h]
  · rw [Nat.min_eq_right h, List.take_of_length_le (by simp), List.take_of_length_le (by simpa)]

theorem store_readable (h : k.writePos ≤ off) : (k.store off xs).readable = k.readable := by
  have hw := k.writePos_le
  show ((k.data.splice off _).take k.writePos).drop k.readPos = _
  unfold List.splice
  rw [List.append_assoc, List.take_append_of_le_length (by rw [List.length_take]; omega),
    List.take_take, Nat.min_eq_left h]
  rfl

theorem store_writable : (k.store k.writePos xs).writable =
    xs.take k.writableBytes ++ k.writable.drop xs.length := by
  have hw := k.writePos_le
  have hlen : (k.data.take k.writePos).length = k.writePos := by rw [List.length_take]; omega
  show (k.data.splice k.writePos (xs.take (k.data.length - k.writePos))).drop k.writePos = _
  unfold List.splice
  rw [List.append_assoc, List.drop_append_of_le_length (by omega),
    List.drop_of_length_le (by omega), List.nil_append]
  refine congrArg (xs.take (k.data.length - k.writePos) ++ ·) ?_
  rw [← List.drop_drop, List.length_take]
  show k.writable.drop _ = _
  rcases Nat.le_total xs.length (k.data.length - k.writePos) with h | h
  · rw [Nat.min_eq_right h]
  · rw [Nat.min_eq_left h, List.drop_eq_nil_of_le, List.drop_eq_nil_of_le]
    · rw [length_writable]
      exact h
    · rw [length_writable]
      exact Nat.le_refl _

@[simp] theorem store_writableBytes : (k.store off xs).writableBytes = k.writableBytes := by
  show (k.data.splice off _).length - k.writePos = _
  rw [length_splice_take]
  rfl

theorem append_readable {n : ℕ} (hn : n ≤ xs.length) (hw : n ≤ k.writableBytes) :
    ((k.store k.writePos (xs.take n)).commit n).readable = k.readable ++ xs.take n := by
  rw [commit_readable, k.store_readable _ _ (Nat.le_refl _), store_writable, List.take_take,
    Nat.min_eq_right hw, List.take_append_of_le_length (by rw [List.length_take]; omega),
    List.take_take, Nat.min_self]

@[simp] theorem commit_writableBytes :
    (k.commit n).writableBytes = k.writableBytes - min n k.writableBytes := by
  show k.data.length - (k.writePos + min n k.writableBytes) = _
  unfold writableBytes capacity
  omega

theorem take_writable_append (ys : List β) :
    k.writable.take (min n k.writableBytes) ++ ys.take (n - min n k.writableBytes) =
      (k.writable ++ ys).take n := by
  rw [List.take_append, length_writable]
  rcases Nat.le_total n k.writableBytes with h | h
  · rw [Nat.min_eq_left h, Nat.sub_self, Nat.sub_eq_zero_of_le h]
  · have hlen : k.writable.length ≤ n := by rw [length_writable]; exact h
    rw [Nat.min_eq_right h, List.take_of_length_le hlen,
      List.take_of_length_le (Nat.le_of_eq k.length_writable)]

end Block

/-! ## Chains of blocks -/

def readableOf (ks : List (Block β)) : List β := ks.flatMap Block.readable

def reservedOf (ks : List (Block β)) : List β :=
  ks.flatMap fun k => if k.reservedForWrite then k.writable else []

@[simp] theorem readableOf_nil : readableOf ([] : List (Block β)) = [] := rfl

variable {ks : List (Block β)}

variable {k : Block β} {ks ks' : List (Block β)}

@[simp] theorem readableOf_cons :
    readableOf (k :: ks) = k.readable ++ readableOf ks := List.flatMap_cons ..

@[simp] theorem readableOf_append :
    readableOf (ks ++ ks') = readableOf ks ++ readableOf ks' := List.flatMap_append ..

@[simp] theorem reservedOf_nil : reservedOf ([] : List (Block β)) = [] := rfl

@[simp] theorem reservedOf_cons : reservedOf (k :: ks) =
    (if k.reservedForWrite then k.writable else []) ++ reservedOf ks := List.flatMap_cons ..

@[simp] theorem reservedOf_append :
    reservedOf (ks ++ ks') = reservedOf ks ++ reservedOf ks' := List.flatMap_append ..

theorem reservedOf_eq_nil (h : ∀ k ∈ ks, k.reservedForWrite = false) :
    reservedOf ks = [] := by
  refine List.flatMap_eq_nil_iff.mpr fun k hk => ?_
  rw [h k hk]
  rfl

theorem readableOf_eq_nil (h : ∀ k ∈ ks, k.readable = []) :
    readableOf ks = [] :=
  List.flatMap_eq_nil_iff.mpr h

theorem readableOf_map_reserve (flag : Bool) :
    readableOf (ks.map (Block.reserve flag)) = readableOf ks := by
  unfold readableOf
  rw [List.flatMap_map]
  rfl

/-- The reserved blocks are the last ones, and only the first may be readable. -/
structure Reserving (ks : List (Block β)) : Prop where
  split : ∃ pre post, ks = pre ++ post ∧ (∀ k ∈ pre, k.reservedForWrite = false) ∧
    (∀ k ∈ post, k.reservedForWrite = true) ∧ ∀ k ∈ post.tail, k.readable = []

theorem Reserving.snoc (h : Reserving ks)
    (hr : k.reservedForWrite = true) (he : k.readable = []) : Reserving (ks ++ [k]) := by
  obtain ⟨pre, post, rfl, hpre, hpost, hempty⟩ := h.split
  refine ⟨pre, post ++ [k], List.append_assoc .., hpre, fun x hx => ?_, fun x hx => ?_⟩
  · rcases List.mem_append.mp hx with hx | hx
    · exact hpost x hx
    · rw [List.mem_singleton.mp hx]
      exact hr
  · cases post with
    | nil => cases hx
    | cons y post =>
      rcases List.mem_append.mp hx with hx | hx
      · exact hempty x hx
      · rw [List.mem_singleton.mp hx]
        exact he

theorem commitBlocks_empty {n : ℕ}
    (hr : ∀ k ∈ ks, k.reservedForWrite = true) (he : ∀ k ∈ ks, k.readable = []) :
    readableOf (Buffer.commitBlocks n ks).1 = (reservedOf ks).take n ∧
      (Buffer.commitBlocks n ks).2 = n - (reservedOf ks).length := by
  induction ks generalizing n with
  | nil => exact ⟨by simp [Buffer.commitBlocks], rfl⟩
  | cons k ks ih =>
    have hk := hr k List.mem_cons_self
    have hke := he k List.mem_cons_self
    unfold Buffer.commitBlocks
    rw [if_neg (by simp [hk])]
    by_cases hn : n = 0
    · subst hn
      rw [if_pos rfl, List.take_zero]
      exact ⟨readableOf_eq_nil he, (Nat.zero_sub _).symm⟩
    · rw [if_neg hn]
      obtain ⟨ih₁, ih₂⟩ := ih (n := n - min n k.writableBytes)
        (fun k hk => hr k (List.mem_cons_of_mem _ hk))
        fun k hk => he k (List.mem_cons_of_mem _ hk)
      rw [ih₂, readableOf_cons, ih₁, reservedOf_cons, hk, if_pos rfl, Block.commit_readable, hke,
        List.nil_append, List.length_append, Block.length_writable]
      exact ⟨k.take_writable_append n _, by omega⟩

/-- **Committing** `n` of the reserved bytes appends the first `n` of them. -/
theorem Reserving.commitBlocks (h : Reserving ks) (n : ℕ) :
    readableOf (Buffer.commitBlocks n ks).1 = readableOf ks ++ (reservedOf ks).take n ∧
      (Buffer.commitBlocks n ks).2 = n - (reservedOf ks).length := by
  obtain ⟨pre, post, rfl, hpre, hpost, hempty⟩ := h.split
  induction pre with
  | nil =>
    cases post with
    | nil => exact ⟨by simp [Buffer.commitBlocks], rfl⟩
    | cons k ks =>
      have hk := hpost k List.mem_cons_self
      rw [List.nil_append]
      unfold Buffer.commitBlocks
      rw [if_neg (by simp [hk])]
      by_cases hn : n = 0
      · subst hn
        rw [if_pos rfl, List.take_zero, List.append_nil]
        exact ⟨rfl, (Nat.zero_sub _).symm⟩
      · rw [if_neg hn]
        have hempty : ∀ k ∈ ks, k.readable = [] := hempty
        obtain ⟨h₁, h₂⟩ := commitBlocks_empty (n := n - min n k.writableBytes)
          (fun k hk => hpost k (List.mem_cons_of_mem _ hk)) hempty
        rw [h₂, readableOf_cons, h₁, readableOf_cons, readableOf_eq_nil hempty, reservedOf_cons, hk,
          if_pos rfl, Block.commit_readable, List.append_nil, List.append_assoc,
          List.length_append, Block.length_writable, k.take_writable_append n]
        exact ⟨rfl, by omega⟩
  | cons k ks ih =>
    have hk := hpre k List.mem_cons_self
    have hpre' : ∀ k ∈ ks, k.reservedForWrite = false :=
      fun k hk => hpre k (List.mem_cons_of_mem _ hk)
    obtain ⟨ih₁, ih₂⟩ := ih ⟨ks, post, rfl, hpre', hpost, hempty⟩ hpre'
    rw [List.cons_append]
    unfold Buffer.commitBlocks
    rw [if_pos hk]
    rw [readableOf_cons, ih₁, ih₂, readableOf_cons, reservedOf_cons, hk]
    exact ⟨(List.append_assoc ..).symm, rfl⟩

/-! ## Ranges -/

def rangesOf (ks : List (Block β)) : List Iovec :=
  (ks.filter fun k => k.reservedForWrite && k.writableBytes ≠ 0).map Block.writeIov

/-- The bytes in a range. -/
def bytesAt (ks : List (Block β)) (r : Iovec) : List β :=
  match ks.find? fun k => k.address = r.address with
  | some k => k.data.slice r.offset r.length
  | none => []

theorem rangesOf_cons : rangesOf (k :: ks) =
    if k.reservedForWrite = true ∧ k.writableBytes ≠ 0 then k.writeIov :: rangesOf ks
    else rangesOf ks := by
  unfold rangesOf
  by_cases h : k.reservedForWrite = true ∧ k.writableBytes ≠ 0
  · rw [if_pos h, List.filter_cons_of_pos (by simpa using h)]
    rfl
  · rw [if_neg h, List.filter_cons_of_neg (by simpa using h)]

theorem reservedIov_eq {n : ℕ} :
    Buffer.reservedIov n ks = (rangesOf ks).take n := by
  induction ks generalizing n with
  | nil => simp [Buffer.reservedIov, rangesOf]
  | cons k ks ih =>
    unfold Buffer.reservedIov
    rw [rangesOf_cons]
    by_cases hr : k.reservedForWrite = false
    · rw [if_pos hr, if_neg (by simp [hr]), ih]
    · rw [if_neg hr]
      cases n with
      | zero => rfl
      | succ n =>
        dsimp only
        by_cases hw : k.writableBytes = 0
        · rw [if_pos hw, if_neg (by simp [hw]), ih]
        · rw [if_neg hw, if_pos ⟨by simpa using hr, hw⟩, ih]
          rfl

theorem mem_rangesOf {r : Iovec} (h : r ∈ rangesOf ks) :
    ∃ k ∈ ks, k.reservedForWrite = true ∧ r = k.writeIov := by
  obtain ⟨k, hk, rfl⟩ := List.mem_map.mp h
  obtain ⟨hk, hp⟩ := List.mem_filter.mp hk
  exact ⟨k, hk, by simp at hp; exact hp.1, rfl⟩

theorem sum_rangesOf (ks : List (Block β)) :
    ((rangesOf ks).map Iovec.length).sum = (reservedOf ks).length := by
  induction ks with
  | nil => rfl
  | cons k ks ih =>
    rw [rangesOf_cons, reservedOf_cons, List.length_append, ← ih]
    by_cases hr : k.reservedForWrite = true
    · rw [if_pos hr, Block.length_writable]
      by_cases hw : k.writableBytes = 0
      · rw [if_neg (by simp [hw]), hw, Nat.zero_add]
      · rw [if_pos ⟨hr, hw⟩, List.map_cons, List.sum_cons]
        rfl
    · rw [if_neg hr, if_neg fun hx => hr hx.1]
      exact (Nat.zero_add _).symm

theorem length_rangesOf_le :
    (rangesOf ks).length ≤ (ks.filter (·.reservedForWrite)).length := by
  unfold rangesOf
  rw [List.length_map, show (fun k : Block β => k.reservedForWrite && k.writableBytes ≠ 0) =
    fun k => k.writableBytes ≠ 0 && k.reservedForWrite from by funext k; exact Bool.and_comm ..,
    ← List.filter_filter]
  exact List.length_filter_le ..

abbrev Distinct (ks : List (Block β)) : Prop := (ks.map Block.address).Nodup

theorem Distinct.find (h : Distinct ks) (hk : k ∈ ks) :
    (ks.find? fun x => x.address = k.address) = some k := by
  induction ks with
  | nil => cases hk
  | cons x ks ih =>
    obtain ⟨hx, hks⟩ := List.nodup_cons.mp h
    rcases List.mem_cons.mp hk with rfl | hk
    · exact List.find?_cons_of_pos (by simp)
    · rw [List.find?_cons_of_neg]
      · exact ih hks hk
      · simp only [decide_eq_true_eq]
        exact fun heq => hx (heq ▸ List.mem_map_of_mem hk)

theorem Distinct.bytesAt (h : Distinct ks) (hk : k ∈ ks)
    (off n : ℕ) : bytesAt ks ⟨k.address, off, n⟩ = k.data.slice off n := by
  unfold Net.bytesAt
  rw [h.find hk]

theorem Block.slice_writable (k : Block β) :
    k.data.slice k.writePos k.writableBytes = k.writable :=
  List.take_of_length_le (Nat.le_of_eq k.length_writable)

theorem Block.slice_readable (k : Block β) {n : ℕ} (h : n ≤ k.readableBytes) :
    k.data.slice k.readPos n = k.readable.take n := by
  unfold List.slice Block.readable
  rw [List.drop_take, List.take_take]
  congr 1
  unfold readableBytes at h
  omega

theorem Distinct.bytesAt_rangesOf (h : Distinct ks) :
    (rangesOf ks).flatMap (Net.bytesAt ks) = reservedOf ks := by
  have hsub {ls : List (Block β)} (hls : ∀ k ∈ ls, k ∈ ks) :
      (rangesOf ls).flatMap (Net.bytesAt ks) = reservedOf ls := by
    induction ls with
    | nil => rfl
    | cons k ls ih =>
      have ih := ih fun x hx => hls x (List.mem_cons_of_mem _ hx)
      have hk := (h.bytesAt (hls k List.mem_cons_self) k.writePos k.writableBytes).trans
        k.slice_writable
      rw [rangesOf_cons, reservedOf_cons]
      by_cases hr : k.reservedForWrite = true
      · rw [if_pos hr]
        by_cases hw : k.writableBytes = 0
        · rw [if_neg (by simp [hw]), k.writable_eq_nil.mpr hw, ih]
          rfl
        · rw [if_pos ⟨hr, hw⟩, List.flatMap_cons, ih]
          exact congrArg (· ++ reservedOf ls) hk
      · rw [if_neg hr, if_neg fun hx => hr hx.1, ih]
        rfl
  exact hsub fun _ hk => hk

/-! ## Writing through ranges -/

/-- The blocks differ at most in bytes that are not readable. -/
structure Block.Alike (k k' : Block β) : Prop where
  address : k'.address = k.address
  readPos : k'.readPos = k.readPos
  writePos : k'.writePos = k.writePos
  reserved : k'.reservedForWrite = k.reservedForWrite
  writableBytes : k'.writableBytes = k.writableBytes
  readable : k'.readable = k.readable

theorem Block.Alike.refl (k : Block β) : k.Alike k := ⟨rfl, rfl, rfl, rfl, rfl, rfl⟩

theorem Block.Alike.trans {k k' k'' : Block β} (h : k.Alike k') (h' : k'.Alike k'') :
    k.Alike k'' :=
  ⟨h'.address.trans h.address, h'.readPos.trans h.readPos, h'.writePos.trans h.writePos,
    h'.reserved.trans h.reserved, h'.writableBytes.trans h.writableBytes,
    h'.readable.trans h.readable⟩

theorem fillRanges_alike (rs : List Iovec) (xs : List β) (ks : List (Block β))
    (h : ∀ r ∈ rs, ∀ k ∈ ks, k.address = r.address → k.writePos ≤ r.offset) :
    ∃ g : Block β → Block β, fillRanges rs xs ks = ks.map g ∧ ∀ k ∈ ks, k.Alike (g k) := by
  induction rs generalizing xs ks with
  | nil => exact ⟨id, (List.map_id ks).symm, fun k _ => .refl k⟩
  | cons r rs ih =>
    set f : Block β → Block β := fun k =>
      if k.address = r.address then k.store r.offset (xs.take r.length) else k with hf
    have hfk (k : Block β) (hk : k ∈ ks) : k.Alike (f k) := by
      rw [hf]
      dsimp only
      split_ifs with ha
      · exact ⟨rfl, rfl, rfl, rfl, k.store_writableBytes _ _,
          k.store_readable _ _ (h r List.mem_cons_self k hk ha)⟩
      · exact .refl k
    obtain ⟨g, hg, hgk⟩ := ih (xs.drop r.length) (ks.map f) (by
      intro r' hr' k' hk' ha
      obtain ⟨k, hk, rfl⟩ := List.mem_map.mp hk'
      rw [(hfk k hk).address] at ha
      rw [(hfk k hk).writePos]
      exact h r' (List.mem_cons_of_mem _ hr') k hk ha)
    refine ⟨g ∘ f, ?_, fun k hk => (hfk k hk).trans (hgk _ (List.mem_map_of_mem hk))⟩
    show fillRanges rs (xs.drop r.length) (ks.map f) = _
    rw [hg, List.map_map]

theorem fillRanges_cons {rs : List Iovec} {xs : List β}
    (h : ∀ r ∈ rs, r.address ≠ k.address) :
    fillRanges rs xs (k :: ks) = k :: fillRanges rs xs ks := by
  induction rs generalizing xs ks with
  | nil => rfl
  | cons r rs ih =>
    unfold fillRanges
    rw [List.map_cons, if_neg (Ne.symm (h r List.mem_cons_self))]
    exact ih fun r' hr' => h r' (List.mem_cons_of_mem _ hr')

theorem rangesOf_address {r : Iovec} (h : r ∈ rangesOf ks) :
    r.address ∈ ks.map Block.address := by
  obtain ⟨k, hk, -, rfl⟩ := mem_rangesOf h
  exact List.mem_map_of_mem hk

/-- **What a writer writes** through the first `n` ranges, in order, is what the reserved bytes
begin with. -/
theorem Distinct.reservedOf_fillRanges (h : Distinct ks) (n : ℕ)
    (xs : List β) (hxs : xs.length ≤ (((rangesOf ks).take n).map Iovec.length).sum) :
    reservedOf (fillRanges ((rangesOf ks).take n) xs ks) =
      xs ++ (reservedOf ks).drop xs.length := by
  induction ks generalizing n xs with
  | nil =>
    obtain rfl : xs = [] :=
      List.eq_nil_of_length_eq_zero (Nat.le_zero.mp (by simpa [rangesOf] using hxs))
    rw [show (rangesOf ([] : List (Block β))).take n = [] from List.take_nil]
    rfl
  | cons k ks ih =>
    obtain ⟨hk, hks⟩ := List.nodup_cons.mp h
    have hne {n : ℕ} : ∀ r ∈ (rangesOf ks).take n, r.address ≠ k.address := fun r hr heq =>
      hk (heq ▸ rangesOf_address (List.mem_of_mem_take hr))
    rw [rangesOf_cons] at hxs ⊢
    by_cases hp : k.reservedForWrite = true ∧ k.writableBytes ≠ 0
    · rw [if_pos hp] at hxs ⊢
      cases n with
      | zero =>
        obtain rfl : xs = [] := List.eq_nil_of_length_eq_zero (Nat.le_zero.mp (by simpa using hxs))
        rfl
      | succ n =>
        rw [List.take_succ_cons] at hxs ⊢
        have hxs : xs.length ≤ k.writableBytes +
          (((rangesOf ks).take n).map Iovec.length).sum := hxs
        set k' := k.store k.writePos (xs.take k.writableBytes) with hk'
        have hmap : (ks.map fun x => if x.address = k.address then
            x.store k.writePos (xs.take k.writableBytes) else x) = ks := by
          refine (List.map_congr_left fun x hx => ?_).trans (List.map_id ks)
          have hx : x.address ≠ k.address := fun heq => hk (heq ▸ List.mem_map_of_mem hx)
          exact if_neg hx
        have hfill : fillRanges (k.writeIov :: (rangesOf ks).take n) xs (k :: ks) =
            k' :: fillRanges ((rangesOf ks).take n) (xs.drop k.writableBytes) ks := by
          show fillRanges ((rangesOf ks).take n) (xs.drop k.writableBytes)
            ((if k.address = k.address then k' else k) :: ks.map _) = _
          rw [if_pos rfl]
          exact (congrArg (fun l => fillRanges _ _ (k' :: l)) hmap).trans (fillRanges_cons hne)
        rw [hfill, reservedOf_cons, reservedOf_cons, ih hks n (xs.drop k.writableBytes)
          (by rw [List.length_drop]; omega), hk', Block.store_writable]
        show (if k.reservedForWrite = true then _ else _) ++ _ = _
        rw [if_pos hp.1, if_pos hp.1, List.take_take, Nat.min_self, List.length_take,
          List.length_drop, List.drop_append, Block.length_writable]
        rcases Nat.le_total xs.length k.writableBytes with hle | hle
        · rw [Nat.min_eq_right hle, List.take_of_length_le hle, List.drop_of_length_le hle,
            List.nil_append, List.append_assoc]
        · have hnil : k.writable.drop k.writableBytes = [] :=
            List.drop_of_length_le (Nat.le_of_eq k.length_writable)
          have hnil' : k.writable.drop xs.length = [] :=
            List.drop_of_length_le (by rw [Block.length_writable]; exact hle)
          rw [Nat.min_eq_left hle, hnil, hnil', List.append_nil, List.nil_append,
            ← List.append_assoc, List.take_append_drop]
    · rw [if_neg hp] at hxs ⊢
      rw [fillRanges_cons hne, reservedOf_cons, ih hks n xs hxs, reservedOf_cons]
      have hnil : (if k.reservedForWrite = true then k.writable else []) = [] := by
        split_ifs with hr
        · exact k.writable_eq_nil.mpr (by by_contra hw; exact hp ⟨hr, hw⟩)
        · rfl
      rw [hnil]
      rfl

end Alyrn.Net
