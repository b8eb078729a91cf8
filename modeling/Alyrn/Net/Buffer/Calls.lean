import Alyrn.Net.Buffer.Contents

/-!
# The calls of a buffer

`Valid` is what a buffer keeps between calls. Every legal call on a valid buffer returns and leaves
a valid one, and says what became of the contents and of the region. Here are the calls that end a
reservation, and `Append`.
-/

namespace Alyrn.Net

variable {β : Type}

namespace Buffer

/-- The readable bytes. -/
def contents (b : Buffer β) : List β := readableOf b.blocks

/-- The bytes reserved for a write. -/
def region (b : Buffer β) : List β := reservedOf b.blocks

structure Chained (b : Buffer β) (next : ℕ) : Prop where
  counted : b.readableBytes = b.contents.length
  blockSize_pos : 0 < b.blockSize
  distinct : Distinct b.blocks
  bounded : ∀ k ∈ b.blocks, k.address < next

/-- The invariant of a buffer. -/
structure Valid (b : Buffer β) (next : ℕ) : Prop extends Chained b next where
  idle : b.writeReserved = false → ∀ k ∈ b.blocks, k.reservedForWrite = false
  busy : b.writeReserved = true → Reserving b.blocks ∧ b.reservedBytes = b.region.length

/-- What every call leaves behind. -/
structure Leaves (b : Buffer β) (next : ℕ) (o : Outcome β) : Prop where
  valid : o.buffer.Valid o.next
  next_le : next ≤ o.next
  origin : ∀ k ∈ o.buffer.blocks, k.address ∈ b.blocks.map Block.address ∨ next ≤ k.address
  ranges : o.buffer.writeReserved = true →
    ∃ n, o.ranges = (rangesOf o.buffer.blocks).take n

variable {b : Buffer β} {next : ℕ} {ks : List (Block β)} {k : Block β}

theorem valid_create (blockSize next : ℕ) : (create blockSize : Buffer β).Valid next :=
  ⟨⟨rfl, Nat.le_max_right .., List.nodup_nil, nofun⟩,
    nofun, nofun⟩

section

variable (h : b.Valid next)
include h

theorem Valid.region_idle (hr : b.writeReserved = false) : b.region = [] :=
  reservedOf_eq_nil (h.idle hr)

theorem Valid.mono {next' : ℕ} (hn : next ≤ next') : b.Valid next' :=
  ⟨{ h with bounded := fun k hk => Nat.lt_of_lt_of_le (h.bounded k hk) hn },
    h.idle, h.busy⟩

theorem Valid.leaves_self {threw : Bool} {ranges : List Iovec}
    (hr : b.writeReserved = true → ∃ n, ranges = (rangesOf b.blocks).take n) :
    Leaves b next ⟨threw, ranges, b, next⟩ :=
  ⟨h, Nat.le_refl _, fun _ hk => .inl (List.mem_map_of_mem hk), hr⟩

theorem Valid.leaves_idle (hr : b.writeReserved = false) (threw : Bool)
    (ranges : List Iovec) : Leaves b next ⟨threw, ranges, b, next⟩ :=
  h.leaves_self fun hx => by
    rw [hr] at hx
    cases hx

theorem Valid.withBlocks (hr : b.writeReserved = false)
    {n next' : ℕ} (hc : n = (readableOf ks).length) (hd : Distinct ks)
    (hb : ∀ k ∈ ks, k.address < next') (hi : ∀ k ∈ ks, k.reservedForWrite = false) :
    ({ b with blocks := ks, readableBytes := n }).Valid next' :=
  ⟨⟨hc, h.blockSize_pos, hd, hb⟩, fun _ => hi, fun hx => by
    rw [show b.writeReserved = true from hx] at hr
    cases hr⟩

end

/-! ## The end of a reservation -/

theorem map_reserve_address {flag : Bool} :
    (ks.map (Block.reserve flag)).map Block.address = ks.map Block.address := by
  rw [List.map_map]
  rfl

theorem Chained.clearWriteReservation (h : b.Chained next) (hr : b.writeReserved = true) :
    b.clearWriteReservation.Valid next ∧ b.clearWriteReservation.contents = b.contents ∧
      b.clearWriteReservation.region = [] ∧ b.clearWriteReservation.writeReserved = false ∧
      b.clearWriteReservation.blocks.map Block.address = b.blocks.map Block.address := by
  have hidle : ∀ k ∈ b.blocks.map (Block.reserve false), k.reservedForWrite = false := by
    intro k hk
    obtain ⟨x, -, rfl⟩ := List.mem_map.mp hk
    rfl
  have hcontents : readableOf (b.blocks.map (Block.reserve false)) = b.contents :=
    readableOf_map_reserve false
  unfold Buffer.clearWriteReservation
  rw [if_neg (by simp [hr])]
  refine ⟨⟨⟨?_, h.blockSize_pos, ?_, fun k hk => ?_⟩, fun _ => hidle, nofun⟩,
    hcontents, reservedOf_eq_nil hidle, rfl, map_reserve_address⟩
  · show b.readableBytes = (readableOf _).length
    rw [hcontents]
    exact h.counted
  · show (List.map Block.address _).Nodup
    rw [map_reserve_address]
    exact h.distinct
  · obtain ⟨x, hx, rfl⟩ := List.mem_map.mp hk
    exact h.bounded x hx

theorem commitBlocks_address {n : ℕ} :
    (commitBlocks n ks).1.map Block.address = ks.map Block.address := by
  induction ks generalizing n with
  | nil => rfl
  | cons k ks ih =>
    unfold commitBlocks
    split_ifs
    · exact congrArg (k.address :: ·) ih
    · rfl
    · exact congrArg (k.address :: ·) ih

theorem bounded_of_address {ks ks' : List (Block β)}
    (h : ks'.map Block.address = ks.map Block.address) (hb : ∀ k ∈ ks, k.address < next) :
    ∀ k ∈ ks', k.address < next := by
  intro k hk
  have hmem : k.address ∈ ks.map Block.address := h ▸ List.mem_map_of_mem hk
  obtain ⟨x, hx, heq⟩ := List.mem_map.mp hmem
  rw [← heq]
  exact hb x hx

theorem leaves_of_address {b' : Buffer β} (h : b'.Valid next) (hr : b'.writeReserved = false)
    (ha : b'.blocks.map Block.address = b.blocks.map Block.address) (threw : Bool)
    (ranges : List Iovec) : Leaves b next ⟨threw, ranges, b', next⟩ :=
  ⟨h, Nat.le_refl _, fun _ hk => .inl (ha ▸ List.mem_map_of_mem hk), fun hx => by
    rw [show b'.writeReserved = true from hx] at hr
    cases hr⟩

/-- **`CommitWrite`** of at most the reserved bytes appends the first of them. -/
theorem Valid.commitWrite (h : b.Valid next) (hr : b.writeReserved = true) {n : ℕ}
    (hle : n ≤ b.region.length) :
    ∃ o, b.commitWrite n next = .ok o ∧ Leaves b next o ∧ ¬o.threw = true ∧
      o.buffer.contents = b.contents ++ b.region.take n ∧ o.buffer.region = [] := by
  obtain ⟨hres, hbytes⟩ := h.busy hr
  unfold Buffer.commitWrite
  rw [if_neg (by simp [hr]), if_neg (by omega)]
  obtain ⟨hread, hleft⟩ := hres.commitBlocks n
  have hleft : (commitBlocks n b.blocks).2 = 0 := hleft.trans (Nat.sub_eq_zero_of_le hle)
  set b' : Buffer β := { b with
    blocks := (commitBlocks n b.blocks).1
    readableBytes := b.readableBytes + (n - (commitBlocks n b.blocks).2) } with hb'
  have hchain : b'.Chained next := by
    refine ⟨?_, h.blockSize_pos, ?_, bounded_of_address commitBlocks_address h.bounded⟩
    · show b.readableBytes + (n - (commitBlocks n b.blocks).2) = (readableOf _).length
      rw [hread, hleft, List.length_append, List.length_take, h.counted]
      show _ = b.contents.length + min n b.region.length
      omega
    · show (List.map Block.address _).Nodup
      rw [commitBlocks_address]
      exact h.distinct
  obtain ⟨hv, hc, hreg, hw, ha⟩ := hchain.clearWriteReservation hr
  refine ⟨⟨false, [], b'.clearWriteReservation, next⟩, ?_,
    leaves_of_address hv hw (ha.trans commitBlocks_address) _ _, nofun, hc.trans hread, hreg⟩
  dsimp only
  rw [if_neg (by simp [hleft])]

theorem Valid.abortWrite (h : b.Valid next) :
    ∃ o, b.abortWrite next = .ok o ∧ Leaves b next o ∧ ¬o.threw = true ∧
      o.buffer.contents = b.contents ∧ o.buffer.region = [] := by
  cases hr : b.writeReserved with
  | true =>
    obtain ⟨hv, hc, hreg, hw, ha⟩ := h.clearWriteReservation hr
    exact ⟨_, rfl, leaves_of_address hv hw ha _ _, nofun, hc, hreg⟩
  | false =>
    have hclear : b.clearWriteReservation = b := if_pos hr
    refine ⟨_, rfl, ?_, nofun, congrArg contents hclear, ?_⟩
    · rw [hclear]
      exact h.leaves_idle hr _ _
    · show b.clearWriteReservation.region = []
      rw [hclear]
      exact h.region_idle hr

/-! ## New blocks -/

theorem newBlock_eq {alloc : Alloc β} {capacity : ℕ} (h : newBlock alloc next capacity = some k) :
    k.address = next ∧ k.readable = [] ∧ k.writableBytes = capacity ∧
      k.reservedForWrite = false ∧ k.readPos = 0 := by
  obtain ⟨garbage, -, rfl⟩ := Option.map_eq_some_iff.mp h
  refine ⟨rfl, rfl, ?_, rfl, rfl⟩
  rw [Block.create_writableBytes, List.length_map, List.length_range]

theorem Chained.distinct_snoc (h : b.Chained next) (hk : k.address = next) :
    Distinct (b.blocks ++ [k]) := by
  show (List.map Block.address (b.blocks ++ [k])).Nodup
  rw [List.map_append, List.nodup_append]
  refine ⟨h.distinct, List.pairwise_singleton _ _, fun a ha x hx => ?_⟩
  obtain ⟨y, hy, rfl⟩ := List.mem_map.mp ha
  obtain rfl : x = next := by simpa [hk] using hx
  exact Nat.ne_of_lt (h.bounded y hy)

theorem Chained.bounded_snoc (h : b.Chained next) (hk : k.address = next) :
    ∀ x ∈ b.blocks ++ [k], x.address < next + 1 := by
  intro x hx
  rcases List.mem_append.mp hx with hx | hx
  · exact Nat.lt_succ_of_lt (h.bounded x hx)
  · rw [List.mem_singleton.mp hx, hk]
    exact Nat.lt_succ_self next

theorem origin_snoc (hk : k.address = next) :
    ∀ x ∈ b.blocks ++ [k], x.address ∈ b.blocks.map Block.address ∨ next ≤ x.address := by
  intro x hx
  rcases List.mem_append.mp hx with hx | hx
  · exact .inl (List.mem_map_of_mem hx)
  · rw [List.mem_singleton.mp hx, hk]
    exact .inr (Nat.le_refl next)

/-! ## Append -/

/-- The buffer with room in its last block. -/
structure Roomy (b : Buffer β) (next : ℕ) (b' : Buffer β) (next' : ℕ) : Prop where
  valid : b'.Valid next'
  idle : b'.writeReserved = false
  next_le : next ≤ next'
  contents : b'.contents = b.contents
  origin : ∀ k ∈ b'.blocks, k.address ∈ b.blocks.map Block.address ∨ next ≤ k.address
  room : ∃ ys tail, b'.blocks = ys ++ [tail] ∧ 0 < tail.writableBytes

theorem Valid.ensureOneTailBlock (h : b.Valid next) (hr : b.writeReserved = false)
    (alloc : Alloc β) (hint : ℕ) :
    (b.ensureOneTailBlock alloc hint next = none ∧ alloc next = none) ∨
      ∃ b' next', b.ensureOneTailBlock alloc hint next = some (b', next') ∧
        Roomy b next b' next' := by
  have hgrow : ((newBlock alloc next (max b.blockSize hint)).map (fun k =>
        (({ b with blocks := b.blocks ++ [k] } : Buffer β), next + 1)) = none ∧
          alloc next = none) ∨
      ∃ b' next', (newBlock alloc next (max b.blockSize hint)).map (fun k =>
        (({ b with blocks := b.blocks ++ [k] } : Buffer β), next + 1)) = some (b', next') ∧
        Roomy b next b' next' := by
    cases hn : newBlock alloc next (max b.blockSize hint) with
    | none => exact .inl ⟨rfl, Option.map_eq_none_iff.mp hn⟩
    | some k =>
      obtain ⟨ha, hread, hwrite, hres, -⟩ := newBlock_eq hn
      have hcontents : readableOf (b.blocks ++ [k]) = b.contents := by
        rw [readableOf_append, readableOf_cons, hread]
        exact List.append_nil _
      refine .inr ⟨_, _, rfl, h.withBlocks hr ?_ (h.distinct_snoc ha) (h.bounded_snoc ha)
        fun x hx => ?_, hr, Nat.le_succ next, hcontents, origin_snoc ha, b.blocks, k, rfl, ?_⟩
      · rw [hcontents]
        exact h.counted
      · rcases List.mem_append.mp hx with hx | hx
        · exact h.idle hr x hx
        · rw [List.mem_singleton.mp hx]
          exact hres
      · rw [hwrite]
        exact Nat.lt_of_lt_of_le h.blockSize_pos (Nat.le_max_left ..)
  unfold Buffer.ensureOneTailBlock
  cases hlast : b.blocks.getLast? with
  | none => exact hgrow
  | some tail =>
    obtain ⟨ys, hys⟩ := List.getLast?_eq_some_iff.mp hlast
    dsimp only
    by_cases hw : 0 < tail.writableBytes
    · rw [if_pos hw]
      exact .inr ⟨b, next, rfl, h, hr, Nat.le_refl next, rfl,
        fun k hk => .inl (List.mem_map_of_mem hk), ys, tail, hys, hw⟩
    · rw [if_neg hw]
      exact hgrow

theorem Valid.fillTail (h : b.Valid next) (hr : b.writeReserved = false) {ys : List (Block β)}
    {tail : Block β} (hb : b.blocks = ys ++ [tail]) (xs : List β) {n : ℕ}
    (hn : n = min xs.length tail.writableBytes) :
    ({ b with
      blocks := ys ++ [(tail.store tail.writePos (xs.take n)).commit n]
      readableBytes := b.readableBytes + n }).Valid next ∧
      readableOf (ys ++ [(tail.store tail.writePos (xs.take n)).commit n]) =
        b.contents ++ xs.take n := by
  have hread : ((tail.store tail.writePos (xs.take n)).commit n).readable =
      tail.readable ++ xs.take n :=
    tail.append_readable xs (by omega) (by omega)
  have hcontents : readableOf (ys ++ [(tail.store tail.writePos (xs.take n)).commit n]) =
      b.contents ++ xs.take n := by
    show _ = readableOf b.blocks ++ _
    rw [hb, readableOf_append, readableOf_append, readableOf_cons, readableOf_cons, hread]
    simp
  have haddr : (ys ++ [(tail.store tail.writePos (xs.take n)).commit n]).map Block.address =
      b.blocks.map Block.address := by
    rw [hb, List.map_append, List.map_append]
    rfl
  refine ⟨h.withBlocks hr ?_ ?_ (bounded_of_address haddr h.bounded) fun k hk => ?_, hcontents⟩
  · rw [hcontents, List.length_append, List.length_take, h.counted]
    omega
  · show (List.map Block.address _).Nodup
    rw [haddr]
    exact h.distinct
  · rcases List.mem_append.mp hk with hk | hk
    · exact h.idle hr k (hb ▸ List.mem_append_left _ hk)
    · rw [List.mem_singleton.mp hk]
      exact h.idle hr tail (hb ▸ List.mem_append_right _ (List.mem_singleton.mpr rfl))

/-- **The loop of `Append`** ends, with all bytes appended or, without memory, some of them. -/
theorem Valid.appendLoop {turns : ℕ} (xs : List β) (h : b.Valid next)
    (hr : b.writeReserved = false) (alloc : Alloc β) (ht : xs.length ≤ turns) :
    ∃ o, appendLoop alloc turns xs b next = .ok o ∧ Leaves b next o ∧
      o.buffer.writeReserved = false ∧ (o.threw = true → ∃ address, alloc address = none) ∧
      (∃ n, o.buffer.contents = b.contents ++ xs.take n) ∧
      (o.threw = false → o.buffer.contents = b.contents ++ xs) := by
  have hend (threw : Bool) : Leaves b next ⟨threw, [], b, next⟩ ∧
      ∃ n, b.contents = b.contents ++ xs.take n :=
    ⟨h.leaves_idle hr threw [], 0, (List.append_nil _).symm⟩
  induction turns generalizing b next xs with
  | zero =>
    obtain rfl : xs = [] := List.eq_nil_of_length_eq_zero (Nat.le_zero.mp ht)
    exact ⟨_, if_pos rfl, (hend false).1, hr, nofun, (hend false).2,
      fun _ => (List.append_nil _).symm⟩
  | succ turns ih =>
    unfold Buffer.appendLoop
    by_cases hxs : xs = []
    · subst hxs
      exact ⟨_, if_pos rfl, (hend false).1, hr, nofun, (hend false).2,
        fun _ => (List.append_nil _).symm⟩
    rw [if_neg hxs]
    rcases h.ensureOneTailBlock hr alloc xs.length with ⟨heq, hnone⟩ | ⟨b₁, next₁, heq, hroom⟩
    · rw [heq]
      exact ⟨_, rfl, (hend true).1, hr, fun _ => ⟨next, hnone⟩, (hend true).2, nofun⟩
    · obtain ⟨ys, tail, hys, hw⟩ := hroom.room
      rw [heq]
      dsimp only
      rw [List.getLast?_eq_some_iff.mpr ⟨ys, hys⟩, show b₁.blocks.dropLast = ys by
        rw [hys, List.dropLast_concat]]
      set n := min xs.length tail.writableBytes with hn
      obtain ⟨hv, hc⟩ := hroom.valid.fillTail hroom.idle hys xs hn
      set b₂ : Buffer β := { b₁ with
        blocks := ys ++ [(tail.store tail.writePos (xs.take n)).commit n]
        readableBytes := b₁.readableBytes + n } with hb₂
      have hcont : b₂.contents = b.contents ++ xs.take n := hc.trans (by rw [hroom.contents])
      obtain ⟨o, ho, hl, hor, hthrew, ⟨m, hm⟩, hall⟩ := ih (xs.drop n) hv hroom.idle
        (by rw [List.length_drop]; omega)
        fun threw => ⟨hv.leaves_idle hroom.idle threw [], 0, (List.append_nil _).symm⟩
      refine ⟨o, ho, ⟨hl.valid, Nat.le_trans hroom.next_le hl.next_le, fun k hk => ?_, hl.ranges⟩,
        hor, hthrew, ⟨n + m, ?_⟩, fun hx => ?_⟩
      · rcases hl.origin k hk with hx | hx
        · obtain ⟨y, hy, hya⟩ := List.mem_map.mp hx
          have hy₁ : y.address ∈ b₁.blocks.map Block.address := by
            rw [hys, List.map_append]
            have := List.mem_map_of_mem (f := Block.address) hy
            rw [List.map_append] at this
            exact this
          obtain ⟨z, hz, hza⟩ := List.mem_map.mp hy₁
          rw [← hya, ← hza]
          exact hroom.origin z hz
        · exact .inr (Nat.le_trans hroom.next_le hx)
      · rw [hm, hcont, List.append_assoc, List.take_add]
      · rw [hall hx, hcont, List.append_assoc, List.take_append_drop]

theorem Valid.append (h : b.Valid next) (hr : b.writeReserved = false) (alloc : Alloc β)
    (xs : List β) : ∃ o, b.append alloc xs next = .ok o ∧ Leaves b next o ∧
      (o.threw = true → ∃ address, alloc address = none) ∧
      (∃ n, o.buffer.contents = b.contents ++ xs.take n) ∧
      (o.threw = false → o.buffer.contents = b.contents ++ xs) ∧ o.buffer.region = [] := by
  unfold Buffer.append
  rw [if_neg (by simp [hr])]
  obtain ⟨o, ho, hl, hor, hthrew, hsome, hall⟩ :=
    h.appendLoop xs hr alloc (Nat.le_refl xs.length)
  exact ⟨o, ho, hl, hthrew, hsome, hall, hl.valid.region_idle hor⟩

end Buffer

end Alyrn.Net
