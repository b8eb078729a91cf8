import Alyrn.Net.Buffer.Calls

/-!
# Reservations

`PrepareWrite` reserves the tail and, if it must, one new block that covers the rest of the hint.
The ranges it returns are the region of the buffer; a reservation that fails leaves nothing behind.
-/

namespace Alyrn.Net

variable {β : Type}

namespace Buffer

variable {b : Buffer β} {next : ℕ} {ys : List (Block β)} {tail : Block β}

/-! ## Reservations -/

/-- A buffer whose reservation is being made. -/
structure Growing (b : Buffer β) (next : ℕ) : Prop extends Chained b next where
  reserved : b.writeReserved = true
  reserving : Reserving b.blocks

/-- Up to `count` blocks were added to the reservation. -/
structure Grown (b : Buffer β) (next count : ℕ) (b' : Buffer β) (next' : ℕ) : Prop extends
    Growing b' next' where
  next_le : next ≤ next'
  contents : b'.contents = b.contents
  origin : ∀ k ∈ b'.blocks, k.address ∈ b.blocks.map Block.address ∨ next ≤ k.address
  count_le : (b'.blocks.filter (·.reservedForWrite)).length ≤
    (b.blocks.filter (·.reservedForWrite)).length + count
  region_le : b.region.length ≤ b'.region.length

theorem Growing.grown_self (h : b.Growing next) (count : ℕ) : Grown b next count b next :=
  ⟨h, Nat.le_refl _, rfl, fun _ hk => .inl (List.mem_map_of_mem hk), Nat.le_add_right ..,
    Nat.le_refl _⟩

theorem Growing.snoc (h : b.Growing next) {k : Block β} (ha : k.address = next)
    (he : k.readable = []) :
    Grown b next 1 { b with blocks := b.blocks ++ [k.reserve true] } (next + 1) ∧
      ({ b with blocks := b.blocks ++ [k.reserve true] } : Buffer β).region.length =
        b.region.length + k.writableBytes := by
  have hcontents : readableOf (b.blocks ++ [k.reserve true]) = b.contents := by
    rw [readableOf_append, readableOf_cons, Block.reserve_readable, he]
    exact List.append_nil _
  have hregion : (reservedOf (b.blocks ++ [k.reserve true])).length =
      b.region.length + k.writableBytes := by
    rw [reservedOf_append, List.length_append, reservedOf_cons, reservedOf_nil, List.append_nil,
      ← k.length_writable]
    rfl
  refine ⟨⟨⟨⟨?_, h.blockSize_pos, h.distinct_snoc ha, h.bounded_snoc ha⟩, h.reserved,
    h.reserving.snoc rfl he⟩, Nat.le_succ _, hcontents, origin_snoc ha, ?_, ?_⟩, hregion⟩
  · show b.readableBytes = (readableOf _).length
    rw [hcontents]
    exact h.counted
  · show ((b.blocks ++ [k.reserve true]).filter _).length ≤ _
    rw [List.filter_append, List.length_append]
    exact Nat.add_le_add_left (List.length_filter_le ..) _
  · show b.region.length ≤ (reservedOf _).length
    rw [hregion]
    exact Nat.le_add_right ..

theorem Grown.trans {b₁ b₂ : Buffer β} {next₁ next₂ n m : ℕ} (h : Grown b next n b₁ next₁)
    (h' : Grown b₁ next₁ m b₂ next₂) : Grown b next (n + m) b₂ next₂ := by
  refine ⟨h'.toGrowing, Nat.le_trans h.next_le h'.next_le, h'.contents.trans h.contents,
    fun k hk => ?_, ?_, Nat.le_trans h.region_le h'.region_le⟩
  · rcases h'.origin k hk with hx | hx
    · obtain ⟨y, hy, hya⟩ := List.mem_map.mp hx
      rw [← hya]
      exact h.origin y hy
    · exact .inr (Nat.le_trans h.next_le hx)
  · have := h.count_le
    have := h'.count_le
    omega

/-- **The loop of `EnsureTailWritable`.** The first new block is large enough. -/
theorem Growing.growTail (h : b.Growing next) (alloc : Alloc β) (hint ranges : ℕ) :
    ∃ done b' next', growTail alloc hint ranges b.region.length b next = (done, b', next') ∧
      Grown b next ranges b' next' ∧ (done = false → ∃ address, alloc address = none) ∧
      (done = true → 0 < ranges → hint ≤ b'.region.length) := by
  induction ranges generalizing b next with
  | zero =>
    exact ⟨true, b, next, rfl, h.grown_self 0, nofun, fun _ hx => absurd hx (Nat.lt_irrefl 0)⟩
  | succ ranges ih =>
    unfold Buffer.growTail
    by_cases hlt : b.region.length < hint
    · rw [if_pos hlt]
      cases hn : newBlock alloc next (max b.blockSize (hint - b.region.length)) with
      | none =>
        exact ⟨false, b, next, rfl, h.grown_self _,
          fun _ => ⟨next, Option.map_eq_none_iff.mp hn⟩, nofun⟩
      | some k =>
        obtain ⟨ha, hread, hwrite, -, -⟩ := newBlock_eq hn
        obtain ⟨hg, hlen⟩ := h.snoc ha hread
        obtain ⟨done, b', next', heq, hg', hfail, -⟩ := ih hg.toGrowing
        rw [hlen] at heq
        have hle := hg'.region_le
        have htrans := hg.trans hg'
        rw [Nat.add_comm 1 ranges] at htrans
        refine ⟨done, b', next', heq, htrans, hfail, fun _ _ => ?_⟩
        omega
    · rw [if_neg hlt]
      exact ⟨true, b, next, rfl, h.grown_self _, nofun, fun _ _ => Nat.le_of_not_lt hlt⟩

theorem Valid.reserveTail (h : b.Valid next) (hr : b.writeReserved = false)
    (hb : b.blocks = ys ++ [tail]) (n : ℕ) :
    ({ b with
      blocks := ys ++ [tail.reserve true], reservedBytes := n, writeReserved := true } :
      Buffer β).Growing next ∧
      readableOf (ys ++ [tail.reserve true]) = b.contents ∧
      reservedOf (ys ++ [tail.reserve true]) = tail.writable ∧
      ((ys ++ [tail.reserve true]).filter (·.reservedForWrite)).length ≤ 1 ∧
      (ys ++ [tail.reserve true]).map Block.address = b.blocks.map Block.address := by
  have hys : ∀ k ∈ ys, k.reservedForWrite = false := fun k hk =>
    h.idle hr k (hb ▸ List.mem_append_left _ hk)
  have hcontents : readableOf (ys ++ [tail.reserve true]) = b.contents := by
    show _ = readableOf b.blocks
    rw [hb, readableOf_append, readableOf_append]
    rfl
  have haddr : (ys ++ [tail.reserve true]).map Block.address = b.blocks.map Block.address := by
    rw [hb, List.map_append, List.map_append]
    rfl
  refine ⟨⟨⟨?_, h.blockSize_pos, ?_, bounded_of_address haddr h.bounded⟩, rfl,
    ⟨ys, [tail.reserve true], rfl, hys, fun k hk => by rw [List.mem_singleton.mp hk]; rfl,
      nofun⟩⟩, hcontents, ?_, ?_, haddr⟩
  · show b.readableBytes = (readableOf _).length
    rw [hcontents]
    exact h.counted
  · show (List.map Block.address _).Nodup
    rw [haddr]
    exact h.distinct
  · rw [reservedOf_append, reservedOf_eq_nil hys]
    exact List.append_nil _
  · rw [List.filter_append, List.filter_eq_nil_iff.mpr fun k hk => by simp [hys k hk]]
    exact List.length_filter_le ..

theorem Valid.ensureTailWritable (h : b.Valid next) (hr : b.writeReserved = false)
    (alloc : Alloc β) {hint maxIov : ℕ} (hhint : 0 < hint) (hmax : 0 < maxIov) :
    ∃ done b' next', ({ b with reservedBytes := 0, writeReserved := true }).ensureTailWritable
        alloc hint maxIov next = (done, b', next') ∧ b'.Growing next' ∧
      (done = false → ∃ address, alloc address = none) ∧ next ≤ next' ∧ b'.contents = b.contents ∧
      (∀ k ∈ b'.blocks, k.address ∈ b.blocks.map Block.address ∨ next ≤ k.address) ∧
      (b'.blocks.filter (·.reservedForWrite)).length ≤ maxIov ∧
      (done = true → 0 < b'.region.length ∧ (1 < maxIov → hint ≤ b'.region.length)) := by
  have hgrow : ∃ done b' next', growTail alloc hint maxIov 0
        { b with reservedBytes := 0, writeReserved := true } next = (done, b', next') ∧
      b'.Growing next' ∧ (done = false → ∃ address, alloc address = none) ∧ next ≤ next' ∧
      b'.contents = b.contents ∧
      (∀ k ∈ b'.blocks, k.address ∈ b.blocks.map Block.address ∨ next ≤ k.address) ∧
      (b'.blocks.filter (·.reservedForWrite)).length ≤ maxIov ∧
      (done = true → 0 < b'.region.length ∧ (1 < maxIov → hint ≤ b'.region.length)) := by
    have hgrowing : ({ b with reservedBytes := 0, writeReserved := true } : Buffer β).Growing
        next := ⟨{ h with }, rfl,
      ⟨b.blocks, [], (List.append_nil _).symm, h.idle hr, nofun,
        nofun⟩⟩
    obtain ⟨done, b', next', heq, hg, hfail, hdone⟩ := hgrowing.growTail alloc hint maxIov
    rw [show ({ b with reservedBytes := 0, writeReserved := true } : Buffer β).region = [] from
      h.region_idle hr] at heq
    have hzero : b.blocks.filter (·.reservedForWrite) = [] :=
      List.filter_eq_nil_iff.mpr fun k hk => by simp [h.idle hr k hk]
    have hcount : _ ≤ (b.blocks.filter (·.reservedForWrite)).length + maxIov := hg.count_le
    rw [hzero] at hcount
    refine ⟨done, b', next', heq, hg.toGrowing, hfail, hg.next_le, hg.contents, hg.origin,
      Nat.le_trans hcount (by simp), fun hd => ?_⟩
    have := hdone hd hmax
    exact ⟨by omega, fun _ => this⟩
  unfold Buffer.ensureTailWritable
  cases hlast : b.blocks.getLast? with
  | none => exact hgrow
  | some tail =>
    obtain ⟨ys, hys⟩ := List.getLast?_eq_some_iff.mp hlast
    dsimp only
    by_cases hw : 0 < tail.writableBytes
    · rw [if_pos hw, show b.blocks.dropLast = ys by rw [hys, List.dropLast_concat]]
      obtain ⟨hgrowing, hc, hres, hcount, haddr⟩ := h.reserveTail hr hys 0
      obtain ⟨done, b', next', heq, hg, hfail, hdone⟩ :=
        hgrowing.growTail alloc hint (maxIov - 1)
      have hlen : ({ b with
          blocks := ys ++ [tail.reserve true]
          reservedBytes := 0
          writeReserved := true } : Buffer β).region.length = tail.writableBytes := by
        rw [← tail.length_writable]
        exact congrArg List.length hres
      rw [hlen] at heq
      refine ⟨done, b', next', heq, hg.toGrowing, hfail, hg.next_le, hg.contents.trans hc,
        fun k hk => ?_, ?_, fun hd => ⟨?_, fun hm => hdone hd (by omega)⟩⟩
      · rw [← haddr]
        exact hg.origin k hk
      · have : _ ≤ ((ys ++ [tail.reserve true]).filter (·.reservedForWrite)).length +
          (maxIov - 1) := hg.count_le
        omega
      · have := hg.region_le
        omega
    · rw [if_neg hw]
      exact hgrow

/-- The bytes that a reservation is to cover: a hint of zero stands for the block size. -/
def asked (b : Buffer β) (hint : ℕ) : ℕ := if hint = 0 then b.blockSize else hint

theorem Valid.asked_pos (h : b.Valid next) (hint : ℕ) : 0 < b.asked hint := by
  have := h.blockSize_pos
  unfold asked
  split_ifs <;> omega

/-- What `PrepareWrite` does: it throws and leaves the contents, or returns the ranges of the
region, which covers the hint if there may be more than one. -/
structure Reserves (hint maxIov : ℕ) (b : Buffer β) (o : Outcome β) : Prop where
  contents : o.buffer.contents = b.contents
  failed : o.threw = true ∨ o.ranges = [] → o.buffer.region = []
  bytes : o.ranges.flatMap (bytesAt o.buffer.blocks) = o.buffer.region
  reserved : o.threw = false → maxIov ≠ 0 → o.buffer.region ≠ []
  covers : o.threw = false → 1 < maxIov → b.asked hint ≤ o.buffer.region.length

/-- Both forms of **`PrepareWrite`**. -/
theorem Valid.prepareWriteInto (h : b.Valid next) (hr : b.writeReserved = false)
    (reserve : Bool) (alloc : Alloc β) (hint maxIov : ℕ) :
    ∃ o, b.prepareWriteInto reserve alloc hint maxIov next = .ok o ∧ Leaves b next o ∧
      (o.threw = true → reserve = false ∨ ∃ address, alloc address = none) ∧
      Reserves hint maxIov b o := by
  unfold Buffer.prepareWriteInto
  rw [if_neg (by simp [hr])]
  by_cases hmax : maxIov = 0
  · rw [if_pos hmax]
    refine ⟨_, rfl, h.leaves_idle hr _ _, nofun, rfl, fun _ => h.region_idle hr,
      (h.region_idle hr).symm, fun _ hx => absurd hmax hx, fun _ hx => ?_⟩
    omega
  rw [if_neg hmax]
  dsimp only
  have hpos := h.asked_pos hint
  unfold asked at hpos
  obtain ⟨done, b', next', heq, hg, hfail, hnext, hc, horigin, hcount, hdone⟩ :=
    h.ensureTailWritable hr alloc hpos (Nat.pos_of_ne_zero hmax)
  rw [heq]
  by_cases hok : (done && reserve) = true
  · rw [if_pos hok, reservedIov_eq]
    obtain ⟨hregion, hcover⟩ := hdone (by simp at hok; exact hok.1)
    have hall : (rangesOf b'.blocks).take maxIov = rangesOf b'.blocks :=
      List.take_of_length_le (Nat.le_trans length_rangesOf_le hcount)
    have hne : rangesOf b'.blocks ≠ [] := by
      intro hx
      have hsum := sum_rangesOf b'.blocks
      rw [hx] at hsum
      exact Nat.ne_of_lt hregion hsum
    rw [hall, if_neg hne, sum_rangesOf]
    refine ⟨_, rfl, ⟨⟨{ hg with }, fun hx => ?_,
      fun _ => ⟨hg.reserving, rfl⟩⟩, hnext, horigin, fun _ => ⟨maxIov, hall.symm⟩⟩, nofun, hc,
      fun hx => absurd (hx.resolve_left nofun) hne, hg.distinct.bytesAt_rangesOf,
      fun _ _ => List.length_pos_iff.mp hregion, fun _ hm => hcover hm⟩
    have hreserved := hg.reserved
    rw [show b'.writeReserved = false from hx] at hreserved
    cases hreserved
  · rw [if_neg hok]
    obtain ⟨hv, hc', hreg, hw, ha⟩ := hg.clearWriteReservation hg.reserved
    refine ⟨_, rfl, ⟨hv, hnext, fun k hk => ?_, fun hx => ?_⟩, fun _ => ?_, hc'.trans hc,
      fun _ => hreg, hreg.symm, nofun, nofun⟩
    · have hmem : k.address ∈ b'.blocks.map Block.address := ha ▸ List.mem_map_of_mem hk
      obtain ⟨y, hy, hya⟩ := List.mem_map.mp hmem
      rw [← hya]
      exact horigin y hy
    · rw [hw] at hx
      cases hx
    · cases reserve with
      | false => exact .inl rfl
      | true => exact .inr (hfail (by simpa using hok))

theorem Valid.reservedWriteIov (h : b.Valid next) (hr : b.writeReserved = true) (size : ℕ) :
    ∃ o, b.reservedWriteIov size next = .ok o ∧ Leaves b next o ∧ ¬o.threw = true ∧
      o.buffer = b ∧ o.ranges = (rangesOf b.blocks).take size := by
  unfold Buffer.reservedWriteIov
  rw [if_neg (by simp [hr]), reservedIov_eq]
  exact ⟨_, rfl, h.leaves_self fun _ => ⟨size, rfl⟩, nofun, rfl, rfl⟩

theorem rangesOf_reserved
    (hys : ∀ k ∈ ys, k.reservedForWrite = false) (hw : 0 < tail.writableBytes) :
    rangesOf (ys ++ [tail.reserve true]) = [tail.writeIov] := by
  unfold rangesOf
  rw [List.filter_append, List.filter_eq_nil_iff.mpr fun k hk => by simp [hys k hk],
    List.filter_cons_of_pos]
  · rfl
  · show (true && decide (tail.writableBytes ≠ 0)) = true
    simp
    omega

theorem Valid.leaves_reserveTail (h : b.Valid next) (hr : b.writeReserved = false)
    (hb : b.blocks = ys ++ [tail])
    (hw : 0 < tail.writableBytes) :
    let b' : Buffer β := { b with
      blocks := ys ++ [tail.reserve true]
      writeReserved := true
      reservedBytes := tail.writableBytes }
    Leaves b next ⟨false, [tail.writeIov], b', next⟩ ∧ b'.contents = b.contents ∧
      bytesAt b'.blocks tail.writeIov = b'.region ∧ b'.region.length = tail.writableBytes := by
  obtain ⟨hg, hc, hres, -, haddr⟩ := h.reserveTail hr hb tail.writableBytes
  have hranges : rangesOf (ys ++ [tail.reserve true]) = [tail.writeIov] :=
    rangesOf_reserved (fun k hk => h.idle hr k (hb ▸ List.mem_append_left _ hk)) hw
  have hlen : (reservedOf (ys ++ [tail.reserve true])).length = tail.writableBytes := by
    rw [hres, tail.length_writable]
  have hbytes := hg.distinct.bytesAt_rangesOf
  refine ⟨⟨⟨hg.toChained, nofun, fun _ => ⟨hg.reserving, hlen.symm⟩⟩,
    Nat.le_refl _, fun k hk => .inl (haddr ▸ List.mem_map_of_mem hk),
    fun _ => ⟨1, by rw [hranges]; rfl⟩⟩, hc, ?_, hlen⟩
  rw [hranges, List.flatMap_cons, List.flatMap_nil, List.append_nil] at hbytes
  exact hbytes

/-- What `TryPrepareWriteOne` does: it reserves one range that covers the hint, unless it throws or
the tail is too small for it. -/
def ReservesOne (hint : ℕ) (b : Buffer β) (o : Outcome β) : Prop :=
  (o.ranges = [] ∧ o.buffer.region = [] ∧ (o.threw = false →
    ∃ tail, b.blocks.getLast? = some tail ∧ tail.writableBytes < b.asked hint)) ∨
  ∃ r, o.ranges = [r] ∧ bytesAt o.buffer.blocks r = o.buffer.region ∧
    b.asked hint ≤ o.buffer.region.length

/-- **`TryPrepareWriteOne`** reserves nothing, or one range that covers the hint. -/
theorem Valid.tryPrepareWriteOne (h : b.Valid next) (hr : b.writeReserved = false)
    (alloc : Alloc β) (hint : ℕ) :
    ∃ o, b.tryPrepareWriteOne alloc hint next = .ok o ∧ Leaves b next o ∧
      (o.threw = true → ∃ address, alloc address = none) ∧ o.buffer.contents = b.contents ∧
      ReservesOne hint b o := by
  have hpos := h.asked_pos hint
  unfold Buffer.tryPrepareWriteOne
  rw [show (if hint = 0 then b.blockSize else hint) = b.asked hint from rfl]
  rw [if_neg (by simp [hr])]
  cases hlast : b.blocks.getLast? with
  | some tail =>
    obtain ⟨ys, hys⟩ := List.getLast?_eq_some_iff.mp hlast
    dsimp only
    by_cases hw : tail.writableBytes < b.asked hint
    · rw [if_pos hw]
      exact ⟨_, rfl, h.leaves_idle hr _ _, nofun, rfl,
        .inl ⟨rfl, h.region_idle hr, fun _ => ⟨tail, hlast, hw⟩⟩⟩
    · rw [if_neg hw, if_neg hw, show b.blocks.dropLast = ys by rw [hys, List.dropLast_concat]]
      have hcover := Nat.le_of_not_lt hw
      obtain ⟨hl, hc, hbytes, hlen⟩ := h.leaves_reserveTail hr hys (by omega)
      exact ⟨_, rfl, hl, nofun, hc,
        .inr ⟨_, rfl, hbytes, Nat.le_trans hcover (Nat.le_of_eq hlen.symm)⟩⟩
  | none =>
    have hnil : b.blocks = [] := List.getLast?_eq_none_iff.mp hlast
    cases hn : newBlock alloc next (max b.blockSize (b.asked hint)) with
    | none =>
      have hchain : ({ b with reservedBytes := 0, writeReserved := true } : Buffer β).Chained
          next := { h with }
      obtain ⟨hv, hc, hreg, hwr, ha⟩ := hchain.clearWriteReservation rfl
      exact ⟨_, rfl, leaves_of_address (b := b) hv hwr ha _ _,
        fun _ => ⟨next, Option.map_eq_none_iff.mp hn⟩, hc, .inl ⟨rfl, hreg, nofun⟩⟩
    | some k =>
      obtain ⟨ha, hread, hwrite, hres, -⟩ := newBlock_eq hn
      have hge : b.asked hint ≤ k.writableBytes := by
        rw [hwrite]
        exact Nat.le_max_right ..
      have hv : ({ b with blocks := [k] } : Buffer β).Valid (next + 1) := by
        refine h.withBlocks hr ?_ (List.pairwise_singleton _ _) (fun x hx => ?_) fun x hx => ?_
        · rw [h.counted, readableOf_cons, hread]
          show (readableOf b.blocks).length = _
          rw [hnil]
          rfl
        · rw [List.mem_singleton.mp hx, ha]
          exact Nat.lt_succ_self next
        · rw [List.mem_singleton.mp hx]
          exact hres
      have hone : ({ b with blocks := [k] } : Buffer β).blocks = [] ++ [k] := rfl
      obtain ⟨hl, hc, hbytes, hlen⟩ := hv.leaves_reserveTail hr hone (by omega)
      dsimp only
      rw [if_neg (by omega)]
      refine ⟨_, rfl, ⟨hl.valid, Nat.le_succ next, fun x hx => ?_, hl.ranges⟩, nofun, hc.trans ?_,
        .inr ⟨_, rfl, hbytes, Nat.le_trans hge (Nat.le_of_eq hlen.symm)⟩⟩
      · rw [List.mem_singleton.mp hx]
        exact .inr (Nat.le_of_eq ha.symm)
      · show readableOf [k] = readableOf b.blocks
        rw [hnil, readableOf_cons, hread]
        rfl

end Buffer

end Alyrn.Net
