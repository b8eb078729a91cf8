import Alyrn.Net.Buffer.Calls

/-!
# Draining and linearizing

Both work on the front of the chain, which may hold empty blocks. Their loops end, since a turn
either removes a block or is the last one.
-/

namespace Alyrn.Net

variable {β : Type}

namespace Buffer

variable {b : Buffer β} {next : ℕ} {ks ks' : List (Block β)} {k : Block β}

/-! ## Draining -/

/-- Blocks were dropped or shortened. -/
structure TakenFrom (ks ks' : List (Block β)) : Prop where
  address : List.Sublist (ks'.map Block.address) (ks.map Block.address)
  idle : (∀ k ∈ ks, k.reservedForWrite = false) → ∀ k ∈ ks', k.reservedForWrite = false

theorem TakenFrom.refl (ks : List (Block β)) : TakenFrom ks ks := ⟨List.Sublist.refl _, id⟩

theorem TakenFrom.trans {ks ks' ks'' : List (Block β)} (h : TakenFrom ks ks')
    (h' : TakenFrom ks' ks'') : TakenFrom ks ks'' :=
  ⟨h'.address.trans h.address, fun hi => h'.idle (h.idle hi)⟩

theorem takenFrom_pop : TakenFrom (k :: ks) ks :=
  ⟨List.sublist_cons_self .., fun hi x hx => hi x (List.mem_cons_of_mem _ hx)⟩

theorem takenFrom_drain {n : ℕ} : TakenFrom (k :: ks) (k.drain n :: ks) := by
  refine ⟨List.Sublist.refl _, fun hi x hx => ?_⟩
  rcases List.mem_cons.mp hx with rfl | hx
  · exact hi k List.mem_cons_self
  · exact hi x (List.mem_cons_of_mem _ hx)

theorem TakenFrom.distinct (h : TakenFrom ks ks') (hd : Distinct ks) : Distinct ks' :=
  h.address.nodup hd

theorem TakenFrom.mem (h : TakenFrom ks ks') (hk : k ∈ ks') : k.address ∈ ks.map Block.address :=
  h.address.subset (List.mem_map_of_mem hk)

theorem TakenFrom.bounded (h : TakenFrom ks ks')
    (hb : ∀ k ∈ ks, k.address < next) : ∀ k ∈ ks', k.address < next := by
  intro k hk
  obtain ⟨x, hx, heq⟩ := List.mem_map.mp (h.mem hk)
  rw [← heq]
  exact hb x hx

theorem drop_front (k : Block β) (ks : List (Block β)) (n : ℕ) :
    ((k.drain (min n k.readableBytes)).readableBytes = 0 ∧
        k.readable.take (min n k.readableBytes) ++ (readableOf ks).take
          (n - min n k.readableBytes) = (readableOf (k :: ks)).take n ∧
        (readableOf (k :: ks)).drop n = (readableOf ks).drop (n - min n k.readableBytes)) ∨
      (k.drain (min n k.readableBytes)).readableBytes ≠ 0 ∧ min n k.readableBytes = n ∧
        k.readable.take n = (readableOf (k :: ks)).take n ∧
        readableOf (k.drain n :: ks) = (readableOf (k :: ks)).drop n := by
  have hlen : (k.drain (min n k.readableBytes)).readableBytes =
      k.readableBytes - min n k.readableBytes := by
    rw [← Block.length_readable, Block.drain_readable, List.length_drop, Block.length_readable]
  rw [readableOf_cons, readableOf_cons, List.take_append, List.drop_append, Block.length_readable,
    Block.drain_readable]
  rcases Nat.lt_or_ge n k.readableBytes with h | h
  · refine .inr ⟨by omega, by omega, ?_, ?_⟩
    · rw [Nat.sub_eq_zero_of_le (Nat.le_of_lt h), List.take_zero, List.append_nil]
    · rw [Nat.sub_eq_zero_of_le (Nat.le_of_lt h), List.drop_zero]
  · have htake : k.readable.take n = k.readable :=
      List.take_of_length_le (by rw [Block.length_readable]; exact h)
    have hdrop : k.readable.drop n = [] :=
      List.drop_of_length_le (by rw [Block.length_readable]; exact h)
    refine .inl ⟨by omega, ?_, ?_⟩
    · rw [Nat.min_eq_right h, htake,
        List.take_of_length_le (Nat.le_of_eq k.length_readable)]
    · rw [Nat.min_eq_right h, hdrop]
      rfl

/-- **`DrainCommitted`** ends and removes the first `n` bytes. -/
theorem drainCommitted_eq (turns : ℕ) {n : ℕ} (hc : b.readableBytes = b.contents.length)
    (hn : n ≤ b.readableBytes) (ht : n = 0 ∨ b.blocks.length < turns) :
    ∃ ks, drainCommitted turns n b = .ok { b with blocks := ks, readableBytes :=
        b.readableBytes - n } ∧ readableOf ks = b.contents.drop n ∧ TakenFrom b.blocks ks := by
  induction turns generalizing n b with
  | zero =>
    obtain rfl : n = 0 := ht.resolve_right (Nat.not_lt_zero _)
    exact ⟨b.blocks, rfl, rfl, .refl _⟩
  | succ turns ih =>
    unfold drainCommitted
    by_cases h0 : n = 0
    · subst h0
      exact ⟨b.blocks, rfl, rfl, .refl _⟩
    rw [if_neg h0]
    cases hb : b.blocks with
    | nil =>
      have : b.contents = [] := by
        unfold contents
        rw [hb]
        rfl
      rw [hc, this] at hn
      exact absurd (Nat.le_zero.mp hn) h0
    | cons k ks =>
      dsimp only
      have hcont : b.contents = readableOf (k :: ks) := by
        unfold contents
        rw [hb]
      have hsum : b.readableBytes = k.readableBytes + (readableOf ks).length := by
        rw [hc, hcont, readableOf_cons, List.length_append, Block.length_readable]
      rw [hb, List.length_cons] at ht
      rcases drop_front k ks n with ⟨hzero, -, hdrop⟩ | ⟨hne, hmin, -, hdrop⟩
      · rw [if_pos hzero]
        obtain ⟨ks', heq, hread, htaken⟩ := ih (n := n - min n k.readableBytes)
          (b := { b with blocks := ks, readableBytes := b.readableBytes - min n k.readableBytes })
          (by
            have hlen : k.readableBytes = min n k.readableBytes := by
              have := Block.length_readable (k.drain (min n k.readableBytes))
              rw [hzero, Block.drain_readable, List.length_drop, Block.length_readable] at this
              omega
            show b.readableBytes - min n k.readableBytes = (readableOf ks).length
            omega)
          (by show n - min n k.readableBytes ≤ b.readableBytes - min n k.readableBytes; omega)
          (.inr (by show ks.length < turns; omega))
        refine ⟨ks', ?_, ?_, takenFrom_pop.trans htaken⟩
        · rw [heq]
          congr 2
          show b.readableBytes - min n k.readableBytes - (n - min n k.readableBytes) = _
          omega
        · rw [hread, hcont, hdrop]
          rfl
      · rw [if_neg hne, hmin, Nat.sub_self]
        refine ⟨k.drain n :: ks, ?_, by rw [hcont]; exact hdrop, takenFrom_drain⟩
        cases turns with
        | zero | succ turns => rfl

theorem Valid.drain (h : b.Valid next) (hr : b.writeReserved = false) (n : ℕ) :
    ∃ o, b.drain n next = .ok o ∧ Leaves b next o ∧ ¬o.threw = true ∧
      o.buffer.contents = b.contents.drop n ∧ o.buffer.region = [] := by
  unfold Buffer.drain
  rw [if_neg (by simp [hr])]
  obtain ⟨ks, heq, hread, htaken⟩ := drainCommitted_eq (b.blocks.length + 1)
    (n := min n b.readableBytes) h.counted (Nat.min_le_right ..) (.inr (Nat.lt_succ_self _))
  have hdrop : b.contents.drop (min n b.readableBytes) = b.contents.drop n := by
    rcases Nat.le_total n b.readableBytes with hle | hle
    · rw [Nat.min_eq_left hle]
    · rw [Nat.min_eq_right hle, List.drop_of_length_le (Nat.le_of_eq h.counted.symm),
        List.drop_of_length_le (by rw [← h.counted]; exact hle)]
  rw [heq]
  refine ⟨_, rfl, ⟨h.withBlocks hr ?_ (htaken.distinct h.distinct) (htaken.bounded h.bounded)
    (htaken.idle (h.idle hr)), Nat.le_refl _, fun k hk => .inl (htaken.mem hk), fun hx => ?_⟩,
    nofun, hread.trans hdrop, reservedOf_eq_nil (htaken.idle (h.idle hr))⟩
  · rw [hread, List.length_drop, h.counted]
  · rw [show b.writeReserved = true from hx] at hr
    cases hr

theorem Valid.drainAll (h : b.Valid next) (hr : b.writeReserved = false) :
    ∃ o, b.drainAll next = .ok o ∧ Leaves b next o ∧ ¬o.threw = true ∧
      o.buffer.contents = [] ∧ o.buffer.region = [] := by
  unfold Buffer.drainAll
  rw [if_neg (by simp [hr])]
  have hclear : b.clear = { b with blocks := [], readableBytes := 0 } := by
    unfold Buffer.clear
    rw [show b.clearWriteReservation = b from if_pos hr]
  rw [hclear]
  refine ⟨_, rfl, ⟨h.withBlocks hr rfl List.nodup_nil nofun
    nofun, Nat.le_refl _, nofun, fun hx => ?_⟩, nofun, rfl, rfl⟩
  rw [show b.writeReserved = true from hx] at hr
  cases hr

/-! ## Linearizing -/

/-- **The copying loop of `Linearize`** ends with the first bytes in one block. -/
theorem mergeFront_eq (turns remaining : ℕ) (merged : Block β) (ks : List (Block β))
    (hr : remaining ≤ (readableOf ks).length) (hw : remaining ≤ merged.writableBytes)
    (ht : remaining = 0 ∨ ks.length < turns) :
    ∃ merged' ks', mergeFront turns remaining merged ks = .ok (merged', ks') ∧
      merged'.readable = merged.readable ++ (readableOf ks).take remaining ∧
      readableOf ks' = (readableOf ks).drop remaining ∧ TakenFrom ks ks' ∧
      merged'.address = merged.address ∧ merged'.readPos = merged.readPos ∧
      merged'.reservedForWrite = merged.reservedForWrite := by
  induction turns generalizing remaining merged ks with
  | zero =>
    obtain rfl : remaining = 0 := ht.resolve_right (Nat.not_lt_zero _)
    exact ⟨merged, ks, rfl, (List.append_nil _).symm, rfl, .refl _, rfl, rfl, rfl⟩
  | succ turns ih =>
    unfold mergeFront
    by_cases h0 : remaining = 0
    · subst h0
      exact ⟨merged, ks, rfl, (List.append_nil _).symm, rfl, .refl _, rfl, rfl, rfl⟩
    rw [if_neg h0]
    cases ks with
    | nil => exact absurd (Nat.le_zero.mp hr) h0
    | cons k ks =>
      dsimp only
      rw [Nat.min_comm]
      set n := min remaining k.readableBytes with hn
      set merged₁ := (merged.store merged.writePos (k.readable.take n)).commit n with hm₁
      have hread₁ : merged₁.readable = merged.readable ++ k.readable.take n :=
        merged.append_readable _ (by rw [Block.length_readable]; omega) (by omega)
      have hw₁ : merged₁.writableBytes = merged.writableBytes - n := by
        rw [hm₁, Block.commit_writableBytes, Block.store_writableBytes, Nat.min_eq_left (by omega)]
      rw [readableOf_cons, List.length_append, Block.length_readable] at hr
      rw [List.length_cons] at ht
      rcases drop_front k ks remaining with
        ⟨hzero, htake, hdrop⟩ | ⟨hne, hmin, htake, hdrop⟩
      · rw [if_pos hzero]
        obtain ⟨merged', ks', heq, hread, hrest, htaken, ha, hp, hres⟩ :=
          ih (remaining - n) merged₁ ks (by omega) (by omega) (.inr (by omega))
        refine ⟨merged', ks', heq, ?_, hrest.trans hdrop.symm, takenFrom_pop.trans htaken, ha, hp,
          hres⟩
        rw [hread, hread₁, List.append_assoc, htake]
      · rw [if_neg hne, show n = remaining from hmin, Nat.sub_self]
        refine ⟨merged₁, k.drain remaining :: ks, ?_, ?_, hdrop, takenFrom_drain, rfl, rfl, rfl⟩
        · cases turns with
          | zero | succ turns => rfl
        · rw [hread₁, show n = remaining from hmin, htake]

theorem takenFrom_dropWhile (p : Block β → Bool) : TakenFrom ks (ks.dropWhile p) :=
  ⟨(List.dropWhile_sublist p).map _, fun hi k hk => hi k ((List.dropWhile_sublist p).subset hk)⟩

theorem readableOf_dropWhile : readableOf (ks.dropWhile (·.readableBytes = 0)) = readableOf ks := by
  induction ks with
  | nil => rfl
  | cons k ks ih =>
    by_cases h : k.readableBytes = 0
    · rw [List.dropWhile_cons_of_pos (by simpa using h), ih, readableOf_cons,
        k.readable_eq_nil.mpr h]
      rfl
    · rw [List.dropWhile_cons_of_neg (by simpa using h)]

/-- **`Linearize`** ends, changes nothing in the contents, and returns the first `n` bytes in one
range. -/
theorem Valid.linearize (h : b.Valid next) (hr : b.writeReserved = false) (alloc : Alloc β)
    {n : ℕ} (hle : n ≤ b.contents.length) :
    ∃ o, b.linearize alloc n next = .ok o ∧ Leaves b next o ∧
      (o.threw = true → ∃ address, alloc address = none) ∧ o.buffer.contents = b.contents ∧
      o.buffer.region = [] ∧
      (o.threw = false → n ≠ 0 → ∃ r, o.ranges = [r] ∧ r.length = n ∧
        bytesAt o.buffer.blocks r = b.contents.take n) := by
  unfold Buffer.linearize
  rw [if_neg (by simp [hr]), if_neg (by rw [h.counted]; omega)]
  by_cases h0 : n = 0
  · rw [if_pos h0]
    exact ⟨_, rfl, h.leaves_idle hr _ _, nofun, rfl, h.region_idle hr, fun _ hx => absurd h0 hx⟩
  rw [if_neg h0]
  set ks := b.blocks.dropWhile (·.readableBytes = 0) with hks
  have htaken : TakenFrom b.blocks ks := takenFrom_dropWhile _
  have hread : readableOf ks = b.contents := readableOf_dropWhile
  have hidle := htaken.idle (h.idle hr)
  -- what the first loop leaves of the buffer
  have hv : ({ b with blocks := ks } : Buffer β).Valid next :=
    h.withBlocks hr (by rw [hread]; exact h.counted) (htaken.distinct h.distinct)
      (htaken.bounded h.bounded) hidle
  have hleaves (threw : Bool) (ranges : List Iovec) :
      Leaves b next ⟨threw, ranges, { b with blocks := ks }, next⟩ :=
    ⟨hv, Nat.le_refl _, fun k hk => .inl (htaken.mem hk), fun hx => by
      rw [show b.writeReserved = true from hx] at hr
      cases hr⟩
  cases hfirst : ks with
  | nil =>
    rw [hfirst] at hread
    rw [← hread] at hle
    exact absurd (Nat.le_zero.mp hle) h0
  | cons k rest =>
    dsimp only
    rw [← hfirst]
    have hk : k ∈ ks := by rw [hfirst]; exact List.mem_cons_self
    by_cases hone : n ≤ k.readableBytes
    · rw [if_pos hone]
      refine ⟨_, rfl, hleaves _ _, nofun, hread, reservedOf_eq_nil hidle,
        fun _ _ => ⟨_, rfl, rfl, ?_⟩⟩
      refine (hv.distinct.bytesAt hk _ _).trans ((k.slice_readable hone).trans ?_)
      rw [← hread, hfirst, readableOf_cons,
        List.take_append_of_le_length (by rw [Block.length_readable]; exact hone)]
    · rw [if_neg hone]
      cases hnew : newBlock alloc next (max b.blockSize n) with
      | none =>
        exact ⟨_, rfl, hleaves _ _, fun _ => ⟨next, Option.map_eq_none_iff.mp hnew⟩, hread,
          reservedOf_eq_nil hidle, nofun⟩
      | some merged =>
        obtain ⟨ha, hempty, hwrite, hres, -⟩ := newBlock_eq hnew
        obtain ⟨merged', ks', heq, hm, hrest, htaken', ha', -, hres'⟩ :=
          mergeFront_eq (ks.length + 1) n merged ks
            (by rw [hread]; exact hle) (by rw [hwrite]; exact Nat.le_max_right ..)
            (.inr (Nat.lt_succ_self _))
        have haddr : merged'.address = next := ha'.trans ha
        rw [hread] at hm hrest
        rw [hempty, List.nil_append] at hm
        have hall := htaken.trans htaken'
        have hcontents : readableOf (merged' :: ks') = b.contents := by
          rw [readableOf_cons, hm, hrest, List.take_append_drop]
        have hbound := hall.bounded h.bounded
        have hidle' : ∀ x ∈ merged' :: ks', x.reservedForWrite = false := by
          intro x hx
          rcases List.mem_cons.mp hx with rfl | hx
          · exact hres'.trans hres
          · exact hall.idle (h.idle hr) x hx
        have hdistinct : Distinct (merged' :: ks') := by
          refine List.nodup_cons.mpr ⟨fun hx => ?_, hall.distinct h.distinct⟩
          obtain ⟨y, hy, hya⟩ := List.mem_map.mp hx
          have := hbound y hy
          omega
        dsimp only
        rw [heq]
        refine ⟨_, rfl, ⟨h.withBlocks hr (by rw [hcontents]; exact h.counted) hdistinct
          (fun x hx => ?_) hidle', Nat.le_succ next, fun x hx => ?_, fun hx => ?_⟩, nofun,
          hcontents, reservedOf_eq_nil hidle', fun _ _ => ⟨_, rfl, rfl, ?_⟩⟩
        · rcases List.mem_cons.mp hx with rfl | hx
          · rw [haddr]
            exact Nat.lt_succ_self next
          · exact Nat.lt_succ_of_lt (hbound x hx)
        · rcases List.mem_cons.mp hx with rfl | hx
          · exact .inr (Nat.le_of_eq haddr.symm)
          · exact .inl (hall.mem hx)
        · rw [show b.writeReserved = true from hx] at hr
          cases hr
        · have hlen : n ≤ merged'.readableBytes := by
            rw [← Block.length_readable, hm, List.length_take]
            omega
          refine (hdistinct.bytesAt List.mem_cons_self _ _).trans
            ((merged'.slice_readable hlen).trans ?_)
          rw [hm, List.take_take, Nat.min_self]

end Buffer

end Alyrn.Net
