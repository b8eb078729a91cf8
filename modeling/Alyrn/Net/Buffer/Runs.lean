import Alyrn.Net.Buffer.Reserve
import Alyrn.Net.Buffer.Drain

/-!
# Buffers as byte sequences

Any number of buffers, their writers and the moves between them. In every state reached the buffers
are valid, no two share a block, and a writer holds ranges of the open reservation only. So every
call acts on the contents of its buffer as it would on a plain byte sequence (`buffer_refines`).
-/

namespace Alyrn.Net

open Transition Function

variable {β : Type}

/-! ## One call -/

namespace BufferCall

/-- What a caller may ask for: nothing that changes the buffer during a reservation, the end of a
reservation only during one, and no more bytes than there are. -/
def Legal (b : Buffer β) : BufferCall β → Prop
  | reservedWriteIov _ => b.writeReserved = true
  | commitWrite n => b.writeReserved = true ∧ n ≤ b.region.length
  | abortWrite => True
  | linearize _ n => b.writeReserved = false ∧ n ≤ b.contents.length
  | _ => b.writeReserved = false

/-- The calls that the allocator refuses something. -/
def Starved : BufferCall β → Prop
  | append alloc _ | prepareWrite alloc _ _ | tryPrepareWriteOne alloc _ | linearize alloc _ =>
    ∃ address, alloc address = none
  | prepareWriteVector reserve alloc _ _ => reserve = false ∨ ∃ address, alloc address = none
  | _ => False

/-- What a call does to the byte sequence and to the region, and what it returns. -/
def Meets (b : Buffer β) (o : Outcome β) : BufferCall β → Prop
  | append _ xs => (∃ n, o.buffer.contents = b.contents ++ xs.take n) ∧
      (o.threw = false → o.buffer.contents = b.contents ++ xs) ∧ o.buffer.region = []
  | prepareWriteVector _ _ hint maxIov => b.Reserves hint maxIov o
  | prepareWrite _ hint size => b.Reserves hint size o
  | reservedWriteIov size => o.buffer = b ∧ o.ranges.flatMap (bytesAt b.blocks) <+: b.region ∧
      ((rangesOf b.blocks).length ≤ size → o.ranges.flatMap (bytesAt b.blocks) = b.region)
  | tryPrepareWriteOne _ hint => o.buffer.contents = b.contents ∧ b.ReservesOne hint o
  | commitWrite n => o.buffer.contents = b.contents ++ b.region.take n ∧ o.buffer.region = []
  | abortWrite => o.buffer.contents = b.contents ∧ o.buffer.region = []
  | drain n => o.buffer.contents = b.contents.drop n ∧ o.buffer.region = []
  | drainAll => o.buffer.contents = [] ∧ o.buffer.region = []
  | linearize _ n => o.buffer.contents = b.contents ∧ o.buffer.region = [] ∧
      (o.threw = false → n ≠ 0 → ∃ r, o.ranges = [r] ∧ r.length = n ∧
        bytesAt o.buffer.blocks r = b.contents.take n)

/-- **A legal call returns** and does what it is for; only the allocator makes it throw. -/
theorem run_legal {b : Buffer β} {next : ℕ} (h : b.Valid next) (c : BufferCall β)
    (hc : c.Legal b) : ∃ o, c.run b next = .ok o ∧ b.Leaves next o ∧
      (o.threw = true → c.Starved) ∧ c.Meets b o := by
  cases c with
  | append alloc xs => exact h.append hc alloc xs
  | prepareWriteVector reserve alloc hint maxIov =>
    exact h.prepareWriteInto hc reserve alloc hint maxIov
  | prepareWrite alloc hint size =>
    obtain ⟨o, ho, hl, hthrew, hm⟩ := h.prepareWriteInto hc true alloc hint size
    exact ⟨o, ho, hl, fun ht => (hthrew ht).resolve_left nofun, hm⟩
  | reservedWriteIov size =>
    obtain ⟨o, ho, hl, hthrew, hb, hr⟩ := h.reservedWriteIov hc size
    have hall := h.distinct.bytesAt_rangesOf
    refine ⟨o, ho, hl, hthrew, hb, ?_, fun hsize => ?_⟩
    · rw [← List.take_append_drop size (rangesOf b.blocks), List.flatMap_append] at hall
      rw [hr]
      exact ⟨_, hall⟩
    · rw [hr, List.take_of_length_le hsize]
      exact hall
  | tryPrepareWriteOne alloc hint => exact h.tryPrepareWriteOne hc alloc hint
  | commitWrite n => exact h.commitWrite hc.1 hc.2
  | abortWrite => exact h.abortWrite
  | drain n => exact h.drain hc n
  | drainAll => exact h.drainAll hc
  | linearize alloc n => exact h.linearize hc.1 alloc hc.2

/-- **Any other call** fails a check on its caller. -/
theorem run_illegal {b : Buffer β} {next : ℕ} (h : b.Valid next) (c : BufferCall β)
    (hc : ¬c.Legal b) : ∃ e, c.run b next = .error e ∧ e.isMisuse = true := by
  have hbusy (hx : ¬b.writeReserved = false) : b.writeReserved = true := by simpa using hx
  have hidle (hx : ¬b.writeReserved = true) : b.writeReserved = false := by simpa using hx
  cases c with
  | append alloc xs => exact ⟨_, if_pos (hbusy hc), rfl⟩
  | prepareWriteVector reserve alloc hint maxIov => exact ⟨_, if_pos (hbusy hc), rfl⟩
  | prepareWrite alloc hint size => exact ⟨_, if_pos (hbusy hc), rfl⟩
  | reservedWriteIov size => exact ⟨_, if_pos (hidle hc), rfl⟩
  | tryPrepareWriteOne alloc hint => exact ⟨_, if_pos (hbusy hc), rfl⟩
  | commitWrite n =>
    by_cases hr : b.writeReserved = true
    · have hlt : b.reservedBytes < n := by
        rw [(h.busy hr).2]
        exact Nat.lt_of_not_le fun hx => hc ⟨hr, hx⟩
      exact ⟨_, (if_neg (by simp [hr])).trans (if_pos hlt), rfl⟩
    · exact ⟨_, if_pos (hidle hr), rfl⟩
  | abortWrite => exact absurd trivial hc
  | drain n => exact ⟨_, if_pos (hbusy hc), rfl⟩
  | drainAll => exact ⟨_, if_pos (hbusy hc), rfl⟩
  | linearize alloc n =>
    by_cases hr : b.writeReserved = false
    · have hlt : b.readableBytes < n := by
        rw [h.counted]
        exact Nat.lt_of_not_le fun hx => hc ⟨hr, hx⟩
      exact ⟨_, (if_neg (by simp [hr])).trans (if_pos hlt), rfl⟩
    · exact ⟨_, if_pos (hbusy hr), rfl⟩

end BufferCall

/-! ## One write -/

section

variable {ks : List (Block β)} {g : Block β → Block β} (h : ∀ k ∈ ks, k.Alike (g k))

include h

theorem alike_address : (ks.map g).map Block.address = ks.map Block.address := by
  rw [List.map_map]
  exact List.map_congr_left fun k hk => (h k hk).address

theorem alike_readableOf : readableOf (ks.map g) = readableOf ks := by
  unfold readableOf
  rw [List.flatMap_map]
  exact List.flatMap_congr fun k hk => (h k hk).readable

theorem alike_rangesOf : rangesOf (ks.map g) = rangesOf ks := by
  induction ks with
  | nil => rfl
  | cons k ks ih =>
    have hk := h k List.mem_cons_self
    rw [List.map_cons, rangesOf_cons, rangesOf_cons, hk.reserved, hk.writableBytes,
      ih fun x hx => h x (List.mem_cons_of_mem _ hx)]
    unfold Block.writeIov
    rw [hk.address, hk.writePos, hk.writableBytes]

theorem alike_reserving (hr : Reserving ks) : Reserving (ks.map g) := by
  obtain ⟨pre, post, rfl, hpre, hpost, hempty⟩ := hr.split
  refine ⟨pre.map g, post.map g, List.map_append .., fun x hx => ?_, fun x hx => ?_,
    fun x hx => ?_⟩
  · obtain ⟨k, hk, rfl⟩ := List.mem_map.mp hx
    rw [(h k (List.mem_append_left _ hk)).reserved]
    exact hpre k hk
  · obtain ⟨k, hk, rfl⟩ := List.mem_map.mp hx
    rw [(h k (List.mem_append_right _ hk)).reserved]
    exact hpost k hk
  · rw [← List.map_tail] at hx
    obtain ⟨k, hk, rfl⟩ := List.mem_map.mp hx
    rw [(h k (List.mem_append_right _ (List.mem_of_mem_tail hk))).readable]
    exact hempty k hk

end

theorem Distinct.range_offset {ks : List (Block β)} (h : Distinct ks) {r : Iovec}
    (hr : r ∈ rangesOf ks) {k : Block β} (hk : k ∈ ks) (ha : k.address = r.address) :
    r = k.writeIov := by
  obtain ⟨x, hx, -, rfl⟩ := mem_rangesOf hr
  have hfind := h.find hk
  rw [show k.address = x.address from ha, h.find hx] at hfind
  cases hfind
  rfl

theorem Buffer.Valid.fill {b : Buffer β} {next : ℕ} (h : b.Valid next) (n : ℕ) (xs : List β) :
    let b' := b.fill ((rangesOf b.blocks).take n) xs
    b'.Valid next ∧ b'.contents = b.contents ∧ rangesOf b'.blocks = rangesOf b.blocks ∧
      b'.blocks.map Block.address = b.blocks.map Block.address := by
  obtain ⟨g, hg, halike⟩ := fillRanges_alike ((rangesOf b.blocks).take n) xs b.blocks
    fun r hr k hk ha => by
      rw [h.distinct.range_offset (List.mem_of_mem_take hr) hk ha]
      exact Nat.le_refl _
  unfold Buffer.fill
  rw [hg]
  have hread := alike_readableOf halike
  have hranges := alike_rangesOf halike
  have haddr := alike_address halike
  refine ⟨⟨⟨?_, h.blockSize_pos, ?_, bounded_of_address haddr h.bounded⟩, fun hr k hk => ?_,
    fun hr => ⟨alike_reserving halike (h.busy hr).1, ?_⟩⟩, hread, hranges, haddr⟩
  · show b.readableBytes = (readableOf _).length
    rw [hread]
    exact h.counted
  · show (List.map Block.address _).Nodup
    rw [haddr]
    exact h.distinct
  · obtain ⟨x, hx, rfl⟩ := List.mem_map.mp hk
    rw [(halike x hx).reserved]
    exact h.idle hr x hx
  · show b.reservedBytes = (reservedOf _).length
    rw [← sum_rangesOf, hranges, sum_rangesOf]
    exact (h.busy hr).2

/-! ## Every run -/

namespace BufferStore

variable {s s' : BufferStore β} {i j : ℕ} {b : Buffer β}

/-- The invariant of a run. -/
structure Intact (s : BufferStore β) : Prop where
  valid : ∀ i, (s.buffers i).Valid s.next
  apart : ∀ i j, i ≠ j → ∀ k ∈ (s.buffers i).blocks, ∀ l ∈ (s.buffers j).blocks,
    k.address ≠ l.address
  held : ∀ i, (s.buffers i).writeReserved = true →
    ∃ n, s.ranges i = (rangesOf (s.buffers i).blocks).take n
  none_held : ∀ i, (s.buffers i).writeReserved = false → s.ranges i = []

theorem setBuffer_self {i : ℕ} : (s.setBuffer i b).buffers i = b :=
  update_self ..

theorem setBuffer_of_ne (h : j ≠ i) : (s.setBuffer i b).buffers j = s.buffers j :=
  update_of_ne h ..

theorem Intact.update (h : Intact s) {i next : ℕ} {rs : List Iovec}
    (hv : b.Valid next) (hn : s.next ≤ next)
    (ho : ∀ k ∈ b.blocks, k.address ∈ (s.buffers i).blocks.map Block.address ∨ s.next ≤ k.address)
    (hr : b.writeReserved = true → ∃ n, rs = (rangesOf b.blocks).take n)
    (hr' : b.writeReserved = false → rs = []) :
    Intact { (s.setBuffer i b).setRanges i rs with next } := by
  have hself : ({ (s.setBuffer i b).setRanges i rs with next } : BufferStore β).buffers i = b :=
    setBuffer_self
  have hother {j : ℕ} (hj : j ≠ i) :
      ({ (s.setBuffer i b).setRanges i rs with next } : BufferStore β).buffers j = s.buffers j :=
    setBuffer_of_ne hj
  have hrange : ({ (s.setBuffer i b).setRanges i rs with next } : BufferStore β).ranges i = rs :=
    update_self ..
  have hrange' {j : ℕ} (hj : j ≠ i) :
      ({ (s.setBuffer i b).setRanges i rs with next } : BufferStore β).ranges j = s.ranges j :=
    update_of_ne hj ..
  have hnew {j : ℕ} (hj : j ≠ i) : ∀ k ∈ b.blocks, ∀ l ∈ (s.buffers j).blocks,
      k.address ≠ l.address := by
    intro k hk l hl heq
    rcases ho k hk with hx | hx
    · obtain ⟨y, hy, hya⟩ := List.mem_map.mp hx
      exact h.apart i j (Ne.symm hj) y hy l hl (hya.trans heq)
    · have := (h.valid j).bounded l hl
      omega
  refine ⟨fun j => ?_, fun j j' hjj' k hk l hl => ?_, fun j hj => ?_, fun j hj => ?_⟩
  · by_cases hj : j = i
    · rw [hj, hself]
      exact hv
    · rw [hother hj]
      exact (h.valid j).mono hn
  · by_cases hj : j = i
    · subst hj
      rw [hself] at hk
      rw [hother (Ne.symm hjj')] at hl
      exact hnew (Ne.symm hjj') k hk l hl
    · rw [hother hj] at hk
      by_cases hj' : j' = i
      · subst hj'
        rw [hself] at hl
        exact Ne.symm (hnew hj l hl k hk)
      · rw [hother hj'] at hl
        exact h.apart j j' hjj' k hk l hl
  · by_cases hji : j = i
    · rw [hji, hrange, hself]
      rw [hji, hself] at hj
      exact hr hj
    · rw [hrange' hji, hother hji]
      rw [hother hji] at hj
      exact h.held j hj
  · by_cases hji : j = i
    · rw [hji, hrange]
      rw [hji, hself] at hj
      exact hr' hj
    · rw [hrange' hji]
      rw [hother hji] at hj
      exact h.none_held j hj

theorem Intact.moved (h : Intact s) (hij : i ≠ j) (hr : (s.buffers j).writeReserved = false) :
    ∃ p, Buffer.moveFrom (s.buffers j) = .ok p ∧ Intact (s.moved i j p) ∧
      ((s.moved i j p).buffers i).contents = (s.buffers j).contents ∧
      ((s.moved i j p).buffers j).contents = [] ∧
      ∀ t, t ≠ i → t ≠ j → (s.moved i j p).buffers t = s.buffers t := by
  unfold Buffer.moveFrom
  rw [if_neg (by simp [hr])]
  set b : Buffer β := { s.buffers j with writeReserved := false, reservedBytes := 0 } with hb
  set other : Buffer β := { s.buffers j with
    blocks := []
    readableBytes := 0
    writeReserved := false
    reservedBytes := 0 } with ho
  have hj := h.valid j
  have hvb : b.Valid s.next := ⟨{ hj with },
    fun _ => hj.idle hr, nofun⟩
  have hvo : other.Valid s.next := ⟨⟨rfl, hj.blockSize_pos, List.nodup_nil,
    nofun⟩, nofun, nofun⟩
  have hbi : (s.moved i j (b, other)).buffers i = b := by
    show Function.update (Function.update s.buffers i b) j other i = b
    rw [update_of_ne hij, update_self]
  have hbj : (s.moved i j (b, other)).buffers j = other := update_self ..
  have hbt {t : ℕ} (hti : t ≠ i) (htj : t ≠ j) :
      (s.moved i j (b, other)).buffers t = s.buffers t := by
    show Function.update (Function.update s.buffers i b) j other t = _
    rw [update_of_ne htj, update_of_ne hti]
  have hblocks (t : ℕ) : ∀ k ∈ ((s.moved i j (b, other)).buffers t).blocks,
      t ≠ j ∧ (t = i → k ∈ (s.buffers j).blocks) ∧ (t ≠ i → k ∈ (s.buffers t).blocks) := by
    intro k hk
    by_cases htj : t = j
    · rw [htj, hbj] at hk
      cases hk
    · by_cases hti : t = i
      · rw [hti, hbi] at hk
        exact ⟨htj, fun _ => hk, fun hx => absurd hti hx⟩
      · rw [hbt hti htj] at hk
        exact ⟨htj, fun hx => absurd hx hti, fun _ => hk⟩
  refine ⟨(b, other), rfl, ⟨fun t => ?_, fun t t' htt' k hk l hl => ?_, fun t ht => ?_,
    fun t ht => ?_⟩, (by rw [hbi]; rfl), (by rw [hbj]; rfl), fun t hti htj => hbt hti htj⟩
  · by_cases htj : t = j
    · rw [htj, hbj]
      exact hvo
    · by_cases hti : t = i
      · rw [hti, hbi]
        exact hvb
      · rw [hbt hti htj]
        exact h.valid t
  · obtain ⟨htj, hki, hkt⟩ := hblocks t k hk
    obtain ⟨htj', hli, hlt⟩ := hblocks t' l hl
    by_cases hti : t = i
    · have hti' : t' ≠ i := fun hx => htt' (hti.trans hx.symm)
      exact h.apart j t' (Ne.symm htj') k (hki hti) l (hlt hti')
    · by_cases hti' : t' = i
      · exact h.apart t j htj k (hkt hti) l (hli hti')
      · exact h.apart t t' htt' k (hkt hti) l (hlt hti')
  · have htj : t ≠ j := by
      rintro rfl
      rw [hbj] at ht
      cases ht
    have hti : t ≠ i := by
      rintro rfl
      rw [hbi] at ht
      cases ht
    rw [hbt hti htj] at ht ⊢
    rw [show (s.moved i j (b, other)).ranges t = s.ranges t from update_of_ne hti ..]
    exact h.held t ht
  · by_cases hti : t = i
    · rw [hti]
      exact update_self ..
    · rw [show (s.moved i j (b, other)).ranges t = s.ranges t from update_of_ne hti ..]
      by_cases htj : t = j
      · rw [htj]
        exact h.none_held j hr
      · rw [hbt hti htj] at ht
        exact h.none_held t ht

theorem Intact.write (h : Intact s) (i : ℕ) (xs : List β) :
    ∃ s', s.perform (.write i xs) = .ok s' ∧ Intact s' ∧
      (s'.buffers i).contents = (s.buffers i).contents ∧
      (xs.length ≤ ((s.ranges i).map Iovec.length).sum →
        (s'.buffers i).region = xs ++ (s.buffers i).region.drop xs.length) := by
  have hranges : ∃ n, s.ranges i = (rangesOf (s.buffers i).blocks).take n := by
    cases hr : (s.buffers i).writeReserved with
    | true => exact h.held i hr
    | false => exact ⟨0, h.none_held i hr⟩
  obtain ⟨n, hn⟩ := hranges
  obtain ⟨hv, hc, hrs, haddr⟩ := (h.valid i).fill n xs
  refine ⟨_, rfl, ?_, ?_, fun hlen => ?_⟩
  · have hintact : Intact { (s.setBuffer i ((s.buffers i).fill ((rangesOf
        (s.buffers i).blocks).take n) xs)).setRanges i (s.ranges i) with next := s.next } :=
      h.update hv (Nat.le_refl _) (fun k hk => .inl (haddr ▸ List.mem_map_of_mem hk))
        (fun _ => ⟨n, by rw [hrs]; exact hn⟩) (h.none_held i)
    have hself : s.setBuffer i ((s.buffers i).fill (s.ranges i) xs) =
        { (s.setBuffer i ((s.buffers i).fill ((rangesOf (s.buffers i).blocks).take n) xs)).setRanges
          i (s.ranges i) with next := s.next } := by
      rw [hn]
      exact congrArg (fun r => { s.setBuffer i _ with ranges := r })
        ((update_eq_self i s.ranges).symm.trans (by rw [hn]))
    rw [hself]
    exact hintact
  · rw [setBuffer_self, hn]
    exact hc
  · rw [setBuffer_self, hn]
    rw [hn] at hlen
    exact (h.valid i).distinct.reservedOf_fillRanges n xs hlen

/-- **A move** of a buffer without a reservation; `free` says that the target has none either,
where it matters. -/
theorem Intact.move (h : Intact s) (hij : i ≠ j) {a : BufferAction β} {free : Bool}
    (ha : s.perform a = if free then (Buffer.moveFrom (s.buffers j)).map (s.moved i j)
      else .error .mutationDuringReservation) :
    (free = true ∧ (s.buffers j).writeReserved = false → ∃ s', s.perform a = .ok s' ∧ Intact s' ∧
      s'.aborted = s.aborted ∧ (s'.buffers i).contents = (s.buffers j).contents ∧
      (s'.buffers j).contents = []) ∧
    (¬(free = true ∧ (s.buffers j).writeReserved = false) →
      ∃ e, s.perform a = .error e ∧ e.isMisuse = true) := by
  rw [ha]
  cases free with
  | false => exact ⟨nofun, fun _ => ⟨_, rfl, rfl⟩⟩
  | true =>
    rw [if_pos rfl]
    cases hr : (s.buffers j).writeReserved with
    | true =>
      refine ⟨nofun, fun _ => ⟨.movingPendingReservation, ?_, rfl⟩⟩
      unfold Buffer.moveFrom
      rw [if_pos hr]
      rfl
    | false =>
      obtain ⟨p, hp, hi, hc, hc', -⟩ := h.moved hij hr
      rw [hp]
      exact ⟨fun _ => ⟨_, rfl, hi, rfl, hc, hc'⟩, fun hx => absurd ⟨rfl, rfl⟩ hx⟩

theorem perform_moveConstruct (hij : i ≠ j) : s.perform (.moveConstruct i j) =
    if true then (Buffer.moveFrom (s.buffers j)).map (s.moved i j)
      else .error .mutationDuringReservation :=
  if_neg hij

theorem perform_moveAssign (hij : i ≠ j) : s.perform (.moveAssign i j) =
    if !(s.buffers i).writeReserved then (Buffer.moveFrom (s.buffers j)).map (s.moved i j)
      else .error .mutationDuringReservation := by
  refine (if_neg hij).trans ?_
  unfold Buffer.moveAssign
  cases (s.buffers i).writeReserved with
  | true | false => rfl

theorem Intact.perform (h : Intact s) (a : BufferAction β) :
    (∃ e, s.perform a = .error e ∧ e.isMisuse = true) ∨
      ∃ s', s.perform a = .ok s' ∧ Intact s' ∧ s'.aborted = s.aborted := by
  have hmove {i j : ℕ} (hij : i ≠ j) {free : Bool} (ha : s.perform a = if free then
      (Buffer.moveFrom (s.buffers j)).map (s.moved i j)
        else .error .mutationDuringReservation) :
      (∃ e, s.perform a = .error e ∧ e.isMisuse = true) ∨
        ∃ s', s.perform a = .ok s' ∧ Intact s' ∧ s'.aborted = s.aborted := by
    by_cases hlegal : free = true ∧ (s.buffers j).writeReserved = false
    · obtain ⟨s', hs', hi, hab, -⟩ := (h.move hij ha).1 hlegal
      exact .inr ⟨s', hs', hi, hab⟩
    · exact .inl ((h.move hij ha).2 hlegal)
  cases a with
  | construct i blockSize =>
    exact .inr ⟨_, rfl, h.update (Buffer.valid_create _ _) (Nat.le_refl _)
      nofun nofun (fun _ => rfl), rfl⟩
  | call i c =>
    by_cases hc : c.Legal (s.buffers i)
    · obtain ⟨o, ho, hl, -⟩ := c.run_legal (h.valid i) hc
      refine .inr ⟨s.returned i o, congrArg (Except.map (s.returned i)) ho,
        h.update hl.valid hl.next_le hl.origin (fun hr => ?_) fun hr => ?_, rfl⟩
      · rw [if_pos hr]
        exact hl.ranges hr
      · rw [if_neg (by simp [hr])]
    · obtain ⟨e, he, hm⟩ := c.run_illegal (h.valid i) hc
      exact .inl ⟨e, congrArg (Except.map (s.returned i)) he, hm⟩
  | write i xs =>
    obtain ⟨s', hs', hi, -⟩ := h.write i xs
    refine .inr ⟨s', hs', hi, ?_⟩
    cases hs'
    rfl
  | moveConstruct i j =>
    by_cases hij : i = j
    · exact .inr ⟨s, if_pos hij, h, rfl⟩
    · exact hmove hij (perform_moveConstruct hij)
  | moveAssign i j =>
    by_cases hij : i = j
    · exact .inr ⟨s, if_pos hij, h, rfl⟩
    · exact hmove hij (perform_moveAssign hij)

/-- **The invariant holds in every run**, and only a misuse ends one. -/
theorem intact_of_reaches (h : (system β).Reaches s) :
    Intact s ∧ ∀ e, s.aborted = some e → e.isMisuse = true := by
  refine h.invariant (I := fun s => Intact s ∧ ∀ e, s.aborted = some e → e.isMisuse = true) ?_ ?_
  · rintro s ⟨blockSize, rfl⟩
    exact ⟨⟨fun i => Buffer.valid_create _ _, nofun,
      nofun, fun _ _ => rfl⟩, nofun⟩
  · rintro s a s' ⟨hi, -⟩ - hs
    obtain ⟨hna, hs⟩ := Option.ite_none_left_eq_some.mp hs
    have hnone : s.aborted = none := by simpa using hna
    rcases hi.perform a with ⟨e, he, hm⟩ | ⟨u, hu, hui, hab⟩
    · rw [he] at hs
      obtain rfl : { s with aborted := some e } = s' := Option.some.inj hs
      refine ⟨{ hi with }, fun e' he' => ?_⟩
      cases he'
      exact hm
    · rw [hu] at hs
      cases hs
      refine ⟨hui, fun e he => ?_⟩
      rw [hab, hnone] at he
      cases he

theorem Intact.range_behind (h : Intact s) {r : Iovec} (hr : r ∈ s.ranges i)
    {k : Block β} (hk : k ∈ (s.buffers j).blocks) (ha : k.address = r.address) :
    k.writePos ≤ r.offset ∧ r.offset + r.length ≤ k.capacity := by
  cases hres : (s.buffers i).writeReserved with
  | false =>
    rw [h.none_held i hres] at hr
    cases hr
  | true =>
    obtain ⟨n, hn⟩ := h.held i hres
    rw [hn] at hr
    have hr := List.mem_of_mem_take hr
    obtain ⟨x, hx, -, hrx⟩ := mem_rangesOf hr
    obtain rfl : j = i := by
      by_contra hji
      refine h.apart j i hji k hk x hx (ha.trans ?_)
      rw [hrx]
      rfl
    rw [(h.valid j).distinct.range_offset hr hk ha]
    have := k.writePos_le
    refine ⟨Nat.le_refl _, ?_⟩
    show k.writePos + (k.capacity - k.writePos) ≤ k.capacity
    unfold Block.capacity
    omega

/-- A move between two buffers hands the sequence over if it is legal, else fails a check on its
caller. -/
def Moves (s : BufferStore β) (i j : ℕ) (legal : Prop) (a : BufferAction β) : Prop :=
  (legal → ∃ s', s.perform a = .ok s' ∧ (s'.buffers i).contents = (s.buffers j).contents ∧
    (s'.buffers j).contents = []) ∧
  (¬legal → ∃ e, s.perform a = .error e ∧ e.isMisuse = true)

/-- What every buffer and every writer can rely on. -/
structure Refines (s : BufferStore β) : Prop where
  length : ∀ i, (s.buffers i).readableBytes = (s.buffers i).contents.length
  /-- A legal call returns and does to the sequence what its name says. It throws only if the
  allocator refuses something. -/
  call : ∀ i c, BufferCall.Legal (s.buffers i) c → ∃ o, c.run (s.buffers i) s.next = .ok o ∧
    c.Meets (s.buffers i) o ∧ (o.threw = true → c.Starved)
  /-- Any other call fails a check on its caller. -/
  misuse : ∀ i c, ¬BufferCall.Legal (s.buffers i) c →
    ∃ e, c.run (s.buffers i) s.next = .error e ∧ e.isMisuse = true
  /-- A writer fills the region in order. -/
  write : ∀ i xs, xs.length ≤ ((s.ranges i).map Iovec.length).sum →
    ∃ s', s.perform (.write i xs) = .ok s' ∧
      (s'.buffers i).contents = (s.buffers i).contents ∧
      (s'.buffers i).region = xs ++ (s.buffers i).region.drop xs.length
  /-- No readable byte of any buffer lies in a range that a writer holds. -/
  behind : ∀ i, ∀ r ∈ s.ranges i, ∀ j, ∀ k ∈ (s.buffers j).blocks, k.address = r.address →
    k.writePos ≤ r.offset ∧ r.offset + r.length ≤ k.capacity
  construct : ∀ i j, i ≠ j →
    s.Moves i j ((s.buffers j).writeReserved = false) (.moveConstruct i j)
  assign : ∀ i j, i ≠ j → s.Moves i j ((s.buffers i).writeReserved = false ∧
    (s.buffers j).writeReserved = false) (.moveAssign i j)
  aborted : ∀ e, s.aborted = some e → e.isMisuse = true

/-- **A buffer is a byte sequence**, for all block sizes, calls, writers and moves. -/
theorem buffer_refines (h : (system β).Reaches s) : s.Refines := by
  obtain ⟨hi, hab⟩ := intact_of_reaches h
  refine ⟨fun i => (hi.valid i).counted, fun i c hc => ?_, fun i c hc => ?_, fun i xs hlen => ?_,
    fun i r hr j k hk ha => hi.range_behind hr hk ha, fun i j hij => ?_, fun i j hij => ?_, hab⟩
  · obtain ⟨o, ho, -, hthrew, hm⟩ := c.run_legal (hi.valid i) hc
    exact ⟨o, ho, hm, hthrew⟩
  · exact c.run_illegal (hi.valid i) hc
  · obtain ⟨s', hs', -, hc, hr⟩ := hi.write i xs
    exact ⟨s', hs', hc, hr hlen⟩
  · obtain ⟨hok, hbad⟩ := hi.move hij (perform_moveConstruct hij)
    refine ⟨fun hx => ?_, fun hx => hbad fun hy => hx hy.2⟩
    obtain ⟨s', hs', -, -, hc⟩ := hok ⟨rfl, hx⟩
    exact ⟨s', hs', hc⟩
  · obtain ⟨hok, hbad⟩ := hi.move hij (perform_moveAssign hij)
    rw [Bool.not_eq_true'] at hok hbad
    refine ⟨fun hx => ?_, hbad⟩
    obtain ⟨s', hs', -, -, hc⟩ := hok hx
    exact ⟨s', hs', hc⟩

/-- Blocks of two bytes: a reservation over the half-full tail and a new block, of which only the
tail is committed, so that the new block stays empty in the chain. Then a byte is appended behind
it, the buffer is moved, and its first three bytes are made contiguous. -/
theorem buffer_refines_runs : ∃ s : BufferStore ℕ, ((system ℕ).Reaches s ∧ s.aborted = none ∧
    (s.buffers 1).contents = [1, 2, 3, 4] ∧ (s.buffers 1).readableBytes = 4 ∧
    (s.buffers 0).contents = [] ∧ (s.buffers 1).blocks.map Block.readable = [[1, 2, 3], [4]] ∧
    (s.buffers 1).writeReserved = false) ∧
    ∃ o, BufferCall.run (.append (fun _ => some fun _ => 0) [5]) (s.buffers 1) s.next = .ok o ∧
      o.threw = false ∧ o.buffer.contents = [1, 2, 3, 4, 5] := by
  let alloc : Alloc ℕ := fun _ => some fun _ => 0
  obtain ⟨s, hr, hp⟩ := (system ℕ).exists_reachesBy (fun _ _ => True) (create fun _ => 2) ⟨_, rfl⟩
    [.call 0 (.append alloc [1]), .call 0 (.prepareWrite alloc 3 2), .write 0 [2, 9, 9],
      .call 0 (.commitWrite 1), .call 0 (.append alloc [3, 4]), .moveAssign 1 0,
      .call 1 (.linearize alloc 3)]
    (P := fun s => s.aborted = none ∧ (s.buffers 1).contents = [1, 2, 3, 4] ∧
      (s.buffers 1).readableBytes = 4 ∧ (s.buffers 0).contents = [] ∧
      (s.buffers 1).blocks.map Block.readable = [[1, 2, 3], [4]] ∧
      (s.buffers 1).writeReserved = false) (by decide +kernel)
  have hidle : (s.buffers 1).writeReserved = false := hp.2.2.2.2.2
  obtain ⟨o, ho, ⟨-, hall, -⟩, hstarved⟩ :=
    (buffer_refines hr.reaches).call 1 (.append alloc [5]) hidle
  have hthrew : o.threw = false := by
    by_contra hx
    obtain ⟨address, hnone⟩ := hstarved (by simpa using hx)
    cases hnone
  refine ⟨s, ⟨hr.reaches, hp⟩, o, ho, hthrew, ?_⟩
  rw [hall hthrew, hp.2.1]
  rfl

end BufferStore

end Alyrn.Net
