import Alyrn.Uring.RecvSource.Moves

/-!
# Buffer accounting in RecvSource

The identifiers of the provided buffers are counted: each move of a handler keeps the number of
times that an identifier is in the ring or acquired (`Conserved`), so that a buffer which the kernel
selected is back in the ring, once, when the handler of its completion returns.
-/

namespace Alyrn.Uring

open Net Transition

namespace ProvidedBufferPool

/-- How often identifier `id` is in the ring, and once more while it is acquired. -/
def copies (p : ProvidedBufferPool) (id : ℕ) : ℕ :=
  p.ring.count id + if p.inUse[id]? = some true then 1 else 0

/-- Two pools of the same size that agree on the copies of every identifier. -/
structure Same (p q : ProvidedBufferPool) : Prop where
  capacity : q.capacity = p.capacity
  published : q.publishedCapacity = p.publishedCapacity
  copies : ∀ id, q.copies id = p.copies id

variable {p q r : ProvidedBufferPool}

theorem Same.refl (p : ProvidedBufferPool) : p.Same p := ⟨rfl, rfl, fun _ => rfl⟩

theorem Same.trans (h : p.Same q) (h' : q.Same r) : p.Same r :=
  ⟨h'.capacity.trans h.capacity, h'.published.trans h.published,
    fun id => (h'.copies id).trans (h.copies id)⟩

theorem same_giveBack {id : ℕ} (h : p.giveBack id = some q) : p.Same q := by
  unfold giveBack at h
  split_ifs at h with hid
  cases h
  obtain ⟨hlt, -⟩ := List.getElem?_eq_some_iff.mp hid
  refine ⟨rfl, rfl, fun j => ?_⟩
  by_cases hj : id = j
  · subst hj
    rw [copies, copies, if_pos hid, List.getElem?_set_self hlt]
    simp
  · simp [copies, hj]

/-- There is one copy of each published buffer. -/
structure Whole (p : ProvidedBufferPool) : Prop where
  published_le : p.publishedCapacity ≤ p.capacity
  copies : ∀ id, p.copies id = if id < p.publishedCapacity then 1 else 0

theorem Same.whole (h : p.Same q) (hp : p.Whole) : q.Whole :=
  ⟨by rw [h.published, h.capacity]; exact hp.published_le,
    fun id => by rw [h.copies, h.published]; exact hp.copies id⟩

theorem WellFormed.whole (h : p.WellFormed) : p.Whole := by
  refine ⟨h.published_le, fun id => ?_⟩
  have hfree : p.inUse[id]? ≠ some true := by
    rw [h.inUse, List.getElem?_replicate]
    split_ifs <;> simp
  rw [copies, if_neg hfree, h.ring.count_eq, List.count_range, Nat.add_zero]

theorem Whole.lt (h : p.Whole) {id : ℕ} (hid : id ∈ p.ring) : id < p.publishedCapacity := by
  have hpos : 0 < p.ring.count id := List.count_pos_iff.mpr hid
  have hcopies := h.copies id
  by_contra hlt
  rw [if_neg hlt, ProvidedBufferPool.copies] at hcopies
  omega

end ProvidedBufferPool

namespace BufferSlots

variable {b b' : BufferSlots} {bufferSize id : ℕ}

theorem same_returnIfReclaimable {st : SlotState}
    (h : (b.setSlot id st).returnIfReclaimable id = some b') : b.pool.Same b'.pool := by
  unfold returnIfReclaimable at h
  by_cases hkeep : ((b.setSlot id st).slot id).active = false ∨
      ((b.setSlot id st).slot id).kernelDone = false ∨ ((b.setSlot id st).slot id).leaseCount ≠ 0
  · rw [if_pos hkeep] at h
    cases h
    exact .refl _
  · rw [if_neg hkeep] at h
    cases hpool : (b.setSlot id st).pool.giveBack id with
    | none => simp [hpool] at h
    | some pool =>
      rw [hpool] at h
      obtain ⟨-, rfl⟩ := of_unless h
      exact ProvidedBufferPool.same_giveBack hpool

theorem same_markKernelDone (h : b.markKernelDone id = some b') : b.pool.Same b'.pool := by
  obtain ⟨-, h⟩ := Option.ite_none_left_eq_some.mp h
  exact same_returnIfReclaimable h

theorem same_releaseSlotLease (h : b.releaseSlotLease id = some b') : b.pool.Same b'.pool := by
  obtain ⟨-, h⟩ := Option.ite_none_left_eq_some.mp h
  exact same_returnIfReclaimable h

theorem same_markKernelDoneAll {ids : List ℕ} (h : markKernelDoneAll ids b = some b') :
    b.pool.Same b'.pool := by
  induction ids generalizing b with
  | nil =>
    cases h
    exact .refl _
  | cons id ids ih =>
    rw [markKernelDoneAll] at h
    split_ifs at h
    · obtain ⟨b₁, hdone, hrest⟩ := Option.bind_eq_some_iff.mp h
      exact (same_markKernelDone hdone).trans (ih hrest)
    · exact ih h

theorem same_markActiveSlotsKernelDone (h : b.markActiveSlotsKernelDone = some b') :
    b.pool.Same b'.pool := by
  unfold markActiveSlotsKernelDone at h
  split_ifs at h
  · cases h
    exact .refl _
  · exact same_markKernelDoneAll h

/-- The buffers as the kernel leaves them: it has taken `id` out of the ring. -/
def filled (b : BufferSlots) (id : ℕ) (bytes : List UInt8) : BufferSlots :=
  { b with pool := b.pool.kernelFill id bytes }

theorem Idle.not_inUse (h : b.Idle bufferSize) (id : ℕ) : b.pool.inUse[id]? ≠ some true := by
  rw [h.inUse, List.getElem?_replicate]
  split_ifs <;> simp

theorem Idle.same_lent (h : b.Idle bufferSize) (hw : b.pool.Whole) (hid : id ∈ b.pool.ring)
    (bytes : List UInt8) (n : ℕ) (kernelDone : Bool) :
    b.pool.Same ((b.filled id bytes).lent id n kernelDone).pool := by
  have hlt : id < b.pool.capacity := (hw.lt hid).trans_le hw.published_le
  have hlen : id < b.pool.inUse.length := by rwa [h.inUse, List.length_replicate]
  refine ⟨rfl, rfl, fun j => ?_⟩
  show (b.pool.ring.erase id).count j + _ = _ + _
  rw [if_neg (h.not_inUse j)]
  by_cases hj : id = j
  · subst hj
    have hpos : 0 < b.pool.ring.count id := List.count_pos_iff.mpr hid
    have hacq : ((b.filled id bytes).lent id n kernelDone).pool.inUse[id]? = some true :=
      List.getElem?_set_self hlen
    rw [if_pos hacq, List.count_erase_self]
    omega
  · have hfree : ((b.filled id bytes).lent id n kernelDone).pool.inUse[j]? ≠ some true := by
      show (b.pool.inUse.set id true)[j]? ≠ _
      rw [List.getElem?_set_ne hj]
      exact h.not_inUse j
    rw [if_neg hfree, List.count_erase_of_ne (Ne.symm hj)]

theorem same_returned (hid : id ∈ b.pool.ring) (bytes : List UInt8) :
    b.pool.Same ((b.filled id bytes).returned id).pool := by
  refine ⟨rfl, rfl, fun j => ?_⟩
  show (b.pool.ring.erase id ++ [id]).count j + _ = _
  have hperm : (b.pool.ring.erase id ++ [id]).Perm b.pool.ring :=
    (List.perm_append_singleton _ _).trans (List.perm_cons_erase hid).symm
  rw [hperm.count_eq]
  rfl

end BufferSlots

namespace RecvSource

/-! ## Conservation -/

def Conserved (s t : RecvSource) : Prop := s.buffers.pool.Same t.buffers.pool

variable {s s' t : RecvSource} {event : CompletionEvent}

theorem conserved_of_eq (h : t.buffers = s.buffers) : Conserved s t := by
  rw [Conserved, h]
  exact .refl _

theorem conserved_onBuffers {f : BufferSlots → Option BufferSlots}
    (hf : ∀ b b', f b = some b' → b.pool.Same b'.pool) (s : RecvSource) :
    Conserved s (s.onBuffers f) := by
  unfold onBuffers
  cases hb : f s.buffers with
  | none => exact .refl _
  | some b => exact hf _ _ hb

theorem conserved_moves : Moves Conserved where
  trans h h' := ProvidedBufferPool.Same.trans h h'
  move _ _ hb _ _ _ := conserved_of_eq hb
  pop _ := .refl _
  push _ _ := .refl _
  kernelDone s _ := conserved_onBuffers (fun _ _ => BufferSlots.same_markKernelDone) s
  kernelDoneAll s := conserved_onBuffers (fun _ _ => BufferSlots.same_markActiveSlotsKernelDone) s
  release s _ := conserved_onBuffers (fun _ _ => BufferSlots.same_releaseSlotLease) s

theorem Conserved.completeStopIfReady (h : Conserved s t) : Conserved s t.completeStopIfReady := by
  refine conserved_moves.trans h (conserved_of_eq ?_)
  unfold RecvSource.completeStopIfReady
  split
  · rfl
  · split_ifs <;> rfl

/-- The kernel selects a buffer of the ring. The ring is not incremental, so the completion gives
the whole buffer away, and the payload fits into it. -/
def Selects (s : RecvSource) : Action → Prop
  | .recvCqe event _ _ => event.hasSelectedBuffer = true →
    event.selectedBufferId ∈ s.buffers.pool.ring ∧ event.bufferMore = false ∧
      event.result.toNat ≤ s.bufferSize
  | _ => True

instance (s : RecvSource) : (a : Action) → Decidable (Selects s a)
  | .recvCqe .. => by dsimp only [Selects]; infer_instance
  | .cancelCqe .. | .next .. | .release .. | .requestStop .. | .stop .. => .isTrue trivial

theorem validBuffer_eq (hw : s.buffers.pool.Whole)
    (hsel : event.hasSelectedBuffer = true → event.selectedBufferId ∈ s.buffers.pool.ring) :
    s.validBuffer event = event.hasSelectedBuffer := by
  cases h : event.hasSelectedBuffer with
  | false => simp [validBuffer, h]
  | true =>
    have hlt := (hw.lt (hsel h)).trans_le hw.published_le
    simpa [validBuffer, h] using hlt

theorem buffers_arrived (event : CompletionEvent) (bytes : List UInt8)
    (answers : List (Option Error)) : (s.arrived event bytes answers).buffers =
      if s.validBuffer event then s.buffers.filled event.selectedBufferId bytes
      else s.buffers := by
  unfold RecvSource.arrived endRequest
  split_ifs <;> simp_all [withAnswers, kernelRecv, BufferSlots.filled]

theorem Between.conserved_recv (h : Between s) (hw : s.buffers.pool.Whole)
    {bytes : List UInt8} {answers : List (Option Error)}
    (hin : s.ctl.inFlight = true) (hsel : Selects s (.recvCqe event bytes answers)) :
    Conserved s (((s.kernelRecv event bytes).withAnswers answers).onCompletion event) := by
  obtain ⟨hinv, -⟩ := h.inv.arrived hin event bytes answers
  have hsize : (s.arrived event bytes answers).bufferSize = s.bufferSize :=
    (s.arrived_frame event bytes answers).2.2.2.2.1
  have hbuf := s.buffers_arrived event bytes answers
  have hvalid := validBuffer_eq hw fun hs => (hsel hs).1
  have harrived : (s.arrived event bytes answers).validBuffer event = s.validBuffer event := by
    unfold validBuffer
    rw [hbuf]
    split_ifs <;> rfl
  have hresult : Conserved s ((s.arrived event bytes answers).handleResult event) := by
    cases hs : event.hasSelectedBuffer with
    | false =>
      rw [hvalid, hs] at hbuf
      refine conserved_moves.handleResult _ hinv.leases_of_full ?_ ?_ ?_ fun _ =>
        conserved_of_eq hbuf
      all_goals
        intros
        simp_all
    | true =>
      obtain ⟨hring, hmore, hle⟩ := hsel hs
      rw [hvalid, hs, if_pos rfl] at hbuf
      have hid :
          event.selectedBufferId < (s.arrived event bytes answers).buffers.pool.capacity := by
        rw [hbuf]
        exact (hw.lt hring).trans_le hw.published_le
      have hacq := hinv.buffers.acquireBuffer hid (hsize ▸ hle)
      refine conserved_moves.handleResult _ hinv.leases_of_full (fun b _ hb => ?_) (fun _ => ?_)
        (fun _ hor => ?_) fun hf => ?_
      · obtain rfl := Except.ok.inj (hacq.symm.trans hb)
        show s.buffers.pool.Same ((s.arrived event bytes answers).buffers.lent _ 1 false).pool
        rw [hbuf]
        exact h.inv.buffers.same_lent hw hring bytes 1 false
      · rw [onBuffers, hinv.buffers.settle hid]
        show s.buffers.pool.Same ((s.arrived event bytes answers).buffers.returned _).pool
        rw [hbuf]
        exact BufferSlots.same_returned hring bytes
      · rcases hor with hb | ⟨e, he⟩
        · exact absurd (hmore.symm.trans hb) (by decide)
        · exact absurd (hacq.symm.trans he) (by simp)
      · rw [harrived, hvalid, hs] at hf
        exact absurd hf (by decide)
  obtain ⟨t, heq, hafter⟩ := conserved_moves.afterResult
    ((s.arrived event bytes answers).handleResult event) event.more
  have hfinal : ((s.kernelRecv event bytes).withAnswers answers).onCompletion event =
      t.completeStopIfReady := heq
  rw [hfinal]
  exact (conserved_moves.trans hresult hafter).completeStopIfReady

/-- **The step lemma.** No entry creates or loses an identifier. -/
theorem Between.conserved_step {a : Action} (h : Between s) (hw : s.buffers.pool.Whole)
    (hsel : Selects s a) (hstep : RecvSource.step a s = some s') : Conserved s s' := by
  have hdeliver := conserved_moves.deliverNextIfReady
  unfold RecvSource.step at hstep
  rw [if_neg (by simp [h.inv.control.alive])] at hstep
  cases a with
  | recvCqe event bytes answers =>
    obtain ⟨hin, rfl⟩ := of_guard hstep
    exact h.conserved_recv hw hin hsel
  | cancelCqe result answers =>
    obtain ⟨-, rfl⟩ := of_guard hstep
    refine Conserved.completeStopIfReady (conserved_moves.trans ?_
      (conserved_moves.maybeResumeWith hdeliver _))
    exact .refl _
  | next answers =>
    cases hstep
    exact conserved_moves.next (s.withAnswers answers)
  | release i answers =>
    dsimp only at hstep
    split at hstep
    · cases hstep
      unfold returnQueuedPayload
      dsimp only
      split
      · exact .refl _
      · split_ifs
        · exact .refl _
        · refine Conserved.completeStopIfReady (conserved_moves.trans ?_
            (conserved_moves.ensureSubmissionWith hdeliver _))
          exact .refl _
    · cases hstep
  | requestStop answers =>
    cases hstep
    obtain ⟨ctl, heq, -⟩ := beginStop_eq (s := s.withAnswers answers)
    rw [requestStop, heq]
    exact .refl _
  | stop answers =>
    cases hstep
    obtain ⟨ctl, hbegin, -⟩ := beginStop_eq (s := s.withAnswers answers)
    obtain ⟨pendingStop, stopCalls, stops, heq | heq⟩ := stop_eq (s := s.withAnswers answers)
    · rw [heq]
      exact .refl _
    · rw [heq, hbegin]
      exact .refl _

/-! ## Runs -/

theorem whole_init (h : system.init s) : s.buffers.pool.Whole := by
  obtain ⟨options, loop, hpool, hc⟩ := h
  obtain ⟨state, _, _, pool, -, -, hp, rfl⟩ := create_eq hc
  exact (SharedBuffers.getSharedProvidedBufferPool_wellFormed hpool hp).whole

theorem whole_of_reachesBy (h : system.ReachesBy Selects s) : Between s ∧ s.buffers.pool.Whole := by
  refine h.invariant (I := fun t => Between t ∧ t.buffers.pool.Whole) (fun t ht => ?_) ?_
  · exact ⟨(between_init ht).1, whole_init ht⟩
  · rintro t a t' ⟨hb, hw⟩ hsel hs
    exact ⟨(hb.step hs).1, (hb.conserved_step hw hsel hs).whole hw⟩

theorem Between.ring_count (h : Between s) (hw : s.buffers.pool.Whole) {id : ℕ}
    (hid : id < s.buffers.pool.publishedCapacity) : s.buffers.pool.ring.count id = 1 := by
  have hcopies := hw.copies id
  rwa [ProvidedBufferPool.copies, if_neg (h.inv.buffers.not_inUse id), if_pos hid] at hcopies

/-- **Buffer accounting.** Between two entries every copy slot is once free, queued or on lease, the
queue and the machine agree, no slot is active and every published identifier is once in the ring.
A completion takes its buffer out of the ring; while it is handled every published identifier is
acquired or in the ring, and afterwards the buffer is back, once. -/
theorem buffers_accounted (s : RecvSource) (h : system.ReachesBy Selects s) :
    (s.copyFree ++ (s.events.toList.map (·.copySlot) ++ s.leases.map (·.copySlot))).Perm
        (List.range s.machine.options.bufferCapacity) ∧
      s.ctl.aborted = false ∧ s.events.count = s.machine.queuedEvents ∧
      s.buffers.activeSlotCount = 0 ∧ (∀ slot ∈ s.buffers.slots, slot.active = false) ∧
      (∀ id < s.buffers.pool.publishedCapacity, s.buffers.pool.ring.count id = 1 ∧
        s.buffers.pool.inUse[id]? = some false) ∧
      Moves Conserved ∧
      ∀ event bytes answers s', step (.recvCqe event bytes answers) s = some s' →
        Selects s (.recvCqe event bytes answers) → event.hasSelectedBuffer = true →
        let id := event.selectedBufferId
        let taken := (s.kernelRecv event bytes).buffers
        taken.pool.ring.count id = 0 ∧ s'.buffers.pool.ring.count id = 1 ∧
          (0 < event.result → ∃ b, taken.acquireBuffer id event.result.toNat = .ok b ∧
            ∀ i < s.buffers.pool.publishedCapacity, b.pool.copies i = 1) := by
  obtain ⟨hb, hw⟩ := whole_of_reachesBy h
  have hidle := hb.inv.buffers
  refine ⟨hb.inv.stock.slots.slots, hb.inv.control.alive, hb.inv.stock.queued, hidle.count, ?_, ?_,
    conserved_moves, ?_⟩
  · intro slot hslot
    rw [hidle.slots] at hslot
    rw [List.eq_of_mem_replicate hslot]
  · intro id hid
    refine ⟨hb.ring_count hw hid, ?_⟩
    rw [hidle.inUse, List.getElem?_replicate, if_pos (hid.trans_le hw.published_le)]
  · intro event bytes answers s' hstep hsel hs id taken
    obtain ⟨hring, -, hle⟩ := hsel hs
    have hid := hw.lt hring
    have hvalid : s.validBuffer event = true := (validBuffer_eq hw fun _ => hring).trans hs
    have htaken : taken = s.buffers.filled id bytes := by
      simp only [taken, kernelRecv, hvalid, if_true, BufferSlots.filled, id]
    have hfilled : taken.Idle s.bufferSize := htaken ▸ hidle.kernelFill id bytes
    refine ⟨?_, ?_, fun _ => ⟨_, hfilled.acquireBuffer ?_ hle, fun i hi => ?_⟩⟩
    · rw [htaken]
      show (s.buffers.pool.ring.erase id).count id = 0
      rw [List.count_erase_self, hb.ring_count hw hid]
    · have hsame := hb.conserved_step hw hsel hstep
      exact (hb.step hstep).1.ring_count (hsame.whole hw) (hsame.published ▸ hid)
    · rw [htaken]
      exact hid.trans_le hw.published_le
    · rw [htaken, (hidle.same_lent hw hring bytes 1 false).copies, hw.copies, if_pos hi]

/-- A byte is on lease and a second one in the queue, with both buffers in the ring. -/
theorem buffers_accounted_two :
    ∃ s, system.ReachesBy Selects s ∧ s.leases.length = 1 ∧ s.events.count = 1 ∧
      (s.copyFree ++ (s.events.toList.map (·.copySlot) ++ s.leases.map (·.copySlot))).Perm
        (List.range s.machine.options.bufferCapacity) ∧
      ∀ id < s.buffers.pool.publishedCapacity, s.buffers.pool.ring.count id = 1 ∧
        s.buffers.pool.inUse[id]? = some false := by
  obtain ⟨s, hr, hp⟩ := System.exists_reachesBy system Selects (small 2) small_two_init
    [.next [], byteCqe 0 7, byteCqe 1 8]
    (P := fun s => s.leases.length = 1 ∧ s.events.count = 1) (by decide)
  obtain ⟨hperm, -, -, -, -, hring, -⟩ := buffers_accounted s hr
  exact ⟨s, hr, hp.1, hp.2, hperm, hring⟩

end RecvSource

end Alyrn.Uring
