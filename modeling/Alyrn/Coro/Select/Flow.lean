import Alyrn.Coro.Select.Waiters

/-!
# Values through a channel

A channel is a bounded queue with two lines before it. `Lines` says when somebody may wait in them,
and `Flow` that the values received so far, followed by those in the ring, are the values admitted
so far. `TrySend` on an open channel and `TryReceive` succeed and keep both.
-/

namespace Alyrn.Coro.World

open Function

variable {V : Type} {w w' u : World V} {p : Option Waiter} {b : Option (ℕ × ℕ)} {c : ℕ}
  {d : Direction} {s r : Waiter} {rest : List Waiter} {sel i : ℕ} {v : V} {ch : Channel V}

/-- Who waits, and for what. -/
structure Lines (w : World V) : Prop where
  full : ∀ c, w.queues c .send ≠ [] → (w.channels c).size = (w.channels c).capacity
  empty : ∀ c, w.queues c .receive ≠ [] → (w.channels c).size = 0
  opened : ∀ c d, w.queues c d ≠ [] → (w.channels c).closed = false
  together : ∀ c, ∀ s ∈ w.queues c .send, ∀ r ∈ w.queues c .receive, s.owner = r.owner

/-- Values leave a channel in the order of their admission. -/
structure Flow (w : World V) : Prop where
  fifo : ∀ c, ∃ xs, (w.channels c).Holds xs ∧ w.admitted c = w.received c ++ xs
  ended : ∀ c, w.ended c = true → (w.channels c).closed = true ∧ (w.channels c).size = 0

/-- The invariant of all channels and everything that waits on them, while `b` is committed. -/
structure Sound (b : Option (ℕ × ℕ)) (w : World V) : Prop where
  parties : w.Parties none b
  lines : Lines w
  flow : Flow w

/-! ## The lines -/

theorem Lines.mono (h : Lines w) (hq : ∀ c d, ∀ s ∈ u.queues c d, s ∈ w.queues c d)
    (hc : ∀ c d, u.queues c d ≠ [] → (u.channels c).size = (w.channels c).size ∧
      (u.channels c).capacity = (w.channels c).capacity ∧
      (u.channels c).closed = (w.channels c).closed) : Lines u := by
  have hne {c : ℕ} {d : Direction} (hu : u.queues c d ≠ []) : w.queues c d ≠ [] := by
    obtain ⟨s, hs⟩ := List.exists_mem_of_ne_nil _ hu
    exact List.ne_nil_of_mem (hq c d s hs)
  refine ⟨fun c hu => ?_, fun c hu => ?_, fun c d hu => ?_, fun c s hs r hr => ?_⟩
  · obtain ⟨hsize, hcap, -⟩ := hc c .send hu
    rw [hsize, hcap]
    exact h.full c (hne hu)
  · obtain ⟨hsize, -, -⟩ := hc c .receive hu
    rw [hsize]
    exact h.empty c (hne hu)
  · obtain ⟨-, -, hclosed⟩ := hc c d hu
    rw [hclosed]
    exact h.opened c d (hne hu)
  · exact h.together c s (hq c .send s hs) r (hq c .receive r hr)

theorem mem_of_leaves (hq : w.queues c d = s :: rest)
    (hs : w'.queues = (w.setQueue c d rest).queues) (hl : Leaves w' u s.owner) (c' : ℕ)
    (d' : Direction) : ∀ x ∈ u.queues c' d', x ∈ w.queues c' d' := by
  intro x hx
  rw [hl.queues, hs, filter_setQueue hq] at hx
  exact List.mem_of_mem_filter hx

/-! ## The ring of one channel -/

theorem setChannel_self : (w.setChannel c ch).channels c = ch :=
  update_self ..

theorem setChannel_of_ne {c' : ℕ} (h : c' ≠ c) : (w.setChannel c ch).channels c' = w.channels c' :=
  update_of_ne h ..

theorem Flow.congr (h : Flow w) (hc : u.channels = w.channels) (ha : u.admitted = w.admitted)
    (hr : u.received = w.received) (he : u.ended = w.ended) : Flow u := by
  refine ⟨fun c => ?_, fun c => ?_⟩
  · rw [hc, ha, hr]
    exact h.fifo c
  · rw [hc, he]
    exact h.ended c

theorem Flow.pass (h : Flow w) (hs : (w.channels c).size = 0) (v : V) :
    Flow ((w.accept c v).receipt c v) := by
  refine ⟨fun c' => ?_, h.ended⟩
  obtain ⟨xs, hxs, heq⟩ := h.fifo c'
  refine ⟨xs, hxs, ?_⟩
  show update w.admitted c _ c' = update w.received c _ c' ++ xs
  by_cases hc : c' = c
  · subst hc
    obtain rfl : xs = [] := List.eq_nil_of_length_eq_zero (hxs.length.trans hs)
    rw [update_self, update_self, List.append_nil, heq, List.append_nil]
    rfl
  · rw [update_of_ne hc, update_of_ne hc]
    exact heq

theorem receipt_congr (h : u.received = w.received) :
    (u.receipt c v).received = (w.receipt c v).received := by
  unfold World.receipt
  rw [h]

theorem pushBuffer_eq (h : (w.channels c).pushBuffer v = .ok ch) :
    w.pushBuffer c v = .ok ((w.setChannel c ch).accept c v) := by
  unfold World.pushBuffer
  rw [h]
  rfl

theorem Flow.pushBuffer (h : Flow w) (hs : (w.channels c).size ≠ (w.channels c).capacity)
    (ho : (w.channels c).closed = false) (v : V) :
    ∃ ch, (w.channels c).pushBuffer v = .ok ch ∧
      Flow ((w.setChannel c ch).accept c v) ∧ ch.size = (w.channels c).size + 1 ∧
      ch.capacity = (w.channels c).capacity ∧ ch.closed = (w.channels c).closed := by
  obtain ⟨xs, hxs, heq⟩ := h.fifo c
  obtain ⟨ch, hpush, hholds, hcap, hclosed⟩ := hxs.push hs v
  have hsize : ch.size = (w.channels c).size + 1 := by
    rw [← hholds.length, List.length_append, hxs.length]
    rfl
  refine ⟨ch, hpush, ⟨fun c' => ?_, fun c' he => ?_⟩, hsize, hcap, hclosed⟩
  · show ∃ xs, ((w.setChannel c ch).channels c').Holds xs ∧
      update w.admitted c (w.admitted c ++ [v]) c' = w.received c' ++ xs
    by_cases hc : c' = c
    · subst hc
      rw [setChannel_self, update_self, heq, List.append_assoc]
      exact ⟨_, hholds, rfl⟩
    · rw [setChannel_of_ne hc, update_of_ne hc]
      exact h.fifo c'
  · have hend := h.ended c' he
    have hc : c' ≠ c := by
      rintro rfl
      rw [ho] at hend
      cases hend.1
    show ((w.setChannel c ch).channels c').closed = true ∧ _
    rw [show (((w.setChannel c ch).accept c v).channels c') = w.channels c' from
      setChannel_of_ne hc]
    rw [setChannel_of_ne hc]
    exact hend

theorem Flow.popBuffer (h : Flow w) (hs : (w.channels c).size ≠ 0) :
    ∃ v ch, w.popBuffer c = .ok (v, w.setChannel c ch) ∧
      Flow ((w.setChannel c ch).receipt c v) ∧ ch.size + 1 = (w.channels c).size ∧
      ch.capacity = (w.channels c).capacity ∧ ch.closed = (w.channels c).closed := by
  obtain ⟨xs, hxs, heq⟩ := h.fifo c
  obtain ⟨v, rest, ch, rfl, hpop, hholds, hsize, hcap, hclosed⟩ := hxs.pop hs
  refine ⟨v, ch, ?_, ⟨fun c' => ?_, fun c' he => ?_⟩, hsize, hcap, hclosed⟩
  · unfold World.popBuffer
    rw [hpop]
    rfl
  · show ∃ xs, ((w.setChannel c ch).channels c').Holds xs ∧
      w.admitted c' = update w.received c _ c' ++ xs
    by_cases hc : c' = c
    · subst hc
      rw [setChannel_self, update_self, heq]
      exact ⟨rest, hholds, by rw [List.append_assoc]; rfl⟩
    · rw [setChannel_of_ne hc, update_of_ne hc]
      exact h.fifo c'
  · have hend := h.ended c' he
    have hc : c' ≠ c := by
      rintro rfl
      exact hs hend.2
    show ((w.setChannel c ch).channels c').closed = true ∧
      ((w.setChannel c ch).channels c').size = 0
    rw [setChannel_of_ne hc]
    exact hend

theorem Lines.setChannel (h : Lines w) (hs : w.queues c .send = [])
    (hr : w.queues c .receive = []) (ch : Channel V) : Lines (w.setChannel c ch) := by
  refine h.mono (fun _ _ _ hx => hx) fun c' d hne => ?_
  have hc : c' ≠ c := by
    rintro rfl
    cases d with
    | send => exact hne hs
    | receive => exact hne hr
  rw [setChannel_of_ne hc]
  exact ⟨rfl, rfl, rfl⟩

/-! ## Sending -/

theorem Sound.handOver (h : w.Sound b) (hq : w.queues c .receive = r :: rest) (v : V) :
    ∃ u, (w.setQueue c .receive rest).handOver c r v = .ok u ∧ u.Sound b ∧ Keeps w u ∧
      (∀ t, r.owner ≠ .select t → u.selects t = w.selects t) ∧
      u.admitted = (w.accept c v).admitted := by
  obtain ⟨hpop, hwaits⟩ := h.parties.pop hq
  obtain ⟨u, heq, hp, hl, hr, he⟩ := (hpop.accept (c := c) (v := v)).completeValue
    (c := c) (by cases r <;> exact hwaits) v
  have hempty := h.lines.empty c (by rw [hq]; exact List.cons_ne_nil _ _)
  refine ⟨u, heq, ⟨hp, h.lines.mono (mem_of_leaves hq (by exact rfl) hl) fun c' d' _ => ?_,
    ?_⟩,
    { hl with reported := fun hx => hl.reported (Reported.accept hx) }, hl.others, hl.admitted⟩
  · rw [hl.channels]
    exact ⟨rfl, rfl, rfl⟩
  · exact (h.flow.pass hempty v).congr hl.channels hl.admitted hr he

/-- **`TrySend`** on an open channel: the value is admitted, or the channel is full. -/
theorem Sound.trySend (h : w.Sound b) (ho : (w.channels c).closed = false) (v : V) :
    ∃ sent u, w.trySend c v = .ok (sent, u) ∧ u.Sound b ∧ Keeps w u ∧
      (sent = false → u = w ∧ w.queues c .receive = [] ∧
        (w.channels c).size = (w.channels c).capacity) ∧
      (sent = true → u.admitted = (w.accept c v).admitted) := by
  unfold World.trySend
  rw [if_neg (by simp [ho])]
  cases hq : w.queues c .receive with
  | cons r rest =>
    obtain ⟨u, heq, hu, hk, -, ha⟩ := h.handOver hq v
    refine ⟨true, u, ?_, hu, hk, nofun, fun _ => ha⟩
    dsimp only
    rw [heq]
    rfl
  | nil =>
    by_cases hs : (w.channels c).size = (w.channels c).capacity
    · rw [if_pos hs]
      exact ⟨false, w, rfl, h, .refl w, fun _ => ⟨rfl, rfl, hs⟩, nofun⟩
    · rw [if_neg hs]
      obtain ⟨ch, hpush, hflow, -⟩ := h.flow.pushBuffer hs ho v
      have hsend : w.queues c .send = [] := by
        by_contra hne
        exact hs (h.lines.full c hne)
      rw [pushBuffer_eq hpush]
      refine ⟨true, _, rfl, ⟨h.parties.setChannel.accept, ?_, hflow⟩,
        ⟨rfl, rfl, fun _ => .refl _, fun hx => Reported.accept hx⟩, nofun, fun _ => rfl⟩
      have hl := h.lines.setChannel hsend hq ch
      exact { hl with }

/-! ## Receiving -/

theorem Parties.refill (h : w.Parties none b) (hq : w.queues c .send = s :: rest)
    (hf : Flow (w.receipt c v)) (hs : (w.channels c).size ≠ (w.channels c).capacity)
    (ho : (w.channels c).closed = false) :
    ∃ x w₁ w₂ u, (w.setQueue c .send rest).takeValue s = .ok (x, w₁) ∧
      w₁.pushBuffer c x = .ok w₂ ∧ w₂.complete s = .ok u ∧ u.Parties none b ∧
      Flow (u.receipt c v) ∧ Keeps w u ∧ (∀ c d, ∀ y ∈ u.queues c d, y ∈ w.queues c d) ∧
      (∀ t, s.owner ≠ .select t → u.selects t = w.selects t) ∧
      (∀ c', c' ≠ c → u.channels c' = w.channels c') ∧
      (u.channels c).size = (w.channels c).size + 1 ∧
      (u.channels c).capacity = (w.channels c).capacity ∧
      (u.channels c).closed = (w.channels c).closed ∧ u.received = w.received := by
  obtain ⟨x, w₁, htake, hp₁, htaken, hsame, hother⟩ := h.popSender hq
  have hch : w₁.channels = w.channels := hsame.channels
  have hf₁ : Flow (w₁.receipt c v) := by
    exact hf.congr hch hsame.admitted (receipt_congr hsame.received) hsame.ended
  obtain ⟨ch, hpush, hflow, hsize, hcap, hclosed⟩ := hf₁.pushBuffer (c := c)
    (by rw [show (w₁.receipt c v).channels c = w.channels c from congrFun hch c]; exact hs)
    (by rw [show (w₁.receipt c v).channels c = w.channels c from congrFun hch c]; exact ho) x
  rw [show (w₁.receipt c v).channels c = w.channels c from congrFun hch c] at hsize hcap hclosed
  have htaken₂ : ((w₁.setChannel c ch).accept c x).Taken c x s := by cases s <;> exact htaken
  obtain ⟨u, hcomp, hp, hl, hr, he⟩ := (hp₁.setChannel.accept).complete htaken₂ mem_update
  have hself : u.channels c = ch := by
    rw [hl.channels]
    exact setChannel_self
  have hqueues : ((w₁.setChannel c ch).accept c x).queues = (w.setQueue c .send rest).queues :=
    hsame.queues
  refine ⟨x, w₁, _, u, htake, pushBuffer_eq hpush, hcomp, hp, ?_, ?_, mem_of_leaves hq hqueues hl,
    fun t ht => ?_, fun c' hc => ?_, ?_⟩
  · exact hflow.congr hl.channels hl.admitted (receipt_congr hr) he
  · exact ⟨hl.aborted.trans hsame.aborted, hl.selectCount.trans hsame.selectCount,
      fun t => (hsame.later t).trans (hl.later t),
      fun hx => hl.reported (Reported.accept (hsame.reported hx))⟩
  · exact (hl.others t ht).trans (hother t ht)
  · rw [hl.channels]
    exact (setChannel_of_ne hc).trans (congrFun hch c')
  · rw [hself]
    exact ⟨hsize, hcap, hclosed, hr.trans hsame.received⟩

/-- **The front of the ring.** The oldest waiting sender takes the place that became free. -/
theorem Sound.receiveBuffered (h : w.Sound b) (hs : (w.channels c).size ≠ 0) :
    ∃ v u, w.receiveBuffered c = .ok (v, u) ∧ u.Parties none b ∧ Lines u ∧
      Flow (u.receipt c v) ∧ Keeps w u ∧ u.received = w.received ∧
      ∀ t, (∀ s ∈ w.queues c .send, s.owner ≠ .select t) → u.selects t = w.selects t := by
  obtain ⟨v, ch, hpop, hflow, hsize, hcap, hclosed⟩ := h.flow.popBuffer hs
  have hreceive : w.queues c .receive = [] := by
    by_contra hne
    exact hs (h.lines.empty c hne)
  unfold World.receiveBuffered
  rw [hpop]
  dsimp only [bind, Except.bind]
  rw [show (w.setChannel c ch).queues = w.queues from rfl]
  cases hq : w.queues c .send with
  | nil =>
    exact ⟨v, w.setChannel c ch, rfl, h.parties.setChannel, h.lines.setChannel hq hreceive ch,
      hflow, ⟨rfl, rfl, fun _ => .refl _, id⟩, rfl, fun _ _ => rfl⟩
  | cons s rest =>
    have hne : w.queues c .send ≠ [] := by rw [hq]; exact List.cons_ne_nil _ _
    have hfull := h.lines.full c hne
    have hset : (w.setChannel c ch).Parties none b := h.parties.setChannel
    obtain ⟨x, w₁, w₂, u, htake, hpush, hcomp, hp, hf, hk, hmem, hother, hch, hch'⟩ :=
      hset.refill hq hflow
        (by rw [setChannel_self]; omega)
        (by rw [setChannel_self, hclosed]; exact h.lines.opened c .send hne)
    rw [setChannel_self] at hch'
    refine ⟨v, u, ?_, hp, h.lines.mono hmem fun c' d' _ => ?_, hf,
      { hk with }, hch'.2.2.2, fun t ht => hother t (ht s List.mem_cons_self)⟩
    · show (((w.setChannel c ch).setQueue c .send rest).takeValue s).bind _ = _
      rw [htake]
      show (w₁.pushBuffer c x).bind _ = _
      rw [hpush]
      show (w₂.complete s).bind _ = _
      rw [hcomp]
      rfl
    · by_cases hc : c' = c
      · rw [hc]
        exact ⟨hch'.1.trans hsize, hch'.2.1.trans hcap, hch'.2.2.1.trans hclosed⟩
      · rw [hch c' hc, setChannel_of_ne hc]
        exact ⟨rfl, rfl, rfl⟩

/-- **`TryReceive`**: a value, the end of a drained closed channel, or nothing to receive. -/
theorem Sound.tryReceive (h : w.Sound b) (c : ℕ) :
    ∃ got u, w.tryReceive c = .ok (got, u) ∧ u.Sound b ∧ Keeps w u ∧
      (got = none → u = w ∧ w.queues c .send = [] ∧ (w.channels c).size = 0 ∧
        (w.channels c).closed = false) ∧
      ∀ v, got = some (some v) → u.received = (w.receipt c v).received := by
  unfold World.tryReceive
  by_cases hs : (w.channels c).size ≠ 0
  · rw [if_pos hs]
    obtain ⟨v, u, heq, hp, hl, hf, hk, hr, -⟩ := h.receiveBuffered hs
    rw [heq]
    exact ⟨some (some v), u.receipt c v, rfl, ⟨hp.receipt, { hl with }, hf⟩,
      { hk with reported := fun hx => (hk.reported hx).receipt }, nofun,
      fun x hx => by cases hx; exact receipt_congr hr⟩
  · rw [if_neg hs]
    have hs := not_not.mp hs
    cases hq : w.queues c .send with
    | cons s rest =>
      obtain ⟨v, w₁, htake, hp₁, htaken, hsame, -⟩ := h.parties.popSender hq
      obtain ⟨u, hcomp, hp, hl, hr, he⟩ := (hp₁.accept (c := c) (v := v)).complete
        (by cases s <;> exact htaken) mem_update
      have hch : u.channels = w.channels := hl.channels.trans hsame.channels
      refine ⟨some (some v), u.receipt c v, ?_, ⟨hp.receipt, ?_, ?_⟩,
        ⟨hl.aborted.trans hsame.aborted, hl.selectCount.trans hsame.selectCount,
          fun t => (hsame.later t).trans (hl.later t),
          fun hx => (hl.reported (hsame.reported hx).accept).receipt⟩, nofun,
        fun x hx => by cases hx; exact receipt_congr (hr.trans hsame.received)⟩
      · show ((w.setQueue c .send rest).takeValue s).bind _ = _
        rw [htake]
        show ((w₁.accept c v).complete s).bind _ = _
        rw [hcomp]
        rfl
      · have hqueues : (w₁.accept c v).queues = (w.setQueue c .send rest).queues := hsame.queues
        refine h.lines.mono (fun c' d' => mem_of_leaves hq hqueues hl c' d') fun c' d' _ => ?_
        rw [show (u.receipt c v).channels = w.channels from hch]
        exact ⟨rfl, rfl, rfl⟩
      · have hw₁ : Flow w₁ := h.flow.congr hsame.channels hsame.admitted hsame.received hsame.ended
        exact (hw₁.pass (by rw [hsame.channels]; exact hs) v).congr hl.channels hl.admitted
          (receipt_congr hr) he
    | nil =>
      by_cases ho : (w.channels c).closed = true
      · rw [if_pos ho]
        refine ⟨some none, w.finish c, rfl, ⟨h.parties.finish, { h.lines with }, h.flow.fifo,
          fun c' he => ?_⟩, ⟨rfl, rfl, fun _ => .refl _, id⟩, nofun, nofun⟩
        by_cases hc : c' = c
        · rw [hc]
          exact ⟨ho, hs⟩
        · exact h.flow.ended c' (by
            rwa [show (w.finish c).ended c' = w.ended c' from update_of_ne hc ..] at he)
      · rw [if_neg ho]
        exact ⟨none, w, rfl, h, .refl w, fun _ => ⟨rfl, rfl, hs, by simpa using ho⟩, nofun⟩

end Alyrn.Coro.World
