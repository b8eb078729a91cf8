import Alyrn.Coro.Select.Flow

/-!
# Blocking operations and closing

A plain awaiter that finds nothing joins a line of its channel, and leaves it when it is completed
or destroyed. `Close` fails where its contract says, and otherwise wakes every waiting receiver.
-/

namespace Alyrn.Coro.World

open Function

variable {V : Type} {w u : World V} {b : Option (ℕ × ℕ)} {c : ℕ} {d : Direction} {s r : Waiter}
  {rest : List Waiter} {q : Plain V}

/-! ## Plain awaiters -/

theorem Parties.newPlain (h : w.Parties none b) (hw : q.waiting = false) :
    ({ w with plainCount := w.plainCount + 1 }.setPlain w.plainCount q).Parties none b := by
  have hother {t : ℕ} (ht : t ≠ w.plainCount) : ({ w with
      plainCount := w.plainCount + 1 }.setPlain w.plainCount q).plains t = w.plains t :=
    update_of_ne ht ..
  have hself : ({ w with
      plainCount := w.plainCount + 1 }.setPlain w.plainCount q).plains w.plainCount = q :=
    update_self ..
  have hfresh := h.freshPlain w.plainCount (Nat.le_refl _)
  refine { h with
    waits := fun c d s => ?_, pending := nofun, value := fun t ht hd _ => ?_,
    freshPlain := fun t ht => ?_ }
  · refine (h.waits c d s).trans ?_
    cases s with
    | plain t =>
      rw [waits_plain, waits_plain]
      by_cases ht : t = w.plainCount
      · rw [ht, hself, hfresh, hw]
        simp
      · rw [hother ht]
    | case t j => exact Iff.rfl
  · have hne : t ≠ w.plainCount := by
      rintro rfl
      rw [hself, hw] at ht
      cases ht
    rw [hother hne] at ht hd ⊢
    exact h.value t ht hd nofun
  · have ht : w.plainCount + 1 ≤ t := ht
    rw [hother (by omega)]
    exact h.freshPlain t (by omega)

theorem Parties.joinPlain (h : w.Parties none b) (hw : q.waiting = true)
    (hv : q.direction = .send → ∃ v, q.value = some v ∧ q.given = some v)
    (hr : q.Reports w.admitted w.received) :
    ∃ u, ({ w with plainCount := w.plainCount + 1 }.setPlain w.plainCount q).enqueue q.channel
        q.direction (.plain w.plainCount) = .ok u ∧ u.Parties none b ∧ Keeps w u ∧
      u.channels = w.channels ∧ u.admitted = w.admitted ∧ u.received = w.received ∧
      u.ended = w.ended ∧ (∀ c d, ¬ (c = q.channel ∧ d = q.direction) →
        u.queues c d = w.queues c d) ∧ u.queues q.channel q.direction ≠ [] := by
  set w₁ := { w with plainCount := w.plainCount + 1 }.setPlain w.plainCount q with hw₁
  have hother {t : ℕ} (ht : t ≠ w.plainCount) : w₁.plains t = w.plains t :=
    update_of_ne ht ..
  have hself : w₁.plains w.plainCount = q := update_self ..
  have hfresh {c : ℕ} {d : Direction} : .plain w.plainCount ∉ w.queues c d := fun hx => by
    have := ((h.waits c d _).mp hx).1.1
    rw [h.freshPlain w.plainCount (Nat.le_refl _)] at this
    cases this
  have hmem {c : ℕ} {d : Direction} {s : Waiter} :
      s ∈ (w₁.setQueue q.channel q.direction
        (w₁.queues q.channel q.direction ++ [.plain w.plainCount])).queues c d ↔
      s ∈ w.queues c d ∨ s = .plain w.plainCount ∧ c = q.channel ∧ d = q.direction := by
    by_cases hcd : c = q.channel ∧ d = q.direction
    · obtain ⟨rfl, rfl⟩ := hcd
      rw [setQueue_self, List.mem_append, List.mem_singleton]
      simp [hw₁, setPlain]
    · rw [setQueue_of_ne hcd]
      simp [hcd, hw₁, setPlain]
  refine ⟨_, if_neg hfresh, ⟨fun c d s => ?_, fun c d => ?_, nofun,
    fun t ht hd _ => ?_, h.selects, h.committing, fun t ht => ?_, h.freshSelect, h.scheduled,
    h.dropped⟩, ⟨rfl, rfl, fun _ => .refl _, fun hx => Reported.setPlain hx hr⟩, rfl, rfl, rfl, rfl,
    fun c d hcd => setQueue_of_ne hcd, ?_⟩
  · rw [hmem, h.waits c d s]
    simp only [ne_eq, reduceCtorEq, not_false_eq_true, and_true]
    cases s with
    | plain t =>
      show _ ↔ (w₁.plains t).waiting = true ∧ (w₁.plains t).channel = c ∧
        (w₁.plains t).direction = d
      rw [waits_plain]
      by_cases ht : t = w.plainCount
      · rw [ht, hself, h.freshPlain w.plainCount (Nat.le_refl _), hw]
        simp [eq_comm]
      · rw [hother ht]
        simp [ht]
    | case t j => simp [waits_case, setQueue, hw₁, setPlain]
  · by_cases hcd : c = q.channel ∧ d = q.direction
    · obtain ⟨rfl, rfl⟩ := hcd
      rw [setQueue_self]
      refine List.nodup_append.mpr ⟨h.nodup _ _, List.pairwise_singleton _ _, fun a ha x hx => ?_⟩
      rintro rfl
      exact hfresh (List.mem_singleton.mp hx ▸ ha)
    · rw [setQueue_of_ne hcd]
      exact h.nodup c d
  · replace ht : (w₁.plains t).waiting = true := ht
    replace hd : (w₁.plains t).direction = .send := hd
    show ∃ v, (w₁.plains t).value = some v ∧ (w₁.plains t).given = some v
    by_cases hx : t = w.plainCount
    · rw [hx, hself] at hd ⊢
      exact hv hd
    · rw [hother hx] at ht hd ⊢
      exact h.value t ht hd nofun
  · have ht : w.plainCount + 1 ≤ t := ht
    show (w₁.plains t).waiting = false
    rw [hother (by omega)]
    exact h.freshPlain t (by omega)
  · rw [setQueue_self]
    simp

theorem Lines.join (h : Lines w) (hch : u.channels = w.channels)
    (hq : ∀ {c' d'}, ¬ (c' = c ∧ d' = d) → u.queues c' d' = w.queues c' d')
    (ho : (w.channels c).closed = false)
    (hs : d = .send → w.queues c .receive = [] ∧
      (w.channels c).size = (w.channels c).capacity)
    (hr : d = .receive → w.queues c .send = [] ∧ (w.channels c).size = 0) : Lines u := by
  refine ⟨fun c' hne => ?_, fun c' hne => ?_, fun c' d' hne => ?_, fun c' x hx y hy => ?_⟩
  · rw [hch]
    by_cases hcd : c' = c ∧ .send = d
    · rw [hcd.1]
      exact (hs hcd.2.symm).2
    · rw [hq hcd] at hne
      exact h.full c' hne
  · rw [hch]
    by_cases hcd : c' = c ∧ .receive = d
    · rw [hcd.1]
      exact (hr hcd.2.symm).2
    · rw [hq hcd] at hne
      exact h.empty c' hne
  · rw [hch]
    by_cases hcd : c' = c ∧ d' = d
    · rw [hcd.1]
      exact ho
    · rw [hq hcd] at hne
      exact h.opened c' d' hne
  · by_cases hc : c' = c
    · subst hc
      -- one of the two is in the line that nobody joined, which is empty
      cases d with
      | send =>
        rw [hq (by simp), (hs rfl).1] at hy
        cases hy
      | receive =>
        rw [hq (by simp), (hr rfl).1] at hx
        cases hx
    · rw [hq (fun hx => hc hx.1)] at hx hy
      exact h.together c' x hx y hy

theorem Sound.joinPlain (h : w.Sound b) (hw : q.waiting = true)
    (hv : q.direction = .send → ∃ v, q.value = some v ∧ q.given = some v)
    (hn : q.Reports w.admitted w.received) (ho : (w.channels q.channel).closed = false)
    (hs : q.direction = .send → w.queues q.channel .receive = [] ∧
      (w.channels q.channel).size = (w.channels q.channel).capacity)
    (hr : q.direction = .receive → w.queues q.channel .send = [] ∧
      (w.channels q.channel).size = 0) :
    ∃ u, ({ w with plainCount := w.plainCount + 1 }.setPlain w.plainCount q).enqueue q.channel
        q.direction (.plain w.plainCount) = .ok u ∧ u.Sound b ∧ Keeps w u := by
  obtain ⟨u, heq, hp, hk, hch, ha, hrec, he, hq, -⟩ := h.parties.joinPlain hw hv hn
  exact ⟨u, heq, ⟨hp, h.lines.join hch (hq _ _) ho hs hr, h.flow.congr hch ha hrec he⟩, hk⟩

theorem Sound.newPlain (h : w.Sound b) (hw : q.waiting = false) :
    ({ w with plainCount := w.plainCount + 1 }.setPlain w.plainCount q).Sound b :=
  ⟨h.parties.newPlain hw, { h.lines with },
    ⟨h.flow.fifo, h.flow.ended⟩⟩

theorem Sound.send (h : w.Sound b) (ho : (w.channels c).closed = false) (v : V) :
    ∃ u, w.send c v = .ok u ∧ u.Sound b ∧ Keeps w u := by
  obtain ⟨sent, w₁, heq, hw₁, hk, hfull, ha⟩ := h.trySend ho v
  unfold World.send
  rw [heq]
  cases sent with
  | true =>
    refine ⟨_, rfl, hw₁.newPlain rfl, { hk with
      reported := fun hx => Reported.setPlain (hk.reported hx) ⟨fun _ _ => ⟨v, ?_, rfl⟩, nofun⟩ }⟩
    show v ∈ w₁.admitted c
    rw [ha rfl]
    exact mem_update
  | false =>
    obtain ⟨rfl, hreceive, hsize⟩ := hfull rfl
    let q : Plain V :=
      { channel := c, direction := .send, value := some v, waiting := true, result := none
        given := some v }
    exact h.joinPlain (q := q) rfl (fun _ => ⟨v, rfl, rfl⟩) ⟨nofun, nofun⟩ ho
      (fun _ => ⟨hreceive, hsize⟩) nofun

theorem Sound.receive (h : w.Sound b) (c : ℕ) :
    ∃ u, w.receive c = .ok u ∧ u.Sound b ∧ Keeps w u := by
  obtain ⟨got, w₁, heq, hw₁, hk, hnone, hr⟩ := h.tryReceive c
  unfold World.receive
  rw [heq]
  cases got with
  | some x =>
    refine ⟨_, rfl, hw₁.newPlain rfl, { hk with
      reported := fun hx => Reported.setPlain (hk.reported hx) ⟨nofun, fun v hv => ?_⟩ }⟩
    show v ∈ w₁.received c
    rw [hr v hv]
    exact mem_update
  | none =>
    obtain ⟨rfl, hsend, hsize, ho⟩ := hnone rfl
    let q : Plain V :=
      { channel := c, direction := .receive, value := none, waiting := true, result := none }
    exact h.joinPlain (q := q) rfl nofun ⟨nofun, nofun⟩ ho nofun
      (fun _ => ⟨hsend, hsize⟩)

/-- **A plain awaiter is destroyed**, and leaves the line it waits in. -/
theorem Sound.destroyPlain (h : w.Sound none) (id : ℕ) :
    ∃ u, w.destroyPlain id = .ok u ∧ u.Sound none ∧ Keeps w u := by
  unfold World.destroyPlain
  by_cases hw : (w.plains id).waiting = true
  · set c := (w.plains id).channel with hc
    set d := (w.plains id).direction with hd
    have hmem : .plain id ∈ w.queues c d :=
      (h.parties.waits c d _).mpr ⟨⟨hw, rfl, rfl⟩, by simp⟩
    have hout {c' : ℕ} {d' : Direction} (hcd : ¬ (c' = c ∧ d' = d)) :
        .plain id ∉ w.queues c' d' := fun hx => by
      obtain ⟨⟨-, hc', hd'⟩, -⟩ := (h.parties.waits c' d' _).mp hx
      exact hcd ⟨hc'.symm, hd'.symm⟩
    have howner (s : Waiter) : s.owner = .plain id ↔ s = .plain id := by
      cases s with
      | plain t | case t j => simp [Waiter.owner]
    set u := (w.setQueue c d ((w.queues c d).filter (· ≠ .plain id))).cancelled (.plain id) with hu
    have hq (c' : ℕ) (d' : Direction) :
        u.queues c' d' = (w.queues c' d').filter fun s => s.owner ≠ .plain id := by
      by_cases hcd : c' = c ∧ d' = d
      · obtain ⟨rfl, rfl⟩ := hcd
        refine setQueue_self.trans (List.filter_congr fun s _ => ?_)
        simp [howner]
      · refine (setQueue_of_ne hcd).trans ?_
        refine (List.filter_eq_self.mpr fun s hs => ?_).symm
        have hne : s.owner ≠ .plain id := fun heq => hout hcd ((howner s).mp heq ▸ hs)
        exact decide_eq_true hne
    have hp : u.Parties none none := by
      refine h.parties.without hq rfl rfl rfl (fun t ht => update_of_ne
        (fun hx => ht (by rw [hx])) ..) (fun _ _ => rfl) (fun t ht => ?_)
        (by simp) fun _ _ => rfl
      cases ht
      show (update w.plains id _ id).waiting = false
      rw [update_self]
    have hcancel : w.cancelWaiter c d (.plain id) = .ok u := if_pos hmem
    refine ⟨u, ?_, ⟨hp, h.lines.mono (fun c' d' s hs => ?_) fun _ _ _ => ⟨rfl, rfl, rfl⟩,
      ⟨h.flow.fifo, h.flow.ended⟩⟩, ⟨rfl, rfl, fun _ => .refl _,
        fun hx => Reported.setPlain hx (hx.1 id)⟩⟩
    · rw [if_pos hw]
      exact hcancel
    · rw [hq] at hs
      exact List.mem_of_mem_filter hs
  · exact ⟨w, if_neg hw, h, .refl w⟩

/-! ## Closing -/

theorem Parties.notifyClosed (h : w.Parties none b) (hq : w.queues c .send = s :: rest) :
    (w.setQueue c .send rest).notifyClosed s = .error .sendOnClosed := by
  cases s with
  | plain id => rfl
  | case sel i =>
    have hcon := (h.pop hq).1.contends (.inl rfl)
    unfold World.notifyClosed
    dsimp only
    rw [if_neg (by simp [hcon.active]), if_neg (by simp [hcon.winner])]

/-- A channel that was just closed, is drained, and still has waiting receivers. -/
structure Closing (c : ℕ) (w : World V) : Prop where
  parties : w.Parties none none
  /-- But for the receivers that wait on a closed channel the lines are in order. -/
  lines : Lines (w.setChannel c { w.channels c with closed := false })
  flow : Flow w
  closed : (w.channels c).closed = true
  drained : (w.channels c).size = 0

theorem Closing.sound (h : Closing c w) (hs : w.queues c .send = [])
    (hr : w.queues c .receive = []) : w.Sound none := by
  refine ⟨h.parties, ?_, h.flow⟩
  refine h.lines.mono (fun _ _ _ hx => hx) fun c' d hne => ?_
  have hc : c' ≠ c := by
    rintro rfl
    cases d with
    | send => exact hne hs
    | receive => exact hne hr
  rw [setChannel_of_ne hc]
  exact ⟨rfl, rfl, rfl⟩

theorem Closing.completeClosed (h : Closing c w) (hq : w.queues c .receive = r :: rest) :
    ∃ u, (w.setQueue c .receive rest).completeClosed c r = .ok u ∧ Closing c u ∧ Keeps w u ∧
      (u.queues c .receive).length ≤ rest.length ∧
      (w.queues c .send = [] → u.queues c .send = []) := by
  obtain ⟨hpop, hwaits⟩ := h.parties.pop hq
  obtain ⟨u, heq, hp, hl, hr, he⟩ := hpop.completeClosed (c := c)
    (by cases r <;> exact hwaits)
  have hmem := mem_of_leaves hq rfl hl
  have hch : u.channels = w.channels := hl.channels
  refine ⟨u, heq, ⟨hp, ?_, ⟨fun c' => ?_, fun c' hend => ?_⟩, by rw [hch]; exact h.closed,
    by rw [hch]; exact h.drained⟩, { hl with }, ?_, fun hs => ?_⟩
  · refine h.lines.mono hmem fun c' d' _ => ?_
    unfold World.setChannel
    rw [hch]
    exact ⟨rfl, rfl, rfl⟩
  · rw [hch, hl.admitted, hr]
    exact h.flow.fifo c'
  · rw [hch]
    by_cases hc : c' = c
    · rw [hc]
      exact ⟨h.closed, h.drained⟩
    · rw [he] at hend
      exact h.flow.ended c' (by
        rwa [show ((w.setQueue c .receive rest).finish c).ended c' = w.ended c' from
          update_of_ne hc ..] at hend)
  · rw [hl.queues, setQueue_self]
    exact List.length_filter_le ..
  · by_contra hne
    obtain ⟨x, hx⟩ := List.exists_mem_of_ne_nil _ hne
    have := hmem c .send x hx
    rw [hs] at this
    cases this

/-- **The second loop of `Close`** wakes every receiver. -/
theorem Closing.closeReceivers {n : ℕ} (h : Closing c w) (hs : w.queues c .send = [])
    (hn : (w.queues c .receive).length ≤ n) :
    ∃ u, closeReceivers c n w = .ok u ∧ u.Sound none ∧ Keeps w u := by
  induction n generalizing w with
  | zero =>
    exact ⟨w, rfl, h.sound hs (List.eq_nil_of_length_eq_zero (Nat.le_zero.mp hn)), .refl w⟩
  | succ n ih =>
    unfold World.closeReceivers
    cases hq : w.queues c .receive with
    | nil => exact ⟨w, rfl, h.sound hs hq, .refl w⟩
    | cons r rest =>
      obtain ⟨w₁, heq, hw₁, hk, hlen, hs₁⟩ := h.completeClosed hq
      rw [hq, List.length_cons] at hn
      obtain ⟨u, hu, hsound, hk'⟩ := ih hw₁ (hs₁ hs) (by omega)
      refine ⟨u, ?_, hsound, hk.trans hk'⟩
      show ((w.setQueue c .receive rest).completeClosed c r).bind _ = _
      rw [heq]
      exact hu

/-- **`Close`** fails only where its contract says: on a closed channel and with a waiting sender.
Otherwise no receiver is left waiting. -/
theorem Sound.close (h : w.Sound none) (c : ℕ) :
    w.close c = .error .closeOfClosed ∨ w.close c = .error .sendOnClosed ∨
      ∃ u, w.close c = .ok u ∧ u.Sound none ∧ Keeps w u := by
  unfold World.close
  by_cases ho : (w.channels c).closed = true
  · exact .inl (if_pos ho)
  · rw [if_neg ho]
    have ho : (w.channels c).closed = false := by simpa using ho
    refine .inr ?_
    set w₁ := w.setChannel c { w.channels c with closed := true } with hw₁
    have hself : w₁.channels c = { w.channels c with closed := true } := setChannel_self
    cases hq : w.queues c .send with
    | cons s rest =>
      refine .inl ?_
      have hfail : closeSenders c (w₁.queues c .send).length w₁ = .error .sendOnClosed := by
        rw [show w₁.queues c .send = s :: rest from hq, List.length_cons]
        unfold closeSenders
        rw [show w₁.queues c .send = s :: rest from hq]
        show ((w₁.setQueue c .send rest).notifyClosed s).bind _ = _
        rw [(h.parties.setChannel (c := c)).notifyClosed hq]
        rfl
      show (closeSenders c (w₁.queues c .send).length w₁).bind _ = _
      rw [hfail]
      rfl
    | nil =>
      refine .inr ?_
      have hsend : closeSenders c (w₁.queues c .send).length w₁ = .ok w₁ := by
        rw [show w₁.queues c .send = [] from hq]
        rfl
      have hflow : Flow w₁ := by
        refine ⟨fun c' => ?_, fun c' he => ?_⟩
        · obtain ⟨xs, hxs, heq⟩ := h.flow.fifo c'
          refine ⟨xs, ?_, heq⟩
          by_cases hc : c' = c
          · rw [hc, hself]
            rw [hc] at hxs
            exact { hxs with }
          · rw [setChannel_of_ne hc]
            exact hxs
        · obtain ⟨hclosed, hsize⟩ := h.flow.ended c' he
          have hc : c' ≠ c := by
            rintro rfl
            rw [ho] at hclosed
            cases hclosed
          rw [setChannel_of_ne hc]
          exact ⟨hclosed, hsize⟩
      have hlines : Lines (w₁.setChannel c { w₁.channels c with closed := false }) := by
        refine h.lines.mono (fun _ _ _ hx => hx) fun c' d _ => ?_
        by_cases hc : c' = c
        · rw [hc, setChannel_self, hself]
          exact ⟨rfl, rfl, ho.symm⟩
        · rw [setChannel_of_ne hc, setChannel_of_ne hc]
          exact ⟨rfl, rfl, rfl⟩
      have hkeep : Keeps w w₁ := ⟨rfl, rfl, fun _ => .refl _, id⟩
      show ∃ u, (closeSenders c (w₁.queues c .send).length w₁).bind _ = _ ∧ _
      rw [hsend]
      show ∃ u, (if (w₁.channels c).size ≠ 0 then .ok w₁
        else closeReceivers c (w₁.queues c .receive).length w₁) = .ok u ∧ _
      by_cases hs : (w₁.channels c).size ≠ 0
      · rw [if_pos hs]
        have hr : w.queues c .receive = [] := by
          by_contra hne
          rw [hself] at hs
          exact hs (h.lines.empty c hne)
        exact ⟨w₁, rfl, ⟨h.parties.setChannel, h.lines.setChannel hq hr _, hflow⟩, hkeep⟩
      · rw [if_neg hs]
        have hclosing : Closing c w₁ := ⟨h.parties.setChannel, hlines, hflow,
          by rw [hself], not_not.mp hs⟩
        obtain ⟨u, heq, hu, hk⟩ := hclosing.closeReceivers hq (Nat.le_refl _)
        exact ⟨u, heq, hu, hkeep.trans hk⟩

end Alyrn.Coro.World
