import Alyrn.Coro.Select.Arming

/-!
# Every run of channels and Selects

One step keeps the invariant of all channels and Selects or fails a check that is the caller's to
keep, a send on a closed channel or a second `Close`. What follows for whole runs: a channel is a
bounded queue (`channel_fifo`) and a Select is atomic (`select_atomic`).
-/

namespace Alyrn.Coro.World

open Function Transition

variable {V : Type} {w w' u : World V} {c sel : ℕ}

/-! ## One step -/

/-- What an operation does to the Selects: those that exist go on, and a new one is parked or has a
winner. -/
structure Moves (w u : World V) : Prop where
  aborted : u.aborted = w.aborted
  later : ∀ t, t < w.selectCount → (w.selects t).Later (u.selects t)
  fresh : ∀ t, w.selectCount ≤ t → (u.selects t).phase ≠ .scheduled
  parked : ∀ t, w.selectCount ≤ t → t < u.selectCount →
    (u.selects t).phase ≠ .waiting → (u.selects t).winner.isSome = true
  reported : w.Reported → u.Reported

theorem Keeps.moves (h : Keeps w u) (hw : w.Parties none none) : Moves w u := by
  refine ⟨h.aborted, fun t _ => h.later t, fun t ht => ?_,
    fun t ht hlt => absurd hlt (by rw [h.selectCount]; omega), h.reported⟩
  have hlater := h.later t
  rw [hw.freshSelect t ht] at hlater
  rw [hlater.arming rfl]
  exact nofun

theorem Begun.moves {cases : List (Case V)} (h : Begun w u cases) (hu : u.Parties none none) :
    Moves w u := by
  refine ⟨h.aborted, h.later, fun t ht => ?_, fun t ht hlt hp => ?_, h.reported⟩
  · rcases Nat.eq_or_lt_of_le ht with rfl | hlt
    · rcases h.parked with hp | ⟨hp, -⟩ <;> rw [hp] <;> exact nofun
    · rw [hu.freshSelect t (by rw [h.selectCount]; exact hlt)]
      exact nofun
  · rw [h.selectCount] at hlt
    obtain rfl : w.selectCount = t := by omega
    exact (h.parked.resolve_left hp).2

theorem Moves.decided (h : Moves w u) (hd : ∀ t, t < w.selectCount →
      (w.selects t).phase ≠ .waiting → (w.selects t).winner.isSome = true)
    (ht : sel < u.selectCount) (hp : (u.selects sel).phase ≠ .waiting) :
    (u.selects sel).winner.isSome = true := by
  rcases Nat.lt_or_ge sel w.selectCount with hlt | hge
  · have hlater := h.later sel hlt
    by_cases hphase : (u.selects sel).phase = (w.selects sel).phase
    · obtain ⟨k, hk⟩ := Option.isSome_iff_exists.mp (hd sel hlt (hphase ▸ hp))
      rw [hlater.winner k hk]
      rfl
    · exact hlater.decided hphase
  · exact h.parked sel hge ht hp

/-- The two checks that a caller can fail. -/
def Misuse (e : Check) : Prop := e = .sendOnClosed ∨ e = .closeOfClosed

theorem Sound.perform (h : w.Sound none) (a : Action V) :
    (∃ e, w.perform a = .error e ∧ Misuse e) ∨
      ∃ u, w.perform a = .ok u ∧ u.Sound none ∧ Moves w u := by
  have hkeeps {r : Except Check (World V)}
      (hx : ∃ u, r = .ok u ∧ u.Sound none ∧ Keeps w u) :
      (∃ e, r = .error e ∧ Misuse e) ∨ ∃ u, r = .ok u ∧ u.Sound none ∧ Moves w u := by
    obtain ⟨u, heq, hu, hk⟩ := hx
    exact .inr ⟨u, heq, hu, hk.moves h.parties⟩
  cases a with
  | trySend c v =>
    by_cases ho : (w.channels c).closed = true
    · refine .inl ⟨.sendOnClosed, ?_, .inl rfl⟩
      show (w.trySend c v).map Prod.snd = _
      unfold World.trySend
      rw [if_pos ho]
      rfl
    · obtain ⟨sent, u, heq, hu, hk, -⟩ := h.trySend (Bool.eq_false_of_not_eq_true ho) v
      refine hkeeps ⟨u, ?_, hu, hk⟩
      show (w.trySend c v).map Prod.snd = _
      rw [heq]
      rfl
  | tryReceive c =>
    obtain ⟨got, u, heq, hu, hk, -⟩ := h.tryReceive c
    refine hkeeps ⟨u, ?_, hu, hk⟩
    show (w.tryReceive c).map Prod.snd = _
    rw [heq]
    rfl
  | send c v =>
    by_cases ho : (w.channels c).closed = true
    · refine .inl ⟨.sendOnClosed, ?_, .inl rfl⟩
      show w.send c v = _
      unfold World.send World.trySend
      rw [if_pos ho]
      rfl
    · exact hkeeps (h.send (Bool.eq_false_of_not_eq_true ho) v)
  | receive c => exact hkeeps (h.receive c)
  | destroyPlain id => exact hkeeps (h.destroyPlain id)
  | close c =>
    rcases h.close c with heq | heq | hu
    · exact .inl ⟨_, heq, .inr rfl⟩
    · exact .inl ⟨_, heq, .inl rfl⟩
    · exact hkeeps hu
  | select cases choice =>
    rcases h.select cases choice with heq | ⟨u, heq, hu, hb⟩
    · exact .inl ⟨_, heq, .inl rfl⟩
    · exact .inr ⟨u, heq, hu, hb.moves hu.parties⟩
  | destroySelect sel => exact hkeeps (h.destroySelect sel)

/-- The invariant of a run. -/
structure Ordered (w : World V) : Prop where
  sound : w.Sound none
  aborted : ∀ e, w.aborted = some e → Misuse e
  reported : w.Reported
  decided : ∀ sel, sel < w.selectCount → (w.selects sel).phase ≠ .waiting →
    (w.selects sel).winner.isSome = true

theorem Sound.abort (h : w.Sound none) (e : Check) : ({ w with aborted := some e }).Sound none :=
  ⟨{ h.parties with }, { h.lines with },
    ⟨h.flow.fifo, h.flow.ended⟩⟩

theorem Ordered.step (h : Ordered w) {a : Action V} (hs : step a w = some w') :
    Ordered w' ∧
      ((∃ e, w' = { w with aborted := some e }) ∨ w.perform a = .ok w' ∧ Moves w w') := by
  obtain ⟨hna, hs⟩ := Option.ite_none_left_eq_some.mp hs
  have hnone : w.aborted = none := by simpa using hna
  rcases h.sound.perform a with ⟨e, heq, hm⟩ | ⟨u, heq, hu, hmoves⟩
  · rw [heq] at hs
    obtain rfl : { w with aborted := some e } = w' := Option.some.inj hs
    refine ⟨⟨h.sound.abort e, fun e' he => ?_, h.reported, h.decided⟩, .inl ⟨e, rfl⟩⟩
    cases he
    exact hm
  · rw [heq] at hs
    cases hs
    refine ⟨⟨hu, fun e he => ?_, hmoves.reported h.reported, fun t ht hp => ?_⟩,
      .inr ⟨heq, hmoves⟩⟩
    · rw [hmoves.aborted, hnone] at he
      cases he
    · exact hmoves.decided h.decided ht hp

theorem ordered_create (capacity : ℕ → ℕ) : Ordered (create capacity : World V) := by
  refine ⟨⟨⟨fun c d s => ?_, fun _ _ => List.nodup_nil, nofun,
    nofun, fun _ _ => .inr ⟨fun _ => rfl, fun _ _ => ⟨rfl, rfl⟩,
      nofun, fun hx => absurd rfl hx⟩, nofun,
    fun _ _ => rfl, fun _ _ => rfl, fun _ => rfl, rfl⟩, ⟨fun _ hx => absurd rfl hx,
    fun _ hx => absurd rfl hx, fun _ _ hx => absurd rfl hx, nofun⟩,
    ⟨fun c => ⟨[], Channel.holds_create _, rfl⟩, nofun⟩⟩,
    nofun, ⟨fun _ => ⟨nofun, nofun⟩, fun _ _ _ _ => ⟨nofun, nofun⟩⟩, nofun⟩
  refine ⟨nofun, fun hx => ?_⟩
  cases s with
  | plain id | case t j => cases hx.1.1

/-- **The invariant holds in every run.** -/
theorem ordered_of_reaches (h : (system V).Reaches w) : Ordered w := by
  refine h.invariant (I := Ordered) ?_ fun w a w' hw _ hs => (hw.step hs).1
  rintro w ⟨capacity, rfl⟩
  exact ordered_create capacity

/-! ## The channel -/

/-- **A channel is a bounded queue**, for every capacity and every sequence of operations: the
values received and then those in the ring are the values admitted, senders wait only before a full
ring and receivers only before an empty one, both at once only as cases of one Select on an
unbuffered channel, nobody is left waiting to receive from a closed channel, which reports its end
only once it is drained, and no check of the channel itself fails. A send that reports success, of
whichever kind, has its value admitted, and what a receiver is handed was received. -/
theorem channel_fifo (h : (system V).Reaches w) (c : ℕ) :
    w.admitted c = w.received c ++ (w.channels c).contents ∧
    (w.channels c).contents.length = (w.channels c).size ∧
    (w.channels c).size ≤ (w.channels c).capacity ∧
    (w.queues c .send ≠ [] → (w.channels c).size = (w.channels c).capacity) ∧
    (w.queues c .receive ≠ [] → (w.channels c).contents = []) ∧
    (∀ s ∈ w.queues c .send, ∀ r ∈ w.queues c .receive, (w.channels c).capacity = 0 ∧
      ∃ sel i j, s = .case sel i ∧ r = .case sel j) ∧
    ((w.channels c).closed = true → w.queues c .receive = []) ∧
    (w.ended c = true → (w.channels c).closed = true ∧ w.received c = w.admitted c) ∧
    (∀ e, w.aborted = some e → e = .sendOnClosed ∨ e = .closeOfClosed) ∧
    (∀ v u, w.trySend c v = .ok (true, u) → u.admitted c = w.admitted c ++ [v]) ∧
    (∀ v u, w.tryReceive c = .ok (some (some v), u) → u.received c = w.received c ++ [v]) ∧
    (∀ id, (w.plains id).Reports w.admitted w.received) ∧
    ∀ sel, (w.selects sel).Reports w.admitted w.received := by
  have hsound := (ordered_of_reaches h).sound
  obtain ⟨⟨hparties, hlines, hflow⟩, haborted, hreported, -⟩ := ordered_of_reaches h
  obtain ⟨xs, hholds, hxs⟩ := hflow.fifo c
  have hcontents := hholds.contents_eq
  have hnil (hs : (w.channels c).size = 0) : xs = [] :=
    List.eq_nil_of_length_eq_zero (hholds.length.trans hs)
  refine ⟨by rw [hcontents]; exact hxs, by rw [hcontents]; exact hholds.length, hholds.size_le,
    hlines.full c, fun hr => by rw [hcontents]; exact hnil (hlines.empty c hr),
    fun s hs r hr => ⟨?_, ?_⟩, fun hclosed => ?_, fun hend => ?_, haborted,
    fun v u hsend => ?_, fun v u hreceive => ?_, hreported⟩
  · rw [← hlines.full c (List.ne_nil_of_mem hs)]
    exact hlines.empty c (List.ne_nil_of_mem hr)
  · have howner := hlines.together c s hs r hr
    cases s with
    | plain id =>
      cases r with
      | plain id' =>
        obtain rfl : id = id' := by cases howner; rfl
        have hsend := ((hparties.waits c _ _).mp hs).1.2.2
        have hreceive := ((hparties.waits c _ _).mp hr).1.2.2
        rw [hsend] at hreceive
        cases hreceive
      | case t j => cases howner
    | case t j =>
      cases r with
      | plain id' => cases howner
      | case t' k =>
        obtain rfl : t = t' := by cases howner; rfl
        exact ⟨t, j, k, rfl, rfl⟩
  · by_contra hne
    rw [hlines.opened c .receive hne] at hclosed
    cases hclosed
  · obtain ⟨hclosed, hs⟩ := hflow.ended c hend
    rw [hxs, hnil hs, List.append_nil]
    exact ⟨hclosed, rfl⟩
  · have hopen : (w.channels c).closed = false := Bool.eq_false_of_not_eq_true fun hx => by
      rw [World.trySend, if_pos hx] at hsend
      cases hsend
    obtain ⟨sent, u', heq, -, -, -, ha⟩ := hsound.trySend hopen v
    cases heq.symm.trans hsend
    rw [ha rfl]
    exact update_self ..
  · obtain ⟨got, u', heq, -, -, -, hr⟩ := hsound.tryReceive c
    cases heq.symm.trans hreceive
    rw [hr v rfl]
    exact update_self ..

/-- A channel of capacity 3, whose ring has four cells: the ring is filled and a sender waits, two
receives let it in, and after `Close` the rest is drained before the end is reported. -/
theorem channel_fifo_runs : ∃ w : World ℕ, ((system ℕ).Reaches w ∧
    w.received 0 = [1, 2, 3, 4] ∧ w.ended 0 = true ∧ w.aborted = none ∧
    (w.channels 0).capacity = 3) ∧
    w.admitted 0 = w.received 0 ++ (w.channels 0).contents ∧ w.received 0 = w.admitted 0 := by
  obtain ⟨w, hr, hp⟩ := (system ℕ).exists_reachesBy (fun _ _ => True) (create fun _ => 3) ⟨_, rfl⟩
    [.trySend 0 1, .send 0 2, .send 0 3, .send 0 4, .receive 0, .tryReceive 0, .close 0,
      .select [.receive 0] 0, .receive 0, .tryReceive 0]
    (P := fun w => w.received 0 = [1, 2, 3, 4] ∧ w.ended 0 = true ∧ w.aborted = none ∧
      (w.channels 0).capacity = 3) (by decide)
  have hfifo := channel_fifo hr.reaches 0
  exact ⟨w, ⟨hr.reaches, hp⟩, hfifo.1, (hfifo.2.2.2.2.2.2.2.1 hp.2.1).2⟩

/-! ## Select -/

theorem Parties.decided (h : w.Parties none none) {k : ℕ}
    (hk : (w.selects sel).winner = some k) :
    (w.selects sel).Done k ∧ ∀ c d i, .case sel i ∉ w.queues c d := by
  have hrest := (h.selects sel fun _ => nofun).resolve_left fun hpk => by
    rw [hpk.winner] at hk
    cases hk
  refine ⟨hrest.decided k hk, fun c d i hx => ?_⟩
  have := ((h.waits c d _).mp hx).1.1
  rw [hrest.unqueued i] at this
  cases this

theorem Parties.undecided (h : w.Parties none none) (hk : (w.selects sel).winner = none) (i : ℕ) :
    ((w.selects sel).registrations i).valueTaken = false ∧ (w.selects sel).outputs i = none := by
  rcases h.selects sel fun _ => nofun with hpk | hrest
  · refine ⟨Bool.eq_false_of_not_eq_true fun hx => ?_, hpk.unwritten i⟩
    cases (hpk.untaken i hx).1
  · exact hrest.undecided hk i

theorem Parties.no_default (h : w.Parties none none) (hp : (w.selects sel).phase ≠ .arming) :
    .default ∉ (w.selects sel).cases := by
  intro hx
  obtain ⟨i, hi⟩ := List.mem_iff_getElem?.mp hx
  rcases h.selects sel fun _ => nofun with hpk | hrest
  · cases (hpk.registered i _ hi).1
  · cases hrest.parked hp i _ hi

theorem Moves.select (h : Moves w u) (hw : w.Parties none none) (hu : u.Parties none none) :
    (∀ k, (w.selects sel).winner = some k → (u.selects sel).winner = some k) ∧
      (u.scheduled.count (.select sel) ≠ w.scheduled.count (.select sel) →
        u.scheduled.count (.select sel) = 1 ∧ (w.selects sel).phase = .waiting) := by
  rw [hw.scheduled sel, hu.scheduled sel]
  rcases Nat.lt_or_ge sel w.selectCount with hlt | hge
  · have hlater := h.later sel hlt
    refine ⟨hlater.winner, fun hne => ?_⟩
    cases hp : (w.selects sel).phase with
    | arming =>
      rw [hp, hlater.arming hp] at hne
      exact absurd rfl hne
    | waiting =>
      refine ⟨if_pos (Decidable.of_not_not fun hx => hne ?_), rfl⟩
      rw [hp, if_neg hx]
      rfl
    | scheduled =>
      rw [hp, hlater.scheduled hp] at hne
      exact absurd rfl hne
  · refine ⟨fun k hk => ?_, fun hne => ?_⟩
    · rw [hw.freshSelect sel hge] at hk
      cases hk
    · rw [hw.freshSelect sel hge, if_neg (h.fresh sel hge)] at hne
      exact absurd rfl hne

/-- **A Select is atomic.** Once it has a winner it keeps it, only the winner's value was taken or
its output written, and none of its registrations is in a queue; before, nothing of it has
happened. It is scheduled at most once, by a step that finds it parked. Its default case wins only
if it began with no other case ready, and a Select that parked has none. Every Select that is not
parked has a winner. Nothing is handed to a
registration that no longer takes part, and a chosen case is always ready. -/
theorem select_atomic (h : (system V).Reaches w) (sel : ℕ) :
    (∀ k, (w.selects sel).winner = some k →
      (w.selects sel).Done k ∧ ∀ c d i, .case sel i ∉ w.queues c d) ∧
    ((w.selects sel).winner = none →
      ∀ i, ((w.selects sel).registrations i).valueTaken = false ∧
        (w.selects sel).outputs i = none) ∧
    (∀ a w', (system V).step a w = some w' →
      (∀ k, (w.selects sel).winner = some k → (w'.selects sel).winner = some k) ∧
      (w'.scheduled.count (.select sel) ≠ w.scheduled.count (.select sel) →
        w'.scheduled.count (.select sel) = 1 ∧ (w.selects sel).phase = .waiting)) ∧
    w.scheduled.count (.select sel) ≤ 1 ∧
    (∀ cases choice w', w.select cases choice = .ok w' →
      ∀ k, (w'.selects w.selectCount).winner = some k → cases[k]? = some .default →
        w.readyCases cases = []) ∧
    ((w.selects sel).phase ≠ .arming → .default ∉ (w.selects sel).cases) ∧
    (sel < w.selectCount → (w.selects sel).phase ≠ .waiting →
      (w.selects sel).winner.isSome = true) ∧
    w.dropped = 0 ∧
    w.aborted ≠ some .senderNotReady ∧ w.aborted ≠ some .receiverNotReady := by
  have hord := ordered_of_reaches h
  have hparties := hord.sound.parties
  refine ⟨fun k hk => hparties.decided hk, hparties.undecided, fun a w' hs => ?_, ?_,
    fun cases choice w' hsel k => ?_, hparties.no_default, hord.decided sel, hparties.dropped,
    fun hx => ?_, fun hx => ?_⟩
  · obtain ⟨hord', ⟨e, rfl⟩ | ⟨-, hmoves⟩⟩ := hord.step hs
    · exact ⟨fun _ hk => hk, fun hne => absurd rfl hne⟩
    · exact hmoves.select hparties hord'.sound.parties
  · rw [hparties.scheduled sel]
    split_ifs
    · exact Nat.le_refl 1
    · exact Nat.zero_le 1
  · rcases hord.sound.select cases choice with heq | ⟨u, heq, -, hb⟩
    · rw [heq] at hsel
      cases hsel
    · rw [heq] at hsel
      cases hsel
      exact hb.fallback k
  · rcases hord.aborted _ hx with he | he <;> cases he
  · rcases hord.aborted _ hx with he | he <;> cases he

/-- Two Selects that wait to send and to receive on the same unbuffered channel: the second one
finds the first and both complete, the first is scheduled. A third takes its default. -/
theorem select_atomic_runs : ∃ w : World ℕ, ((system ℕ).Reaches w ∧
    (w.selects 0).winner = some 1 ∧ (w.selects 1).winner = some 0 ∧
    (w.selects 1).outputs 0 = some (some 7) ∧ (w.selects 2).winner = some 1 ∧
    w.scheduled = [.select 0]) ∧
    (∀ sel, w.scheduled.count (.select sel) ≤ 1) ∧
    ∀ k, (w.selects 0).winner = some k → (w.selects 0).Done k :=
  (system ℕ).exists_reachesBy_and _ (create fun _ => 0) ⟨_, rfl⟩
    [.select [.receive 1, .send 0 7, .receive 0] 0, .select [.receive 0, .send 1 8] 0,
      .select [.receive 2, .default] 5] (by decide)
    fun _ hr _ =>
      ⟨fun sel => (select_atomic hr sel).2.2.2.1, fun k hk => ((select_atomic hr 0).1 k hk).1⟩

end Alyrn.Coro.World
