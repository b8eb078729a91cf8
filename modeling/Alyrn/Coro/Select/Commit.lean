import Alyrn.Coro.Select.Plain

/-!
# Committing a case

A Select that finds a ready case commits it at once. The case is its own waiter here: it is handed
to the channel without ever being in a queue, and completing it completes the Select.
-/

namespace Alyrn.Coro.World

open Function

variable {V : Type} {w u : World V} {p : Option Waiter} {b : Option (ℕ × ℕ)} {c : ℕ}
  {d : Direction} {s r : Waiter} {rest : List Waiter} {sel i : ℕ} {v : V} {cases : List (Case V)}

/-! ## The Select that begins -/

/-- A new Select is created. -/
def begin (w : World V) (cases : List (Case V)) : World V :=
  { w with selectCount := w.selectCount + 1 }.setSelect w.selectCount (Select.create cases)

theorem begin_self : (w.begin cases).selects w.selectCount = .create cases :=
  update_self ..

theorem begin_of_ne {t : ℕ} (h : t ≠ w.selectCount) : (w.begin cases).selects t = w.selects t :=
  update_of_ne h ..

theorem Parties.fresh (h : w.Parties none none) (c : ℕ) (d : Direction) (j : ℕ) :
    .case w.selectCount j ∉ w.queues c d := by
  intro hx
  have := ((h.waits c d _).mp hx).1.1
  rw [h.freshSelect w.selectCount (Nat.le_refl _)] at this
  cases this

theorem Sound.begin (h : w.Sound none) (cases : List (Case V)) (i : ℕ) :
    (w.begin cases).Sound (some (w.selectCount, i)) := by
  have hwaits (c : ℕ) (d : Direction) (s : Waiter) :
      (w.begin cases).Waits c d s ↔ w.Waits c d s := by
    cases s with
    | plain id => exact Iff.rfl
    | case t j =>
      rw [waits_case, waits_case]
      by_cases ht : t = w.selectCount
      · rw [ht, begin_self, h.parties.freshSelect w.selectCount (Nat.le_refl _)]
        simp [Select.create]
      · rw [begin_of_ne ht]
  refine ⟨⟨fun c d s => ?_, h.parties.nodup, by simp, h.parties.value,
    fun t hb => ?_, fun t k hb => ?_, h.parties.freshPlain, fun t ht => ?_, fun t => ?_,
    h.parties.dropped⟩, { h.lines with },
    ⟨h.flow.fifo, h.flow.ended⟩⟩
  · rw [hwaits]
    exact h.parties.waits c d s
  · rw [begin_of_ne fun hx => hb i (by rw [hx])]
    exact h.parties.selects t fun _ => by simp
  · cases hb
    rw [begin_self]
    exact ⟨⟨rfl, rfl, rfl, fun _ => rfl, fun _ hx => (by cases hx), fun _ => rfl⟩,
      Nat.lt_succ_self _⟩
  · have ht : w.selectCount + 1 ≤ t := ht
    rw [begin_of_ne (by omega)]
    exact h.parties.freshSelect t (by omega)
  · refine (h.parties.scheduled t).trans ?_
    by_cases ht : t = w.selectCount
    · rw [ht, begin_self, h.parties.freshSelect w.selectCount (Nat.le_refl _)]
      rfl
    · rw [begin_of_ne ht]

/-! ## The chosen case completes -/

theorem Parties.completeOwn (h : w.Parties p (some (sel, i))) {o : Option (Option V)}
    {effect : World V → World V} (he : Effect sel i c o effect)
    (hf : Fulfils (w.admitted c) (w.selects sel) i c o) :
    ∃ u, w.completeCase sel i effect = .ok u ∧ u.Parties p none ∧ Leaves w u (.select sel) ∧
      (u.selects sel).winner = some i ∧ u = (effect (w.won sel i)).dissolve sel := by
  obtain ⟨heq, hp⟩ := h.completeCommitting he hf
  obtain ⟨hl, hw⟩ := h.completed_leaves (.inr rfl) he hf
  exact ⟨_, heq, hp, hl, hw, rfl⟩

theorem Leaves.mem {o : Continuation} (h : Leaves w u o) (c : ℕ) (d : Direction) :
    ∀ x ∈ u.queues c d, x ∈ w.queues c d := by
  intro x hx
  rw [h.queues] at hx
  exact List.mem_of_mem_filter hx

theorem Lines.leaves {o : Continuation} (h : Lines w) (hl : Leaves w u o) : Lines u := by
  refine h.mono hl.mem fun c d _ => ?_
  rw [hl.channels]
  exact ⟨rfl, rfl, rfl⟩

theorem Sound.completeOwn (h : w.Sound (some (sel, i))) (ht : w.Taken c v (.case sel i))
    (hv : v ∈ w.admitted c) : ∃ u, w.complete (.case sel i) = .ok u ∧ u.Sound none ∧ Keeps w u ∧
      (u.selects sel).winner = some i := by
  obtain ⟨u, heq, hp, hl, hw, rfl⟩ :=
    h.parties.completeOwn effect_id (.send v ht.2 ht.1 hv rfl)
  exact ⟨_, heq, ⟨hp, h.lines.leaves hl, h.flow.congr rfl rfl rfl rfl⟩, hl.toKeeps, hw⟩

theorem Parties.owner_ne (h : w.Parties p (some (sel, i))) (hs : s ∈ w.queues c d) :
    s.owner ≠ .select sel := by
  intro ho
  cases s with
  | plain id => cases ho
  | case t j =>
    obtain rfl : t = sel := by cases ho; rfl
    exact (h.parked_of_waits ((h.waits c d _).mp hs).1).1 i rfl

section

variable (h : w.Sound (some (sel, i)))
include h

theorem Sound.takeOwn (hc : (w.selects sel).cases[i]? = some (.send c v)) :
    (w.setRegistration sel i
      { (w.selects sel).registrations i with valueTaken := true }).Sound (some (sel, i)) :=
  ⟨h.parties.markTaken (.inr rfl) hc,
    { h.lines with }, ⟨h.flow.fifo, h.flow.ended⟩⟩

section

variable (hnew : w.selects sel = .create cases)
include hnew

theorem Sound.commitSelectSend (hc : cases[i]? = some (.send c v))
    (hready : w.ready (.send c v) = true) :
    w.commitSelectSend c (.case sel i) = .error .sendOnClosed ∨
      ∃ u, w.commitSelectSend c (.case sel i) = .ok u ∧ u.Sound none ∧ Keeps w u ∧
        (u.selects sel).winner = some i := by
  unfold World.commitSelectSend
  by_cases ho : (w.channels c).closed = true
  · rw [if_pos ho]
    refine .inl ?_
    unfold World.notifyClosed
    dsimp only
    rw [hnew]
    rfl
  rw [if_neg ho]
  refine .inr ?_
  have hcase : (w.selects sel).cases[i]? = some (.send c v) := by rw [hnew]; exact hc
  have hv : ((w.selects sel).registrations i).valueTaken = false := by rw [hnew]; rfl
  set w₁ := w.setRegistration sel i
    { (w.selects sel).registrations i with valueTaken := true } with hw₁
  have h₁ : w₁.Sound (some (sel, i)) := h.takeOwn hcase
  have hk₁ : Keeps w w₁ := ⟨rfl, rfl, setRegistration_later _, fun hx => hx.setSelect (hx.2 sel)⟩
  have htaken : w₁.Taken c v (.case sel i) := by
    refine ⟨?_, ?_⟩
    · rw [hw₁, setRegistration_self]
      dsimp only
      rw [update_self]
    · rw [hw₁, setRegistration_self]
      exact hcase
  cases hq : w.queues c .receive with
  | cons r rest =>
    obtain ⟨w₂, hover, h₂, hk₂, hother, ha⟩ := h₁.handOver hq v
    have hne : r.owner ≠ .select sel :=
      h.parties.owner_ne (c := c) (d := .receive) (by rw [hq]; exact List.mem_cons_self)
    have htaken₂ : w₂.Taken c v (.case sel i) := by
      rw [taken_case, hother sel hne]
      exact htaken
    obtain ⟨u, hcomp, hu, hk, hwin⟩ := h₂.completeOwn htaken₂ (by rw [ha]; exact mem_update)
    refine ⟨u, ?_, hu, hk₁.trans (hk₂.trans hk), hwin⟩
    show ((w.setQueue c .receive rest).takeValue (.case sel i)).bind _ = _
    rw [takeValue_case (w := w.setQueue c .receive rest) hv hcase]
    show ((w₁.setQueue c .receive rest).handOver c r v).bind _ = _
    rw [hover]
    exact hcomp
  | nil =>
    have hs : (w.channels c).size ≠ (w.channels c).capacity := by
      simpa [World.ready, ho, hq] using hready
    rw [if_neg hs]
    obtain ⟨ch, hpush, hflow, -⟩ := h₁.flow.pushBuffer (c := c) hs
      (Bool.eq_false_of_not_eq_true ho) v
    have hsend : w.queues c .send = [] := by
      by_contra hne
      exact hs (h.lines.full c hne)
    have hl := h₁.lines.setChannel hsend hq ch
    have h₂ : ((w₁.setChannel c ch).accept c v).Sound (some (sel, i)) :=
      ⟨h₁.parties.setChannel.accept, { hl with }, hflow⟩
    obtain ⟨u, hcomp, hu, hk, hwin⟩ := h₂.completeOwn (by exact htaken) mem_update
    refine ⟨u, ?_, hu, ⟨hk.aborted, hk.selectCount, fun t => (hk₁.later t).trans (hk.later t),
      fun hx => hk.reported (Reported.accept (hk₁.reported hx))⟩, hwin⟩
    rw [takeValue_case hv hcase]
    show (w₁.pushBuffer c v).bind _ = _
    rw [pushBuffer_eq hpush]
    exact hcomp

theorem Sound.commitSelectReceive (hc : cases[i]? = some (.receive c))
    (hready : w.ready (.receive c) = true) :
    ∃ u, w.commitSelectReceive c (.case sel i) = .ok u ∧ u.Sound none ∧ Keeps w u ∧
      (u.selects sel).winner = some i := by
  have hcase : (w.selects sel).cases[i]? = some (.receive c) := by rw [hnew]; exact hc
  unfold World.commitSelectReceive
  by_cases hs : (w.channels c).size ≠ 0
  · rw [if_pos hs]
    obtain ⟨v, w₁, hrec, hp₁, hl₁, hf₁, hk₁, -, hother⟩ := h.receiveBuffered hs
    have hcase₁ : (w₁.selects sel).cases[i]? = some (.receive c) := by
      rw [hother sel fun s hx => h.parties.owner_ne hx]
      exact hcase
    obtain ⟨u, heq, hp, hl, hw, rfl⟩ := hp₁.completeOwn (effect_value (c := c) (v := v))
      (.receive hcase₁ rfl)
    refine ⟨_, ?_, ⟨hp, hl₁.leaves hl, hf₁.congr rfl rfl rfl rfl⟩, hk₁.trans hl.toKeeps, hw⟩
    rw [hrec]
    exact heq
  rw [if_neg hs]
  have hs := not_not.mp hs
  cases hq : w.queues c .send with
  | cons s rest =>
    have hne : s.owner ≠ .select sel :=
      h.parties.owner_ne (c := c) (d := .send) (by rw [hq]; exact List.mem_cons_self)
    obtain ⟨v, w₁, htake, hp₁, htaken, hsame, hother⟩ := h.parties.popSender hq
    have hcase₁ : (w₁.selects sel).cases[i]? = some (.receive c) := by
      rw [hother sel hne]
      exact hcase
    obtain ⟨w₂, heq, hp₂, hl₂, hw₂, hw₂'⟩ := (hp₁.accept (c := c) (v := v)).completeOwn
      (effect_value (c := c) (v := v)) (.receive hcase₁ rfl)
    have htaken₂ : w₂.Taken c v s := by
      cases s with
      | plain id =>
        rw [hw₂']
        exact htaken
      | case t j =>
        rw [taken_case, hl₂.others t fun hx => hne (by rw [hx]; rfl)]
        exact htaken
    obtain ⟨u, hcomp, hp, hl, hr, he⟩ :=
      hp₂.complete htaken₂ (by rw [hl₂.admitted]; exact mem_update)
    have hch : u.channels = w.channels :=
      hl.channels.trans (hl₂.channels.trans hsame.channels)
    refine ⟨u, ?_, ⟨hp, ?_, ?_⟩, ⟨hl.aborted.trans (hl₂.aborted.trans hsame.aborted),
      hl.selectCount.trans (hl₂.selectCount.trans hsame.selectCount),
      fun t => (hsame.later t).trans ((hl₂.later t).trans (hl.later t)),
      fun hx => hl.reported (hl₂.reported (hsame.reported hx).accept)⟩, ?_⟩
    · show ((w.setQueue c .send rest).takeValue s).bind _ = _
      rw [htake]
      show (w₁.handOver c (.case sel i) v).bind _ = _
      rw [show w₁.handOver c (.case sel i) v = .ok w₂ from heq]
      exact hcomp
    · refine h.lines.mono (fun c' d' x hx => ?_) fun c' d' _ => ?_
      · have hx := hl₂.mem c' d' x (hl.mem c' d' x hx)
        rw [show ((w₁.accept c v).queues c' d') = (w.setQueue c .send rest).queues c' d' from
          congrFun (congrFun hsame.queues c') d'] at hx
        by_cases hcd : c' = c ∧ d' = .send
        · obtain ⟨rfl, rfl⟩ := hcd
          rw [setQueue_self] at hx
          rw [hq]
          exact List.mem_cons_of_mem _ hx
        · rwa [setQueue_of_ne hcd] at hx
      · rw [hch]
        exact ⟨rfl, rfl, rfl⟩
    · have hf₁ : Flow w₁ := h.flow.congr hsame.channels hsame.admitted hsame.received hsame.ended
      have hf₂ := hf₁.pass (c := c) (by rw [hsame.channels]; exact hs) v
      subst hw₂'
      exact hf₂.congr hl.channels hl.admitted hr he
    · exact (hl.later sel).winner i hw₂
  | nil =>
    have ho : (w.channels c).closed = true := by simpa [World.ready, hs, hq] using hready
    rw [if_pos ho]
    obtain ⟨u, heq, hp, hl, hw, rfl⟩ := h.parties.completeOwn (effect_closed (c := c))
      (.receive hcase rfl)
    refine ⟨_, heq, ⟨hp, h.lines.leaves hl, h.flow.fifo, fun c' he => ?_⟩, hl.toKeeps, hw⟩
    by_cases hc : c' = c
    · rw [hc]
      exact ⟨ho, hs⟩
    · exact h.flow.ended c' (by
        rwa [show (((((w.won sel i).writeOutput sel i none).finish c).dissolve sel).ended c') =
          w.ended c' from update_of_ne hc ..] at he)

theorem Sound.commitDefault (hc : cases[i]? = some .default) :
    ∃ u, (w.setSelect sel { w.selects sel with winner := some i }).caseCompleted sel i = .ok u ∧
      u.Sound none ∧ Keeps w u ∧ (u.selects sel).winner = some i := by
  set w₁ := w.setSelect sel { w.selects sel with winner := some i } with hw₁
  have hsel : w₁.selects sel = { Select.create cases with winner := some i } := by
    rw [← hnew]
    exact update_self ..
  have hother {t : ℕ} (ht : t ≠ sel) : w₁.selects t = w.selects t := update_of_ne ht ..
  have hout (c : ℕ) (d : Direction) (j : ℕ) : .case sel j ∉ w.queues c d := fun hx =>
    h.parties.owner_ne hx rfl
  have hplace : (w₁.selects sel).place i = none := by
    rw [hsel]
    unfold Select.place
    rw [show ({ Select.create cases with winner := some i } : Select V).cases[i]? = cases[i]?
      from rfl, hc]
    rfl
  have hwon : w₁.Won sel i := by
    refine ⟨?_, fun c d => hout c d i, fun j _ => ⟨fun c d => ?_, fun hx => ?_⟩⟩
    · rw [Select.cleared, hplace]
      rfl
    · rw [waits_case, hsel]
      refine ⟨fun hx => absurd hx (hout c d j), fun hx => ?_⟩
      cases hx.1
    · rw [hsel] at hx
      cases hx
  have hlt : sel < w.selectCount := (h.parties.committing sel i rfl).2
  have hdis : (w₁.dissolve sel).selects sel = { w₁.selects sel with
      registrations := (w₁.selects sel).cleared, phase := .arming } := by
    refine (update_self ..).trans ?_
    rw [hsel]
    rfl
  have hsched : (w₁.dissolve sel).scheduled = w.scheduled := by
    show (if (w₁.selects sel).phase = .waiting then _ else _) = _
    rw [hsel]
    rfl
  have hother' {t : ℕ} (ht : t ≠ sel) : (w₁.dissolve sel).selects t = w.selects t :=
    (update_of_ne ht ..).trans (hother ht)
  have hqueued (j : ℕ) : ((w₁.selects sel).cleared j).queued = false ∧
      ((w₁.selects sel).cleared j).valueTaken = false := by
    rw [hsel]
    unfold Select.cleared
    split_ifs
    · exact ⟨rfl, rfl⟩
    · exact ⟨rfl, rfl⟩
  have hrest : ((w₁.dissolve sel).selects sel).Resting := by
    rw [hdis]
    refine ⟨fun j => (hqueued j).1, fun hx => ?_, fun k hk => ?_, fun hx => absurd rfl hx⟩
    · rw [hsel] at hx
      cases hx
    · obtain rfl : i = k := by
        rw [hsel] at hk
        exact Option.some.inj hk
      have hcase : (w₁.selects sel).cases[i]? = some .default := by rw [hsel]; exact hc
      refine ⟨(List.getElem?_eq_some_iff.mp hcase).1, fun j => ?_, fun j => ?_⟩
      · rw [(hqueued j).2, hcase]
        simp
      · rw [hcase, hsel]
        simp [Select.create]
  have hp : (w₁.dissolve sel).Parties none none := by
    rw [← show stillCommitting (some (sel, i)) (.select sel) = none from stillCommitting_self]
    refine h.parties.without (fun _ _ => rfl) rfl rfl rfl (fun _ _ => rfl)
      (fun t ht => hother' fun hx => ht (by rw [hx])) (by simp) (fun t ht => ?_)
      fun t _ => by rw [hsched]
    cases ht
    exact ⟨hlt, hrest, by rw [hsched, h.parties.scheduled sel, hnew, hdis]; rfl⟩
  have hmem (c : ℕ) (d : Direction) : ∀ x ∈ (w₁.dissolve sel).queues c d, x ∈ w.queues c d :=
    fun x hx => List.mem_of_mem_filter hx
  refine ⟨_, hwon.caseCompleted, ⟨hp, h.lines.mono hmem fun _ _ _ => ⟨rfl, rfl, rfl⟩,
    ⟨h.flow.fifo, h.flow.ended⟩⟩, ⟨rfl, rfl, fun t => ?_, fun hx => ⟨hx.1, fun t => ?_⟩⟩, ?_⟩
  · by_cases ht : t = sel
    · rw [ht, hdis, hsel, hnew]
      exact ⟨rfl, fun _ hx => (by cases hx), fun _ => rfl, fun hx => (by cases hx), fun _ => rfl⟩
    · rw [hother' ht]
      exact .refl _
  · by_cases ht : t = sel
    · rw [ht, hdis, hsel]
      refine fun k e v => ⟨fun hk hcase => ?_, fun hx => (by cases hx)⟩
      cases hk
      cases hc.symm.trans hcase
    · rw [hother' ht]
      exact hx.2 t
  · rw [hdis, hsel]

/-- **`CommitCase`** of a case that is ready, or of the default case. Only a send on a closed
channel fails. -/
theorem Sound.commitCase {case : Case V} (hc : cases[i]? = some case)
    (hready : case = .default ∨ w.ready case = true) :
    w.commitCase sel i = .error .sendOnClosed ∨
      ∃ u, w.commitCase sel i = .ok u ∧ u.Sound none ∧ Keeps w u ∧
        (u.selects sel).winner = some i := by
  have hcase : (w.selects sel).cases[i]? = some case := by rw [hnew]; exact hc
  unfold World.commitCase
  rw [hcase]
  cases case with
  | send c v => exact h.commitSelectSend hnew hc (hready.resolve_left nofun)
  | receive c =>
    exact .inr (h.commitSelectReceive hnew hc (hready.resolve_left nofun))
  | default =>
    refine .inr ?_
    rw [if_neg (by rw [hnew]; exact Bool.false_ne_true)]
    exact h.commitDefault hnew hc

end

end

end Alyrn.Coro.World
