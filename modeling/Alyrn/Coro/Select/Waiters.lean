import Alyrn.Coro.Select.Parties

/-!
# Completing a waiter

What the waiter interface does to a waiter that a channel has popped from its queue: the value of a
sender is there to be taken, and completing the waiter wakes its owner, whose other registrations
leave the queues. `Leaves w w' o` is all that the channels see of it.
-/

namespace Alyrn.Coro

open Function

/-- A send that reports success has its value in `A`, the values admitted to each channel, and what
a receiver was handed is in `R`, the values received. -/
def Plain.Reports {V : Type} (A R : ℕ → List V) (p : Plain V) : Prop :=
  (p.direction = .send → p.result.isSome = true → ∃ v ∈ A p.channel, p.given = some v) ∧
    ∀ v, p.result = some (some v) → v ∈ R p.channel

/-- The same of a Select and its cases. -/
def Select.Reports {V : Type} (A R : ℕ → List V) (s : Select V) : Prop :=
  ∀ k c v, (s.winner = some k → s.cases[k]? = some (.send c v) → v ∈ A c) ∧
    (s.outputs k = some (some v) → s.cases[k]? = some (.receive c) → v ∈ R c)

section

variable {V : Type} {A A' R R' : ℕ → List V} (hA : ∀ c, A c ⊆ A' c) (hR : ∀ c, R c ⊆ R' c)
include hA hR

theorem Plain.Reports.mono {p : Plain V} (h : p.Reports A R) : p.Reports A' R' := by
  refine ⟨fun hd hx => ?_, fun v hv => hR _ (h.2 v hv)⟩
  obtain ⟨v, hv, hg⟩ := h.1 hd hx
  exact ⟨v, hA _ hv, hg⟩

theorem Select.Reports.mono {s : Select V} (h : s.Reports A R) : s.Reports A' R' := fun k c v =>
  ⟨fun hw hc => hA _ ((h k c v).1 hw hc), fun ho hc => hR _ ((h k c v).2 ho hc)⟩

end

/-- What the operations do to a Select that exists: it keeps its cases and its winner, only a
parked one is scheduled, and only one that has a winner. -/
structure Select.Later {V : Type} (s s' : Select V) : Prop where
  cases : s'.cases = s.cases
  winner : ∀ k, s.winner = some k → s'.winner = some k
  arming : s.phase = .arming → s'.phase = .arming
  scheduled : s.phase = .scheduled → s'.phase = .scheduled
  decided : s'.phase ≠ s.phase → s'.winner.isSome = true

theorem Select.Later.refl {V : Type} (s : Select V) : s.Later s :=
  ⟨rfl, fun _ h => h, id, id, (absurd rfl ·)⟩

theorem Select.Later.trans {V : Type} {s s' s'' : Select V} (h : s.Later s') (h' : s'.Later s'') :
    s.Later s'' :=
  ⟨h'.cases.trans h.cases, fun k hk => h'.winner k (h.winner k hk),
    fun hp => h'.arming (h.arming hp), fun hp => h'.scheduled (h.scheduled hp), fun hne => by
      by_cases hp : s''.phase = s'.phase
      · obtain ⟨k, hk⟩ := Option.isSome_iff_exists.mp (h.decided fun hx => hne (hp.trans hx))
        rw [h'.winner k hk]
        rfl
      · exact h'.decided hp⟩

namespace World

variable {V : Type} {w w' : World V} {p : Option Waiter} {b : Option (ℕ × ℕ)} {c : ℕ}
  {d : Direction} {s r : Waiter} {rest : List Waiter} {sel i : ℕ} {v : V} {o : Option (Option V)}
  {effect : World V → World V}

/-- Every result reported is backed by the channels' histories. -/
def Reported (w : World V) : Prop :=
  (∀ id, (w.plains id).Reports w.admitted w.received) ∧
    ∀ sel, (w.selects sel).Reports w.admitted w.received

theorem Reported.mono (h : w.Reported) (hp : w'.plains = w.plains) (hs : w'.selects = w.selects)
    (ha : ∀ c, w.admitted c ⊆ w'.admitted c) (hr : ∀ c, w.received c ⊆ w'.received c) :
    w'.Reported := by
  unfold Reported
  rw [hp, hs]
  exact ⟨fun id => (h.1 id).mono ha hr, fun sel => (h.2 sel).mono ha hr⟩

theorem subset_update {f : ℕ → List V} (e : ℕ) : f e ⊆ update f c (f c ++ [v]) e := by
  by_cases he : e = c <;> simp [he]

theorem mem_update {f : ℕ → List V} : v ∈ update f c (f c ++ [v]) c := by simp

theorem Reported.accept (h : w.Reported) : (w.accept c v).Reported :=
  h.mono rfl rfl subset_update fun _ => .refl _

theorem Reported.receipt (h : w.Reported) : (w.receipt c v).Reported :=
  h.mono rfl rfl (fun _ => .refl _) subset_update

theorem Reported.setPlain {id : ℕ} {q : Plain V} (h : w.Reported)
    (hq : q.Reports w.admitted w.received) : (w.setPlain id q).Reported :=
  ⟨(forall_update_iff w.plains fun _ q => q.Reports w.admitted w.received).mpr
    ⟨hq, fun t _ => h.1 t⟩, h.2⟩

theorem Reported.setSelect {s : Select V} (h : w.Reported)
    (hs : s.Reports w.admitted w.received) : (w.setSelect sel s).Reported :=
  ⟨h.1, (forall_update_iff w.selects fun _ s => s.Reports w.admitted w.received).mpr
    ⟨hs, fun t _ => h.2 t⟩⟩

/-- What no completion touches. -/
structure Keeps (w w' : World V) : Prop where
  aborted : w'.aborted = w.aborted
  selectCount : w'.selectCount = w.selectCount
  later : ∀ sel, (w.selects sel).Later (w'.selects sel)
  reported : w.Reported → w'.Reported

theorem Keeps.refl (w : World V) : Keeps w w := ⟨rfl, rfl, fun _ => .refl _, id⟩

theorem Keeps.trans {w'' : World V} (h : Keeps w w') (h' : Keeps w' w'') : Keeps w w'' :=
  ⟨h'.aborted.trans h.aborted, h'.selectCount.trans h.selectCount,
    fun sel => (h.later sel).trans (h'.later sel), h'.reported ∘ h.reported⟩

/-- The waiters of `o` leave their queues. -/
structure Leaves (w w' : World V) (o : Continuation) : Prop extends Keeps w w' where
  queues : ∀ c d, w'.queues c d = (w.queues c d).filter fun s => s.owner ≠ o
  channels : w'.channels = w.channels
  admitted : w'.admitted = w.admitted
  others : ∀ sel, o ≠ .select sel → w'.selects sel = w.selects sel

/-! ## Popping -/

theorem setQueue_self : (w.setQueue c d rest).queues c d = rest := by
  show update w.queues c (update (w.queues c) d rest) c d = rest
  rw [update_self, update_self]

theorem setQueue_of_ne {c' : ℕ} {d' : Direction} (h : ¬ (c' = c ∧ d' = d)) :
    (w.setQueue c d rest).queues c' d' = w.queues c' d' := by
  unfold setQueue
  dsimp only
  by_cases hc : c' = c
  · rw [hc, update_self, update_of_ne fun hd => h ⟨hc, hd⟩]
  · rw [update_of_ne hc]

theorem Parties.pop (h : w.Parties none b) (hq : w.queues c d = s :: rest) :
    (w.setQueue c d rest).Parties (some s) b ∧ w.Waits c d s := by
  have hmem : s ∈ w.queues c d := by rw [hq]; exact List.mem_cons_self
  have hwaits := ((h.waits c d s).mp hmem).1
  have hnodup := h.nodup c d
  rw [hq, List.nodup_cons] at hnodup
  have hone {c' : ℕ} {d' : Direction} (hw : w.Waits c' d' s) : c' = c ∧ d' = d := by
    cases s with
    | plain id => exact ⟨hw.2.1.symm.trans hwaits.2.1, hw.2.2.symm.trans hwaits.2.2⟩
    | case t j =>
      have := hw.2.symm.trans hwaits.2
      cases this
      exact ⟨rfl, rfl⟩
  refine ⟨{ h with
    waits := fun c' d' t => ?_, nodup := fun c' d' => ?_, pending := fun t ht => ⟨c, d, ?_⟩,
    value := fun id hw hd _ => ?_, selects := fun t hb => ?_ }, hwaits⟩
  · show _ ↔ w.Waits c' d' t ∧ _
    by_cases hcd : c' = c ∧ d' = d
    · obtain ⟨rfl, rfl⟩ := hcd
      rw [setQueue_self]
      have hiff := h.waits c' d' t
      rw [hq, List.mem_cons] at hiff
      by_cases hts : t = s
      · subst hts
        simp [hnodup.1]
      · simp only [hts, false_or] at hiff
        rw [hiff]
        simp [Ne.symm hts]
    · rw [setQueue_of_ne hcd, h.waits]
      refine and_congr_right fun hw => ?_
      simp only [ne_eq, reduceCtorEq, not_false_eq_true, Option.some.injEq, true_iff]
      rintro rfl
      exact hcd (hone hw)
  · by_cases hcd : c' = c ∧ d' = d
    · obtain ⟨rfl, rfl⟩ := hcd
      rw [setQueue_self]
      exact hnodup.2
    · rw [setQueue_of_ne hcd]
      exact h.nodup c' d'
  · cases ht
    exact hwaits
  · exact h.value id hw hd nofun
  · refine (h.selects t hb).imp_left fun hpk => { hpk with untaken := fun j hj => ?_ }
    cases (hpk.untaken j hj).1

theorem filter_setQueue (hq : w.queues c d = s :: rest) (c' : ℕ) (d' : Direction) :
    ((w.setQueue c d rest).queues c' d').filter (fun t => t.owner ≠ s.owner) =
      (w.queues c' d').filter fun t => t.owner ≠ s.owner := by
  by_cases hcd : c' = c ∧ d' = d
  · obtain ⟨rfl, rfl⟩ := hcd
    rw [setQueue_self, hq, List.filter_cons_of_neg (by simp)]
  · rw [setQueue_of_ne hcd]

/-! ## Taking a value -/

/-- Queues, buffers and histories are as before. -/
structure Same (w w' : World V) : Prop extends Keeps w w' where
  queues : w'.queues = w.queues
  channels : w'.channels = w.channels
  admitted : w'.admitted = w.admitted
  received : w'.received = w.received
  ended : w'.ended = w.ended

/-- The value `v` of a sender on channel `c` was taken. -/
def Taken (w : World V) (c : ℕ) (v : V) : Waiter → Prop
  | .plain id => (w.plains id).channel = c ∧ (w.plains id).given = some v
  | .case sel i => ((w.selects sel).registrations i).valueTaken = true ∧
      (w.selects sel).cases[i]? = some (.send c v)

theorem taken_case : w.Taken c v (.case sel i) ↔
    ((w.selects sel).registrations i).valueTaken = true ∧
      (w.selects sel).cases[i]? = some (.send c v) :=
  Iff.rfl

theorem setRegistration_self {r : Registration} :
    ((w.setRegistration sel i r).selects sel) = { w.selects sel with
      registrations := update (w.selects sel).registrations i r } :=
  update_self ..

theorem setRegistration_later (r : Registration) (t : ℕ) :
    (w.selects t).Later ((w.setRegistration sel i r).selects t) := by
  by_cases ht : t = sel
  · rw [ht, setRegistration_self]
    exact ⟨rfl, fun _ h => h, id, id, (absurd rfl ·)⟩
  · rw [show (w.setRegistration sel i r).selects t = w.selects t from update_of_ne ht ..]
    exact .refl _

theorem setRegistration_of_ne {r : Registration} {t : ℕ} (h : t ≠ sel) :
    (w.setRegistration sel i r).selects t = w.selects t :=
  update_of_ne h ..

theorem waits_setRegistration {reg : Registration}
    (hr : reg.queued = ((w.selects sel).registrations i).queued) :
    (w.setRegistration sel i reg).Waits c d s ↔ w.Waits c d s := by
  cases s with
  | plain id => exact Iff.rfl
  | case t j =>
    rw [waits_case, waits_case]
    by_cases ht : t = sel
    · subst ht
      rw [setRegistration_self]
      by_cases hj : j = i
      · subst hj
        dsimp only
        rw [update_self, hr]
        rfl
      · dsimp only
        rw [update_of_ne hj]
        rfl
    · rw [setRegistration_of_ne ht]

theorem Parties.markTaken (h : w.Parties p b) (hi : p = some (.case sel i) ∨ b = some (sel, i))
    {c : ℕ} {v : V} (hc : (w.selects sel).cases[i]? = some (.send c v)) :
    (w.setRegistration sel i { (w.selects sel).registrations i with valueTaken := true }).Parties
      p b := by
  set reg : Registration := { (w.selects sel).registrations i with valueTaken := true } with hreg
  have hwaits {c : ℕ} {d : Direction} {s : Waiter} :
      (w.setRegistration sel i reg).Waits c d s ↔ w.Waits c d s := waits_setRegistration rfl
  have hflags (j : ℕ) : (update (w.selects sel).registrations i reg j).active =
        ((w.selects sel).registrations j).active ∧
      (update (w.selects sel).registrations i reg j).queued =
        ((w.selects sel).registrations j).queued := by
    by_cases hj : j = i
    · rw [hj, update_self]
      exact ⟨rfl, rfl⟩
    · rw [update_of_ne hj]
      exact ⟨rfl, rfl⟩
  have htaken {j : ℕ} {P : Prop} (hP : ((w.selects sel).registrations j).valueTaken = true → P)
      (hP' : j = i → P)
      (hj : (update (w.selects sel).registrations i reg j).valueTaken = true) : P := by
    by_cases hji : j = i
    · exact hP' hji
    · rw [update_of_ne hji] at hj
      exact hP hj
  refine ⟨fun c d s => by rw [hwaits]; exact h.waits c d s, h.nodup, fun s hs => ?_, h.value,
    fun t hb => ?_, fun t k hb => ?_, h.freshPlain, fun t ht => ?_, fun t => ?_, h.dropped⟩
  · obtain ⟨c, d, hcd⟩ := h.pending s hs
    exact ⟨c, d, hwaits.mpr hcd⟩
  · by_cases ht : t = sel
    · subst ht
      have hp := hi.resolve_right (hb i)
      obtain ⟨c', d', hcd⟩ := h.pending _ hp
      obtain ⟨-, hpk⟩ := h.parked_of_waits hcd
      rw [setRegistration_self]
      refine .inl ⟨hpk.phase, hpk.winner, fun j case hj => ?_, fun j hj => ?_, fun j => ?_,
        hpk.unwritten⟩
      · obtain ⟨h1, h2, h3⟩ := hpk.registered j case hj
        exact ⟨h1, (hflags j).1.trans h2, (hflags j).2.trans h3⟩
      · exact (hflags j).2.trans (hpk.unregistered j hj)
      · exact htaken (hpk.untaken j) fun hji => ⟨hji ▸ hp, c, v, hji ▸ hc⟩
    · rw [setRegistration_of_ne ht]
      exact h.selects t hb
  · obtain ⟨hcom, hlt⟩ := h.committing t k hb
    refine ⟨?_, hlt⟩
    by_cases ht : t = sel
    · subst ht
      have hik : i = k := by
        rcases hi with hp | hb'
        · obtain ⟨c, d, hcd⟩ := h.pending _ hp
          exact absurd hb ((h.parked_of_waits hcd).1 k)
        · rw [hb] at hb'
          cases hb'
          rfl
      subst hik
      rw [setRegistration_self]
      exact ⟨hcom.phase, hcom.winner, (hflags i).1.trans hcom.active,
        fun j => (hflags j).2.trans (hcom.unqueued j),
        fun j => htaken (hcom.untaken j) fun hji => ⟨hji, c, v, hc⟩, hcom.unwritten⟩
    · rw [setRegistration_of_ne ht]
      exact hcom
  · have hne : t ≠ sel := by
      rintro rfl
      rw [h.freshSelect t ht] at hc
      simp [Select.create] at hc
    rw [setRegistration_of_ne hne]
    exact h.freshSelect t ht
  · have hphase : ((w.setRegistration sel i reg).selects t).phase = (w.selects t).phase := by
      by_cases ht : t = sel
      · rw [ht, setRegistration_self]
      · rw [setRegistration_of_ne ht]
    rw [hphase]
    exact h.scheduled t

theorem takeValue_case (hv : ((w.selects sel).registrations i).valueTaken = false)
    (hc : (w.selects sel).cases[i]? = some (.send c v)) : w.takeValue (.case sel i) = .ok
      (v, w.setRegistration sel i
        { (w.selects sel).registrations i with valueTaken := true }) := by
  unfold takeValue
  dsimp only
  rw [if_neg (by simp [hv]), hc]

theorem case_of_place {s : Select V} (h : s.place i = some (c, .send)) :
    ∃ v, s.cases[i]? = some (.send c v) := by
  unfold Select.place at h
  cases hc : s.cases[i]? with
  | none => rw [hc] at h; cases h
  | some case =>
    rw [hc] at h
    cases case with
    | send c' v => cases h; exact ⟨v, rfl⟩
    | receive c' | default => cases h

theorem case_of_place_receive {s : Select V} (h : s.place i = some (c, .receive)) :
    s.cases[i]? = some (.receive c) := by
  unfold Select.place at h
  cases hc : s.cases[i]? with
  | none => rw [hc] at h; cases h
  | some case =>
    rw [hc] at h
    cases case with
    | send c' v | default => cases h
    | receive c' => cases h; rfl

theorem waits_setPlain {id : ℕ} {q : Plain V} (hw : q.waiting = (w.plains id).waiting)
    (hc : q.channel = (w.plains id).channel) (hd : q.direction = (w.plains id).direction) :
    (w.setPlain id q).Waits c d s ↔ w.Waits c d s := by
  cases s with
  | plain t =>
    rw [waits_plain, waits_plain]
    unfold setPlain
    dsimp only
    by_cases ht : t = id
    · rw [ht, update_self, hw, hc, hd]
    · rw [update_of_ne ht]
  | case t j => exact Iff.rfl

theorem Parties.clearValue {id : ℕ} (h : w.Parties (some (.plain id)) b) :
    (w.setPlain id { w.plains id with value := none }).Parties (some (.plain id)) b := by
  have hwaits {c : ℕ} {d : Direction} {s : Waiter} :
      (w.setPlain id { w.plains id with value := none }).Waits c d s ↔ w.Waits c d s :=
    waits_setPlain rfl rfl rfl
  have hother {t : ℕ} (ht : t ≠ id) :
      (w.setPlain id { w.plains id with value := none }).plains t = w.plains t :=
    update_of_ne ht ..
  refine { h with
    waits := fun c d s => by rw [hwaits]; exact h.waits c d s, pending := fun s hs => ?_,
    value := fun t hw hd hne => ?_, freshPlain := fun t ht => ?_ }
  · obtain ⟨c, d, hcd⟩ := h.pending s hs
    exact ⟨c, d, hwaits.mpr hcd⟩
  · have ht : t ≠ id := fun hx => hne (by rw [hx])
    rw [hother ht] at hw hd ⊢
    exact h.value t hw hd hne
  · by_cases hx : t = id
    · rw [hx]
      show (update w.plains id _ id).waiting = false
      rw [update_self]
      exact h.freshPlain id (hx ▸ ht)
    · rw [hother hx]
      exact h.freshPlain t ht

theorem Parties.popSender (h : w.Parties none b) (hq : w.queues c .send = s :: rest) :
    ∃ v u, (w.setQueue c .send rest).takeValue s = .ok (v, u) ∧ u.Parties (some s) b ∧
      u.Taken c v s ∧ Same (w.setQueue c .send rest) u ∧
      ∀ t, s.owner ≠ .select t → u.selects t = w.selects t := by
  obtain ⟨hpop, hwaits⟩ := h.pop hq
  cases s with
  | plain id =>
    obtain ⟨hw, hch, hdir⟩ := hwaits
    obtain ⟨v, hv, hg⟩ := h.value id hw hdir nofun
    refine ⟨v, (w.setQueue c .send rest).setPlain id { w.plains id with value := none }, ?_,
      hpop.clearValue, ?_, ⟨⟨rfl, rfl, fun _ => .refl _, fun hx => hx.setPlain (hx.1 id)⟩,
        rfl, rfl, rfl, rfl, rfl⟩, fun _ _ => rfl⟩
    · unfold takeValue
      dsimp only
      rw [show ((w.setQueue c .send rest).plains id).value = some v from hv]
      rfl
    · show (update w.plains id _ id).channel = c ∧ (update w.plains id _ id).given = some v
      rw [update_self]
      exact ⟨hch, hg⟩
  | case t j =>
    obtain ⟨v, hcase⟩ := case_of_place hwaits.2
    have hv : ((w.selects t).registrations j).valueTaken = false := by
      cases hv : ((w.selects t).registrations j).valueTaken with
      | false => rfl
      | true => cases ((h.parked_of_waits hwaits).2.untaken j hv).1
    refine ⟨v, _, takeValue_case (w := w.setQueue c .send rest) hv hcase,
      hpop.markTaken (.inl rfl) hcase, ⟨?_, ?_⟩,
      ⟨⟨rfl, rfl, setRegistration_later _, fun hx => hx.setSelect (hx.2 t)⟩,
        rfl, rfl, rfl, rfl, rfl⟩,
      fun t' ht' => setRegistration_of_ne fun hx => ht' (by rw [hx]; rfl)⟩
    · rw [setRegistration_self]
      dsimp only
      rw [update_self]
    · rw [setRegistration_self]
      exact hcase

/-! ## Completing -/

theorem stillPending_owner : stillPending (some s) s.owner = none := by
  unfold stillPending
  simp [Option.filter]

theorem Parties.stillPending_committing (h : w.Parties p (some (sel, i))) :
    stillPending p (.select sel) = p := by
  cases p with
  | none => rfl
  | some s =>
    refine stillPending_eq_some.mpr ⟨rfl, fun ho => ?_⟩
    cases s with
    | plain id => cases ho
    | case t j =>
      obtain rfl : t = sel := by cases ho; rfl
      obtain ⟨c, d, hcd⟩ := h.pending _ rfl
      exact (h.parked_of_waits hcd).1 i rfl

theorem Parties.stillCommitting_pending (h : w.Parties (some (.case sel i)) b) :
    stillCommitting b (.select sel) = b := by
  cases b with
  | none => rfl
  | some x =>
    refine stillCommitting_eq_some.mpr ⟨rfl, fun ht => ?_⟩
    obtain ⟨c, d, hcd⟩ := h.pending _ rfl
    cases ht
    exact (h.parked_of_waits hcd).1 x.2 rfl

theorem stillCommitting_plain {id : ℕ} : stillCommitting b (.plain id) = b := by
  cases b <;> rfl

theorem stillCommitting_self : stillCommitting (some (sel, i)) (.select sel) = none := by
  simp [stillCommitting, Option.filter]

theorem effect_id : Effect (V := V) sel i c none id where
  queues _ := rfl
  plains _ := rfl
  plainCount _ := rfl
  selectCount _ := rfl
  scheduled _ := rfl
  dropped _ := rfl
  selects _ := (update_eq_self ..).symm
  aborted _ := rfl
  channels _ := rfl
  admitted _ := rfl
  received _ _ := .refl _
  got := nofun

theorem effect_value : Effect sel i c (some (some v)) fun w : World V =>
    (w.writeOutput sel i (some v)).receipt c v where
  queues _ := rfl
  plains _ := rfl
  plainCount _ := rfl
  selectCount _ := rfl
  scheduled _ := rfl
  dropped _ := rfl
  selects _ := rfl
  aborted _ := rfl
  channels _ := rfl
  admitted _ := rfl
  received _ := subset_update
  got _ x hx := by cases hx; exact mem_update

theorem effect_closed : Effect sel i c (some none) fun w : World V =>
    (w.writeOutput sel i none).finish c where
  queues _ := rfl
  plains _ := rfl
  plainCount _ := rfl
  selectCount _ := rfl
  scheduled _ := rfl
  dropped _ := rfl
  selects _ := rfl
  aborted _ := rfl
  channels _ := rfl
  admitted _ := rfl
  received _ _ := .refl _
  got := nofun

theorem Parties.completePlain {id : ℕ} (h : w.Parties (some (.plain id)) b) {result : Option V}
    (hr : Plain.Reports w.admitted w.received
      { w.plains id with waiting := false, result := some result }) :
    ∃ u, w.completePlain id result = .ok u ∧ u.Parties none b ∧ Leaves w u (.plain id) ∧
      u.received = w.received ∧ u.ended = w.ended := by
  obtain ⟨c, d, hcd⟩ := h.pending _ rfl
  have hout {c : ℕ} {d : Direction} :
      (w.queues c d).filter (fun s => s.owner ≠ .plain id) = w.queues c d := by
    refine List.filter_eq_self.mpr fun s hs => decide_eq_true fun ho => ?_
    cases s with
    | plain t =>
      obtain rfl : t = id := by cases ho; rfl
      exact ((h.waits c d _).mp hs).2 rfl
    | case t j => cases ho
  refine ⟨_, if_neg (by simp [hcd.1]), ?_,
    ⟨⟨rfl, rfl, fun _ => .refl _, fun hx => hx.setPlain hr⟩, fun _ _ => hout.symm, rfl, rfl,
      fun _ _ => rfl⟩, rfl, rfl⟩
  have hpend : stillPending (some (.plain id)) (.plain id) = none := stillPending_owner
  have hcom : stillCommitting b (.plain id) = b := stillCommitting_plain
  rw [← hpend, ← hcom]
  refine h.without (fun _ _ => hout.symm) rfl rfl rfl (fun t ht => update_of_ne
    (fun hx => ht (by rw [hx])) ..) (fun _ _ => rfl) (fun t ht => ?_) nofun
    fun t _ => ?_
  · cases ht
    show (update w.plains id _ id).waiting = false
    rw [update_self]
  · show (w.scheduled ++ [Continuation.plain id]).count _ = _
    rw [List.count_append]
    simp

theorem Contends.reports {s s' : Select V} {A R : ℕ → List V}
    (h : Contends s i) (hf : Fulfils (A c) s i c o) (hc : s'.cases = s.cases)
    (hw : s'.winner = some i) (ho : s'.outputs = if o.isSome then update s.outputs i o
      else s.outputs) (hR : ∀ v, o = some (some v) → v ∈ R c) : s'.Reports A R := by
  intro k e v
  rw [hc, hw, ho]
  refine ⟨fun hk hcase => ?_, fun hk hcase => ?_⟩
  · cases hk
    cases hf with
    | send x case taken mem => cases case.symm.trans hcase; exact mem
    | receive case => cases case.symm.trans hcase
  · cases hf with
    | send x case taken mem o_none => simp [o_none, h.unwritten] at hk
    | receive case written =>
      rw [if_pos written] at hk
      by_cases hki : k = i
      · rw [hki, update_self] at hk
        rw [hki] at hcase
        cases case.symm.trans hcase
        exact hR v hk
      · rw [update_of_ne hki, h.unwritten] at hk
        cases hk

theorem Parties.completed_leaves (h : w.Parties p b)
    (hi : p = some (.case sel i) ∨ b = some (sel, i)) (he : Effect sel i c o effect)
    (hf : Fulfils (w.admitted c) (w.selects sel) i c o) :
    Leaves w ((effect (w.won sel i)).dissolve sel) (.select sel) ∧
      (((effect (w.won sel i)).dissolve sel).selects sel).winner = some i := by
  have hsel : ((effect (w.won sel i)).dissolve sel).selects sel =
      { (effect (w.won sel i)).selects sel with
        registrations := ((effect (w.won sel i)).selects sel).cleared
        phase := if ((effect (w.won sel i)).selects sel).phase = .waiting then .scheduled
          else ((effect (w.won sel i)).selects sel).phase } := update_self ..
  have heff : (effect (w.won sel i)).selects sel = { (w.won sel i).selects sel with
      outputs := if o.isSome then update ((w.won sel i).selects sel).outputs i o
        else ((w.won sel i).selects sel).outputs } := by
    rw [he.selects, update_self]
  have hother {t : ℕ} (ht : t ≠ sel) :
      ((effect (w.won sel i)).dissolve sel).selects t = w.selects t := by
    show update (effect (w.won sel i)).selects sel _ t = _
    rw [update_of_ne ht, he.selects, update_of_ne ht]
    exact update_of_ne ht ..
  refine ⟨⟨⟨he.aborted _, he.selectCount _, fun t => ?_, fun hx => ?_⟩, fun c d => ?_,
    he.channels _, he.admitted _, fun t ht => hother fun hx => ht (by rw [hx])⟩, ?_⟩
  · by_cases ht : t = sel
    · subst ht
      rw [hsel, heff, won_select]
      refine ⟨rfl, fun k hk => ?_, fun hp => ?_, fun hp => ?_, fun _ => rfl⟩
      · rw [(h.contends hi).winner] at hk
        cases hk
      · dsimp only
        rw [hp, if_neg nofun]
      · dsimp only
        rw [hp, if_neg nofun]
    · rw [hother ht]
      exact .refl _
  · refine ⟨fun id => ?_, fun t => ?_⟩
    · show ((effect (w.won sel i)).plains id).Reports (effect _).admitted (effect _).received
      rw [he.plains, he.admitted]
      exact (hx.1 id).mono (fun _ => .refl _) (he.received (w.won sel i))
    · show (((effect (w.won sel i)).dissolve sel).selects t).Reports (effect _).admitted _
      rw [he.admitted]
      by_cases ht : t = sel
      · rw [ht, hsel, heff, won_select]
        exact (h.contends hi).reports hf rfl rfl rfl (he.got _)
      · rw [hother ht]
        exact (hx.2 t).mono (fun _ => .refl _) (he.received (w.won sel i))
  · show ((effect (w.won sel i)).queues c d).filter _ = _
    rw [he.queues]
    rfl
  · rw [hsel, heff, won_select]

theorem Parties.completePending (h : w.Parties (some (.case sel i)) b)
    {A : List V} (he : Effect sel i c o effect)
    (hf : Fulfils A (w.selects sel) i c o) :
    w.completeCase sel i effect = .ok ((effect (w.won sel i)).dissolve sel) ∧
      ((effect (w.won sel i)).dissolve sel).Parties none b := by
  obtain ⟨heq, hp⟩ := h.completeCase (.inl rfl) he hf
  rw [show stillPending (some (.case sel i)) (.select sel) = none from stillPending_owner,
    h.stillCommitting_pending] at hp
  exact ⟨heq, hp⟩

theorem Parties.completeCommitting (h : w.Parties p (some (sel, i)))
    {A : List V} (he : Effect sel i c o effect)
    (hf : Fulfils A (w.selects sel) i c o) :
    w.completeCase sel i effect = .ok ((effect (w.won sel i)).dissolve sel) ∧
      ((effect (w.won sel i)).dissolve sel).Parties p none := by
  obtain ⟨heq, hp⟩ := h.completeCase (.inr rfl) he hf
  rw [h.stillPending_committing, stillCommitting_self] at hp
  exact ⟨heq, hp⟩

theorem Parties.complete (h : w.Parties (some s) b) (ht : w.Taken c v s)
    (hv : v ∈ w.admitted c) : ∃ u, w.complete s = .ok u ∧ u.Parties none b ∧
      Leaves w u s.owner ∧ u.received = w.received ∧ u.ended = w.ended := by
  cases s with
  | plain id =>
    obtain ⟨rfl, hg⟩ := ht
    exact h.completePlain ⟨fun _ _ => ⟨v, hv, hg⟩, nofun⟩
  | case sel i =>
    have hf : Fulfils (w.admitted c) (w.selects sel) i c none := .send v ht.2 ht.1 hv rfl
    obtain ⟨heq, hp⟩ := h.completePending effect_id hf
    exact ⟨_, heq, hp, (h.completed_leaves (.inl rfl) effect_id hf).1, rfl, rfl⟩

section

variable (h : w.Parties p b)
include h

theorem Parties.frame (channels : ℕ → Channel V)
    (admitted received : ℕ → List V) (ended : ℕ → Bool) :
    Parties p b { w with channels, admitted, received, ended } :=
  { h with }

theorem Parties.receipt : (w.receipt c v).Parties p b := h.frame _ _ _ _

theorem Parties.finish : (w.finish c).Parties p b := h.frame _ _ _ _

theorem Parties.accept : (w.accept c v).Parties p b := h.frame _ _ _ _

theorem Parties.setChannel {ch : Channel V} : (w.setChannel c ch).Parties p b :=
  h.frame _ _ _ _

end

theorem Parties.completeValue (h : w.Parties (some r) b) (hw : w.Waits c .receive r) (v : V) :
    ∃ u, w.completeValue c r v = .ok u ∧ u.Parties none b ∧
      Leaves w u r.owner ∧ u.received = (w.receipt c v).received ∧ u.ended = w.ended := by
  cases r with
  | plain id =>
    obtain ⟨-, rfl, hd⟩ := hw
    have hgot : Plain.Reports w.admitted (w.receipt (w.plains id).channel v).received
        { w.plains id with waiting := false, result := some (some v) } :=
      ⟨fun hx => (nomatch hd.symm.trans hx), fun x hx => by cases hx; exact mem_update⟩
    obtain ⟨u, heq, hp, hl, hr, he⟩ := (h.receipt (v := v)).completePlain hgot
    exact ⟨u, heq, hp, ⟨{ hl with reported := fun hx => hl.reported hx.receipt }, hl.queues,
      hl.channels, hl.admitted, hl.others⟩, hr, he⟩
  | case sel i =>
    have hf : Fulfils (w.admitted c) (w.selects sel) i c (some (some v)) :=
      .receive (case_of_place_receive hw.2) rfl
    obtain ⟨heq, hp⟩ := h.completePending effect_value hf
    exact ⟨_, heq, hp, (h.completed_leaves (.inl rfl) effect_value hf).1, rfl, rfl⟩

theorem Parties.completeClosed (h : w.Parties (some r) b) (hw : w.Waits c .receive r) :
    ∃ u, w.completeClosed c r = .ok u ∧ u.Parties none b ∧ Leaves w u r.owner ∧
      u.received = w.received ∧ u.ended = (w.finish c).ended := by
  cases r with
  | plain id =>
    obtain ⟨-, rfl, hd⟩ := hw
    have hgot : Plain.Reports w.admitted w.received
        { w.plains id with waiting := false, result := some none } :=
      ⟨fun hx => (nomatch hd.symm.trans hx), nofun⟩
    obtain ⟨u, heq, hp, hl, hr, he⟩ := h.finish.completePlain hgot
    exact ⟨u, heq, hp, ⟨{ hl with }, hl.queues, hl.channels, hl.admitted, hl.others⟩, hr, he⟩
  | case sel i =>
    have hf : Fulfils (w.admitted c) (w.selects sel) i c (some none) :=
      .receive (case_of_place_receive hw.2) rfl
    obtain ⟨heq, hp⟩ := h.completePending effect_closed hf
    exact ⟨_, heq, hp, (h.completed_leaves (.inl rfl) effect_closed hf).1, rfl, rfl⟩

end World

end Alyrn.Coro
