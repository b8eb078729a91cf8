import Alyrn.Coro.Select.Commit

/-!
# Parking a Select

A Select with no ready case and no default arms all its registrations and parks. It joins the lines
of open channels that had nobody in the opposite line, so that a sender and a receiver that wait on
one channel are registrations of one Select. A Select that is destroyed leaves all lines.
-/

namespace Alyrn.Coro

open Function

/-- The registrations once those of the cases `js` are queued. -/
def Select.armed {V : Type} (s : Select V) (js : List ℕ) (j : ℕ) : Registration :=
  if j ∈ js ∧ (s.place j).isSome then { s.registrations j with queued := true }
  else s.registrations j

namespace World

variable {V : Type} {w u : World V} {c : ℕ} {d : Direction} {s : Waiter} {sel i j : ℕ}
  {js : List ℕ} {cases : List (Case V)} {choice : ℕ}

/-! ## Arming -/

def armAll (w : World V) (sel : ℕ) (js : List ℕ) : World V :=
  { w with
    queues := fun c d => w.queues c d ++
      (js.filter fun j => (w.selects sel).place j = some (c, d)).map (.case sel)
    selects := update w.selects sel
      { w.selects sel with registrations := (w.selects sel).armed js } }

theorem armAll_select : (w.armAll sel js).selects sel =
    { w.selects sel with registrations := (w.selects sel).armed js } :=
  update_self ..

theorem armAll_of_ne {t : ℕ} (h : t ≠ sel) : (w.armAll sel js).selects t = w.selects t :=
  update_of_ne h ..

theorem armAll_queues : (w.armAll sel js).queues c d = w.queues c d ++
    (js.filter fun j => (w.selects sel).place j = some (c, d)).map (.case sel) :=
  rfl

theorem armAll_place : ((w.armAll sel js).selects sel).place = (w.selects sel).place := by
  rw [armAll_select]
  rfl

theorem eq_armAll (hq : u.queues = (w.armAll sel js).queues)
    (hs : u.selects = (w.armAll sel js).selects)
    (hu : u = { w with queues := u.queues, selects := u.selects }) : u = w.armAll sel js := by
  rw [hu, hq, hs]
  rfl

theorem armAll_unplaced (h : ∀ j ∈ js, (w.selects sel).place j = none) :
    w.armAll sel js = w := by
  have hq : w.queues = (w.armAll sel js).queues := by
    funext c d
    rw [armAll_queues, List.filter_eq_nil_iff.mpr fun j hj => by simp [h j hj]]
    exact (List.append_nil _).symm
  have hf : (w.selects sel).armed js = (w.selects sel).registrations := by
    funext j
    refine if_neg fun hx => ?_
    rw [h j hx.1] at hx
    cases hx.2
  have hs : w.selects = (w.armAll sel js).selects := by
    unfold armAll
    rw [hf]
    exact (update_eq_self ..).symm
  exact (eq_armAll hq hs rfl).symm

theorem armAll_cons : (w.armAll sel [j]).armAll sel js = w.armAll sel (j :: js) := by
  refine eq_armAll ?_ ?_ rfl
  · funext c d
    rw [armAll_queues, armAll_queues, armAll_queues, armAll_place, List.append_assoc,
      ← List.map_append, ← List.filter_append]
    rfl
  · have hf : ((w.armAll sel [j]).selects sel).armed js = (w.selects sel).armed (j :: js) := by
      funext k
      have hreg : ((w.armAll sel [j]).selects sel).registrations k =
          (w.selects sel).armed [j] k := by rw [armAll_select]
      unfold Select.armed at hreg ⊢
      rw [armAll_place, hreg]
      by_cases hp : ((w.selects sel).place k).isSome = true
      · by_cases hj : k = j
        · subst hj
          by_cases hk : k ∈ js <;> simp [hp, hk]
        · by_cases hk : k ∈ js <;> simp [hp, hj, hk]
      · simp [hp]
    funext t
    by_cases ht : t = sel
    · rw [ht, armAll_select, hf, armAll_select, armAll_select]
    · rw [armAll_of_ne ht, armAll_of_ne ht, armAll_of_ne ht]

/-- Registration `j` is still to be queued. -/
structure Unarmed (w : World V) (sel j : ℕ) : Prop where
  active : ((w.selects sel).registrations j).active = true
  unqueued : ((w.selects sel).registrations j).queued = false
  opened : ∀ c d, (w.selects sel).place j = some (c, d) → (w.channels c).closed = false
  out : ∀ c d, .case sel j ∉ w.queues c d

theorem Unarmed.arm (h : w.Unarmed sel j) : w.arm sel j = .ok (w.armAll sel [j]) := by
  have hat {c : ℕ} {d : Direction} (hp : (w.selects sel).place j = some (c, d)) :
      (if ((w.selects sel).registrations j).active = false then .error .armedInactive
        else if ((w.selects sel).registrations j).queued then .error .armedTwice
        else if (w.channels c).closed then .error .registeredOnClosed
        else (w.setRegistration sel j { (w.selects sel).registrations j with
          queued := true }).enqueue c d (.case sel j)) =
      (.ok (w.armAll sel [j]) : Except Check (World V)) := by
    rw [if_neg (by simp [h.active]), if_neg (by simp [h.unqueued]),
      if_neg (by simp [h.opened c d hp])]
    refine (if_neg (h.out c d)).trans (congrArg Except.ok (eq_armAll ?_ ?_ rfl))
    · funext c' d'
      rw [armAll_queues]
      by_cases hcd : c' = c ∧ d' = d
      · obtain ⟨rfl, rfl⟩ := hcd
        rw [setQueue_self, List.filter_cons_of_pos (by simpa using hp)]
        rfl
      · rw [setQueue_of_ne hcd,
          List.filter_cons_of_neg (by
            rw [hp]
            simp only [Option.some.injEq, Prod.mk.injEq, decide_eq_true_eq]
            exact fun hx => hcd ⟨hx.1.symm, hx.2.symm⟩)]
        exact (List.append_nil _).symm
    · have hf : update (w.selects sel).registrations j
          { (w.selects sel).registrations j with queued := true } =
          (w.selects sel).armed [j] := by
        funext k
        unfold Select.armed
        by_cases hk : k = j
        · subst hk
          simp [hp]
        · simp [hk]
      show update w.selects sel { w.selects sel with registrations := _ } = _
      rw [hf]
      rfl
  have hnone (hp : (w.selects sel).place j = none) : w = w.armAll sel [j] :=
    (armAll_unplaced fun k hk => by rw [List.mem_singleton.mp hk]; exact hp).symm
  unfold World.arm
  cases hcase : (w.selects sel).cases[j]? with
  | none => exact congrArg Except.ok (hnone (by rw [Select.place, hcase]; rfl))
  | some case =>
    cases case with
    | send c v | receive c => exact hat (by rw [Select.place, hcase]; rfl)
    | default => exact congrArg Except.ok (hnone (by rw [Select.place, hcase]; rfl))

theorem Unarmed.armAll {k : ℕ} (h : w.Unarmed sel k) (hk : k ≠ j) :
    (w.armAll sel [j]).Unarmed sel k := by
  have hreg : ((w.armAll sel [j]).selects sel).registrations k =
      (w.selects sel).registrations k := by
    rw [armAll_select]
    exact if_neg fun hx => hk (List.mem_singleton.mp hx.1)
  refine ⟨by rw [hreg]; exact h.active, by rw [hreg]; exact h.unqueued, fun c d hp => ?_,
    fun c d hx => ?_⟩
  · rw [armAll_place] at hp
    exact h.opened c d hp
  · rw [armAll_queues, List.mem_append] at hx
    rcases hx with hx | hx
    · exact h.out c d hx
    · simp [hk] at hx

theorem armRegistrations_eq (hn : js.Nodup) (h : ∀ j ∈ js, w.Unarmed sel j) :
    armRegistrations sel js w = .ok (w.armAll sel js) := by
  induction js generalizing w with
  | nil => exact congrArg Except.ok (armAll_unplaced fun _ hx => absurd hx List.not_mem_nil).symm
  | cons j js ih =>
    obtain ⟨hj, hn⟩ := List.nodup_cons.mp hn
    unfold armRegistrations
    rw [(h j List.mem_cons_self).arm]
    refine (ih hn fun k hk => ?_).trans (congrArg Except.ok armAll_cons)
    exact (h k (List.mem_cons_of_mem _ hk)).armAll fun hx => hj (hx ▸ hk)

/-! ## Choosing -/

theorem mem_readyCases : i ∈ w.readyCases cases ↔
    ∃ case, cases[i]? = some case ∧ w.ready case = true := by
  unfold readyCases
  rw [List.mem_filter, List.mem_range]
  constructor
  · rintro ⟨-, hx⟩
    cases hc : cases[i]? with
    | none => rw [hc] at hx; cases hx
    | some case => rw [hc] at hx; exact ⟨case, rfl, hx⟩
  · rintro ⟨case, hc, hr⟩
    exact ⟨(List.getElem?_eq_some_iff.mp hc).1, by rw [hc]; exact hr⟩

theorem chooseReadyCase_mem (h : w.chooseReadyCase cases choice = some i) :
    i ∈ w.readyCases cases :=
  List.mem_of_getElem? h

theorem chooseReadyCase_none (h : w.chooseReadyCase cases choice = none) :
    w.readyCases cases = [] := by
  by_contra hne
  have hlt : choice % (w.readyCases cases).length < (w.readyCases cases).length :=
    Nat.mod_lt _ (List.length_pos_of_ne_nil hne)
  have hge := List.getElem?_eq_none_iff.mp h
  omega

theorem fallback_some (h : fallback cases = some i) : cases[i]? = some .default := by
  obtain ⟨hlt, hx, -⟩ := List.findIdx?_eq_some_iff_getElem.mp h
  rw [List.getElem?_eq_getElem hlt]
  cases hc : cases[i] with
  | send c v | receive c => rw [hc] at hx; cases hx
  | default => rfl

theorem fallback_none (h : fallback cases = none) {case : Case V} (hc : cases[i]? = some case) :
    case.place.isSome = true := by
  have hx := List.findIdx?_eq_none_iff.mp h case (List.mem_of_getElem? hc)
  cases case with
  | send c v | receive c => rfl
  | default => cases hx

/-! ## Parking -/

def park (w : World V) (cases : List (Case V)) : World V :=
  let u := (w.begin cases).armAll w.selectCount (List.range cases.length)
  u.setSelect w.selectCount { u.selects w.selectCount with phase := .waiting }

theorem park_self : (w.park cases).selects w.selectCount = { Select.create cases with
    registrations := (Select.create cases).armed (List.range cases.length)
    phase := .waiting } := by
  refine (update_self ..).trans ?_
  rw [armAll_select, begin_self]

theorem park_of_ne {t : ℕ} (h : t ≠ w.selectCount) : (w.park cases).selects t = w.selects t :=
  (update_of_ne h ..).trans ((armAll_of_ne h).trans (begin_of_ne h))

theorem mem_park : s ∈ (w.park cases).queues c d ↔ s ∈ w.queues c d ∨
    ∃ j, s = .case w.selectCount j ∧ (cases[j]?).bind Case.place = some (c, d) := by
  show s ∈ ((w.begin cases).armAll w.selectCount (List.range cases.length)).queues c d ↔ _
  rw [armAll_queues, List.mem_append, begin_self]
  refine or_congr_right ?_
  rw [List.mem_map]
  constructor
  · rintro ⟨j, hj, rfl⟩
    exact ⟨j, rfl, of_decide_eq_true (List.mem_filter.mp hj).2⟩
  · rintro ⟨j, rfl, hj⟩
    refine ⟨j, List.mem_filter.mpr ⟨List.mem_range.mpr ?_, decide_eq_true hj⟩, rfl⟩
    by_contra hge
    rw [List.getElem?_eq_none (Nat.not_lt.mp hge)] at hj
    cases hj

theorem not_ready (h : w.readyCases cases = []) (hp : (cases[j]?).bind Case.place = some (c, d)) :
    (w.channels c).closed = false ∧
      (d = .send → w.queues c .receive = [] ∧ (w.channels c).size = (w.channels c).capacity) ∧
      (d = .receive → w.queues c .send = [] ∧ (w.channels c).size = 0) := by
  cases hc : cases[j]? with
  | none =>
    rw [hc] at hp
    cases hp
  | some case =>
    rw [hc] at hp
    have hr : w.ready case = false := by
      by_contra hr
      have : j ∈ w.readyCases cases := mem_readyCases.mpr ⟨case, hc, by simpa using hr⟩
      rw [h] at this
      cases this
    cases case with
    | send c' v =>
      cases hp
      simp only [ready, ne_eq, decide_eq_false_iff_not, not_or, not_not, Bool.not_eq_true] at hr
      exact ⟨hr.1, fun _ => hr.2, by simp⟩
    | receive c' =>
      cases hp
      simp only [ready, ne_eq, decide_eq_false_iff_not, not_or, not_not, Bool.not_eq_true] at hr
      exact ⟨hr.1, by simp, fun _ => hr.2⟩
    | default => cases hp

theorem Lines.park (h : Lines w) (hr : w.readyCases cases = []) : Lines (w.park cases) := by
  have hne {c : ℕ} {d : Direction} (hx : (w.park cases).queues c d ≠ []) :
      w.queues c d ≠ [] ∨ ∃ j : ℕ, (cases[j]?).bind Case.place = some (c, d) := by
    obtain ⟨s, hs⟩ := List.exists_mem_of_ne_nil _ hx
    rcases mem_park.mp hs with hs | ⟨j, -, hj⟩
    · exact .inl (List.ne_nil_of_mem hs)
    · exact .inr ⟨j, hj⟩
  refine ⟨fun c hx => ?_, fun c hx => ?_, fun c d hx => ?_, fun c s hs r hr' => ?_⟩
  · rcases hne hx with hx | ⟨j, hj⟩
    · exact h.full c hx
    · exact ((not_ready hr hj).2.1 rfl).2
  · rcases hne hx with hx | ⟨j, hj⟩
    · exact h.empty c hx
    · exact ((not_ready hr hj).2.2 rfl).2
  · rcases hne hx with hx | ⟨j, hj⟩
    · exact h.opened c d hx
    · exact (not_ready hr hj).1
  · -- a case joins a line only if nobody from before waits in the opposite one
    rcases mem_park.mp hs with hs | ⟨j, rfl, hj⟩ <;> rcases mem_park.mp hr' with hr' | ⟨k, rfl, hk⟩
    · exact h.together c s hs r hr'
    · rw [((not_ready hr hk).2.2 rfl).1] at hs
      cases hs
    · rw [((not_ready hr hj).2.1 rfl).1] at hr'
      cases hr'
    · rfl

theorem armed_queued : ((Select.create cases).armed (List.range cases.length) j).queued = true ↔
    ((cases[j]?).bind Case.place).isSome = true := by
  unfold Select.armed
  simp only [List.mem_range]
  rw [show (Select.create cases).place j = (cases[j]?).bind Case.place from rfl]
  by_cases hp : ((cases[j]?).bind Case.place).isSome = true
  · have hlt : j < cases.length := by
      by_contra hge
      rw [List.getElem?_eq_none (Nat.not_lt.mp hge)] at hp
      cases hp
    rw [if_pos ⟨hlt, hp⟩]
    simp [hp]
  · rw [if_neg fun hx => hp hx.2]
    simp [Select.create, hp]

theorem armed_active : ((Select.create cases).armed js j).active = true := by
  unfold Select.armed
  split_ifs
  · rfl
  · rfl

theorem armed_untaken : ((Select.create cases).armed js j).valueTaken = false := by
  unfold Select.armed
  split_ifs
  · rfl
  · rfl

theorem park_parked (hf : fallback cases = none) :
    ((w.park cases).selects w.selectCount).Parked fun _ => False := by
  rw [park_self]
  refine ⟨rfl, rfl, fun j case hc => ?_, fun j hj => ?_, fun j hj => ?_, fun _ => rfl⟩
  · have hp := fallback_none hf hc
    refine ⟨hp, armed_active, armed_queued.mpr ?_⟩
    rw [show cases[j]? = some case from hc]
    exact hp
  · have hnot : ¬ ((Select.create cases).armed (List.range cases.length) j).queued = true := by
      rw [armed_queued, List.getElem?_eq_none (show cases.length ≤ j from hj)]
      exact Bool.false_ne_true
    exact Bool.eq_false_of_not_eq_true hnot
  · rw [show ((Select.create cases).armed (List.range cases.length) j).valueTaken = false from
      armed_untaken] at hj
    cases hj

theorem Parties.park (h : w.Parties none none) (hf : fallback cases = none) :
    (w.park cases).Parties none none := by
  have hfresh (c : ℕ) (d : Direction) (j : ℕ) : .case w.selectCount j ∉ w.queues c d :=
    h.fresh c d j
  refine ⟨fun c d s => ?_, fun c d => ?_, nofun, h.value, fun t _ => ?_,
    nofun, h.freshPlain, fun t ht => ?_, fun t => ?_, h.dropped⟩
  · rw [mem_park]
    simp only [ne_eq, reduceCtorEq, not_false_eq_true, and_true]
    cases s with
    | plain id =>
      have := h.waits c d (.plain id)
      simp only [ne_eq, reduceCtorEq, not_false_eq_true, and_true] at this
      simp only [reduceCtorEq, false_and, exists_false, or_false]
      exact this
    | case t j =>
      rw [waits_case]
      by_cases ht : t = w.selectCount
      · subst ht
        rw [park_self]
        show _ ↔ ((Select.create cases).armed (List.range cases.length) j).queued = true ∧
          (cases[j]?).bind Case.place = some (c, d)
        rw [armed_queued]
        refine ⟨fun hx => ?_, fun hx => .inr ⟨j, rfl, hx.2⟩⟩
        rcases hx with hx | ⟨k, hk, hx⟩
        · exact absurd hx (hfresh c d j)
        · cases hk
          exact ⟨by rw [hx]; rfl, hx⟩
      · rw [park_of_ne ht, ← waits_case, h.waits c d]
        simp [ht]
  · show (((w.begin cases).armAll w.selectCount (List.range cases.length)).queues c d).Nodup
    rw [armAll_queues, List.nodup_append]
    refine ⟨h.nodup c d, ?_, fun a ha x hx => ?_⟩
    · refine List.Pairwise.map _ (fun a x hax hx => hax ?_) (List.nodup_range.filter _)
      cases hx
      rfl
    · rintro rfl
      obtain ⟨j, -, rfl⟩ := List.mem_map.mp hx
      exact hfresh c d j ha
  · by_cases ht : t = w.selectCount
    · subst ht
      obtain ⟨h1, h2, h3, h4, h5, h6⟩ := park_parked (w := w) hf
      exact .inl ⟨h1, h2, h3, h4, fun i hi => (h5 i hi).1.elim, h6⟩
    · rw [park_of_ne ht]
      exact h.selects t fun _ => nofun
  · have ht : w.selectCount + 1 ≤ t := ht
    rw [park_of_ne (by omega)]
    exact h.freshSelect t (by omega)
  · refine (h.scheduled t).trans ?_
    by_cases ht : t = w.selectCount
    · rw [ht, park_self, h.freshSelect w.selectCount (Nat.le_refl _)]
      rfl
    · rw [park_of_ne ht]

theorem park_eq (h : w.Parties none none) (hr : w.readyCases cases = []) :
    ((armRegistrations w.selectCount (List.range cases.length) (w.begin cases)).bind fun u =>
      if (u.selects w.selectCount).winner.isSome then .ok u else u.markWaiting w.selectCount) =
      .ok (w.park cases) := by
  have hun (j : ℕ) : (w.begin cases).Unarmed w.selectCount j := by
    refine ⟨by rw [begin_self]; rfl, by rw [begin_self]; rfl, fun c d hp => ?_, fun c d =>
      h.fresh c d j⟩
    rw [begin_self] at hp
    exact (not_ready hr hp).1
  rw [armRegistrations_eq List.nodup_range fun j _ => hun j]
  show (if (((w.begin cases).armAll w.selectCount _).selects w.selectCount).winner.isSome then _
    else _) = _
  rw [if_neg (by rw [armAll_select, begin_self]; exact Bool.false_ne_true)]
  unfold markWaiting
  rw [if_neg (by rw [armAll_select, begin_self]; exact not_not.mpr rfl),
    if_neg (by rw [armAll_select, begin_self]; exact Bool.false_ne_true)]
  rfl

/-- What the start of a Select leaves behind. -/
structure Begun (w u : World V) (cases : List (Case V)) : Prop where
  aborted : u.aborted = w.aborted
  selectCount : u.selectCount = w.selectCount + 1
  later : ∀ t, t < w.selectCount → (w.selects t).Later (u.selects t)
  own : (u.selects w.selectCount).cases = cases
  parked : (u.selects w.selectCount).phase = .waiting ∨
    (u.selects w.selectCount).phase = .arming ∧ (u.selects w.selectCount).winner.isSome = true
  reported : w.Reported → u.Reported
  fallback : ∀ k, (u.selects w.selectCount).winner = some k → cases[k]? = some .default →
    w.readyCases cases = []

theorem Keeps.begun (h : Keeps (w.begin cases) u) {case : Case V} (hc : cases[i]? = some case)
    (hw : (u.selects w.selectCount).winner = some i)
    (hr : case = .default → w.readyCases cases = []) : Begun w u cases := by
  have hself := h.later w.selectCount
  rw [begin_self] at hself
  refine ⟨h.aborted, h.selectCount, fun t ht => ?_, hself.cases,
    .inr ⟨hself.arming rfl, by rw [hw]; rfl⟩,
    fun hx => h.reported (Reported.setSelect hx fun _ _ _ => ⟨nofun, nofun⟩), fun k hk hd => ?_⟩
  · have := h.later t
    rwa [begin_of_ne (Nat.ne_of_lt ht)] at this
  · rw [hw] at hk
    cases hk
    rw [hc] at hd
    exact hr (Option.some.inj hd)

theorem select_eq : w.select cases choice =
    match w.chooseReadyCase cases choice with
    | some i => (w.begin cases).commitCase w.selectCount i
    | none =>
      match World.fallback cases with
      | some i => (w.begin cases).commitCase w.selectCount i
      | none => (armRegistrations w.selectCount (List.range cases.length) (w.begin cases)).bind
        fun u => if (u.selects w.selectCount).winner.isSome then .ok u
          else u.markWaiting w.selectCount :=
  rfl

/-- **`Select`.** It commits a ready case, else its default, else it parks; only a send on a closed
channel fails. -/
theorem Sound.select (h : w.Sound none) (cases : List (Case V)) (choice : ℕ) :
    w.select cases choice = .error .sendOnClosed ∨
      ∃ u, w.select cases choice = .ok u ∧ u.Sound none ∧ Begun w u cases := by
  have hcommit {i : ℕ} {case : Case V} (hc : cases[i]? = some case)
      (hready : case = .default ∨ w.ready case = true)
      (hr : case = .default → w.readyCases cases = []) :
      (w.begin cases).commitCase w.selectCount i = .error .sendOnClosed ∨
        ∃ u, (w.begin cases).commitCase w.selectCount i = .ok u ∧ u.Sound none ∧
          Begun w u cases := by
    refine ((h.begin cases i).commitCase begin_self hc ?_).imp_right ?_
    · refine hready.imp_right fun hx => ?_
      cases case with
      | send c v | receive c | default => exact hx
    · rintro ⟨u, heq, hu, hk, hw⟩
      exact ⟨u, heq, hu, hk.begun hc hw hr⟩
  rw [select_eq]
  cases hch : w.chooseReadyCase cases choice with
  | some i =>
    obtain ⟨case, hc, hr⟩ := mem_readyCases.mp (chooseReadyCase_mem hch)
    refine hcommit hc (.inr hr) ?_
    rintro rfl
    cases hr
  | none =>
    have hr := chooseReadyCase_none hch
    cases hf : World.fallback cases with
    | some i => exact hcommit (fallback_some hf) (.inl rfl) fun _ => hr
    | none =>
      refine .inr ⟨w.park cases, park_eq h.parties hr, ⟨h.parties.park hf, h.lines.park hr,
        ⟨h.flow.fifo, h.flow.ended⟩⟩, rfl, rfl, fun t ht => ?_, ?_, .inl ?_,
        fun hx => ⟨hx.1, fun t => ?_⟩, fun k hk => ?_⟩
      · rw [park_of_ne (Nat.ne_of_lt ht)]
        exact .refl _
      · rw [park_self]
        rfl
      · rw [park_self]
      · by_cases ht : t = w.selectCount
        · rw [ht, park_self]
          exact fun _ _ _ => ⟨nofun, nofun⟩
        · rw [park_of_ne ht]
          exact hx.2 t
      · rw [park_self] at hk
        cases hk

/-! ## Destroying -/

theorem destroyRegistrations_cons (h : w.Loser sel j)
    (hq : ((w.selects sel).registrations j).queued = true)
    (hp : ((w.selects sel).place j).isSome = true) :
    destroyRegistrations sel (j :: js) w = destroyRegistrations sel js (w.cancelAll sel [j]) := by
  have ha := h.active hq
  have hcancel := h.cancelRegistration
  unfold World.cancelRegistration at hcancel
  unfold Select.place at hp
  show Except.bind _ _ = _
  cases hc : (w.selects sel).cases[j]? with
  | none =>
    rw [hc] at hp
    cases hp
  | some case =>
    rw [hc] at hp hcancel
    cases case with
    | send c v | receive c =>
      dsimp only at hcancel ⊢
      rw [if_neg (by simp [ha]), if_pos hq] at hcancel
      rw [if_pos hq, hcancel]
      rfl
    | default => cases hp

theorem destroyRegistrations_eq (hn : js.Nodup) (h : ∀ j ∈ js, w.Loser sel j ∧
      ((w.selects sel).registrations j).queued = true ∧ ((w.selects sel).place j).isSome = true) :
    destroyRegistrations sel js w = .ok (w.cancelAll sel js) := by
  induction js generalizing w with
  | nil => exact congrArg Except.ok cancelAll_nil.symm
  | cons j js ih =>
    obtain ⟨hj, hn⟩ := List.nodup_cons.mp hn
    obtain ⟨hl, hq, hp⟩ := h j List.mem_cons_self
    rw [destroyRegistrations_cons hl hq hp]
    refine (ih hn fun k hk => ?_).trans (congrArg Except.ok cancelAll_cons)
    obtain ⟨hl, hq, hp⟩ := h k (List.mem_cons_of_mem _ hk)
    have hkj : k ≠ j := fun hx => hj (hx ▸ hk)
    refine ⟨hl.cancelAll hkj, ?_, ?_⟩
    · rw [cancelAll_select]
      simpa [hkj] using hq
    · rw [cancelAll_select]
      exact hp

theorem destroyRegistrations_unqueued
    (h : ∀ j, ((w.selects sel).registrations j).queued = false) :
    destroyRegistrations sel js w = .ok w := by
  induction js with
  | nil => rfl
  | cons j js ih =>
    unfold destroyRegistrations
    rw [h j]
    cases hc : (w.selects sel).cases[j]? with
    | none => exact ih
    | some case =>
      cases case with
      | send c v | receive c | default => exact ih

/-- **A Select is destroyed**, and leaves the lines it waits in. -/
theorem Sound.destroySelect (h : w.Sound none) (sel : ℕ) :
    ∃ u, w.destroySelect sel = .ok u ∧ u.Sound none ∧ Keeps w u := by
  rcases h.parties.selects sel (by simp) with hpk | hrest
  · set n := (w.selects sel).cases.length with hn
    have hcase {j : ℕ} (hj : j < n) : ∃ case, (w.selects sel).cases[j]? = some case :=
      ⟨_, List.getElem?_eq_getElem hj⟩
    have hlose (j : ℕ) (hj : j ∈ List.range n) : w.Loser sel j ∧
        ((w.selects sel).registrations j).queued = true ∧
        ((w.selects sel).place j).isSome = true := by
      obtain ⟨case, hc⟩ := hcase (List.mem_range.mp hj)
      obtain ⟨hp, ha, hq⟩ := hpk.registered j case hc
      refine ⟨⟨fun c d => ?_, fun _ => ha⟩, hq, by rw [Select.place, hc]; exact hp⟩
      rw [h.parties.waits c d]
      simp
    set u := w.cancelAll sel (List.range n) with hu
    have hq (c : ℕ) (d : Direction) :
        u.queues c d = (w.queues c d).filter fun s => s.owner ≠ .select sel := by
      rw [hu, cancelAll_queues]
      refine List.filter_congr fun s hs => ?_
      cases s with
      | plain id => simp [Waiter.owner]
      | case t j =>
        by_cases ht : t = sel
        · subst ht
          have hlt : j < n := by
            by_contra hge
            have := ((h.parties.waits c d _).mp hs).1.1
            rw [hpk.unregistered j (Nat.not_lt.mp hge)] at this
            cases this
          simp [Waiter.owner, hlt]
        · simp [Waiter.owner, ht]
    have hsel : u.selects sel = w.withRegistrations sel (fun j =>
        if j ∈ List.range n then (w.selects sel).cleared j
        else (w.selects sel).registrations j) := cancelAll_select
    have hother {t : ℕ} (ht : t ≠ sel) : u.selects t = w.selects t := update_of_ne ht ..
    have hrest : (u.selects sel).Resting := by
      rw [hsel]
      refine ⟨fun j => ?_, fun _ j => ⟨?_, hpk.unwritten j⟩, fun k hk => ?_,
        fun _ j case hc => (hpk.registered j case hc).1⟩
      · dsimp only
        split_ifs with hj
        · rw [Select.cleared, if_pos (hlose j hj).2.2]
        · exact hpk.unregistered j (by simpa using hj)
      · have hv : ((w.selects sel).registrations j).valueTaken = false := by
          by_contra hx
          cases (hpk.untaken j (by simpa using hx)).1
        dsimp only
        unfold Select.cleared
        split_ifs
        · exact hv
        · exact hv
        · exact hv
      · replace hk : (w.selects sel).winner = some k := hk
        rw [hpk.winner] at hk
        cases hk
    have hlt : sel < w.selectCount := by
      by_contra hge
      have := hpk.phase
      rw [h.parties.freshSelect sel (Nat.not_lt.mp hge)] at this
      cases this
    have hp : u.Parties none none := by
      refine h.parties.without hq rfl rfl rfl (fun _ _ => rfl)
        (fun t ht => hother fun hx => ht (by rw [hx])) (by simp)
        (fun t ht => ?_) fun _ _ => rfl
      cases ht
      exact ⟨hlt, hrest, by rw [hsel]; exact h.parties.scheduled sel⟩
    refine ⟨u, destroyRegistrations_eq List.nodup_range hlose, ⟨hp, h.lines.mono
      (fun c d s hs => ?_) fun _ _ _ => ⟨rfl, rfl, rfl⟩, ⟨h.flow.fifo, h.flow.ended⟩⟩,
      ⟨rfl, rfl, fun t => ?_, fun hx => Reported.setSelect hx (hx.2 sel)⟩⟩
    · exact List.mem_of_mem_filter hs
    · by_cases ht : t = sel
      · rw [ht, hsel]
        exact ⟨rfl, fun _ hx => hx, id, id, (absurd rfl ·)⟩
      · rw [hother ht]
        exact .refl _
  · exact ⟨w, destroyRegistrations_unqueued hrest.unqueued, h, .refl w⟩

end World

end Alyrn.Coro
