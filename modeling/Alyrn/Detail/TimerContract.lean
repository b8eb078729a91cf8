import Mathlib.Data.List.Nodup
import Mathlib.Tactic.Common
import Alyrn.Detail.TimerIndex
import Alyrn.Lib.History
import Alyrn.Lib.Transition

/-!
# The timer contract

What a program may rely on when it uses the timer queue of either backend, as a law of the events
it sees: timers are added and cancelled, rounds open and close, and in a round the callbacks of due
timers start and return. A callback may add timers and cancel any of them, its own included.

`TimerService` is the least machine that produces these events: it only says which timers are
registered and which one is running. Its histories keep the contract (`TimerService.lawful`). That a
round runs no more callbacks than timers were due when it opened is promised only as long as its
callbacks add timers that are due after it (`TimerEvent.AddsLater`).
-/

namespace Alyrn.Detail

/-- What an observer of a timer queue sees. -/
inductive TimerEvent where
  /-- `AddTimer` has accepted the timer. -/
  | added (t : Timer)
  | cancelled (sequence : ℕ)
  /-- A round begins: it reads the clock as `now`, when `due` timers are due. -/
  | opened (now due : ℕ)
  /-- The callback of `t` starts at time `clock`. -/
  | started (t : Timer) (clock : ℕ)
  /-- The callback of `t` has returned in the round of `now`; `again` is the timer's new entry. -/
  | returned (now : ℕ) (t : Timer) (again : Option Timer)
  | closed
  | discarded
  deriving DecidableEq, Repr

namespace TimerEvent

def starts : TimerEvent → Option ℕ
  | .started t _ => some t.sequence
  | _ => none

/-- The clock reading of the round that opens, and the number of timers due in it. -/
def opens : TimerEvent → Option (ℕ × ℕ)
  | .opened now due => some (now, due)
  | _ => none

variable (e : TimerEvent) (l : List TimerEvent)

def sinceOpening : List TimerEvent := l.takeWhile (·.opens.isNone)

def sinceStart : List TimerEvent := l.takeWhile (·.starts.isNone)

def callbacks : ℕ := l.countP (·.starts.isSome)

/-- The timers added since the last round opened are due after `now`. -/
def AddsLater (now : ℕ) : Prop := ∀ t, .added t ∈ sinceOpening l → now < t.expiration

/-- The timer was cancelled after it was added. -/
def Revoked (sequence : ℕ) : Prop :=
  ∃ past, (.cancelled sequence :: past) <:+ l ∧ ∃ t, .added t ∈ past ∧ t.sequence = sequence

variable {e l}

theorem sinceOpening_cons : sinceOpening (e :: l) =
    if e.opens.isNone then e :: sinceOpening l else [] := List.takeWhile_cons

theorem AddsLater.of_cons {now : ℕ} (h : AddsLater (e :: l) now) (ho : e.opens = none) :
    AddsLater l now := fun t ht => h t <| by
  rw [sinceOpening_cons, ho]
  exact List.mem_cons_of_mem _ ht

theorem sinceStart_cons : sinceStart (e :: l) =
    if e.starts.isNone then e :: sinceStart l else [] := List.takeWhile_cons

theorem callbacks_cons : callbacks (e :: l) = callbacks l + if e.starts.isSome then 1 else 0 :=
  List.countP_cons

theorem revoked_cons {sequence : ℕ} : Revoked (e :: l) sequence ↔
    (e = .cancelled sequence ∧ ∃ t, .added t ∈ l ∧ t.sequence = sequence) ∨
      Revoked l sequence := by
  constructor
  · rintro ⟨past, hs, ht⟩
    rcases List.suffix_cons_iff.mp hs with heq | hs
    · obtain ⟨rfl, rfl⟩ := List.cons.inj heq
      exact .inl ⟨rfl, ht⟩
    · exact .inr ⟨past, hs, ht⟩
  · rintro (⟨rfl, ht⟩ | ⟨past, hs, ht⟩)
    · exact ⟨l, List.suffix_rfl, ht⟩
    · exact ⟨past, hs.trans (List.suffix_cons _ _), ht⟩

end TimerEvent

open TimerEvent

/-! ## The contract -/

/-- What holds when the callback of `t` starts at time `clock`. -/
structure StartLaw (past : List TimerEvent) (t : Timer) (clock : ℕ) : Prop where
  added : ∃ t₀, .added t₀ ∈ past ∧ t₀.sequence = t.sequence ∧ t₀.interval = t.interval
  notEarly : t.expiration ≤ clock
  oneShot : ∀ t₀ c₀, .started t₀ c₀ ∈ past → t₀.repeats = false → t₀.sequence ≠ t.sequence
  notRevoked : ¬ Revoked past t.sequence
  oncePerRound : ∀ t₀ c₀, .started t₀ c₀ ∈ sinceOpening past → t₀.sequence ≠ t.sequence
  /-- The round runs no more callbacks than timers were due when it opened, as long as it adds none
  that are due in it. -/
  bounded : ∃ now due, past.findSome? opens = some (now, due) ∧
    (AddsLater past now → callbacks (sinceOpening past) < due)

/-- What holds when the callback of `t` returns in the round of `now`: it was the last to start, and
a repeating timer that was not cancelled meanwhile is entered again, after the round's time. -/
structure ReturnLaw (past : List TimerEvent) (now : ℕ) (t : Timer) (again : Option Timer) :
    Prop where
  last : past.findSome? starts = some t.sequence
  restarted : t.repeats = true → .cancelled t.sequence ∉ sinceStart past →
    ∃ t', again = some t' ∧ t'.sequence = t.sequence ∧ t'.interval = t.interval ∧
      now < t'.expiration

/-- What the contract demands of an event, given the past. -/
def TimerLaw (past : List TimerEvent) : TimerEvent → Prop
  | .started t clock => StartLaw past t clock
  | .returned now t again => ReturnLaw past now t again
  | _ => True

/-- **The timer contract**, for a queue that has the timers `active` registered and the timers
`index` in its index. -/
structure TimerContract (active index : List Timer) (l : List TimerEvent) : Prop where
  registered : active.Perm index
  distinct : (active.map (·.sequence)).Nodup
  lawful : History.Keeps TimerLaw l

/-! ## The machine behind the contract -/

/-- The abstract timer queue. -/
structure TimerService where
  registered : List Timer := []
  round : Option ℕ := none
  running : Option Timer := none
  cancelled : Bool := false
  nextSequence : ℕ := 0

namespace TimerService

variable (s : TimerService)

def without (sequence : ℕ) : List Timer := s.registered.filter (·.sequence ≠ sequence)

/-- The next entry of a repeating timer that was not cancelled. -/
def again (now : ℕ) (t : Timer) : Option Timer :=
  if t.repeats && !s.cancelled then some (t.restart now) else none

def step (e : TimerEvent) (s : TimerService) : Option TimerService :=
  match e with
  | .added t =>
    if s.nextSequence ≤ t.sequence then
      some { s with registered := t :: s.registered, nextSequence := t.sequence + 1 }
    else none
  | .cancelled sequence =>
    some { s with registered := s.without sequence
                  cancelled := s.cancelled || s.running.any (·.sequence = sequence) }
  | .opened now due =>
    if s.round = none ∧ due = s.registered.countP (·.expiration ≤ now) then
      some { s with round := some now }
    else none
  | .started t clock =>
    if s.running = none ∧ t ∈ s.registered ∧
        s.round.any (fun now => t.expiration ≤ now ∧ now ≤ clock) then
      some { s with registered := s.without t.sequence, running := some t, cancelled := false }
    else none
  | .returned now t again =>
    if s.round = some now ∧ s.running = some t ∧ again = s.again now t then
      some { s with registered := again.toList ++ s.registered, running := none }
    else none
  | .closed => if s.running = none then some { s with round := none } else none
  | .discarded => some { s with registered := [] }

def system : Transition.System TimerService TimerEvent where
  init s := s.registered = [] ∧ s.round = none ∧ s.running = none
  step := step

/-! ## What the history says of the state -/

variable {s} {l : List TimerEvent}

/-- The state agrees with the events so far. -/
structure Recorded (s : TimerService) (l : List TimerEvent) : Prop where
  nodup : ((s.running.toList ++ s.registered).map (·.sequence)).Nodup
  known : ∀ t ∈ s.running.toList ++ s.registered,
    ∃ t₀, .added t₀ ∈ l ∧ t₀.sequence = t.sequence ∧ t₀.interval = t.interval
  addedBelow : ∀ t, .added t ∈ l → t.sequence < s.nextSequence
  startedBelow : ∀ t c, .started t c ∈ l → t.sequence < s.nextSequence
  spent : ∀ t c, .started t c ∈ l → t.repeats = false →
    (∀ u ∈ s.registered, t.sequence ≠ u.sequence) ∧
      ∀ u ∈ s.running, t.sequence = u.sequence → u.repeats = false
  revoked : ∀ id, Revoked l id → (∀ u ∈ s.registered, u.sequence ≠ id) ∧
    ∀ t ∈ s.running, t.sequence = id → s.cancelled = true
  running : ∀ t ∈ s.running, l.findSome? starts = some t.sequence ∧
    (s.cancelled = true → .cancelled t.sequence ∈ sinceStart l)
  ran : ∀ now ∈ s.round, ∀ t c, .started t c ∈ sinceOpening l → ∀ u ∈ s.registered,
    t.sequence = u.sequence → now < u.expiration
  bounded : ∀ now ∈ s.round, ∃ due, l.findSome? opens = some (now, due) ∧ (AddsLater l now →
    callbacks (sinceOpening l) + s.registered.countP (·.expiration ≤ now) ≤ due)
  within : s.round = none → s.running = none

namespace Recorded

variable {t : Timer}

theorem sequence_lt (h : Recorded s l)
    (ht : t ∈ s.running.toList ++ s.registered) : t.sequence < s.nextSequence := by
  obtain ⟨t₀, hadd, hseq, -⟩ := h.known t ht
  exact hseq ▸ h.addedBelow t₀ hadd

theorem revoked_lt (h : Recorded s l) {id : ℕ} (hr : Revoked l id) : id < s.nextSequence := by
  obtain ⟨past, hs, t, ht, rfl⟩ := hr
  exact h.addedBelow t (hs.subset (List.mem_cons_of_mem _ ht))

theorem running_ne (h : Recorded s l) {t u : Timer} (ht : t ∈ s.running)
    (hu : u ∈ s.registered) : t.sequence ≠ u.sequence := by
  have hd := h.nodup
  rw [List.map_append, List.nodup_append] at hd
  exact hd.2.2 _ (List.mem_map_of_mem (Option.mem_toList.mpr ht)) _ (List.mem_map_of_mem hu)

theorem nodup_registered (h : Recorded s l) : (s.registered.map (·.sequence)).Nodup := by
  have hd := h.nodup
  rw [List.map_append, List.nodup_append] at hd
  exact hd.2.1

theorem init (h : system.init s) : Recorded s [] := by
  obtain ⟨hreg, hround, hrun⟩ := h
  constructor <;> simp [hreg, hround, hrun, Revoked]

section

variable (h : Recorded s l)
include h

theorem added (ht : s.nextSequence ≤ t.sequence) :
    Recorded { s with registered := t :: s.registered, nextSequence := t.sequence + 1 }
      (.added t :: l) := by
  have hmem {u : Timer} (hu : u ∈ s.running.toList ++ t :: s.registered) :
      u = t ∨ u ∈ s.running.toList ++ s.registered := by
    simp only [List.mem_append, List.mem_cons] at hu ⊢
    tauto
  refine ⟨?_, fun u hu => ?_, fun u hu => ?_, fun u c hu => ?_, fun u c hu hr => ?_,
    fun id hid => ?_, fun u hu => h.running u hu |>.imp_right fun hc hx => ?_,
    fun now hnow u c hu v hv hseq => ?_, fun now hnow => ?_, h.within⟩
  · -- the new timer's sequence is above all others
    have hperm : ((s.running.toList ++ t :: s.registered).map (·.sequence)).Perm
        (t.sequence :: (s.running.toList ++ s.registered).map (·.sequence)) :=
      List.perm_middle.map _
    refine hperm.nodup_iff.mpr (List.nodup_cons.mpr ⟨fun hx => ?_, h.nodup⟩)
    obtain ⟨u, hu, heq⟩ := List.mem_map.mp hx
    have := h.sequence_lt hu
    omega
  · rcases hmem hu with rfl | hu
    · exact ⟨u, List.mem_cons_self, rfl, rfl⟩
    · obtain ⟨t₀, hadd, hrest⟩ := h.known u hu
      exact ⟨t₀, List.mem_cons_of_mem _ hadd, hrest⟩
  · rcases List.mem_cons.mp hu with heq | hu
    · obtain rfl := TimerEvent.added.inj heq
      exact Nat.lt_succ_self _
    · have := h.addedBelow u hu
      show u.sequence < t.sequence + 1
      omega
  · have := h.startedBelow u c (by simpa using hu)
    show u.sequence < t.sequence + 1
    omega
  · have hstart : .started u c ∈ l := by simpa using hu
    refine ⟨fun v hv => ?_, (h.spent u c hstart hr).2⟩
    rcases List.mem_cons.mp hv with rfl | hv
    · have := h.startedBelow u c hstart
      omega
    · exact (h.spent u c hstart hr).1 v hv
  · have hold : Revoked l id := by simpa [revoked_cons] using hid
    refine ⟨fun u hu => ?_, (h.revoked id hold).2⟩
    rcases List.mem_cons.mp hu with rfl | hu
    · have := h.revoked_lt hold
      omega
    · exact (h.revoked id hold).1 u hu
  · exact List.mem_cons_of_mem _ (hc hx)
  · have hstart : .started u c ∈ sinceOpening l := by simpa [sinceOpening_cons, opens] using hu
    rcases List.mem_cons.mp hv with rfl | hv
    · have := h.startedBelow u c (List.takeWhile_subset _ hstart)
      omega
    · exact h.ran now hnow u c hstart v hv hseq
  · obtain ⟨due, hopen, hle⟩ := h.bounded now hnow
    refine ⟨due, hopen, fun hlater => ?_⟩
    have hlt : now < t.expiration := hlater t List.mem_cons_self
    rw [List.countP_cons_of_neg (by simpa using hlt)]
    simpa [sinceOpening_cons, opens, callbacks_cons, starts] using hle (hlater.of_cons rfl)

theorem fewer {ts : List Timer} (hts : ts.Sublist s.registered)
    {e : TimerEvent} (hstart : e.starts = none) (hopen : e.opens = none)
    (hadd : ∀ t, e ≠ .added t) (hcancel : ∀ id, e ≠ .cancelled id) :
    Recorded { s with registered := ts } (e :: l) := by
  have hsub : (s.running.toList ++ ts).Sublist (s.running.toList ++ s.registered) :=
    hts.append_left _
  have hmem {t : Timer} {c : ℕ} (ht : .started t c ∈ e :: l) : .started t c ∈ l := by
    rcases List.mem_cons.mp ht with rfl | ht
    · exact absurd hstart (by simp [starts])
    · exact ht
  refine ⟨h.nodup.sublist (hsub.map _), fun u hu => ?_, fun u hu => ?_,
    fun u c hu => h.startedBelow u c (hmem hu),
    fun u c hu hr => (h.spent u c (hmem hu) hr).imp_left fun hne v hv => hne v (hts.mem hv),
    fun id hid => ?_,
    fun u hu => ?_, fun now hnow u c hu v hv => ?_, fun now hnow => ?_, h.within⟩
  · obtain ⟨t₀, hadd, hrest⟩ := h.known u (hsub.mem hu)
    exact ⟨t₀, List.mem_cons_of_mem _ hadd, hrest⟩
  · rcases List.mem_cons.mp hu with heq | hu
    · exact absurd heq.symm (hadd u)
    · exact h.addedBelow u hu
  · rcases revoked_cons.mp hid with ⟨heq, -⟩ | hid
    · exact absurd heq (hcancel id)
    · exact ⟨fun u hu => (h.revoked id hid).1 u (hts.mem hu), (h.revoked id hid).2⟩
  · rw [List.findSome?_cons_of_isNone (by simp [hstart]), sinceStart_cons, hstart]
    exact (h.running u hu).imp_right fun hc hx => List.mem_cons_of_mem _ (hc hx)
  · rw [sinceOpening_cons, hopen] at hu
    rcases List.mem_cons.mp hu with rfl | hu
    · exact absurd hstart (by simp [starts])
    · exact h.ran now hnow u c hu v (hts.mem hv)
  · obtain ⟨due, hlast, hle⟩ := h.bounded now hnow
    refine ⟨due, by rwa [List.findSome?_cons_of_isNone (by simp [hopen])], fun hlater => ?_⟩
    have := hle (hlater.of_cons hopen)
    have := hts.countP_le (p := (·.expiration ≤ now))
    simp only [sinceOpening_cons, hopen, Option.isNone_none, if_true, callbacks_cons, hstart,
      Option.isSome_none, Bool.false_eq_true, if_false]
    omega

theorem cancelled (id : ℕ) :
    Recorded { s with registered := s.without id
                      cancelled := s.cancelled || s.running.any (·.sequence = id) }
      (.cancelled id :: l) := by
  have hsub : (s.without id).Sublist s.registered := List.filter_sublist
  have hsub' : (s.running.toList ++ s.without id).Sublist (s.running.toList ++ s.registered) :=
    hsub.append_left _
  refine ⟨h.nodup.sublist (hsub'.map _), fun u hu => ?_,
    fun u hu => h.addedBelow u (by simpa using hu),
    fun u c hu => h.startedBelow u c (by simpa using hu),
    fun u c hu hr => (h.spent u c (by simpa using hu) hr).imp_left fun hne v hv =>
      hne v (hsub.mem hv), fun x hx => ?_,
    fun u hu => ⟨(h.running u hu).1, fun hc => ?_⟩, fun now hnow u c hu v hv => ?_,
    fun now hnow => ?_, h.within⟩
  · obtain ⟨t₀, hadd, hrest⟩ := h.known u (hsub'.mem hu)
    exact ⟨t₀, List.mem_cons_of_mem _ hadd, hrest⟩
  · rcases revoked_cons.mp hx with ⟨heq, -⟩ | hx
    · -- the timer just cancelled
      obtain rfl := TimerEvent.cancelled.inj heq
      refine ⟨fun u hu => by simpa using (List.mem_filter.mp hu).2, fun t ht hseq => ?_⟩
      have hrun : s.running = some t := ht
      simp [hrun, hseq]
    · exact ⟨fun u hu => (h.revoked x hx).1 u (hsub.mem hu),
        fun t ht hseq => by simp [(h.revoked x hx).2 t ht hseq]⟩
  · show _ ∈ .cancelled id :: sinceStart l
    rcases Bool.or_eq_true_iff.mp hc with hc | hc
    · exact List.mem_cons_of_mem _ ((h.running u hu).2 hc)
    · have hrun : s.running = some u := hu
      rw [hrun, Option.any_some, decide_eq_true_eq] at hc
      rw [hc]
      exact List.mem_cons_self
  · exact h.ran now hnow u c (by simpa [sinceOpening_cons, opens] using hu) v (hsub.mem hv)
  · obtain ⟨due, hlast, hle⟩ := h.bounded now hnow
    refine ⟨due, hlast, fun hlater => ?_⟩
    have := hle (hlater.of_cons rfl)
    have := hsub.countP_le (p := (·.expiration ≤ now))
    simp only [sinceOpening_cons, opens, Option.isNone_none, if_true, callbacks_cons, starts,
      Option.isSome_none, Bool.false_eq_true, if_false]
    omega

theorem opened (hround : s.round = none) (now : ℕ) :
    Recorded { s with round := some now }
      (.opened now (s.registered.countP (·.expiration ≤ now)) :: l) := by
  have hrun : s.running = none := h.within hround
  refine ⟨h.nodup, fun u hu => ?_, fun u hu => h.addedBelow u (by simpa using hu),
    fun u c hu => h.startedBelow u c (by simpa using hu),
    fun u c hu => h.spent u c (by simpa using hu),
    fun id hid => h.revoked id (by simpa [revoked_cons] using hid),
    fun u hu => absurd (hrun.symm.trans hu) (by simp), fun x hx u c hu => ?_, fun x hx => ?_,
    fun hx => absurd hx (by simp)⟩
  · obtain ⟨t₀, hadd, hrest⟩ := h.known u hu
    exact ⟨t₀, List.mem_cons_of_mem _ hadd, hrest⟩
  · simp [sinceOpening_cons, opens] at hu
  · cases hx
    exact ⟨_, rfl, fun _ => by simp [sinceOpening_cons, opens, callbacks]⟩

theorem started {now clock : ℕ} (hround : s.round = some now)
    (ht : t ∈ s.registered) (hdue : t.expiration ≤ now) :
    Recorded { s with registered := s.without t.sequence, running := some t, cancelled := false }
      (.started t clock :: l) := by
  have hsub : (s.without t.sequence).Sublist s.registered := List.filter_sublist
  have hne {u : Timer} (hu : u ∈ s.without t.sequence) : u.sequence ≠ t.sequence := by
    simpa using (List.mem_filter.mp hu).2
  have hreg : ∀ {u}, u ∈ s.registered → u ∈ s.running.toList ++ s.registered :=
    fun hu => List.mem_append_right _ hu
  have hmem {u : Timer} {c : ℕ} (hu : .started u c ∈ .started t clock :: l) :
      u = t ∨ .started u c ∈ l := by
    rcases List.mem_cons.mp hu with heq | hu
    · exact .inl (TimerEvent.started.inj heq).1
    · exact .inr hu
  refine ⟨?_, fun u hu => ?_, fun u hu => h.addedBelow u (by simpa using hu), fun u c hu => ?_,
    fun u c hu hr => ?_, fun id hid => ?_, fun u hu => ?_, fun x hx u c hu v hv hseq => ?_,
    fun x hx => ?_, fun hx => absurd (hround.symm.trans hx) (by simp)⟩
  · show (t.sequence :: (s.without t.sequence).map (·.sequence)).Nodup
    refine List.nodup_cons.mpr ⟨fun hx => ?_, h.nodup_registered.sublist (hsub.map _)⟩
    obtain ⟨u, hu, heq⟩ := List.mem_map.mp hx
    exact hne hu heq
  · have hu : u ∈ s.registered := by
      rcases List.mem_cons.mp hu with rfl | hu
      · exact ht
      · exact hsub.mem hu
    obtain ⟨t₀, hadd, hrest⟩ := h.known u (hreg hu)
    exact ⟨t₀, List.mem_cons_of_mem _ hadd, hrest⟩
  · rcases hmem hu with rfl | hu
    · exact h.sequence_lt (hreg ht)
    · exact h.startedBelow u c hu
  · refine ⟨fun v hv => ?_, fun v hv hseq => ?_⟩
    · rcases hmem hu with rfl | hu
      · exact (hne hv).symm
      · exact (h.spent u c hu hr).1 v (hsub.mem hv)
    · cases hv
      rcases hmem hu with rfl | hu
      · exact hr
      · exact absurd hseq ((h.spent u c hu hr).1 t ht)
  · have hid : Revoked l id := by simpa [revoked_cons] using hid
    refine ⟨fun u hu => (h.revoked id hid).1 u (hsub.mem hu), fun u hu hseq => ?_⟩
    cases hu
    exact absurd hseq ((h.revoked id hid).1 t ht)
  · cases hu
    exact ⟨rfl, fun hx => absurd hx (by simp)⟩
  · rcases List.mem_cons.mp hu with heq | hu
    · exact absurd hseq ((TimerEvent.started.inj heq).1 ▸ (hne hv).symm)
    · exact h.ran x hx u c hu v (hsub.mem hv) hseq
  · obtain ⟨due, hlast, hle⟩ := h.bounded x hx
    refine ⟨due, hlast, fun hlater => ?_⟩
    have := hle (hlater.of_cons rfl)
    cases hround.symm.trans hx
    -- one callback more, one due timer less
    have hcount : s.registered.countP (·.expiration ≤ now) =
        (s.without t.sequence).countP (·.expiration ≤ now) + 1 := by
      rw [(Timer.perm_cons_filter h.nodup_registered ht).countP_eq,
        List.countP_cons_of_pos (by simpa using hdue)]
      rfl
    simp only [sinceOpening_cons, opens, Option.isNone_none, if_true, callbacks_cons, starts,
      Option.isSome_some]
    omega

theorem returned {now : ℕ} (hround : s.round = some now) (hrun : s.running = some t) :
    Recorded { s with registered := (s.again now t).toList ++ s.registered, running := none }
      (.returned now t (s.again now t) :: l) := by
  have hmem {u : Timer} (hu : u ∈ (s.again now t).toList ++ s.registered) :
      (u = t.restart now ∧ t.repeats = true ∧ s.cancelled = false) ∨ u ∈ s.registered := by
    rcases List.mem_append.mp hu with hu | hu
    · rw [Option.mem_toList, again, Option.ite_none_right_eq_some,
        Bool.and_eq_true, Bool.not_eq_true'] at hu
      exact .inl ⟨(Option.some.inj hu.2).symm, hu.1⟩
    · exact .inr hu
  have htr : t ∈ s.running := hrun
  refine ⟨?_, fun u hu => ?_, fun u hu => h.addedBelow u (by simpa using hu),
    fun u c hu => h.startedBelow u c (by simpa using hu), fun u c hu hr => ?_,
    fun id hid => ?_, fun u hu => absurd hu (by simp), fun x hx u c hu v hv hseq => ?_,
    fun x hx => ?_, fun _ => rfl⟩
  · -- the running timer comes back under its own sequence, or not at all
    refine h.nodup.sublist ?_
    rw [hrun]
    show (List.map _ ((s.again now t).toList ++ s.registered)).Sublist
      (List.map _ ([t] ++ s.registered))
    rw [List.map_append, List.map_append]
    refine List.Sublist.append_right ?_ _
    rw [again]
    split
    · exact .refl _
    · exact List.nil_sublist _
  · obtain ⟨t₀, hadd, hrest⟩ : ∃ t₀, .added t₀ ∈ l ∧ t₀.sequence = u.sequence ∧
        t₀.interval = u.interval := by
      rcases hmem hu with ⟨rfl, -⟩ | hu
      · exact h.known t (List.mem_append_left _ (Option.mem_toList.mpr htr))
      · exact h.known u (List.mem_append_right _ hu)
    exact ⟨t₀, List.mem_cons_of_mem _ hadd, hrest⟩
  · have hu : .started u c ∈ l := by simpa using hu
    refine ⟨fun v hv hseq => ?_, fun v hv => absurd hv (by simp)⟩
    rcases hmem hv with ⟨rfl, hrep, -⟩ | hv
    · have := (h.spent u c hu hr).2 t htr hseq
      exact absurd (hrep.symm.trans this) (by simp)
    · exact (h.spent u c hu hr).1 v hv hseq
  · have hid : Revoked l id := by simpa [revoked_cons] using hid
    refine ⟨fun u hu hseq => ?_, fun u hu => absurd hu (by simp)⟩
    rcases hmem hu with ⟨rfl, -, hc⟩ | hu
    · have := (h.revoked id hid).2 t htr hseq
      exact absurd (hc.symm.trans this) (by simp)
    · exact (h.revoked id hid).1 u hu hseq
  · have hu : .started u c ∈ sinceOpening l := by simpa [sinceOpening_cons, opens] using hu
    cases hround.symm.trans hx
    rcases hmem hv with ⟨rfl, hrep, -⟩ | hv
    · exact t.lt_restart hrep now
    · exact h.ran now hx u c hu v hv hseq
  · obtain ⟨due, hlast, hle⟩ := h.bounded x hx
    cases hround.symm.trans hx
    refine ⟨due, hlast, fun hlater => ?_⟩
    have := hle (hlater.of_cons rfl)
    have hnot : (s.again now t).toList.countP (·.expiration ≤ now) = 0 := by
      rw [again]
      split
      · rename_i hrep
        simpa using t.lt_restart (Bool.and_eq_true_iff.mp hrep).1 now
      · rfl
    simp only [sinceOpening_cons, opens, Option.isNone_none, if_true, callbacks_cons, starts,
      Option.isSome_none, Bool.false_eq_true, if_false, List.countP_append, hnot]
    omega

theorem closed (hrun : s.running = none) : Recorded { s with round := none } (.closed :: l) := by
  have hsame := h.fewer (.refl _) (e := .closed) rfl rfl (by simp) (by simp)
  exact ⟨hsame.1, hsame.2, hsame.3, hsame.4, hsame.5, hsame.6, hsame.7,
    fun x hx => absurd hx (by simp), fun x hx => absurd hx (by simp), fun _ => hrun⟩

theorem startLaw {now clock : ℕ} (hround : s.round = some now)
    (ht : t ∈ s.registered) (hdue : t.expiration ≤ now) (hclock : now ≤ clock) :
    StartLaw l t clock := by
  refine ⟨h.known t (List.mem_append_right _ ht), hdue.trans hclock,
    fun u c hu hr => (h.spent u c hu hr).1 t ht, fun hr => (h.revoked _ hr).1 t ht rfl,
    fun u c hu hseq => ?_, ?_⟩
  · have := h.ran now hround u c hu t ht hseq
    omega
  · obtain ⟨due, hlast, hle⟩ := h.bounded now hround
    have hpos : 0 < s.registered.countP (·.expiration ≤ now) :=
      List.countP_pos_iff.mpr ⟨t, ht, by simpa using hdue⟩
    exact ⟨now, due, hlast, fun hlater => by have := hle hlater; omega⟩

theorem returnLaw {now : ℕ} (hrun : s.running = some t) : ReturnLaw l now t (s.again now t) := by
  obtain ⟨hlast, hcancel⟩ := h.running t hrun
  refine ⟨hlast, fun hrep hnot => ⟨t.restart now, ?_, rfl, rfl, t.lt_restart hrep now⟩⟩
  have hc : s.cancelled = false := by
    by_contra hc
    exact hnot (hcancel (by simpa using hc))
  rw [again, hrep, hc]
  rfl

theorem step {e : TimerEvent} {s' : TimerService}
    (hs : s.step e = some s') : Recorded s' (e :: l) ∧ TimerLaw l e := by
  cases e with
  | added t =>
    obtain ⟨hlt, rfl⟩ := Transition.of_guard hs
    exact ⟨h.added hlt, trivial⟩
  | cancelled id =>
    cases hs
    exact ⟨h.cancelled id, trivial⟩
  | opened now due =>
    obtain ⟨⟨hround, hdue⟩, hs⟩ := Option.ite_none_right_eq_some.mp hs
    cases hs
    exact ⟨hdue ▸ h.opened hround now, trivial⟩
  | started t clock =>
    obtain ⟨⟨-, ht, hround⟩, hs⟩ := Option.ite_none_right_eq_some.mp hs
    obtain ⟨now, hround, hdue⟩ := Option.any_eq_true .. |>.mp hround
    obtain ⟨hdue, hclock⟩ := of_decide_eq_true hdue
    cases hs
    exact ⟨h.started hround ht hdue, h.startLaw hround ht hdue hclock⟩
  | returned now t again =>
    obtain ⟨⟨hround, hrun, hagain⟩, hs⟩ := Option.ite_none_right_eq_some.mp hs
    cases hs
    exact ⟨hagain ▸ h.returned hround hrun, hagain ▸ h.returnLaw hrun⟩
  | closed =>
    obtain ⟨hrun, rfl⟩ := Transition.of_guard hs
    exact ⟨h.closed hrun, trivial⟩
  | discarded =>
    cases hs
    exact ⟨h.fewer (List.nil_sublist _) rfl rfl (by simp) (by simp), trivial⟩

end

end Recorded

/-- **The histories of the machine keep the contract.** -/
theorem lawful (h : system.recorded.Reaches (s, l)) :
    Recorded s l ∧ History.Keeps TimerLaw l := by
  refine Transition.System.ReachesBy.invariant
    (I := fun p => Recorded p.1 p.2 ∧ History.Keeps TimerLaw p.2) (fun p hp => ?_)
    (fun p e p' hI _ hstep => ?_) h
  · rw [hp.2]
    exact ⟨.init hp.1, .nil⟩
  · obtain ⟨hs, hl⟩ := Transition.System.withHistory_step hstep
    obtain ⟨hrec, hlaw⟩ := hI.1.step hs
    rw [hl]
    exact ⟨hrec, hI.2.cons hlaw⟩

end TimerService

end Alyrn.Detail
