import Alyrn.Uring.Loop

/-!
# One turn of `RunReady`

`RunReady` runs works until it has run `kMaxReadyWorkPerTurn` of them or both queues are empty.
A running work appends whatever it likes to either queue, so the turn is a loop against an
adversary: `behave` answers the works run so far with what the last of them appends.

The turn is recorded as it goes: which works ran and from which queue, whether ordinary work was
waiting when each was picked, and which works arrived in the queues meanwhile. `Fair` is the
invariant of the loop; `run_ready_fair` reads the bounds off it at the end of the turn.
Over many turns no ordinary work is starved by completion works (`ready_work_runs`).
-/

namespace Alyrn.Uring

inductive WorkQueue where
  | completionReady
  | ready
  deriving DecidableEq, Repr

structure Push (ω : Type) where
  queue : WorkQueue
  work : ω
  deriving DecidableEq, Repr

/-- A work that the turn has run, and whether ordinary work was waiting when it was picked. -/
structure Ran (ω : Type) where
  queue : WorkQueue
  work : ω
  readyWaiting : Bool
  deriving DecidableEq, Repr

namespace WorkQueues

variable {ω : Type} (q : WorkQueues ω)

def contents : WorkQueue → List ω
  | .completionReady => q.completionReady
  | .ready => q.ready

def runCompletion (completionResumed : ℕ) : Bool :=
  q.completionReady ≠ [] ∧ (q.ready = [] ∨ completionResumed < maxCompletionWorkPerTurn)

def source : WorkQueue :=
  match q.turn with
  | .runReady _ completionResumed =>
    if q.runCompletion completionResumed then .completionReady else .ready
  | _ => .completionReady

end WorkQueues

structure ReadyTurn (ω : Type) where
  queues : WorkQueues ω
  ran : List (Ran ω) := []
  arrived : List (Push ω) := []
  deriving Repr

namespace ReadyTurn

variable {ω : Type}

def start (q : WorkQueues ω) : ReadyTurn ω := { queues := { q with turn := .runReady 0 0 } }

variable (t : ReadyTurn ω)

/-- The works of one queue that the turn has run, in the order in which they ran. -/
def ranFrom (k : WorkQueue) : List ω := (t.ran.filter (·.queue = k)).map (·.work)

/-- The works that have arrived in one queue, in the order of their arrival. -/
def arrivedAt (k : WorkQueue) : List ω := (t.arrived.filter (·.queue = k)).map (·.work)

/-- The completion works that were picked while ordinary work was waiting. -/
def contended : ℕ := (t.ran.filter fun r => r.queue = .completionReady ∧ r.readyWaiting).length

def picked (w : ω) (q : WorkQueues ω) : ReadyTurn ω :=
  { t with queues := q, ran := t.ran ++ [⟨t.queues.source, w, t.queues.ready ≠ []⟩] }

def push [DecidableEq ω] (t : ReadyTurn ω) (p : Push ω) : ReadyTurn ω :=
  { t with
    queues := match p.queue with
      | .completionReady => t.queues.scheduleCompletion p.work
      | .ready => t.queues.schedule p.work
    arrived := if t.queues.linked p.work then t.arrived else t.arrived ++ [p] }

/-- The loop of `RunReady`, with the number of works that the turn may still run. -/
def loop [DecidableEq ω] (behave : List ω → List (Push ω)) : ℕ → ReadyTurn ω → ReadyTurn ω
  | 0, t => t
  | n + 1, t =>
    match t.queues.next with
    | none => t
    | some (w, q) =>
      let t := t.picked w q
      loop behave n ((behave (t.ran.map (·.work))).foldl push t)

end ReadyTurn

/-- `RunReady` against works that behave as `behave` says. -/
def WorkQueues.runReady {ω : Type} [DecidableEq ω] (q : WorkQueues ω)
    (behave : List ω → List (Push ω)) : ReadyTurn ω :=
  (ReadyTurn.start q).loop behave maxReadyWorkPerTurn

/-! ## What one pass of the loop does -/

namespace ReadyTurn

variable {ω : Type} {t : ReadyTurn ω} {k : WorkQueue} {r c : ℕ}

theorem next_source {q q' : WorkQueues ω} {w : ω} (hq : q.turn = .runReady r c)
    (hn : q.next = some (w, q')) :
    q.contents q.source = w :: q'.contents q.source ∧
      (∀ k, k ≠ q.source → q'.contents k = q.contents k) ∧ r < maxReadyWorkPerTurn ∧
      q'.turn = .runReady (r + 1) (if q.source = .completionReady then c + 1 else c) ∧
      (q.source = .completionReady → q.ready ≠ [] → c < maxCompletionWorkPerTurn) := by
  obtain ⟨cs, rs, turn⟩ := q
  subst hq
  rcases cs with _ | ⟨w', ws⟩ <;> rcases rs with _ | ⟨u, us⟩ <;>
    simp only [WorkQueues.next, reduceCtorEq, Option.ite_none_right_eq_some] at hn
  · obtain ⟨hr, hn⟩ := hn
    cases hn
    refine ⟨rfl, fun k hk => ?_, hr, rfl, nofun⟩
    cases k <;> simp_all [WorkQueues.source, WorkQueues.runCompletion, WorkQueues.contents]
  · obtain ⟨hr, hn⟩ := hn
    cases hn
    refine ⟨rfl, fun k hk => ?_, hr, rfl, fun _ h => absurd rfl h⟩
    cases k <;> simp_all [WorkQueues.source, WorkQueues.runCompletion, WorkQueues.contents]
  · obtain ⟨hr, hn⟩ := hn
    have hs : (WorkQueues.mk (w' :: ws) (u :: us) (.runReady r c)).source =
        if c < maxCompletionWorkPerTurn then .completionReady else .ready := by
      simp [WorkQueues.source, WorkQueues.runCompletion]
    rw [hs]
    by_cases hc : c < maxCompletionWorkPerTurn
    · rw [if_pos hc] at hn ⊢
      cases hn
      refine ⟨rfl, fun k hk => ?_, hr, rfl, fun _ _ => hc⟩
      cases k <;> simp_all [WorkQueues.contents]
    · rw [if_neg hc] at hn ⊢
      cases hn
      refine ⟨rfl, fun k hk => ?_, hr, rfl, nofun⟩
      cases k <;> simp_all [WorkQueues.contents]

theorem empty_of_next_none {q : WorkQueues ω} (hq : q.turn = .runReady r c)
    (hr : r < maxReadyWorkPerTurn) (hn : q.next = none) (k : WorkQueue) : q.contents k = [] := by
  obtain ⟨cs, rs, turn⟩ := q
  subst hq
  rcases cs with _ | ⟨w, ws⟩ <;> rcases rs with _ | ⟨u, us⟩
  · cases k <;> rfl
  · simp [WorkQueues.next, hr] at hn
  · simp [WorkQueues.next, hr] at hn
  · simp only [WorkQueues.next, hr, if_true] at hn
    split_ifs at hn

theorem ranFrom_picked (t : ReadyTurn ω) (w : ω) (q : WorkQueues ω) (k : WorkQueue) :
    (t.picked w q).ranFrom k = t.ranFrom k ++ if t.queues.source = k then [w] else [] := by
  by_cases hk : t.queues.source = k <;> simp [picked, ranFrom, List.filter_append, hk]

theorem contended_picked (t : ReadyTurn ω) (w : ω) (q : WorkQueues ω) :
    (t.picked w q).contended = t.contended +
      if t.queues.source = .completionReady ∧ t.queues.ready ≠ [] then 1 else 0 := by
  by_cases hk : t.queues.source = .completionReady ∧ t.queues.ready ≠ [] <;>
    simp_all [picked, contended, List.filter_append]

theorem length_ran (t : ReadyTurn ω) :
    t.ran.length = (t.ranFrom .completionReady).length + (t.ranFrom .ready).length := by
  simp only [ranFrom, List.length_map]
  induction t.ran with
  | nil => rfl
  | cons r rs ih => rcases r with ⟨_ | _, w, b⟩ <;> simp [ih] <;> omega

theorem next_eq_none {q : WorkQueues ω} (hq : q.turn = .runReady r c)
    (h : r = maxReadyWorkPerTurn ∨ ∀ k, q.contents k = []) : q.next = none := by
  cases hn : q.next with
  | none => rfl
  | some p =>
    obtain ⟨hfront, -, hr, -, -⟩ := next_source hq hn
    rcases h with h | h
    · omega
    · rw [h] at hfront
      exact absurd hfront (by simp)

/-! ## The invariant of the loop -/

structure Fair (q : WorkQueues ω) (t : ReadyTurn ω) : Prop where
  turn : t.queues.turn = .runReady t.ran.length (t.ranFrom .completionReady).length
  le : t.ran.length ≤ maxReadyWorkPerTurn
  fifo : ∀ k, t.ranFrom k ++ t.queues.contents k = q.contents k ++ t.arrivedAt k
  contended_le : t.contended ≤ (t.ranFrom .completionReady).length
  contended_max : t.contended ≤ maxCompletionWorkPerTurn
  /-- Ordinary work of the beginning is waiting until all of it has run, and meanwhile the
  completion works keep to their share. -/
  share : (t.ranFrom .ready).length < q.ready.length →
    (t.ranFrom .completionReady).length ≤ maxCompletionWorkPerTurn

namespace Fair

variable {q : WorkQueues ω}

theorem start (q : WorkQueues ω) : Fair q (start q) where
  turn := rfl
  le := Nat.zero_le _
  fifo k := by cases k <;> simp [ReadyTurn.start, ranFrom, arrivedAt, WorkQueues.contents]
  contended_le := Nat.le_refl _
  contended_max := Nat.zero_le _
  share _ := Nat.zero_le _

theorem ready_ne_nil (h : Fair q t) (hk : (t.ranFrom .ready).length < q.ready.length) :
    t.queues.ready ≠ [] := by
  intro hr
  have := congrArg List.length (h.fifo .ready)
  simp only [WorkQueues.contents, hr, List.length_append, List.length_nil] at this
  omega

theorem pick (h : Fair q t) {w : ω} {q' : WorkQueues ω} (hn : t.queues.next = some (w, q')) :
    Fair q (t.picked w q') := by
  obtain ⟨hfront, hother, hr, hturn, hshare⟩ := next_source h.turn hn
  have hran := ranFrom_picked t w q'
  have hcon := contended_picked t w q'
  have hlen : (t.picked w q').ran.length = t.ran.length + 1 := by simp [picked]
  refine ⟨?_, hlen ▸ hr, fun k => ?_, ?_, ?_, fun hk => ?_⟩
  · rw [hlen, hran]
    refine hturn.trans ?_
    by_cases hs : t.queues.source = .completionReady <;> simp [hs]
  · rw [hran]
    refine Eq.trans ?_ (h.fifo k)
    by_cases hk : t.queues.source = k
    · subst hk
      simp [hfront, picked]
    · simp [hk, hother k fun h => hk h.symm, picked]
  · rw [hcon, hran]
    have := h.contended_le
    by_cases hs : t.queues.source = .completionReady
    · simp only [hs, true_and, if_true, List.length_append, List.length_singleton]
      split_ifs <;> omega
    · simpa [hs] using this
  · rw [hcon]
    have := h.contended_le
    have := h.contended_max
    split_ifs with hs
    · have := hshare hs.1 hs.2
      omega
    · omega
  · rw [hran] at hk ⊢
    rcases hs : t.queues.source
    · -- a completion work: ordinary work waits, so it is within the share
      have hlt : (t.ranFrom .ready).length < q.ready.length := by simpa [hs] using hk
      have := hshare hs (h.ready_ne_nil hlt)
      simp only [if_true, List.length_append, List.length_singleton]
      omega
    · have hlt : (t.ranFrom .ready).length < q.ready.length := by
        simp only [hs, if_true, List.length_append, List.length_singleton] at hk
        omega
      simpa [hs] using h.share hlt

variable [DecidableEq ω]

theorem push_cases (t : ReadyTurn ω) (p : Push ω) :
    t.push p = t ∨ ((t.push p).ran = t.ran ∧ (t.push p).arrived = t.arrived ++ [p] ∧
      (t.push p).queues.turn = t.queues.turn ∧ ∀ k, (t.push p).queues.contents k =
        t.queues.contents k ++ if p.queue = k then [p.work] else []) := by
  obtain ⟨k, w⟩ := p
  by_cases hl : t.queues.linked w
  · left
    cases k <;>
      simp [ReadyTurn.push, WorkQueues.schedule, WorkQueues.scheduleCompletion, hl]
  · right
    refine ⟨rfl, by simp [ReadyTurn.push, hl], ?_, fun j => ?_⟩
    · cases k <;> simp [ReadyTurn.push, WorkQueues.schedule, WorkQueues.scheduleCompletion, hl]
    · cases k <;> cases j <;>
        simp [ReadyTurn.push, WorkQueues.schedule, WorkQueues.scheduleCompletion, hl,
          WorkQueues.contents]

theorem push (h : Fair q t) (p : Push ω) : Fair q (t.push p) := by
  rcases push_cases t p with hp | ⟨hran, harr, hturn, hcont⟩
  · rw [hp]
    exact h
  · have hfrom : ∀ k, (t.push p).ranFrom k = t.ranFrom k := fun k => by rw [ranFrom, hran]; rfl
    have hcon : (t.push p).contended = t.contended := by rw [contended, hran]; rfl
    refine ⟨?_, hran ▸ h.le, fun k => ?_, ?_, hcon ▸ h.contended_max, fun hk => ?_⟩
    · rw [hturn, hran, hfrom]
      exact h.turn
    · rw [hfrom, hcont, arrivedAt, harr, ← List.append_assoc, h.fifo]
      by_cases hk : p.queue = k <;> simp [arrivedAt, hk]
    · rw [hcon, hfrom]
      exact h.contended_le
    · exact h.share hk

theorem pushes (h : Fair q t) (ps : List (Push ω)) : Fair q (ps.foldl ReadyTurn.push t) := by
  induction ps generalizing t with
  | nil => exact h
  | cons p ps ih => exact ih (h.push p)

theorem ran_pushes (t : ReadyTurn ω) (ps : List (Push ω)) :
    (ps.foldl ReadyTurn.push t).ran = t.ran := by
  induction ps generalizing t with
  | nil => rfl
  | cons p ps ih =>
    rw [List.foldl_cons, ih]
    rfl

theorem loop (behave : List ω → List (Push ω)) {n : ℕ} (h : Fair q t)
    (hn : t.ran.length + n = maxReadyWorkPerTurn) :
    Fair q (t.loop behave n) ∧ ((t.loop behave n).ran.length = maxReadyWorkPerTurn ∨
      ∀ k, (t.loop behave n).queues.contents k = []) := by
  induction n generalizing t with
  | zero =>
    rw [ReadyTurn.loop]
    exact ⟨h, .inl hn⟩
  | succ n ih =>
    unfold ReadyTurn.loop
    cases hnext : t.queues.next with
    | none =>
      exact ⟨h, .inr (empty_of_next_none h.turn (by omega) hnext)⟩
    | some r =>
      refine ih ((h.pick hnext).pushes _) ?_
      rw [ran_pushes]
      simp only [picked, List.length_append, List.length_singleton]
      omega

end Fair

end ReadyTurn

/-! ## The turn -/

variable {ω : Type} [DecidableEq ω]

/-- **Bounded priority.** Whatever the works append, a turn runs at most `kMaxReadyWorkPerTurn`
works, each queue in its order; completion works take at most their share while ordinary work
waits, so that the ordinary works of the beginning get the rest of the turn; and the turn ends
early only with both queues empty. -/
theorem run_ready_fair (q : WorkQueues ω) (behave : List ω → List (Push ω)) :
    (q.runReady behave).ran.length ≤ 256 ∧
    (∀ k, (q.runReady behave).ranFrom k ++ (q.runReady behave).queues.contents k =
      q.contents k ++ (q.runReady behave).arrivedAt k) ∧
    (q.runReady behave).contended ≤ 64 ∧
    q.ready.take (min q.ready.length 192) <+: (q.runReady behave).ranFrom .ready ∧
    ((q.runReady behave).ran.length < 256 →
      (q.runReady behave).queues.completionReady = [] ∧
        (q.runReady behave).queues.ready = []) := by
  obtain ⟨h, hend⟩ := (ReadyTurn.Fair.start q).loop behave (n := maxReadyWorkPerTurn)
    (by simp [ReadyTurn.start])
  rw [← WorkQueues.runReady] at h hend
  refine ⟨h.le, h.fifo, h.contended_max, ?_, fun hlt => ?_⟩
  · have hpre : (q.runReady behave).ranFrom .ready <+:
        q.ready ++ (q.runReady behave).arrivedAt .ready := ⟨_, h.fifo .ready⟩
    refine List.prefix_of_prefix_length_le
      ((List.take_prefix _ _).trans (List.prefix_append _ _)) hpre ?_
    rw [List.length_take]
    by_cases hk : ((q.runReady behave).ranFrom .ready).length < q.ready.length
    · have hfull : (q.runReady behave).ran.length = maxReadyWorkPerTurn :=
        hend.resolve_right fun hx => h.ready_ne_nil hk (hx .ready)
      have hsum := ReadyTurn.length_ran (q.runReady behave)
      have hshare := h.share hk
      simp only [maxReadyWorkPerTurn, maxCompletionWorkPerTurn] at hfull hshare
      omega
    · omega
  · rcases hend with hend | hend
    · exact absurd hend (Nat.ne_of_lt hlt)
    · exact ⟨hend .completionReady, hend .ready⟩

/-! ## Turn after turn -/

/-- The turns of a loop. Between two of them works join the ready queue; what happens to the
completion works is left open. -/
inductive Turns : WorkQueues ω → List (ReadyTurn ω) → Prop
  | nil (q : WorkQueues ω) : Turns q []
  | cons {q q' : WorkQueues ω} {ts : List (ReadyTurn ω)} (behave : List ω → List (Push ω))
      (new : List ω) (hready : q'.ready = (q.runReady behave).queues.ready ++ new)
      (h : Turns q' ts) : Turns q (q.runReady behave :: ts)

theorem runReady_or_nearer {q : WorkQueues ω} (behave : List ω → List (Push ω)) {i : ℕ} {w : ω}
    (hw : q.ready[i]? = some w) :
    w ∈ (q.runReady behave).ranFrom .ready ∨
      ∃ j, j + 192 ≤ i ∧ (q.runReady behave).queues.ready[j]? = some w := by
  obtain ⟨h, hend⟩ := (ReadyTurn.Fair.start q).loop behave (n := maxReadyWorkPerTurn)
    (by simp [ReadyTurn.start])
  rw [← WorkQueues.runReady] at h hend
  have hi := (List.getElem?_eq_some_iff.mp hw).1
  have hat : ((q.runReady behave).ranFrom .ready ++ (q.runReady behave).queues.ready)[i]? =
      some w := by
    have hfifo : _ ++ (q.runReady behave).queues.ready = q.ready ++ _ := h.fifo .ready
    rw [hfifo, List.getElem?_append_left hi]
    exact hw
  by_cases hk : i < ((q.runReady behave).ranFrom .ready).length
  · left
    rw [List.getElem?_append_left hk] at hat
    exact List.mem_of_getElem? hat
  · right
    rw [List.getElem?_append_right (by omega)] at hat
    refine ⟨_, ?_, hat⟩
    -- work of the beginning is left, so the turn was full and the completion works kept their share
    have hlt : ((q.runReady behave).ranFrom .ready).length < q.ready.length := by omega
    have hfull : (q.runReady behave).ran.length = maxReadyWorkPerTurn :=
      hend.resolve_right fun hx => h.ready_ne_nil hlt (hx .ready)
    have hsum := ReadyTurn.length_ran (q.runReady behave)
    have hshare := h.share hlt
    simp only [maxReadyWorkPerTurn, maxCompletionWorkPerTurn] at hfull hshare
    omega

/-- **No starvation.** Whatever the works of all turns append, and whatever joins the queues between
the turns, an ordinary work with `i` works before it runs within `i / 192 + 1` turns. -/
theorem ready_work_runs {q : WorkQueues ω} {ts : List (ReadyTurn ω)} {i : ℕ} {w : ω}
    (h : Turns q ts) (hw : q.ready[i]? = some w) (hi : i / 192 < ts.length) :
    ∃ t ∈ ts, w ∈ t.ranFrom .ready := by
  induction h generalizing i with
  | nil => exact absurd hi (by simp)
  | cons behave new hready _ ih =>
    rcases runReady_or_nearer behave hw with hran | ⟨j, hj, hnear⟩
    · exact ⟨_, List.mem_cons_self, hran⟩
    · have hpos := (List.getElem?_eq_some_iff.mp hnear).1
      rw [← List.getElem?_append_left hpos, ← hready] at hnear
      rw [List.length_cons] at hi
      obtain ⟨t, ht, hran⟩ := ih hnear (by omega)
      exact ⟨t, List.mem_cons_of_mem _ ht, hran⟩

theorem ready_work_runs_second :
    ∃ ts, ts.length = 2 ∧ Turns (⟨[7], List.range 200, .poll⟩ : WorkQueues ℕ) ts ∧
      ∃ t ∈ ts, 199 ∈ t.ranFrom .ready := by
  have two (q : WorkQueues ℕ) (behave : List ℕ → List (Push ℕ)) :
      Turns q [q.runReady behave, (q.runReady behave).queues.runReady behave] :=
    .cons behave [] (List.append_nil _).symm (.cons behave [] rfl (.nil ⟨[], _, .poll⟩))
  have hts := two ⟨[7], List.range 200, .poll⟩ fun _ => [⟨.completionReady, 7⟩]
  exact ⟨_, rfl, hts, ready_work_runs (i := 199) hts (by simp) (by simp)⟩

/-! ## The turn as a run of the loop -/

namespace Loop

variable {l : Loop} {t : ReadyTurn ℕ}

def withTurn (l : Loop) (t : ReadyTurn ℕ) : Loop := { l with queues := t.queues }

theorem Reaches.pushes (ha : l.aborted = false) (hu : t.queues.inUserCode = true)
    (h : system.Reaches (l.withTurn t)) (ps : List (Push ℕ)) :
    system.Reaches (l.withTurn (ps.foldl ReadyTurn.push t)) := by
  induction ps generalizing t with
  | nil => exact h
  | cons p ps ih =>
    have huser : (l.withTurn t).inUserCode = true := by simp [inUserCode, withTurn, hu]
    have halive : ¬ (l.withTurn t).aborted = true := by simp [withTurn, ha]
    refine ih ?_ ?_
    · rcases ReadyTurn.Fair.push_cases t p with hp | ⟨-, -, hturn, -⟩
      · rw [hp]
        exact hu
      · rw [WorkQueues.inUserCode, hturn]
        exact hu
    · obtain ⟨k, w⟩ := p
      cases k with
      | completionReady =>
        exact h.step (a := .scheduleCompletion w) trivial ((if_neg halive).trans (if_pos huser))
      | ready =>
        exact h.step (a := .schedule w) trivial ((if_neg halive).trans (if_pos huser))

theorem Reaches.loop (ha : l.aborted = false) {q : WorkQueues ℕ} (ht : t.Fair q)
    (h : system.Reaches (l.withTurn t)) (behave : List ℕ → List (Push ℕ)) (n : ℕ) :
    system.Reaches (l.withTurn (t.loop behave n)) := by
  induction n generalizing t with
  | zero => exact h
  | succ n ih =>
    unfold ReadyTurn.loop
    cases hnext : t.queues.next with
    | none => exact h
    | some r =>
      have hpick := ht.pick hnext
      refine ih (hpick.pushes _) (Reaches.pushes ha ?_ ?_ _)
      · rw [WorkQueues.inUserCode, hpick.turn]
        simp [ReadyTurn.picked]
      · refine h.step (a := .runNext) trivial ?_
        simp [system, step, withTurn, ha, hnext, ReadyTurn.picked]

theorem Reaches.runReady (h : system.Reaches l) (ha : l.aborted = false) (hrest : l.atRest = true)
    (hstage : l.stage = .running ∨ l.stage = .draining ∨ l.stage = .readying)
    (behave : List ℕ → List (Push ℕ)) :
    system.Reaches { l with
      queues := { (l.queues.runReady behave).queues with turn := .poll } } := by
  have hstart : system.Reaches (l.withTurn (.start l.queues)) := by
    refine h.step (a := .runReady) trivial ?_
    simp [system, step, ha, hrest, hstage, withTurn, ReadyTurn.start]
  obtain ⟨hfair, hend⟩ := (ReadyTurn.Fair.start l.queues).loop behave (n := maxReadyWorkPerTurn)
    (by simp [ReadyTurn.start])
  rw [← WorkQueues.runReady] at hfair hend
  refine (Reaches.loop ha (.start _) hstart behave maxReadyWorkPerTurn).step (a := .advance)
    trivial ?_
  rw [← WorkQueues.runReady]
  have hnone := ReadyTurn.next_eq_none hfair.turn hend
  simp [system, step, withTurn, ha, WorkQueues.advance, hfair.turn, hnone]

end Loop

end Alyrn.Uring
