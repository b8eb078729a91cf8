import Mathlib.Tactic.Common
import Mathlib.Data.List.Nodup
import Alyrn.Backend.Mailbox

/-!
# The mailbox delivers

What was accepted is what ran, what is being run and what is still queued, in this order. A queue
that is not empty while the loop runs has its wakeup: the post that found it empty has signalled or
is about to, and the owner drains the eventfd only on its way to taking the queue.
-/

namespace Alyrn.Backend.Mailbox

variable {s s' : Mailbox}

/-- What the mailbox promises to its posters. -/
structure Delivers (s : Mailbox) : Prop where
  order : s.ran ++ s.batch ++ s.posted = s.accepted
  once : s.accepted.Nodup
  stopped : s.state = .stopped → s.ran = s.accepted
  closed : s.closed = true → s.post.accepted = s.accepted ∧ s.posts ∈ s.post.rejected
  rejected : ∀ n ∈ s.rejected, n ∉ s.ran
  wakeup : s.state = .running → s.posted ≠ [] →
    s.signalled = true ∨ (∃ n, n ∈ s.posters) ∨ s.control.taking = true
  /-- The wake descriptor is watched whenever the owner is outside the wakeup's handling. -/
  watched : s.state = .running → s.control = .at .main → s.armed = true

/-- The invariant of a run. -/
structure Good (s : Mailbox) : Prop where
  order : s.ran ++ s.batch ++ s.posted = s.accepted
  numbered : (s.accepted ++ s.rejected).Nodup ∧ ∀ n ∈ s.accepted ++ s.rejected, n < s.posts
  batch : s.batch ≠ [] → ∃ r p, s.control = .batch r p
  closed : s.closed = true ↔ s.control = .closed ∨ s.control = .stopped
  empty : s.closed = true → s.posted = []
  stopped : s.state = .stopped ↔ s.control = .stopped
  created : s.state = .running → s.control ≠ .created
  fdOpen : s.fdOpen = true ∨ s.kind = .uring ∧ s.control = .created
  wakeup : s.kind = .epoll ∨ s.control ≠ .created → s.posted ≠ [] →
    s.signalled = true ∨ (∃ n, n ∈ s.posters) ∨ s.control.taking = true
  epollArmed : s.kind = .epoll → s.armed = true
  armed : s.fdOpen = true → s.control = .created ∨ s.control = .take false .main ∨
    s.control = .batch false .main ∨ (s.control = .at .main ∧ s.state = .running) → s.armed = true

theorem Good.delivers (h : Good s) : Delivers s := by
  refine ⟨h.order, (List.nodup_append.mp h.numbered.1).1, fun hs => ?_, fun hc => ?_,
    fun n hn hr => ?_, fun hs hne => h.wakeup (.inr (h.created hs)) hne, fun hs hm => ?_⟩
  · -- the queue was closed empty, and nothing was being run
    have hctl := h.stopped.mp hs
    have hposted := h.empty (h.closed.mpr (.inr hctl))
    have hbatch : s.batch = [] := by
      by_contra hne
      obtain ⟨r, p, hrp⟩ := h.batch hne
      rw [hctl] at hrp
      cases hrp
    have := h.order
    rwa [hbatch, hposted, List.append_nil, List.append_nil] at this
  · simp [post, hc]
  · have hacc : n ∈ s.accepted := by
      rw [← h.order]
      simp [hr]
    exact (List.nodup_append.mp h.numbered.1).2.2 n hacc n hn rfl
  · rcases h.fdOpen with hf | ⟨-, hcr⟩
    · exact h.armed hf (.inr (.inr (.inr ⟨hm, hs⟩)))
    · exact absurd hcr (h.created hs)

/-! ## Posts and signals -/

theorem post_of_closed (hc : s.closed = true) :
    s.post = { s with posts := s.posts + 1, rejected := s.rejected ++ [s.posts] } :=
  if_pos hc

theorem post_of_open (hc : s.closed ≠ true) :
    s.post = { s with posts := s.posts + 1
                      posters := if s.posted.isEmpty then s.posts :: s.posters else s.posters
                      posted := s.posted ++ [s.posts]
                      accepted := s.accepted ++ [s.posts] } :=
  if_neg hc

theorem Good.numbered_succ (h : Good s) {l : List ℕ}
    (hl : l.Perm (s.posts :: (s.accepted ++ s.rejected))) :
    l.Nodup ∧ ∀ n ∈ l, n < s.posts + 1 := by
  obtain ⟨hnd, hlt⟩ := h.numbered
  constructor
  · rw [hl.nodup_iff, List.nodup_cons]
    exact ⟨fun hm => Nat.lt_irrefl _ (hlt _ hm), hnd⟩
  · intro n hn
    rcases List.mem_cons.mp (hl.mem_iff.mp hn) with rfl | hn
    · exact Nat.lt_succ_self _
    · exact Nat.lt_succ_of_lt (hlt n hn)

theorem Good.post (h : Good s) : Good s.post := by
  by_cases hc : s.closed = true
  · rw [post_of_closed hc]
    refine { h with numbered := h.numbered_succ ?_ }
    rw [← List.append_assoc]
    exact List.perm_append_singleton _ _
  · rw [post_of_open hc]
    refine { h with
      order := ?_, numbered := h.numbered_succ ?_, empty := fun hcl => absurd hcl hc,
      wakeup := fun hk _ => ?_ }
    · rw [← List.append_assoc, h.order]
    · rw [List.append_assoc, List.singleton_append]
      exact List.perm_middle
    · -- the post that finds the queue empty is about to signal
      by_cases hp : s.posted = []
      · exact .inr (.inl ⟨s.posts, by simp [hp]⟩)
      · have hne : s.posted.isEmpty = false := by simpa using hp
        simpa [hne] using h.wakeup hk hp

theorem Good.signal (h : Good s) (posters : List ℕ) (stoppers : ℕ) :
    Good { s.wake with posters := posters, stoppers := stoppers } := by
  refine { h with wakeup := fun hk hne => ?_ }
  rcases h.fdOpen with hf | ⟨hu, hcr⟩
  · exact .inl (by simp [Mailbox.wake, hf])
  · -- before `Init` nothing is promised
    rcases hk with hk | hk
    · exact absurd (hk.symm.trans hu) (by simp)
    · exact absurd hcr hk

theorem Good.requestStop (h : Good s) : Good s.requestStop := by
  unfold Mailbox.requestStop
  split_ifs with hs
  · refine { h with stopped := ?_, created := by simp, armed := fun hf hctl => h.armed hf ?_ }
    · -- the loop was not stopped
      have : s.control ≠ .stopped := fun hx => by
        rw [h.stopped.mpr hx] at hs
        simp at hs
      simp [this]
    · simpa using hctl.imp_right fun hx => hx.imp_right fun hy =>
        hy.imp_right fun hz => by simp at hz
  · exact h

/-! ## The owner -/

section

variable (h : Good s) {place : Place}
include h

theorem Good.goTo (hbatch : ∀ r p, s.control ≠ .batch r p)
    (hc : s.closed = false) (hst : s.control ≠ .stopped) (hcr : s.control ≠ .created)
    (htake : s.control.taking = false)
    (harm : place = .main → s.state = .running → s.armed = true) :
    Good { s with control := .at place } := by
  have hnot : s.state ≠ .stopped := fun hx => hst (h.stopped.mp hx)
  refine ⟨h.order, h.numbered, fun hne => ?_, ?_, h.empty, ?_, by simp, ?_, fun hk hne => ?_,
    h.epollArmed, ?_⟩
  · obtain ⟨r, p, hrp⟩ := h.batch hne
    exact absurd hrp (hbatch r p)
  · simp [hc]
  · simp [hnot]
  · exact .inl (h.fdOpen.resolve_right fun hx => hcr hx.2)
  · exact (h.wakeup (.inr hcr) hne).imp_right fun hx => hx.imp_right fun hy =>
      absurd (htake.symm.trans hy) (by simp)
  · intro hf hctl
    rcases hctl with hx | hx | hx | ⟨hx, hs⟩
    · cases hx
    · cases hx
    · cases hx
    · exact harm (by simpa using hx) hs

theorem Good.init : Good { s with fdOpen := true, armed := true } :=
  { h with fdOpen := .inl rfl, epollArmed := fun _ => rfl, armed := fun _ _ => rfl }

theorem Good.batch_eq_nil (hctl : ∀ r p, s.control ≠ .batch r p) : s.batch = [] := by
  by_contra hne
  obtain ⟨r, p, hrp⟩ := h.batch hne
  exact hctl r p hrp

theorem Good.run (hcr : s.control = .created) (hs : s.run = some s') : Good s' := by
  have hok : s.fdOpen = true ∧ (s.state = .created ∨ s.state = .stopping) := by
    by_contra hno
    rw [Mailbox.run, if_neg hno] at hs
    cases hs
  rw [Mailbox.run, if_pos hok] at hs
  obtain ⟨hf, hst⟩ := hok
  cases hs
  have hbatch := h.batch_eq_nil (by simp [hcr])
  have hopen : s.closed = false := by simpa [hcr] using h.closed
  refine ⟨h.order, h.numbered, fun hne => absurd hbatch hne, ?_, h.empty, ?_, ?_, .inl hf,
    fun hk hne => ?_, h.epollArmed, fun _ _ => h.armed hf (.inl hcr)⟩
  · cases hk : s.kind <;> simp [hopen, Kind.entry]
  · rcases hst with hst | hst <;> cases hk : s.kind <;> simp [hst, Kind.entry]
  · cases hk : s.kind <;> simp [Kind.entry]
  · -- the epoll loop has been signalled, the uring loop takes the queue
    cases hkind : s.kind with
    | epoll =>
      have := h.wakeup (.inl hkind) hne
      simpa [hcr, Kind.entry, Control.taking] using this
    | uring => exact .inr (.inr rfl)

theorem Good.drainWakeup (hctl : s.control = .at place) : Good (s.drainWakeup place) := by
  have hbatch := h.batch_eq_nil (by simp [hctl])
  have hopen : s.closed = false := by simpa [hctl] using h.closed
  have hnot : s.state ≠ .stopped := fun hx => by simpa [hctl] using h.stopped.mp hx
  have hf : s.fdOpen = true := h.fdOpen.resolve_right fun hx => by simp [hctl] at hx
  refine ⟨h.order, h.numbered, fun hne => absurd hbatch hne, by simp [Mailbox.drainWakeup, hopen],
    h.empty, by simp [Mailbox.drainWakeup, hnot], by simp [Mailbox.drainWakeup], .inl hf,
    fun _ _ => .inr (.inr rfl), fun hk => ?_, fun _ hx => ?_⟩
  · simp only [Mailbox.drainWakeup] at hk ⊢
    simp [h.epollArmed hk, hk, Kind.oneShot]
  · cases hk : s.kind with
    | epoll => simp [Mailbox.drainWakeup, h.epollArmed hk, hk, Kind.oneShot]
    | uring => simp [Mailbox.drainWakeup, hk, Kind.oneShot] at hx

theorem Good.swap {r : Bool}
    (hctl : s.control = .take r place ∨ s.control = .at place ∧ place = .closing) :
    Good { s.swap with control := .batch r place } := by
  have hbatch := h.batch_eq_nil (by rcases hctl with hx | ⟨hx, -⟩ <;> simp [hx])
  have hopen : s.closed = false := by rcases hctl with hx | ⟨hx, -⟩ <;> simpa [hx] using h.closed
  have hnot : s.state ≠ .stopped := fun hx => by
    rcases hctl with hy | ⟨hy, -⟩ <;> simpa [hy] using h.stopped.mp hx
  have hf : s.fdOpen = true := h.fdOpen.resolve_right fun hx => by
    rcases hctl with hy | ⟨hy, -⟩ <;> simp [hy] at hx
  refine ⟨?_, h.numbered, fun _ => ⟨r, place, rfl⟩, by simp [Mailbox.swap, hopen], fun _ => rfl,
    by simp [Mailbox.swap, hnot], by simp, .inl hf, fun _ hne => absurd rfl hne, h.epollArmed,
    fun _ hx => ?_⟩
  · have := h.order
    rw [hbatch, List.append_nil] at this
    simpa [Mailbox.swap] using this
  · rcases hctl with hy | ⟨-, rfl⟩
    · exact h.armed hf (.inr (.inl (by simpa [hy] using hx)))
    · simp at hx

theorem Good.callback {c : ℕ} {rest : List ℕ} (hb : s.batch = c :: rest) :
    Good { s with ran := s.ran ++ [c], batch := rest } := by
  refine { h with order := ?_, batch := fun _ => h.batch (by simp [hb]) }
  have := h.order
  rw [hb] at this
  simpa using this

theorem Good.batchDone {r : Bool} (hctl : s.control = .batch r place)
    (hb : s.batch = []) (answer : Option Error) : Good (s.batchDone r place answer) := by
  have hopen : s.closed = false := by simpa [hctl] using h.closed
  have hnot : s.state ≠ .stopped := fun hx => by simpa [hctl] using h.stopped.mp hx
  have hf : s.fdOpen = true := h.fdOpen.resolve_right fun hx => by simp [hctl] at hx
  have hwake : s.posted ≠ [] → s.signalled = true ∨ (∃ n, n ∈ s.posters) ∨
      (Control.at place).taking = true := fun hne => by
    simpa [hctl, Control.taking] using h.wakeup (.inr (by simp [hctl])) hne
  -- the owner is back at its place, with a poll that is armed if it has to be
  have hback : ∀ (b : Bool) (l : LoopState) (k : ℕ), l ≠ .stopped → (s.kind = .epoll → b = true) →
      (place = .main → l = .running → b = true) →
      Good { s with control := .at place, armed := b, state := l, stoppers := k } := by
    intro b l k hl he hm
    refine ⟨h.order, h.numbered, fun hne => absurd hb hne, by simp [hopen], h.empty, by simp [hl],
      by simp, .inl hf, fun _ => hwake, he, fun _ hx => ?_⟩
    have hx : place = .main ∧ l = .running := by simpa using hx
    exact hm hx.1 hx.2
  unfold Mailbox.batchDone
  by_cases hre : r = true ∧ s.state = .running
  · rw [if_pos hre]
    cases answer with
    | none => exact hback true s.state s.stoppers hnot (fun _ => rfl) fun _ _ => rfl
    | some e =>
      simp only [Mailbox.requestStop, hre.2, or_true, if_true]
      exact hback s.armed .stopping (s.stoppers + 1) (by simp) h.epollArmed nofun
  · rw [if_neg hre]
    refine hback s.armed s.state s.stoppers hnot h.epollArmed fun hp hs =>
      h.armed hf (.inr (.inr (.inl ?_)))
    have : r = false := by simpa [hs] using hre
    rw [hctl, hp, this]

theorem Good.close (hctl : s.control = .at .closing) (hp : s.posted = []) :
    Good { s with closed := true, control := .closed } := by
  have hbatch := h.batch_eq_nil (by simp [hctl])
  have hnot : s.state ≠ .stopped := fun hx => by simpa [hctl] using h.stopped.mp hx
  have hf : s.fdOpen = true := h.fdOpen.resolve_right fun hx => by simp [hctl] at hx
  exact ⟨h.order, h.numbered, fun hne => absurd hbatch hne, by simp, fun _ => hp, by simp [hnot],
    by simp, .inl hf, fun _ hne => absurd hp hne, h.epollArmed, by simp⟩

theorem Good.publishStopped (hctl : s.control = .closed) :
    Good { s with state := .stopped, control := .stopped } := by
  have hbatch := h.batch_eq_nil (by simp [hctl])
  have hclosed : s.closed = true := h.closed.mpr (.inl hctl)
  have hp := h.empty hclosed
  have hf : s.fdOpen = true := h.fdOpen.resolve_right fun hx => by simp [hctl] at hx
  exact ⟨h.order, h.numbered, fun hne => absurd hbatch hne, by simp [hclosed], h.empty, by simp,
    by simp, .inl hf, fun _ hne => absurd hp hne, h.epollArmed, by simp⟩

end

/-! ## Runs -/

theorem Good.make (kind : Kind) : Good (Mailbox.make kind) := by
  cases kind with
  | epoll =>
    exact ⟨rfl, ⟨List.nodup_nil, by simp [Mailbox.make]⟩, by simp [Mailbox.make],
      by simp [Mailbox.make], by simp [Mailbox.make], by simp [Mailbox.make],
      by simp [Mailbox.make], .inl rfl, by simp [Mailbox.make], fun _ => rfl, fun _ _ => rfl⟩
  | uring =>
    exact ⟨rfl, ⟨List.nodup_nil, by simp [Mailbox.make]⟩, by simp [Mailbox.make],
      by simp [Mailbox.make], by simp [Mailbox.make], by simp [Mailbox.make],
      by simp [Mailbox.make], .inr ⟨rfl, rfl⟩, by simp [Mailbox.make], by simp [Mailbox.make],
      by simp [Mailbox.make]⟩

theorem Good.step (h : Good s) {a : Action} (hs : step a s = some s') : Good s' := by
  cases a with
  | post =>
    cases hs
    exact h.post
  | signal n | stopSignal =>
    simp only [Mailbox.step] at hs
    split_ifs at hs
    cases hs
    exact h.signal _ _
  | requestStop =>
    cases hs
    exact h.requestStop
  | init =>
    simp only [Mailbox.step] at hs
    split_ifs at hs
    cases hs
    exact h.init
  | run =>
    simp only [Mailbox.step] at hs
    split_ifs at hs with hcr
    exact h.run hcr hs
  | wakeup =>
    simp only [Mailbox.step] at hs
    split at hs
    · split_ifs at hs
      cases hs
      exact h.drainWakeup ‹_›
    · split_ifs at hs
      cases hs
      exact h.drainWakeup ‹_›
    · cases hs
  | take =>
    simp only [Mailbox.step] at hs
    split at hs
    · cases hs
      exact h.swap (.inl ‹_›)
    · cases hs
  | callback =>
    simp only [Mailbox.step] at hs
    split at hs
    · cases hs
      exact h.callback ‹_›
    · cases hs
  | batchDone answer =>
    simp only [Mailbox.step] at hs
    split at hs
    · cases hs
      exact h.batchDone ‹_› ‹_› answer
    · cases hs
  | leave =>
    simp only [Mailbox.step] at hs
    split_ifs at hs with hl
    cases hs
    exact h.goTo (by simp [hl.1]) (by simpa [hl.1] using h.closed) (by simp [hl.1]) (by simp [hl.1])
      (by simp [hl.1, Control.taking]) (by simp)
  | drainPostedAndClose =>
    simp only [Mailbox.step] at hs
    split_ifs at hs with hl
    cases hs
    exact h.goTo (by simp [hl]) (by simpa [hl] using h.closed) (by simp [hl]) (by simp [hl])
      (by simp [hl, Control.taking]) (by simp)
  | close =>
    simp only [Mailbox.step] at hs
    split_ifs at hs with hl hp
    · cases hs
      exact h.close hl (by simpa using hp)
    · cases hs
      exact h.swap (.inr ⟨hl, rfl⟩)
  | publishStopped =>
    simp only [Mailbox.step] at hs
    split_ifs at hs with hl
    cases hs
    exact h.publishStopped hl

/-- **The mailbox.** On both backends, in every run: accepted callbacks run once and in order, all
of them before `kStopped` is published; a post to the closed queue is rejected and never runs; and
while the loop runs no wakeup is lost. -/
theorem post_delivers {kind : Kind} (h : (system kind).Reaches s) : Delivers s := by
  refine Good.delivers (h.invariant (I := Good) ?_ fun s a s' hg _ hs => hg.step hs)
  rintro _ rfl
  exact .make kind

/-- On a uring loop one callback is posted before `Init`, one while the loop runs and one while it
shuts down; a fourth comes too late. -/
theorem post_delivers_uring : ∃ s, ((system .uring).Reaches s ∧ s.state = .stopped ∧
    s.ran = [0, 1, 2] ∧ s.rejected = [3]) ∧ Delivers s :=
  (system .uring).exists_reachesBy_and _ (make .uring) rfl
    [.post, .signal 0, .init, .run, .take, .callback, .batchDone none, .post, .signal 1, .wakeup,
      .take, .callback, .batchDone none, .requestStop, .leave, .post, .drainPostedAndClose, .close,
      .callback, .batchDone none, .close, .post, .publishStopped] (by decide)
    fun _ hr _ => post_delivers hr

end Alyrn.Backend.Mailbox
