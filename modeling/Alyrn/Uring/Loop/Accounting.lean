import Mathlib.Data.List.Nodup
import Mathlib.Data.List.Perm.Basic
import Mathlib.Tactic.Common
import Alyrn.Uring.Loop

/-!
# The loop accounts for its operations

`pending_submit_` counts the submission queue, and `inflight_` the entries in the kernel together
with the one whose terminal completion is being handled. The two wake flags follow the entry of the
wake poll only as a sum: a partial submission moves the flag with the first entry accepted, be it
another one. So the corrected counts may both be wrong, and still they are both zero only if
nothing but the wake poll is left.
-/

namespace Alyrn.Uring

open Transition

def Handling.ended : Handling → List Entry
  | .dispatching e event => if e.endsWith event then [e] else []
  | _ => []

/-- The stages in which completions may be handled. -/
def RunStage.busy : RunStage → Bool
  | .running | .shutdown | .draining => true
  | _ => false

/-- The stages after `DrainStoppedOperations`. -/
def RunStage.drained : RunStage → Bool
  | .closing | .callbacks | .readying | .stopped => true
  | _ => false

namespace Loop

variable {l l' : Loop}

/-- The entries without a handled terminal completion. -/
def outstanding (l : Loop) : List Entry := l.live ++ l.handling.ended

/-- What the counters promise. -/
structure Accounted (l : Loop) : Prop where
  /-- The entries ever prepared are those with their terminal completion handled, and those
  that the counters count. -/
  balance : l.everPrepared = l.terminals + l.outstanding.length
  count : l.pendingSubmit + l.inflight = l.outstanding.length
  checks : l.aborted = false
  /-- Only the wake poll is outstanding, and no work is ready. -/
  drained : l.isDrained = true → (∀ e ∈ l.outstanding, e.op = wakeOp) ∧
    l.queues.ready = [] ∧ l.queues.completionReady = []
  stopped : l.state = .stopped → (∀ e ∈ l.outstanding, e.op = wakeOp) ∧
    l.queues.ready = [] ∧ l.queues.completionReady = []

/-! ## The counters -/

/-- The counters agree with the entries. -/
structure Counts (l : Loop) : Prop where
  alive : l.aborted = false
  pending : l.pendingSubmit = l.prepared.length
  inflight : l.inflight = l.submitted.length + l.handling.ended.length
  balance : l.everPrepared = l.terminals + l.outstanding.length
  /-- An operation has one live entry at most, and then an open completion slot. -/
  ops : (l.live.map (·.op)).Nodup
  unsettled : ∀ e ∈ l.live, e.op ∉ l.settled
  unfinished : ∀ e ∈ l.live, e.lifecycle.physicalTerminal = false
  dispatch : ∀ e event, l.handling = .dispatching e event → e.op ≠ wakeOp ∧
    e.expects event = true ∧ e.lifecycle.physicalTerminal = false
  wake : l.wakePending.toNat + l.wakeInflight.toNat = (l.live.map (·.op)).count wakeOp
  wakePending : l.wakePending = true → ∀ e ∈ l.submitted, e.op ≠ wakeOp
  ownKind : ∀ e ∈ l.live, e.op = wakeOp ∨ e.op = cancelAllOp → e.kind = .wake ∨ e.kind = .cancelAll
  cancelAll : l.cancelAllPending = false → ∀ e ∈ l.live, e.op ≠ cancelAllOp
  rearm : l.handling = .posted true → l.wakePending = false ∧ l.wakeInflight = false

theorem Counts.frame (h : Counts l) (state : LoopState) (stage : RunStage) (queues : WorkQueues ℕ)
    (posted : ℕ) (postClosed : Bool) :
    Counts { l with state, stage, queues, posted, postClosed } :=
  { h with }

theorem hasReadyWork_eq_false :
    l.hasReadyWork = false ↔ l.queues.ready = [] ∧ l.queues.completionReady = [] := by
  simp [hasReadyWork]

theorem isDrained_iff : l.isDrained = true ↔
    (l.queues.ready = [] ∧ l.queues.completionReady = []) ∧ l.pendingSubmitCount = 0 ∧
      l.inflightCount = 0 := by
  rw [← hasReadyWork_eq_false]
  simp [isDrained]

theorem Counts.drained (h : Counts l) (hp : l.pendingSubmitCount = 0) (hi : l.inflightCount = 0) :
    ∀ e ∈ l.outstanding, e.op = wakeOp := by
  have hpend : l.prepared.length = l.wakePending.toNat := by
    have := h.pending
    simp only [pendingSubmitCount] at hp
    omega
  have hin : l.submitted.length + l.handling.ended.length = l.wakeInflight.toNat := by
    have := h.inflight
    simp only [inflightCount] at hi
    omega
  have hle := List.count_le_length (a := wakeOp) (l := l.live.map (·.op))
  have hw := h.wake
  have hlen : l.live.length = l.prepared.length + l.submitted.length := List.length_append
  rw [List.length_map] at hle
  have hended : l.handling.ended = [] := List.length_eq_zero_iff.mp (by omega)
  have hall := List.count_eq_length.mp (show (l.live.map (·.op)).count wakeOp =
    (l.live.map (·.op)).length by rw [List.length_map]; omega)
  intro e he
  rw [outstanding, hended, List.append_nil] at he
  exact (hall e.op (List.mem_map_of_mem he)).symm

/-! ## Submission -/

theorem live_accept (l : Loop) (n : ℕ) : (l.accept n).live.Perm l.live := by
  have h : (l.prepared.drop n ++ (l.submitted ++ l.prepared.take n)).Perm
      (l.submitted ++ l.prepared.take n ++ l.prepared.drop n) := List.perm_append_comm
  rw [List.append_assoc l.submitted, List.take_append_drop] at h
  exact h.trans List.perm_append_comm

theorem Counts.accept (h : Counts l) (n : ℕ) : Counts (l.accept n) := by
  have hperm := live_accept l n
  have hmem (e : Entry) : e ∈ (l.accept n).live ↔ e ∈ l.live := hperm.mem_iff
  have hops := hperm.map (·.op)
  have hlen := hperm.length_eq
  have hcount : min n l.pendingSubmit = (l.prepared.take n).length := by
    rw [h.pending, List.length_take]
  refine ⟨h.alive, ?_, ?_, ?_, hops.nodup_iff.mpr h.ops, fun e he => h.unsettled e ((hmem e).mp he),
    fun e he => h.unfinished e ((hmem e).mp he), h.dispatch, ?_, fun hw e he => ?_,
    fun e he => h.ownKind e ((hmem e).mp he), fun hc e he => h.cancelAll hc e ((hmem e).mp he),
    fun hh => ?_⟩
  · simp only [Loop.accept, List.length_drop, h.pending]
    omega
  · simp only [Loop.accept, List.length_append, h.inflight, hcount]
    omega
  · have : (l.accept n).outstanding.length = l.outstanding.length := by
      simp only [outstanding, List.length_append, hlen]
      rfl
    rw [this]
    exact h.balance
  · -- the flag moves, and the sum stays
    rw [hops.count_eq, ← h.wake]
    have hone : (l.live.map (·.op)).count wakeOp ≤ 1 := List.nodup_iff_count_le_one.mp h.ops wakeOp
    have hw := h.wake
    cases hp : l.wakePending with
    | false => simp [Loop.accept, hp]
    | true =>
      have hi : l.wakeInflight = false := by
        cases hi : l.wakeInflight with
        | false => rfl
        | true =>
          rw [hp, hi, Bool.toNat_true] at hw
          omega
      by_cases hpos : 0 < min n l.pendingSubmit
      · simp only [Loop.accept, hp, hi, hpos]
        rfl
      · simp only [Loop.accept, hp, hi, hpos]
        rfl
  · -- the flag stays only if nothing was accepted
    simp only [Loop.accept, Bool.and_eq_true, Bool.not_eq_true', Bool.and_eq_false_iff,
      decide_eq_false_iff_not] at hw
    obtain ⟨hp, hn⟩ := hw
    have hzero : (l.prepared.take n).length = 0 := by
      rw [← hcount]
      have := hn.resolve_left (by simp [hp])
      omega
    have he' : e ∈ l.submitted ++ l.prepared.take n := he
    rw [List.length_eq_zero_iff.mp hzero, List.append_nil] at he'
    exact h.wakePending hp e he'
  · obtain ⟨hp, hi⟩ := h.rearm hh
    simp [Loop.accept, hp, hi]

theorem flushSubmit_induction {P : Loop → Prop} (haccept : ∀ l n, P l → P (l.accept n))
    (answers : List (Except Error ℕ)) (h : P l) : P (flushSubmit answers l).2 := by
  induction answers generalizing l with
  | nil =>
    rw [flushSubmit]
    split_ifs
    · exact h
    · exact haccept l _ h
  | cons answer answers ih =>
    cases answer with
    | error e =>
      rw [flushSubmit]
      split_ifs
      · exact h
      · exact h
    | ok n =>
      rw [flushSubmit]
      split_ifs
      · exact h
      · exact h
      · exact ih (haccept l n h)

structure Flushed (l l' : Loop) : Prop where
  live : l'.live.Perm l.live
  state : l'.state = l.state
  stage : l'.stage = l.stage
  handling : l'.handling = l.handling
  queues : l'.queues = l.queues
  settled : l'.settled = l.settled
  cancelAllPending : l'.cancelAllPending = l.cancelAllPending

theorem Counts.flushSubmit (h : Counts l) (answers : List (Except Error ℕ)) :
    Counts (flushSubmit answers l).2 ∧ Flushed l (flushSubmit answers l).2 := by
  refine flushSubmit_induction (P := fun t => Counts t ∧ Flushed l t) ?_ answers
    ⟨h, List.Perm.refl _, rfl, rfl, rfl, rfl, rfl, rfl⟩
  rintro t n ⟨hc, hf⟩
  exact ⟨hc.accept n, (live_accept t n).trans hf.live, hf.state, hf.stage, hf.handling, hf.queues,
    hf.settled, hf.cancelAllPending⟩

theorem Counts.prepare (h : Counts l) {op : ℕ} {kind : OpKind} (hop : ∀ e ∈ l.live, e.op ≠ op)
    (hopen : op ∉ l.settled) {wakePending cancelAllPending : Bool}
    (hwake : wakePending.toNat = l.wakePending.toNat + if op = wakeOp then 1 else 0)
    (hkind : op = wakeOp ∨ op = cancelAllOp → kind = .wake ∨ kind = .cancelAll)
    (hcancel : cancelAllPending = false → op ≠ cancelAllOp ∧ l.cancelAllPending = false)
    (hhandling : op = wakeOp → l.handling ≠ .posted true) :
    Counts { l.prepare op kind with wakePending, cancelAllPending } := by
  have hlive : ({ l.prepare op kind with wakePending, cancelAllPending } : Loop).live.Perm
      ({ op, kind } :: l.live) := by
    show (l.prepared ++ [({ op, kind } : Entry)] ++ l.submitted).Perm _
    rw [List.append_assoc]
    exact List.perm_middle
  have hmem {e : Entry} (he : e ∈ ({ l.prepare op kind with
      wakePending, cancelAllPending } : Loop).live) : e = { op, kind } ∨ e ∈ l.live :=
    List.mem_cons.mp (hlive.mem_iff.mp he)
  have hops := hlive.map (·.op)
  have hlen := hlive.length_eq
  refine ⟨h.alive, ?_, h.inflight, ?_, ?_, fun e he => ?_, fun e he => ?_, h.dispatch, ?_,
    fun hw e he => ?_, fun e he hx => ?_, fun hc e he => ?_, fun hh => ?_⟩
  · simp [Loop.prepare, h.pending]
  · have hb := h.balance
    simp only [outstanding, List.length_append, hlen, List.length_cons] at hb ⊢
    simp only [Loop.prepare]
    omega
  · rw [hops.nodup_iff, List.map_cons, List.nodup_cons]
    refine ⟨fun hx => ?_, h.ops⟩
    obtain ⟨e, he, heq⟩ := List.mem_map.mp hx
    exact hop e he heq
  · rcases hmem he with rfl | he
    · exact hopen
    · exact h.unsettled e he
  · rcases hmem he with rfl | he
    · rfl
    · exact h.unfinished e he
  · rw [hops.count_eq, List.map_cons, List.count_cons]
    have := h.wake
    simp only [beq_iff_eq]
    show wakePending.toNat + l.wakeInflight.toNat = _
    omega
  · -- the new entry is in the ring
    intro hx
    by_cases hw' : op = wakeOp
    · exact hop e (List.mem_append_right _ he) (hx.trans hw'.symm)
    · rw [if_neg hw', Nat.add_zero] at hwake
      have : l.wakePending = true := by
        cases hp : l.wakePending with
        | true => rfl
        | false =>
          have hw1 : wakePending = true := hw
          rw [hp, hw1] at hwake
          exact absurd hwake (by simp)
      exact h.wakePending this e he hx
  · rcases hmem he with rfl | he
    · exact hkind hx
    · exact h.ownKind e he hx
  · obtain ⟨hne, hold⟩ := hcancel hc
    rcases hmem he with rfl | he
    · exact hne
    · exact h.cancelAll hold e he
  · obtain ⟨hp, hi⟩ := h.rearm hh
    have hne : op ≠ wakeOp := fun hx => hhandling hx hh
    rw [if_neg hne, hp] at hwake
    refine ⟨?_, hi⟩
    cases hx : wakePending with
    | false => rfl
    | true =>
      rw [hx] at hwake
      exact absurd hwake (by simp)

theorem Counts.beginNextRequest (h : Counts l) (op : ℕ) : Counts (l.beginNextRequest op) :=
  ⟨h.1, h.2, h.3, h.4, h.5, fun e he hx => h.6 e he (List.mem_of_mem_filter hx), h.7, h.8, h.9,
    h.10, h.11, h.12, h.13⟩

/-- **Submission.** `SubmitOp` fails and leaves the live entries, or prepares one more. -/
theorem submitOp_cases (h : Counts l) (op : ℕ) (kind : OpKind) (ans : SqeAnswers) :
    ∃ t, Counts t ∧ Flushed l t ∧
      ((∃ e, l.submitOp op kind ans = (some e, t)) ∨
        l.submitOp op kind ans = (none, t.prepare op kind) ∧
          (l.state.isStopping = true → op = cancelAllOp ∨ op = wakeOp ∨
            isStreamDeadlineCancel kind = true)) := by
  have hrefl : Flushed l l := ⟨List.Perm.refl _, rfl, rfl, rfl, rfl, rfl, rfl⟩
  unfold submitOp
  by_cases hrej : (l.state.isStopping && decide (op ≠ cancelAllOp) && decide (op ≠ wakeOp) &&
      !isStreamDeadlineCancel kind) = true
  · rw [if_pos hrej]
    exact ⟨l, h, hrefl, .inl ⟨_, rfl⟩⟩
  · rw [if_neg hrej]
    have hallowed : l.state.isStopping = true → op = cancelAllOp ∨ op = wakeOp ∨
        isStreamDeadlineCancel kind = true := by
      intro hs
      by_contra hx
      simp only [not_or] at hx
      simp [hs, hx.1, hx.2.1, hx.2.2] at hrej
    cases ans.full with
    | false => exact ⟨l, h, hrefl, .inr ⟨rfl, hallowed⟩⟩
    | true =>
      rw [if_pos rfl]
      obtain ⟨hc, hf⟩ := h.flushSubmit ans.flush
      rcases hfl : flushSubmit ans.flush l with ⟨_ | e, t⟩
      · rw [hfl] at hc hf
        cases ans.stillFull with
        | true => exact ⟨t, hc, hf, .inl ⟨_, rfl⟩⟩
        | false => exact ⟨t, hc, hf, .inr ⟨rfl, hallowed⟩⟩
      · rw [hfl] at hc hf
        exact ⟨t, hc, hf, .inl ⟨e, rfl⟩⟩

/-! ## Completions -/

variable {event : CompletionEvent}

variable {e : Entry} {i : ℕ}

theorem dispatchCompletion_terminal
    (hexp : e.expects event = true) (hphys : e.lifecycle.physicalTerminal = false) (resume : Bool) :
    (e.dispatchCompletion event resume).kernelRequestTerminal = e.endsWith event ∧
      (e.dispatchCompletion event resume).decrementInflight = e.endsWith event := by
  unfold Entry.dispatchCompletion Entry.endsWith
  unfold Entry.expects at hexp
  cases hm : completionModelFor e.kind with
  | singleShot | eventStream => exact ⟨rfl, rfl⟩
  | splitRelease =>
    rw [hm] at hexp
    have hnote : event.notification = e.lifecycle.logicalResult := by simpa using hexp
    cases hn : event.notification with
    | true => simp [SplitReleaseLifecycle.markPhysicalTerminal, hphys]
    | false =>
      rw [hn] at hnote
      simp [SplitReleaseLifecycle.recordLogicalResult, SplitReleaseLifecycle.markPhysicalTerminal,
        ← hnote, hphys]

theorem live_eraseIdx (hi : l.submitted[i]? = some e) :
    l.live.Perm (e :: (l.prepared ++ l.submitted.eraseIdx i)) := by
  obtain ⟨hlt, rfl⟩ := List.getElem?_eq_some_iff.mp hi
  have hperm : l.submitted.Perm (l.submitted[i] :: l.submitted.eraseIdx i) :=
    (List.getElem_cons_eraseIdx_perm hlt).symm
  exact (List.Perm.append_left l.prepared hperm).trans List.perm_middle

section

variable (h : Counts l)
include h

theorem Counts.ended (hi : l.submitted[i]? = some e) :
    (e.op :: ((l.prepared ++ l.submitted.eraseIdx i).map (·.op))).Nodup ∧
      (l.live.map (·.op)).count wakeOp =
        ((l.prepared ++ l.submitted.eraseIdx i).map (·.op)).count wakeOp +
          (if e.op = wakeOp then 1 else 0) ∧
      l.submitted.length = (l.submitted.eraseIdx i).length + 1 ∧
      ∀ e' ∈ l.prepared ++ l.submitted.eraseIdx i, e' ∈ l.live ∧ e'.op ≠ e.op := by
  have hperm := live_eraseIdx hi
  have hops := hperm.map (·.op)
  have hnodup := hops.nodup_iff.mp h.ops
  obtain ⟨hlt, -⟩ := List.getElem?_eq_some_iff.mp hi
  refine ⟨hnodup, ?_, ?_, fun e' he' => ⟨hperm.mem_iff.mpr (List.mem_cons_of_mem _ he'), ?_⟩⟩
  · rw [hops.count_eq, List.map_cons, List.count_cons]
    simp
  · rw [List.length_eraseIdx_of_lt hlt]
    omega
  · rintro heq
    exact (List.nodup_cons.mp hnodup).1 (List.mem_map.mpr ⟨e', he', heq⟩)

section

variable (hrest : l.handling = .none)
include hrest

section

variable (hi : l.submitted[i]? = some e)
include hi

theorem Counts.wakeCqe (hop : e.op = wakeOp) (event : CompletionEvent) :
    ∃ l', (l.kernelCompletes i e event).handleCqe e event = some l' ∧ Counts l' ∧
      l'.state = l.state ∧ l'.stage = l.stage := by
  have hmem : e ∈ l.submitted := List.mem_of_getElem? hi
  have hlive : e ∈ l.live := List.mem_append_right _ hmem
  have hends : e.endsWith event = true := by
    rcases h.ownKind e hlive (.inl hop) with hk | hk <;>
      simp [Entry.endsWith, hk, completionModelFor]
  obtain ⟨hnodup, hcount, hlen, hsub⟩ := h.ended hi
  rw [if_pos hop] at hcount
  have hp : l.wakePending = false := by
    cases hp : l.wakePending with
    | false => rfl
    | true => exact absurd hop (h.wakePending hp e hmem)
  have hin := h.inflight
  have hbal := h.balance
  rw [hrest] at hin
  simp only [Handling.ended, List.length_nil, Nat.add_zero] at hin
  have heq : (l.kernelCompletes i e event).handleCqe e event = some { l with
      submitted := l.submitted.eraseIdx i, inflight := l.inflight - 1, terminals := l.terminals + 1
      wakeInflight := false, posted := 0, handling := .posted true } := by
    simp only [handleCqe, kernelCompletes, if_pos hop, hends, if_true, applyDisposition]
    simp [show 0 < l.inflight by omega]
  refine ⟨_, heq, ⟨h.alive, h.pending, ?_, ?_, (List.nodup_cons.mp hnodup).2,
    fun e' he' => h.unsettled e' (hsub e' he').1, fun e' he' => h.unfinished e' (hsub e' he').1,
    nofun, ?_, fun hx => absurd (hp.symm.trans hx) (by simp),
    fun e' he' => h.ownKind e' (hsub e' he').1,
    fun hc e' he' => h.cancelAll hc e' (hsub e' he').1, fun _ => ⟨hp, rfl⟩⟩, rfl, rfl⟩
  · simp only [Handling.ended, List.length_nil]
    omega
  · simp only [outstanding, live, hrest, Handling.ended, List.append_nil,
      List.length_append] at hbal ⊢
    omega
  · have hone : (l.live.map (·.op)).count wakeOp ≤ 1 := List.nodup_iff_count_le_one.mp h.ops wakeOp
    show l.wakePending.toNat + 0 = _
    rw [hp]
    simp only [live, Bool.toNat_false]
    omega

theorem Counts.terminalCqe (hop : e.op ≠ wakeOp)
    (hexp : e.expects event = true) (hends : e.endsWith event = true) {settled : List ℕ}
    (hsettled : ∀ op ∈ settled, op = e.op ∨ op ∈ l.settled) {cancelAllPending : Bool}
    (hcancel : cancelAllPending = false → l.cancelAllPending = false ∨ e.op = cancelAllOp) :
    Counts { l with
      submitted := l.submitted.eraseIdx i, settled, cancelAllPending
      handling := .dispatching e event } := by
  have hlive : e ∈ l.live := List.mem_append_right _ (List.mem_of_getElem? hi)
  obtain ⟨hnodup, hcount, hlen, hsub⟩ := h.ended hi
  rw [if_neg hop, Nat.add_zero] at hcount
  have hin := h.inflight
  have hbal := h.balance
  rw [hrest] at hin
  simp only [Handling.ended, List.length_nil, Nat.add_zero] at hin
  refine ⟨h.alive, h.pending, ?_, ?_, (List.nodup_cons.mp hnodup).2, fun e' he' hx => ?_,
    fun e' he' => h.unfinished e' (hsub e' he').1, fun e' event' hx => ?_, ?_,
    fun hx e' he' => h.wakePending hx e' (List.mem_of_mem_eraseIdx he'),
    fun e' he' => h.ownKind e' (hsub e' he').1, fun hc e' he' => ?_, nofun⟩
  · simp only [Handling.ended, hends, if_true, List.length_singleton]
    omega
  · simp only [outstanding, live, hrest, Handling.ended, hends, if_true, List.append_nil,
      List.length_append, List.length_singleton] at hbal ⊢
    omega
  · obtain ⟨hl, hne⟩ := hsub e' he'
    rcases hsettled _ hx with hx | hx
    · exact hne hx
    · exact h.unsettled e' hl hx
  · cases hx
    exact ⟨hop, hexp, h.unfinished e hlive⟩
  · exact h.wake.trans hcount
  · obtain ⟨hl, hne⟩ := hsub e' he'
    rcases hcancel hc with hc | hc
    · exact h.cancelAll hc e' hl
    · exact hc ▸ hne

theorem Counts.continuedCqe (hop : e.op ≠ wakeOp)
    (hexp : e.expects event = true) (hends : e.endsWith event = false) :
    Counts { l with
      submitted := l.submitted.set i e.continued, handling := .dispatching e event } := by
  have hlive : e ∈ l.live := List.mem_append_right _ (List.mem_of_getElem? hi)
  have hcont : e.continued.op = e.op ∧ e.continued.kind = e.kind ∧
      e.continued.lifecycle.physicalTerminal = e.lifecycle.physicalTerminal := by
    unfold Entry.continued
    cases completionModelFor e.kind <;> exact ⟨rfl, rfl, rfl⟩
  have hmap : (l.submitted.set i e.continued).map (·.op) = l.submitted.map (·.op) := by
    have hget : (l.submitted.map (·.op))[i]? = some e.op := by simp [hi]
    obtain ⟨hlt, heq⟩ := List.getElem?_eq_some_iff.mp hget
    rw [List.map_set, hcont.1, ← heq, List.set_getElem_self]
  have hops : (l.prepared ++ l.submitted.set i e.continued).map (·.op) = l.live.map (·.op) := by
    rw [List.map_append, hmap, ← List.map_append]
    rfl
  have hmem {e' : Entry} (he' : e' ∈ l.prepared ++ l.submitted.set i e.continued) :
      e' ∈ l.live ∨ e' = e.continued := by
    rcases List.mem_append.mp he' with he' | he'
    · exact .inl (List.mem_append_left _ he')
    · exact (List.mem_or_eq_of_mem_set he').imp_left (List.mem_append_right _)
  have hin := h.inflight
  have hbal := h.balance
  rw [hrest] at hin
  refine ⟨h.alive, h.pending, ?_, ?_, ?_, fun e' he' => ?_, fun e' he' => ?_,
    fun e' event' hx => ?_, ?_, fun hx e' he' => ?_, fun e' he' hx => ?_,
    fun hc e' he' => ?_, nofun⟩
  · simp only [Handling.ended, hends, List.length_set]
    exact hin
  · simp only [outstanding, live, hrest, Handling.ended, hends, List.length_append,
      List.length_set] at hbal ⊢
    exact hbal
  · rw [live, hops]
    exact h.ops
  · rcases hmem he' with he' | rfl
    · exact h.unsettled e' he'
    · rw [hcont.1]
      exact h.unsettled e hlive
  · rcases hmem he' with he' | rfl
    · exact h.unfinished e' he'
    · rw [hcont.2.2]
      exact h.unfinished e hlive
  · cases hx
    exact ⟨hop, hexp, h.unfinished e hlive⟩
  · rw [live, hops]
    exact h.wake
  · rcases List.mem_or_eq_of_mem_set he' with he' | rfl
    · exact h.wakePending hx e' he'
    · rw [hcont.1]
      exact hop
  · rcases hmem he' with he' | rfl
    · exact h.ownKind e' he' hx
    · rw [hcont.2.1]
      exact h.ownKind e hlive (by rwa [hcont.1] at hx)
  · rcases hmem he' with he' | rfl
    · exact h.cancelAll hc e' he'
    · rw [hcont.1]
      exact h.cancelAll hc e hlive

theorem Counts.cqe (hexp : e.expects event = true) :
    ∃ l', (l.kernelCompletes i e event).handleCqe e event = some l' ∧ Counts l' ∧
      l'.state = l.state ∧ l'.stage = l.stage := by
  by_cases hop : e.op = wakeOp
  · exact h.wakeCqe hrest hi hop event
  have hopen : e.op ∉ l.settled :=
    h.unsettled e (List.mem_append_right _ (List.mem_of_getElem? hi))
  have hsettled : ∀ op ∈ e.op :: l.settled, op = e.op ∨ op ∈ l.settled := by simp
  unfold handleCqe kernelCompletes
  rw [if_neg hop]
  by_cases hca : e.op = cancelAllOp
  · have hends : e.endsWith event = true := by
      have hmem := List.mem_append_right l.prepared (List.mem_of_getElem? hi)
      rcases h.ownKind e hmem (.inr hca) with hk | hk <;>
        simp [Entry.endsWith, hk, completionModelFor]
    rw [if_pos hca, if_pos hends]
    exact ⟨_, rfl, h.terminalCqe hrest hi hop hexp hends hsettled fun _ => .inr hca, rfl, rfl⟩
  · rw [if_neg hca]
    by_cases hmodel : completionModelFor e.kind = .singleShot
    · have hends : e.endsWith event = true := by simp [Entry.endsWith, hmodel]
      rw [if_pos hmodel, if_neg hopen, if_pos hends]
      exact ⟨_, rfl, h.terminalCqe hrest hi hop hexp hends hsettled .inl, rfl, rfl⟩
    · rw [if_neg hmodel]
      cases hends : e.endsWith event with
      | true =>
        exact ⟨_, rfl, h.terminalCqe hrest hi hop hexp hends (fun _ hx => .inr hx) .inl, rfl, rfl⟩
      | false => exact ⟨_, rfl, h.continuedCqe hrest hi hop hexp hends, rfl, rfl⟩

end

end

theorem Counts.onCqeHandled (answers : List (Except Error ℕ)) :
    Counts (l.onCqeHandled answers) ∧ (l.onCqeHandled answers).stage = l.stage ∧
      ((l.onCqeHandled answers).state = l.state ∨
        (l.onCqeHandled answers).state = l.state.requestStop) := by
  obtain ⟨hc, hf⟩ := h.flushSubmit answers
  unfold Loop.onCqeHandled
  rcases hfl : Loop.flushSubmit answers l with ⟨_ | e, t⟩
  · rw [hfl] at hc hf
    exact ⟨hc.frame _ _ _ _ _, hf.stage, .inl hf.state⟩
  · rw [hfl] at hc hf
    exact ⟨hc.frame _ _ _ _ _, hf.stage, .inr (congrArg LoopState.requestStop hf.state)⟩

theorem Counts.dispatched (hh : l.handling = .dispatching e event) (resume : Bool) :
    ∃ t, l.applyDisposition (e.dispatchCompletion event resume) = some t ∧
      Counts { t with handling := .none } ∧ t.state = l.state ∧ t.stage = l.stage := by
  obtain ⟨hop, hexp, hphys⟩ := h.dispatch e event hh
  obtain ⟨hterm, hdec⟩ := dispatchCompletion_terminal hexp hphys resume
  have hin := h.inflight
  have hbal := h.balance
  rw [outstanding] at hbal
  rw [hh] at hin hbal
  unfold applyDisposition
  rw [hterm, hdec]
  cases hends : e.endsWith event with
  | true =>
    simp only [Handling.ended, hends, if_true, List.length_append, List.length_singleton]
      at hin hbal
    simp only [Bool.not_true, Bool.and_false, Bool.false_eq_true, if_false, if_true]
    rw [if_pos (by omega)]
    refine ⟨_, rfl, { h with
      inflight := ?_, balance := ?_, dispatch := nofun, rearm := nofun }, rfl, rfl⟩
    · simp only [Handling.ended, List.length_nil]
      omega
    · simp only [outstanding, live, Handling.ended, List.append_nil] at hbal ⊢
      omega
  | false =>
    simp only [Handling.ended, hends, Bool.false_eq_true, if_false, List.append_nil] at hin hbal
    refine ⟨_, rfl, { h with
      inflight := hin, balance := ?_, dispatch := nofun, rearm := nofun }, rfl, rfl⟩
    simpa only [outstanding, live, Handling.ended, List.append_nil] using hbal

theorem Counts.rest (hh : l.handling.ended = []) {handling : Handling}
    (hrest : handling = .none ∨ handling = .posted false) : Counts { l with handling } := by
  have hin := h.inflight
  have hbal := h.balance
  rw [hh] at hin
  rw [outstanding, hh] at hbal
  rcases hrest with rfl | rfl <;>
    exact { h with inflight := hin, balance := hbal, dispatch := nofun, rearm := nofun }

theorem Counts.afterPosted (hrest : l.handling = .none)
    (hflags : l.wakePending = false ∧ l.wakeInflight = false) (ans : SqeAnswers) :
    Counts (l.afterPosted ans) ∧ (l.afterPosted ans).stage = l.stage ∧
      ((l.afterPosted ans).state = l.state ∨ (l.afterPosted ans).state = l.state.requestStop) := by
  unfold Loop.afterPosted
  split_ifs with hrun
  · -- the wake poll is not live
    have hdead : ∀ e ∈ l.live, e.op ≠ wakeOp := fun e he heq => by
      have hw := h.wake
      rw [hflags.1, hflags.2] at hw
      have : 0 < (l.live.map (·.op)).count wakeOp :=
        List.count_pos_iff.mpr (List.mem_map.mpr ⟨e, he, heq⟩)
      simp only [Bool.toNat_false] at hw
      omega
    obtain ⟨t, hc, hf, hcases⟩ := submitOp_cases (h.beginNextRequest wakeOp) wakeOp .wake ans
    unfold armWakePoll
    rcases hcases with ⟨e, heq⟩ | ⟨heq, -⟩
    · rw [heq]
      exact ⟨hc.frame _ _ _ _ _, hf.stage, .inr (congrArg LoopState.requestStop hf.state)⟩
    · rw [heq]
      have hdead' : ∀ e ∈ t.live, e.op ≠ wakeOp := fun e he => hdead e (hf.live.mem_iff.mp he)
      have hp : t.wakePending = false := by
        have hw := hc.wake
        rw [List.count_eq_zero.mpr (fun hx => by
          obtain ⟨e, he, heq⟩ := List.mem_map.mp hx
          exact hdead' e he heq)] at hw
        cases hx : t.wakePending with
        | false => rfl
        | true =>
          rw [hx, Bool.toNat_true] at hw
          omega
      refine ⟨hc.prepare hdead' ?_ ?_ (fun _ => .inl rfl) (fun hx => ⟨by decide, hx⟩) fun _ => ?_,
        hf.stage, .inl hf.state⟩
      · rw [hf.settled]
        simp [Loop.beginNextRequest]
      · simp [hp]
      · rw [hf.handling, show (l.beginNextRequest wakeOp).handling = .none from hrest]
        simp
  · exact ⟨h, rfl, .inl rfl⟩

/-- **The end of a completion**: no check fails. -/
theorem Counts.endCqe (resume : Bool) (arm : SqeAnswers) (answers : List (Except Error ℕ)) :
    ∃ l', l.endCqe resume arm answers = some l' ∧ Counts l' ∧ l'.stage = l.stage ∧
      (l'.state = l.state ∨ l'.state = l.state.requestStop) := by
  unfold Loop.endCqe
  split
  · exact ⟨l, rfl, h, rfl, .inl rfl⟩
  · rename_i e event hh
    obtain ⟨t, heq, hc, hstate, hstage⟩ := h.dispatched hh resume
    have hres : Counts { t.resumeContinuation e (e.dispatchCompletion event resume) with
        handling := .none } := by
      unfold resumeContinuation
      split_ifs
      · exact hc.frame _ _ _ _ _
      · exact hc
    have hsame : ({ t.resumeContinuation e (e.dispatchCompletion event resume) with
        handling := .none } : Loop).stage = l.stage ∧ ({ t.resumeContinuation e
          (e.dispatchCompletion event resume) with handling := .none } : Loop).state = l.state := by
      unfold resumeContinuation
      split_ifs <;> exact ⟨hstage, hstate⟩
    obtain ⟨hc', hstage', hstate'⟩ := hres.onCqeHandled answers
    rw [hsame.1] at hstage'
    rw [hsame.2] at hstate'
    exact ⟨_, by dsimp only; rw [heq]; rfl, hc', hstage', hstate'⟩
  · rename_i hh
    have hrest := h.rest (by simp [hh, Handling.ended]) (.inl rfl)
    obtain ⟨hc, hstage, hstate⟩ := hrest.afterPosted rfl (h.rearm hh) arm
    obtain ⟨hc', hstage', hstate'⟩ := hc.onCqeHandled answers
    refine ⟨_, rfl, hc', hstage'.trans hstage, ?_⟩
    have hidem (st : LoopState) : st.requestStop.requestStop = st.requestStop := by cases st <;> rfl
    rcases hstate with hst | hst <;> rcases hstate' with hst' | hst'
    · exact .inl (hst'.trans hst)
    · exact .inr (hst'.trans (congrArg _ hst))
    · exact .inr (hst'.trans hst)
    · exact .inr ((hst'.trans (congrArg _ hst)).trans (hidem _))
  · rename_i hh
    exact ⟨_, rfl, h.rest (by simp [hh, Handling.ended]) (.inl rfl), rfl, .inl rfl⟩
  · rename_i hh
    obtain ⟨hc', hstage', hstate'⟩ :=
      (h.rest (by simp [hh, Handling.ended]) (.inl rfl)).onCqeHandled answers
    exact ⟨_, rfl, hc', hstage', hstate'⟩

end

/-! ## The stages of Run -/

/-- What each stage of `Run` has seen to. -/
structure Staged (l : Loop) : Prop where
  fresh : l.stage = .created → l.handling = .none
  begun : l.stage ≠ .created → l.state ≠ .created
  stopping : l.stage = .shutdown ∨ l.stage = .draining → l.state.isStopping = true
  /-- After `DrainStoppedOperations` only the wake poll is live. -/
  quiet : l.stage.drained = true →
    l.handling = .none ∧ l.state.isStopping = true ∧ ∀ e ∈ l.live, e.op = wakeOp
  empty : l.stage = .closing ∨ l.stage = .stopped →
    l.queues.ready = [] ∧ l.queues.completionReady = [] ∧ l.queues.turn = .poll
  stopped : l.state = .stopped → l.stage = .stopped

theorem Flushed.staged (hf : Flushed l l') (h : Staged l) : Staged l' where
  fresh := by rw [hf.stage, hf.handling]; exact h.fresh
  begun := by rw [hf.stage, hf.state]; exact h.begun
  stopping := by rw [hf.stage, hf.state]; exact h.stopping
  quiet hs := by
    obtain ⟨h1, h2, h3⟩ := h.quiet (hf.stage ▸ hs)
    exact ⟨hf.handling.trans h1, hf.state ▸ h2, fun e he => h3 e (hf.live.mem_iff.mp he)⟩
  empty := by rw [hf.stage, hf.queues]; exact h.empty
  stopped := by rw [hf.stage, hf.state]; exact h.stopped

theorem isStopping_requestStop (st : LoopState) : st.requestStop.isStopping = true := by
  cases st <;> rfl

theorem Staged.requestStop (h : Staged l) : Staged l.requestStop := by
  have hne : l.state.requestStop ≠ .created := by cases l.state <;> simp [LoopState.requestStop]
  refine ⟨h.fresh, fun _ => hne, fun _ => isStopping_requestStop _, fun hs => ?_, h.empty,
    fun hs => h.stopped ?_⟩
  · exact ⟨(h.quiet hs).1, isStopping_requestStop _, (h.quiet hs).2.2⟩
  · have hs' : l.state.requestStop = .stopped := hs
    cases hst : l.state with
    | stopped => rfl
    | created | running | stopping => rw [hst] at hs'; cases hs'

/-- A busy stage asks nothing of the requests. -/
theorem Staged.busy (h : Staged l) (hs : l.stage.busy = true) (hstage : l'.stage = l.stage)
    (hstate : l'.state = l.state ∨ l'.state = l.state.requestStop) : Staged l' := by
  have h' : Staged { l with state := l'.state } := by
    rcases hstate with hst | hst
    · rw [hst]
      exact h
    · rw [hst]
      exact h.requestStop
  rw [← hstage] at hs
  refine ⟨fun hx => ?_, fun hx => h'.begun (hstage ▸ hx), fun hx => h'.stopping (hstage ▸ hx),
    fun hx => ?_, fun hx => ?_, fun hx => hstage.trans (h'.stopped hx)⟩
  · simp [hx, RunStage.busy] at hs
  · cases hst : l'.stage <;> simp [hst, RunStage.busy, RunStage.drained] at hs hx
  · rcases hx with hx | hx <;> simp [hx, RunStage.busy] at hs

theorem Staged.busy_of_handling (h : Staged l) (hh : l.handling ≠ .none) :
    l.stage.busy = true := by
  cases hs : l.stage with
  | running | shutdown | draining => rfl
  | created => exact absurd (h.fresh hs) hh
  | closing | callbacks | readying | stopped => exact absurd (h.quiet (by rw [hs]; rfl)).1 hh

theorem Staged.not_inUserCode (h : Staged l) (hs : l.stage = .closing ∨ l.stage = .stopped) :
    l.inUserCode = false := by
  obtain ⟨-, -, hturn⟩ := h.empty hs
  have hh := (h.quiet (by rcases hs with hs | hs <;> rw [hs] <;> rfl)).1
  rcases hs with hs | hs <;> simp [inUserCode, hs, hh, WorkQueues.inUserCode, hturn]

/-- `Run` goes on to its next stage, once the loop is asked to stop. -/
theorem Staged.enter (h : Staged l) (hopen : l.stage ≠ .stopped) (hstop : l.state.isStopping = true)
    {stage : RunStage} (hne : stage ≠ .created)
    (hquiet : stage.drained = true → l.handling = .none ∧ ∀ e ∈ l.live, e.op = wakeOp)
    (hempty : stage = .closing ∨ stage = .stopped →
      l.queues.ready = [] ∧ l.queues.completionReady = [] ∧ l.queues.turn = .poll) :
    Staged { l with stage } where
  fresh hs := absurd hs hne
  begun _ hs := by
    rw [show l.state = .created from hs] at hstop
    cases hstop
  stopping _ := hstop
  quiet hs := ⟨(hquiet hs).1, hstop, (hquiet hs).2⟩
  empty := hempty
  stopped hs := absurd (h.stopped hs) hopen

/-! ## Steps and runs -/

/-- The invariant of a run. -/
structure Inv (l : Loop) : Prop where
  counts : Counts l
  staged : Staged l

/-! ### Calls into the loop -/

theorem Inv.submit (h : Inv l) {op : ℕ} {kind : OpKind} (hmay : l.mayPrepare op kind = true)
    (ans : SqeAnswers) : Inv ((l.beginNextRequest op).submitOp op kind ans).2 := by
  obtain ⟨hwake, hca, hdead, htarget⟩ : op ≠ wakeOp ∧ op ≠ cancelAllOp ∧
      (∀ e ∈ l.live, e.op ≠ op) ∧
      (isStreamDeadlineCancel kind = true → ∃ e ∈ l.live, isStreamOperation e.kind = true) := by
    simp only [mayPrepare, decide_eq_true_eq] at hmay
    exact hmay
  obtain ⟨t, hc, hf, hcases⟩ := submitOp_cases (h.counts.beginNextRequest op) op kind ans
  have hst : Staged t := hf.staged { h.staged with }
  rcases hcases with ⟨e, heq⟩ | ⟨heq, hallowed⟩
  · rw [heq]
    exact ⟨hc, hst⟩
  · rw [heq]
    -- a stopping loop that has nothing live refuses the entry
    have hloud : ¬ l.stage.drained = true := fun hq => by
      obtain ⟨-, hstop, hlive⟩ := h.staged.quiet hq
      rcases hallowed hstop with hx | hx | hx
      · exact hca hx
      · exact hwake hx
      · obtain ⟨e, he, hkind⟩ := htarget hx
        rcases h.counts.ownKind e he (.inl (hlive e he)) with hk | hk <;>
          simp [hk, isStreamOperation] at hkind
    refine ⟨hc.prepare (fun e he => hdead e (hf.live.mem_iff.mp he)) ?_ (by simp [hwake])
      (fun hx => (hx.elim hwake hca).elim) (fun hx => ⟨hca, hx⟩) (fun hx => absurd hx hwake), ?_⟩
    · rw [hf.settled]
      simp [Loop.beginNextRequest]
    · have hstage : t.stage = l.stage := hf.stage
      exact { hst with quiet := fun hx => absurd (hstage ▸ hx) hloud }

theorem Inv.withQueues (h : Inv l) {queues : WorkQueues ℕ}
    (hs : ¬ (l.stage = .closing ∨ l.stage = .stopped)) : Inv { l with queues } :=
  ⟨h.counts.frame _ _ _ _ _, { h.staged with empty := fun hx => absurd hx hs }⟩

theorem Inv.schedule (h : Inv l) (hu : l.inUserCode = true) (queues : WorkQueues ℕ) :
    Inv { l with queues } := by
  refine h.withQueues fun hx => ?_
  rw [h.staged.not_inUserCode hx] at hu
  cases hu

/-! ### The turns of `Run` -/

theorem Inv.run (h : Inv l) (hs : l.stage = .created) : Inv { l with
    state := if l.state = .created then .running else l.state
    stage := .running, posted := 0, handling := .posted false } := by
  have hrest := h.counts.rest (by rw [h.staged.fresh hs]; rfl) (.inr rfl)
  refine ⟨hrest.frame _ _ _ _ _, nofun, fun _ => ?_, nofun, nofun, nofun, fun hx => ?_⟩
  · split_ifs with hst
    · simp
    · exact hst
  · -- a loop that has not run is not stopped
    split_ifs at hx with hst
    have := h.staged.stopped hx
    simp [hs] at this

theorem Inv.flush (h : Inv l) (answers : List (Except Error ℕ)) :
    Inv (flushSubmit answers l).2 ∧ Inv (flushSubmit answers l).2.requestStop := by
  obtain ⟨hc, hf⟩ := h.counts.flushSubmit answers
  have hst := hf.staged h.staged
  exact ⟨⟨hc, hst⟩, hc.frame _ _ _ _ _, hst.requestStop⟩

theorem Inv.cqe (h : Inv l) (hi : l.submitted[i]? = some e) (hrest : l.handling = .none)
    (hs : l.stage.busy = true) (hexp : e.expects event = true) :
    Inv (l.orAbort ((l.kernelCompletes i e event).handleCqe e event)) := by
  obtain ⟨t, heq, hc, hst, hsg⟩ := h.counts.cqe hrest hi hexp
  rw [heq]
  exact ⟨hc, h.staged.busy hs hsg (.inl hst)⟩

theorem Inv.endCqe (h : Inv l) (hh : l.handling ≠ .none) (resume : Bool) (arm : SqeAnswers)
    (answers : List (Except Error ℕ)) : Inv (l.orAbort (l.endCqe resume arm answers)) := by
  obtain ⟨t, heq, hc, hsg, hst⟩ := h.counts.endCqe resume arm answers
  rw [heq]
  exact ⟨hc, h.staged.busy (h.staged.busy_of_handling hh) hsg hst⟩

/-! ### The shutdown -/

section

variable (h : Inv l)
include h

/-- The stages of the shutdown that come before the loop is drained. -/
theorem Inv.leave (hs : l.stage = .running ∨ l.stage = .shutdown)
    (hrun : l.stage = .running → l.state ≠ .running) {stage : RunStage}
    (hstage : stage = .shutdown ∨ stage = .draining) : Inv { l with stage } := by
  have hstop : l.state.isStopping = true := by
    rcases hs with hs | hs
    · have := h.staged.begun (by simp [hs])
      cases hst : l.state with
      | created => exact absurd hst this
      | running => exact absurd hst (hrun hs)
      | stopping | stopped => rfl
    · exact h.staged.stopping (.inl hs)
  have hopen : l.stage ≠ .stopped := by rcases hs with hs | hs <;> simp [hs]
  refine ⟨h.counts.frame _ _ _ _ _, h.staged.enter hopen hstop ?_ (fun hx => ?_) fun hx => ?_⟩
  · rcases hstage with rfl | rfl <;> simp
  · rcases hstage with rfl | rfl <;> cases hx
  · rcases hstage with rfl | rfl <;> simp at hx

theorem Inv.cancelPending (hs : l.stage = .draining) (ans : SqeAnswers) :
    Inv (l.cancelPendingOperations ans).2 := by
  unfold cancelPendingOperations
  split_ifs with hskip
  · exact h
  · have hca : l.cancelAllPending = false := by
      simp only [Bool.or_eq_true, not_or] at hskip
      simpa using hskip.1
    obtain ⟨t, hc, hf, hcases⟩ :=
      submitOp_cases (h.counts.beginNextRequest cancelAllOp) cancelAllOp .cancelAll ans
    have hbusy : ∀ t', t'.stage = t.stage → t'.state = t.state → Staged t' := fun t' h1 h2 =>
      h.staged.busy (by rw [hs]; rfl) (h1.trans hf.stage) (.inl (h2.trans hf.state))
    rcases hcases with ⟨e, heq⟩ | ⟨heq, -⟩
    · rw [heq]
      exact ⟨hc, hbusy t rfl rfl⟩
    · rw [heq]
      refine ⟨hc.prepare (fun e he => h.counts.cancelAll hca e (hf.live.mem_iff.mp he)) ?_ ?_
        (fun _ => .inr rfl) nofun (fun hx => absurd hx (by decide)),
        hbusy _ rfl rfl⟩
      · rw [hf.settled]
        simp [Loop.beginNextRequest]
      · rw [if_neg (by decide)]
        rfl

theorem Inv.drained (hrest : l.atRest = true) (hs : l.stage = .draining)
    (hd : l.isDrained = true) : Inv { l with stage := .closing } := by
  obtain ⟨hh, hturn⟩ : l.handling = .none ∧ l.queues.turn = .poll := by simpa [atRest] using hrest
  obtain ⟨⟨hr, hcr⟩, hp, hi⟩ := isDrained_iff.mp hd
  have hlive := h.counts.drained hp hi
  exact ⟨h.counts.frame _ _ _ _ _, h.staged.enter (by simp [hs]) (h.staged.stopping (.inr hs))
    nofun (fun _ => ⟨hh, fun e he => hlive e (List.mem_append_left _ he)⟩)
    fun _ => ⟨hr, hcr, hturn⟩⟩

/-- One turn of `DrainPostedAndClose`: it closes, or it takes a batch. -/
theorem Inv.takePosted (hs : l.stage = .closing) :
    Inv { l with postClosed := true, state := .stopped, stage := .stopped } ∧
      Inv { l with posted := 0, stage := .callbacks } := by
  obtain ⟨hh, hstop, hlive⟩ := h.staged.quiet (by rw [hs]; rfl)
  have hempty := h.staged.empty (.inl hs)
  have hcall : Staged { l with stage := .callbacks } :=
    h.staged.enter (by simp [hs]) hstop nofun (fun _ => ⟨hh, hlive⟩) nofun
  exact ⟨⟨h.counts.frame _ _ _ _ _, nofun, nofun, nofun, fun _ => ⟨hh, rfl, hlive⟩, fun _ => hempty,
    fun _ => rfl⟩, h.counts.frame _ _ _ _ _, { hcall with }⟩

theorem Inv.endCallbacks (hs : l.stage = .callbacks) : Inv { l with stage := .readying } := by
  obtain ⟨hh, hstop, hlive⟩ := h.staged.quiet (by rw [hs]; rfl)
  exact ⟨h.counts.frame _ _ _ _ _,
    h.staged.enter (by simp [hs]) hstop nofun (fun _ => ⟨hh, hlive⟩) nofun⟩

theorem Inv.endReady (hrest : l.atRest = true) (hs : l.stage = .readying)
    (hwork : l.hasReadyWork = false) : Inv { l with stage := .closing } := by
  obtain ⟨-, hturn⟩ : l.handling = .none ∧ l.queues.turn = .poll := by simpa [atRest] using hrest
  obtain ⟨hr, hcr⟩ := hasReadyWork_eq_false.mp hwork
  obtain ⟨hh, hstop, hlive⟩ := h.staged.quiet (by rw [hs]; rfl)
  exact ⟨h.counts.frame _ _ _ _ _, h.staged.enter (by simp [hs]) hstop nofun (fun _ => ⟨hh, hlive⟩)
    fun _ => ⟨hr, hcr, hturn⟩⟩

theorem Inv.step {a : Action} (hs : l.step a = some l') : Inv l' := by
  unfold Loop.step at hs
  obtain ⟨-, hs⟩ := Option.ite_none_left_eq_some.mp hs
  cases a with
  | submit op kind ans =>
    obtain ⟨hg, rfl⟩ := of_guard hs
    rw [Bool.and_eq_true] at hg
    exact h.submit hg.2 ans
  | schedule work | scheduleCompletion work =>
    obtain ⟨hg, rfl⟩ := of_guard hs
    exact h.schedule hg _
  | post =>
    cases hs
    split_ifs
    · exact h
    · exact ⟨h.counts.frame _ _ _ _ _, { h.staged with }⟩
  | requestStop =>
    cases hs
    exact ⟨h.counts.frame _ _ _ _ _, h.staged.requestStop⟩
  | run =>
    obtain ⟨hg, rfl⟩ := of_guard hs
    exact h.run hg
  | flush answers =>
    obtain ⟨-, hs⟩ := Option.ite_none_right_eq_some.mp hs
    obtain ⟨h1, h2⟩ := h.flush answers
    rcases hfl : flushSubmit answers l with ⟨_ | e, t⟩ <;> rw [hfl] at hs h1 h2 <;> cases hs
    · exact h1
    · split_ifs
      · exact h2
      · exact h1
  | cqe i event =>
    cases hi : l.submitted[i]? with
    | none => simp [hi] at hs
    | some e =>
      simp only [hi] at hs
      obtain ⟨hg, rfl⟩ := of_guard hs
      obtain ⟨⟨⟨hrest, -⟩, hstage⟩, hexp⟩ : ((l.handling = .none ∧ l.queues.turn = .poll) ∧
          (l.stage = .running ∨ l.stage = .draining)) ∧ e.expects event = true := by
        simpa [atRest] using hg
      exact h.cqe hi hrest (by rcases hstage with hx | hx <;> rw [hx] <;> rfl) hexp
  | endCqe resume arm answers =>
    obtain ⟨hg, rfl⟩ := of_guard hs
    exact h.endCqe hg resume arm answers
  | runReady =>
    obtain ⟨hg, rfl⟩ := of_guard hs
    exact h.withQueues fun hx => by rcases hx with hx | hx <;> simp [hx] at hg
  | runNext =>
    obtain ⟨r, hr, rfl⟩ := Option.map_eq_some_iff.mp hs
    exact h.withQueues fun hx => by
      rw [WorkQueues.next, (h.staged.empty hx).2.2] at hr
      cases hr
  | advance =>
    obtain ⟨q, hq, rfl⟩ := Option.map_eq_some_iff.mp hs
    exact h.withQueues fun hx => by
      rw [WorkQueues.advance, (h.staged.empty hx).2.2] at hq
      cases hq
  | leave =>
    obtain ⟨hg, rfl⟩ := of_guard hs
    obtain ⟨⟨-, hstage⟩, hrun⟩ : (l.atRest = true ∧ l.stage = .running) ∧ l.state ≠ .running := by
      simpa using hg
    exact h.leave (.inl hstage) (fun _ => hrun) (.inl rfl)
  | endShutdown =>
    obtain ⟨hg, rfl⟩ := of_guard hs
    exact h.leave (.inr hg) (fun hx => by simp [hg] at hx) (.inr rfl)
  | cancelPending ans =>
    obtain ⟨hg, rfl⟩ := of_guard hs
    have hstage : l.atRest = true ∧ l.stage = .draining := by simpa using hg
    exact h.cancelPending hstage.2 ans
  | drained =>
    obtain ⟨hg, rfl⟩ := of_guard hs
    obtain ⟨⟨hrest, hstage⟩, hd⟩ : (l.atRest = true ∧ l.stage = .draining) ∧
      l.isDrained = true := by simpa using hg
    exact h.drained hrest hstage hd
  | takePosted =>
    obtain ⟨hg, hs⟩ := Option.ite_none_right_eq_some.mp hs
    split_ifs at hs <;> cases hs
    · exact (h.takePosted hg).1
    · exact (h.takePosted hg).2
  | endCallbacks =>
    obtain ⟨hg, rfl⟩ := of_guard hs
    exact h.endCallbacks hg
  | endReady =>
    obtain ⟨hg, rfl⟩ := of_guard hs
    obtain ⟨⟨hrest, hstage⟩, hwork⟩ : (l.atRest = true ∧ l.stage = .readying) ∧
      l.hasReadyWork = false := by simpa using hg
    exact h.endReady hrest hstage hwork

end

theorem inv_init : Inv init :=
  ⟨⟨rfl, rfl, rfl, rfl, by decide, by decide, by decide, nofun, by decide,
    by decide, by decide, by decide, nofun⟩,
    ⟨fun _ => rfl, fun hx => absurd rfl hx, nofun, nofun, nofun, nofun⟩⟩

/-- **Accounting.** In every run of a loop, whatever the ring accepts and whichever completions come
in whichever order: the counters count the outstanding entries and never underflow; a drained loop
has no outstanding operation and no work; and `Run` publishes `kStopped` only in such a state. -/
theorem operations_accounted (h : system.Reaches l) : Accounted l := by
  have hinv : Inv l := by
    refine h.invariant (I := Inv) ?_ ?_
    · rintro _ rfl
      exact inv_init
    · intro l a l' hl _ hs
      exact hl.step hs
  obtain ⟨hc, hs⟩ := hinv
  refine ⟨hc.balance, ?_, hc.alive, fun hd => ?_, fun hst => ?_⟩
  · have hp := hc.pending
    have hi := hc.inflight
    simp only [outstanding, live, List.length_append]
    omega
  · obtain ⟨hq, hp, hi⟩ := isDrained_iff.mp hd
    exact ⟨hc.drained hp hi, hq⟩
  · have hstage := hs.stopped hst
    obtain ⟨hh, -, hlive⟩ := hs.quiet (by rw [hstage]; rfl)
    obtain ⟨hr, hcr, -⟩ := hs.empty (.inr hstage)
    refine ⟨fun e he => hlive e ?_, hr, hcr⟩
    rw [outstanding, hh] at he
    simpa [Handling.ended] using he

/-- A receive source and a zero-copy send, submitted in two parts, both live when the loop stops:
the loop cancels them, waits for the notification, and leaves only its wake poll. -/
theorem operations_accounted_stop :
    ∃ l, (system.Reaches l ∧ l.state = .stopped ∧ l.everPrepared = 4 ∧ l.terminals = 3) ∧
      Accounted l :=
  system.exists_reachesBy_and _ init rfl
    [.submit 2 .recvSourceComplete {}, .submit 3 .sendZeroCopyComplete {}, .run,
      .endCqe false {} [], .flush [.ok 1, .ok 2], .cqe 1 ⟨5, cqeMore⟩, .endCqe false {} [],
      .advance, .requestStop, .leave, .endShutdown, .cancelPending {}, .flush [], .cqe 1 ⟨-125, 0⟩,
      .endCqe false {} [], .advance, .cqe 1 ⟨5, cqeMore⟩, .endCqe false {} [], .advance,
      .cqe 1 ⟨0, cqeNotif⟩, .endCqe true {} [], .runNext, .advance, .cqe 1 ⟨0, 0⟩,
      .endCqe false {} [], .advance, .drained, .takePosted] (by decide)
    fun _ hr _ => operations_accounted hr

end Loop

end Alyrn.Uring
