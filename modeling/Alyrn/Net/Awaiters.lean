import Alyrn.Result

/-!
# Awaiters

An event source hands its results to awaiters. Awaiters are numbered in the order of the calls
that made them; a source parks at most one, and keeps the results it has given in order.
-/

namespace Alyrn.Net

/-- What `Next()` of a source returns: an event, the end of the stream, or an error. -/
inductive NextResult (α : Type) where
  | event (a : α)
  | endOfStream
  | error (e : Error)
  deriving DecidableEq, Repr

def NextResult.events {α : Type} : NextResult α → List α
  | .event a => [a]
  | .endOfStream | .error _ => []

def handedOut {α : Type} (results : List (ℕ × NextResult α)) : List α :=
  results.flatMap (·.2.events)

@[simp] theorem handedOut_append {α : Type} (results : List (ℕ × NextResult α)) (a : ℕ)
    (r : NextResult α) : handedOut (results ++ [(a, r)]) = handedOut results ++ r.events := by
  simp [handedOut]

variable {R : Type}

/-- `Complete` of an awaiter: its `CompletionGate` lets one result through. -/
def complete (results : List (ℕ × R)) (awaiter : ℕ) (r : R) : List (ℕ × R) :=
  if results.any (·.1 == awaiter) then results else results ++ [(awaiter, r)]

theorem complete_eq {results : List (ℕ × R)} {a : ℕ} (r : R) (h : ∀ p ∈ results, p.1 ≠ a) :
    complete results a r = results ++ [(a, r)] := by
  rw [complete, if_neg]
  simp only [List.any_eq_true, beq_iff_eq, not_exists, not_and]
  exact h

/-- Every result is for an earlier call, and no awaiter that has its result is parked. -/
structure Awaiters (results : List (ℕ × R)) (calls : ℕ) (pending : Option ℕ) : Prop where
  past : ∀ p ∈ results, p.1 < calls ∧ pending ≠ some p.1
  parked : ∀ a, pending = some a → a < calls

namespace Awaiters

variable {results : List (ℕ × R)} {calls a : ℕ} {pending : Option ℕ}

theorem init : Awaiters ([] : List (ℕ × R)) calls none := ⟨by simp, by simp⟩

theorem complete (h : Awaiters results calls (some a)) (r : R) :
    Net.complete results a r = results ++ [(a, r)] ∧
      Awaiters (results ++ [(a, r)]) calls none := by
  refine ⟨complete_eq r fun p hp heq => (h.past p hp).2 (by rw [heq]), fun p hp => ⟨?_, by simp⟩,
    by simp⟩
  rw [List.mem_append, List.mem_singleton] at hp
  rcases hp with hp | rfl
  · exact (h.past p hp).1
  · exact h.parked a rfl

theorem call (h : Awaiters results calls pending) : Awaiters results (calls + 1) pending :=
  ⟨fun p hp => ⟨Nat.lt_succ_of_lt (h.past p hp).1, (h.past p hp).2⟩,
    fun a ha => Nat.lt_succ_of_lt (h.parked a ha)⟩

theorem answer (h : Awaiters results calls pending) (ha : a < calls)
    (hnew : ∀ p ∈ results, p.1 ≠ a) (hp : pending ≠ some a) (r : R) :
    Net.complete results a r = results ++ [(a, r)] ∧
      Awaiters (results ++ [(a, r)]) calls pending := by
  refine ⟨complete_eq r hnew, fun p hmem => ?_, h.parked⟩
  rw [List.mem_append, List.mem_singleton] at hmem
  rcases hmem with hmem | rfl
  · exact h.past p hmem
  · exact ⟨ha, hp⟩

theorem park (h : Awaiters results calls none) (ha : a < calls) (hnew : ∀ p ∈ results, p.1 ≠ a) :
    Awaiters results calls (some a) := by
  refine ⟨fun p hmem => ⟨(h.past p hmem).1, fun heq => hnew p hmem ?_⟩, fun b hb => ?_⟩
  · exact (Option.some.inj heq).symm
  · rwa [← Option.some.inj hb]

end Awaiters

end Alyrn.Net
