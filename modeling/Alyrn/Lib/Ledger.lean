import Mathlib.Data.List.Count

/-!
# Calls that return once

Calls are numbered in the order in which they are made. A ledger counts for each call the results
that it has given and the works that are still to give one; every call is counted once, but for the
one that waits.
-/

namespace Ledger

variable {done done' : ℕ → ℕ} {calls k : ℕ} {pending : Option ℕ}

/-- Every call made that is not `pending` is counted once, and no other call is. -/
def Once (done : ℕ → ℕ) (calls : ℕ) (pending : Option ℕ) : Prop :=
  ∀ k, done k = if k < calls ∧ pending ≠ some k then 1 else 0

section

variable (h : Once done calls pending)
include h

theorem Once.of_pos (hk : 0 < done k) : k < calls ∧ pending ≠ some k := by
  by_contra hx
  rw [h k, if_neg hx] at hk
  exact Nat.lt_irrefl 0 hk

theorem Once.le_one (k : ℕ) : done k ≤ 1 := by
  rw [h k]
  split_ifs <;> omega

theorem Once.fresh (hk : calls ≤ k) : done k = 0 :=
  (h k).trans (if_neg fun hx => Nat.not_lt.mpr hk hx.1)

theorem Once.waiting (hp : pending = some k) : done k = 0 :=
  (h k).trans (if_neg fun hx => hx.2 hp)

/-- A call that does not wait. -/
theorem Once.call (hp : pending ≠ some calls)
    (hd : ∀ k, done' k = done k + if k = calls then 1 else 0) :
    Once done' (calls + 1) pending := by
  intro k
  rw [hd, h k]
  by_cases hk : k = calls
  · simp [hk, hp]
  · have hlt : k < calls + 1 ↔ k < calls := by omega
    simp [hk, hlt]

end

/-- A call that waits, when no other does. -/
theorem Once.park (h : Once done calls none) : Once done (calls + 1) (some calls) := by
  intro k
  rw [h k]
  have hiff : (k < calls ∧ none ≠ some k) ↔ (k < calls + 1 ∧ some calls ≠ some k) := by
    simp only [ne_eq, reduceCtorEq, not_false_eq_true, and_true, Option.some.injEq]
    omega
  simp only [hiff]

/-- The call that waits is answered. -/
theorem Once.answer (h : Once done calls (some k)) (hk : k < calls)
    (hd : ∀ j, done' j = done j + if j = k then 1 else 0) : Once done' calls none := by
  intro j
  rw [hd, h j]
  by_cases hj : j = k
  · simp [hj, hk]
  · simp [hj, Ne.symm hj]

theorem count_of_mem {W : Type*} [DecidableEq W] {works : List W} {w : W} (hw : w ∈ works) (v : W) :
    works.count v = (works.erase w).count v + if v = w then 1 else 0 := by
  rw [(List.perm_cons_erase hw).count_eq, List.count_cons]
  simp only [beq_iff_eq, eq_comm (a := w)]

variable {R : Type*} {results : List (ℕ × R)} {works works' : ℕ → ℕ}

theorem count_append (k : ℕ) (r : R) (j : ℕ) : ((results ++ [(k, r)]).map Prod.fst).count j =
    (results.map Prod.fst).count j + if j = k then 1 else 0 := by
  rw [List.map_append, List.count_append]
  by_cases hj : j = k
  · simp [hj]
  · simp [hj, Ne.symm hj]

/-- A call that returns at once. -/
theorem Once.returns (h : Once (fun k => (results.map Prod.fst).count k + works k) calls pending)
    (hp : pending ≠ some calls) (r : R) :
    Once (fun k => ((results ++ [(calls, r)]).map Prod.fst).count k + works k) (calls + 1)
      pending := by
  refine h.call hp fun k => ?_
  rw [count_append, Nat.add_right_comm]

/-- A work gives the result of its call. -/
theorem Once.resumes (h : Once (fun k => (results.map Prod.fst).count k + works k) calls pending)
    (hw : ∀ j, works j = works' j + if j = k then 1 else 0) (r : R) :
    Once (fun j => ((results ++ [(k, r)]).map Prod.fst).count j + works' j) calls pending := by
  intro j
  rw [← h j]
  dsimp only
  rw [count_append, hw]
  omega

end Ledger
