import Mathlib.Tactic.Common

/-!
# Loops as iterated passes

The body of a loop maps a state to the state of the next pass or to the result of the loop;
`none` is a pass without meaning (a null pointer is followed). `run` makes a number of passes,
`exec` waits for the result that long.

A computation with a bound on its passes `Settles` on a value when every large enough bound gives
that value. `exec_settles` is the rule of total correctness.
-/

namespace While

variable {σ β γ : Type*}

/-- At most `n` rounds of a loop whose body may leave it. -/
def run (body : σ → Option (σ ⊕ β)) : ℕ → σ → Option (σ ⊕ β)
  | 0, s => some (.inl s)
  | n + 1, s =>
    match body s with
    | none => none
    | some (.inl s) => run body n s
    | some (.inr b) => some (.inr b)

/-- The result, if the loop ends within `n` passes. -/
def exec (body : σ → Option (σ ⊕ β)) (n : ℕ) (s : σ) : Option β :=
  (run body n s).bind Sum.getRight?

/-! ## Computations with a bound -/

/-- Every large enough bound gives the value `b`. -/
def Settles (f : ℕ → Option β) (b : β) : Prop := ∃ N, ∀ n, N ≤ n → f n = some b

namespace Settles

variable {f : ℕ → Option β} {b : β}

theorem of_some (b : β) : Settles (fun _ => some b) b := ⟨0, fun _ _ => rfl⟩

theorem bind {g : β → ℕ → Option γ} {c : γ} (hf : Settles f b) (hg : Settles (g b) c) :
    Settles (fun n => (f n).bind fun x => g x n) c := by
  obtain ⟨N, hN⟩ := hf
  obtain ⟨M, hM⟩ := hg
  refine ⟨max N M, fun n hn => ?_⟩
  obtain ⟨hNn, hMn⟩ := Nat.max_le.mp hn
  simp only [hN n hNn, Option.bind_some, hM n hMn]

theorem map (g : β → γ) (hf : Settles f b) : Settles (fun n => (f n).map g) (g b) := by
  obtain ⟨N, hN⟩ := hf
  exact ⟨N, fun n hn => by simp only [hN n hn, Option.map_some]⟩

end Settles

/-! ## Loops -/

variable {body : σ → Option (σ ⊕ β)} {s s' : σ} {b : β}

theorem exec_done (h : body s = some (.inr b)) : Settles (fun n => exec body n s) b := by
  refine ⟨1, fun n hn => ?_⟩
  obtain ⟨m, rfl⟩ : ∃ m, n = m + 1 := ⟨n - 1, by omega⟩
  simp [exec, run, h]

theorem exec_pass (h : body s = some (.inl s')) (hs : Settles (fun n => exec body n s') b) :
    Settles (fun n => exec body n s) b := by
  obtain ⟨N, hN⟩ := hs
  refine ⟨N + 1, fun n hn => ?_⟩
  obtain ⟨m, rfl⟩ : ∃ m, n = m + 1 := ⟨n - 1, by omega⟩
  simp only [exec, run, h]
  exact hN m (by omega)

theorem settles_of_run {n : ℕ} (h : run body n s = some (.inr b)) :
    Settles (fun n => exec body n s) b := by
  induction n generalizing s with
  | zero => exact absurd h (by simp [run])
  | succ n ih =>
    cases hb : body s with
    | none => simp [run, hb] at h
    | some r =>
      cases r with
      | inl s' => exact exec_pass hb (ih (by simpa only [run, hb] using h))
      | inr c =>
        obtain rfl : c = b := by simpa [run, hb] using h
        exact exec_done hb

/-- What every pass keeps holds after any number of passes; the invariant may count them. -/
theorem run_keeps {I : ℕ → σ → Prop} {Q : β → Prop}
    (hbody : ∀ n s, I n s → (∃ s', body s = some (.inl s') ∧ I (n + 1) s') ∨
      ∃ b, body s = some (.inr b) ∧ Q b) {n : ℕ} {s : σ} (hs : I n s) (k : ℕ) :
    (∃ s', run body k s = some (.inl s') ∧ I (n + k) s') ∨
      ∃ b, run body k s = some (.inr b) ∧ Q b := by
  induction k generalizing n s with
  | zero => exact .inl ⟨s, rfl, hs⟩
  | succ k ih =>
    rcases hbody n s hs with ⟨s', hb, hI⟩ | ⟨b, hb, hQ⟩
    · simp only [run, hb]
      rw [show n + (k + 1) = n + 1 + k by omega]
      exact ih hI
    · exact .inr ⟨b, by simp only [run, hb], hQ⟩

end While
