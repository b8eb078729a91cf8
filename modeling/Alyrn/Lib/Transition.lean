import Mathlib.Data.List.Basic

/-!
# Labelled transition systems and their runs

A system has initial states and a partial step function; an action that is not enabled in a
state has no successor there. Everything the environment decides is part of the action.

* `ReachesBy C`: the states reached by runs all of whose steps meet `C`, a condition on the
  state before a step and on its action; `Reaches` puts no condition on the steps.
* `ReachesBy.invariant`, `ReachesBy.invariant_of`: induction over a run.
* `withHistory`: the same system with a variable that records what is seen of its steps.
* `ReachesBy.simulate`: when every step of a system is answered by a step of a simpler one that
  takes what is observed as its action, the observed histories are histories of the simpler one.
* `execBy`: evaluates a run, checking the condition at every step.
-/

namespace Transition

/-- A system over states `σ` and actions `α`. -/
structure System (σ α : Type*) where
  init : σ → Prop
  step : α → σ → Option σ

variable {σ α : Type*}

theorem of_guard {c : Prop} [Decidable c] {s s' : σ} (h : (if c then some s else none) = some s') :
    c ∧ s = s' := by
  obtain ⟨hc, h⟩ := Option.ite_none_right_eq_some.mp h
  exact ⟨hc, Option.some.inj h⟩

theorem of_unless {c : Prop} [Decidable c] {s s' : σ} (h : (if c then none else some s) = some s') :
    ¬ c ∧ s = s' := by
  obtain ⟨hc, h⟩ := Option.ite_none_left_eq_some.mp h
  exact ⟨hc, Option.some.inj h⟩

namespace System

/-- The states reached by runs all of whose steps meet `C`. -/
inductive ReachesBy (S : System σ α) (C : σ → α → Prop) : σ → Prop where
  | init {s : σ} : S.init s → ReachesBy S C s
  | step {s s' : σ} {a : α} : ReachesBy S C s → C s a → S.step a s = some s' → ReachesBy S C s'

/-- Reachable by any actions. -/
abbrev Reaches (S : System σ α) : σ → Prop := S.ReachesBy fun _ _ => True

variable {S : System σ α} {C : σ → α → Prop}

namespace ReachesBy

variable {s : σ} {D : σ → α → Prop}

theorem mono (hCD : ∀ s a, C s a → D s a) (h : S.ReachesBy C s) : S.ReachesBy D s := by
  induction h with
  | init h0 => exact .init h0
  | step _ hc hs ih => exact .step ih (hCD _ _ hc) hs

theorem reaches (h : S.ReachesBy C s) : S.Reaches s := h.mono fun _ _ _ => trivial

/-- **Invariance.** What holds initially and is kept by every step meeting `C` holds in every
state reached. -/
theorem invariant {I : σ → Prop} (h0 : ∀ s, S.init s → I s)
    (hstep : ∀ s a s', I s → C s a → S.step a s = some s' → I s')
    (h : S.ReachesBy C s) : I s := by
  induction h with
  | init hi => exact h0 _ hi
  | step _ hc hs ih => exact hstep _ _ _ ih hc hs

theorem invariant_of {I J : σ → Prop} (hJ : ∀ s, S.ReachesBy C s → J s)
    (h0 : ∀ s, S.init s → I s)
    (hstep : ∀ s a s', J s → J s' → I s → C s a → S.step a s = some s' → I s')
    (h : S.ReachesBy C s) : I s := by
  induction h with
  | init hi => exact h0 _ hi
  | step hr hc hs ih => exact hstep _ _ _ (hJ _ hr) (hJ _ (.step hr hc hs)) ih hc hs

theorem strengthen {I : σ → Prop} (hI : ∀ s, S.ReachesBy C s → I s)
    (hD : ∀ s a, I s → C s a → D s a) (h : S.ReachesBy C s) : S.ReachesBy D s := by
  induction h with
  | init h0 => exact .init h0
  | step hr hc hs ih => exact .step ih (hD _ _ (hI _ hr) hc) hs

end ReachesBy

/-! ## History variables -/

section

variable {τ : Type*} {note : σ → α → σ → τ → τ} {t₀ : τ}

/-- The system with a history variable, to which `note` adds what it sees of a step. -/
def withHistory (S : System σ α) (note : σ → α → σ → τ → τ) (t₀ : τ) : System (σ × τ) α where
  init p := S.init p.1 ∧ p.2 = t₀
  step a p := (S.step a p.1).map fun s' => (s', note p.1 a s' p.2)

theorem withHistory_step {a : α} {p p' : σ × τ} (h : (S.withHistory note t₀).step a p = some p') :
    S.step a p.1 = some p'.1 ∧ p'.2 = note p.1 a p'.1 p.2 := by
  obtain ⟨s', hs, rfl⟩ := Option.map_eq_some_iff.mp h
  exact ⟨hs, rfl⟩

theorem ReachesBy.of_withHistory {p : σ × τ}
    (h : (S.withHistory note t₀).ReachesBy (fun p a => C p.1 a) p) : S.ReachesBy C p.1 := by
  induction h with
  | init h0 => exact .init h0.1
  | step _ hc hs ih => exact .step ih hc (withHistory_step hs).1

/-- Invariance of a relation between states and histories, on top of a known invariant `J`. -/
theorem ReachesBy.invariant_withHistory {I : σ → τ → Prop} {J : σ → Prop}
    (hJ : ∀ s, S.ReachesBy C s → J s) (h0 : ∀ s, S.init s → I s t₀)
    (hstep : ∀ s a s' t, J s → I s t → C s a → S.step a s = some s' → I s' (note s a s' t))
    {p : σ × τ} (h : (S.withHistory note t₀).ReachesBy (fun p a => C p.1 a) p) : I p.1 p.2 := by
  induction h with
  | init hi => rw [hi.2]; exact h0 _ hi.1
  | step hr hc hs ih =>
    obtain ⟨hs, ht⟩ := withHistory_step hs
    rw [ht]
    exact hstep _ _ _ _ (hJ _ hr.of_withHistory) ih hc hs

end

/-! ## Simulation -/

section

variable {τ β : Type*} {T : System τ β} {observe : σ → α → σ → Option β}

/-- The system with the list of the actions taken, the latest first. -/
def recorded (S : System σ α) : System (σ × List α) α := S.withHistory (fun _ a _ l => a :: l) []

/-- The system with the list of what is observed of its steps, the latest first. -/
def observed (S : System σ α) (observe : σ → α → σ → Option β) : System (σ × List β) α :=
  S.withHistory (fun s a s' l => (observe s a s').toList ++ l) []

theorem ReachesBy.record {t t' : τ} {l : List β} {b : β} (h : T.recorded.Reaches (t, l))
    (hstep : T.step b t = some t') : T.recorded.Reaches (t', b :: l) :=
  .step (a := b) h trivial (by simp [recorded, withHistory, hstep])

/-- **Simulation.** Every step either is not observed and keeps the relation, or is answered by the
step of the simpler system that its observation names. The simpler system's state may be taken as
reached. -/
theorem ReachesBy.simulate {R : σ → τ → Prop} (h0 : ∀ s, S.init s → ∃ t, T.init t ∧ R s t)
    (hstep : ∀ s a s' t l, T.recorded.Reaches (t, l) → R s t → C s a →
      S.step a s = some s' → (observe s a s' = none ∧ R s' t) ∨
        ∃ b t', observe s a s' = some b ∧ T.step b t = some t' ∧ R s' t')
    {p : σ × List β} (h : (S.observed observe).ReachesBy (fun p a => C p.1 a) p) :
    ∃ t, T.recorded.Reaches (t, p.2) ∧ R p.1 t := by
  induction h with
  | @init p hi =>
    obtain ⟨t, ht, hR⟩ := h0 _ hi.1
    exact ⟨t, .init ⟨ht, hi.2⟩, hR⟩
  | @step p p' a _ hc hs ih =>
    obtain ⟨t, hT, hR⟩ := ih
    obtain ⟨hs, hl⟩ := withHistory_step hs
    rw [hl]
    rcases hstep _ _ _ t _ hT hR hc hs with ⟨hn, hR'⟩ | ⟨b, t', hb, ht, hR'⟩
    · rw [hn]
      exact ⟨t, hT, hR'⟩
    · rw [hb]
      exact ⟨t', hT.record ht, hR'⟩

end

/-! ## Concrete runs -/

/-- Runs the actions in order; stops with `none` at a step that is not enabled or that breaks
the condition. -/
def execBy (S : System σ α) (C : σ → α → Prop) [∀ s a, Decidable (C s a)] :
    List α → σ → Option σ
  | [], s => some s
  | a :: as, s => if C s a then (S.step a s).bind (execBy S C as) else none

theorem reachesBy_of_execBy [∀ s a, Decidable (C s a)] :
    ∀ {as : List α} {s s' : σ}, S.ReachesBy C s → S.execBy C as s = some s' → S.ReachesBy C s'
  | [], s, s', hs, h => by
    cases h
    exact hs
  | a :: as, s, s', hs, h => by
    rw [execBy] at h
    by_cases hc : C s a
    · rw [if_pos hc] at h
      obtain ⟨t, ht, hrest⟩ := Option.bind_eq_some_iff.mp h
      exact reachesBy_of_execBy (.step hs hc ht) hrest
    · rw [if_neg hc] at h
      exact absurd h (by simp)

/-- A run whose last state meets `P`, as evaluated by `execBy`. -/
theorem exists_reachesBy (S : System σ α) (C : σ → α → Prop) [∀ s a, Decidable (C s a)] (s₀ : σ)
    (h0 : S.init s₀) (as : List α) {P : σ → Prop} [DecidablePred P]
    (h : (S.execBy C as s₀).any (fun s => decide (P s)) = true) : ∃ s, S.ReachesBy C s ∧ P s := by
  obtain ⟨s, hr, hp⟩ := Option.any_eq_true .. |>.mp h
  exact ⟨s, reachesBy_of_execBy (.init h0) hr, of_decide_eq_true hp⟩

/-- The same, with what is known of the states reached. -/
theorem exists_reachesBy_and (S : System σ α) (C : σ → α → Prop) [∀ s a, Decidable (C s a)] (s₀ : σ)
    (h0 : S.init s₀) (as : List α) {P Q : σ → Prop} [DecidablePred P]
    (h : (S.execBy C as s₀).any (fun s => decide (P s)) = true)
    (hQ : ∀ s, S.ReachesBy C s → P s → Q s) : ∃ s, (S.ReachesBy C s ∧ P s) ∧ Q s := by
  obtain ⟨s, hr, hp⟩ := S.exists_reachesBy C s₀ h0 as h
  exact ⟨s, ⟨hr, hp⟩, hQ s hr hp⟩

end System

end Transition
