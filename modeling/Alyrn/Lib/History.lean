import Mathlib.Data.List.Basic

/-!
# Laws of a history

A history is the list of the events of a run, the latest first. A law says what may happen after a
given past; a history keeps the law when each of its events does.
-/

namespace History

variable {α : Type*} {P Q : List α → α → Prop} {e : α} {l : List α}

/-- Every event keeps the law `P` of its past. -/
def Keeps (P : List α → α → Prop) (l : List α) : Prop := ∀ e past, (e :: past) <:+ l → P past e

theorem Keeps.nil : Keeps P [] := by
  intro e past h
  exact absurd (List.suffix_nil.mp h) (List.cons_ne_nil _ _)

theorem Keeps.cons (h : Keeps P l) (he : P l e) : Keeps P (e :: l) := by
  intro e' past hs
  rcases List.suffix_cons_iff.mp hs with heq | hs
  · obtain ⟨rfl, rfl⟩ := List.cons.inj heq
    exact he
  · exact h e' past hs

end History
