import Mathlib.Data.Prod.Lex
import Alyrn.Lib.OrderedIndex

/-!
# Timers and their index

The index is assumed to be an ordered one. The intrusive red-black tree that holds the timers is not
modelled: what is proved of the timer queues rests on this specification of it.
-/

namespace Alyrn.Detail

/-- A timer; one with interval zero runs once. -/
structure Timer where
  sequence : ℕ
  expiration : ℕ
  interval : ℕ
  deriving DecidableEq, Repr

namespace Timer

/-- A timer without an interval expires once. -/
def repeats (t : Timer) : Bool := 0 < t.interval

def restart (t : Timer) (now : ℕ) : Timer := { t with expiration := now + t.interval }

/-- `TimerLess` is the order of these keys. -/
def key (t : Timer) : ℕ ×ₗ ℕ := toLex (t.expiration, t.sequence)

theorem expiration_le_of_key_le {a b : Timer} (h : a.key ≤ b.key) :
    a.expiration ≤ b.expiration := by
  rcases Prod.Lex.le_iff.mp h with h | h
  · exact h.le
  · exact h.1.le

theorem lt_restart (t : Timer) (h : t.repeats = true) (now : ℕ) :
    now < (t.restart now).expiration :=
  Nat.lt_add_of_pos_right (of_decide_eq_true h)

theorem filter_cons_eq {t : Timer} {ts : List Timer} (hd : ((t :: ts).map (·.sequence)).Nodup) :
    (t :: ts).filter (·.sequence ≠ t.sequence) = ts := by
  rw [List.map_cons, List.nodup_cons] at hd
  rw [List.filter_cons_of_neg (by simp), List.filter_eq_self]
  intro u hu
  exact decide_eq_true fun heq => hd.1 (heq ▸ List.mem_map_of_mem hu)

theorem perm_cons_filter {t : Timer} {ts : List Timer} (hd : (ts.map (·.sequence)).Nodup)
    (ht : t ∈ ts) : ts.Perm (t :: ts.filter (·.sequence ≠ t.sequence)) := by
  induction ts with
  | nil => exact absurd ht List.not_mem_nil
  | cons u us ih =>
    rcases List.mem_cons.mp ht with rfl | ht
    · rw [filter_cons_eq hd]
    · rw [List.map_cons, List.nodup_cons] at hd
      have hne : u.sequence ≠ t.sequence := fun heq => hd.1 (heq ▸ List.mem_map_of_mem ht)
      rw [List.filter_cons_of_pos (by simpa using hne)]
      exact ((ih hd.2 ht).cons u).trans (.swap _ _ _)

end Timer

/-- The assumed specification of the tree of `TimerIndex`. -/
abbrev TimerIndex := OrderedIndex Timer.key

end Alyrn.Detail
