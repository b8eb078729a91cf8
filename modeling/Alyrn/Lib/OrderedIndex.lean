import Mathlib.Data.List.Sort

/-!
# Ordered indexes

A collection whose elements stand in the order of a key, with the first one at hand: what an ordered
tree or a priority queue offers to its user.
-/

/-- Elements in the order of their keys. -/
structure OrderedIndex {α κ : Type*} [LinearOrder κ] (key : α → κ) where
  toList : List α
  sorted : toList.Pairwise fun a b => key a ≤ key b

namespace OrderedIndex

variable {α κ : Type*} [LinearOrder κ] {key : α → κ}

def empty : OrderedIndex key := ⟨[], .nil⟩

instance : Std.Total fun a b : α => key a ≤ key b := ⟨fun _ _ => le_total _ _⟩

instance : IsTrans α fun a b => key a ≤ key b := ⟨fun _ _ _ => le_trans⟩

variable (q : OrderedIndex key)

def insert (a : α) : OrderedIndex key :=
  ⟨q.toList.orderedInsert (fun a b => key a ≤ key b) a, q.sorted.orderedInsert a _⟩

/-- Keeps the elements that pass the test. -/
def filter (p : α → Bool) : OrderedIndex key := ⟨q.toList.filter p, q.sorted.filter p⟩

def earliest : Option α := q.toList.head?

def pop : OrderedIndex key := ⟨q.toList.tail, q.sorted.tail⟩

variable {q} {a b : α} {p : α → Bool}

theorem ext_toList {p q : OrderedIndex key} (h : p.toList = q.toList) : p = q := by
  cases p
  cases q
  congr

@[simp]
theorem mem_insert : a ∈ (q.insert b).toList ↔ a = b ∨ a ∈ q.toList := List.mem_orderedInsert _

@[simp]
theorem mem_filter : a ∈ (q.filter p).toList ↔ a ∈ q.toList ∧ p a = true :=
  List.mem_filter

theorem filter_insert_of_neg (ha : p a = false) : (q.insert a).filter p = q.filter p := by
  refine ext_toList ?_
  show (q.toList.orderedInsert (fun a b => key a ≤ key b) a).filter p = q.toList.filter p
  induction q.toList with
  | nil => simp [ha]
  | cons b bs ih =>
    rw [List.orderedInsert]
    split
    · rw [List.filter_cons_of_neg (by simp [ha])]
    · rw [List.filter_cons, ih, List.filter_cons]

theorem filter_eq_self (h : ∀ a ∈ q.toList, p a = true) : q.filter p = q :=
  ext_toList (List.filter_eq_self.mpr h)

theorem mem_of_mem_pop (h : a ∈ q.pop.toList) : a ∈ q.toList := List.mem_of_mem_tail h

theorem toList_eq_of_earliest (h : q.earliest = some a) : q.toList = a :: q.pop.toList :=
  List.eq_cons_of_mem_head? h

theorem mem_of_earliest (h : q.earliest = some a) : a ∈ q.toList := by
  rw [toList_eq_of_earliest h]
  exact List.mem_cons_self

theorem earliest_eq_none (h : q.earliest = none) : a ∉ q.toList := by
  rw [List.head?_eq_none_iff.mp h]
  exact List.not_mem_nil

theorem earliest_le (h : q.earliest = some a) (hb : b ∈ q.toList) : key a ≤ key b := by
  have hs := q.sorted
  rw [toList_eq_of_earliest h] at hs hb
  rcases List.mem_cons.mp hb with rfl | hb
  · exact le_rfl
  · exact (List.pairwise_cons.mp hs).1 b hb

end OrderedIndex
