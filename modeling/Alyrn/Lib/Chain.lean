import Mathlib.Data.List.Nodup
import Mathlib.Logic.Function.Basic

/-!
# Chains of pointers

`Path next a l b`: following `next` from `a` visits the cells `l`, in this order, and then
arrives at `b`. Containers made of pointers are such paths from a sentinel back to it. The lemmas
say how a path splits, which writes leave it alone and what the write of its last link does.

`Cell` is the type of addresses of a family of containers: the sentinels and the elements.
-/

namespace Chain

open Function

/-- The sentinel of a container or an element. -/
inductive Cell (κ ν : Type*) where
  | head (k : κ)
  | elem (x : ν)
  deriving DecidableEq, Repr

def Cell.elem? {κ ν : Type*} : Cell κ ν → Option ν
  | .head _ => none
  | .elem x => some x

variable {α : Type*} {next next' : α → Option α} {a b c : α} {l l' : List α}

theorem isSome_update_some [DecidableEq α] (hc : (next c).isSome) (v a : α) :
    (update next c (some v) a).isSome ↔ (next a).isSome := by
  by_cases ha : a = c
  · subst ha
    simp [hc]
  · rw [update_of_ne ha]

/-- From the first to the last cell, through the cells of the list. -/
def Path (next : α → Option α) : α → List α → α → Prop
  | a, [], b => next a = some b
  | a, x :: l, b => next a = some x ∧ Path next x l b

/-- What is left of a path behind the link to its first cell. -/
def Rest (next : α → Option α) : List α → α → Prop
  | [], _ => True
  | x :: l, b => Path next x l b

namespace Path

variable {x : α}

theorem append_iff : Path next a (l ++ x :: l') b ↔ Path next a l x ∧ Path next x l' b := by
  induction l generalizing a with
  | nil => rfl
  | cons y l ih => simp only [List.cons_append, Path, ih, and_assoc]

theorem congr (h : Path next a l b) (hn : ∀ x ∈ a :: l, next' x = next x) : Path next' a l b := by
  induction l generalizing a with
  | nil => exact (hn a (by simp)).trans h
  | cons y l ih =>
    exact ⟨(hn a (by simp)).trans h.1, ih h.2 fun x hx => hn x (List.mem_cons_of_mem _ hx)⟩

theorem update_of_notMem [DecidableEq α] {v : Option α} (h : Path next a l b)
    (hc : c ∉ a :: l) : Path (update next c v) a l b :=
  h.congr fun _ hx => update_of_ne (ne_of_mem_of_not_mem hx hc) _ _

theorem rest_update_of_notMem [DecidableEq α] {v : Option α} (h : Rest next l b) (hc : c ∉ l) :
    Rest (update next c v) l b := by
  cases l with
  | nil => trivial
  | cons x l => exact update_of_notMem h hc

theorem isSome (h : Path next a l b) (hx : x ∈ a :: l) : (next x).isSome := by
  induction l generalizing a with
  | nil =>
    obtain rfl : x = a := by simpa using hx
    rw [show next x = some b from h]
    rfl
  | cons y l ih =>
    rcases List.mem_cons.mp hx with rfl | hx
    · rw [h.1]
      rfl
    · exact ih h.2 hx

theorem next_last (h : Path next a l b) : next (l.getLastD a) = some b := by
  induction l generalizing a with
  | nil => exact h
  | cons y l ih =>
    rw [List.getLastD_cons]
    exact ih h.2

theorem append_rest :
    Path next a (l ++ l') b ↔ Path next a l (l'.headD b) ∧ Rest next l' b := by
  cases l' with
  | nil => simp [Rest]
  | cons x l' => exact append_iff

theorem next_part (h : Path next a (l ++ l') b) : next (l.getLastD a) = some (l'.headD b) :=
  (append_rest.mp h).1.next_last

theorem setLast [DecidableEq α] (h : Path next a l b) (hd : (a :: l).Nodup) (c : α) :
    Path (update next (l.getLastD a) (some c)) a l c := by
  induction l generalizing a with
  | nil => exact update_self ..
  | cons y l ih =>
    obtain ⟨ha, hd⟩ := List.nodup_cons.mp hd
    rw [List.getLastD_cons]
    have hne : a ≠ l.getLastD y := (ne_of_mem_of_not_mem List.getLastD_mem_cons ha).symm
    exact ⟨(update_of_ne hne _ _).trans h.1, ih h.2 hd⟩

theorem detour [DecidableEq α] {k : List α} (h : Path next a (l ++ l') b)
    (hk : Path next x k c) (hd : (a :: (l ++ l')).Nodup) (hkd : (x :: k).Nodup)
    (hdisj : (a :: (l ++ l')).Disjoint (x :: k)) :
    Path (update (update next (l.getLastD a) (some x)) (k.getLastD x)
      (some (l'.headD b))) a (l ++ x :: (k ++ l')) b := by
  obtain ⟨hl, hrest⟩ := append_rest.mp h
  rw [← List.cons_append] at hd hdisj
  obtain ⟨hdl, -, hll'⟩ := List.nodup_append'.mp hd
  have hlast : l.getLastD a ∈ a :: l := List.getLastD_mem_cons
  have hklast : k.getLastD x ∈ x :: k := List.getLastD_mem_cons
  refine append_iff.mpr ⟨?_, append_rest.mpr ⟨?_, ?_⟩⟩
  · exact (hl.setLast hdl x).update_of_notMem fun hm =>
      hdisj (List.mem_append_left _ hm) hklast
  · exact (hk.update_of_notMem (hdisj (List.mem_append_left _ hlast))).setLast hkd _
  · exact rest_update_of_notMem (rest_update_of_notMem hrest (hll' hlast)) fun hm =>
      hdisj (List.mem_append_right _ hm) hklast

theorem insert [DecidableEq α] (h : Path next a (l ++ l') b)
    (hd : (a :: (l ++ l')).Nodup) (hx : x ∉ a :: (l ++ l')) :
    Path (update (update next x (next (l.getLastD a))) (l.getLastD a) (some x))
      a (l ++ x :: l') b := by
  have hne : l.getLastD a ≠ x := by
    refine ne_of_mem_of_not_mem ?_ hx
    rw [← List.cons_append]
    exact List.mem_append_left _ List.getLastD_mem_cons
  -- with its link the fresh cell is a chain of its own
  have hself : Path (update next x (some (l'.headD b))) x [] (l'.headD b) :=
    update_self ..
  have := (h.update_of_notMem hx).detour hself hd (List.nodup_singleton x) (by simpa using hx)
  rw [List.getLastD_nil, update_comm hne, update_idem] at this
  rwa [h.next_part]

theorem bypass [DecidableEq α] (h : Path next a (l ++ x :: l') b)
    (hd : (a :: (l ++ x :: l')).Nodup) :
    Path (update next (l.getLastD a) (next x)) a (l ++ l') b := by
  obtain ⟨hl, hx⟩ := append_iff.mp h
  obtain ⟨hnext, hrest⟩ := append_rest (l := []).mp hx
  rw [← List.cons_append] at hd
  obtain ⟨hdl, -, hdisj⟩ := List.nodup_append'.mp hd
  rw [show next x = some (l'.headD b) from hnext]
  refine append_rest.mpr ⟨hl.setLast hdl _, rest_update_of_notMem hrest fun hm => ?_⟩
  exact hdisj List.getLastD_mem_cons (List.mem_cons_of_mem _ hm)

end Path

/-! ## Rings: a sentinel and its elements -/

section

variable {κ ν : Type*} {q q' : κ} {k l : List ν} {x y : ν}

theorem Cell.elem_ne (h : x ≠ y) : (Cell.elem x : Cell κ ν) ≠ .elem y :=
  fun he => h (by injection he)

/-- The cells of a ring: its sentinel and its elements. -/
def cells (q : κ) (l : List ν) : List (Cell κ ν) := .head q :: l.map .elem

/-- The last element, or the sentinel of an empty ring. -/
def lastCell (q : κ) (l : List ν) : Cell κ ν := (l.map Cell.elem).getLastD (.head q)

theorem lastCell_mem : lastCell q l ∈ cells q l := List.getLastD_mem_cons

theorem nodup_cells (hl : l.Nodup) : (cells q l).Nodup :=
  List.nodup_cons.mpr ⟨by simp, hl.map fun _ _ h => by injection h⟩

@[simp] theorem elem_mem_cells : Cell.elem x ∈ cells q l ↔ x ∈ l := by simp [cells]

@[simp] theorem head_mem_cells : Cell.head q' ∈ cells q l ↔ q' = q := by simp [cells]

theorem lastCell_append_cons : lastCell q (k ++ x :: l) =
    (l.map Cell.elem).getLastD (Cell.elem x : Cell κ ν) := by
  have (c : Cell κ ν) : ((k ++ x :: l).map Cell.elem).getLastD c =
      (l.map Cell.elem).getLastD (Cell.elem x) := by
    induction k generalizing c with
    | nil => rw [List.nil_append, List.map_cons, List.getLastD_cons]
    | cons y k ih =>
      rw [List.cons_append, List.map_cons, List.getLastD_cons]
      exact ih _
  exact this _

theorem lastCell_append_singleton : lastCell q (k ++ [x]) = Cell.elem x := lastCell_append_cons

/-- The first element, or the sentinel of an empty ring. -/
def firstCell (q : κ) (l : List ν) : Cell κ ν := (l.map Cell.elem).headD (.head q)

theorem lastCell_reverse : lastCell q l.reverse = firstCell q l := by
  cases l with
  | nil => rfl
  | cons x l => rw [List.reverse_cons, lastCell_append_singleton]; rfl

theorem firstCell_reverse : firstCell q l.reverse = lastCell q l := by
  rw [← lastCell_reverse, List.reverse_reverse]

theorem lastCell_remove (hl : l ≠ []) : lastCell q (k ++ x :: l) = lastCell q (k ++ l) := by
  obtain ⟨y, l, rfl⟩ := List.exists_cons_of_ne_nil hl
  rw [lastCell_append_cons, lastCell_append_cons, List.map_cons, List.getLastD_cons]

theorem splice_ring [DecidableEq κ] [DecidableEq ν] {next : Cell κ ν → Option (Cell κ ν)} {o : κ}
    {a b : List ν} (hq : Path next (.head q) ((a ++ b).map .elem) (.head q))
    (ho : Path next (.head o) (l.map .elem) (.head o)) (hoq : o ≠ q) (hl : l ≠ [])
    (hd : (a ++ l ++ b).Nodup) :
    Path (update (update (update next (lastCell q a)
      (some (firstCell o l))) (lastCell o l) (some (firstCell q b))) (.head o) (some (.head o)))
      (.head q) ((a ++ l ++ b).map .elem) (.head q) := by
  obtain ⟨x, l, rfl⟩ := List.exists_cons_of_ne_nil hl
  refine Path.update_of_notMem ?_ (by simp [hoq])
  obtain ⟨hal, hb, hdisj⟩ := List.nodup_append'.mp hd
  obtain ⟨ha, hxl, hdisj'⟩ := List.nodup_append'.mp hal
  have hab : (a ++ b).Nodup := List.nodup_append'.mpr
    ⟨ha, hb, fun y hy hy' => hdisj (List.mem_append_left _ hy) hy'⟩
  have hfar : (Cell.head q :: (a ++ b).map Cell.elem).Disjoint ((x :: l).map Cell.elem) := by
    intro c hc hcl
    obtain ⟨y, hy, rfl⟩ := List.mem_map.mp hcl
    rcases List.mem_append.mp (elem_mem_cells (q := q).mp hc) with hya | hyb
    · exact hdisj' hya hy
    · exact hdisj (List.mem_append_right _ hy) hyb
  rw [show lastCell o (x :: l) = _ from lastCell_append_cons (k := []), List.append_assoc,
    List.cons_append, List.map_append, List.map_cons, List.map_append]
  exact Path.detour (List.map_append ▸ hq) ho.2 (List.map_append ▸ nodup_cells hab)
    (List.nodup_cons.mp (nodup_cells (q := o) hxl)).2 (List.map_append ▸ hfar)

end

/-! ## Elements of several rings -/

section

variable {κ ν : Type*} {linked linked' : ν → Prop} {m : κ → List ν} {q q' : κ} {l : List ν} {x : ν}

/-- No element is in two of the lists, and `linked` says which elements are in one. -/
structure Partition (linked : ν → Prop) (m : κ → List ν) : Prop where
  linked_iff : ∀ x, linked x ↔ ∃ q, x ∈ m q
  apart : ∀ q q' x, x ∈ m q → x ∈ m q' → q = q'

namespace Partition

theorem linked_of_mem (h : Partition linked m) (hx : x ∈ m q) : linked x :=
  (h.linked_iff x).mpr ⟨q, hx⟩

theorem cells_apart (h : Partition linked m) (hq : q ≠ q') {c : Cell κ ν}
    (hc : c ∈ cells q (m q)) : c ∉ cells q' (m q') := by
  intro hc'
  cases c with
  | head p =>
    rw [head_mem_cells] at hc hc'
    exact hq (hc ▸ hc')
  | elem x =>
    rw [elem_mem_cells] at hc hc'
    exact hq (h.apart _ _ _ hc hc')

variable [DecidableEq κ]

theorem update (h : Partition linked m)
    (hlinked : ∀ y, linked' y ↔ y ∈ l ∨ y ∉ m q ∧ linked y)
    (hapart : ∀ y ∈ l, ∀ p, p ≠ q → y ∉ m p) : Partition linked' (Function.update m q l) where
  linked_iff y := by
    rw [hlinked, h.linked_iff]
    constructor
    · rintro (hy | ⟨hyq, p, hy⟩)
      · exact ⟨q, by rwa [update_self]⟩
      · have hp : p ≠ q := by
          rintro rfl
          exact hyq hy
        exact ⟨p, by rwa [update_of_ne hp]⟩
    · rintro ⟨p, hy⟩
      by_cases hp : p = q
      · subst hp
        rw [update_self] at hy
        exact .inl hy
      · rw [update_of_ne hp] at hy
        exact .inr ⟨fun hyq => hp (h.apart _ _ _ hy hyq), p, hy⟩
  apart p p' y hy hy' := by
    by_cases hp : p = q <;> by_cases hp' : p' = q
    · exact hp.trans hp'.symm
    · subst hp
      rw [update_self] at hy
      rw [update_of_ne hp'] at hy'
      exact absurd hy' (hapart y hy p' hp')
    · subst hp'
      rw [update_self] at hy'
      rw [update_of_ne hp] at hy
      exact absurd hy (hapart y hy' p hp)
    · rw [update_of_ne hp] at hy
      rw [update_of_ne hp'] at hy'
      exact h.apart p p' y hy hy'

theorem insert (h : Partition linked m) {a b : List ν} (hm : m q = a ++ b) (hx : ¬ linked x)
    (hlinked : ∀ y, linked' y ↔ y = x ∨ linked y) :
    Partition linked' (Function.update m q (a ++ x :: b)) := by
  have hmem : ∀ y, y ∈ a ++ x :: b ↔ y = x ∨ y ∈ m q := by
    intro y
    rw [hm]
    simp only [List.mem_append, List.mem_cons]
    tauto
  refine h.update (fun y => ?_) fun y hy p hp hyp => ?_
  · rw [hlinked, hmem]
    have := h.linked_of_mem (q := q) (x := y)
    tauto
  · rcases (hmem y).mp hy with rfl | hy
    · exact hx (h.linked_of_mem hyp)
    · exact hp (h.apart _ _ _ hyp hy)

theorem remove (h : Partition linked m) {a b : List ν} (hm : m q = a ++ x :: b)
    (hx : x ∉ a ++ b) (hlinked : ∀ y, linked' y ↔ y ≠ x ∧ linked y) :
    Partition linked' (Function.update m q (a ++ b)) := by
  have hmem : ∀ y, y ∈ m q ↔ y = x ∨ y ∈ a ++ b := by
    intro y
    rw [hm]
    simp only [List.mem_append, List.mem_cons]
    tauto
  refine h.update (fun y => ?_) fun y hy p hp hyp => ?_
  · rw [hlinked, hmem]
    have hxy : y = x → y ∉ a ++ b := fun hyx => hyx ▸ hx
    have := fun hy => h.linked_of_mem (q := q) (x := y) ((hmem y).mpr (.inr hy))
    tauto
  · exact hp (h.apart _ _ _ hyp ((hmem y).mpr (.inr hy)))

theorem mem_spliced {o p : κ} (ho : o ≠ q) : x ∈ Function.update (Function.update m q
    (m q ++ m o)) o [] p ↔ (p ≠ o ∧ x ∈ m p) ∨ (p = q ∧ x ∈ m o) := by
  by_cases hp : p = o
  · subst hp
    simp [ho]
  · rw [update_of_ne hp]
    by_cases hpq : p = q
    · subst hpq
      simp [hp]
    · simp [hp, hpq]

theorem splice_frame [DecidableEq ν] (h : Partition linked m) {o p : κ}
    {next : Cell κ ν → Option (Cell κ ν)} {u v c : Cell κ ν} {r s t : Option (Cell κ ν)}
    (hp : p ≠ o) (hpq : p ≠ q) (hu : u ∈ cells q (m q)) (hv : v ∈ cells o (m o))
    (hc : c ∈ cells p (m p)) : Function.update (Function.update (Function.update next u r) v s)
      (.head o) t c = next c := by
  have hcq := h.cells_apart hpq hc
  have hco := h.cells_apart hp hc
  rw [update_of_ne (ne_of_mem_of_not_mem (head_mem_cells.mpr rfl) hco).symm,
    update_of_ne (ne_of_mem_of_not_mem hv hco).symm,
    update_of_ne (ne_of_mem_of_not_mem hu hcq).symm]

theorem splice (h : Partition linked m) {o : κ} (ho : o ≠ q)
    (hlinked : ∀ y, linked' y ↔ linked y) :
    Partition linked' (Function.update (Function.update m q (m q ++ m o)) o []) where
  linked_iff y := by
    rw [hlinked, h.linked_iff]
    constructor
    · rintro ⟨p, hp⟩
      by_cases hpo : p = o
      · subst hpo
        exact ⟨q, (mem_spliced ho).mpr (.inr ⟨rfl, hp⟩)⟩
      · exact ⟨p, (mem_spliced ho).mpr (.inl ⟨hpo, hp⟩)⟩
    · rintro ⟨p, hp⟩
      rcases (mem_spliced ho).mp hp with ⟨-, hp⟩ | ⟨-, hp⟩
      · exact ⟨p, hp⟩
      · exact ⟨o, hp⟩
  apart p p' y hy hy' := by
    rcases (mem_spliced ho).mp hy with ⟨hpo, hp⟩ | ⟨rfl, hp⟩ <;>
      rcases (mem_spliced ho).mp hy' with ⟨hpo', hp'⟩ | ⟨rfl, hp'⟩
    · exact h.apart _ _ _ hp hp'
    · exact absurd (h.apart _ _ _ hp hp') hpo
    · exact absurd (h.apart _ _ _ hp' hp) hpo'
    · rfl

end Partition

end

end Chain
