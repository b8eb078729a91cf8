import Alyrn.Detail.IntrusiveList

/-!
# The links of an `IntrusiveList`

`Holds h m`: the links of the heap `h` spell the lists `m`, in both directions. Insertion and
removal of a node keep it; the two directions are the same facts about chains, read once forwards
and once backwards.
-/

namespace Alyrn.Detail

open Chain Function

namespace IntrusiveLists

variable {κ ν : Type}

/-- List `q` is the ring of the nodes `l`, in both directions. -/
structure Spells (h : IntrusiveLists κ ν) (q : κ) (l : List ν) : Prop where
  next : Path h.next (.head q) (l.map .elem) (.head q)
  prev : Path h.prev (.head q) (l.reverse.map .elem) (.head q)
  nodup : l.Nodup

/-- Every list spells its sequence. -/
structure Holds (h : IntrusiveLists κ ν) (m : κ → List ν) : Prop where
  spells : ∀ q, h.Spells q (m q)
  /-- No node is in two lists; it is linked exactly when it is in one. -/
  members : Partition (fun x => h.inList x = true) m

variable {h h' : IntrusiveLists κ ν} {m : κ → List ν} {q : κ} {a b l : List ν} {x : ν}

theorem Spells.frame (hs : h.Spells q l) (hn : ∀ c ∈ cells q l, h'.next c = h.next c)
    (hp : ∀ c ∈ cells q l, h'.prev c = h.prev c) : h'.Spells q l := by
  refine ⟨hs.next.congr hn, hs.prev.congr fun c hc => hp c ?_, hs.nodup⟩
  simpa [cells] using hc

namespace Holds

theorem initial : (IntrusiveLists.initial : IntrusiveLists κ ν).Holds fun _ => [] where
  spells _ := ⟨rfl, rfl, List.nodup_nil⟩
  members := ⟨fun _ => by simp [IntrusiveLists.initial, inList], fun _ _ _ h => absurd h (by simp)⟩

theorem next_lastCell (hh : h.Holds m) (hm : m q = a ++ b) :
    h.next (lastCell q a) = some (firstCell q b) := by
  have hn := hm ▸ (hh.spells q).next
  rw [List.map_append] at hn
  exact hn.next_part

theorem prev_firstCell (hh : h.Holds m) (hm : m q = a ++ b) :
    h.prev (firstCell q b) = some (lastCell q a) := by
  have hp := hm ▸ (hh.spells q).prev
  rw [List.reverse_append, List.map_append] at hp
  rw [← lastCell_reverse, ← firstCell_reverse (l := a)]
  exact hp.next_part

theorem lastCell_mem_cells (hm : m q = a ++ b) : lastCell q a ∈ cells q (m q) := by
  rw [hm, cells, List.map_append, ← List.cons_append]
  exact List.mem_append_left _ lastCell_mem

theorem firstCell_mem_cells (hm : m q = a ++ b) : firstCell q b ∈ cells q (m q) := by
  rw [hm]
  cases b with
  | nil => exact List.mem_cons_self
  | cons x b => exact elem_mem_cells.mpr (by simp)

variable [DecidableEq κ]

theorem relink (hh : h.Holds m) (hs : h'.Spells q l)
    (hother : ∀ p, p ≠ q → ∀ c ∈ cells p (m p), h'.next c = h.next c ∧ h'.prev c = h.prev c)
    (hmembers : Partition (fun x => h'.inList x = true) (update m q l)) :
    h'.Holds (update m q l) where
  spells p := by
    by_cases hp : p = q
    · subst hp
      rwa [update_self]
    · rw [update_of_ne hp]
      exact (hh.spells p).frame (fun c hc => (hother p hp c hc).1) fun c hc => (hother p hp c hc).2
  members := hmembers

/-! ## Insertion -/

variable [DecidableEq ν]

theorem linkBetween (hh : h.Holds m) (hm : m q = a ++ b) (hx : h.inList x = false) :
    (h.linkBetween (.elem x) (lastCell q a) (firstCell q b)).Holds
      (update m q (a ++ x :: b)) := by
  have hs := hm ▸ hh.spells q
  have hfresh : ∀ p, (Cell.elem x : Cell κ ν) ∉ cells p (m p) := by
    intro p hp
    have := hh.members.linked_of_mem (elem_mem_cells.mp hp)
    exact Bool.false_ne_true (hx.symm.trans this)
  have hxq : (Cell.elem x : Cell κ ν) ∉ cells q (a ++ b) := hm ▸ hfresh q
  have hbefore : lastCell q a ∈ cells q (m q) := lastCell_mem_cells hm
  have hafter : firstCell q b ∈ cells q (m q) := firstCell_mem_cells hm
  have hnext : (h.linkBetween (.elem x) (lastCell q a) (firstCell q b)).next =
      update (update h.next (.elem x) (h.next (lastCell q a))) (lastCell q a)
        (some (.elem x)) := by
    rw [hh.next_lastCell hm]
    rfl
  have hprev : (h.linkBetween (.elem x) (lastCell q a) (firstCell q b)).prev =
      update (update h.prev (.elem x) (h.prev (firstCell q b))) (firstCell q b)
        (some (.elem x)) := by
    rw [hh.prev_firstCell hm]
    rfl
  refine hh.relink ⟨?_, ?_, ?_⟩ (fun p hp c hc => ?_) (hh.members.insert hm ?_ fun y => ?_)
  · rw [hnext, List.map_append, List.map_cons]
    refine Path.insert ?_ ?_ ?_
    · simpa using hs.next
    · simpa [cells] using nodup_cells (q := q) hs.nodup
    · simpa [cells] using hxq
  · rw [hprev, ← lastCell_reverse, List.reverse_append, List.reverse_cons, List.append_assoc,
      List.singleton_append, List.map_append, List.map_cons]
    refine Path.insert ?_ ?_ ?_
    · simpa using hs.prev
    · have hnd : (b.reverse ++ a.reverse).Nodup := by
        rw [← List.reverse_append]
        exact List.nodup_reverse.mpr hs.nodup
      simpa [cells] using nodup_cells (q := q) hnd
    · simpa [cells, and_comm] using hxq
  · exact List.nodup_middle.mpr (List.nodup_cons.mpr ⟨by simpa using hxq, hs.nodup⟩)
  · have hcx : c ≠ .elem x := ne_of_mem_of_not_mem hc (hfresh p)
    have hcq := hh.members.cells_apart hp hc
    rw [hnext, hprev, update_of_ne (ne_of_mem_of_not_mem hbefore hcq).symm,
      update_of_ne hcx, update_of_ne (ne_of_mem_of_not_mem hafter hcq).symm,
      update_of_ne hcx]
    exact ⟨rfl, rfl⟩
  · simp [hx]
  · have hset : ((h.linkBetween (.elem x) (lastCell q a) (firstCell q b)).next (.elem y)).isSome ↔
        (update h.next (.elem x) (h.next (lastCell q a)) (.elem y)).isSome := by
      rw [hnext]
      refine isSome_update_some ?_ _ _
      rw [update_of_ne (ne_of_mem_of_not_mem hbefore (hfresh q))]
      exact (hh.spells q).next.isSome hbefore
    rw [inList, hset]
    by_cases hy : y = x
    · subst hy
      simp [hh.next_lastCell hm]
    · simp [hy, inList]

/-! ## Removal -/

theorem unlink (hh : h.Holds m) (hm : m q = a ++ x :: b) :
    ∃ h', h.unlink (.elem x) = some h' ∧ h'.Holds (update m q (a ++ b)) := by
  have hs := hm ▸ hh.spells q
  have hm' : m q = (a ++ [x]) ++ b := by simpa using hm
  have hx : x ∉ a ++ b := (List.nodup_middle.mp hs.nodup).notMem
  have hxq : Cell.elem x ∈ cells q (m q) := by simp [hm]
  have hbefore : lastCell q a ∈ cells q (m q) := lastCell_mem_cells hm
  have hafter : firstCell q b ∈ cells q (m q) := firstCell_mem_cells hm'
  have hp : h.prev (.elem x) = some (lastCell q a) := hh.prev_firstCell hm
  have hn : h.next (.elem x) = some (firstCell q b) := by
    rw [← lastCell_append_singleton (k := a)]
    exact hh.next_lastCell hm'
  have hne : (Cell.elem x : Cell κ ν) ≠ lastCell q a := by
    refine (ne_of_mem_of_not_mem lastCell_mem ?_).symm
    simpa using fun hxa => hx (List.mem_append_left _ hxa)
  refine ⟨{
    next := update (update h.next (lastCell q a) (h.next (.elem x))) (.elem x) none
    prev := update (update h.prev (firstCell q b) (h.prev (.elem x)))
      (.elem x) none }, ?_, ?_⟩
  · simp [IntrusiveLists.unlink, spliceOut, hp, hn, setNext, setPrev, clearHook, hne]
  refine hh.relink ⟨?_, ?_, ?_⟩ (fun p hp c hc => ?_) (hh.members.remove hm hx fun y => ?_)
  · rw [List.map_append]
    refine Path.update_of_notMem (Path.bypass ?_ ?_) (by simpa using hx)
    · simpa using hs.next
    · simpa [cells] using nodup_cells (q := q) hs.nodup
  · rw [← lastCell_reverse, List.reverse_append, List.map_append]
    refine Path.update_of_notMem (Path.bypass ?_ ?_) (by simpa [and_comm] using hx)
    · simpa using hs.prev
    · have hnd : (b.reverse ++ x :: a.reverse).Nodup := by
        have := List.nodup_reverse.mpr hs.nodup
        simpa using this
      simpa [cells] using nodup_cells (q := q) hnd
  · exact (List.nodup_middle.mp hs.nodup).of_cons
  · have hcq := hh.members.cells_apart hp hc
    have hcx : c ≠ .elem x := (ne_of_mem_of_not_mem hxq hcq).symm
    exact ⟨(update_of_ne hcx _ _).trans
        (update_of_ne (ne_of_mem_of_not_mem hbefore hcq).symm _ _),
      (update_of_ne hcx _ _).trans
        (update_of_ne (ne_of_mem_of_not_mem hafter hcq).symm _ _)⟩
  · by_cases hy : y = x
    · subst hy
      simp [inList]
    · have hset := isSome_update_some ((hh.spells q).next.isSome hbefore) (firstCell q b) (.elem y)
      simp only [inList, hn, update_of_ne (Cell.elem_ne hy), hset, ne_eq, hy,
        not_false_eq_true, true_and]

/-! ## `PushBack` and `Erase` -/

theorem pushBack (hh : h.Holds m) (q : κ) (x : ν) :
    (h.inList x = true ∧ h.pushBack q (some x) = some (false, h)) ∨
      (h.inList x = false ∧ ∃ h', h.pushBack q (some x) = some (true, h') ∧
        h'.Holds (update m q (m q ++ [x]))) := by
  cases hx : h.inList x with
  | true => exact .inl ⟨rfl, if_pos hx⟩
  | false =>
    have hm : m q = m q ++ [] := (List.append_nil _).symm
    have hlast : h.prev (.head q) = some (lastCell q (m q)) := hh.prev_firstCell hm
    refine .inr ⟨rfl, _, ?_, hh.linkBetween hm hx⟩
    simp only [IntrusiveLists.pushBack, hx, hlast]
    rfl

theorem erase (hh : h.Holds m) (hm : m q = a ++ x :: b) :
    ∃ h', h.erase (some x) = some (true, h') ∧ h'.Holds (update m q (a ++ b)) := by
  have hx : h.inList x = true := hh.members.linked_of_mem (q := q) (by simp [hm])
  obtain ⟨h', hu, hh'⟩ := hh.unlink hm
  exact ⟨h', by simp [IntrusiveLists.erase, hx, hu], hh'⟩

end Holds

end IntrusiveLists

end Alyrn.Detail
