import Alyrn.Detail.IntrusiveList.Links

/-!
# `IntrusiveList` refines a family of sequences

The model of a family of lists is a sequence of nodes for each of them. Every call keeps
`IntrusiveLists.Holds` and answers as the sequences do, so every sequence of calls does.
-/

namespace Alyrn.Detail

open Chain Function

namespace IntrusiveLists

variable {κ ν : Type}

/-! ## The model -/

section

variable [DecidableEq κ] [DecidableEq ν]

open Classical in
/-- A push turns the sequences `m` into `m'`, unless there is no node or it is in a list. -/
noncomputable def Call.push (x : Option ν) (m m' : κ → List ν) : Answer ν × (κ → List ν) :=
  if ∀ y ∈ x, ∃ k, y ∈ m k then (.did false, m) else (.did true, m')

open Classical in
/-- What a call does to the sequences, and its answer. -/
noncomputable def Call.spec : Call κ ν → (κ → List ν) → Answer ν × (κ → List ν)
  | .pushFront k x, m => Call.push x m (update m k (x.toList ++ m k))
  | .pushBack k x, m => Call.push x m (update m k (m k ++ x.toList))
  | .popFront k, m => (.popped (m k).head?, update m k (m k).tail)
  | .erase none, m => (.did false, m)
  | .erase (some x), m => (.did (∃ k, x ∈ m k), fun k => (m k).erase x)
  | .removeIf k pred, m => (.done, update m k ((m k).filter fun x => !pred x))
  | .splice k other, m =>
    (.done, if other = k then m
      else update (update m k (m k ++ m other)) other [])
  | .clear k, m => (.done, update m k [])

/-- The answers and the sequences after the calls. -/
noncomputable def specs : List (Call κ ν) → (κ → List ν) → List (Answer ν) × (κ → List ν)
  | [], m => ([], m)
  | c :: cs, m => ((c.spec m).1 :: (specs cs (c.spec m).2).1, (specs cs (c.spec m).2).2)

end

variable {h h' : IntrusiveLists κ ν} {m : κ → List ν} {q o : κ} {a b l : List ν} {x : ν}

namespace Holds

/-! ## Both ends -/

theorem next_head (hh : h.Holds m) (q : κ) : h.next (.head q) = some (firstCell q (m q)) :=
  hh.next_lastCell (a := []) rfl

theorem prev_head (hh : h.Holds m) (q : κ) : h.prev (.head q) = some (lastCell q (m q)) :=
  hh.prev_firstCell (b := []) (List.append_nil _).symm

variable [DecidableEq κ] [DecidableEq ν]

theorem empty_iff (hh : h.Holds m) (q : κ) : h.empty q = true ↔ m q = [] := by
  rw [IntrusiveLists.empty, decide_eq_true_iff, hh.next_head]
  cases m q <;> simp [firstCell]

theorem pushFront (hh : h.Holds m) (q : κ) (x : ν) :
    (h.inList x = true ∧ h.pushFront q (some x) = some (false, h)) ∨
      (h.inList x = false ∧ ∃ h', h.pushFront q (some x) = some (true, h') ∧
        h'.Holds (update m q (x :: m q))) := by
  cases hx : h.inList x with
  | true => exact .inl ⟨rfl, if_pos hx⟩
  | false =>
    refine .inr ⟨rfl, _, ?_, hh.linkBetween (a := []) rfl hx⟩
    simp only [IntrusiveLists.pushFront, hx, hh.next_head]
    rfl

theorem popFront (hh : h.Holds m) (q : κ) :
    ∃ h', h.popFront q = some ((m q).head?, h') ∧ h'.Holds (update m q (m q).tail) := by
  cases hm : m q with
  | nil =>
    refine ⟨h, if_pos ((hh.empty_iff q).mpr hm), ?_⟩
    rwa [List.tail_nil, ← hm, update_eq_self]
  | cons x l =>
    obtain ⟨h', hu, hh'⟩ := hh.unlink (a := []) hm
    have hne : ¬ h.empty q = true := by simp [hh.empty_iff, hm]
    have hfirst : h.next (.head q) = some (.elem x) := by
      rw [hh.next_head, hm]
      rfl
    refine ⟨h', ?_, hh'⟩
    rw [IntrusiveLists.popFront, if_neg hne, hfirst]
    simp [hu, Cell.elem?]

theorem erase_linked (hh : h.Holds m) (hx : h.inList x = true) :
    ∃ h', h.erase (some x) = some (true, h') ∧ h'.Holds fun k => (m k).erase x := by
  obtain ⟨q, hq⟩ := (hh.members.linked_iff x).mp hx
  obtain ⟨a, b, hm⟩ := List.append_of_mem hq
  obtain ⟨h', he, hh'⟩ := hh.erase hm
  have hxa : x ∉ a := fun hxa =>
    (List.nodup_middle.mp (hm ▸ (hh.spells q).nodup)).notMem (List.mem_append_left _ hxa)
  refine ⟨h', he, ?_⟩
  have hseq : update m q (a ++ b) = fun k => (m k).erase x := by
    funext k
    by_cases hk : k = q
    · subst hk
      rw [update_self, hm, List.erase_append_right _ hxa, List.erase_cons_head]
    · rw [update_of_ne hk, List.erase_of_not_mem fun hxk => hk (hh.members.apart _ _ _ hxk hq)]
  rwa [hseq] at hh'

/-! ## The loops -/

theorem removeIf_loop (pred : ν → Bool) (hh : h.Holds m) (hm : m q = a ++ l) :
    ∃ h', While.Settles (fun n => While.exec (removeIfBody q fun x s => some (pred x, s)) n
        (some (firstCell q l), h, ())) (h', ()) ∧
      h'.Holds (update m q (a ++ l.filter fun x => !pred x)) := by
  -- the nodes of `a` have been visited and stay, those of `l` are still to be visited
  induction l generalizing h m a with
  | nil =>
    refine ⟨h, While.exec_done (by simp [removeIfBody, firstCell]), ?_⟩
    rwa [List.filter_nil, ← hm, update_eq_self]
  | cons x l ih =>
    have hm' : m q = (a ++ [x]) ++ l := by simpa using hm
    have hnext : h.next (.elem x) = some (firstCell q l) := by
      rw [← lastCell_append_singleton (k := a)]
      exact hh.next_lastCell hm'
    by_cases hp : pred x = true
    · obtain ⟨h₁, hu, hh₁⟩ := hh.unlink hm
      obtain ⟨h', hset, hres⟩ := ih hh₁ (update_self ..)
      refine ⟨h', While.exec_pass ?_ hset, by simpa [hp] using hres⟩
      simp [removeIfBody, firstCell, Cell.elem?, hp, hu, hnext]
    · obtain ⟨h', hset, hres⟩ := ih hh hm'
      refine ⟨h', While.exec_pass ?_ hset, by simpa [hp] using hres⟩
      simp [removeIfBody, firstCell, Cell.elem?, hp, hnext]

theorem removeIf (pred : ν → Bool) (hh : h.Holds m) (q : κ) :
    ∃ h', While.Settles (fun n => h.removeIf n q pred) h' ∧
      h'.Holds (update m q ((m q).filter fun x => !pred x)) := by
  obtain ⟨h', hset, hres⟩ := hh.removeIf_loop pred (a := []) rfl
  rw [← hh.next_head] at hset
  exact ⟨h', hset.map _, hres⟩

theorem clear_loop {next : Cell κ ν → Option (Cell κ ν)} {c : Cell κ ν}
    (hp : Path next c (l.map .elem) (.head q)) (hl : l.Nodup)
    (hag : ∀ x ∈ l, h.next (.elem x) = next (.elem x)) :
    While.Settles (fun n => While.exec (clearBody q) n (next c, h))
      ⟨fun c => if c ∈ l.map .elem then none else h.next c,
        fun c => if c ∈ l.map .elem then none else h.prev c⟩ := by
  induction l generalizing h c with
  | nil =>
    have hcur : next c = some (.head q) := hp
    exact While.exec_done (by simp [clearBody, hcur])
  | cons x l ih =>
    obtain ⟨hx, hl⟩ := List.nodup_cons.mp hl
    obtain ⟨hcur, hp⟩ := hp
    have hrest : ∀ y ∈ l, (h.clearHook (.elem x)).next (.elem y) = next (.elem y) := by
      intro y hy
      have hne : (Cell.elem y : Cell κ ν) ≠ .elem x := Cell.elem_ne (ne_of_mem_of_not_mem hy hx)
      exact (update_of_ne hne _ _).trans (hag y (List.mem_cons_of_mem _ hy))
    have hset := ih hp hl hrest
    rw [← hag x List.mem_cons_self] at hset
    have hcells (f : Cell κ ν → Option (Cell κ ν)) :
        (fun c => if c ∈ l.map Cell.elem then none else update f (.elem x) none c) =
          fun c => if c ∈ (x :: l).map Cell.elem then none else f c := by
      funext c
      by_cases hc : c = .elem x
      · subst hc
        simp
      · simp [hc]
    rw [← hcells h.next, ← hcells h.prev]
    exact While.exec_pass (by simp [clearBody, hcur]) hset

theorem clear (hh : h.Holds m) (q : κ) :
    ∃ h', While.Settles (fun n => h.clear n q) h' ∧ h'.Holds (update m q []) := by
  have hs := hh.spells q
  have hset := clear_loop hs.next hs.nodup fun _ _ => rfl
  refine ⟨_, hset.map (IntrusiveLists.reset · q), ?_⟩
  refine hh.relink ⟨update_self .., update_self .., List.nodup_nil⟩ (fun p hp c hc => ?_) ?_
  · have hcq : c ∉ cells q (m q) := hh.members.cells_apart hp hc
    have hne : c ≠ .head q := fun h => hcq (by simp [h])
    have hno : c ∉ (m q).map Cell.elem := fun h => hcq (List.mem_cons_of_mem _ h)
    simp only [reset, setNext, setPrev, update_of_ne hne, if_neg hno, and_self]
  · refine hh.members.update (fun y => ?_) (by simp)
    by_cases hy : y ∈ m q <;> simp [inList, reset, setNext, setPrev, hy]

/-! ## `Splice` -/

theorem splice_links (hh : h.Holds m) (ho : o ≠ q) (hne : m o ≠ [])
    (hnext : h'.next = update (update (update h.next
      (lastCell q (m q)) (some (firstCell o (m o)))) (lastCell o (m o)) (some (.head q)))
        (.head o) (some (.head o)))
    (hprev : h'.prev = update (update (update h.prev
      (.head q) (some (lastCell o (m o)))) (firstCell o (m o)) (some (lastCell q (m q))))
        (.head o) (some (.head o))) :
    h'.Holds (update (update m q (m q ++ m o)) o []) := by
  have hsq := hh.spells q
  have hso := hh.spells o
  have hlq : lastCell q (m q) ∈ cells q (m q) := lastCell_mem
  have hlo : lastCell o (m o) ∈ cells o (m o) := lastCell_mem
  have hfo : firstCell o (m o) ∈ cells o (m o) := firstCell_mem_cells (a := []) rfl
  have hnd : (m q ++ m o).Nodup := hsq.nodup.append hso.nodup fun y hy hy' =>
    ho (hh.members.apart _ _ _ hy' hy)
  refine ⟨fun p => ?_, hh.members.splice ho fun y => ?_⟩
  · by_cases hp : p = o
    · subst hp
      rw [update_self]
      exact ⟨by rw [hnext]; exact update_self .., by rw [hprev]; exact update_self ..,
        List.nodup_nil⟩
    rw [update_of_ne hp]
    by_cases hpq : p = q
    · subst hpq
      rw [update_self]
      refine ⟨?_, ?_, hnd⟩
      · have hring := splice_ring (a := m p) (b := []) (by simpa using hsq.next) hso.next ho hne
          (by simpa using hnd)
        rw [List.append_nil] at hring
        rw [hnext]
        exact hring
      · have hring := splice_ring (a := []) (b := (m p).reverse) hsq.prev hso.prev ho
          (by simpa using hne) (List.reverse_append ▸ List.nodup_reverse.mpr hnd)
        rw [firstCell_reverse, firstCell_reverse, lastCell_reverse] at hring
        rw [hprev, List.reverse_append]
        exact hring
    · rw [update_of_ne hpq]
      refine (hh.spells p).frame (fun c hc => ?_) fun c hc => ?_
      · rw [hnext, hh.members.splice_frame hp hpq hlq hlo hc]
      · rw [hprev, hh.members.splice_frame hp hpq (head_mem_cells.mpr rfl) hfo hc]
  · have hset := isSome_update_some (hsq.next.isSome hlq) (firstCell o (m o))
    have hset' := isSome_update_some ((hset _).mpr (hso.next.isSome hlo)) (.head q) (.elem y)
    rw [inList, hnext, update_of_ne (by simp), hset', hset]
    rfl

theorem splice (hh : h.Holds m) (ho : o ≠ q) : ∃ h', h.splice q o = some h' ∧
    h'.Holds (update (update m q (m q ++ m o)) o []) := by
  by_cases hmo : m o = []
  · refine ⟨h, ?_, ?_⟩
    · rw [IntrusiveLists.splice, if_neg ho, if_pos ((hh.empty_iff o).mpr hmo)]
    · rwa [hmo, List.append_nil, update_eq_self, ← hmo, update_eq_self]
  · have hne : firstCell o (m o) ≠ .head q := by
      refine ne_of_mem_of_not_mem (firstCell_mem_cells (a := []) rfl) ?_
      simpa using ho.symm
    refine ⟨⟨_, _⟩, ?_, hh.splice_links ho hmo rfl rfl⟩
    rw [IntrusiveLists.splice, if_neg ho, if_neg (by simp [hh.empty_iff, hmo]), hh.next_head,
      hh.prev_head, hh.prev_head, update_comm hne.symm]
    rfl

end Holds

/-! ## Every sequence of calls -/

theorem Holds.push {pushed : Option (Bool × IntrusiveLists κ ν)} {m' : κ → List ν}
    (hh : h.Holds m) (hp : (h.inList x = true ∧ pushed = some (false, h)) ∨
      (h.inList x = false ∧ ∃ h', pushed = some (true, h') ∧ h'.Holds m')) :
    ∃ h', While.Settles (fun _ => pushed.map (Prod.map Answer.did id))
        ((Call.push (some x) m m').1, h') ∧ h'.Holds (Call.push (some x) m m').2 := by
  have hlinked : h.inList x = true ↔ ∀ y ∈ some x, ∃ k, y ∈ m k := by
    simpa using hh.members.linked_iff x
  rcases hp with ⟨hx, rfl⟩ | ⟨hx, h', rfl, hh'⟩
  · rw [Call.push, if_pos (hlinked.mp hx)]
    exact ⟨h, .of_some _, hh⟩
  · rw [Call.push, if_neg fun hq => Bool.false_ne_true (hx.symm.trans (hlinked.mpr hq))]
    exact ⟨h', .of_some _, hh'⟩

variable [DecidableEq κ] [DecidableEq ν]

theorem Holds.call (hh : h.Holds m) (c : Call κ ν) :
    ∃ h', While.Settles (fun n => h.call n c) ((c.spec m).1, h') ∧ h'.Holds (c.spec m).2 := by
  have hnone (m' : κ → List ν) : Call.push none m m' = (.did false, m) := if_pos nofun
  match c with
  | .pushFront k none | .pushBack k none =>
    rw [Call.spec, hnone]
    exact ⟨h, .of_some _, hh⟩
  | .pushFront k (some x) => exact hh.push (hh.pushFront k x)
  | .pushBack k (some x) => exact hh.push (hh.pushBack k x)
  | .popFront k =>
    obtain ⟨h', hpop, hh'⟩ := hh.popFront k
    refine ⟨h', ?_, hh'⟩
    simp only [IntrusiveLists.call, hpop]
    exact .of_some _
  | .erase none => exact ⟨h, .of_some _, hh⟩
  | .erase (some x) =>
    have hlinked := hh.members.linked_iff x
    cases hx : h.inList x with
    | true =>
      obtain ⟨h', he, hh'⟩ := hh.erase_linked hx
      refine ⟨h', ?_, hh'⟩
      simp only [IntrusiveLists.call, he, Call.spec, hlinked.mp hx, decide_true]
      exact .of_some _
    | false =>
      have hno : ¬ ∃ k, x ∈ m k := fun hk => Bool.false_ne_true (hx.symm.trans (hlinked.mpr hk))
      have hm : (fun k => (m k).erase x) = m :=
        funext fun k => List.erase_of_not_mem fun hk => hno ⟨k, hk⟩
      refine ⟨h, ?_, by rwa [Call.spec, hm]⟩
      simp only [IntrusiveLists.call, IntrusiveLists.erase, hx, Call.spec, hno, decide_false]
      exact .of_some _
  | .removeIf k pred =>
    obtain ⟨h', hset, hh'⟩ := hh.removeIf pred k
    exact ⟨h', hset.map _, hh'⟩
  | .splice k o =>
    by_cases ho : o = k
    · refine ⟨h, ?_, by rwa [Call.spec, if_pos ho]⟩
      simp only [IntrusiveLists.call, IntrusiveLists.splice, if_pos ho]
      exact .of_some _
    · obtain ⟨h', hs, hh'⟩ := hh.splice ho
      refine ⟨h', ?_, by rwa [Call.spec, if_neg ho]⟩
      simp only [IntrusiveLists.call, hs]
      exact .of_some _
  | .clear k =>
    obtain ⟨h', hset, hh'⟩ := hh.clear k
    exact ⟨h', hset.map _, hh'⟩

theorem Holds.calls (hh : h.Holds m) (cs : List (Call κ ν)) :
    ∃ h', While.Settles (fun n => calls n cs h) ((specs cs m).1, h') ∧ h'.Holds (specs cs m).2 := by
  induction cs generalizing h m with
  | nil => exact ⟨h, .of_some _, hh⟩
  | cons c cs ih =>
    obtain ⟨h₁, hset₁, hh₁⟩ := hh.call c
    obtain ⟨h₂, hset₂, hh₂⟩ := ih hh₁
    exact ⟨h₂, hset₁.bind (hset₂.bind (.of_some _)), hh₂⟩

/-- **Refinement.** After every sequence of calls on a family of lists over shared nodes the answers
are those of the sequences. Following `next_` from the head of a list visits exactly its sequence
and returns to the head, following `prev_` visits the reverse. No node is in two lists, a node is
linked exactly when it is in one, and the pushes fail exactly for null and for linked nodes. -/
theorem lists_refine_sequences (cs : List (Call κ ν)) :
    ∃ h : IntrusiveLists κ ν, ∃ m : κ → List ν,
      While.Settles (fun n => calls n cs initial) ((specs cs fun _ => []).1, h) ∧
      m = (specs cs fun _ => []).2 ∧
      (∀ k, Path h.next (.head k) ((m k).map .elem) (.head k) ∧
        Path h.prev (.head k) ((m k).reverse.map .elem) (.head k) ∧ (m k).Nodup) ∧
      (∀ x, h.inList x = true ↔ ∃ k, x ∈ m k) ∧
      (∀ k k' x, x ∈ m k → x ∈ m k' → k = k') ∧
      ∀ k p, ((h.pushFront k p).map Prod.fst = some false ↔ ∀ x ∈ p, h.inList x = true) ∧
        ((h.pushBack k p).map Prod.fst = some false ↔ ∀ x ∈ p, h.inList x = true) := by
  obtain ⟨h, hset, hh⟩ := (Holds.initial (κ := κ) (ν := ν)).calls cs
  refine ⟨h, _, hset, rfl, fun k => ⟨(hh.spells k).next, (hh.spells k).prev, (hh.spells k).nodup⟩,
    hh.members.linked_iff, hh.members.apart, fun k p => ?_⟩
  cases p with
  | none => simp [IntrusiveLists.pushFront, IntrusiveLists.pushBack]
  | some x =>
    constructor
    · rcases hh.pushFront k x with ⟨hx, hp⟩ | ⟨hx, h', hp, -⟩ <;> simp [hp, hx]
    · rcases hh.pushBack k x with ⟨hx, hp⟩ | ⟨hx, h', hp, -⟩ <;> simp [hp, hx]

end IntrusiveLists

end Alyrn.Detail
