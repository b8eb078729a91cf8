import Alyrn.Detail.IntrusiveQueue
import Mathlib.Data.List.Nodup

/-!
# `IntrusiveQueue` refines a family of lists

The model of a family of queues is a list of nodes for each of them. `Holds h m`: the links of the
heap `h` spell the lists `m`. Every call keeps `Holds` and answers as the lists do, so every
sequence of calls does.
-/

namespace Alyrn.Detail

open Chain Function

namespace IntrusiveQueues

variable {κ ν : Type}

/-! ## The model -/

section

variable [DecidableEq κ]

open Classical in
/-- What a call does to the lists, and its answer. -/
noncomputable def Call.spec : Call κ ν → (κ → List ν) → Answer ν × (κ → List ν)
  | .pushBack _ none, m => (.pushed false, m)
  | .pushBack q (some x), m =>
    if ∃ q', x ∈ m q' then (.pushed false, m)
    else (.pushed true, update m q (m q ++ [x]))
  | .popFront q, m => (.popped (m q).head?, update m q (m q).tail)
  | .forEachSafe q fn, m => (.done, update m q ((m q).filter fun x => !fn x))
  | .splice q other, m =>
    (.done, if other = q then m
      else update (update m q (m q ++ m other)) other [])
  | .clear q, m => (.done, update m q [])

/-- The answers and the lists after the calls. -/
noncomputable def specs : List (Call κ ν) → (κ → List ν) → List (Answer ν) × (κ → List ν)
  | [], m => ([], m)
  | c :: cs, m => ((c.spec m).1 :: (specs cs (c.spec m).2).1, (specs cs (c.spec m).2).2)

end

/-! ## The relation -/

/-- Queue `q` is the chain of the nodes `l`. -/
structure Spells (h : IntrusiveQueues κ ν) (q : κ) (l : List ν) : Prop where
  /-- It leaves the head, visits the nodes in order and ends at the head. -/
  chain : Path h.next (.head q) (l.map .elem) (.head q)
  tail : h.tail q = lastCell q l
  nodup : l.Nodup

/-- Every queue spells its list. -/
structure Holds (h : IntrusiveQueues κ ν) (m : κ → List ν) : Prop where
  spells : ∀ q, h.Spells q (m q)
  /-- No node is in two queues; its hook is set exactly when it is in one. -/
  members : Partition (fun x => (h.next (.elem x)).isSome) m

variable {h h' : IntrusiveQueues κ ν} {m : κ → List ν} {q q' : κ} {l k : List ν} {x : ν}

theorem Spells.frame (hs : h.Spells q l) (hn : ∀ c ∈ cells q l, h'.next c = h.next c)
    (ht : h'.tail q = h.tail q) : h'.Spells q l :=
  ⟨hs.chain.congr hn, ht.trans hs.tail, hs.nodup⟩

theorem Spells.tail_mem (hs : h.Spells q l) : h.tail q ∈ cells q l := hs.tail ▸ lastCell_mem

namespace Holds

theorem initial : (IntrusiveQueues.initial : IntrusiveQueues κ ν).Holds fun _ => [] where
  spells _ := ⟨rfl, rfl, List.nodup_nil⟩
  members := ⟨fun _ => by simp [IntrusiveQueues.initial], fun _ _ _ h => absurd h (by simp)⟩

theorem inQueue_eq_true (hh : h.Holds m) : h.inQueue x = true ↔ ∃ q, x ∈ m q :=
  hh.members.linked_iff x

theorem next_lastCell (hh : h.Holds m) (hm : m q = k ++ l) :
    h.next (lastCell q k) = some (firstCell q l) := by
  have hc := hm ▸ (hh.spells q).chain
  rw [List.map_append] at hc
  exact hc.next_part

variable [DecidableEq κ]

theorem relink (hh : h.Holds m) (hs : h'.Spells q l)
    (hother : ∀ p, p ≠ q → ∀ c ∈ cells p (m p), h'.next c = h.next c)
    (htail : ∀ p, p ≠ q → h'.tail p = h.tail p)
    (hmembers : Partition (fun x => (h'.next (.elem x)).isSome) (update m q l)) :
    h'.Holds (update m q l) where
  spells p := by
    by_cases hp : p = q
    · subst hp
      rwa [update_self]
    · rw [update_of_ne hp]
      exact (hh.spells p).frame (hother p hp) (htail p hp)
  members := hmembers

variable [DecidableEq ν]

theorem front_eq_head? (hh : h.Holds m) (q : κ) : h.front q = (m q).head? := by
  have hc := (hh.spells q).chain
  cases hm : m q with
  | nil =>
    rw [hm] at hc
    have : h.next (.head q) = some (.head q) := hc
    simp [front, empty, this]
  | cons x l =>
    rw [hm] at hc
    have : h.next (.head q) = some (.elem x) := hc.1
    simp [front, empty, this, Cell.elem?]

/-! ## `PushBack` -/

theorem pushBack (hh : h.Holds m) (q : κ) (hx : ¬ ∃ q', x ∈ m q') :
    (h.pushBack q (some x)).1 = true ∧
      (h.pushBack q (some x)).2.Holds (update m q (m q ++ [x])) := by
  have hnone : h.inQueue x = false := Bool.eq_false_iff.mpr fun hs => hx (hh.inQueue_eq_true.mp hs)
  have hfresh : ∀ p, (Cell.elem x : Cell κ ν) ∉ cells p (m p) :=
    fun p hp => hx ⟨p, elem_mem_cells.mp hp⟩
  have htail := (hh.spells q).tail_mem
  simp only [IntrusiveQueues.pushBack, hnone, Bool.false_eq_true, if_false, true_and]
  -- the writes touch the last cell of the queue and the new node only
  have hnext : ∀ p, p ≠ q → ∀ c ∈ cells p (m p),
      update (update h.next (h.tail q) (some (.elem x))) (.elem x)
        (some (.head q)) c = h.next c := by
    intro p hp c hc
    rw [update_of_ne (ne_of_mem_of_not_mem hc (hfresh p)),
      update_of_ne (ne_of_mem_of_not_mem hc (hh.members.cells_apart hp.symm htail))]
  refine hh.relink ⟨?_, ?_, ?_⟩ hnext (fun p hp => update_of_ne hp _ _) ?_
  · rw [List.map_append, List.map_singleton]
    refine Path.append_iff.mpr ⟨?_, update_self ..⟩
    refine Path.update_of_notMem ?_ (hfresh q)
    rw [(hh.spells q).tail]
    exact (hh.spells q).chain.setLast (nodup_cells (hh.spells q).nodup) _
  · rw [lastCell_append_singleton]
    exact update_self ..
  · refine (hh.spells q).nodup.append (List.nodup_singleton x) ?_
    simpa using fun hxq => hx ⟨q, hxq⟩
  · refine hh.members.insert (List.append_nil _).symm ?_ fun y => ?_
    · exact fun hs => hx ((hh.members.linked_iff x).mp hs)
    · by_cases hy : y = x
      · subst hy
        simp [IntrusiveQueues.setNext, IntrusiveQueues.setTail]
      · have hset := isSome_update_some ((hh.spells q).chain.isSome htail) (.elem x) (.elem y)
        simp only [IntrusiveQueues.setNext, IntrusiveQueues.setTail,
          update_of_ne (Cell.elem_ne hy), hset, hy, false_or]

/-! ## Taking a node out -/

theorem unlink (hh : h.Holds m) (hm : m q = k ++ x :: l)
    (hnext : h'.next =
      update (update h.next (lastCell q k) (h.next (.elem x))) (.elem x) none)
    (htail : h'.tail = update h.tail q (lastCell q (k ++ l))) :
    h'.Holds (update m q (k ++ l)) := by
  have hs := hm ▸ hh.spells q
  have hnd : (k ++ l).Nodup := hs.nodup.sublist (by simp)
  have hxk : x ∉ k ++ l := (List.nodup_middle.mp hs.nodup).notMem
  have hkq : lastCell q k ∈ cells q (m q) := by
    rw [hm, cells, List.map_append, ← List.cons_append]
    exact List.mem_append_left _ lastCell_mem
  refine hh.relink ⟨?_, ?_, hnd⟩ (fun p hp c hc => ?_) (fun p hp => ?_) ?_
  · rw [hnext, List.map_append]
    refine Path.update_of_notMem ?_ (by simpa using hxk)
    refine Path.bypass ?_ ?_
    · simpa using hs.chain
    · simpa [cells] using nodup_cells (q := q) hs.nodup
  · rw [htail, update_self]
  · have hx : Cell.elem x ∈ cells q (m q) := by simp [hm]
    rw [hnext, update_of_ne (ne_of_mem_of_not_mem hc (hh.members.cells_apart hp.symm hx)),
      update_of_ne (ne_of_mem_of_not_mem hc (hh.members.cells_apart hp.symm hkq))]
  · rw [htail, update_of_ne hp]
  · refine hh.members.remove hm hxk fun y => ?_
    by_cases hy : y = x
    · subst hy
      simp [hnext]
    · have hxq : x ∈ m q := by simp [hm]
      obtain ⟨v, hv⟩ := Option.isSome_iff_exists.mp (hh.members.linked_of_mem hxq)
      have hset := isSome_update_some ((hh.spells q).chain.isSome hkq) v (.elem y)
      rw [hnext, hv, update_of_ne (Cell.elem_ne hy), hset]
      simp [hy]

theorem popFront (hh : h.Holds m) (q : κ) :
    ∃ h', h.popFront q = some ((m q).head?, h') ∧
      h'.Holds (update m q (m q).tail) := by
  cases hm : m q with
  | nil =>
    have hn : h.next (.head q) = some (.head q) := hh.next_lastCell (k := []) hm
    refine ⟨h, if_pos hn, ?_⟩
    rwa [List.tail_nil, ← hm, update_eq_self]
  | cons x l =>
    have hn : h.next (.head q) = some (.elem x) := hh.next_lastCell (k := []) hm
    have hx := hh.next_lastCell (k := [x]) hm
    rw [show lastCell q [x] = (.elem x : Cell κ ν) from rfl] at hx
    refine ⟨_, by simp [IntrusiveQueues.popFront, hn, Cell.elem?]; rfl, ?_⟩
    refine hh.unlink (k := []) hm (by split_ifs <;> rfl) ?_
    cases l with
    | nil =>
      rw [if_pos (show h.next (.elem x) = some (.head q) from hx)]
      rfl
    | cons y l =>
      have ht : h.tail q = lastCell q (y :: l) := by
        rw [(hh.spells q).tail, hm]
        exact lastCell_remove (k := []) (by simp)
      simp [hx, firstCell, setNext, ← ht]

/-! ## The loops -/

theorem forEachSafe_loop (fn : ν → Bool) (hh : h.Holds m) (hm : m q = k ++ l) :
    ∃ h', While.Settles (fun n => While.exec (forEachBody q fn) n
        (lastCell q k, h.next (lastCell q k), h)) h' ∧
      h'.Holds (update m q (k ++ l.filter fun x => !fn x)) := by
  -- the nodes of `k` have been visited and stay, those of `l` are still to be visited
  induction l generalizing h m k with
  | nil =>
    have hcur : h.next (lastCell q k) = some (.head q) := hh.next_lastCell hm
    refine ⟨h, While.exec_done (by simp [forEachBody, hcur]), ?_⟩
    rwa [List.filter_nil, ← hm, update_eq_self]
  | cons x l ih =>
    have hcur : h.next (lastCell q k) = some (.elem x) := hh.next_lastCell hm
    have hnd := hm ▸ (hh.spells q).nodup
    by_cases hf : fn x
    · -- `x` leaves the queue
      have hx : x ∉ k ++ l := (List.nodup_middle.mp hnd).notMem
      have hprev : lastCell q k ≠ .elem x := by
        have hk : (Cell.elem x : Cell κ ν) ∉ cells q k := by
          simpa using fun hk => hx (List.mem_append_left _ hk)
        exact ne_of_mem_of_not_mem lastCell_mem hk
      set h₁ := (if h.tail q = .elem x
        then (h.setNext (lastCell q k) (h.next (.elem x))).setTail q (lastCell q k)
        else h.setNext (lastCell q k) (h.next (.elem x))).setNext (.elem x) none with hh₁
      have hnext : h₁.next = update (update h.next (lastCell q k)
          (h.next (.elem x))) (.elem x) none := by
        rw [hh₁]
        split_ifs <;> rfl
      have htail : h₁.tail = update h.tail q (lastCell q (k ++ l)) := by
        rw [hh₁]
        by_cases hl : l = []
        · subst hl
          have ht : h.tail q = .elem x := by
            rw [(hh.spells q).tail, hm, lastCell_append_singleton]
          rw [if_pos ht, List.append_nil]
          rfl
        · have ht : h.tail q = lastCell q (k ++ l) := by
            rw [(hh.spells q).tail, hm, lastCell_remove hl]
          have hne : h.tail q ≠ .elem x := by
            rw [ht]
            exact ne_of_mem_of_not_mem lastCell_mem (by simpa using hx)
          rw [if_neg hne, ← ht, update_eq_self]
          rfl
      obtain ⟨h', hset, hres⟩ := ih (hh.unlink hm hnext htail) (update_self ..)
      have hcur₁ : h₁.next (lastCell q k) = h.next (.elem x) := by
        rw [hnext, update_of_ne hprev, update_self]
      rw [hcur₁] at hset
      refine ⟨h', While.exec_pass ?_ hset, by simpa [hf] using hres⟩
      simp [forEachBody, hcur, Cell.elem?, hf]
      rfl
    · have hm' : m q = (k ++ [x]) ++ l := by simpa using hm
      obtain ⟨h', hset, hres⟩ := ih hh hm'
      rw [lastCell_append_singleton] at hset
      refine ⟨h', While.exec_pass ?_ hset, by simpa [hf] using hres⟩
      simp [forEachBody, hcur, Cell.elem?, hf]

theorem forEachSafe (fn : ν → Bool) (hh : h.Holds m) (q : κ) :
    ∃ h', While.Settles (fun n => h.forEachSafe n q fn) h' ∧
      h'.Holds (update m q ((m q).filter fun x => !fn x)) :=
  hh.forEachSafe_loop fn (k := []) rfl

theorem clear_loop {next : Cell κ ν → Option (Cell κ ν)} {a : Cell κ ν}
    (hp : Path next a (l.map .elem) (.head q)) (hl : l.Nodup)
    (hag : ∀ x ∈ l, h.next (.elem x) = next (.elem x)) :
    While.Settles (fun n => While.exec (clearBody q) n (next a, h))
      { h with next := fun c => if c ∈ l.map .elem then none else h.next c } := by
  induction l generalizing h a with
  | nil =>
    have hcur : next a = some (.head q) := hp
    exact While.exec_done (by simp [clearBody, hcur])
  | cons x l ih =>
    obtain ⟨hx, hl⟩ := List.nodup_cons.mp hl
    obtain ⟨hcur, hp⟩ := hp
    have hrest : ∀ y ∈ l, (h.setNext (.elem x) none).next (.elem y) = next (.elem y) := by
      intro y hy
      have hne : (Cell.elem y : Cell κ ν) ≠ .elem x := Cell.elem_ne (ne_of_mem_of_not_mem hy hx)
      exact (update_of_ne hne _ _).trans (hag y (List.mem_cons_of_mem _ hy))
    have hset := ih hp hl hrest
    rw [← hag x List.mem_cons_self] at hset
    have hcells : (fun c => if c ∈ l.map Cell.elem then none
          else (h.setNext (.elem x) none).next c) =
        fun c => if c ∈ (x :: l).map Cell.elem then none else h.next c := by
      funext c
      by_cases hc : c = .elem x
      · subst hc
        simp [setNext]
      · simp [setNext, hc]
    rw [hcells] at hset
    exact While.exec_pass (by simp [clearBody, hcur]) hset

theorem clear (hh : h.Holds m) (q : κ) :
    ∃ h', While.Settles (fun n => h.clear n q) h' ∧ h'.Holds (update m q []) := by
  have hs := hh.spells q
  have hset := clear_loop hs.chain hs.nodup fun _ _ => rfl
  refine ⟨_, hset.map (IntrusiveQueues.reset · q), ?_⟩
  refine hh.relink ⟨?_, ?_, List.nodup_nil⟩ (fun p hp c hc => ?_) (fun p hp => ?_) ?_
  · exact update_self ..
  · exact update_self ..
  · have hcq : c ∉ cells q (m q) := hh.members.cells_apart hp hc
    have hne : c ≠ .head q := fun h => hcq (by simp [h])
    have hno : c ∉ (m q).map Cell.elem := fun h => hcq (List.mem_cons_of_mem _ h)
    simp only [reset, setNext, setTail, update_of_ne hne, if_neg hno]
  · exact update_of_ne hp _ _
  · refine hh.members.update (fun y => ?_) (by simp)
    by_cases hy : y ∈ m q <;> simp [reset, setNext, setTail, hy]

/-! ## `Splice` -/

theorem splice_links (hh : h.Holds m) {o : κ} (ho : o ≠ q) (hne : m o ≠ [])
    (hnext : h'.next = update (update (update h.next (h.tail q)
      (some (firstCell o (m o)))) (h.tail o) (some (.head q))) (.head o) (some (.head o)))
    (htail : h'.tail = update (update h.tail q (h.tail o)) o (.head o)) :
    h'.Holds (update (update m q (m q ++ m o)) o []) := by
  have hsq := hh.spells q
  have hso := hh.spells o
  have htq := hsq.tail_mem
  have hto := hso.tail_mem
  have hnd : (m q ++ m o).Nodup := hsq.nodup.append hso.nodup fun y hy hy' =>
    ho (hh.members.apart _ _ _ hy' hy)
  refine ⟨fun p => ?_, hh.members.splice ho fun y => ?_⟩
  · by_cases hp : p = o
    · subst hp
      rw [update_self]
      refine ⟨?_, ?_, List.nodup_nil⟩
      · rw [hnext]
        exact update_self ..
      · rw [htail]
        exact update_self ..
    · rw [update_of_ne hp]
      by_cases hpq : p = q
      · subst hpq
        rw [update_self]
        refine ⟨?_, ?_, hnd⟩
        · have hring := splice_ring (a := m p) (b := []) (by simpa using hsq.chain) hso.chain ho hne
            (by simpa using hnd)
          rw [List.append_nil, ← hsq.tail, ← hso.tail] at hring
          rw [hnext]
          exact hring
        · obtain ⟨x, l, hmo⟩ := List.exists_cons_of_ne_nil hne
          rw [htail, update_of_ne hp, update_self, hso.tail, hmo, lastCell_append_cons]
          exact lastCell_append_cons (k := [])
      · rw [update_of_ne hpq]
        refine (hh.spells p).frame (fun c hc => ?_) ?_
        · rw [hnext, hh.members.splice_frame hp hpq htq hto hc]
        · rw [htail, update_of_ne hp, update_of_ne hpq]
  · have hset := isSome_update_some (hsq.chain.isSome htq) (firstCell o (m o))
    have hset' := isSome_update_some ((hset _).mpr (hso.chain.isSome hto)) (.head q) (.elem y)
    rw [hnext, update_of_ne (by simp), hset', hset]

theorem splice (hh : h.Holds m) {o : κ} (ho : o ≠ q) :
    (h.splice q o).Holds
      (update (update m q (m q ++ m o)) o []) := by
  have hn : h.next (.head o) = some (firstCell o (m o)) := hh.next_lastCell (k := []) rfl
  by_cases hmo : m o = []
  · have he : h.empty o = true := decide_eq_true (by rw [hn, hmo]; rfl)
    rw [IntrusiveQueues.splice, if_neg ho, if_pos he, hmo, List.append_nil, update_eq_self, ← hmo,
      update_eq_self]
    exact hh
  · have he : ¬ h.empty o = true := by
      obtain ⟨x, l, hx⟩ := List.exists_cons_of_ne_nil hmo
      simp [empty, hn, hx, firstCell]
    rw [IntrusiveQueues.splice, if_neg ho, if_neg he]
    exact hh.splice_links ho hmo (by rw [hn]; rfl) rfl

end Holds

/-! ## Every sequence of calls -/

variable [DecidableEq κ] [DecidableEq ν]

theorem Holds.call (hh : h.Holds m) (c : Call κ ν) :
    ∃ h', While.Settles (fun n => h.call n c) ((c.spec m).1, h') ∧ h'.Holds (c.spec m).2 := by
  match c with
  | .pushBack q none => exact ⟨h, .of_some _, hh⟩
  | .pushBack q (some x) =>
    by_cases hx : ∃ q', x ∈ m q'
    · have hin : h.inQueue x = true := hh.inQueue_eq_true.mpr hx
      refine ⟨h, ?_, ?_⟩
      · simp only [IntrusiveQueues.call, IntrusiveQueues.pushBack, hin, if_true, Call.spec,
          if_pos hx]
        exact .of_some _
      · simpa only [Call.spec, if_pos hx] using hh
    · obtain ⟨hans, hres⟩ := hh.pushBack q hx
      refine ⟨(h.pushBack q (some x)).2, ?_, ?_⟩
      · simp only [IntrusiveQueues.call, Prod.map, hans, Call.spec, if_neg hx]
        exact .of_some _
      · simpa only [Call.spec, if_neg hx] using hres
  | .popFront q =>
    obtain ⟨h', hans, hres⟩ := hh.popFront q
    refine ⟨h', ?_, hres⟩
    simp only [IntrusiveQueues.call, hans]
    exact .of_some _
  | .forEachSafe q fn =>
    obtain ⟨h', hset, hres⟩ := hh.forEachSafe fn q
    exact ⟨h', hset.map _, hres⟩
  | .splice q o =>
    by_cases ho : o = q
    · refine ⟨h, ?_, by simpa only [Call.spec, if_pos ho] using hh⟩
      simp only [IntrusiveQueues.call, IntrusiveQueues.splice, if_pos ho]
      exact .of_some _
    · exact ⟨h.splice q o, .of_some _, by simpa only [Call.spec, if_neg ho] using hh.splice ho⟩
  | .clear q =>
    obtain ⟨h', hset, hres⟩ := hh.clear q
    exact ⟨h', hset.map _, hres⟩

theorem Holds.calls (hh : h.Holds m) (cs : List (Call κ ν)) :
    ∃ h', While.Settles (fun n => calls n cs h) ((specs cs m).1, h') ∧ h'.Holds (specs cs m).2 := by
  induction cs generalizing h m with
  | nil => exact ⟨h, .of_some _, hh⟩
  | cons c cs ih =>
    obtain ⟨h₁, hset₁, hh₁⟩ := hh.call c
    obtain ⟨h₂, hset₂, hh₂⟩ := ih hh₁
    exact ⟨h₂, hset₁.bind (hset₂.bind (.of_some _)), hh₂⟩

/-- **Refinement.** After every sequence of calls on a family of queues the answers are those of
the lists, the chain of each queue is acyclic, visits exactly its list and ends at its own head, the
tail is the last node, a hook is set exactly when its node is queued, and no node is in two queues.
`PushBack` fails exactly for null and for queued nodes. -/
theorem queues_refine_lists (cs : List (Call κ ν)) :
    ∃ h : IntrusiveQueues κ ν, ∃ m : κ → List ν,
      While.Settles (fun n => calls n cs initial) ((specs cs fun _ => []).1, h) ∧
      m = (specs cs fun _ => []).2 ∧
      (∀ q, Path h.next (.head q) ((m q).map .elem) (.head q) ∧ (m q).Nodup ∧
        h.tail q = ((m q).map .elem).getLastD (.head q)) ∧
      (∀ x, h.next (.elem x) ≠ none ↔ ∃ q, x ∈ m q) ∧
      (∀ q q' x, x ∈ m q → x ∈ m q' → q = q') ∧
      ∀ q p, (h.pushBack q p).1 = false ↔ p = none ∨ ∃ x q', p = some x ∧ x ∈ m q' := by
  obtain ⟨h, hset, hh⟩ := (Holds.initial (κ := κ) (ν := ν)).calls cs
  refine ⟨h, _, hset, rfl, fun q => ⟨(hh.spells q).chain, (hh.spells q).nodup, (hh.spells q).tail⟩,
    fun x => ?_, hh.members.apart, fun q p => ?_⟩
  · rw [← hh.members.linked_iff, Option.isSome_iff_ne_none]
  · cases p with
    | none => simp [IntrusiveQueues.pushBack]
    | some x =>
      have hin := hh.inQueue_eq_true (x := x)
      by_cases hx : h.inQueue x = true
      · simpa [IntrusiveQueues.pushBack, hx] using hin.mp hx
      · simpa [IntrusiveQueues.pushBack, hx] using fun q' hq' => hx (hin.mpr ⟨q', hq'⟩)

end IntrusiveQueues

end Alyrn.Detail
