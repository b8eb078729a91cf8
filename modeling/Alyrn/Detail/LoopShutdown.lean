import Alyrn.Detail.IntrusiveList.Links
import Mathlib.Data.List.Perm.Subperm

/-!
# `LoopShutdownRegistry`

The registry is an intrusive list of participants. `RequestStop` walks along it with `ForEachSafe`
and calls the stop callback of each participant. A callback may unregister its own participant and
register further ones, which changes the list under the walk: the walk has the next pointer of
before the call. What the callbacks do is given by a function of the participants called so far,
the current one last. `Returning` excludes that a participant which has left is registered again.

After `n` calls the participants called are the first `n` of those of the beginning and those that
were added (`Walking`), and what is registered is that sequence without those that left.
-/

namespace Alyrn.Detail

open Chain Function

/-- What the stop callback of a participant does to the registry. -/
inductive StopAct (ν : Type) where
  | register (x : ν)
  | unregister
  deriving DecidableEq, Repr

/-- A call of a stop callback, with the links at that moment. -/
structure StopCall (κ ν : Type) where
  participant : ν
  links : IntrusiveLists κ ν

/-- What `RequestStop` has done so far. -/
structure StopRecord (κ ν : Type) where
  called : List (StopCall κ ν) := []
  /-- The participants registered and unregistered by callbacks. -/
  added : List ν := []
  removed : List ν := []

namespace LoopShutdownRegistry

variable {κ ν : Type} [DecidableEq κ] [DecidableEq ν]

def register (h : IntrusiveLists κ ν) (k : κ) (x : ν) : Option (Bool × IntrusiveLists κ ν) :=
  h.pushBack k (some x)

def unregister (h : IntrusiveLists κ ν) (x : ν) : Option (Bool × IntrusiveLists κ ν) :=
  h.erase (some x)

def act (k : κ) (x : ν) (s : IntrusiveLists κ ν × StopRecord κ ν) :
    StopAct ν → Option (IntrusiveLists κ ν × StopRecord κ ν)
  | .register y => (register s.1 k y).map fun r =>
    (r.2, if r.1 then { s.2 with added := s.2.added ++ [y] } else s.2)
  | .unregister => (unregister s.1 x).map fun r =>
    (r.2, if r.1 then { s.2 with removed := s.2.removed ++ [x] } else s.2)

/-- The function that `RequestStop` gives to `ForEachSafe`. -/
def stopCallback (k : κ) (behave : List ν → List (StopAct ν)) (x : ν)
    (s : IntrusiveLists κ ν × StopRecord κ ν) :
    Option (Bool × IntrusiveLists κ ν × StopRecord κ ν) :=
  let t := { s.2 with called := s.2.called ++ [⟨x, s.1⟩] }
  ((behave (t.called.map (·.participant))).foldlM (act k x) (s.1, t)).map (false, ·)

def requestStopBody (k : κ) (behave : List ν → List (StopAct ν)) :=
  IntrusiveLists.removeIfBody k (stopCallback k behave)

def requestStop (n : ℕ) (k : κ) (behave : List ν → List (StopAct ν)) (h : IntrusiveLists κ ν) :
    Option (IntrusiveLists κ ν × StopRecord κ ν) :=
  While.exec (requestStopBody k behave) n (h.next (.head k), h, {})

/-- `x` was called, and its callback unregistered it. -/
def Left (behave : List ν → List (StopAct ν)) (called : List ν) (x : ν) : Prop :=
  ∃ a b, called = a ++ x :: b ∧ StopAct.unregister ∈ behave (a ++ [x])

/-- A callback registers a participant that has left during the walk. -/
def Returning (behave : List ν → List (StopAct ν)) : Prop :=
  ∃ called x, StopAct.register x ∈ behave called ∧ Left behave called x

/-! ## The walk -/

/-- What holds at every action of every callback of the walk over the registry `k`. -/
structure Walking (m : κ → List ν) (k : κ) (behave : List ν → List (StopAct ν))
    (h : IntrusiveLists κ ν) (t : StopRecord κ ν) : Prop where
  nodup : (m k ++ t.added).Nodup
  called : t.called.map (·.participant) <+: m k ++ t.added
  holds : h.Holds (update m k ((m k ++ t.added).filter (· ∉ t.removed)))
  /-- The participants belong to no other list. -/
  own : ∀ x ∈ m k ++ t.added, ∀ p, p ≠ k → x ∉ m p
  left : ∀ x ∈ t.removed, Left behave (t.called.map (·.participant)) x
  registered : ∀ c ∈ t.called, ∃ l, c.links.Spells k l ∧ c.participant ∈ l

variable {m : κ → List ν} {k : κ} {behave : List ν → List (StopAct ν)} {h : IntrusiveLists κ ν}
  {t : StopRecord κ ν} {x : ν}

omit [DecidableEq ν] in
theorem Left.mem {called : List ν} (hl : Left behave called x) : x ∈ called := by
  obtain ⟨a, b, rfl, -⟩ := hl
  simp

omit [DecidableEq ν] in
theorem Left.append {called : List ν} (hl : Left behave called x) (l : List ν) :
    Left behave (called ++ l) x := by
  obtain ⟨a, b, rfl, hu⟩ := hl
  exact ⟨a, b ++ l, by simp, hu⟩

namespace Walking

theorem inList_iff (hw : Walking m k behave h t) (hx : x ∈ m k ++ t.added) :
    h.inList x = true ↔ x ∉ t.removed := by
  rw [hw.holds.members.linked_iff]
  constructor
  · rintro ⟨q, hq⟩
    by_cases hqk : q = k
    · subst hqk
      rw [update_self] at hq
      simpa using (List.mem_filter.mp hq).2
    · rw [update_of_ne hqk] at hq
      exact absurd hq (hw.own x hx q hqk)
  · intro hr
    exact ⟨k, by rw [update_self]; exact List.mem_filter.mpr ⟨hx, by simpa using hr⟩⟩

theorem register (hw : Walking m k behave h t) (hx : x ∉ t.removed) (y : ν) :
    ∃ h' t', act k y (h, t) (.register x) = some (h', t') ∧ Walking m k behave h' t' ∧
      t'.called = t.called ∧ m k ++ t.added <+: m k ++ t'.added := by
  rcases hw.holds.pushBack k x with ⟨-, hpush⟩ | ⟨hin, h', hpush, hh'⟩
  · exact ⟨h, t, by simp [act, LoopShutdownRegistry.register, hpush], hw, rfl, List.prefix_rfl⟩
  · refine ⟨h', { t with added := t.added ++ [x] },
      by simp [act, LoopShutdownRegistry.register, hpush], ?_, rfl, ?_⟩
    · have hnew : x ∉ m k ++ t.added := by
        intro hmem
        have := (hw.inList_iff hmem).mpr hx
        exact Bool.false_ne_true (hin.symm.trans this)
      have happ : m k ++ (t.added ++ [x]) = m k ++ t.added ++ [x] := (List.append_assoc ..).symm
      refine ⟨?_, ?_, ?_, ?_, hw.left, hw.registered⟩
      · rw [happ]
        exact hw.nodup.append (List.nodup_singleton x) (by simpa using hnew)
      · rw [happ]
        exact hw.called.trans (List.prefix_append _ _)
      · rw [update_self, update_idem] at hh'
        have hfilter : (m k ++ t.added ++ [x]).filter (· ∉ t.removed) =
            (m k ++ t.added).filter (· ∉ t.removed) ++ [x] := by
          rw [List.filter_append, List.filter_cons_of_pos (by simpa using hx), List.filter_nil]
        rwa [happ, hfilter]
      · intro y hy p hp hyp
        rw [happ] at hy
        rcases List.mem_append.mp hy with hy | hy
        · exact hw.own y hy p hp hyp
        · obtain rfl : y = x := by simpa using hy
          have := hw.holds.members.linked_of_mem (q := p) (x := y)
            (by rwa [update_of_ne hp])
          exact Bool.false_ne_true (hin.symm.trans this)
    · rw [← List.append_assoc]
      exact List.prefix_append _ _

theorem unregister (hw : Walking m k behave h t) (hx : x ∈ m k ++ t.added)
    (hleft : Left behave (t.called.map (·.participant)) x) :
    ∃ h' t', act k x (h, t) .unregister = some (h', t') ∧ Walking m k behave h' t' ∧
      t'.called = t.called ∧ m k ++ t.added <+: m k ++ t'.added := by
  by_cases hr : x ∈ t.removed
  · have hin : h.inList x = false := by
      rw [Bool.eq_false_iff, Ne, hw.inList_iff hx]
      exact fun h => h hr
    refine ⟨h, t, ?_, hw, rfl, List.prefix_rfl⟩
    simp [act, LoopShutdownRegistry.unregister, IntrusiveLists.erase, hin]
  · obtain ⟨a, b, hab⟩ := List.append_of_mem
      (List.mem_filter.mpr ⟨hx, by simpa using hr⟩ : x ∈ (m k ++ t.added).filter (· ∉ t.removed))
    obtain ⟨h', he, hh'⟩ := hw.holds.erase (q := k) (by rw [update_self, hab])
    refine ⟨h', { t with removed := t.removed ++ [x] },
      by simp [act, LoopShutdownRegistry.unregister, he], ?_, rfl, List.prefix_rfl⟩
    refine { hw with holds := ?_, left := ?_ }
    · rw [update_idem] at hh'
      have hxab : x ∉ a ++ b := by
        have := hw.nodup.filter (fun y => decide (y ∉ t.removed))
        rw [hab] at this
        exact (List.nodup_middle.mp this).notMem
      have hfilter : (m k ++ t.added).filter (· ∉ t.removed ++ [x]) = a ++ b := by
        calc (m k ++ t.added).filter (· ∉ t.removed ++ [x])
          _ = ((m k ++ t.added).filter (· ∉ t.removed)).filter (· ≠ x) := by
            rw [List.filter_filter]
            congr 1
            funext y
            simp [not_or, and_comm]
          _ = (a ++ b).filter (· ≠ x) := by
            rw [hab, List.filter_append, List.filter_cons_of_neg (by simp), List.filter_append]
          _ = a ++ b := List.filter_eq_self.mpr fun y hy => by
            simpa using ne_of_mem_of_not_mem hy hxab
      rwa [hfilter]
    · intro y hy
      rcases List.mem_append.mp hy with hy | hy
      · exact hw.left y hy
      · obtain rfl : y = x := by simpa using hy
        exact hleft

theorem acts (hb : ¬ Returning behave) {c : List ν} (as : List (StopAct ν))
    (hw : Walking m k behave h t) (hc : t.called.map (·.participant) = c ++ [x])
    (has : ∀ a ∈ as, a ∈ behave (c ++ [x])) :
    ∃ h' t', as.foldlM (act k x) (h, t) = some (h', t') ∧ Walking m k behave h' t' ∧
      t'.called = t.called ∧ m k ++ t.added <+: m k ++ t'.added := by
  induction as generalizing h t with
  | nil => exact ⟨h, t, rfl, hw, rfl, List.prefix_rfl⟩
  | cons a as ih =>
    have ha := has a List.mem_cons_self
    obtain ⟨h₁, t₁, hact, hw₁, hcalled, hpre⟩ : ∃ h₁ t₁, act k x (h, t) a = some (h₁, t₁) ∧
        Walking m k behave h₁ t₁ ∧ t₁.called = t.called ∧ m k ++ t.added <+: m k ++ t₁.added := by
      cases a with
      | register y =>
        refine hw.register (fun hy => hb ⟨_, y, ha, ?_⟩) x
        rw [← hc]
        exact hw.left y hy
      | unregister =>
        refine hw.unregister (hw.called.subset ?_) ?_
        · simp [hc]
        · exact ⟨c, [], hc, ha⟩
    obtain ⟨h₂, t₂, hrest, hw₂, hcalled₂, hpre₂⟩ := ih hw₁ (by rw [hcalled, hc])
      fun a ha => has a (List.mem_cons_of_mem _ ha)
    refine ⟨h₂, t₂, ?_, hw₂, hcalled₂.trans hcalled, hpre.trans hpre₂⟩
    rw [List.foldlM_cons, hact]
    exact hrest

end Walking

/-- Between two callbacks, `n` of them made. -/
structure Paused (m : κ → List ν) (k : κ) (behave : List ν → List (StopAct ν)) (n : ℕ)
    (s : Option (Cell κ ν) × IntrusiveLists κ ν × StopRecord κ ν) : Prop where
  walking : Walking m k behave s.2.1 s.2.2
  calls : s.2.2.called.length = n
  cur : s.1 = some (firstCell k ((m k ++ s.2.2.added).drop n)) ∨
    (s.1 = some (.head k) ∧ (m k).length ≤ n)

/-- All participants have been called. -/
structure Notified (m : κ → List ν) (k : κ) (behave : List ν → List (StopAct ν))
    (s : IntrusiveLists κ ν × StopRecord κ ν) : Prop where
  walking : Walking m k behave s.1 s.2
  all : (m k).length ≤ s.2.called.length

theorem Walking.call (hb : ¬ Returning behave) (hw : Walking m k behave h t) {r : List ν}
    (hr : m k ++ t.added = t.called.map (·.participant) ++ x :: r) :
    h.next (.elem x) = some (firstCell k r) ∧
    ∃ h' t', stopCallback k behave x (h, t) = some (false, h', t') ∧ Walking m k behave h' t' ∧
      t'.called.length = t.called.length + 1 ∧ m k ++ t.added <+: m k ++ t'.added := by
  -- what is left to call has not been unregistered
  have hstay : (m k ++ t.added).filter (· ∉ t.removed) =
      (t.called.map (·.participant)).filter (· ∉ t.removed) ++ x :: r := by
    rw [hr, List.filter_append]
    congr 1
    refine List.filter_eq_self.mpr fun y hy => decide_eq_true fun hyr => ?_
    exact List.disjoint_of_nodup_append (hr ▸ hw.nodup) (hw.left y hyr).mem hy
  have hlist : update m k ((m k ++ t.added).filter (· ∉ t.removed)) k =
      (t.called.map (·.participant)).filter (· ∉ t.removed) ++ x :: r := by
    rw [update_self, hstay]
  have hnext : h.next (.elem x) = some (firstCell k r) := by
    rw [← lastCell_append_singleton
      (k := (t.called.map (·.participant)).filter (· ∉ t.removed)) (q := k)]
    exact hw.holds.next_lastCell (by rw [hlist]; simp)
  have hw₁ : Walking m k behave h { t with called := t.called ++ [⟨x, h⟩] } := by
    refine ⟨hw.nodup, ?_, hw.holds, hw.own, fun y hy => ?_, fun c hc => ?_⟩
    · rw [hr]
      exact ⟨r, by simp⟩
    · rw [List.map_append]
      exact (hw.left y hy).append _
    · rcases List.mem_append.mp hc with hc | hc
      · exact hw.registered c hc
      · obtain rfl : c = ⟨x, h⟩ := by simpa using hc
        exact ⟨_, hw.holds.spells k, by rw [hlist]; simp⟩
  obtain ⟨h', t', hacts, hw', hcalled, hpre⟩ :=
    hw₁.acts hb (x := x) (c := t.called.map (·.participant)) (behave _) (by simp) fun _ ha => ha
  refine ⟨hnext, h', t', ?_, hw', by simp [hcalled], hpre⟩
  simpa [stopCallback] using hacts

theorem pass (hb : ¬ Returning behave) (n : ℕ)
    (s : Option (Cell κ ν) × IntrusiveLists κ ν × StopRecord κ ν) (hs : Paused m k behave n s) :
    (∃ s', requestStopBody k behave s = some (.inl s') ∧ Paused m k behave (n + 1) s') ∨
      ∃ r, requestStopBody k behave s = some (.inr r) ∧ Notified m k behave r := by
  obtain ⟨cur, h, t⟩ := s
  obtain ⟨hw, hn, hcur⟩ := hs
  dsimp only at hw hn hcur
  have hprefix : m k ++ t.added =
      t.called.map (·.participant) ++ (m k ++ t.added).drop n := by
    obtain ⟨r, hr⟩ := hw.called
    rw [← hr, ← hn, ← List.length_map (f := (·.participant)), List.drop_left]
  by_cases hend : cur = some (.head k)
  · refine .inr ⟨(h, t), if_pos hend, hw, ?_⟩
    rw [hn]
    rcases hcur with hcur | hcur
    · rw [hend] at hcur
      cases hd : (m k ++ t.added).drop n with
      | nil =>
        have := congrArg List.length hprefix
        simp only [hd, List.length_append, List.length_map, List.length_nil] at this
        omega
      | cons x r =>
        rw [hd] at hcur
        exact absurd hcur (by simp [firstCell])
    · exact hcur.2
  · left
    have hcur := hcur.resolve_right fun h => hend h.1
    cases hd : (m k ++ t.added).drop n with
    | nil =>
      rw [hd] at hcur
      exact absurd hcur hend
    | cons x r =>
      rw [hd] at hprefix hcur
      obtain ⟨hnext, h', t', hcall, hw', hlen, z, hz⟩ := hw.call hb hprefix
      refine ⟨(some (firstCell k r), h', t'), ?_, hw', by rw [hlen, hn], ?_⟩
      · have hcur : cur = some (.elem x) := hcur
        simp [requestStopBody, IntrusiveLists.removeIfBody, hcur, Cell.elem?, hcall, hnext]
      · cases r with
        | nil =>
          refine .inr ⟨rfl, ?_⟩
          have := congrArg List.length hprefix
          simp only [List.length_append, List.length_map, List.length_singleton] at this
          omega
        | cons y r =>
          left
          have hdrop : (m k ++ t'.added).drop (n + 1) = y :: r ++ z := by
            have hlen : n + 1 = (t.called.map (·.participant) ++ [x]).length := by simp [hn]
            have hsplit : t.called.map (·.participant) ++ x :: y :: r ++ z =
              t.called.map (·.participant) ++ [x] ++ (y :: r ++ z) := by simp
            rw [← hz, hprefix, hlen, hsplit, List.drop_left]
          rw [hdrop]
          rfl

def outcome : (Option (Cell κ ν) × IntrusiveLists κ ν × StopRecord κ ν) ⊕
    (IntrusiveLists κ ν × StopRecord κ ν) → IntrusiveLists κ ν × StopRecord κ ν
  | .inl s => s.2
  | .inr r => r

theorem Walking.start (hh : h.Holds m) (k : κ) (behave : List ν → List (StopAct ν)) :
    Walking m k behave h {} := by
  have hm : m k ++ [] = m k := List.append_nil _
  refine ⟨?_, ⟨m k, by simp⟩, ?_, ?_, by simp, by simp⟩
  · rw [hm]
    exact (hh.spells k).nodup
  · simpa using hh
  · intro x hx p hp hxp
    rw [hm] at hx
    exact hp (hh.members.apart _ _ _ hxp hx)

theorem Walking.count_eq_one (hw : Walking m k behave h t)
    (hlen : (m k).length ≤ t.called.length) (hx : x ∈ m k) :
    (t.called.map (·.participant)).count x = 1 := by
  have hnd : (t.called.map (·.participant)).Nodup := hw.nodup.sublist hw.called.sublist
  refine List.count_eq_one_of_mem hnd ?_
  refine (List.prefix_of_prefix_length_le (List.prefix_append _ _) hw.called ?_).subset hx
  simpa using hlen

/-- **Shutdown notification.** After any number of passes of `RequestStop` no participant has been
called twice, each call was made to a participant registered at that moment, and the list is well
formed and contains exactly the participants that have not been unregistered. Once the walk has
made as many passes as there were participants, or has ended, each of them has been called exactly
once. The walk ends whenever the callbacks add only finitely many participants. -/
theorem request_stop_notifies (hh : h.Holds m) (k : κ) (behave : List ν → List (StopAct ν))
    (hb : ¬ Returning behave) :
    (∀ n, ∃ r, While.run (requestStopBody k behave) n (h.next (.head k), h, {}) = some r ∧
      ((outcome r).2.called.map (·.participant)).Nodup ∧
      (∀ c ∈ (outcome r).2.called, ∃ l, c.links.Spells k l ∧ c.participant ∈ l) ∧
      ((m k).length ≤ n ∨ r.isRight → ∀ x ∈ m k,
        ((outcome r).2.called.map (·.participant)).count x = 1) ∧
      (outcome r).1.Holds (update m k
        ((m k ++ (outcome r).2.added).filter (· ∉ (outcome r).2.removed)))) ∧
    ((∃ S : List ν, ∀ n r,
        While.run (requestStopBody k behave) n (h.next (.head k), h, {}) = some r →
          (outcome r).2.added ⊆ S) →
      ∃ r, While.Settles (fun n => requestStop n k behave h) r) := by
  have hstart : Paused m k behave 0 (h.next (.head k), h, {}) := by
    refine ⟨Walking.start hh k behave, rfl, .inl ?_⟩
    exact (hh.next_lastCell (a := []) (q := k) rfl).trans (by simp)
  have hrun := fun n => While.run_keeps (pass hb) hstart n
  refine ⟨fun n => ?_, ?_⟩
  · obtain ⟨s, hr, hw, hlen, -⟩ | ⟨s, hr, hw, hall⟩ := hrun n
    · refine ⟨_, hr, hw.nodup.sublist hw.called.sublist, hw.registered, fun hn x hx => ?_,
        hw.holds⟩
      refine hw.count_eq_one ?_ hx
      rcases hn with hn | hn
      · omega
      · exact absurd hn (by simp)
    · exact ⟨_, hr, hw.nodup.sublist hw.called.sublist, hw.registered,
        fun _ x hx => hw.count_eq_one hall hx, hw.holds⟩
  · rintro ⟨S, hS⟩
    -- a walk that has made more passes than there can be participants has ended
    obtain ⟨s, hr, hw, hlen, -⟩ | ⟨s, hr, -⟩ := hrun ((m k).length + S.length + 1)
    · exfalso
      have hadd : s.2.2.added.length ≤ S.length :=
        (List.subperm_of_subset (hw.nodup.of_append_right) (hS _ _ hr)).length_le
      have := hw.called.length_le
      simp only [List.length_map, List.length_append] at this
      omega
    · exact ⟨s, While.settles_of_run hr⟩

def leaveAfterRegistering (called : List ℕ) : List (StopAct ℕ) :=
  if called = [0] then [.register 2, .unregister] else []

theorem request_stop_notifies_two : ∃ h : IntrusiveLists Unit ℕ, h.Holds (fun _ => [0, 1]) ∧
    ¬ Returning leaveAfterRegistering ∧
    ∃ r, While.run (requestStopBody () leaveAfterRegistering) 2 (h.next (.head ()), h, {}) =
      some r ∧ ∀ x ∈ [0, 1], ((outcome r).2.called.map (·.participant)).count x = 1 := by
  have hb : ¬ Returning leaveAfterRegistering := by
    rintro ⟨called, x, hx, hleft⟩
    by_cases hc : called = [0]
    · subst hc
      have h2 : x = 2 := by simpa [leaveAfterRegistering] using hx
      have h0 : x = 0 := by simpa using hleft.mem
      omega
    · simp [leaveAfterRegistering, hc] at hx
  have hempty := IntrusiveLists.Holds.initial (κ := Unit) (ν := ℕ)
  obtain ⟨hin, -⟩ | ⟨-, h₀, -, hh₀⟩ := hempty.pushBack () 0
  · simp [hempty.members.linked_iff] at hin
  obtain ⟨hin, -⟩ | ⟨-, h₁, -, hh₁⟩ := hh₀.pushBack () 1
  · simp [hh₀.members.linked_iff] at hin
  obtain ⟨r, hr, -, -, hcount, -⟩ := (request_stop_notifies hh₁ () _ hb).1 2
  exact ⟨h₁, hh₁, hb, r, hr, hcount (.inl (Nat.le_refl _))⟩

end LoopShutdownRegistry

end Alyrn.Detail
