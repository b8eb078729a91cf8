import Alyrn.Net.Buffer.Calls
import Mathlib.Order.Bounds.Basic

/-!
# `Buffer::Find`

`Find` looks for a needle in the readable bytes, block by block; a candidate begins in a block and
may go on over any number of blocks after it. The two loops of `Find` go through the positions in
order. What they keep is that no position that they have passed is an occurrence (`Passed`).
-/

namespace Alyrn.Net

variable {β : Type}

/-! ## The source -/

section

variable [DecidableEq β]

/-- The inner loop of `MatchesFrom` over the bytes of one block: `none` at a mismatch, otherwise
what is left of the needle. -/
def matchBytes : List β → List β → Option (List β)
  | _, [] => some []
  | [], needle => some needle
  | x :: xs, y :: ys => if x ≠ y then none else matchBytes xs ys

def matchesFrom : List (Block β) → ℕ → List β → Bool
  | [], _, _ => false
  | k :: ks, index, needle =>
    match matchBytes (k.readable.drop index) needle with
    | none => false
    | some [] => true
    | some needle => matchesFrom ks 0 needle

/-- The loop of `Find` over the bytes of the first of the blocks `ks`, from `i` on, with the number
of turns left. `some r`: `Find` returns `r`. -/
def findInBlock (needle : List β) (lastStart offset : ℕ) (ks : List (Block β)) :
    ℕ → ℕ → Option (Option ℕ)
  | 0, _ => none
  | turns + 1, i =>
    if offset + i > lastStart then some none
    else if (ks.head?.bind (·.readable[i]?)) = needle.head? ∧ matchesFrom ks i needle then
      some (some (offset + i))
    else findInBlock needle lastStart offset ks turns (i + 1)

def findInBlocks (needle : List β) (start lastStart : ℕ) : List (Block β) → ℕ → Option ℕ
  | [], _ => none
  | k :: ks, offset =>
    let i := if start > offset then start - offset else 0
    match findInBlock needle lastStart offset (k :: ks) (k.readableBytes - i) i with
    | some r => r
    | none => findInBlocks needle start lastStart ks (offset + k.readableBytes)

def Buffer.find (b : Buffer β) (needle : List β) (start : ℕ) : Option ℕ :=
  if start > b.readableBytes ∨ needle.length > b.readableBytes - start then none
  else if needle = [] then some start
  else findInBlocks needle start (b.readableBytes - needle.length) b.blocks 0

end

/-! ## Occurrences -/

/-- The needle stands at position `p`. -/
def Occurs (needle content : List β) (p : ℕ) : Prop :=
  p ≤ content.length ∧ needle <+: content.drop p

def FoundFrom (needle content : List β) (start : ℕ) : Option ℕ → Prop
  | some p => IsLeast {p | start ≤ p ∧ Occurs needle content p} p
  | none => ∀ p, start ≤ p → ¬ Occurs needle content p

def Passed (needle content : List β) (start i : ℕ) : Prop :=
  ∀ p, start ≤ p → p < i → ¬ Occurs needle content p

section

variable {needle content : List β} {start i : ℕ}

theorem Occurs.add_le (h : Occurs needle content i) : i + needle.length ≤ content.length := by
  have hlen := h.2.length_le
  have := h.1
  rw [List.length_drop] at hlen
  omega

section

variable (h : Passed needle content start i)
include h

theorem Passed.succ (hi : ¬ Occurs needle content i) : Passed needle content start (i + 1) := by
  intro p hp hlt
  rcases Nat.lt_or_eq_of_le (Nat.le_of_lt_succ hlt) with hlt | rfl
  · exact h p hp hlt
  · exact hi

theorem Passed.found (hs : start ≤ i)
    (hi : Occurs needle content i) : FoundFrom needle content start (some i) := by
  refine ⟨⟨hs, hi⟩, fun p hp => ?_⟩
  by_contra hlt
  exact h p hp.1 (Nat.lt_of_not_le hlt) hp.2

theorem Passed.notFound
    (hi : content.length < i + needle.length) : FoundFrom needle content start none := by
  intro p hp hocc
  by_cases hlt : p < i
  · exact h p hp hlt hocc
  · have := hocc.add_le
    omega

end

end

/-! ## A candidate -/

variable [DecidableEq β] {needle content : List β} {start : ℕ} {ks : List (Block β)}

theorem matchBytes_none {xs : List β} (h : matchBytes xs needle = none) (ys : List β) :
    ¬ needle <+: xs ++ ys := by
  induction xs generalizing needle with
  | nil => cases needle <;> simp [matchBytes] at h
  | cons x xs ih =>
    cases needle with
    | nil => simp [matchBytes] at h
    | cons y needle =>
      intro hp
      obtain ⟨hxy, hp⟩ := List.cons_prefix_cons.mp hp
      rw [matchBytes, if_neg (by simp [hxy])] at h
      exact ih h hp

theorem matchBytes_some {xs rest : List β} (h : matchBytes xs needle = some rest) (ys : List β) :
    needle <+: xs ++ ys ↔ rest <+: ys := by
  induction xs generalizing needle with
  | nil =>
    cases needle with
    | nil => simp_all [matchBytes]
    | cons y needle =>
      obtain rfl : y :: needle = rest := by simpa [matchBytes] using h
      rfl
  | cons x xs ih =>
    cases needle with
    | nil =>
      obtain rfl : rest = [] := by simpa [matchBytes] using h
      simp
    | cons y needle =>
      rw [matchBytes] at h
      split_ifs at h with hxy
      rw [List.cons_append, List.cons_prefix_cons, ih h, not_not.mp hxy]
      simp

theorem matchesFrom_iff {i : ℕ} (hn : needle ≠ []) (hi : ∀ k ∈ ks.head?, i ≤ k.readable.length) :
    matchesFrom ks i needle = true ↔ needle <+: (readableOf ks).drop i := by
  induction ks generalizing i needle with
  | nil => simp [matchesFrom, hn]
  | cons k ks ih =>
    rw [readableOf_cons, List.drop_append_of_le_length (hi k rfl), matchesFrom]
    cases hm : matchBytes (k.readable.drop i) needle with
    | none => simpa using matchBytes_none hm (readableOf ks)
    | some rest =>
      rw [matchBytes_some hm]
      cases rest with
      | nil => simp
      | cons y rest => exact ih (by simp) fun _ _ => Nat.zero_le _

theorem candidate_iff {k : Block β} {i : ℕ} (hn : needle ≠ []) (hi : i < k.readableBytes) :
    (((k :: ks).head?.bind (·.readable[i]?)) = needle.head? ∧
      matchesFrom (k :: ks) i needle = true) ↔ needle <+: (readableOf (k :: ks)).drop i := by
  rw [← k.length_readable] at hi
  rw [matchesFrom_iff hn (by simpa using Nat.le_of_lt hi)]
  refine ⟨And.right, fun hp => ⟨?_, hp⟩⟩
  obtain ⟨y, needle, rfl⟩ := List.exists_cons_of_ne_nil hn
  rw [readableOf_cons, List.drop_append_of_le_length (Nat.le_of_lt hi),
    List.drop_eq_getElem_cons hi, List.cons_append, List.cons_prefix_cons] at hp
  simp [List.getElem?_eq_getElem hi, hp.1]

/-! ## The loops -/

theorem findInBlock_spec {k : Block β} {offset turns i : ℕ}
    (hn : needle ≠ []) (hlen : needle.length ≤ content.length)
    (hdrop : content.drop offset = readableOf (k :: ks))
    (hi : turns = k.readableBytes - i) (hstart : start ≤ offset + i)
    (hp : Passed needle content start (offset + i)) :
    match findInBlock needle (content.length - needle.length) offset (k :: ks) turns i with
    | some r => FoundFrom needle content start r
    | none => Passed needle content start (offset + k.readableBytes) := by
  induction turns generalizing i with
  | zero =>
    intro p hs hlt
    exact hp p hs (by omega)
  | succ turns ih =>
    have hik : i < k.readableBytes := by omega
    rw [findInBlock]
    split_ifs with hlast hcand
    · exact hp.notFound (by omega)
    · refine hp.found hstart ⟨by omega, ?_⟩
      rw [← List.drop_drop, hdrop]
      exact (candidate_iff hn hik).mp hcand
    · refine ih (by omega) (by omega) (hp.succ fun hocc => hcand ((candidate_iff hn hik).mpr ?_))
      rw [← hdrop, List.drop_drop]
      exact hocc.2

theorem findInBlocks_spec {offset : ℕ} (hn : needle ≠ [])
    (hlen : needle.length ≤ content.length) (hdrop : content.drop offset = readableOf ks)
    (hp : Passed needle content start offset) :
    FoundFrom needle content start
      (findInBlocks needle start (content.length - needle.length) ks offset) := by
  induction ks generalizing offset with
  | nil =>
    have hend : content.length ≤ offset := List.drop_eq_nil_iff.mp hdrop
    have hpos := List.length_pos_iff.mpr hn
    exact hp.notFound (by omega)
  | cons k ks ih =>
    have hfirst : ∀ i, i = (if start > offset then start - offset else 0) →
        start ≤ offset + i ∧ Passed needle content start (offset + i) := by
      rintro i rfl
      split_ifs with hs
      · exact ⟨by omega, fun p hp hlt => absurd hlt (by omega)⟩
      · exact ⟨by omega, by simpa using hp⟩
    obtain ⟨hstart, hpi⟩ := hfirst _ rfl
    have hblock := findInBlock_spec hn hlen hdrop rfl hstart hpi
    rw [findInBlocks]
    split
    · next r hr =>
      rw [hr] at hblock
      exact hblock
    · next hr =>
      rw [hr] at hblock
      refine ih ?_ hblock
      rw [← List.drop_drop, hdrop, readableOf_cons, ← k.length_readable, List.drop_left]

/-- **Search.** On every chain of blocks `Find` returns the least position from `start` on at which
the needle occurs in the contents, and nothing exactly when there is none; an empty needle is found
at `start` unless `start` is past the end. -/
theorem find_least (b : Buffer β) (hb : b.readableBytes = b.contents.length) (needle : List β)
    (start : ℕ) :
    (∀ p, b.find needle start = some p ↔
      IsLeast {p | start ≤ p ∧ Occurs needle b.contents p} p) ∧
    (b.find needle start = none ↔ ∀ p, start ≤ p → ¬ Occurs needle b.contents p) ∧
    (start ≤ b.contents.length → b.find [] start = some start) := by
  have hspec : ∀ needle, FoundFrom needle b.contents start (b.find needle start) := by
    intro needle
    have hzero : Passed needle b.contents start 0 := fun p _ hlt => absurd hlt (by omega)
    rw [Buffer.find, hb]
    split_ifs with hfit hempty
    · intro p hs hocc
      have := hocc.add_le
      omega
    · have hself : Passed needle b.contents start start := fun p hp hlt => absurd hlt (by omega)
      exact hself.found (Nat.le_refl _) ⟨by omega, by simp [hempty]⟩
    · exact findInBlocks_spec hempty (by omega) rfl hzero
  refine ⟨fun p => ⟨fun h => ?_, fun h => ?_⟩, ⟨fun h => ?_, fun h => ?_⟩, fun h => ?_⟩
  · have := hspec needle
    rwa [h] at this
  · have := hspec needle
    cases hr : b.find needle start with
    | none =>
      rw [hr] at this
      exact absurd h.1.2 (this p h.1.1)
    | some q =>
      rw [hr] at this
      rw [this.unique h]
  · have := hspec needle
    rwa [h] at this
  · have := hspec needle
    cases hr : b.find needle start with
    | none => rfl
    | some q =>
      rw [hr] at this
      exact absurd this.1.2 (h q this.1.1)
  · simp [Buffer.find, hb, h]

def splitBuffer : Buffer ℕ :=
  { (Buffer.create 4 : Buffer ℕ) with
    blocks := [⟨0, [9, 1, 2], 1, 3, false, by decide, by decide⟩,
      .create 1 [],
      ⟨2, [3, 2, 3, 7], 0, 3, false, by decide, by decide⟩]
    readableBytes := 5 }

theorem find_least_split : splitBuffer.contents = [1, 2, 3, 2, 3] ∧
    IsLeast {p | 0 ≤ p ∧ Occurs [2, 3] splitBuffer.contents p} 1 ∧
    IsLeast {p | 2 ≤ p ∧ Occurs [2, 3] splitBuffer.contents p} 3 :=
  ⟨by decide, ((find_least splitBuffer (by decide) [2, 3] 0).1 1).mp (by decide),
    ((find_least splitBuffer (by decide) [2, 3] 2).1 3).mp (by decide)⟩

end Alyrn.Net
