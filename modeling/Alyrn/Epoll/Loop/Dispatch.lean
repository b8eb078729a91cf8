import Mathlib.Tactic.Common
import Alyrn.Epoll.Loop

/-!
# Dispatch reaches registered channels

The addresses in `active_channels_` were collected before any callback of the round ran. A callback
that removes a channel which is still in that list leaves its address there, and the loop calls
`HandleEventUnchecked` on it later. In runs without such removals (`Keeps`) every call finds a
channel that the poller knows.
-/

namespace Alyrn.Epoll.Loop

open Function

variable {l l' : Loop} {a fd : ℕ} {c : Channel}

/-- No channel is taken out of the poller while it waits in the list of active channels. -/
def Keeps (l : Loop) : Action → Prop
  | .user address .remove | .user address .detach => address ∉ l.active
  | _ => True

instance : ∀ l a, Decidable (Keeps l a) := fun l a => by
  unfold Keeps
  split <;> infer_instance

/-! ## The poller's map -/

/-- The poller's map, the states of the channels and the kernel's list agree. -/
structure Registered (l : Loop) : Prop where
  known : ∀ f a, l.channels f = some a →
    ∃ c, l.objects a = some c ∧ c.fd = some f ∧ c.index ≠ .new
  indexed : ∀ a c, l.objects a = some c → c.index ≠ .new →
    ∃ f, c.fd = some f ∧ l.channels f = some a
  watched : ∀ f a, l.epoll f = some a →
    ∃ c, l.objects a = some c ∧ c.fd = some f ∧ c.index = .added

theorem Registered.hasChannel_iff (h : Registered l) :
    l.hasChannel a = true ↔ ∃ f, l.channels f = some a := by
  constructor
  · intro hc
    simp only [hasChannel, Option.any_eq_true, decide_eq_true_eq] at hc
    obtain ⟨c, -, f, -, hf⟩ := hc
    exact ⟨f, hf⟩
  · rintro ⟨f, hf⟩
    obtain ⟨c, hobj, hfd, -⟩ := h.known f a hf
    simp [hasChannel, hobj, hfd, hf]

/-- What an operation may change; the channels in `P` stay. -/
structure Effect (l l' : Loop) (P : ℕ → Prop) : Prop where
  registered : Registered l'
  keeps : ∀ f a, P a → l.channels f = some a → l'.channels f = some a
  active_eq : l'.active = l.active
  invoked_eq : l'.invoked = l.invoked

theorem Effect.abort (h : Registered l) (P : ℕ → Prop) : Effect l { l with aborted := true } P :=
  ⟨{ h with }, fun _ _ _ hf => hf, rfl, rfl⟩

theorem Effect.orAbort {P : ℕ → Prop} {o : Option Loop} (h : Registered l)
    (ho : ∀ l', o = some l' → Effect l l' P) : Effect l (l.orAbort o) P := by
  cases o with
  | some l' => exact ho l' rfl
  | none => exact .abort h P

theorem Registered.eq_of_fd (h : Registered l) (hc : l.objects a = some c) (hfd : c.fd = some fd)
    (hi : c.index ≠ .new) : l.channels fd = some a := by
  obtain ⟨f, hf, hch⟩ := h.indexed a c hc hi
  rw [hfd] at hf
  exact Option.some.inj hf ▸ hch

theorem ctlAdd_eq (h : l.ctlAdd fd a = some l') :
    l' = { l with epoll := update l.epoll fd (some a) } := by
  unfold ctlAdd at h
  split_ifs at h
  exact (Option.some.inj h).symm

theorem ctlDel_eq (h : l.ctlDel fd = some l') :
    l' = { l with epoll := update l.epoll fd none } := by
  unfold ctlDel at h
  split_ifs at h
  exact (Option.some.inj h).symm

/-- The entry of the poller's map for a channel in state `i`. -/
def entry (i : ChannelState) (a : ℕ) : Option ℕ := if i = .new then none else some a

def watch (i : ChannelState) (a : ℕ) : Option ℕ := if i = .added then some a else none

def changed (l : Loop) (a fd : ℕ) (c : Channel) : Loop :=
  { l with objects := update l.objects a (some c)
           channels := update l.channels fd (entry c.index a)
           epoll := update l.epoll fd (watch c.index a) }

section

variable (h : Registered l)
include h

theorem Registered.channels_eq (hc : l.objects a = some c)
    (hfd : c.fd = some fd) (hnew : c.index = .new → l.channels fd = none) :
    l.channels fd = entry c.index a := by
  unfold entry
  split_ifs with hi
  · exact hnew hi
  · exact h.eq_of_fd hc hfd hi

theorem Registered.epoll_eq (hadd : c.index = .added → (l.epoll fd).isSome = true)
    (hc : l.objects a = some c) (hfd : c.fd = some fd)
    (hnew : c.index = .new → l.channels fd = none) : l.epoll fd = watch c.index a := by
  have hch := h.channels_eq hc hfd hnew
  cases he : l.epoll fd with
  | none =>
    have hi : c.index ≠ .added := fun hi => by simpa [he] using hadd hi
    rw [watch, if_neg hi]
  | some b =>
    obtain ⟨cb, hb, hfdb, hib⟩ := h.watched fd b he
    have hcb := h.eq_of_fd hb hfdb (by rw [hib]; decide)
    rw [hch] at hcb
    unfold entry at hcb
    split_ifs at hcb with hi
    cases hcb
    rw [hc] at hb
    cases hb
    rw [watch, if_pos hib]

section

variable (hc : l.objects a = some c)
include hc

theorem Registered.changed {c' : Channel} (hfd : c.fd = some fd) (hfd' : c'.fd = some fd)
    (hnew : c.index = .new → l.channels fd = none) : Registered (l.changed a fd c') := by
  have hch := h.channels_eq hc hfd hnew
  -- what is registered on another descriptor is another channel
  have hother : ∀ f b, f ≠ fd → l.channels f = some b → b ≠ a := by
    rintro f b hf hb rfl
    obtain ⟨cb, hcb, hfdb, -⟩ := h.known f b hb
    rw [hc] at hcb
    cases hcb
    exact hf (Option.some.inj (hfdb.symm.trans hfd))
  refine ⟨fun f b hb => ?_, fun b cb hb hi => ?_, fun f b hb => ?_⟩
  · by_cases hf : f = fd
    · subst hf
      simp only [Loop.changed, update_self, entry] at hb
      split_ifs at hb with hi
      cases hb
      exact ⟨c', update_self .., hfd', hi⟩
    · simp only [Loop.changed, update_of_ne hf] at hb
      obtain ⟨cb, hcb, hrest⟩ := h.known f b hb
      exact ⟨cb, by simpa [Loop.changed, update_of_ne (hother f b hf hb)] using hcb, hrest⟩
  · by_cases hba : b = a
    · subst hba
      simp only [Loop.changed, update_self, Option.some.injEq] at hb
      subst hb
      exact ⟨fd, hfd', by simp [Loop.changed, entry, hi]⟩
    · simp only [Loop.changed, update_of_ne hba] at hb
      obtain ⟨f, hf, hcf⟩ := h.indexed b cb hb hi
      refine ⟨f, hf, ?_⟩
      have hne : f ≠ fd := by
        rintro rfl
        rw [hch] at hcf
        unfold entry at hcf
        split_ifs at hcf
        exact hba (Option.some.inj hcf).symm
      simpa [Loop.changed, update_of_ne hne] using hcf
  · by_cases hf : f = fd
    · subst hf
      simp only [Loop.changed, update_self, watch] at hb
      split_ifs at hb with hi
      cases hb
      exact ⟨c', update_self .., hfd', hi⟩
    · simp only [Loop.changed, update_of_ne hf] at hb
      obtain ⟨cb, hcb, hfdb, hib⟩ := h.watched f b hb
      have hne := hother f b hf (h.eq_of_fd hcb hfdb (by rw [hib]; decide))
      exact ⟨cb, by simpa [Loop.changed, update_of_ne hne] using hcb, hfdb, hib⟩

theorem Registered.updateChannel_eq {e : Events}
    (hfd : c.fd = some fd) (hnew : c.index = .new → l.channels fd = none)
    (hl : l.updateChannel a fd { c with events := e } = some l') :
    ∃ i, i ≠ .new ∧ l' = l.changed a fd { c with events := e, index := i } := by
  have hch := h.channels_eq hc hfd hnew
  unfold updateChannel at hl
  cases hi : c.index with
  | new =>
    simp only [hi] at hl
    exact ⟨.added, by decide, ctlAdd_eq hl⟩
  | deleted =>
    simp only [hi] at hl
    obtain rfl := ctlAdd_eq hl
    have hself : update l.channels fd (some a) = l.channels := by
      rw [update_eq_self_iff, hch, hi]
      rfl
    exact ⟨.added, by decide, by simp [Loop.changed, entry, watch, hself, setObject]⟩
  | added =>
    have hself : update l.channels fd (some a) = l.channels := by
      rw [update_eq_self_iff, hch, hi]
      rfl
    simp only [hi] at hl
    split_ifs at hl with hno he
    · obtain rfl := ctlDel_eq hl
      exact ⟨.deleted, by decide, by simp [Loop.changed, entry, watch, hself, setObject]⟩
    · cases hl
      have hwatch : update l.epoll fd (some a) = l.epoll := by
        rw [update_eq_self_iff, h.epoll_eq (fun _ => he) hc hfd hnew, hi]
        rfl
      exact ⟨.added, by decide, by simp [Loop.changed, entry, watch, hself, hwatch, setObject]⟩

theorem Registered.setEvents {e : Events}
    (hfd : c.fd = some fd) (hnew : c.index = .new → l.channels fd = none)
    (hl : l.setEvents a fd c e = some l') : Effect l l' fun _ => True := by
  obtain ⟨i, hi, rfl⟩ := h.updateChannel_eq hc hfd hnew hl
  refine ⟨h.changed hc hfd hfd hnew, fun f b _ hb => ?_, rfl, rfl⟩
  by_cases hf : f = fd
  · subst hf
    have := h.channels_eq hc hfd hnew
    rw [hb] at this
    unfold entry at this
    split_ifs at this
    simp [Loop.changed, entry, hi, this]
  · simpa [Loop.changed, update_of_ne hf] using hb

theorem Registered.remove
    (hfd : c.fd = some fd) (hi : c.index ≠ .new) (hl : l.remove a fd c = some l') :
    Effect l l' (· ≠ a) := by
  have hnew : c.index = .new → l.channels fd = none := fun hn => absurd hn hi
  have hch := h.eq_of_fd hc hfd hi
  have heq : l' = l.changed a fd { c with index := .new } := by
    simp only [Loop.remove, removeChannel] at hl
    split_ifs at hl with hno hadd
    · exact ctlDel_eq hl
    · cases hl
      have hself : update l.epoll fd none = l.epoll := by
        rw [update_eq_self_iff, h.epoll_eq (fun hx => absurd hx hadd) hc hfd hnew, watch,
          if_neg hadd]
      simp [Loop.changed, entry, watch, hself, setObject]
  subst heq
  refine ⟨h.changed hc hfd hfd hnew, fun f b hne hb => ?_, rfl, rfl⟩
  have hf : f ≠ fd := by
    rintro rfl
    exact hne (Option.some.inj (hb.symm.trans hch))
  simpa [Loop.changed, update_of_ne hf] using hb

end

end

theorem Effect.trans {l₁ l₂ : Loop} {P : ℕ → Prop} (h₁ : Effect l l₁ fun _ => True)
    (h₂ : Effect l₁ l₂ P) : Effect l l₂ P :=
  ⟨h₂.registered, fun f b hb hf => h₂.keeps f b hb (h₁.keeps f b trivial hf),
    h₂.active_eq.trans h₁.active_eq, h₂.invoked_eq.trans h₁.invoked_eq⟩

theorem Registered.index_ne_new (h : Registered l) (hc : l.objects a = some c)
    (hreg : l.hasChannel a = true) : c.index ≠ .new := by
  obtain ⟨f, hf⟩ := h.hasChannel_iff.mp hreg
  obtain ⟨c', hc', -, hi⟩ := h.known f a hf
  rw [hc] at hc'
  exact Option.some.inj hc' ▸ hi

theorem Registered.detachChannel (h : Registered l) (hc : l.objects a = some c)
    (hfd : c.fd = some fd) (hnew : c.index = .new → c.isNoneEvent = true)
    (hl : l.detachChannel a fd c = some l') : Effect l l' (· ≠ a) := by
  have hsame : Effect l l (· ≠ a) := ⟨h, fun _ _ _ hf => hf, rfl, rfl⟩
  unfold Loop.detachChannel at hl
  by_cases hno : c.isNoneEvent = true
  · simp only [if_pos hno, Option.bind_eq_bind, Option.bind_some] at hl
    split_ifs at hl with hreg
    · rw [hc, Option.bind_some] at hl
      exact h.remove hc hfd (h.index_ne_new hc hreg) hl
    · cases hl
      exact hsame
  · have hi : c.index ≠ .new := fun hi => hno (hnew hi)
    simp only [if_neg hno, Option.bind_eq_bind] at hl
    obtain ⟨l₁, hset, hl⟩ := Option.bind_eq_some_iff.mp hl
    have he := h.setEvents hc hfd (fun hn => absurd hn hi) hset
    split_ifs at hl with hreg
    · obtain ⟨c₁, hc₁, hl⟩ := Option.bind_eq_some_iff.mp hl
      obtain ⟨i, -, rfl⟩ := h.updateChannel_eq hc hfd (fun hn => absurd hn hi) hset
      have hfd₁ : c₁.fd = some fd := by
        simp only [Loop.changed, update_self, Option.some.injEq] at hc₁
        rw [← hc₁]
        exact hfd
      exact he.trans (he.registered.remove hc₁ hfd₁ (he.registered.index_ne_new hc₁ hreg) hl)
    · cases hl
      exact { he with keeps := fun f b _ hf => he.keeps f b trivial hf }

theorem Registered.update (h : Registered l) (hfree : ∀ f, l.channels f ≠ some a)
    {o : Option Channel} (hnew : ∀ c ∈ o, c.index = .new) :
    Registered { l with objects := Function.update l.objects a o } := by
  refine ⟨fun f b hb => ?_, fun b cb hb hi => ?_, fun f b hb => ?_⟩
  · have hne : b ≠ a := by rintro rfl; exact hfree f hb
    obtain ⟨cb, hcb, hrest⟩ := h.known f b hb
    exact ⟨cb, by simpa [update_of_ne hne] using hcb, hrest⟩
  · by_cases hba : b = a
    · subst hba
      exact absurd (hnew cb (by simpa using hb)) hi
    · exact h.indexed b cb (by simpa [update_of_ne hba] using hb) hi
  · obtain ⟨cb, hcb, hfdb, hib⟩ := h.watched f b hb
    have hne : b ≠ a := by
      rintro rfl
      exact hfree f (h.eq_of_fd hcb hfdb (by rw [hib]; decide))
    exact ⟨cb, by simpa [update_of_ne hne] using hcb, hfdb, hib⟩

theorem Registered.free (h : Registered l) (ho : (l.objects a).all (·.index = .new) = true)
    (f : ℕ) : l.channels f ≠ some a := by
  intro hf
  obtain ⟨c, hc, -, hi⟩ := h.known f a hf
  simp only [hc, Option.all_some, decide_eq_true_eq] at ho
  exact hi ho

/-! ## Rounds -/

/-- The invariant of a run. -/
structure Good (l : Loop) : Prop extends Registered l where
  active : ∀ a ∈ l.active, ∃ f, l.channels f = some a
  invoked : ∀ p ∈ l.invoked, p.2 = true

def Op.keepsAt (address : ℕ) : Op → ℕ → Prop
  | .remove, b | .detach, b => b ≠ address
  | _, _ => True

theorem Registered.user (h : Registered l) {op : Op} (hl : l.user a op = some l') :
    Effect l l' (op.keepsAt a) := by
  cases op with
  | create f =>
    simp only [Loop.user] at hl
    split_ifs at hl with hnone
    cases hl
    have hfree := h.free (a := a) (by rw [Option.isNone_iff_eq_none.mp hnone]; rfl)
    exact ⟨h.update hfree (by simp), fun _ _ _ hf => hf, rfl, rfl⟩
  | destroy =>
    simp only [Loop.user] at hl
    split_ifs at hl with hd
    cases hl
    refine ⟨h.update (fun f hf => ?_) (by simp), fun _ _ _ hf => hf, rfl, rfl⟩
    have := h.hasChannel_iff.mpr ⟨f, hf⟩
    rw [hd.2] at this
    cases this
  | setEvents e =>
    simp only [Loop.user, Option.bind_eq_bind] at hl
    obtain ⟨c, hc, hl⟩ := Option.bind_eq_some_iff.mp hl
    obtain ⟨fd, hfd, hl⟩ := Option.bind_eq_some_iff.mp hl
    split_ifs at hl with hone
    cases hl
    refine .orAbort h fun l' hl' => h.setEvents hc hfd (fun hi => ?_) hl'
    by_contra hsome
    exact hone ⟨hi, Option.isSome_iff_ne_none.mpr hsome⟩
  | remove =>
    simp only [Loop.user, Option.bind_eq_bind] at hl
    obtain ⟨c, hc, hl⟩ := Option.bind_eq_some_iff.mp hl
    obtain ⟨fd, hfd, hl⟩ := Option.bind_eq_some_iff.mp hl
    split_ifs at hl with hreg
    cases hl
    exact .orAbort h fun l' hl' => h.remove hc hfd (h.index_ne_new hc hreg) hl'
  | detach =>
    simp only [Loop.user, Option.bind_eq_bind] at hl
    obtain ⟨c, hc, hl⟩ := Option.bind_eq_some_iff.mp hl
    obtain ⟨fd, hfd, hl⟩ := Option.bind_eq_some_iff.mp hl
    split_ifs at hl with hodd
    cases hl
    refine .orAbort h fun l' hl' => h.detachChannel hc hfd (fun hi => ?_) hl'
    by_contra hno
    exact hodd ⟨hi, by simpa using hno⟩
  | move target =>
    simp only [Loop.user, Option.bind_eq_bind] at hl
    obtain ⟨c, hc, hl⟩ := Option.bind_eq_some_iff.mp hl
    split_ifs at hl with htarget
    cases hl
    refine .orAbort h fun l' hl' => ?_
    unfold Loop.move at hl'
    split_ifs at hl' with hi
    cases hl'
    have h₁ := h.update (h.free htarget.2) (o := some c) (by simpa using hi)
    refine ⟨h₁.update (h₁.free ?_) (by simp), fun _ _ _ hf => hf, rfl, rfl⟩
    simp [update_of_ne htarget.1.symm, hc, hi]

theorem Good.user (h : Good l) {op : Op} (hk : Keeps l (.user a op))
    (hl : l.user a op = some l') : Good l' := by
  have he := h.toRegistered.user hl
  refine ⟨he.registered, fun b hb => ?_, fun p hp => h.invoked p (he.invoked_eq ▸ hp)⟩
  rw [he.active_eq] at hb
  obtain ⟨f, hf⟩ := h.active b hb
  refine ⟨f, he.keeps f b ?_ hf⟩
  cases op with
  | remove | detach => exact fun hba => hk (hba ▸ hb)
  | create | setEvents | move | destroy => trivial

theorem Good.fillActive (h : Good l) {e : Events} (hl : l.fillActive fd e = some l') : Good l' := by
  obtain ⟨a, ha, hl⟩ := Option.bind_eq_some_iff.mp hl
  obtain ⟨c, hc, hl⟩ := Option.bind_eq_some_iff.mp hl
  cases hl
  obtain ⟨c', hc', hfd, hi⟩ := h.watched fd a ha
  cases hc.symm.trans hc'
  have hreg := h.eq_of_fd hc hfd (by rw [hi]; decide)
  -- only the reported events of the channel change
  have hobj : ∀ b cb, l.objects b = some cb → ∃ cb', update l.objects a
      (some { c with revents := e }) b = some cb' ∧ cb'.fd = cb.fd ∧ cb'.index = cb.index := by
    intro b cb hb
    by_cases hba : b = a
    · subst hba
      cases hc.symm.trans hb
      exact ⟨_, update_self .., rfl, rfl⟩
    · exact ⟨cb, by rwa [update_of_ne hba], rfl, rfl⟩
  refine ⟨⟨fun f b hb => ?_, fun b cb hb hib => ?_, fun f b hb => ?_⟩, fun b hb => ?_, h.invoked⟩
  · obtain ⟨cb, hcb, hfdb, hib⟩ := h.known f b hb
    obtain ⟨cb', hcb', hfd', hi'⟩ := hobj b cb hcb
    exact ⟨cb', hcb', hfd'.trans hfdb, hi' ▸ hib⟩
  · by_cases hba : b = a
    · subst hba
      simp only [Loop.setObject, update_self, Option.some.injEq] at hb
      subst hb
      exact ⟨fd, hfd, hreg⟩
    · exact h.indexed b cb (by simpa [Loop.setObject, update_of_ne hba] using hb) hib
  · obtain ⟨cb, hcb, hfdb, hib⟩ := h.watched f b hb
    obtain ⟨cb', hcb', hfd', hi'⟩ := hobj b cb hcb
    exact ⟨cb', hcb', hfd'.trans hfdb, hi'.trans hib⟩
  · rcases List.mem_append.mp hb with hb | hb
    · exact h.active b hb
    · exact ⟨fd, by rwa [List.mem_singleton.mp hb]⟩

theorem Good.poll : ∀ {ready : List (ℕ × Events)} {l l' : Loop}, Good l →
    Loop.poll ready l = some l' → Good l'
  | [], _, _, h, hl => by
    cases hl
    exact h
  | (_, _) :: _, _, _, h, hl => by
    obtain ⟨l₁, hfill, hl⟩ := Option.bind_eq_some_iff.mp hl
    exact Good.poll (h.fillActive hfill) hl

theorem Good.step (h : Good l) {x : Action} (hk : Keeps l x) (hs : step x l = some l') :
    Good l' := by
  unfold Loop.step at hs
  obtain ⟨hab, hs⟩ := Option.ite_none_left_eq_some.mp hs
  cases x with
  | poll ready =>
    simp only at hs
    split_ifs at hs
    refine Good.poll ?_ hs
    exact ⟨{ h with }, fun b hb => absurd hb List.not_mem_nil, h.invoked⟩
  | dispatch =>
    simp only at hs
    split at hs
    · rename_i address rest hphase hact
      cases hs
      refine ⟨{ h with }, fun b hb => h.active b ?_, fun p hp => ?_⟩
      · rw [hact]
        exact List.mem_cons_of_mem _ hb
      · rcases List.mem_append.mp hp with hp | hp
        · exact h.invoked p hp
        · rw [List.mem_singleton.mp hp]
          exact h.hasChannel_iff.mpr (h.active address (by rw [hact]; exact List.mem_cons_self))
    · cases hs
  | handled =>
    simp only at hs
    split at hs
    · cases hs
      exact ⟨{ h with }, h.active, h.invoked⟩
    · cases hs
  | endRound =>
    simp only at hs
    split_ifs at hs
    cases hs
    exact ⟨{ h with }, h.active, h.invoked⟩
  | user address op =>
    simp only at hs
    split_ifs at hs
    exact h.user hk hs

/-- **Dispatch.** In a run in which no channel is removed while it waits in the list of active
channels, `HandleEventUnchecked` is called on registered channels only. -/
theorem dispatch_registered (h : system.ReachesBy Keeps l) :
    ∀ call ∈ l.invoked, call.2 = true := by
  refine Good.invoked (h.invariant (I := Good) ?_ fun s x s' hg hk hs => hg.step hk hs)
  rintro _ rfl
  exact ⟨⟨fun _ _ hf => by (cases hf), fun _ _ ho => by (cases ho), fun _ _ hf => by (cases hf)⟩,
    fun _ hb => absurd hb List.not_mem_nil, fun _ hp => absurd hp List.not_mem_nil⟩

/-- The timer descriptor and a connecting socket are ready in one round; the timer's callback does
not touch the connect. -/
theorem dispatch_registered_round : ∃ l, (system.ReachesBy Keeps l ∧
    l.invoked.map (·.1) = [0, 1]) ∧ ∀ call ∈ l.invoked, call.2 = true :=
  system.exists_reachesBy_and _ {} rfl
    [.user 0 (.create 3), .user 0 (.setEvents { read := true }), .user 1 (.create 4),
      .user 1 (.setEvents { write := true }), .poll [(3, { read := true }), (4, { write := true })],
      .dispatch, .handled, .dispatch, .user 1 .detach, .handled, .endRound] (by decide)
    fun _ hr _ => dispatch_registered hr

/-- The timer of a connect expires in the round in which its socket becomes writable:
`DetachChannel` removes and destroys the channel, and the loop dispatches it afterwards. -/
theorem dispatch_after_detach :
    ¬ ∀ l, system.Reaches l → ∀ call ∈ l.invoked, call.2 = true := by
  intro hall
  obtain ⟨l, hr, hp⟩ := system.exists_reachesBy (fun _ _ => True) {} rfl
    [.user 0 (.create 3), .user 0 (.setEvents { read := true }), .user 1 (.create 4),
      .user 1 (.setEvents { write := true }), .poll [(3, { read := true }), (4, { write := true })],
      .dispatch, .user 1 .detach, .user 1 .destroy, .handled, .dispatch]
    (P := fun l => (1, false) ∈ l.invoked) (by decide)
  exact Bool.false_ne_true (hall l hr _ hp)

end Alyrn.Epoll.Loop
