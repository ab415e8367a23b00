import ActivityBoard.Proofs.Gate.History

/-!
What a step leaves alone: the requests it is not about keep their channels, and as long as one
request has the slot nobody else is sent it.
-/
namespace ActivityBoard.Gate

variable {ι : Type} [DecidableEq ι] {g : Gate ι} {i j k : ι} {c d : Nat} {s : Step ι}
  {steps : List (Step ι)}

/-- The request queued, and its channel is in this state. -/
def Listens (g : Gate ι) (i : ι) (c : Nat) (x : Channel) : Prop :=
  g.phase? i = some (.waiting c) ∧ g.channel c = x

variable {x : Channel}

theorem Listens.hasSlot (h : g.Listens i c .full) : g.HasSlot i := .inr ⟨c, h⟩

theorem Listens.not_hasSlot (h : g.Listens i c .empty) : ¬ g.HasSlot i := by
  rw [hasSlot_of_waiting h.1, h.2]
  simp

theorem Sound.listens (h : g.Sound) (hi : g.phase? i = some (.waiting c)) (hn : ¬ g.HasSlot i) :
    g.Listens i c .empty := by
  refine ⟨hi, ?_⟩
  cases hc : g.channel c with
  | empty => rfl
  | full => exact absurd ((hasSlot_of_waiting hi).2 hc) hn
  | closed => exact absurd hc (h.listening i c hi)

theorem Linked.channel_ne (h : g.Linked) (hi : g.phase? i = some (.waiting c))
    (hj : g.phase? j = some (.waiting d)) (hij : i ≠ j) : c ≠ d := by
  intro hcd
  exact hij (h.apart i j c hi (hcd ▸ hj))

theorem Linked.channel_poll (h : g.Linked) (hj : g.phase? j = some (.waiting d)) (hij : i ≠ j) :
    (g.poll i).1.channel d = g.channel d := by
  have hp := g.polled_poll i
  generalize g.poll i = p at hp
  cases hp with
  | unknown => rfl
  | held => rfl
  | waiting => rfl
  | joined =>
    have hd : d ≠ g.channels.length := by
      intro hd
      exact h.fresh j (hd ▸ hj)
    rw [channel_enter, channel_enqueue, if_neg hd]
  | received c hi => rw [channel_enter, channel_withdraw, if_neg (h.channel_ne hj hi (Ne.symm hij))]
  | taken => rfl

theorem Linked.channel_drop (h : g.Linked) (hj : g.phase? j = some (.waiting d)) (hij : i ≠ j)
    (hi : ¬ g.HasSlot i) : (g.drop i).1.channel d = g.channel d := by
  have hd := g.dropped_drop i
  generalize g.drop i = p at hd
  cases hd with
  | unknown => rfl
  | unpolled => rfl
  | waiting c hc => rw [channel_withdraw, if_neg (h.channel_ne hj hc (Ne.symm hij))]
  | handed c hc hf => exact absurd (.inr ⟨c, hc, hf⟩) hi
  | holding hh => exact absurd (.inl hh) hi

/-- Dropping the request that has the slot sends the slot over the lowest empty channel. -/
theorem Sound.channel_drop_owner (h : g.Sound) (hi : g.HasSlot i)
    (hj : g.Listens j d .empty) : ∃ c, g.channel c = .empty ∧ (∀ e, g.channel e = .empty → c ≤ e) ∧
      ∀ e, g.channel e = .empty →
        (g.drop i).1.channel e = if e = c then .full else .empty := by
  have key (g' : Gate ι) (hg : g'.Linked) (he : ∀ e, g'.channel e = .empty ↔ g.channel e = .empty) :
      ∃ c, g.channel c = .empty ∧ (∀ e, g.channel e = .empty → c ≤ e) ∧
        ∀ e, g.channel e = .empty → g'.release.channel e = if e = c then .full else .empty := by
    rcases hg.release_cases with ⟨hn, _⟩ | ⟨c, hc, hle, _, hch⟩
    · exact absurd ((he d).2 hj.2) (hn d)
    · refine ⟨c, (he c).1 hc, fun e hee => hle e ((he e).2 hee), fun e hee => ?_⟩
      rw [hch, (he e).2 hee]
  have hd := g.dropped_drop i
  generalize g.drop i = p at hd
  cases hd with
  | unknown hn => exact absurd hn hi.known
  | unpolled hu => exact absurd hi (not_hasSlot_of_unpolled hu)
  | waiting c hc hf => exact absurd ((hasSlot_of_waiting hc).1 hi) hf
  | handed c hc hf =>
    apply key _ (h.withdraw hc)
    intro e
    rw [channel_withdraw]
    split
    · rename_i hec
      rw [hec, hf]
      simp
    · exact Iff.rfl
  | holding hh => exact key _ (h.forget (by simp [hh])) fun e => Iff.rfl

theorem Sound.listens_step (h : g.Sound) (hk : g.HasSlot k) (hs : Keeps [s] k)
    (hj : g.Listens j d x) (hn : s.name ≠ j) : (g.step s).1.Listens j d x := by
  refine ⟨(phase?_step_of_ne hn).trans hj.1, ?_⟩
  have hslot (i : ι) (hik : i ≠ k) : ¬ g.HasSlot i := fun hi => hik (h.single i k hi hk)
  have hne := keeps_singleton.1 hs
  cases s with
  | create i =>
    have hik : i ≠ k := by
      intro hik
      exact hne.1 (congrArg Step.create hik)
    exact (h.channel_drop hj.1 hn (hslot i hik)).trans hj.2
  | poll i => exact (h.channel_poll hj.1 hn).trans hj.2
  | drop i =>
    have hik : i ≠ k := by
      intro hik
      exact hne.2 (congrArg Step.drop hik)
    exact (h.channel_drop hj.1 hn (hslot i hik)).trans hj.2

theorem hasSlot_poll_self (hi : g.HasSlot i) : (g.poll i).1.HasSlot i := by
  have hp := g.polled_poll i
  generalize g.poll i = p at hp
  cases hp with
  | unknown => exact hi
  | held => exact hi
  | waiting => exact hi
  | joined hu => exact absurd hi (not_hasSlot_of_unpolled hu)
  | received => exact hasSlot_enter_holding
  | taken hu => exact absurd hi (not_hasSlot_of_unpolled hu)

theorem Sound.hasSlot_step (h : g.Sound) (hi : g.HasSlot i) (hs : Keeps [s] i) :
    (g.step s).1.HasSlot i := by
  rcases s.about i with he | he | he | hn
  · exact absurd (he ▸ hs) (not_keeps_create i)
  · rw [he]
    exact hasSlot_poll_self hi
  · exact absurd (he ▸ hs) (not_keeps_drop i)
  · rcases hi with hh | ⟨c, hc⟩
    · exact .inl ((phase?_step_of_ne hn).trans hh)
    · exact .inr ⟨c, h.listens_step (.inr ⟨c, hc⟩) hs hc hn⟩

theorem Sound.handed_run (h : g.Sound) (hi : g.Listens i c .full) (hs : Keeps steps i)
    (hp : .poll i ∉ steps) : (g.run steps).Listens i c .full := by
  induction steps generalizing g with
  | nil => exact hi
  | cons s steps ih =>
    obtain ⟨hs, hsteps⟩ := keeps_cons.1 hs
    rw [List.mem_cons, not_or] at hp
    have hn : s.name ≠ i := by
      rcases s.about i with he | he | he | hn
      · exact absurd (he ▸ hs) (not_keeps_create i)
      · exact absurd he.symm hp.1
      · exact absurd (he ▸ hs) (not_keeps_drop i)
      · exact hn
    exact ih (h.step s) (h.listens_step hi.hasSlot hs hi hn) hsteps hp.2

theorem poll_of_handed (hi : g.Listens i c .full) : (g.poll i).2 = .admitted := by
  rw [poll, hi.1]
  simp [hi.2]

theorem Sound.not_admitted_of_holding (h : g.Sound) (hj : g.phase? j = some .holding) :
    (g.poll i).2 ≠ .admitted := by
  intro ha
  have hp := g.polled_poll i
  generalize g.poll i = p at hp ha
  cases hp with
  | unknown => cases ha
  | held => cases ha
  | waiting => cases ha
  | joined => cases ha
  | received c hi hc =>
    have hij : i = j := h.single i j (.inr ⟨c, hi, hc⟩) (.inl hj)
    rw [hij, hj] at hi
    cases hi
  | taken _ hb => exact absurd (.inl hj) (h.not_hasSlot_of_idle (i := j) hb)

theorem hasSlot_of_admitted (hi : g.phase? i = some (.waiting c)) (ha : (g.poll i).2 = .admitted) :
    g.HasSlot i := by
  have hp := g.polled_poll i
  generalize g.poll i = p at hp ha
  cases hp with
  | unknown => cases ha
  | held => cases ha
  | waiting => cases ha
  | joined => cases ha
  | received d hd hc => exact .inr ⟨d, hd, hc⟩
  | taken hu => simp [hu] at hi

theorem poll_of_listens (hi : g.Listens i c .empty) : g.poll i = (g, .waiting) := by
  rw [poll, hi.1]
  simp [hi.2]

theorem drop_of_holding (hi : g.phase? i = some .holding) : (g.drop i).2 = .released := by
  rw [drop, hi]

theorem poll_of_not_admitted (hi : g.phase? i = some (.waiting c))
    (hn : (g.poll i).2 ≠ .admitted) : (g.poll i).1 = g := by
  have hp := g.polled_poll i
  generalize g.poll i = p at hp hn
  cases hp with
  | unknown => rfl
  | held => rfl
  | waiting => rfl
  | joined hu => simp [hu] at hi
  | received => exact absurd rfl hn
  | taken => exact absurd rfl hn

/-- While one request has the slot, the others that wait go on waiting. -/
theorem Sound.waiting_run (h : g.Sound) (hk : g.HasSlot k) (hks : Keeps steps k)
    (hj : g.Listens j d .empty) (hjs : Keeps steps j) : (g.run steps).Listens j d .empty := by
  induction steps generalizing g with
  | nil => exact hj
  | cons s steps ih =>
    obtain ⟨hks, hksteps⟩ := keeps_cons.1 hks
    obtain ⟨hjs, hjsteps⟩ := keeps_cons.1 hjs
    refine ih (h.step s) (h.hasSlot_step hk hks) hksteps ?_ hjsteps
    rcases s.about j with he | he | he | hn
    · exact absurd (he ▸ hjs) (not_keeps_create j)
    · subst s
      change (g.poll j).1.Listens j d .empty
      rw [poll_of_listens hj]
      exact hj
    · exact absurd (he ▸ hjs) (not_keeps_drop j)
    · exact h.listens_step hk hks hj hn

end ActivityBoard.Gate
