import ActivityBoard.Proofs.Gate.Links

/-!
The slot of a gate is with one request or with nobody. Every operation keeps this, and says who has
the slot afterwards.
-/
namespace ActivityBoard.Gate

variable {ι : Type} [DecidableEq ι] {g g' : Gate ι} {i j : ι} {c d : Nat} {phase : Phase}

/-- The request has the slot, or the slot was sent to it and not yet taken. -/
def HasSlot (g : Gate ι) (i : ι) : Prop :=
  g.phase? i = some .holding ∨ ∃ c, g.phase? i = some (.waiting c) ∧ g.channel c = .full

/-- The gate is busy exactly while one request has the slot, and nobody waits for a free slot. -/
structure Sound (g : Gate ι) : Prop extends Linked g where
  single : ∀ i j, g.HasSlot i → g.HasSlot j → i = j
  busy_iff : g.busy = true ↔ ∃ i, g.HasSlot i
  idle_empty : g.busy = false → g.queue = []

theorem HasSlot.known (h : g.HasSlot i) : g.phase? i ≠ none := by
  rcases h with h | ⟨c, h, _⟩ <;> simp [h]

theorem not_hasSlot_of_unpolled (h : g.phase? i = some .unpolled) : ¬ g.HasSlot i := by
  intro hs
  rcases hs with h' | ⟨c, h', _⟩
  · simp [h] at h'
  · simp [h] at h'

theorem hasSlot_of_waiting (h : g.phase? i = some (.waiting c)) :
    g.HasSlot i ↔ g.channel c = .full := by
  constructor
  · intro hx
    rcases hx with h' | ⟨d, h', hd⟩
    · simp [h] at h'
    · rw [h] at h'
      cases h'
      exact hd
  · exact fun hc => .inr ⟨c, h, hc⟩

theorem hasSlot_congr (hp : g'.phase? j = g.phase? j)
    (hc : ∀ d, g.phase? j = some (.waiting d) → g'.channel d = g.channel d) :
    g'.HasSlot j ↔ g.HasSlot j := by
  constructor
  · intro hx
    rcases hx with h | ⟨d, h, hd⟩
    · exact .inl (hp ▸ h)
    · rw [hp] at h
      exact .inr ⟨d, h, (hc d h).symm.trans hd⟩
  · intro hx
    rcases hx with h | ⟨d, h, hd⟩
    · exact .inl (hp.trans h)
    · exact .inr ⟨d, hp.trans h, (hc d h).trans hd⟩

theorem hasSlot_forget : (g.forget i).HasSlot j ↔ j ≠ i ∧ g.HasSlot j := by
  by_cases hj : j = i <;> simp [HasSlot, hj]

theorem hasSlot_enter_of_ne (h : j ≠ i) : (g.enter i phase).HasSlot j ↔ g.HasSlot j :=
  hasSlot_congr (by simp [h]) fun _ _ => rfl

theorem hasSlot_enter_holding : (g.enter i .holding).HasSlot i := by simp [HasSlot]

theorem Linked.hasSlot_withdraw (h : g.Linked) (hi : g.phase? i = some (.waiting c)) :
    (g.withdraw i c).HasSlot j ↔ j ≠ i ∧ g.HasSlot j := by
  by_cases hj : j = i
  · simp [HasSlot, hj]
  · rw [and_iff_right hj]
    apply hasSlot_congr (by simp [hj])
    intro d hd
    have hdc : d ≠ c := by
      intro he
      subst he
      exact hj (h.apart j i d hd hi)
    rw [channel_withdraw, if_neg hdc]

theorem Linked.hasSlot_enqueue (h : g.Linked) : g.enqueue.HasSlot j ↔ g.HasSlot j := by
  refine hasSlot_congr rfl fun d hd => ?_
  rw [channel_enqueue, if_neg]
  intro he
  subst he
  exact h.fresh j hd

theorem Linked.hasSlot_enqueue_closed (h : g.Linked) :
    (g.enqueue.setChannel g.channels.length .closed).HasSlot j ↔ g.HasSlot j := by
  refine hasSlot_congr rfl fun d hd => ?_
  have hne : d ≠ g.channels.length := by
    intro he
    subst he
    exact h.fresh j hd
  rw [channel_close, if_neg hne, channel_enqueue, if_neg hne]

theorem Sound.of_hasSlot_iff (h : g.Sound) (hl : g'.Linked) (hb : g'.busy = g.busy)
    (hq : g'.busy = false → g'.queue = []) (hs : ∀ j, g'.HasSlot j ↔ g.HasSlot j) : g'.Sound where
  toLinked := hl
  single i j hi hj := h.single i j ((hs i).1 hi) ((hs j).1 hj)
  busy_iff := by simpa only [hb, hs] using h.busy_iff
  idle_empty := hq

theorem Sound.busy_of_hasSlot (h : g.Sound) (hi : g.HasSlot i) : g.busy = true :=
  h.busy_iff.2 ⟨i, hi⟩

theorem Sound.not_hasSlot_of_idle (h : g.Sound) (hb : g.busy = false) : ¬ g.HasSlot i := by
  intro hi
  rw [h.busy_of_hasSlot hi] at hb
  cases hb

theorem Sound.busy_of_waiting (h : g.Sound) (hi : g.phase? i = some (.waiting c)) :
    g.busy = true := by
  cases hb : g.busy with
  | true => rfl
  | false =>
    cases hc : g.channel c with
    | empty =>
      have hm := h.queued c hc
      rw [h.idle_empty hb] at hm
      cases hm
    | full => exact absurd (.inr ⟨c, hi, hc⟩) (h.not_hasSlot_of_idle (i := i) hb)
    | closed => exact absurd hc (h.listening i c hi)

/-- Giving back a slot that nobody has any more. -/
theorem Linked.release_sound (h : g.Linked) (hb : g.busy = true) (hn : ∀ i, ¬ g.HasSlot i) :
    g.release.Sound := by
  rcases h.release_cases with ⟨_, he⟩ | ⟨c, hc, _, hrb, hch⟩
  · have hs (i : ι) : ¬ g.release.HasSlot i := by
      rw [he]
      exact hn i
    refine ⟨h.release, fun i j hi => absurd hi (hs i), ⟨fun hb' => ?_, ?_⟩, fun _ => by rw [he]⟩
    · rw [he] at hb'
      cases hb'
    · intro hx
      obtain ⟨i, hi⟩ := hx
      exact absurd hi (hs i)
  · obtain ⟨i, hi⟩ := h.listened c (by simp [hc])
    have hs (j : ι) (hj : g.release.HasSlot j) : j = i := by
      rcases hj with hj | ⟨d, hj, hd⟩
      · rw [phase?_release] at hj
        exact absurd (.inl hj) (hn j)
      · rw [phase?_release] at hj
        rw [hch] at hd
        split at hd
        · rename_i hdc
          exact h.apart j i c (hdc ▸ hj) hi
        · exact absurd (.inr ⟨d, hj, hd⟩) (hn j)
    have hi' : g.release.HasSlot i :=
      .inr ⟨c, by rw [phase?_release, hi], by rw [hch, if_pos rfl]⟩
    refine ⟨h.release, fun j k hj hk => (hs j hj).trans (hs k hk).symm, ⟨fun _ => ⟨i, hi'⟩, ?_⟩, ?_⟩
    · exact fun _ => hrb.trans hb
    · intro hb'
      rw [hrb, hb] at hb'
      cases hb'

theorem Sound.idle : (idle : Gate ι).Sound where
  names_nodup := List.nodup_nil
  ascending := List.Pairwise.nil
  numbered := by simp [Gate.idle]
  unsent := by simp [Gate.idle]
  queued c hc := by simp [Gate.idle, channel] at hc
  listened c hc := by simp [Gate.idle, channel] at hc
  listening i c hi := by simp at hi
  apart i j c hi := by simp at hi
  single i j hi := by simp [HasSlot] at hi
  busy_iff := by simp [Gate.idle, HasSlot, phase?]
  idle_empty _ := rfl

theorem Sound.drop (h : g.Sound) (i : ι) : (g.drop i).1.Sound := by
  have hd := g.dropped_drop i
  generalize g.drop i = p at hd
  cases hd with
  | unknown => exact h
  | unpolled hi =>
    have hs (j : ι) : (g.forget i).HasSlot j ↔ g.HasSlot j := by
      rw [hasSlot_forget, and_iff_right_iff_imp]
      intro hj he
      subst he
      exact not_hasSlot_of_unpolled hi hj
    exact h.of_hasSlot_iff (h.forget (by simp [hi])) rfl h.idle_empty hs
  | waiting c hi hc =>
    have hs (j : ι) : (g.withdraw i c).HasSlot j ↔ g.HasSlot j := by
      rw [h.hasSlot_withdraw hi, and_iff_right_iff_imp]
      intro hj he
      subst he
      exact hc ((hasSlot_of_waiting hi).1 hj)
    exact h.of_hasSlot_iff (h.withdraw hi) rfl h.idle_empty hs
  | handed c hi hc =>
    have hslot : g.HasSlot i := .inr ⟨c, hi, hc⟩
    apply (h.withdraw hi).release_sound (h.busy_of_hasSlot hslot)
    intro j hj
    obtain ⟨hji, hj⟩ := (h.hasSlot_withdraw hi).1 hj
    exact hji (h.single j i hj hslot)
  | holding hi =>
    apply (h.forget (by simp [hi])).release_sound (h.busy_of_hasSlot (.inl hi))
    intro j hj
    obtain ⟨hji, hj⟩ := hasSlot_forget.1 hj
    exact hji (h.single j i hj (.inl hi))

theorem Sound.create (h : g.Sound) (i : ι) : (g.create i).Sound := by
  have hd := h.drop i
  have hi : (g.drop i).1.phase? i = none := by simp [phase?_drop]
  have hs (j : ι) : ((g.drop i).1.enter i .unpolled).HasSlot j ↔ (g.drop i).1.HasSlot j := by
    by_cases hj : j = i
    · subst j
      exact iff_of_false (not_hasSlot_of_unpolled (by simp)) fun hj => hj.known hi
    · exact hasSlot_enter_of_ne hj
  exact hd.of_hasSlot_iff (hd.enter (by simp [hi]) (by simp)) rfl hd.idle_empty hs

theorem Sound.take (h : g.Sound) (hb : g.busy = false) (i : ι) :
    ({ g with busy := true }.enter i .holding).Sound := by
  have hi (c : Nat) : g.phase? i ≠ some (.waiting c) := by
    intro hi
    rw [h.busy_of_waiting hi] at hb
    cases hb
  have hs (j : ι) (hj : ({ g with busy := true }.enter i .holding).HasSlot j) : j = i := by
    by_cases hji : j = i
    · exact hji
    · exact absurd ((hasSlot_enter_of_ne hji).1 hj) (h.not_hasSlot_of_idle hb)
  exact ⟨(h.setBusy true).enter hi (by simp), fun j k hj hk => (hs j hj).trans (hs k hk).symm,
    iff_of_true rfl ⟨i, hasSlot_enter_holding⟩, fun hb' => by cases hb'⟩

theorem Sound.poll (h : g.Sound) (i : ι) : (g.poll i).1.Sound := by
  have hp := g.polled_poll i
  generalize g.poll i = p at hp
  cases hp with
  | unknown => exact h
  | held => exact h
  | waiting => exact h
  | joined hi hb =>
    have hs (j : ι) : (g.enqueue.enter i (.waiting g.channels.length)).HasSlot j ↔
        g.HasSlot j := by
      by_cases hj : j = i
      · subst j
        refine iff_of_false ?_ (not_hasSlot_of_unpolled hi)
        rw [hasSlot_of_waiting ((phase?_enter ..).trans (if_pos rfl))]
        simp
      · rw [hasSlot_enter_of_ne hj, h.hasSlot_enqueue]
    refine h.of_hasSlot_iff (h.join (by simp [hi])) rfl (fun hb' => ?_) hs
    exact absurd (hb.symm.trans hb') (by simp)
  | received c hi hc =>
    have hs (j : ι) : ((g.withdraw i c).enter i .holding).HasSlot j ↔ g.HasSlot j := by
      by_cases hj : j = i
      · subst j
        exact iff_of_true hasSlot_enter_holding (.inr ⟨c, hi, hc⟩)
      · rw [hasSlot_enter_of_ne hj, h.hasSlot_withdraw hi, and_iff_right hj]
    exact h.of_hasSlot_iff ((h.withdraw hi).enter (by simp) (by simp)) rfl h.idle_empty hs
  | taken hi hb => exact h.take hb i

theorem Sound.tryTake (h : g.Sound) (i : ι) : (g.tryTake i).1.Sound := by
  unfold Gate.tryTake
  split
  · rename_i hb
    refine h.of_hasSlot_iff h.enqueue_closed rfl (fun hb' => ?_) fun _ => h.hasSlot_enqueue_closed
    exact absurd (hb.symm.trans hb') (by simp)
  · rename_i hb
    exact h.take (by simpa using hb) i

theorem Sound.step (h : g.Sound) (s : Step ι) : (g.step s).1.Sound := by
  cases s with
  | create i => exact h.create i
  | poll i => exact h.poll i
  | drop i => exact h.drop i

theorem Sound.run (h : g.Sound) (steps : List (Step ι)) : (g.run steps).Sound := by
  induction steps generalizing g with
  | nil => exact h
  | cons s steps ih => exact ih (h.step s)

end ActivityBoard.Gate
