import ActivityBoard.Proofs.Gate.View

namespace ActivityBoard.Gate

variable {ι : Type} [DecidableEq ι] {g : Gate ι} {i j : ι} {c d : Nat} {phase : Phase}

/-- The queue, the channels and the phases fit together. Who has the slot is left open. -/
structure Linked (g : Gate ι) : Prop where
  names_nodup : (g.phases.map Prod.fst).Nodup
  ascending : g.queue.Pairwise (· < ·)
  numbered : ∀ c ∈ g.queue, c < g.channels.length
  unsent : ∀ c ∈ g.queue, g.channel c ≠ .full
  queued : ∀ c, g.channel c = .empty → c ∈ g.queue
  listened : ∀ c, g.channel c ≠ .closed → ∃ i, g.phase? i = some (.waiting c)
  listening : ∀ i c, g.phase? i = some (.waiting c) → g.channel c ≠ .closed
  apart : ∀ i j c, g.phase? i = some (.waiting c) → g.phase? j = some (.waiting c) → i = j

/-- Phases matter to the links only as far as they say who waits on which channel. -/
theorem Linked.congr (h : g.Linked) {g' : Gate ι} (hn : (g'.phases.map Prod.fst).Nodup)
    (hq : g'.queue = g.queue) (hc : g'.channels = g.channels)
    (hw : ∀ j d, g'.phase? j = some (.waiting d) ↔ g.phase? j = some (.waiting d)) :
    g'.Linked := by
  have hch (d : Nat) : g'.channel d = g.channel d := by rw [channel, channel, hc]
  refine ⟨hn, hq ▸ h.ascending, ?_, ?_, ?_, ?_, ?_, ?_⟩
  · rw [hq, hc]
    exact h.numbered
  · simpa only [hq, hch] using h.unsent
  · simpa only [hq, hch] using h.queued
  · simpa only [hch, hw] using h.listened
  · simpa only [hch, hw] using h.listening
  · simpa only [hw] using h.apart

theorem Linked.setBusy (h : g.Linked) (b : Bool) : Linked { g with busy := b } :=
  h.congr h.names_nodup rfl rfl fun _ _ => Iff.rfl

theorem Linked.forget (h : g.Linked) (hi : ∀ c, g.phase? i ≠ some (.waiting c)) :
    (g.forget i).Linked := by
  refine h.congr (Named.nodup_filter_names h.names_nodup _) rfl rfl fun j d => ?_
  rw [phase?_forget]
  split
  · rename_i hji
    rw [hji]
    exact iff_of_false (by simp) (hi d)
  · exact Iff.rfl

theorem Linked.enter (h : g.Linked) (hi : ∀ c, g.phase? i ≠ some (.waiting c))
    (hp : ∀ c, phase ≠ .waiting c) : (g.enter i phase).Linked := by
  refine h.congr (Named.nodup_cons_filter_ne h.names_nodup i phase) rfl rfl fun j d => ?_
  rw [phase?_enter]
  split
  · rename_i hji
    exact ⟨fun hj => absurd (Option.some.inj hj) (hp d), fun hj => absurd (hji ▸ hj) (hi d)⟩
  · exact Iff.rfl

theorem Linked.withdraw (h : g.Linked) (hi : g.phase? i = some (.waiting c)) :
    (g.withdraw i c).Linked where
  names_nodup := Named.nodup_filter_names h.names_nodup _
  ascending := h.ascending
  numbered d hd := by
    have hlen : (g.withdraw i c).channels.length = g.channels.length := List.length_set
    rw [hlen]
    exact h.numbered d hd
  unsent d hd := by
    rw [channel_withdraw]
    split
    · simp
    · exact h.unsent d hd
  queued d hd := by
    rw [channel_withdraw] at hd
    split at hd
    · cases hd
    · exact h.queued d hd
  listened d hd := by
    rw [channel_withdraw] at hd
    split at hd
    · exact absurd rfl hd
    · rename_i hdc
      obtain ⟨j, hj⟩ := h.listened d hd
      have hji : j ≠ i := by
        intro he
        subst he
        rw [hi] at hj
        cases hj
        exact hdc rfl
      exact ⟨j, by rw [phase?_withdraw, if_neg hji, hj]⟩
  listening j d hj := by
    rw [phase?_withdraw] at hj
    split at hj
    · cases hj
    · rename_i hji
      have hdc : d ≠ c := by
        intro he
        subst he
        exact hji (h.apart j i d hj hi)
      rw [channel_withdraw, if_neg hdc]
      exact h.listening j d hj
  apart j k d hj hk := by
    rw [phase?_withdraw] at hj hk
    split at hj <;> split at hk
    · cases hj
    · cases hj
    · cases hk
    · exact h.apart j k d hj hk

theorem Linked.fresh (h : g.Linked) (j : ι) :
    g.phase? j ≠ some (.waiting g.channels.length) := fun hj =>
  h.listening j _ hj (channel_eq_closed (Nat.le_refl _))

theorem Linked.ascending_enqueue (h : g.Linked) : g.enqueue.queue.Pairwise (· < ·) := by
  refine List.pairwise_append.2 ⟨h.ascending, List.pairwise_singleton _ _, ?_⟩
  intro d hd e he
  rw [List.mem_singleton.1 he]
  exact h.numbered d hd

theorem Linked.numbered_enqueue (h : g.Linked) :
    ∀ d ∈ g.enqueue.queue, d < g.channels.length + 1 := by
  intro d hd
  rcases List.mem_append.1 hd with hd | hd
  · exact Nat.lt_succ_of_lt (h.numbered d hd)
  · rw [List.mem_singleton.1 hd]
    exact Nat.lt_succ_self _

theorem Linked.unsent_enqueue (h : g.Linked) :
    ∀ d ∈ g.enqueue.queue, g.enqueue.channel d ≠ .full := by
  intro d hd
  rw [channel_enqueue]
  split
  · simp
  · rename_i hne
    rcases List.mem_append.1 hd with hd | hd
    · exact h.unsent d hd
    · exact absurd (List.mem_singleton.1 hd) hne

theorem Linked.join (h : g.Linked) (hi : ∀ c, g.phase? i ≠ some (.waiting c)) :
    (g.enqueue.enter i (.waiting g.channels.length)).Linked where
  names_nodup := Named.nodup_cons_filter_ne h.names_nodup i _
  ascending := h.ascending_enqueue
  numbered d hd := by
    have hlen : g.enqueue.channels.length = g.channels.length + 1 := List.length_append
    change d < g.enqueue.channels.length
    rw [hlen]
    exact h.numbered_enqueue d hd
  unsent := h.unsent_enqueue
  queued d hd := by
    rw [channel_enter, channel_enqueue] at hd
    split at hd
    · rename_i he
      exact List.mem_append.2 (.inr (List.mem_singleton.2 he))
    · exact List.mem_append.2 (.inl (h.queued d hd))
  listened d hd := by
    rw [channel_enter, channel_enqueue] at hd
    split at hd
    · rename_i he
      exact ⟨i, by rw [phase?_enter, if_pos rfl, he]⟩
    · obtain ⟨j, hj⟩ := h.listened d hd
      have hji : j ≠ i := fun he => hi d (he ▸ hj)
      exact ⟨j, by rw [phase?_enter, if_neg hji, phase?_enqueue, hj]⟩
  listening j d hj := by
    rw [channel_enter, channel_enqueue]
    rw [phase?_enter] at hj
    split at hj
    · cases hj
      simp
    · have hd : d ≠ g.channels.length := by
        intro he
        subst he
        exact h.fresh j hj
      rw [if_neg hd]
      exact h.listening j d hj
  apart j k d hj hk := by
    rw [phase?_enter] at hj hk
    split at hj <;> split at hk
    · rename_i hji hki
      exact hji.trans hki.symm
    · cases hj
      exact absurd hk (h.fresh k)
    · cases hk
      exact absurd hj (h.fresh j)
    · exact h.apart j k d hj hk

/-- A channel that queues although nobody listens to it. -/
theorem Linked.enqueue_closed (h : g.Linked) :
    (g.enqueue.setChannel g.channels.length .closed).Linked where
  names_nodup := h.names_nodup
  ascending := h.ascending_enqueue
  numbered d hd := by
    have hlen : (g.enqueue.setChannel g.channels.length .closed).channels.length =
        g.channels.length + 1 := by
      simp [setChannel, enqueue]
    rw [hlen]
    exact h.numbered_enqueue d hd
  unsent d hd := by
    rw [channel_close]
    split
    · simp
    · exact h.unsent_enqueue d hd
  queued d hd := by
    rw [channel_close, channel_enqueue] at hd
    split at hd
    · cases hd
    · exact List.mem_append.2 (.inl (h.queued d hd))
  listened d hd := by
    rw [channel_close, channel_enqueue] at hd
    split at hd
    · exact absurd rfl hd
    · exact h.listened d hd
  listening j d hj := by
    have hd : d ≠ g.channels.length := by
      intro he
      subst he
      exact h.fresh j hj
    rw [channel_close, if_neg hd, channel_enqueue, if_neg hd]
    exact h.listening j d hj
  apart := h.apart

theorem Linked.vacate (h : g.Linked) (hc : ∀ c ∈ g.queue, g.channel c = .closed) :
    Linked { g with busy := false, queue := [] } where
  names_nodup := h.names_nodup
  ascending := List.Pairwise.nil
  numbered := by simp
  unsent := by simp
  queued d hd := by
    have he : g.channel d = .empty := hd
    have hd' := hc d (h.queued d he)
    rw [he] at hd'
    cases hd'
  listened := h.listened
  listening := h.listening
  apart := h.apart

theorem Linked.send (h : g.Linked) {front rest : List Nat} (hq : g.queue = front ++ c :: rest)
    (hfront : ∀ d ∈ front, g.channel d = .closed) (hc : g.channel c ≠ .closed) :
    ({ g with queue := rest }.setChannel c .full).Linked := by
  have hlt : c < g.channels.length := lt_length_of_channel hc
  have hch (d : Nat) : ({ g with queue := rest }.setChannel c .full).channel d =
      if d = c then .full else g.channel d :=
    channel_setChannel (g := { g with queue := rest }) hlt .full d
  have hasc := h.ascending
  rw [hq, List.pairwise_append, List.pairwise_cons] at hasc
  have hmem (d : Nat) (hd : d ∈ rest) : d ∈ g.queue := by
    rw [hq]
    exact List.mem_append.2 (.inr (List.mem_cons_of_mem c hd))
  refine ⟨h.names_nodup, hasc.2.1.2, ?_, ?_, ?_, ?_, ?_, h.apart⟩
  · intro d hd
    simpa [setChannel] using h.numbered d (hmem d hd)
  · intro d hd
    have hcd : c < d := hasc.2.1.1 d hd
    rw [hch, if_neg (Nat.ne_of_gt hcd)]
    exact h.unsent d (hmem d hd)
  · intro d hd
    rw [hch] at hd
    split at hd
    · cases hd
    · rename_i hdc
      have hd' := h.queued d hd
      rw [hq] at hd'
      rcases List.mem_append.1 hd' with hd' | hd'
      · rw [hfront d hd'] at hd
        cases hd
      · exact (List.mem_cons.1 hd').resolve_left hdc
  · intro d hd
    rw [hch] at hd
    split at hd
    · rename_i hdc
      exact hdc ▸ h.listened c hc
    · exact h.listened d hd
  · intro j d hj
    rw [hch]
    split
    · simp
    · exact h.listening j d hj

/-- Giving the slot back leaves all channels as they are if nobody waits; else it is sent over the
lowest channel that is empty. -/
theorem Linked.release_cases (h : g.Linked) :
    (∀ d, g.channel d ≠ .empty) ∧ g.release = { g with busy := false, queue := [] } ∨
      ∃ c, g.channel c = .empty ∧ (∀ d, g.channel d = .empty → c ≤ d) ∧
        g.release.busy = g.busy ∧
        ∀ d, g.release.channel d = if d = c then .full else g.channel d := by
  rcases g.handOver_cases g.queue with ⟨hall, he⟩ | ⟨front, c, rest, hq, hfront, hc, he⟩
  · refine .inl ⟨fun d hd => ?_, he⟩
    have hd' := hall d (h.queued d hd)
    rw [hd] at hd'
    cases hd'
  · have hmem : c ∈ g.queue := by simp [hq]
    have hempty : g.channel c = .empty := by
      cases hx : g.channel c with
      | empty => rfl
      | full => exact absurd hx (h.unsent c hmem)
      | closed => exact absurd hx hc
    refine .inr ⟨c, hempty, fun d hd => ?_, by rw [release, he]; rfl, fun d => ?_⟩
    · have hasc := h.ascending
      have hd' := h.queued d hd
      rw [hq, List.pairwise_append, List.pairwise_cons] at hasc
      rw [hq, List.mem_append, List.mem_cons] at hd'
      rcases hd' with hd' | hd' | hd'
      · rw [hfront d hd'] at hd
        cases hd
      · exact Nat.le_of_eq hd'.symm
      · exact Nat.le_of_lt (hasc.2.1.1 d hd')
    · rw [release, he]
      exact channel_setChannel (g := { g with queue := rest }) (lt_length_of_channel hc) .full d

theorem Linked.release (h : g.Linked) : g.release.Linked := by
  rcases g.handOver_cases g.queue with ⟨hall, he⟩ | ⟨front, c, rest, hq, hfront, hc, he⟩
  · rw [Gate.release, he]
    exact h.vacate hall
  · rw [Gate.release, he]
    exact h.send hq hfront hc

end ActivityBoard.Gate
