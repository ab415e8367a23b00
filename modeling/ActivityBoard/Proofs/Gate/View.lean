import ActivityBoard.Gate
import ActivityBoard.Proofs.Named

namespace ActivityBoard.Gate

variable {ι : Type} {g : Gate ι} {c d : Nat}

theorem channel_eq_closed (h : g.channels.length ≤ c) : g.channel c = .closed := by
  simp [channel, List.getElem?_eq_none h]

theorem lt_length_of_channel (h : g.channel c ≠ .closed) : c < g.channels.length :=
  Nat.lt_of_not_le fun hc => h (channel_eq_closed hc)

theorem channel_setChannel (hc : c < g.channels.length) (x : Channel) (d : Nat) :
    (g.setChannel c x).channel d = if d = c then x else g.channel d := by
  simp only [channel, setChannel, List.getD_eq_getElem?_getD, List.getElem?_set]
  by_cases hd : c = d
  · subst d
    simp [hc]
  · simp [hd, Ne.symm hd]

/-- A channel out of range counts as closed, so any number can be closed. -/
@[simp] theorem channel_close (g : Gate ι) (c d : Nat) :
    (g.setChannel c .closed).channel d = if d = c then .closed else g.channel d := by
  by_cases hc : c < g.channels.length
  · exact channel_setChannel hc .closed d
  · have he : g.setChannel c .closed = g := by
      simp [setChannel, List.set_eq_of_length_le (Nat.le_of_not_lt hc)]
    by_cases hd : d = c
    · subst d
      rw [he, if_pos rfl, channel_eq_closed (Nat.le_of_not_lt hc)]
    · rw [he, if_neg hd]

@[simp] theorem channel_enqueue (g : Gate ι) (c : Nat) :
    g.enqueue.channel c = if c = g.channels.length then .empty else g.channel c := by
  simp only [channel, enqueue, List.getD_eq_getElem?_getD]
  by_cases hc : c = g.channels.length
  · simp [hc]
  · rcases Nat.lt_or_gt_of_ne hc with hlt | hgt
    · rw [List.getElem?_append_left hlt, if_neg hc]
    · rw [List.getElem?_append_right (Nat.le_of_lt hgt), if_neg hc,
        List.getElem?_eq_none (by simp; omega), List.getElem?_eq_none (Nat.le_of_lt hgt)]

/-- The slot passes over the closed channels at the front; then it is sent, or nobody has it. -/
theorem handOver_cases (g : Gate ι) (cs : List Nat) :
    (∀ c ∈ cs, g.channel c = .closed) ∧ g.handOver cs = { g with busy := false, queue := [] } ∨
      ∃ front c rest, cs = front ++ c :: rest ∧ (∀ d ∈ front, g.channel d = .closed) ∧
        g.channel c ≠ .closed ∧ g.handOver cs = { g with queue := rest }.setChannel c .full := by
  induction cs with
  | nil => exact .inl ⟨by simp, rfl⟩
  | cons c cs ih =>
    by_cases hc : g.channel c = .closed
    · rw [handOver, if_pos hc]
      rcases ih with ⟨hall, he⟩ | ⟨front, d, rest, hcs, hfront, hd, he⟩
      · exact .inl ⟨List.forall_mem_cons.2 ⟨hc, hall⟩, he⟩
      · refine .inr ⟨c :: front, d, rest, ?_, List.forall_mem_cons.2 ⟨hc, hfront⟩, hd, he⟩
        rw [hcs, List.cons_append]
    · exact .inr ⟨[], c, cs, rfl, by simp, hc, by rw [handOver, if_neg hc]⟩

theorem length_channels_release (g : Gate ι) :
    g.release.channels.length = g.channels.length := by
  rcases g.handOver_cases g.queue with ⟨_, he⟩ | ⟨_, _, _, _, _, _, he⟩
  · rw [release, he]
  · rw [release, he]
    exact List.length_set

variable [DecidableEq ι]

@[simp] theorem phase?_idle (i : ι) : (idle : Gate ι).phase? i = none := rfl

@[simp] theorem phase?_forget (g : Gate ι) (i j : ι) :
    (g.forget i).phase? j = if j = i then none else g.phase? j :=
  Named.lookup_filter_ne g.phases i j

@[simp] theorem phase?_enter (g : Gate ι) (i j : ι) (phase : Phase) :
    (g.enter i phase).phase? j = if j = i then some phase else g.phase? j := by
  change ((i, phase) :: (g.forget i).phases).lookup j = _
  rw [Named.lookup_cons_eq_ite]
  by_cases hj : j = i
  · rw [if_pos hj, if_pos hj]
  · rw [if_neg hj, if_neg hj]
    exact (phase?_forget g i j).trans (if_neg hj)

@[simp] theorem phase?_enqueue (g : Gate ι) (i : ι) : g.enqueue.phase? i = g.phase? i := rfl

@[simp] theorem phase?_withdraw (g : Gate ι) (i : ι) (c : Nat) (j : ι) :
    (g.withdraw i c).phase? j = if j = i then none else g.phase? j :=
  phase?_forget g i j

@[simp] theorem phase?_release (g : Gate ι) (i : ι) : g.release.phase? i = g.phase? i := by
  rcases g.handOver_cases g.queue with ⟨_, he⟩ | ⟨_, _, _, _, _, _, he⟩ <;>
    rw [release, he] <;> rfl

@[simp] theorem channel_forget (g : Gate ι) (i : ι) (c : Nat) :
    (g.forget i).channel c = g.channel c := rfl

@[simp] theorem channel_enter (g : Gate ι) (i : ι) (phase : Phase) (c : Nat) :
    (g.enter i phase).channel c = g.channel c := rfl

@[simp] theorem channel_withdraw (g : Gate ι) (i : ι) (c d : Nat) :
    (g.withdraw i c).channel d = if d = c then .closed else g.channel d :=
  channel_close (g.forget i) c d

inductive Polled (g : Gate ι) (i : ι) : Gate ι × PollResult → Prop where
  | unknown (hi : g.phase? i = none) : Polled g i (g, .unknown)
  | held (hi : g.phase? i = some .holding) : Polled g i (g, .held)
  | waiting (c : Nat) (hi : g.phase? i = some (.waiting c)) (hc : g.channel c ≠ .full) :
      Polled g i (g, .waiting)
  | joined (hi : g.phase? i = some .unpolled) (hb : g.busy = true) :
      Polled g i (g.enqueue.enter i (.waiting g.channels.length), .waiting)
  | received (c : Nat) (hi : g.phase? i = some (.waiting c)) (hc : g.channel c = .full) :
      Polled g i ((g.withdraw i c).enter i .holding, .admitted)
  | taken (hi : g.phase? i = some .unpolled) (hb : g.busy = false) :
      Polled g i ({ g with busy := true }.enter i .holding, .admitted)

theorem polled_poll (g : Gate ι) (i : ι) : Polled g i (g.poll i) := by
  unfold poll
  split
  · exact .unknown ‹_›
  · exact .held ‹_›
  · split
    · exact .received _ ‹_› ‹_›
    · exact .waiting _ ‹_› ‹_›
  · split
    · exact .joined ‹_› ‹_›
    · exact .taken ‹_› (by simpa using ‹¬ g.busy = true›)

inductive Dropped (g : Gate ι) (i : ι) : Gate ι × DropResult → Prop where
  | unknown (hi : g.phase? i = none) : Dropped g i (g, .unknown)
  | unpolled (hi : g.phase? i = some .unpolled) : Dropped g i (g.forget i, .cancelled)
  | waiting (c : Nat) (hi : g.phase? i = some (.waiting c)) (hc : g.channel c ≠ .full) :
      Dropped g i (g.withdraw i c, .cancelled)
  | handed (c : Nat) (hi : g.phase? i = some (.waiting c)) (hc : g.channel c = .full) :
      Dropped g i ((g.withdraw i c).release, .cancelled)
  | holding (hi : g.phase? i = some .holding) : Dropped g i ((g.forget i).release, .released)

theorem dropped_drop (g : Gate ι) (i : ι) : Dropped g i (g.drop i) := by
  unfold drop
  split
  · exact .unknown ‹_›
  · exact .unpolled ‹_›
  · split
    · exact .handed _ ‹_› ‹_›
    · exact .waiting _ ‹_› ‹_›
  · exact .holding ‹_›

theorem phase?_poll_of_ne {i j : ι} (h : j ≠ i) : (g.poll i).1.phase? j = g.phase? j := by
  have hp := g.polled_poll i
  generalize g.poll i = p at hp
  cases hp with
  | unknown => rfl
  | held => rfl
  | waiting => rfl
  | joined => rw [phase?_enter, if_neg h, phase?_enqueue]
  | received => rw [phase?_enter, if_neg h, phase?_withdraw, if_neg h]
  | taken => exact (phase?_enter ..).trans (if_neg h)

theorem phase?_drop (g : Gate ι) (i j : ι) :
    (g.drop i).1.phase? j = if j = i then none else g.phase? j := by
  have hd := g.dropped_drop i
  generalize g.drop i = p at hd
  cases hd with
  | unknown hi =>
    split
    · rename_i hji
      rw [hji, hi]
    · rfl
  | unpolled => exact phase?_forget g i j
  | waiting c => exact phase?_withdraw g i c j
  | handed c => rw [phase?_release, phase?_withdraw]
  | holding => rw [phase?_release, phase?_forget]

theorem phase?_create (g : Gate ι) (i j : ι) :
    (g.create i).phase? j = if j = i then some .unpolled else g.phase? j := by
  rw [create, phase?_enter, phase?_drop]
  split <;> rfl

theorem phase?_tryTake (g : Gate ι) (i j : ι) : (g.tryTake i).1.phase? j =
    if g.busy = false ∧ j = i then some .holding else g.phase? j := by
  cases hb : g.busy with
  | true =>
    rw [tryTake, if_pos hb, if_neg (by simp)]
    rfl
  | false =>
    rw [tryTake, if_neg (by simp [hb])]
    refine (phase?_enter ..).trans ?_
    simp [phase?]

end ActivityBoard.Gate
