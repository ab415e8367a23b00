import ActivityBoard.Proofs.Gate.Conservation
import ActivityBoard.Proofs.Gate.Frame

namespace ActivityBoard.Gate

variable {ι : Type} {g : Gate ι} {a b i : ι} {c : Nat} {s : Step ι}
  {steps before after : List (Step ι)}

/-- The request was created and nothing was done with it since. -/
def Fresh (steps : List (Step ι)) (i : ι) : Prop :=
  Since (fun _ => True) (.create i) (fun s => s.name ≠ i) steps

variable [DecidableEq ι]

/-- Right after `before` the request is polled for the first time, and has to queue. -/
def Queues (before : List (Step ι)) (i : ι) : Prop :=
  Fresh before i ∧ ((idle.run before).step (.poll i)).2 = .polled .waiting

/-- Both requests queued and are there still, and the first poll of `a` came before that of `b`. -/
def QueuedBefore (steps : List (Step ι)) (a b : ι) : Prop :=
  ∃ p q r, steps = p ++ .poll a :: (q ++ .poll b :: r) ∧ Queues p a ∧
    Keeps (q ++ .poll b :: r) a ∧ Queues (p ++ .poll a :: q) b ∧ Keeps r b

/-- `a` queued ahead of `b`, and `b` was not sent the slot. -/
def Ahead (g : Gate ι) (a b : ι) : Prop :=
  ∃ c d, g.phase? a = some (.waiting c) ∧ g.Listens b d .empty ∧ c < d

theorem unpolled_step : (g.step s).1.phase? i = some .unpolled ↔
    s = .create i ∨ g.phase? i = some .unpolled ∧ s.name ≠ i := by
  rcases s.about i with rfl | rfl | rfl | hs
  · simp [phase?_step_create]
  · apply iff_of_false
    · change (g.poll i).1.phase? i ≠ _
      have hp := g.polled_poll i
      generalize g.poll i = p at hp
      cases hp <;> simp [*]
    · simp [Step.name]
  · simp [phase?_step_drop, Step.name]
  · have hc : s ≠ .create i := (keeps_singleton.1 (keeps_of_name_ne hs)).1
    simp [phase?_step_of_ne hs, hc, hs]

theorem phase?_run_eq_unpolled_iff (steps : List (Step ι)) (i : ι) :
    (idle.run steps).phase? i = some .unpolled ↔ Fresh steps i := by
  apply iff_since (S := fun steps => (idle.run steps).phase? i = some .unpolled) (by simp)
  intro steps s
  rw [run_concat, unpolled_step, and_true]

theorem listens_of_unpolled (hu : g.phase? i = some .unpolled) (hn : (g.poll i).2 ≠ .admitted) :
    (g.poll i).1.Listens i g.channels.length .empty := by
  have hp := g.polled_poll i
  generalize g.poll i = p at hp hn
  cases hp with
  | unknown hi => simp [hi] at hu
  | held hi => simp [hi] at hu
  | waiting c hc => simp [hc] at hu
  | joined => simp [Listens]
  | received => exact absurd rfl hn
  | taken => exact absurd rfl hn

theorem Queues.not_admitted (h : Queues before i) : ((idle.run before).poll i).2 ≠ .admitted := by
  have hw : ((idle.run before).poll i).2 = .waiting := Reply.polled.inj h.2
  simp [hw]

theorem Queues.listens (h : Queues before i) :
    (idle.run (before ++ [.poll i])).Listens i (idle.run before).channels.length .empty := by
  rw [run_concat]
  exact listens_of_unpolled ((phase?_run_eq_unpolled_iff before i).2 h.1) h.not_admitted

theorem length_channels_drop (g : Gate ι) (i : ι) :
    (g.drop i).1.channels.length = g.channels.length := by
  have hd := g.dropped_drop i
  generalize g.drop i = p at hd
  cases hd with
  | unknown => rfl
  | unpolled => rfl
  | waiting => exact List.length_set
  | handed => exact (length_channels_release _).trans List.length_set
  | holding => exact length_channels_release _

theorem length_channels_poll (g : Gate ι) (i : ι) :
    g.channels.length ≤ (g.poll i).1.channels.length := by
  have hp := g.polled_poll i
  generalize g.poll i = p at hp
  cases hp with
  | unknown => exact Nat.le_refl _
  | held => exact Nat.le_refl _
  | waiting => exact Nat.le_refl _
  | joined => simp [enter, enqueue]
  | received => exact Nat.le_of_eq List.length_set.symm
  | taken => exact Nat.le_refl _

theorem length_channels_run (g : Gate ι) (steps : List (Step ι)) :
    g.channels.length ≤ (g.run steps).channels.length := by
  induction steps generalizing g with
  | nil => exact Nat.le_refl _
  | cons s steps ih =>
    refine Nat.le_trans ?_ (ih (g.step s).1)
    cases s with
    | create i => exact Nat.le_of_eq (length_channels_drop g i).symm
    | poll i => exact length_channels_poll g i
    | drop i => exact Nat.le_of_eq (length_channels_drop g i).symm

/-- The number of a channel says when its request queued. -/
theorem queues_of_waiting (h : (idle.run steps).phase? i = some (.waiting c)) :
    ∃ p q, steps = p ++ .poll i :: q ∧ Queues p i ∧ Keeps q i ∧
      c = (idle.run p).channels.length := by
  induction steps using List.reverseRecOn with
  | nil => simp at h
  | append_singleton steps s ih =>
    have hgo (hs : Keeps [s] i) (hi : (idle.run steps).phase? i = some (.waiting c)) :
        ∃ p q, steps ++ [s] = p ++ .poll i :: q ∧ Queues p i ∧ Keeps q i ∧
          c = (idle.run p).channels.length := by
      obtain ⟨p, q, he, hp, hq, hc⟩ := ih hi
      exact ⟨p, q ++ [s], by simp [he], hp, keeps_append.2 ⟨hq, hs⟩, hc⟩
    have hrun := h
    rw [run_concat] at h
    rcases s.about i with rfl | rfl | rfl | hs
    · simp [phase?_step_create] at h
    · by_cases hu : (idle.run steps).phase? i = some .unpolled
      · have hq : Queues steps i := by
          refine ⟨(phase?_run_eq_unpolled_iff steps i).1 hu, ?_⟩
          exact congrArg Reply.polled (poll_waiting_iff.1 ⟨c, h⟩)
        rw [hq.listens.1] at hrun
        cases hrun
        exact ⟨steps, [], rfl, hq, keeps_nil i, rfl⟩
      · apply hgo (keeps_poll i i)
        change ((idle.run steps).poll i).1.phase? i = _ at h
        have hp := (idle.run steps).polled_poll i
        generalize (idle.run steps).poll i = p at hp h
        cases hp with
        | unknown => exact h
        | held => exact h
        | waiting => exact h
        | joined hu' => exact absurd hu' hu
        | received => simp at h
        | taken hu' => exact absurd hu' hu
    · simp [phase?_step_drop] at h
    · rw [phase?_step_of_ne hs] at h
      exact hgo (keeps_of_name_ne hs) h

theorem queuedBefore_of_lt {d : Nat} (ha : (idle.run steps).phase? a = some (.waiting c))
    (hb : (idle.run steps).phase? b = some (.waiting d)) (hlt : c < d) :
    QueuedBefore steps a b := by
  obtain ⟨p, q, he, hp, hq, hc⟩ := queues_of_waiting ha
  obtain ⟨p', q', he', hp', hq', hd⟩ := queues_of_waiting hb
  rcases List.append_eq_append_iff.1 (he.symm.trans he') with ⟨mid, hm, hx⟩ | ⟨mid, hm, _⟩
  · cases mid with
    | nil =>
      rw [List.append_nil] at hm
      rw [hm] at hd
      omega
    | cons y mid =>
      obtain ⟨hy, ht⟩ := List.cons.inj hx
      clear hx
      subst hy hm ht
      exact ⟨p, mid, q', he, hp, hq, hp', hq'⟩
  · have hle := length_channels_run (idle.run p') mid
    rw [← run_append, ← hm] at hle
    omega

theorem Ahead.drop (hab : g.Ahead a b) (h : g.Sound) (hia : i ≠ a) (hib : i ≠ b) :
    (g.drop i).1.Ahead a b := by
  obtain ⟨c, d, hc, hd, hlt⟩ := hab
  have hch : (g.drop i).1.channel d = .empty := by
    by_cases hi : g.HasSlot i
    · obtain ⟨e, _, hle, hch⟩ := h.channel_drop_owner hi hd
      have hac : g.channel c = .empty :=
        (h.listens hc fun ha => hia (h.single i a hi ha)).2
      have hed : d ≠ e := Nat.ne_of_gt (Nat.lt_of_le_of_lt (hle c hac) hlt)
      rw [hch d hd.2, if_neg hed]
    · exact (h.channel_drop hd.1 hib hi).trans hd.2
  refine ⟨c, d, ?_, ⟨?_, hch⟩, hlt⟩
  · rw [phase?_drop, if_neg (Ne.symm hia), hc]
  · rw [phase?_drop, if_neg (Ne.symm hib), hd.1]

theorem Ahead.enter (hab : g.Ahead a b) (hia : i ≠ a) (hib : i ≠ b) (phase : Phase) :
    (g.enter i phase).Ahead a b := by
  obtain ⟨c, d, hc, hd, hlt⟩ := hab
  refine ⟨c, d, ?_, ⟨?_, hd.2⟩, hlt⟩
  · rw [phase?_enter, if_neg (Ne.symm hia), hc]
  · rw [phase?_enter, if_neg (Ne.symm hib), hd.1]

theorem Ahead.create (hab : g.Ahead a b) (h : g.Sound) (hia : i ≠ a) (hib : i ≠ b) :
    (g.create i).Ahead a b :=
  (hab.drop h hia hib).enter hia hib .unpolled

theorem Ahead.tryTake (hab : g.Ahead a b) (h : g.Sound) : (g.tryTake i).1.Ahead a b := by
  obtain ⟨c, d, hc, hd, hlt⟩ := hab
  have hch : (g.enqueue.setChannel g.channels.length .closed).channel d = .empty := by
    have hne : d ≠ g.channels.length := by
      intro he
      exact h.fresh b (he ▸ hd.1)
    rw [channel_close, if_neg hne, channel_enqueue, if_neg hne, hd.2]
  rw [Gate.tryTake, if_pos (h.busy_of_waiting hc)]
  exact ⟨c, d, hc, ⟨hd.1, hch⟩, hlt⟩

theorem Ahead.poll (hab : g.Ahead a b) (h : g.Sound)
    (hn : i = a → (g.poll a).2 ≠ .admitted) : (g.poll i).1.Ahead a b := by
  obtain ⟨c, d, hc, hd, hlt⟩ := hab
  have hb : (g.poll i).1.Listens b d .empty := by
    by_cases hib : i = b
    · rw [hib, poll_of_listens hd]
      exact hd
    · exact ⟨(phase?_poll_of_ne (Ne.symm hib)).trans hd.1, (h.channel_poll hd.1 hib).trans hd.2⟩
  refine ⟨c, d, ?_, hb, hlt⟩
  by_cases hia : i = a
  · rw [hia, poll_of_not_admitted hc (hn hia)]
    exact hc
  · exact (phase?_poll_of_ne (Ne.symm hia)).trans hc

theorem Ahead.step (hab : g.Ahead a b) (h : g.Sound) (ha : Keeps [s] a) (hb : Keeps [s] b)
    (hn : s = .poll a → (g.poll a).2 ≠ .admitted) : (g.step s).1.Ahead a b := by
  rw [keeps_singleton] at ha hb
  cases s with
  | create i =>
    exact hab.create h (fun he => ha.1 (congrArg _ he)) (fun he => hb.1 (congrArg _ he))
  | poll i => exact hab.poll h fun he => hn (congrArg _ he)
  | drop i => exact hab.drop h (fun he => ha.2 (congrArg _ he)) (fun he => hb.2 (congrArg _ he))

def AdmittedIn (g : Gate ι) (steps : List (Step ι)) (a : ι) : Prop :=
  ∃ q r, steps = q ++ .poll a :: r ∧ ((g.run q).step (.poll a)).2 = .polled .admitted

theorem admittedIn_cons : g.AdmittedIn (s :: steps) a ↔
    s = .poll a ∧ (g.poll a).2 = .admitted ∨ (g.step s).1.AdmittedIn steps a := by
  constructor
  · intro hx
    obtain ⟨q, r, he, hr⟩ := hx
    cases q with
    | nil =>
      cases he
      exact .inl ⟨rfl, Reply.polled.inj hr⟩
    | cons t q =>
      cases he
      exact .inr ⟨q, r, rfl, hr⟩
  · intro h
    rcases h with ⟨rfl, hr⟩ | ⟨q, r, rfl, hr⟩
    · exact ⟨[], steps, rfl, congrArg Reply.polled hr⟩
    · exact ⟨s :: q, r, rfl, hr⟩

theorem Ahead.run (hab : g.Ahead a b) (h : g.Sound) (ha : Keeps steps a) (hb : Keeps steps b)
    (hn : ¬ g.AdmittedIn steps a) : (g.run steps).Ahead a b := by
  induction steps generalizing g with
  | nil => exact hab
  | cons s steps ih =>
    obtain ⟨ha, ha'⟩ := keeps_cons.1 ha
    obtain ⟨hb, hb'⟩ := keeps_cons.1 hb
    rw [admittedIn_cons, not_or, not_and] at hn
    exact ih (hab.step h ha hb hn.1) (h.step s) ha' hb' hn.2

theorem waiting_run (hi : g.phase? a = some (.waiting c)) (ha : Keeps steps a)
    (hn : ¬ g.AdmittedIn steps a) : (g.run steps).phase? a = some (.waiting c) := by
  induction steps generalizing g with
  | nil => exact hi
  | cons s steps ih =>
    obtain ⟨ha, ha'⟩ := keeps_cons.1 ha
    rw [admittedIn_cons, not_or, not_and] at hn
    apply ih ?_ ha' hn.2
    rcases s.about a with he | he | he | hs
    · exact absurd (he ▸ ha) (not_keeps_create a)
    · subst he
      change (g.poll a).1.phase? a = _
      rw [poll_of_not_admitted hi (hn.1 rfl)]
      exact hi
    · exact absurd (he ▸ ha) (not_keeps_drop a)
    · exact (phase?_step_of_ne hs).trans hi

theorem AdmittedIn.append_left {after : List (Step ι)} (h : g.AdmittedIn steps a) :
    g.AdmittedIn (steps ++ after) a := by
  obtain ⟨q, r, he, hr⟩ := h
  exact ⟨q, r ++ after, by simp [he], hr⟩

theorem AdmittedIn.append_right {before : List (Step ι)}
    (h : (g.run before).AdmittedIn steps a) : g.AdmittedIn (before ++ steps) a := by
  obtain ⟨q, r, he, hr⟩ := h
  exact ⟨before ++ q, r, by simp [he], by rw [run_append, hr]⟩

theorem Sound.ahead_poll (h : g.Sound) (ha : g.phase? a = some (.waiting c))
    (hb : g.phase? b = some .unpolled) (hn : (g.poll b).2 ≠ .admitted) :
    (g.poll b).1.Ahead a b := by
  have hab : a ≠ b := by
    intro he
    rw [he, hb] at ha
    cases ha
  refine ⟨c, _, ?_, listens_of_unpolled hb hn, lt_length_of_channel (h.listening a c ha)⟩
  exact (phase?_poll_of_ne hab).trans ha

/-- As long as the one is neither admitted nor dropped, it stays ahead of whatever queues. -/
theorem Sound.ahead_run (h : g.Sound) (ha : g.phase? a = some (.waiting c))
    (hb : (g.run before).phase? b = some .unpolled) (hw : ((g.run before).poll b).2 ≠ .admitted)
    (hka : Keeps (before ++ .poll b :: after) a) (hkb : Keeps after b)
    (hn : ¬ g.AdmittedIn (before ++ .poll b :: after) a) :
    (g.run (before ++ .poll b :: after)).Ahead a b := by
  obtain ⟨hkbefore, hkafter⟩ := keeps_append.1 hka
  have hwait : (g.run before).phase? a = some (.waiting c) :=
    Gate.waiting_run ha hkbefore fun h => hn h.append_left
  have hahead := (h.run before).ahead_poll hwait hb hw
  rw [run_append]
  apply hahead.run ((h.run before).poll b) (keeps_cons.1 hkafter).2 hkb
  intro hafter
  exact hn (AdmittedIn.append_right (admittedIn_cons.2 (.inr hafter)))

/-- If `b` is admitted, then `a`, which queued before it, was admitted or dropped before. -/
theorem not_overtaken {p q r : List (Step ι)} (ha : Queues p a)
    (hb : Queues (p ++ .poll a :: q) b) (hk : Keeps r b)
    (hadm : ((idle.run (p ++ .poll a :: (q ++ .poll b :: r))).poll b).2 = .admitted) :
    ¬ Keeps (q ++ .poll b :: r) a ∨
      (idle.run (p ++ [.poll a])).AdmittedIn (q ++ .poll b :: r) a := by
  by_cases hka : Keeps (q ++ .poll b :: r) a
  · by_cases hn : (idle.run (p ++ [.poll a])).AdmittedIn (q ++ .poll b :: r) a
    · exact .inr hn
    · have hb' := (phase?_run_eq_unpolled_iff _ _).2 hb.1
      have hw := hb.not_admitted
      rw [run_append_cons] at hb' hw hadm
      obtain ⟨_, _, _, hl, _⟩ :=
        (Sound.idle.run _).ahead_run ha.listens.1 hb' hw hka hk hn
      rw [poll_of_listens hl] at hadm
      cases hadm
  · exact .inl hka

theorem Sound.no_barging (h : g.Sound) (hb : g.phase? b = some .unpolled)
    (ha : g.phase? a = some (.waiting c)) : (g.poll b).2 = .waiting := by
  have hbusy := h.busy_of_waiting ha
  have hp := g.polled_poll b
  generalize g.poll b = p at hp
  cases hp with
  | unknown hn => simp [hn] at hb
  | held hh => simp [hh] at hb
  | waiting => rfl
  | joined => rfl
  | received d hd => simp [hd] at hb
  | taken _ hidle => simp [hidle] at hbusy

/-- When its owner is dropped the slot is sent to the oldest of those who wait, and the others go on
waiting. -/
theorem Sound.handed_to_oldest {o : ι} (h : g.Sound) (ho : g.HasSlot o)
    (hi : g.Listens i c .empty) (hs : ¬ Keeps [s] o) : ∃ w d, g.Listens w d .empty ∧
      (∀ v e, g.Listens v e .empty → v ≠ w → d < e) ∧ (g.step s).1.Listens w d .full ∧
      ∀ v e, g.Listens v e .empty → v ≠ w → (g.step s).1.Listens v e .empty := by
  obtain ⟨d, hd, hle, hch⟩ := h.channel_drop_owner ho hi
  obtain ⟨w, hw⟩ := h.listened d (by simp [hd])
  have hstep (v : ι) (e : Nat) (hv : g.Listens v e .empty) :
      (g.step s).1.Listens v e (if e = d then .full else .empty) := by
    have hvo : o ≠ v := fun he => hv.not_hasSlot (he ▸ ho)
    rw [keeps_singleton, not_and_or, not_not, not_not] at hs
    have hn : s.name ≠ v := by rcases hs with hs | hs <;> rwa [hs]
    -- A new request under the name of the owner first drops the owner.
    have hc : (g.step s).1.channel e = (g.drop o).1.channel e := by
      rcases hs with hs | hs <;> rw [hs] <;> rfl
    exact ⟨(phase?_step_of_ne hn).trans hv.1, hc.trans (hch e hv.2)⟩
  have hne (v : ι) (e : Nat) (hv : g.Listens v e .empty) (hvw : v ≠ w) : e ≠ d :=
    h.channel_ne hv.1 hw hvw
  refine ⟨w, d, ⟨hw, hd⟩, fun v e hv hvw => ?_, ?_, fun v e hv hvw => ?_⟩
  · exact Nat.lt_of_le_of_ne (hle e hv.2) (Ne.symm (hne v e hv hvw))
  · simpa using hstep w d ⟨hw, hd⟩
  · simpa [hne v e hv hvw] using hstep v e hv

/-- First come, first admitted, along every run. A request that queued is admitted only after each
one that queued before it was admitted or dropped. A newcomer has to wait while somebody waits or
was sent the slot. And if the owner of the slot is dropped while others wait, the oldest of them is
admitted at its next poll, and until it is dropped the others are told to wait. -/
theorem first_come_first_admitted (steps : List (Step ι)) :
    let g := idle.run steps
    (∀ p q r a b, steps = p ++ .poll a :: (q ++ .poll b :: r) → Queues p a →
      Queues (p ++ .poll a :: q) b → Keeps r b → (g.step (.poll b)).2 = .polled .admitted →
        ¬ Keeps (q ++ .poll b :: r) a ∨
          (idle.run (p ++ [.poll a])).AdmittedIn (q ++ .poll b :: r) a) ∧
    (∀ a b, a ∈ g.waiters ∨ a ∈ g.handed → Fresh steps b →
      (g.step (.poll b)).2 = .polled .waiting) ∧
    (∀ o s, o ∈ g.permits ∨ o ∈ g.handed → ¬ Keeps [s] o → g.waiters ≠ [] →
      ∃ w ∈ g.waiters, (∀ v ∈ g.waiters, v ≠ w → QueuedBefore steps w v) ∧
        ∀ more, Keeps more w →
          (.poll w ∉ more →
            ((idle.run (steps ++ s :: more)).step (.poll w)).2 = .polled .admitted) ∧
          ∀ v ∈ g.waiters, v ≠ w → Keeps more v →
            ((idle.run (steps ++ s :: more)).step (.poll v)).2 = .polled .waiting) := by
  intro g
  have h : g.Sound := Sound.idle.run steps
  refine ⟨?_, ?_, ?_⟩
  · intro p q r a b he ha hb hk hadm
    apply not_overtaken ha hb hk
    rw [← he]
    exact Reply.polled.inj hadm
  · intro a b ha hb
    have hw : ∃ c, g.phase? a = some (.waiting c) := by
      rcases ha with ha | ha
      · exact (h.mem_waiters.1 ha).1
      · exact (h.mem_handed.1 ha).1
    obtain ⟨c, hc⟩ := hw
    exact congrArg Reply.polled (h.no_barging ((phase?_run_eq_unpolled_iff steps b).2 hb) hc)
  · intro o s ho hs hne
    obtain ⟨i, hi⟩ := List.exists_mem_of_ne_nil _ hne
    obtain ⟨c, hc⟩ := h.mem_listeners.1 hi
    have ho : g.HasSlot o := h.mem_permits_or_handed.1 (List.mem_append.2 ho)
    obtain ⟨w, d, hw, hlt, hfull, hothers⟩ := h.handed_to_oldest ho hc hs
    refine ⟨w, h.mem_listeners.2 ⟨d, hw⟩, ?_, ?_⟩
    · intro v hv hvw
      obtain ⟨e, he⟩ := h.mem_listeners.1 hv
      exact queuedBefore_of_lt hw.1 he.1 (hlt v e he hvw)
    · intro more hmore
      have hrun : idle.run (steps ++ s :: more) = (g.step s).1.run more := run_append ..
      rw [hrun]
      refine ⟨fun hp => ?_, fun v hv hvw hkv => ?_⟩
      · exact congrArg Reply.polled (poll_of_handed ((h.step s).handed_run hfull hmore hp))
      · obtain ⟨e, he⟩ := h.mem_listeners.1 hv
        have hv' := (h.step s).waiting_run hfull.hasSlot hmore (hothers v e he hvw) hkv
        rw [Gate.step, poll_of_listens hv']

-- Both wait for `0`, and `1`, who came first, has the slot before `2`, whoever asks first.
example :
    let g := idle.run [.create 0, .poll 0, .create 1, .poll 1, .create 2, .poll 2, .drop 0]
    (g.step (.poll 2)).2 = .polled .waiting ∧ (g.step (.poll 1)).2 = .polled .admitted ∧
      ((g.run [.poll 2, .poll 1, .drop 1]).step (.poll 2)).2 = .polled .admitted := by
  decide

end ActivityBoard.Gate
