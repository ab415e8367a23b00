import ActivityBoard.Proofs.Dashboard.Grants
import ActivityBoard.Proofs.Gate.Order

namespace ActivityBoard.Dashboard

variable {ι : Type} [DecidableEq ι] {d : Dashboard ι} {a b i : ι} {s : Step ι}
  {steps : List (Step ι)} {r : Response}

def Queued (d : Dashboard ι) (i : ι) : Prop := ∃ request, d.stage? i = some (.queued request)

/-- The next poll of the refresh is its first, and it has to queue. -/
def Queues (d : Dashboard ι) (i : ι) : Prop :=
  (∃ target, d.stage? i = some (.created target)) ∧ (d.poll i).1.Queued i

/-- The one refresh queued ahead of the other, which was not sent the slot. -/
def Ahead (d : Dashboard ι) (a b : ι) : Prop := d.gate.Ahead (.refresh a) (.refresh b)

theorem Ahead.ne_of_phase (hab : d.Ahead a b)
    (hi : ∀ c, d.gate.phase? (.refresh i) ≠ some (.waiting c)) : i ≠ a ∧ i ≠ b := by
  obtain ⟨c, e, ha, hb, _⟩ := hab
  constructor
  · intro he
    exact hi c (he ▸ ha)
  · intro he
    exact hi e (he ▸ hb.1)

theorem Ahead.leave (hab : d.Ahead a b) (h : d.gate.Sound) (hia : i ≠ a) (hib : i ≠ b) :
    (d.leave i).Ahead a b :=
  Gate.Ahead.drop hab h (refresh_ne hia) (refresh_ne hib)

theorem Ahead.advance (hab : d.Ahead a b) (h : d.gate.Sound) (hia : i ≠ a) (hib : i ≠ b) :
    (d.advance i r).1.Ahead a b := by
  have ha := d.advanced_advance i r
  generalize d.advance i r = p at ha
  cases ha with
  | pending => exact hab
  | answered => exact Gate.Ahead.drop hab h (refresh_ne hia) (refresh_ne hib)

theorem Ahead.asked (hab : d.Ahead a b) (h : d.Consistent) (i : ι) :
    (d.asked i).Ahead (.refresh a) (.refresh b) := by
  unfold Dashboard.asked
  split
  · rename_i target hi
    have hne := hab.ne_of_phase (i := i) (by simp [h.phase?_of_created hi])
    exact Gate.Ahead.create hab h.sound (refresh_ne hne.1) (refresh_ne hne.2)
  · exact hab

theorem Ahead.grant?_eq_none (hab : d.Ahead a b) (h : d.Consistent) :
    d.grant? (.poll b) = none := by
  apply grant?_of_not_admitted
  obtain ⟨c, e, _, hl, _⟩ := hab.asked h b
  rw [Gate.poll_of_listens hl]
  simp

/-- A poll that does not give the gate to `a` does not give it to `b` either. -/
theorem Ahead.poll (hab : d.Ahead a b) (h : d.Consistent)
    (hn : i = a → (d.grant? (.poll i)) = none) : (d.poll i).1.Ahead a b := by
  have hask := hab.asked h i
  have hp := d.polled_poll i
  generalize d.poll i = p at hp
  cases hp with
  | unknown => exact hab
  | noSample target hi =>
    have hne := hab.ne_of_phase (i := i) (by simp [h.phase?_of_created hi])
    exact hab.leave h.sound hne.1 hne.2
  | queued request hi hg =>
    apply hask.poll (h.asked i)
    intro he
    rw [← he]
    exact hg
  | started request hi hg =>
    have hgrant := isSome_grant?_poll.2 ⟨hg, request, hi⟩
    -- The refresh that starts is neither of the two: `a` by assumption, and `b` comes behind it.
    have hia : i ≠ a := by
      intro he
      rw [hn he] at hgrant
      cases hgrant
    have hib : i ≠ b := by
      intro he
      rw [he, hab.grant?_eq_none h] at hgrant
      cases hgrant
    refine Ahead.advance ?_ ((h.asked i).poll _) hia hib
    exact hask.poll (h.asked i) fun he => absurd (Client.refresh.inj he) hia
  | fetching r hi =>
    have hne := hab.ne_of_phase (i := i) (by simp [h.phase?_of_fetching hi])
    exact hab.advance h.sound hne.1 hne.2

theorem Ahead.step (hab : d.Ahead a b) (h : d.Consistent) (ha : ¬ s.Drops a) (hb : ¬ s.Drops b)
    (hn : s = .poll a → d.grant? s = none) : (d.step s).1.Ahead a b := by
  have hs := d.stepped_step s
  generalize d.step s = p at hs
  cases hs with
  | create i target => exact hab.leave h.sound ha hb
  | poll i =>
    apply hab.poll h
    intro he
    exact hn (congrArg _ he)
  | cancelled i => exact hab.leave h.sound ha hb
  | notCancelled => exact hab
  | held k => exact Gate.Ahead.tryTake hab h.sound
  | refused k => exact Gate.Ahead.tryTake hab h.sound
  | released k => exact Gate.Ahead.drop hab h.sound (hold_ne_refresh k a) (hold_ne_refresh k b)
  | notReleased => exact hab
  | configure => exact hab
  | latest => exact hab

/-- In none of the steps the refresh of this name gets the gate. -/
def NeverGranted (d : Dashboard ι) (steps : List (Step ι)) (i : ι) : Prop :=
  i ∉ (d.grants steps).map Prod.fst

theorem neverGranted_cons (h : NeverGranted d (s :: steps) i) :
    (s = .poll i → d.grant? s = none) ∧ NeverGranted (d.step s).1 steps i := by
  rw [NeverGranted, grants, List.map_append, List.mem_append, not_or] at h
  refine ⟨fun hs => ?_, h.2⟩
  subst s
  cases hg : d.grant? (.poll i) with
  | none => rfl
  | some p =>
    rw [hg] at h
    exact absurd (List.mem_singleton.2 (grant?_poll_eq_some.1 hg).2.1.symm) h.1

theorem Ahead.run (hab : d.Ahead a b) (h : d.Consistent) (ha : Keeps steps a)
    (hb : Keeps steps b) (hn : NeverGranted d steps a) : (d.run steps).Ahead a b := by
  induction steps generalizing d with
  | nil => exact hab
  | cons s steps ih =>
    obtain ⟨ha, ha'⟩ := keeps_cons.1 ha
    obtain ⟨hb, hb'⟩ := keeps_cons.1 hb
    obtain ⟨hn, hn'⟩ := neverGranted_cons hn
    exact ih (hab.step h ha hb hn) (h.step s) ha' hb' hn'

theorem Queued.poll (hi : d.Queued i) (hn : d.grant? (.poll i) = none) :
    (d.poll i).1.Queued i := by
  obtain ⟨request, hi⟩ := hi
  have hask : d.asking? i = some request := by rw [asking?, hi]
  have hp := d.polled_poll i
  generalize d.poll i = p at hp
  cases hp with
  | unknown hu => simp [hi] at hu
  | noSample target hc => simp [hi] at hc
  | queued request' => exact ⟨request', by rw [stage?_enter, if_pos rfl]⟩
  | started request' _ hg =>
    have hgrant := isSome_grant?_poll.2 ⟨hg, request, hask⟩
    rw [hn] at hgrant
    cases hgrant
  | fetching r hr => simp [hi] at hr

theorem Queued.run (hi : d.Queued i) (hk : Keeps steps i) (hn : NeverGranted d steps i) :
    (d.run steps).Queued i := by
  induction steps generalizing d with
  | nil => exact hi
  | cons s steps ih =>
    obtain ⟨hd, hk'⟩ := keeps_cons.1 hk
    obtain ⟨hn, hn'⟩ := neverGranted_cons hn
    apply ih ?_ hk' hn'
    by_cases hp : s = .poll i
    · rw [hp] at hn ⊢
      exact hi.poll (hn rfl)
    · obtain ⟨request, hi⟩ := hi
      exact ⟨request, (stage?_step hd hp).trans hi⟩

/-- The refresh queued; since then it was not dropped and did not get the gate. -/
def QueuedSince (d : Dashboard ι) (steps : List (Step ι)) (i : ι) : Prop :=
  ∃ before after, steps = before ++ .poll i :: after ∧ (d.run before).Queues i ∧ Keeps after i ∧
    NeverGranted (d.run (before ++ [.poll i])) after i

theorem QueuedSince.concat (h : QueuedSince d steps i) (hs : ¬ s.Drops i)
    (hn : s = .poll i → (d.run steps).grant? s = none) : QueuedSince d (steps ++ [s]) i := by
  obtain ⟨before, after, rfl, hq, hk, hg⟩ := h
  rw [run_append_cons] at hn
  refine ⟨before, after ++ [s], by simp, hq, keeps_append.2 ⟨hk, keeps_singleton.2 hs⟩, ?_⟩
  rw [NeverGranted, grants_concat, List.map_append, List.mem_append, not_or]
  refine ⟨hg, fun hm => ?_⟩
  obtain ⟨p, hp, rfl⟩ := List.mem_map.1 hm
  rw [Option.mem_toList] at hp
  rw [hn (grant?_eq_some hp)] at hp
  cases hp

theorem grant?_of_queued_poll (h : (d.poll i).1.Queued i) : d.grant? (.poll i) = none := by
  obtain ⟨request, hq⟩ := h
  cases hg : d.grant? (.poll i) with
  | none => rfl
  | some p =>
    rw [stage?_of_grant (by simp [hg]), Option.map_eq_some_iff] at hq
    obtain ⟨_, _, he⟩ := hq
    cases he

/-- The refreshes that wait are those that queued and neither got the gate nor were dropped. -/
theorem queued_run_iff {settings : Settings} {script : List Response} :
    ((new settings script).run steps).Queued i ↔
      QueuedSince (new settings script) steps i := by
  constructor
  · intro hq
    induction steps using List.reverseRecOn with
    | nil =>
      obtain ⟨request, hi⟩ := hq
      cases hi
    | append_singleton steps s ih =>
      rw [run_concat] at hq
      obtain ⟨request, hi⟩ := hq
      have hd : ¬ s.Drops i := not_drops_of_stage hi (by simp)
      by_cases hp : s = .poll i
      · subst s
        have hpoll : (((new settings script).run steps).poll i).1.Queued i := ⟨request, hi⟩
        rcases stage?_of_asking (asking?_of_queued_poll hi) with ⟨target, hs, _⟩ | hs
        · have hnone : NeverGranted ((new settings script).run (steps ++ [.poll i])) [] i := by
            simp [NeverGranted, grants]
          exact ⟨steps, [], rfl, ⟨⟨target, hs⟩, hpoll⟩, keeps_nil i, hnone⟩
        · exact (ih ⟨request, hs⟩).concat hd fun _ => grant?_of_queued_poll hpoll
      · rw [stage?_step hd hp] at hi
        exact (ih ⟨request, hi⟩).concat hd fun he => absurd he hp
  · intro hx
    obtain ⟨before, after, he, hq, hk, hn⟩ := hx
    rw [he, run_append_cons]
    apply Queued.run ?_ hk hn
    rw [run_concat]
    exact hq.2

theorem Queues.ahead (hb : d.Queues b) (h : d.Consistent) (ha : d.Queued a) :
    (d.poll b).1.Ahead a b := by
  obtain ⟨⟨target, hi⟩, request, hq⟩ := hb
  obtain ⟨request', ha⟩ := ha
  obtain ⟨c, hc⟩ := h.phase?_of_queued ha
  have hab : a ≠ b := by
    intro he
    rw [he, hi] at ha
    cases ha
  have hasked : d.asked b = d.gate.create (.refresh b) := by rw [asked, hi]
  have hu : (d.asked b).phase? (.refresh b) = some .unpolled := by
    rw [hasked, Gate.phase?_create, if_pos rfl]
  have hw : (d.asked b).phase? (.refresh a) = some (.waiting c) := by
    rw [hasked, Gate.phase?_create, if_neg (refresh_ne hab), hc]
  have hp := d.polled_poll b
  generalize d.poll b = p at hp hq
  cases hp with
  | unknown hn => simp [hn] at hq
  | noSample => simp at hq
  | queued request hask hg => exact (h.asked b).ahead_poll hw hu hg
  | started => simp [stage?_advance_self] at hq
  | fetching r hr => simp [hr] at hi

/-- As long as the one neither gets the gate nor is dropped, it stays ahead of whatever queues. -/
theorem Queued.ahead_run {before after : List (Step ι)} (ha : d.Queued a) (h : d.Consistent)
    (hb : (d.run before).Queues b) (hka : Keeps (before ++ .poll b :: after) a)
    (hkb : Keeps after b) (hn : NeverGranted d (before ++ .poll b :: after) a) :
    (d.run (before ++ .poll b :: after)).Ahead a b := by
  obtain ⟨hkbefore, hkafter⟩ := keeps_append.1 hka
  rw [NeverGranted, grants_append, List.map_append, List.mem_append, not_or] at hn
  have hahead := hb.ahead (h.run before) (ha.run hkbefore hn.1)
  have hc : ((d.run before).poll b).1.Consistent := (h.run before).poll b
  rw [run_append]
  exact hahead.run hc (keeps_cons.1 hkafter).2 hkb (neverGranted_cons hn.2).2

theorem not_overtaken {p q r : List (Step ι)} (h : d.Consistent) (ha : (d.run p).Queues a)
    (hb : (d.run (p ++ .poll a :: q)).Queues b) (hk : Keeps r b)
    (hg : ((d.run (p ++ .poll a :: (q ++ .poll b :: r))).grant? (.poll b)).isSome) :
    ¬ Keeps (q ++ .poll b :: r) a ∨
      a ∈ ((d.run (p ++ [.poll a])).grants (q ++ .poll b :: r)).map Prod.fst := by
  by_cases hka : Keeps (q ++ .poll b :: r) a
  · by_cases hn : NeverGranted (d.run (p ++ [.poll a])) (q ++ .poll b :: r) a
    · have hqa : (d.run (p ++ [.poll a])).Queued a := by
        rw [run_concat]
        exact ha.2
      rw [run_append_cons] at hb hg
      have hahead := hqa.ahead_run (h.run _) hb hka hk hn
      rw [hahead.grant?_eq_none ((h.run _).run _)] at hg
      cases hg
    · rw [NeverGranted, not_not] at hn
      exact .inr hn
  · exact .inl hka

end ActivityBoard.Dashboard
