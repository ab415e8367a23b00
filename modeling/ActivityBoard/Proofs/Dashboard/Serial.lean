import ActivityBoard.Proofs.Dashboard.Order
import ActivityBoard.Proofs.Gate.Conservation

namespace ActivityBoard.Dashboard

variable {ι : Type} [DecidableEq ι] {d : Dashboard ι} {i j k : ι} {s : Step ι}
  {steps : List (Step ι)} {n : Nat} {p : ι × Option Int} {settings : Settings}
  {script : List Response}

/-- The refresh started its fetch, which did not end yet. -/
def InFlight (d : Dashboard ι) (i : ι) : Prop := ∃ r, d.stage? i = some (.fetching r)

def Held (d : Dashboard ι) (k : ι) : Prop := d.gate.phase? (.hold k) = some .holding

/-- The refresh waits, but was sent the slot: its next poll starts its fetch. -/
def Handed (d : Dashboard ι) (i : ι) : Prop := d.Queued i ∧ (d.grant? (.poll i)).isSome

/-- A caller got the gate under this name and did not give it back since. -/
def HeldSince (d : Dashboard ι) (steps : List (Step ι)) (k : ι) : Prop :=
  Since (fun before => ((d.run before).step (.hold k)).2 = .held) (.hold k)
    (fun s => s ≠ .release k) steps

theorem hold_eq_held_iff : (d.step (.hold k)).2 = .held ↔ d.gate.busy = false := by
  have hs := d.stepped_step (.hold k)
  generalize d.step (.hold k) = p at hs
  cases hs with
  | held _ hb => simp [hb]
  | refused _ hb => simp [hb]

theorem held_step : (d.step s).1.Held k ↔
    s = .hold k ∧ (d.step (.hold k)).2 = .held ∨ d.Held k ∧ s ≠ .release k := by
  have hleave (i : ι) : (d.leave i).gate.phase? (.hold k) = d.gate.phase? (.hold k) :=
    (sameBut_leave d i).phase _ (hold_ne_refresh k i)
  rw [hold_eq_held_iff]
  have hs := d.stepped_step s
  generalize d.step s = p at hs
  cases hs with
  | create i target =>
    have hp : (d.create i target).gate.phase? (.hold k) = d.gate.phase? (.hold k) := hleave i
    simp [Held, hp]
  | poll i =>
    have hp := (sameBut_poll d i).phase _ (hold_ne_refresh k i)
    simp [Held, hp]
  | cancelled i => simp [Held, hleave]
  | notCancelled => simp
  | held j hb =>
    by_cases hj : j = k
    · simp [Held, Gate.phase?_tryTake, hb, hj]
    · simp [Held, Gate.phase?_tryTake, hj, Ne.symm hj]
  | refused j hb => simp [Held, Gate.phase?_tryTake, hb]
  | released j =>
    by_cases hj : j = k
    · simp [Held, Gate.phase?_drop, hj]
    · simp [Held, Gate.phase?_drop, hj, Ne.symm hj]
  | notReleased j hr =>
    by_cases hj : j = k
    · subst j
      have hn : ¬ d.Held k := fun hk => hr (Gate.drop_of_holding hk)
      simp [hn]
    · simp [hj]
  | configure => simp [Held]
  | latest => simp

theorem held_run_iff : ((new settings script).run steps).Held k ↔
    HeldSince (new settings script) steps k := by
  apply iff_since (S := fun steps => ((new settings script).run steps).Held k)
  · simp [Held, new]
  · intro steps s
    rw [run_concat, held_step]

theorem InFlight.phase (hi : d.InFlight i) (h : d.Consistent) :
    d.gate.phase? (.refresh i) = some .holding := by
  obtain ⟨r, hr⟩ := hi
  exact h.phase?_of_fetching hr

theorem inFlight_run_iff : ((new settings script).run steps).InFlight i ↔
    ∃ n m, Granted (new settings script) steps i n m ∧
      ((script.getD n exhausted).left (m + 1)).isSome := by
  constructor
  · intro hx
    obtain ⟨r, hr⟩ := hx
    obtain ⟨n, m, hg⟩ := granted_of_fetching hr
    rw [stage?_of_granted hg, Option.map_eq_some_iff] at hr
    obtain ⟨rest, hl, _⟩ := hr
    exact ⟨n, m, hg, Option.isSome_iff_exists.2 ⟨rest, hl⟩⟩
  · intro hx
    obtain ⟨n, m, hg, hl⟩ := hx
    obtain ⟨rest, hl⟩ := Option.isSome_iff_exists.1 hl
    have hstage := stage?_of_granted hg
    change _ = Option.map _ ((script.getD n exhausted).left (m + 1)) at hstage
    rw [hl] at hstage
    exact ⟨rest, hstage⟩

theorem InFlight.eq (hi : d.InFlight i) (hj : d.InFlight j) (h : d.Consistent) : i = j :=
  Client.refresh.inj (h.sound.single _ _ (.inl (hi.phase h)) (.inl (hj.phase h)))

theorem InFlight.not_held (hi : d.InFlight i) (h : d.Consistent) : ¬ d.Held k := by
  intro hk
  have he := h.sound.single _ _ (.inl (hi.phase h)) (.inl hk)
  cases he

/-- A fetch starts only when no other goes on and nobody holds the gate. -/
theorem Consistent.free_of_grant (h : d.Consistent) (hg : (d.grant? (.poll i)).isSome) :
    (∀ j, ¬ d.InFlight j) ∧ ∀ k, ¬ d.Held k := by
  obtain ⟨hadm, request, hi⟩ := isSome_grant?_poll.1 hg
  have hfree (c : Client ι) (hc : c ≠ .refresh i) : d.gate.phase? c ≠ some .holding := by
    intro hp
    rw [← phase?_asked d i hc] at hp
    exact (h.asked i).not_admitted_of_holding hp hadm
  constructor
  · intro j hj
    by_cases hji : j = i
    · obtain ⟨r, hr⟩ := hj
      rw [hji] at hr
      simp [asking?, hr] at hi
    · exact hfree _ (refresh_ne hji) (hj.phase h)
  · exact fun k hk => hfree (.hold k) (hold_ne_refresh k i) hk

theorem Handed.hasSlot (hi : d.Handed i) (h : d.Consistent) : d.gate.HasSlot (.refresh i) := by
  obtain ⟨⟨request, hr⟩, hg⟩ := hi
  obtain ⟨c, hc⟩ := h.phase?_of_queued hr
  have hasked : d.asked i = d.gate := by rw [asked, hr]
  have hadm := (isSome_grant?_poll.1 hg).1
  rw [hasked] at hadm
  exact Gate.hasSlot_of_admitted hc hadm

theorem Consistent.handed_of_full {c : Nat} (h : d.Consistent)
    (hi : d.gate.Listens (.refresh i) c .full) : d.Handed i := by
  obtain ⟨request, hr⟩ := h.stage?_of_waiting hi.1
  have hasked : d.asked i = d.gate := by rw [Dashboard.asked, hr]
  refine ⟨⟨request, hr⟩, isSome_grant?_poll.2 ⟨?_, request, ?_⟩⟩
  · rw [hasked]
    exact Gate.poll_of_handed hi
  · rw [asking?, hr]

theorem Consistent.busy_iff (h : d.Consistent) : d.gate.busy = true ↔
    (∃ i, d.InFlight i) ∨ (∃ k, d.Held k) ∨ ∃ i, d.Handed i := by
  rw [h.sound.busy_iff]
  constructor
  · intro hx
    obtain ⟨c, hc⟩ := hx
    cases c with
    | refresh i =>
      rcases hc with hh | ⟨c, hl⟩
      · exact .inl ⟨i, h.stage?_of_holding hh⟩
      · exact .inr (.inr ⟨i, h.handed_of_full hl⟩)
    | hold k =>
      rcases hc with hh | ⟨c, hw, _⟩
      · exact .inr (.inl ⟨k, hh⟩)
      · rcases h.holds k with hn | hh
        · simp [hn] at hw
        · simp [hh] at hw
  · intro ho
    rcases ho with ⟨i, hi⟩ | ⟨k, hk⟩ | ⟨i, hi⟩
    · exact ⟨_, .inl (hi.phase h)⟩
    · exact ⟨_, .inl hk⟩
    · exact ⟨_, hi.hasSlot h⟩

/-- No slot is lost: while nobody uses it, a refresh that waits was sent it, or none waits. -/
theorem Consistent.no_leak (h : d.Consistent) (hf : ∀ i, ¬ d.InFlight i) (hk : ∀ k, ¬ d.Held k) :
    (∃ i, d.Handed i) ∨ d.gate.busy = false ∧ d.gate.pending = 0 ∧ ∀ i, ¬ d.Queued i := by
  cases hb : d.gate.busy with
  | true =>
    rcases h.busy_iff.1 hb with ⟨i, hi⟩ | ⟨k, hk'⟩ | hi
    · exact absurd hi (hf i)
    · exact absurd hk' (hk k)
    · exact .inl hi
  | false =>
    refine .inr ⟨rfl, ?_, ?_⟩
    · rw [h.sound.pending_eq, h.sound.waiters_of_idle hb, List.length_nil]
    · intro i hi
      obtain ⟨request, hr⟩ := hi
      obtain ⟨c, hc⟩ := h.phase?_of_queued hr
      rw [h.sound.busy_of_waiting hc] at hb
      cases hb

theorem grants_getElem? (h : (d.grants steps)[n]? = some p) :
    ∃ before after, steps = before ++ .poll p.1 :: after ∧
      (d.run before).grant? (.poll p.1) = some p ∧ (d.grants before).length = n := by
  induction steps using List.reverseRecOn with
  | nil => cases h
  | append_singleton steps s ih =>
    rw [grants_concat] at h
    by_cases hn : n < (d.grants steps).length
    · rw [List.getElem?_append_left hn] at h
      obtain ⟨before, after, he, hg, hlen⟩ := ih h
      exact ⟨before, after ++ [s], by simp [he], hg, hlen⟩
    · have hle : (d.grants steps).length ≤ n := Nat.le_of_not_lt hn
      rw [List.getElem?_append_right hle] at h
      cases hg : (d.run steps).grant? s with
      | none => simp [hg] at h
      | some p' =>
        rw [hg, Option.toList_some, List.getElem?_singleton] at h
        split at h
        · cases h
          have hs := grant?_eq_some hg
          refine ⟨steps, [], by rw [hs], by rw [← hs, hg], ?_⟩
          omega
        · cases h

/-- Refreshes are serialized along every run from a new dashboard.

The words first: a refresh is in flight if it got the gate, was not dropped, and its response is not
delivered yet; a caller holds the gate if it was told so and did not release it; a refresh waits if
it queued, was not dropped, and did not get the gate.

1. At most one refresh is in flight and none while the gate is held; a fetch starts only then.
2. The requests are those of the refreshes that got the gate, in this order, each for the sample
   that its refresh asks for, and as many responses were taken. The refresh that got the gate as
   number `n` answers its polls by response number `n` until it is dropped, and a refresh ends
   otherwise only for want of a sample to start from.
3. Of two refreshes that queued, the later gets the gate only after the other got it or was dropped.
4. The gate is busy exactly while a refresh is in flight, the gate is held, or a refresh that waits
   was sent the slot. So the slot is never lost: if nobody uses it, it was sent on or nobody waits.
-/
theorem refreshes_serialized (settings : Settings) (script : List Response)
    (steps : List (Step ι)) :
    let d₀ : Dashboard ι := new settings script
    let d := d₀.run steps
    ((∀ i, d.InFlight i ↔ ∃ n m, Granted d₀ steps i n m ∧
        ((script.getD n exhausted).left (m + 1)).isSome) ∧
      (∀ k, d.Held k ↔ HeldSince d₀ steps k) ∧ ∀ i, d.Queued i ↔ QueuedSince d₀ steps i) ∧
    ((∀ i j, d.InFlight i → d.InFlight j → i = j) ∧ (∀ i k, d.InFlight i → ¬ d.Held k) ∧
      ∀ i, (d.grant? (.poll i)).isSome → (∀ j, ¬ d.InFlight j) ∧ ∀ k, ¬ d.Held k) ∧
    (d.requests = (d₀.grants steps).map Prod.snd ∧
      d.script = script.drop (d₀.grants steps).length ∧
      (∀ n p, (d₀.grants steps)[n]? = some p → ∃ before after,
        steps = before ++ .poll p.1 :: after ∧ (d₀.run before).grant? (.poll p.1) = some p ∧
          (d₀.grants before).length = n ∧ Asks d₀ (before ++ [.poll p.1]) p.1 p.2) ∧
      (∀ i n m, Granted d₀ (steps ++ [.poll i]) i n m →
        (d.step (.poll i)).2 = .progress (reply d.settings (script.getD n exhausted) m)) ∧
      ∀ i result, (d.step (.poll i)).2 = .progress (.finished result) →
        (∃ target, Created steps i target ∧ target.request? d.lastTimestamp = none ∧
          result = .error .noSample) ∨
        ∃ n m, Granted d₀ (steps ++ [.poll i]) i n m) ∧
    (∀ p q r a b, steps = p ++ .poll a :: (q ++ .poll b :: r) → (d₀.run p).Queues a →
      (d₀.run (p ++ .poll a :: q)).Queues b → Keeps r b → (d.grant? (.poll b)).isSome →
        ¬ Keeps (q ++ .poll b :: r) a ∨
          a ∈ ((d₀.run (p ++ [.poll a])).grants (q ++ .poll b :: r)).map Prod.fst) ∧
    (d.gate.busy = true ↔ (∃ i, d.InFlight i) ∨ (∃ k, d.Held k) ∨ ∃ i, d.Handed i) ∧
    ((∀ i, ¬ d.InFlight i) → (∀ k, ¬ d.Held k) →
      (∃ i, d.Handed i) ∨ d.gate.busy = false ∧ d.gate.pending = 0 ∧ ∀ i, ¬ d.Queued i) := by
  intro d₀ d
  have h₀ : d₀.Consistent := consistent_new settings script
  have h : d.Consistent := h₀.run steps
  refine ⟨⟨?_, ?_, ?_⟩, ⟨?_, ?_, ?_⟩, ⟨?_, ?_, ?_, ?_, ?_⟩, ?_, h.busy_iff, h.no_leak⟩
  · exact fun i => inFlight_run_iff
  · exact fun k => held_run_iff
  · exact fun i => queued_run_iff
  · exact fun i j hi hj => hi.eq hj h
  · exact fun i k hi => hi.not_held h
  · exact fun i hg => h.free_of_grant hg
  · exact requests_run d₀ steps
  · exact script_run d₀ steps
  · intro n p hp
    obtain ⟨before, after, he, hg, hn⟩ := grants_getElem? hp
    exact ⟨before, after, he, hg, hn, (asks_of_grant hg).2⟩
  · intro i n m hg
    exact congrArg Reply.progress (reply_of_granted hg)
  · intro i result hr
    rcases granted_of_finished (Reply.progress.inj hr) with ⟨target, hc, hn, he⟩ | hg
    · exact .inl ⟨target, created_run_iff.1 hc, hn, he⟩
    · exact .inr hg
  · intro p q r a b he ha hb hk hg
    apply not_overtaken h₀ ha hb hk
    rw [← he]
    exact hg

end ActivityBoard.Dashboard
