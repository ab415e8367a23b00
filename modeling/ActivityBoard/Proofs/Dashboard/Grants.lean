import ActivityBoard.Proofs.Dashboard.History

namespace ActivityBoard.Dashboard

variable {ι : Type} {d : Dashboard ι} {i j : ι} {s : Step ι}
  {steps before after : List (Step ι)} {request : Option Int} {target : Target} {r : Response}
  {n k : Nat} {settings : Settings} {script : List Response}

/-- The refresh of this name was created for a target and not polled yet. -/
def Created (steps : List (Step ι)) (i : ι) (target : Target) : Prop :=
  Since (fun _ => True) (.create i target) (fun s => ¬ s.Drops i ∧ s ≠ .poll i) steps

variable [DecidableEq ι]

/-- The refresh of this name got the gate as number `n`, counted from zero, and was not dropped
since; it was polled `k` times since. -/
def Granted (d : Dashboard ι) (steps : List (Step ι)) (i : ι) (n k : Nat) : Prop :=
  ∃ before after, steps = before ++ .poll i :: after ∧
    ((d.run before).grant? (.poll i)).isSome ∧ Keeps after i ∧
      n = (d.grants before).length ∧ k = after.count (.poll i)

/-- By its first poll the refresh of this name had to ask the source for this. -/
def Asks (d : Dashboard ι) (steps : List (Step ι)) (i : ι) (request : Option Int) : Prop :=
  ∃ target, Since
    (fun before => Created before i target ∧
      target.request? (d.run before).lastTimestamp = some request)
    (.poll i) (fun s => ¬ s.Drops i) steps

/-- What a poll answers that comes `k` polls after the one that started the fetch. -/
def reply (settings : Settings) (r : Response) (k : Nat) : Progress :=
  match r.left k, r.left (k + 1) with
  | none, _ => .unknown
  | some _, some _ => .pending
  | some _, none => .finished (outcome settings r.result)

theorem granted_concat : Granted d (steps ++ [s]) i n k ↔
    s = .poll i ∧ ((d.run steps).grant? (.poll i)).isSome ∧ n = (d.grants steps).length ∧ k = 0 ∨
      ¬ s.Drops i ∧ ∃ m, Granted d steps i n m ∧ k = m + if s = .poll i then 1 else 0 := by
  constructor
  · intro hx
    obtain ⟨before, after, he, hg, hk, hn, hc⟩ := hx
    rcases concat_eq_append_cons.1 he with ⟨rfl, rfl, rfl⟩ | ⟨mid, rfl, rfl⟩
    · exact .inl ⟨rfl, hg, hn, hc⟩
    · obtain ⟨hmid, hs⟩ := keeps_append.1 hk
      refine .inr ⟨keeps_singleton.1 hs, _, ⟨before, mid, rfl, hg, hmid, hn, rfl⟩, ?_⟩
      rw [hc, List.count_append, List.count_singleton]
      simp
  · intro hx
    rcases hx with ⟨rfl, hg, hn, hc⟩ | ⟨hs, m, ⟨before, mid, rfl, hg, hmid, hn, rfl⟩, hc⟩
    · exact ⟨steps, [], rfl, hg, keeps_nil i, hn, hc⟩
    · refine ⟨before, mid ++ [s], by simp, hg, keeps_append.2 ⟨hmid, keeps_singleton.2 hs⟩, hn, ?_⟩
      rw [hc, List.count_append, List.count_singleton]
      simp

theorem not_granted_nil : ¬ Granted d [] i n k := by
  intro hx
  obtain ⟨before, after, he, _⟩ := hx
  simp at he

theorem Asks.concat (h : Asks d steps i request) (hs : ¬ s.Drops i) :
    Asks d (steps ++ [s]) i request := by
  obtain ⟨target, h⟩ := h
  exact ⟨target, since_concat.2 (.inr ⟨h, hs⟩)⟩

theorem poll_of_grant (h : (d.grant? (.poll i)).isSome) :
    ∃ e : Dashboard ι, e.settings = d.settings ∧
      d.poll i = e.advance i (d.script.headD exhausted) := by
  obtain ⟨hg, request, hi⟩ := isSome_grant?_poll.1 h
  have hp := d.polled_poll i
  generalize d.poll i = p at hp
  cases hp with
  | unknown hn => simp [asking?, hn] at hi
  | noSample target hc hr => simp [asking?, hc, hr] at hi
  | queued _ _ hn => exact absurd hg hn
  | started request' =>
    exact ⟨{ d with
      gate := ((d.asked i).poll (.refresh i)).1
      requests := d.requests ++ [request']
      script := d.script.tail }, rfl, rfl⟩
  | fetching r hr => simp [asking?, hr] at hi

theorem stage?_of_grant (h : (d.grant? (.poll i)).isSome) :
    (d.poll i).1.stage? i = ((d.script.headD exhausted).left 1).map .fetching := by
  obtain ⟨e, _, he⟩ := poll_of_grant h
  rw [he, stage?_advance_self, Response.left_succ, Response.left_zero, Option.bind_some]

theorem headD_drop (rs : List Response) (n : Nat) (r : Response) :
    (rs.drop n).headD r = rs.getD n r := by
  rw [List.headD_eq_head?_getD, List.head?_drop, List.getD_eq_getElem?_getD]

/-- The refresh that got the gate as number `n` is as far as its polls took response `n`. -/
theorem stage?_of_granted (h : Granted d steps i n k) :
    (d.run steps).stage? i = ((d.script.getD n exhausted).left (k + 1)).map .fetching := by
  induction steps using List.reverseRecOn generalizing k with
  | nil => exact absurd h not_granted_nil
  | append_singleton steps s ih =>
    rw [run_concat]
    rcases granted_concat.1 h with ⟨rfl, hg, rfl, rfl⟩ | ⟨hs, m, hm, rfl⟩
    · refine (stage?_of_grant hg).trans ?_
      rw [script_run, headD_drop]
    · have hi := ih hm
      -- Of the steps that keep the refresh only its own polls take it further.
      by_cases hp : s = .poll i
      · subst s
        rw [if_pos rfl, Response.left_succ]
        change ((d.run steps).poll i).1.stage? i = _
        cases hl : (d.script.getD n exhausted).left (m + 1) with
        | none =>
          rw [hl, Option.map_none] at hi
          rw [poll_of_unknown hi, hi]
          rfl
        | some rest =>
          rw [hl, Option.map_some] at hi
          rw [poll_of_fetching hi, stage?_advance_self]
          rfl
      · rw [stage?_step hs hp, hi, if_neg hp, Nat.add_zero]

theorem reply_advance (d : Dashboard ι) (i : ι) (r : Response) :
    (d.advance i r).2 = reply d.settings r 0 := by
  rw [reply, Response.left_succ, Response.left_zero, Option.bind_some]
  have ha := d.advanced_advance i r
  generalize d.advance i r = p at ha
  cases ha with
  | pending rest h => rw [h]
  | answered h =>
    rw [h]
    rfl

theorem reply_of_left {rest : Response} (h : r.left k = some rest) :
    reply settings r k = reply settings rest 0 := by
  rw [reply, reply, Response.left_succ, Response.left_succ, h, Response.left_zero,
    Response.result_of_left h]

theorem reply_of_grant (h : (d.grant? (.poll i)).isSome) :
    (d.poll i).2 = reply d.settings (d.script.headD exhausted) 0 := by
  obtain ⟨e, hs, he⟩ := poll_of_grant h
  rw [he, reply_advance, hs]

/-- The polls of the refresh that got the gate as number `n` answer what response `n` says. -/
theorem reply_of_granted (h : Granted d (steps ++ [.poll i]) i n k) :
    ((d.run steps).poll i).2 = reply (d.run steps).settings (d.script.getD n exhausted) k := by
  rcases granted_concat.1 h with ⟨_, hg, rfl, rfl⟩ | ⟨_, m, hm, rfl⟩
  · rw [reply_of_grant hg, script_run, headD_drop]
  · have hi := stage?_of_granted hm
    rw [if_pos rfl]
    cases hl : (d.script.getD n exhausted).left (m + 1) with
    | none =>
      rw [hl, Option.map_none] at hi
      rw [poll_of_unknown hi, reply, hl]
    | some rest =>
      rw [hl, Option.map_some] at hi
      rw [poll_of_fetching hi, reply_advance, reply_of_left hl]

theorem fetching_poll (h : (d.poll i).1.stage? i = some (.fetching r)) :
    (∃ r, d.stage? i = some (.fetching r)) ∨ (d.grant? (.poll i)).isSome := by
  have hp := d.polled_poll i
  generalize d.poll i = p at hp h
  cases hp with
  | unknown hi => simp [hi] at h
  | noSample => simp at h
  | queued => simp at h
  | started request hi hg => exact .inr (isSome_grant?_poll.2 ⟨hg, request, hi⟩)
  | fetching r hi => exact .inl ⟨r, hi⟩

theorem granted_of_fetching
    (h : ((new settings script).run steps).stage? i = some (.fetching r)) :
    ∃ n k, Granted (new settings script) steps i n k := by
  induction steps using List.reverseRecOn generalizing r with
  | nil => cases h
  | append_singleton steps s ih =>
    rw [run_concat] at h
    have hd : ¬ s.Drops i := not_drops_of_stage h (by simp)
    have hgo (hi : ∃ r, ((new settings script).run steps).stage? i = some (.fetching r)) :
        ∃ n k, Granted (new settings script) (steps ++ [s]) i n k := by
      obtain ⟨r, hi⟩ := hi
      obtain ⟨n, k, hn⟩ := ih hi
      exact ⟨n, _, granted_concat.2 (.inr ⟨hd, k, hn, rfl⟩)⟩
    by_cases hp : s = .poll i
    · subst s
      rcases fetching_poll h with hi | hg
      · exact hgo hi
      · exact ⟨_, 0, granted_concat.2 (.inl ⟨rfl, hg, rfl, rfl⟩)⟩
    · rw [stage?_step hd hp] at h
      exact hgo ⟨r, h⟩

theorem granted_of_finished {result : Except RefreshError Board}
    (h : (((new settings script).run steps).poll i).2 = .finished result) :
    (∃ target, ((new settings script).run steps).stage? i = some (.created target) ∧
      target.request? ((new settings script).run steps).lastTimestamp = none ∧
        result = .error .noSample) ∨
      ∃ n k, Granted (new settings script) (steps ++ [.poll i]) i n k := by
  have hp := ((new settings script).run steps).polled_poll i
  generalize hd : ((new settings script).run steps).poll i = p at hp h
  cases hp with
  | unknown => cases h
  | noSample target hi hr =>
    cases h
    exact .inl ⟨target, hi, hr, rfl⟩
  | queued => cases h
  | started request hi hg =>
    have hgrant := isSome_grant?_poll.2 ⟨hg, request, hi⟩
    exact .inr ⟨_, 0, granted_concat.2 (.inl ⟨rfl, hgrant, rfl, rfl⟩)⟩
  | fetching r hi =>
    obtain ⟨n, k, hn⟩ := granted_of_fetching hi
    exact .inr ⟨n, _, granted_concat.2 (.inr ⟨not_drops_poll i i, k, hn, rfl⟩)⟩

theorem stage?_poll_ne_created : (d.poll i).1.stage? i ≠ some (.created target) := by
  intro h
  have hp := d.polled_poll i
  generalize d.poll i = p at hp h
  cases hp with
  | unknown hi => simp [hi] at h
  | noSample => simp at h
  | queued => simp at h
  | started => simp [stage?_advance_self] at h
  | fetching => simp [stage?_advance_self] at h

theorem created_step : (d.step s).1.stage? i = some (.created target) ↔
    s = .create i target ∨ d.stage? i = some (.created target) ∧ ¬ s.Drops i ∧ s ≠ .poll i := by
  by_cases hd : s.Drops i
  · simp only [hd, not_true_eq_false, false_and, and_false, or_false]
    constructor
    · intro h
      rcases stage?_step_of_drops hd with hs | ⟨target', hc, hs⟩
      · rw [hs] at h
        cases h
      · rw [hs] at h
        cases h
        exact hc
    · intro he
      rw [he, step, create, stage?_enter, if_pos rfl]
  · have hc : s ≠ .create i target := by
      intro he
      rw [he] at hd
      exact hd rfl
    by_cases hp : s = .poll i
    · subst s
      simp only [ne_eq, not_true_eq_false, and_false, or_false, reduceCtorEq, iff_false]
      exact stage?_poll_ne_created
    · simp [stage?_step hd hp, hc, hd, hp]

theorem created_run_iff : ((new settings script).run steps).stage? i = some (.created target) ↔
    Created steps i target := by
  apply iff_since
    (S := fun steps => ((new settings script).run steps).stage? i = some (.created target))
    (by intro h; cases h)
  intro steps s
  rw [run_concat, created_step, and_true]

theorem asking?_of_queued_poll (h : (d.poll i).1.stage? i = some (.queued request)) :
    d.asking? i = some request := by
  have hp := d.polled_poll i
  generalize d.poll i = p at hp h
  cases hp with
  | unknown hi => simp [hi] at h
  | noSample => simp at h
  | queued request' hi =>
    rw [stage?_enter, if_pos rfl] at h
    cases h
    exact hi
  | started => simp [stage?_advance_self] at h
  | fetching => simp [stage?_advance_self] at h

theorem asks_poll
    (hq : ((new settings script).run steps).stage? i = some (.queued request) →
      Asks (new settings script) steps i request)
    (h : ((new settings script).run steps).asking? i = some request) :
    Asks (new settings script) (steps ++ [.poll i]) i request := by
  rcases stage?_of_asking h with ⟨target, hs, hr⟩ | hs
  · exact ⟨target, since_concat.2 (.inl ⟨rfl, created_run_iff.1 hs, hr⟩)⟩
  · exact (hq hs).concat (not_drops_poll i i)

theorem asks_of_queued
    (h : ((new settings script).run steps).stage? i = some (.queued request)) :
    Asks (new settings script) steps i request := by
  induction steps using List.reverseRecOn with
  | nil => cases h
  | append_singleton steps s ih =>
    rw [run_concat] at h
    have hd : ¬ s.Drops i := not_drops_of_stage h (by simp)
    by_cases hp : s = .poll i
    · subst s
      exact asks_poll ih (asking?_of_queued_poll h)
    · rw [stage?_step hd hp] at h
      exact (ih h).concat hd

theorem asks_of_grant {p : ι × Option Int}
    (h : ((new settings script).run steps).grant? (.poll i) = some p) :
    p.1 = i ∧ Asks (new settings script) (steps ++ [.poll i]) i p.2 := by
  obtain ⟨_, hp, hi⟩ := grant?_poll_eq_some.1 h
  exact ⟨hp, asks_poll asks_of_queued hi⟩

end ActivityBoard.Dashboard
