import ActivityBoard.Proofs.Dashboard.Grants

/-!
What a refresh asks the source for is nothing to the dashboard: two of them that differ in it alone
answer every step alike, and go on differing in it alone.
-/
namespace ActivityBoard.Dashboard

variable {ι : Type} [DecidableEq ι] {d d' : Dashboard ι} {i j : ι} {p : ι → Prop} {s : Step ι}
  {request other : Option Int} {steps : List (Step ι)}

/-- The two agree but for the stages of the refreshes `p` and what was asked of the source. -/
structure Alike (p : ι → Prop) (d d' : Dashboard ι) : Prop where
  settings : d'.settings = d.settings
  gate : d'.gate = d.gate
  latest : d'.latest = d.latest
  script : d'.script = d.script
  stage : ∀ j, ¬ p j → d'.stage? j = d.stage? j

def AnswerAlike {α : Type} (p : ι → Prop) (a a' : Dashboard ι × α) : Prop :=
  Alike p a.1 a'.1 ∧ a'.2 = a.2

/-- The step goes past the refresh: it neither polls nor drops it. -/
def Step.Passes (s : Step ι) (i : ι) : Prop := ¬ s.Drops i ∧ s ≠ .poll i

theorem Alike.refl (p : ι → Prop) (d : Dashboard ι) : Alike p d d :=
  ⟨rfl, rfl, rfl, rfl, fun _ _ => rfl⟩

theorem Alike.setGate (h : Alike p d d') (g : Gate (Client ι)) :
    Alike p { d with gate := g } { d' with gate := g } :=
  ⟨h.settings, rfl, h.latest, h.script, h.stage⟩

theorem Alike.lastTimestamp (h : Alike p d d') : d'.lastTimestamp = d.lastTimestamp :=
  congrArg (Option.map Board.timestamp) h.latest

theorem Alike.close (h : Alike (· = i) d d') (hi : d'.stage? i = d.stage? i) :
    Alike (fun _ => False) d d' := by
  refine ⟨h.settings, h.gate, h.latest, h.script, fun j _ => ?_⟩
  by_cases hj : j = i
  · rw [hj, hi]
  · exact h.stage j hj

theorem Alike.enter {stage stage' : Stage} (h : Alike p d d') (hs : p i ∨ stage' = stage) :
    Alike p (d.enter i stage) (d'.enter i stage') := by
  refine ⟨h.settings, h.gate, h.latest, h.script, fun j hj => ?_⟩
  rw [stage?_enter, stage?_enter, h.stage j hj]
  split
  · rename_i he
    rw [hs.resolve_left (he ▸ hj)]
  · rfl

theorem Alike.leave (h : Alike p d d') (i : ι) : Alike p (d.leave i) (d'.leave i) := by
  refine ⟨h.settings, ?_, h.latest, h.script, fun j hj => ?_⟩
  · exact congrArg (fun g : Gate (Client ι) => (g.drop (.refresh i)).1) h.gate
  · rw [stage?_leave, stage?_leave, h.stage j hj]

theorem Alike.finish (h : Alike p d d') (i : ι) (result : Fetched) :
    AnswerAlike p (d.finish i result) (d'.finish i result) := by
  rw [Dashboard.finish, Dashboard.finish, h.settings, h.latest]
  generalize outcome d.settings result = outcome
  refine ⟨Alike.leave ?_ i, rfl⟩
  exact ⟨rfl, h.gate, rfl, h.script, h.stage⟩

theorem Alike.advance (h : Alike p d d') (i : ι) (r : Response) :
    AnswerAlike p (d.advance i r) (d'.advance i r) := by
  unfold Dashboard.advance
  split
  · exact ⟨h.enter (.inr rfl), rfl⟩
  · exact h.finish i r.result
  · exact ⟨h.enter (.inr rfl), rfl⟩

theorem Alike.fetch (h : Alike p d d') (i : ι) (request other : Option Int) :
    AnswerAlike p (d.fetch i request) (d'.fetch i other) := by
  rw [fetch_eq, fetch_eq, h.script]
  refine Alike.advance ?_ i _
  exact ⟨h.settings, h.gate, h.latest, rfl, h.stage⟩

/-- At the gate it does not matter what is asked for. It is kept by a refresh that has to wait. -/
theorem Alike.approach (h : Alike p d d') (hr : p i ∨ other = request) :
    AnswerAlike p (d.approach i request) (d'.approach i other) := by
  by_cases hg : (d.gate.poll (.refresh i)).2 = .admitted
  · have hg' := hg
    rw [← h.gate] at hg'
    rw [approach_of_admitted hg, approach_of_admitted hg', h.gate]
    exact (h.setGate _).fetch i request other
  · have hg' := hg
    rw [← h.gate] at hg'
    rw [approach_of_not_admitted hg, approach_of_not_admitted hg', h.gate]
    refine ⟨(h.setGate _).enter ?_, rfl⟩
    exact hr.imp_right (congrArg Stage.queued)

theorem Alike.asking?_eq (h : Alike p d d') (hi : d'.stage? i = d.stage? i) :
    d'.asking? i = d.asking? i := by
  rw [asking?, asking?, hi, h.lastTimestamp]

theorem Alike.asked_eq (h : Alike p d d') (hi : d'.stage? i = d.stage? i) :
    d'.asked i = d.asked i := by
  rw [asked, asked, hi, h.gate]

theorem Alike.poll (h : Alike p d d') (hi : d'.stage? i = d.stage? i) :
    AnswerAlike p (d.poll i) (d'.poll i) := by
  cases hs : d.stage? i with
  | none =>
    rw [hs] at hi
    rw [poll_of_unknown hs, poll_of_unknown hi]
    exact ⟨h, rfl⟩
  | some stage =>
    cases ha : d.asking? i with
    | some request =>
      rw [poll_of_asking ha, poll_of_asking ((h.asking?_eq hi).trans ha), h.asked_eq hi]
      exact (h.setGate _).approach (.inr rfl)
    | none =>
      rw [hs] at hi
      rw [asking?, hs] at ha
      cases stage with
      | created target =>
        rw [poll_of_noSample hs ha, poll_of_noSample hi (h.lastTimestamp.symm ▸ ha)]
        exact ⟨h.leave i, rfl⟩
      | queued request => cases ha
      | fetching r =>
        rw [poll_of_fetching hs, poll_of_fetching hi]
        exact h.advance i r

theorem Alike.step (h : Alike p d d') (hs : ∀ j, p j → s.Passes j) :
    AnswerAlike p (d.step s) (d'.step s) := by
  cases s with
  | create i target => exact ⟨(h.leave i).enter (.inr rfl), rfl⟩
  | poll i =>
    have hp := h.poll (h.stage i fun hi => (hs i hi).2 rfl)
    exact ⟨hp.1, congrArg Reply.progress hp.2⟩
  | cancel i =>
    rw [Dashboard.step, Dashboard.step, h.stage i fun hi => (hs i hi).1 rfl]
    cases d.stage? i with
    | none => exact ⟨h, rfl⟩
    | some stage => exact ⟨h.leave i, rfl⟩
  | hold k =>
    rw [Dashboard.step, Dashboard.step, h.gate]
    cases d.gate.tryTake (.hold k) with
    | mk g taken => cases taken <;> exact ⟨h.setGate g, rfl⟩
  | release k =>
    rw [Dashboard.step, Dashboard.step, h.gate]
    cases d.gate.drop (.hold k) with
    | mk g result =>
      cases result with
      | released => exact ⟨h.setGate g, rfl⟩
      | cancelled => exact ⟨h, rfl⟩
      | unknown => exact ⟨h, rfl⟩
  | configure settings => exact ⟨⟨rfl, h.gate, h.latest, h.script, h.stage⟩, rfl⟩
  | latest => exact ⟨h, congrArg Reply.latest h.latest⟩

theorem Alike.grant?_eq (h : Alike p d d') (hs : ∀ j, p j → s.Passes j) :
    d'.grant? s = d.grant? s := by
  cases s with
  | poll i =>
    have hi := h.stage i fun hp => (hs i hp).2 rfl
    rw [grant?, grant?, h.asked_eq hi, h.asking?_eq hi]
  | _ => rfl

/-- When the refresh is dropped nothing is left of what set the two apart. -/
theorem Alike.step_of_drops (h : Alike (· = i) d d') (hd : s.Drops i)
    (hi : (d.stage? i).isSome) (hi' : (d'.stage? i).isSome) :
    AnswerAlike (fun _ => False) (d.step s) (d'.step s) := by
  cases s with
  | create j target =>
    cases hd
    refine ⟨((h.leave i).enter (.inr rfl)).close ?_, rfl⟩
    rw [stage?_enter, stage?_enter, if_pos rfl, if_pos rfl]
  | cancel j =>
    cases hd
    obtain ⟨stage, hs⟩ := Option.isSome_iff_exists.1 hi
    obtain ⟨stage', hs'⟩ := Option.isSome_iff_exists.1 hi'
    rw [Dashboard.step, Dashboard.step, hs, hs']
    refine ⟨(h.leave i).close ?_, rfl⟩
    rw [stage?_leave, stage?_leave, if_pos rfl, if_pos rfl]
  | poll j => cases hd
  | hold j => cases hd
  | release j => cases hd
  | configure settings => cases hd
  | latest => cases hd

end ActivityBoard.Dashboard
