import ActivityBoard.Proofs.Dashboard.View

namespace ActivityBoard

namespace Dashboard

variable {ι : Type} [DecidableEq ι] {d d' : Dashboard ι} {i j : ι} {request : Option Int}
  {r : Response}

/-- The stage of a refresh goes with its phase at the gate. Before the first poll it has none. -/
def Fits : Option Stage → Option Phase → Prop
  | some (.queued _), phase => ∃ c, phase = some (.waiting c)
  | some (.fetching _), phase => phase = some .holding
  | _, phase => phase = none

/-- The gate is sound, and knows of the refreshes and of the callers who hold it what they know. -/
structure Consistent (d : Dashboard ι) : Prop where
  sound : d.gate.Sound
  fits : ∀ i, Fits (d.stage? i) (d.gate.phase? (.refresh i))
  holds : ∀ k, d.gate.phase? (.hold k) = none ∨ d.gate.phase? (.hold k) = some .holding

theorem consistent_new (settings : Settings) (script : List Response) :
    Consistent (new settings script : Dashboard ι) :=
  ⟨Gate.Sound.idle, fun _ => rfl, fun _ => .inl rfl⟩

theorem Consistent.of_sameBut (h : d.Consistent) (hs : SameBut d d' i) (hg : d'.gate.Sound)
    (hf : Fits (d'.stage? i) (d'.gate.phase? (.refresh i))) : d'.Consistent := by
  refine ⟨hg, fun j => ?_, fun k => ?_⟩
  · by_cases hj : j = i
    · rw [hj]
      exact hf
    · rw [hs.stage j hj, hs.phase _ (refresh_ne hj)]
      exact h.fits j
  · rw [hs.phase (.hold k) (hold_ne_refresh k i)]
    exact h.holds k

theorem Consistent.phase?_of_created {target : Target} (h : d.Consistent)
    (hi : d.stage? i = some (.created target)) : d.gate.phase? (.refresh i) = none := by
  have hf := h.fits i
  rwa [hi] at hf

theorem Consistent.phase?_of_queued (h : d.Consistent)
    (hi : d.stage? i = some (.queued request)) :
    ∃ c, d.gate.phase? (.refresh i) = some (.waiting c) := by
  have hf := h.fits i
  rwa [hi] at hf

theorem Consistent.phase?_of_fetching (h : d.Consistent)
    (hi : d.stage? i = some (.fetching r)) : d.gate.phase? (.refresh i) = some .holding := by
  have hf := h.fits i
  rwa [hi] at hf

theorem Consistent.stage?_of_waiting {c : Nat} (h : d.Consistent)
    (hi : d.gate.phase? (.refresh i) = some (.waiting c)) :
    ∃ request, d.stage? i = some (.queued request) := by
  have hf := h.fits i
  rw [hi] at hf
  cases hs : d.stage? i with
  | none => simp [hs, Fits] at hf
  | some stage =>
    cases stage with
    | created => simp [hs, Fits] at hf
    | queued request => exact ⟨request, rfl⟩
    | fetching => simp [hs, Fits] at hf

theorem Consistent.stage?_of_holding (h : d.Consistent)
    (hi : d.gate.phase? (.refresh i) = some .holding) :
    ∃ r, d.stage? i = some (.fetching r) := by
  have hf := h.fits i
  rw [hi] at hf
  cases hs : d.stage? i with
  | none => simp [hs, Fits] at hf
  | some stage =>
    cases stage with
    | created => simp [hs, Fits] at hf
    | queued => simp [hs, Fits] at hf
    | fetching r => exact ⟨r, rfl⟩

theorem Consistent.applicant (h : d.Consistent) (hi : d.asking? i = some request) :
    (d.asked i).phase? (.refresh i) = some .unpolled ∨
      ∃ c, (d.asked i).phase? (.refresh i) = some (.waiting c) := by
  rcases stage?_of_asking hi with ⟨target, hs, _⟩ | hs
  · simp [asked, hs, Gate.phase?_create]
  · obtain ⟨c, hc⟩ := h.phase?_of_queued hs
    exact .inr ⟨c, by simp [asked, hs, hc]⟩

theorem Consistent.asked (h : d.Consistent) (i : ι) : (d.asked i).Sound := by
  unfold Dashboard.asked
  split
  · exact h.sound.create _
  · exact h.sound

theorem Consistent.leave (h : d.Consistent) (i : ι) : (d.leave i).Consistent := by
  apply h.of_sameBut (sameBut_leave d i) (h.sound.drop _)
  simp [phase?_leave, Fits]

theorem Consistent.create (h : d.Consistent) (i : ι) (target : Target) :
    (d.create i target).Consistent := by
  refine (h.leave i).of_sameBut (sameBut_enter _ i _) (h.leave i).sound ?_
  rw [Dashboard.create, stage?_enter, if_pos rfl]
  exact (phase?_leave d i _).trans (if_pos rfl)

theorem sound_advance (h : d.gate.Sound) (i : ι) (r : Response) :
    (d.advance i r).1.gate.Sound := by
  have ha := d.advanced_advance i r
  generalize d.advance i r = p at ha
  cases ha with
  | pending => exact h
  | answered => exact h.drop _

theorem fits_advance (h : d.gate.phase? (.refresh i) = some .holding) (r : Response) :
    Fits ((d.advance i r).1.stage? i) ((d.advance i r).1.gate.phase? (.refresh i)) := by
  have ha := d.advanced_advance i r
  generalize d.advance i r = p at ha
  cases ha with
  | pending rest =>
    rw [stage?_enter, if_pos rfl]
    exact h
  | answered =>
    rw [finish, stage?_leave, phase?_leave, if_pos rfl, if_pos rfl]
    rfl

theorem Consistent.poll (h : d.Consistent) (i : ι) : (d.poll i).1.Consistent := by
  have hs := sameBut_poll d i
  have hp := d.polled_poll i
  generalize d.poll i = p at hp hs
  cases hp with
  | unknown => exact h
  | noSample => exact h.leave i
  | queued request hi hg =>
    apply h.of_sameBut hs ((h.asked i).poll _)
    rw [stage?_enter, if_pos rfl]
    exact Gate.waiting_of_not_admitted (h.applicant hi) hg
  | started request hi hg =>
    apply h.of_sameBut hs
    · exact sound_advance ((h.asked i).poll _) i _
    · exact fits_advance (Gate.poll_eq_holding_iff.2 (.inl hg)) _
  | fetching r hi =>
    exact h.of_sameBut hs (sound_advance h.sound i r) (fits_advance (h.phase?_of_fetching hi) r)

theorem Consistent.setGate (h : d.Consistent) {g : Gate (Client ι)} (hg : g.Sound)
    (hi : ∀ i, g.phase? (.refresh i) = d.gate.phase? (.refresh i))
    (hk : ∀ k, g.phase? (.hold k) = none ∨ g.phase? (.hold k) = some .holding) :
    Consistent { d with gate := g } := by
  refine ⟨hg, fun i => ?_, hk⟩
  rw [hi]
  exact h.fits i

theorem Consistent.hold (h : d.Consistent) (k : ι) :
    Consistent { d with gate := (d.gate.tryTake (.hold k)).1 } := by
  refine h.setGate (h.sound.tryTake _) (fun i => ?_) fun j => ?_
  · rw [Gate.phase?_tryTake, if_neg]
    intro he
    exact hold_ne_refresh k i he.2.symm
  · rw [Gate.phase?_tryTake]
    split
    · exact .inr rfl
    · exact h.holds j

theorem Consistent.release (h : d.Consistent) (k : ι) :
    Consistent { d with gate := (d.gate.drop (.hold k)).1 } := by
  refine h.setGate (h.sound.drop _) (fun i => ?_) fun j => ?_
  · rw [Gate.phase?_drop, if_neg (Ne.symm (hold_ne_refresh k i))]
  · rw [Gate.phase?_drop]
    split
    · exact .inl rfl
    · exact h.holds j

theorem Consistent.step (h : d.Consistent) (s : Step ι) : (d.step s).1.Consistent := by
  have hs := d.stepped_step s
  generalize d.step s = p at hs
  cases hs with
  | create i target => exact h.create i target
  | poll i => exact h.poll i
  | cancelled i => exact h.leave i
  | notCancelled => exact h
  | held k => exact h.hold k
  | refused k => exact h.hold k
  | released k => exact h.release k
  | notReleased => exact h
  | configure => exact ⟨h.sound, h.fits, h.holds⟩
  | latest => exact h

theorem Consistent.run (h : d.Consistent) (steps : List (Step ι)) :
    (d.run steps).Consistent := by
  induction steps generalizing d with
  | nil => exact h
  | cons s steps ih => exact ih (h.step s)

end Dashboard

end ActivityBoard
