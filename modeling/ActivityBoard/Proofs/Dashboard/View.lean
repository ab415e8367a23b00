import ActivityBoard.Dashboard
import ActivityBoard.Proofs.Gate.Frame

namespace ActivityBoard

/-- What a refresh asks the source for, if it is polled first when `last` is the latest time. -/
def Target.request? (last : Option Int) : Target → Option (Option Int)
  | .at timestamp => some timestamp
  | .relative delta => last.map fun base => some (base + delta)

/-- What is left of a response after one more poll; nothing once it was delivered. -/
def Response.next? (r : Response) : Option Response :=
  match r.delay with
  | none => some r
  | some 0 => none
  | some (n + 1) => some { r with delay := some n }

namespace Dashboard

variable {ι : Type} {i j : ι}

theorem refresh_ne (h : i ≠ j) : Client.refresh i ≠ .refresh j := by
  intro he
  exact h (Client.refresh.inj he)

theorem hold_ne_refresh (k i : ι) : Client.hold k ≠ .refresh i := by
  intro he
  cases he

variable [DecidableEq ι] {d d' : Dashboard ι} {r : Response}

/-- What a refresh asks for that was not admitted yet. -/
def asking? (d : Dashboard ι) (i : ι) : Option (Option Int) :=
  match d.stage? i with
  | some (.created target) => target.request? d.lastTimestamp
  | some (.queued request) => some request
  | _ => none

/-- The gate as a refresh finds it that asks for the slot: at its first poll it makes a request. -/
def asked (d : Dashboard ι) (i : ι) : Gate (Client ι) :=
  match d.stage? i with
  | some (.created _) => d.gate.create (.refresh i)
  | _ => d.gate

inductive Advanced (d : Dashboard ι) (i : ι) (r : Response) : Dashboard ι × Progress → Prop where
  | pending (rest : Response) (h : r.next? = some rest) :
      Advanced d i r (d.enter i (.fetching rest), .pending)
  | answered (h : r.next? = none) : Advanced d i r (d.finish i r.result)

inductive Polled (d : Dashboard ι) (i : ι) : Dashboard ι × Progress → Prop where
  | unknown (hi : d.stage? i = none) : Polled d i (d, .unknown)
  | noSample (target : Target) (hi : d.stage? i = some (.created target))
      (hr : target.request? d.lastTimestamp = none) :
      Polled d i (d.leave i, .finished (.error .noSample))
  | queued (request : Option Int) (hi : d.asking? i = some request)
      (hg : ((d.asked i).poll (.refresh i)).2 ≠ .admitted) :
      Polled d i
        ({ d with gate := ((d.asked i).poll (.refresh i)).1 }.enter i (.queued request), .pending)
  | started (request : Option Int) (hi : d.asking? i = some request)
      (hg : ((d.asked i).poll (.refresh i)).2 = .admitted) :
      Polled d i
        ({ d with
            gate := ((d.asked i).poll (.refresh i)).1
            requests := d.requests ++ [request]
            script := d.script.tail }.advance i (d.script.headD exhausted))
  | fetching (r : Response) (hi : d.stage? i = some (.fetching r)) :
      Polled d i (d.advance i r)

theorem stage?_of_asking {request : Option Int} (h : d.asking? i = some request) :
    (∃ target, d.stage? i = some (.created target) ∧
      target.request? d.lastTimestamp = some request) ∨ d.stage? i = some (.queued request) := by
  unfold asking? at h
  split at h
  · rename_i target hi
    exact .inl ⟨target, hi, h⟩
  · rename_i request' hi
    cases h
    exact .inr hi
  · cases h

theorem advanced_advance (d : Dashboard ι) (i : ι) (r : Response) :
    Advanced d i r (d.advance i r) := by
  unfold advance
  split
  · exact .pending r (by simp [Response.next?, *])
  · exact .answered (by simp [Response.next?, *])
  · exact .pending _ (by simp [Response.next?, *])

theorem fetch_eq (d : Dashboard ι) (i : ι) (request : Option Int) :
    d.fetch i request =
      { d with requests := d.requests ++ [request], script := d.script.tail }.advance i
        (d.script.headD exhausted) := by
  cases hs : d.script with
  | nil => simp [fetch, hs]
  | cons r rest => simp [fetch, hs]

theorem approach_of_admitted {request : Option Int}
    (h : (d.gate.poll (.refresh i)).2 = .admitted) :
    d.approach i request = { d with gate := (d.gate.poll (.refresh i)).1 }.fetch i request := by
  rw [approach]
  generalize d.gate.poll (.refresh i) = p at h
  obtain ⟨g, result⟩ := p
  cases h
  rfl

theorem approach_of_not_admitted {request : Option Int}
    (h : (d.gate.poll (.refresh i)).2 ≠ .admitted) :
    d.approach i request =
      ({ d with gate := (d.gate.poll (.refresh i)).1 }.enter i (.queued request), .pending) := by
  rw [approach]
  generalize d.gate.poll (.refresh i) = p at h
  obtain ⟨g, result⟩ := p
  cases result with
  | admitted => exact absurd rfl h
  | waiting => rfl
  | held => rfl
  | unknown => rfl

theorem poll_of_asking {request : Option Int} (h : d.asking? i = some request) :
    d.poll i = { d with gate := d.asked i }.approach i request := by
  rcases stage?_of_asking h with ⟨target, hi, hr⟩ | hi
  · cases target with
    | «at» timestamp =>
      cases hr
      rw [poll, asked, hi]
      rfl
    | relative delta =>
      obtain ⟨base, hl, hb⟩ := Option.map_eq_some_iff.1 hr
      rw [poll, asked, hi]
      simp only [hl, ← hb]
      rfl
  · rw [poll, asked, hi]

theorem polled_of_asking {request : Option Int} (hi : d.asking? i = some request) :
    Polled d i (d.poll i) := by
  rw [poll_of_asking hi]
  by_cases hg : ((d.asked i).poll (.refresh i)).2 = .admitted
  · rw [approach_of_admitted hg, fetch_eq]
    exact .started request hi hg
  · rw [approach_of_not_admitted hg]
    exact .queued request hi hg

theorem poll_of_noSample {target : Target} (hi : d.stage? i = some (.created target))
    (hr : target.request? d.lastTimestamp = none) :
    d.poll i = (d.leave i, .finished (.error .noSample)) := by
  cases target with
  | «at» timestamp => cases hr
  | relative delta =>
    have hl : d.lastTimestamp = none := Option.map_eq_none_iff.1 hr
    rw [poll, hi]
    simp only [hl]

theorem polled_poll (d : Dashboard ι) (i : ι) : Polled d i (d.poll i) := by
  cases hi : d.stage? i with
  | none =>
    have he : d.poll i = (d, .unknown) := by rw [poll, hi]
    rw [he]
    exact .unknown hi
  | some stage =>
    cases stage with
    | created target =>
      cases hr : target.request? d.lastTimestamp with
      | none =>
        rw [poll_of_noSample hi hr]
        exact .noSample target hi hr
      | some request => exact polled_of_asking (by rw [asking?, hi]; exact hr)
    | queued request => exact polled_of_asking (by rw [asking?, hi])
    | fetching r =>
      have he : d.poll i = d.advance i r := by rw [poll, hi]
      rw [he]
      exact .fetching r hi

inductive Stepped (d : Dashboard ι) : Step ι → Dashboard ι × Reply → Prop where
  | create (i : ι) (target : Target) : Stepped d (.create i target) (d.create i target, .created)
  | poll (i : ι) : Stepped d (.poll i) ((d.poll i).1, .progress (d.poll i).2)
  | cancelled (i : ι) (stage : Stage) (hi : d.stage? i = some stage) :
      Stepped d (.cancel i) (d.leave i, .cancelled)
  | notCancelled (i : ι) (hi : d.stage? i = none) : Stepped d (.cancel i) (d, .unknown)
  | held (k : ι) (hb : d.gate.busy = false) :
      Stepped d (.hold k) ({ d with gate := (d.gate.tryTake (.hold k)).1 }, .held)
  | refused (k : ι) (hb : d.gate.busy = true) :
      Stepped d (.hold k) ({ d with gate := (d.gate.tryTake (.hold k)).1 }, .refused)
  | released (k : ι) (hr : (d.gate.drop (.hold k)).2 = .released) :
      Stepped d (.release k) ({ d with gate := (d.gate.drop (.hold k)).1 }, .released)
  | notReleased (k : ι) (hr : (d.gate.drop (.hold k)).2 ≠ .released) :
      Stepped d (.release k) (d, .unknown)
  | configure (settings : Settings) :
      Stepped d (.configure settings) ({ d with settings := settings }, .configured settings)
  | latest : Stepped d .latest (d, .latest d.latest)

theorem stepped_step (d : Dashboard ι) (s : Step ι) : Stepped d s (d.step s) := by
  cases s with
  | create i target => exact .create i target
  | poll i => exact .poll i
  | cancel i =>
    cases hi : d.stage? i with
    | none =>
      rw [step, hi]
      exact .notCancelled i hi
    | some stage =>
      rw [step, hi]
      exact .cancelled i stage hi
  | hold k =>
    cases hb : d.gate.busy with
    | true =>
      have ht := Stepped.refused k hb
      rw [step]
      rwa [Gate.tryTake, if_pos hb] at ht ⊢
    | false =>
      have ht := Stepped.held k hb
      rw [step]
      rwa [Gate.tryTake, if_neg (by simp [hb])] at ht ⊢
  | release k =>
    have hr := Stepped.released (d := d) k
    have hn := Stepped.notReleased (d := d) k
    rw [step]
    generalize d.gate.drop (.hold k) = p at hr hn
    obtain ⟨gate, result⟩ := p
    cases result with
    | released => exact hr rfl
    | cancelled => exact hn (by simp)
    | unknown => exact hn (by simp)
  | configure settings => exact .configure settings
  | latest => exact .latest

@[simp] theorem stage?_enter (d : Dashboard ι) (i : ι) (stage : Stage) (j : ι) :
    (d.enter i stage).stage? j = if j = i then some stage else d.stage? j := by
  change ((i, stage) :: d.refreshes.filter fun entry => entry.1 ≠ i).lookup j = _
  rw [Named.lookup_cons_eq_ite, Named.lookup_filter_ne]
  by_cases hj : j = i <;> simp [hj, stage?]

@[simp] theorem stage?_leave (d : Dashboard ι) (i j : ι) :
    (d.leave i).stage? j = if j = i then none else d.stage? j :=
  Named.lookup_filter_ne d.refreshes i j

theorem phase?_leave (d : Dashboard ι) (i : ι) (c : Client ι) :
    (d.leave i).gate.phase? c = if c = .refresh i then none else d.gate.phase? c :=
  Gate.phase?_drop d.gate (.refresh i) c

/-- Between the two nothing happened to any client of the gate but the refresh `i`. -/
structure SameBut (d d' : Dashboard ι) (i : ι) : Prop where
  stage : ∀ j, j ≠ i → d'.stage? j = d.stage? j
  phase : ∀ c, c ≠ .refresh i → d'.gate.phase? c = d.gate.phase? c

theorem SameBut.refl (d : Dashboard ι) (i : ι) : SameBut d d i := ⟨fun _ _ => rfl, fun _ _ => rfl⟩

theorem sameBut_enter (d : Dashboard ι) (i : ι) (stage : Stage) : SameBut d (d.enter i stage) i :=
  ⟨fun j hj => by rw [stage?_enter, if_neg hj], fun _ _ => rfl⟩

theorem sameBut_leave (d : Dashboard ι) (i : ι) : SameBut d (d.leave i) i :=
  ⟨fun j hj => by rw [stage?_leave, if_neg hj], fun c hc => by rw [phase?_leave, if_neg hc]⟩

theorem sameBut_advance (d : Dashboard ι) (i : ι) (r : Response) :
    SameBut d (d.advance i r).1 i := by
  have ha := d.advanced_advance i r
  generalize d.advance i r = p at ha
  cases ha with
  | pending rest => exact sameBut_enter d i _
  | answered =>
    obtain ⟨hs, hp⟩ := sameBut_leave d i
    exact ⟨hs, hp⟩

theorem phase?_asked (d : Dashboard ι) (i : ι) {c : Client ι} (hc : c ≠ .refresh i) :
    (d.asked i).phase? c = d.gate.phase? c := by
  unfold asked
  split
  · rw [Gate.phase?_create, if_neg hc]
  · rfl

theorem phase?_asked_poll (d : Dashboard ι) (i : ι) {c : Client ι} (hc : c ≠ .refresh i) :
    ((d.asked i).poll (.refresh i)).1.phase? c = d.gate.phase? c :=
  (Gate.phase?_poll_of_ne hc).trans (phase?_asked d i hc)

theorem sameBut_poll (d : Dashboard ι) (i : ι) : SameBut d (d.poll i).1 i := by
  have hp := d.polled_poll i
  generalize d.poll i = p at hp
  cases hp with
  | unknown => exact .refl d i
  | noSample => exact sameBut_leave d i
  | queued request =>
    exact ⟨(sameBut_enter d i _).stage, fun c hc => phase?_asked_poll d i hc⟩
  | started request =>
    obtain ⟨hs, hp⟩ := sameBut_advance { d with
      gate := ((d.asked i).poll (.refresh i)).1
      requests := d.requests ++ [request]
      script := d.script.tail } i (d.script.headD exhausted)
    exact ⟨hs, fun c hc => (hp c hc).trans (phase?_asked_poll d i hc)⟩
  | fetching r => exact sameBut_advance d i r

end Dashboard

end ActivityBoard
