import ActivityBoard.Proofs.Dashboard.Consistency

namespace ActivityBoard

/-- What is left of a response after some polls; nothing once it was delivered. -/
def Response.left (r : Response) (k : Nat) : Option Response :=
  match r.delay with
  | none => some r
  | some n => if k ≤ n then some { r with delay := some (n - k) } else none

theorem Response.left_zero (r : Response) : r.left 0 = some r := by
  obtain ⟨result, delay⟩ := r
  cases delay <;> simp [left]

theorem Response.left_succ (r : Response) (k : Nat) : r.left (k + 1) = (r.left k).bind next? := by
  obtain ⟨result, delay⟩ := r
  cases delay with
  | none => rfl
  | some n =>
    simp only [left]
    by_cases hk : k + 1 ≤ n
    · have hd : n - k = n - (k + 1) + 1 := by omega
      rw [if_pos hk, if_pos (Nat.le_of_succ_le hk), hd]
      rfl
    · rw [if_neg hk]
      split
      · have hd : n - k = 0 := by omega
        rw [hd]
        rfl
      · rfl

theorem Response.result_of_left {r rest : Response} {k : Nat} (h : r.left k = some rest) :
    rest.result = r.result := by
  unfold left at h
  split at h
  · cases h
    rfl
  · split at h
    · cases h
      rfl
    · cases h

namespace Dashboard

variable {ι : Type} {d : Dashboard ι} {i j : ι} {s : Step ι} {steps before after : List (Step ι)}
  {request : Option Int} {target : Target} {r : Response} {n k : Nat}

/-- The step ends the refresh of this name: it cancels it, or makes a new one. -/
def Step.Drops : Step ι → ι → Prop
  | .create j _, i | .cancel j, i => j = i
  | _, _ => False

/-- None of the steps drops the refresh of this name. -/
def Keeps (steps : List (Step ι)) (i : ι) : Prop := ∀ s ∈ steps, ¬ s.Drops i

theorem keeps_nil (i : ι) : Keeps ([] : List (Step ι)) i := by simp [Keeps]

theorem keeps_append : Keeps (before ++ after) i ↔ Keeps before i ∧ Keeps after i :=
  List.forall_mem_append

theorem keeps_cons : Keeps (s :: after) i ↔ ¬ s.Drops i ∧ Keeps after i := List.forall_mem_cons

theorem keeps_singleton : Keeps [s] i ↔ ¬ s.Drops i := List.forall_mem_singleton

theorem not_drops_poll (i j : ι) : ¬ (Step.poll j).Drops i := id

variable [DecidableEq ι]

@[simp] theorem run_nil (d : Dashboard ι) : d.run [] = d := rfl

@[simp] theorem run_cons (d : Dashboard ι) (s : Step ι) (steps : List (Step ι)) :
    d.run (s :: steps) = (d.step s).1.run steps := rfl

theorem run_append (d : Dashboard ι) (before after : List (Step ι)) :
    d.run (before ++ after) = (d.run before).run after :=
  List.foldl_append

theorem run_concat (d : Dashboard ι) (steps : List (Step ι)) (s : Step ι) :
    d.run (steps ++ [s]) = ((d.run steps).step s).1 := by
  rw [run_append, run_cons, run_nil]

theorem run_append_cons (d : Dashboard ι) (before : List (Step ι)) (s : Step ι)
    (after : List (Step ι)) : d.run (before ++ s :: after) = (d.run (before ++ [s])).run after := by
  rw [run_append, run_cons, run_concat]

/-- The refresh that gets the gate in this step, with what it asks the source for. -/
def grant? (d : Dashboard ι) : Step ι → Option (ι × Option Int)
  | .poll i =>
    if ((d.asked i).poll (.refresh i)).2 = .admitted then
      (d.asking? i).map fun request => (i, request)
    else none
  | _ => none

/-- The refreshes that get the gate in a run, in order. -/
def grants (d : Dashboard ι) : List (Step ι) → List (ι × Option Int)
  | [] => []
  | s :: steps => (d.grant? s).toList ++ (d.step s).1.grants steps

theorem grants_append (d : Dashboard ι) (before after : List (Step ι)) :
    d.grants (before ++ after) = d.grants before ++ (d.run before).grants after := by
  induction before generalizing d with
  | nil => rfl
  | cons s before ih => rw [List.cons_append, grants, grants, ih, List.append_assoc, run_cons]

theorem grants_concat (d : Dashboard ι) (steps : List (Step ι)) (s : Step ι) :
    d.grants (steps ++ [s]) = d.grants steps ++ ((d.run steps).grant? s).toList := by
  rw [grants_append, grants, grants, List.append_nil]

theorem grant?_poll_eq_some {p : ι × Option Int} : d.grant? (.poll i) = some p ↔
    ((d.asked i).poll (.refresh i)).2 = .admitted ∧ p.1 = i ∧ d.asking? i = some p.2 := by
  obtain ⟨j, request⟩ := p
  rw [grant?]
  split
  · rename_i hg
    rw [Option.map_eq_some_iff]
    simp only [hg, true_and, Prod.mk.injEq]
    constructor
    · intro hx
      obtain ⟨_, hi, rfl, rfl⟩ := hx
      exact ⟨rfl, hi⟩
    · intro hx
      obtain ⟨rfl, hi⟩ := hx
      exact ⟨request, hi, rfl, rfl⟩
  · rename_i hg
    simp [hg]

theorem isSome_grant?_poll : (d.grant? (.poll i)).isSome ↔
    ((d.asked i).poll (.refresh i)).2 = .admitted ∧ ∃ request, d.asking? i = some request := by
  rw [Option.isSome_iff_exists]
  constructor
  · intro hx
    obtain ⟨p, hp⟩ := hx
    obtain ⟨hg, _, hi⟩ := grant?_poll_eq_some.1 hp
    exact ⟨hg, p.2, hi⟩
  · intro hx
    obtain ⟨hg, request, hi⟩ := hx
    exact ⟨(i, request), grant?_poll_eq_some.2 ⟨hg, rfl, hi⟩⟩

theorem grant?_eq_some {p : ι × Option Int} (h : d.grant? s = some p) : s = .poll p.1 := by
  cases s with
  | poll i => rw [(grant?_poll_eq_some.1 h).2.1]
  | create => cases h
  | cancel => cases h
  | hold => cases h
  | release => cases h
  | configure => cases h
  | latest => cases h

theorem grant?_of_not_asking (h : d.asking? i = none) : d.grant? (.poll i) = none := by
  simp [grant?, h]

theorem grant?_of_not_admitted (h : ((d.asked i).poll (.refresh i)).2 ≠ .admitted) :
    d.grant? (.poll i) = none := by
  simp [grant?, h]

theorem source_advance (d : Dashboard ι) (i : ι) (r : Response) :
    (d.advance i r).1.requests = d.requests ∧ (d.advance i r).1.script = d.script := by
  have ha := d.advanced_advance i r
  generalize d.advance i r = p at ha
  cases ha with
  | pending => exact ⟨rfl, rfl⟩
  | answered => exact ⟨rfl, rfl⟩

/-- A refresh that gets the gate makes one request and takes one response; nothing else does. -/
theorem source_poll (d : Dashboard ι) (i : ι) :
    (d.poll i).1.requests = d.requests ++ (d.grant? (.poll i)).toList.map Prod.snd ∧
      (d.poll i).1.script = d.script.drop (d.grant? (.poll i)).toList.length := by
  have hp := d.polled_poll i
  generalize d.poll i = p at hp
  cases hp with
  | unknown hi =>
    rw [grant?_of_not_asking (by simp [asking?, hi])]
    simp
  | noSample target hi hr =>
    rw [grant?_of_not_asking (by simp [asking?, hi, hr])]
    simp [leave]
  | queued request hi hg =>
    rw [grant?_of_not_admitted hg]
    simp [enter]
  | started request hi hg =>
    have hgrant : d.grant? (.poll i) = some (i, request) :=
      grant?_poll_eq_some.2 ⟨hg, rfl, hi⟩
    rw [hgrant]
    obtain ⟨hreq, hscr⟩ := source_advance { d with
      gate := ((d.asked i).poll (.refresh i)).1
      requests := d.requests ++ [request]
      script := d.script.tail } i (d.script.headD exhausted)
    exact ⟨hreq, hscr.trans List.drop_one.symm⟩
  | fetching r hi =>
    rw [grant?_of_not_asking (by simp [asking?, hi])]
    simpa using d.source_advance i r

theorem source_step (d : Dashboard ι) (s : Step ι) :
    (d.step s).1.requests = d.requests ++ (d.grant? s).toList.map Prod.snd ∧
      (d.step s).1.script = d.script.drop (d.grant? s).toList.length := by
  have hs := d.stepped_step s
  generalize d.step s = p at hs
  cases hs with
  | create => simp [grant?, create, enter, leave]
  | poll i => exact d.source_poll i
  | cancelled => simp [grant?, leave]
  | notCancelled => simp [grant?]
  | held => simp [grant?]
  | refused => simp [grant?]
  | released => simp [grant?]
  | notReleased => simp [grant?]
  | configure => simp [grant?]
  | latest => simp [grant?]

/-- The requests of a run are those of the refreshes that got the gate, in the same order. -/
theorem requests_run (d : Dashboard ι) (steps : List (Step ι)) :
    (d.run steps).requests = d.requests ++ (d.grants steps).map Prod.snd := by
  induction steps generalizing d with
  | nil => simp [grants]
  | cons s steps ih =>
    rw [run_cons, ih, (d.source_step s).1, grants, List.map_append, List.append_assoc]

theorem script_run (d : Dashboard ι) (steps : List (Step ι)) :
    (d.run steps).script = d.script.drop (d.grants steps).length := by
  induction steps generalizing d with
  | nil => rfl
  | cons s steps ih =>
    rw [run_cons, ih, (d.source_step s).2, grants, List.length_append, List.drop_drop]

theorem stage?_advance_self (d : Dashboard ι) (i : ι) (r : Response) :
    (d.advance i r).1.stage? i = r.next?.map .fetching := by
  have ha := d.advanced_advance i r
  generalize d.advance i r = p at ha
  cases ha with
  | pending rest h => rw [stage?_enter, if_pos rfl, h, Option.map_some]
  | answered h => rw [finish, stage?_leave, if_pos rfl, h, Option.map_none]

theorem poll_of_fetching (h : d.stage? i = some (.fetching r)) : d.poll i = d.advance i r := by
  rw [poll, h]

theorem poll_of_unknown (h : d.stage? i = none) : d.poll i = (d, .unknown) := by
  rw [poll, h]

theorem stage?_step (hd : ¬ s.Drops i) (hp : s ≠ .poll i) :
    (d.step s).1.stage? i = d.stage? i := by
  have hs := d.stepped_step s
  generalize d.step s = p at hs
  cases hs with
  | create j target =>
    rw [create, stage?_enter, if_neg (Ne.symm hd), stage?_leave, if_neg (Ne.symm hd)]
  | poll j =>
    have hji : i ≠ j := fun he => hp (he ▸ rfl)
    exact (sameBut_poll d j).stage i hji
  | cancelled j => rw [stage?_leave, if_neg (Ne.symm hd)]
  | notCancelled => rfl
  | held => rfl
  | refused => rfl
  | released => rfl
  | notReleased => rfl
  | configure => rfl
  | latest => rfl

theorem stage?_step_of_drops (hd : s.Drops i) : (d.step s).1.stage? i = none ∨
    ∃ target, s = .create i target ∧ (d.step s).1.stage? i = some (.created target) := by
  cases s with
  | create j target =>
    cases hd
    exact .inr ⟨target, rfl, by rw [step, create, stage?_enter, if_pos rfl]⟩
  | cancel j =>
    cases hd
    cases hs : d.stage? i with
    | none => exact .inl (by rw [step, hs, hs])
    | some stage => exact .inl (by rw [step, hs, stage?_leave, if_pos rfl])
  | poll j => cases hd
  | hold j => cases hd
  | release j => cases hd
  | configure settings => cases hd
  | latest => cases hd

theorem not_drops_of_stage {stage : Stage} (h : (d.step s).1.stage? i = some stage)
    (hs : ∀ target, stage ≠ .created target) : ¬ s.Drops i := by
  intro hd
  rcases stage?_step_of_drops hd with he | ⟨target, _, he⟩
  · rw [he] at h
    cases h
  · rw [he] at h
    cases h
    exact hs target rfl

end Dashboard

end ActivityBoard
