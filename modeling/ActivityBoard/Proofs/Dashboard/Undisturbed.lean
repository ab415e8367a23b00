import ActivityBoard.Proofs.Dashboard.View

/-!
A refresh on a dashboard where nothing else is under way. It gets the gate at its first poll, fetches
once, ends with that poll, and leaves nothing under way.
-/
namespace ActivityBoard

namespace Gate

variable {ι : Type}

def takenBy (i : ι) : Gate ι := ⟨true, [], [], [(i, .holding)]⟩

variable [DecidableEq ι] (i : ι)

theorem poll_create_idle : (idle.create i).poll i = (takenBy i, .admitted) := by
  have hphase : (idle.create i).phase? i = some .unpolled := by
    rw [phase?_create, if_pos rfl]
  rw [poll, hphase]
  simp [create, drop, idle, phase?, enter, forget, takenBy]

theorem drop_takenBy : (takenBy i).drop i = (idle, .released) := by
  have hphase : (takenBy i).phase? i = some .holding := List.lookup_cons_self
  rw [drop, hphase]
  simp [takenBy, forget, release, handOver, idle]

end Gate

namespace Dashboard

variable {ι : Type} {d : Dashboard ι} {target : Target} {request : Option Int}

/-- Nobody is at the gate, and no refresh is under way. -/
structure AtRest (d : Dashboard ι) : Prop where
  gate : d.gate = Gate.idle
  refreshes : d.refreshes = []

theorem atRest_new (settings : Settings) (script : List Response) :
    (new settings script : Dashboard ι).AtRest :=
  ⟨rfl, rfl⟩

/-- The dashboard behind a refresh that made this request and had this outcome. -/
def refreshed (d : Dashboard ι) (request : Option Int) (outcome : Except RefreshError Board) :
    Dashboard ι :=
  { d with
    latest := outcome.toOption.or d.latest
    script := []
    requests := d.requests ++ [request] }

theorem AtRest.refreshed (h : d.AtRest) (request : Option Int)
    (outcome : Except RefreshError Board) : (d.refreshed request outcome).AtRest :=
  ⟨h.gate, h.refreshes⟩

variable [DecidableEq ι]

theorem AtRest.create (h : d.AtRest) (i : ι) (target : Target) :
    d.create i target = { d with refreshes := [(i, .created target)] } := by
  obtain ⟨settings, gate, latest, refreshes, script, requests⟩ := d
  obtain ⟨rfl, rfl⟩ := h
  rfl

theorem finish_of_takenBy {i : ι} {stage : Stage} (hg : d.gate = Gate.takenBy (.refresh i))
    (hr : d.refreshes = [(i, stage)]) (result : Fetched) : d.finish i result =
      ({ d with
          gate := Gate.idle
          refreshes := []
          latest := (outcome d.settings result).toOption.or d.latest },
        .finished (outcome d.settings result)) := by
  rw [finish, leave]
  dsimp only
  rw [hg, hr, Gate.drop_takenBy]
  cases outcome d.settings result <;> simp [Except.toOption]

theorem AtRest.refreshNow (h : d.AtRest) (hr : target.request? d.lastTimestamp = some request)
    (i : ι) (result : Fetched) : d.refreshNow i target result =
      (d.refreshed request (outcome d.settings result), .finished (outcome d.settings result)) := by
  have hrest : AtRest { d with script := [⟨result, some 0⟩] } := ⟨h.gate, h.refreshes⟩
  rw [Dashboard.refreshNow, hrest.create]
  generalize hd : ({ d with
    script := [⟨result, some 0⟩]
    refreshes := [(i, .created target)] } : Dashboard ι) = created
  have hstage : created.stage? i = some (.created target) := by
    rw [← hd]
    exact List.lookup_cons_self
  have hask : created.asking? i = some request := by
    rw [asking?, hstage, ← hd]
    exact hr
  have hgate : (created.asked i).poll (.refresh i) = (Gate.takenBy (.refresh i), .admitted) := by
    rw [asked, hstage, ← hd]
    dsimp only
    rw [h.gate, Gate.poll_create_idle]
  rw [poll_of_asking hask, approach_of_admitted (congrArg Prod.snd hgate), fetch_eq, hgate, ← hd]
  -- The response comes without delay, so the poll that fetches it ends the refresh.
  refine (finish_of_takenBy rfl rfl result).trans ?_
  rw [Dashboard.refreshed, ← h.gate, ← h.refreshes]
  rfl

end Dashboard

end ActivityBoard
