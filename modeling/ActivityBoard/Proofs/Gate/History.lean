import ActivityBoard.Proofs.Gate.Slot
import ActivityBoard.Proofs.Runs

namespace ActivityBoard.Gate

variable {ι : Type} {g : Gate ι} {i j : ι} {c : Nat} {r : PollResult}
  {s : Step ι} {steps before after : List (Step ι)}

def Step.name : Step ι → ι
  | .create i | .poll i | .drop i => i

/-- None of the steps drops what goes by this name: not by itself, nor for a new request. -/
def Keeps (steps : List (Step ι)) (i : ι) : Prop := .create i ∉ steps ∧ .drop i ∉ steps

/-- The last request of this name is there still. -/
def Live (steps : List (Step ι)) (i : ι) : Prop :=
  Since (fun _ => True) (.create i) (fun s => s ≠ .drop i) steps

theorem keeps_nil (i : ι) : Keeps ([] : List (Step ι)) i := ⟨by simp, by simp⟩

theorem keeps_append : Keeps (before ++ after) i ↔ Keeps before i ∧ Keeps after i := by
  simp only [Keeps, List.mem_append, not_or]
  exact and_and_and_comm

theorem keeps_singleton : Keeps [s] i ↔ s ≠ .create i ∧ s ≠ .drop i := by
  simp only [Keeps, List.mem_singleton, ne_eq, eq_comm]

theorem keeps_cons : Keeps (s :: after) i ↔ Keeps [s] i ∧ Keeps after i := by
  rw [← keeps_append, List.singleton_append]

theorem Step.about (s : Step ι) (i : ι) :
    s = .create i ∨ s = .poll i ∨ s = .drop i ∨ s.name ≠ i := by
  by_cases hs : s.name = i
  · subst i
    cases s <;> simp [Step.name]
  · exact .inr (.inr (.inr hs))

theorem keeps_of_name_ne (h : s.name ≠ i) : Keeps [s] i := by
  rw [keeps_singleton]
  constructor
  · intro he
    exact h (congrArg Step.name he)
  · intro he
    exact h (congrArg Step.name he)

theorem keeps_poll (i j : ι) : Keeps [.poll j] i := keeps_singleton.2 ⟨by simp, by simp⟩

theorem not_keeps_create (i : ι) : ¬ Keeps [.create i] i := fun h => (keeps_singleton.1 h).1 rfl

theorem not_keeps_drop (i : ι) : ¬ Keeps [.drop i] i := fun h => (keeps_singleton.1 h).2 rfl

variable [DecidableEq ι]

/-- A poll answered so the request that goes by this name still. -/
def Answered (steps : List (Step ι)) (i : ι) (r : PollResult) : Prop :=
  Since (fun before => ((idle.run before).step (.poll i)).2 = .polled r) (.poll i)
    (fun s => Keeps [s] i) steps

@[simp] theorem run_nil (g : Gate ι) : g.run [] = g := rfl

@[simp] theorem run_cons (g : Gate ι) (s : Step ι) (steps : List (Step ι)) :
    g.run (s :: steps) = (g.step s).1.run steps := rfl

theorem run_append (g : Gate ι) (before after : List (Step ι)) :
    g.run (before ++ after) = (g.run before).run after :=
  List.foldl_append

theorem run_concat (g : Gate ι) (steps : List (Step ι)) (s : Step ι) :
    g.run (steps ++ [s]) = ((g.run steps).step s).1 := by
  rw [run_append, run_cons, run_nil]

theorem run_append_cons (g : Gate ι) (before : List (Step ι)) (s : Step ι)
    (after : List (Step ι)) : g.run (before ++ s :: after) = (g.run (before ++ [s])).run after := by
  rw [run_append, run_cons, run_concat]

theorem phase?_step_of_ne (h : s.name ≠ i) : (g.step s).1.phase? i = g.phase? i := by
  cases s with
  | create j => exact (phase?_create g j i).trans (if_neg (Ne.symm h))
  | poll j => exact phase?_poll_of_ne (Ne.symm h)
  | drop j => exact (phase?_drop g j i).trans (if_neg (Ne.symm h))

theorem phase?_step_create (g : Gate ι) (i : ι) :
    (g.step (.create i)).1.phase? i = some .unpolled :=
  (phase?_create g i i).trans (if_pos rfl)

theorem phase?_step_drop (g : Gate ι) (i : ι) : (g.step (.drop i)).1.phase? i = none :=
  (phase?_drop g i i).trans (if_pos rfl)

theorem poll_eq_none_iff : (g.poll i).1.phase? i = none ↔ g.phase? i = none := by
  have hp := g.polled_poll i
  generalize g.poll i = p at hp
  cases hp <;> simp [*]

theorem poll_eq_holding_iff : (g.poll i).1.phase? i = some .holding ↔
    (g.poll i).2 = .admitted ∨ g.phase? i = some .holding := by
  have hp := g.polled_poll i
  generalize g.poll i = p at hp
  cases hp <;> simp [*]

theorem poll_waiting_iff :
    (∃ c, (g.poll i).1.phase? i = some (.waiting c)) ↔ (g.poll i).2 = .waiting := by
  have hp := g.polled_poll i
  generalize g.poll i = p at hp
  cases hp <;> simp [*]

theorem poll_of_waiting (h : g.phase? i = some (.waiting c)) :
    (g.poll i).2 = .waiting ∨ (g.poll i).2 = .admitted := by
  have hp := g.polled_poll i
  generalize g.poll i = p at hp
  cases hp <;> simp_all

theorem waiting_of_not_admitted
    (h : g.phase? i = some .unpolled ∨ ∃ c, g.phase? i = some (.waiting c))
    (hn : (g.poll i).2 ≠ .admitted) : ∃ c, (g.poll i).1.phase? i = some (.waiting c) := by
  rw [poll_waiting_iff]
  rcases h with hu | ⟨c, hc⟩
  · have hp := g.polled_poll i
    generalize g.poll i = p at hp hn
    cases hp with
    | unknown hi => simp [hu] at hi
    | held hi => simp [hu] at hi
    | waiting => rfl
    | joined => rfl
    | received => exact absurd rfl hn
    | taken => exact absurd rfl hn
  · exact (poll_of_waiting hc).resolve_right hn

theorem known_step : (g.step s).1.phase? i ≠ none ↔
    s = .create i ∨ g.phase? i ≠ none ∧ s ≠ .drop i := by
  rcases s.about i with rfl | rfl | rfl | hs
  · simp [phase?_step_create]
  · simp [Gate.step, poll_eq_none_iff]
  · simp [phase?_step_drop]
  · obtain ⟨hc, hd⟩ := keeps_singleton.1 (keeps_of_name_ne hs)
    simp [phase?_step_of_ne hs, hc, hd]

theorem holding_step : (g.step s).1.phase? i = some .holding ↔
    s = .poll i ∧ (g.step (.poll i)).2 = .polled .admitted ∨
      g.phase? i = some .holding ∧ Keeps [s] i := by
  rcases s.about i with rfl | rfl | rfl | hs
  · simp [phase?_step_create, not_keeps_create]
  · simp [Gate.step, poll_eq_holding_iff, keeps_poll]
  · simp [phase?_step_drop, not_keeps_drop]
  · have hp : s ≠ .poll i := fun he => hs (congrArg Step.name he)
    simp [phase?_step_of_ne hs, keeps_of_name_ne hs, hp]

theorem phase?_run_ne_none_iff (steps : List (Step ι)) (i : ι) :
    (idle.run steps).phase? i ≠ none ↔ Live steps i := by
  apply iff_since (S := fun steps => (idle.run steps).phase? i ≠ none) (by simp)
  intro steps s
  rw [run_concat, known_step, and_true]

theorem phase?_run_eq_holding_iff (steps : List (Step ι)) (i : ι) :
    (idle.run steps).phase? i = some .holding ↔ Answered steps i .admitted := by
  apply iff_since (S := fun steps => (idle.run steps).phase? i = some .holding) (by simp)
  intro steps s
  rw [run_concat, holding_step]

theorem phase?_run_waiting_iff (steps : List (Step ι)) (i : ι) :
    (∃ c, (idle.run steps).phase? i = some (.waiting c)) ↔
      Answered steps i .waiting ∧ ¬ Answered steps i .admitted := by
  induction steps using List.reverseRecOn with
  | nil => exact iff_of_false (by simp) fun h => since_nil h.1
  | append_singleton steps s ih =>
    rw [← phase?_run_eq_holding_iff] at ih ⊢
    rw [run_concat, Answered, since_concat, holding_step]
    rcases s.about i with rfl | rfl | rfl | hs
    · simp [phase?_step_create, not_keeps_create]
    · have hr (r : PollResult) : ((idle.run steps).step (.poll i)).2 = .polled r ↔
          ((idle.run steps).poll i).2 = r := by simp [Gate.step]
      simp only [keeps_poll, and_true, true_and, not_or, hr]
      refine poll_waiting_iff.trans ⟨fun hw => ?_, ?_⟩
      · refine ⟨.inl hw, by simp [hw], fun hh => ?_⟩
        -- A poll leaves who holds the slot in that phase, so it did not tell it to wait.
        obtain ⟨c, hc⟩ := poll_waiting_iff.2 hw
        rw [poll_eq_holding_iff.2 (.inr hh)] at hc
        cases hc
      · intro hx
        obtain ⟨hw | hw, hna, hn⟩ := hx
        · exact hw
        · obtain ⟨c, hc⟩ := ih.2 ⟨hw, hn⟩
          exact (poll_of_waiting hc).resolve_right hna
    · simp [phase?_step_drop, not_keeps_drop]
    · have hp : s ≠ .poll i := fun he => hs (congrArg Step.name he)
      simp only [phase?_step_of_ne hs, hp, false_and, false_or, keeps_of_name_ne hs, and_true]
      exact ih

end ActivityBoard.Gate
