import ActivityBoard.CommandLine.Run
import ActivityBoard.Proofs.Dashboard.Undisturbed

namespace ActivityBoard.Watch

variable {settings : Settings} {source : Nat → Fetched} {n limit : Nat} {w : Watch}

def line? (settings : Settings) (fetched : Fetched) : Option String :=
  (Dashboard.outcome settings fetched).toOption.map (line settings.sort)

theorem refresh_of_atRest (h : w.dashboard.AtRest) (fetched : Fetched) : w.refresh fetched =
    ⟨w.dashboard.refreshed none (Dashboard.outcome w.dashboard.settings fetched), w.done + 1,
      w.lines ++ (line? w.dashboard.settings fetched).toList⟩ := by
  have hrequest : (Target.at none).request? w.dashboard.lastTimestamp = some none := rfl
  rw [refresh, h.refreshNow hrequest () fetched, line?]
  dsimp only [Dashboard.refreshed]
  cases Dashboard.outcome w.dashboard.settings fetched with
  | error e => rfl
  | ok board => rfl

def after (settings : Settings) (source : Nat → Fetched) (n : Nat) : Watch :=
  (List.range n).foldl (fun w k => w.refresh (source k)) (start settings)

theorem after_succ : after settings source (n + 1) =
    (after settings source n).refresh (source n) := by
  rw [after, List.range_succ, List.foldl_append]
  rfl

/-- What holds of a watch between two refreshes, `n` of which are made. -/
structure Tallies (settings : Settings) (source : Nat → Fetched) (n : Nat) (w : Watch) : Prop where
  atRest : w.dashboard.AtRest
  inForce : w.dashboard.settings = settings
  done : w.done = n
  requests : w.dashboard.requests = List.replicate n none
  lines : w.lines = (List.range n).filterMap fun k => line? settings (source k)

theorem tallies_start : Tallies settings source 0 (start settings) :=
  ⟨Dashboard.atRest_new settings [], rfl, rfl, rfl, rfl⟩

theorem Tallies.refresh (h : Tallies settings source n w) :
    Tallies settings source (n + 1) (w.refresh (source n)) := by
  rw [refresh_of_atRest h.atRest]
  refine ⟨h.atRest.refreshed _ _, h.inForce, congrArg (· + 1) h.done, ?_, ?_⟩
  · rw [List.replicate_succ', ← h.requests]
    rfl
  · rw [h.inForce, h.lines, List.range_succ, List.filterMap_append, List.filterMap_cons]
    cases line? settings (source n) with
    | none => rfl
    | some text => rfl

theorem tallies_after (settings : Settings) (source : Nat → Fetched) (n : Nat) :
    Tallies settings source n (after settings source n) := by
  induction n with
  | zero => exact tallies_start
  | succ n ih =>
    rw [after_succ]
    exact ih.refresh

theorem isOver_after_iff : (after settings source n).isOver (some limit) = true ↔ limit ≤ n := by
  rw [isOver, (tallies_after settings source n).done]
  exact decide_eq_true_iff

/-- From anywhere before its end a watch goes on to the end, a refresh at a time. -/
theorem run_after (h : n < max limit 1) :
    (after settings source n).run source limit = after settings source (max limit 1) := by
  obtain ⟨k, hk⟩ := Nat.exists_eq_add_of_lt h
  induction k generalizing n with
  | zero =>
    have hlast : limit ≤ n + 1 := by omega
    rw [run, (tallies_after settings source n).done, ← after_succ, hk]
    exact if_pos hlast
  | succ k ih =>
    have hmore : ¬limit ≤ n + 1 := by omega
    have hrest : (after settings source (n + 1)).run source limit =
        after settings source (max limit 1) := ih (by omega) (by omega)
    rw [run, (tallies_after settings source n).done, ← after_succ, ← hrest]
    exact if_neg hmore

theorem run_start (settings : Settings) (source : Nat → Fetched) (limit : Nat) :
    (start settings).run source limit = after settings source (max limit 1) :=
  run_after (n := 0) (by omega)

/-- A watch makes `max limit 1` refreshes, whatever they come to, and is over behind the last of them
and not before. It prints a line for each that succeeds, in order, and succeeds itself. -/
theorem refreshes_up_to_limit (settings : Settings) (source : Nat → Fetched) (limit : Nat) :
    let count := max limit 1
    let w := (start settings).run source limit
    w = after settings source count ∧ w.done = count ∧
    w.dashboard.requests = List.replicate count none ∧
    (∀ n, 1 ≤ n → ((after settings source n).isOver (some limit) = true ↔ count ≤ n)) ∧
    w.lines = (List.range count).filterMap (fun k => line? settings (source k)) ∧
    Outcome.ofWatch w = .success (String.join (w.lines.map (· ++ "\n"))) ∧
    ∀ (s : Surroundings) args overrides file,
      Invocation.ofArguments? args = some ⟨overrides, .watch file (some limit)⟩ →
      s.settings overrides = settings → (∀ k, source k = s.fetch file) →
        run? s args = some (.ofWatch w) := by
  intro count w
  have hw : w = after settings source count := run_start settings source limit
  have htallies : Tallies settings source count w := hw ▸ tallies_after settings source count
  refine ⟨hw, htallies.done, htallies.requests, ?_, htallies.lines, rfl, ?_⟩
  · intro n hn
    rw [isOver_after_iff]
    omega
  · intro s args overrides file hargs hsettings hsource
    have hfetch : source = fun _ => s.fetch file := funext hsource
    rw [run?, hargs]
    dsimp only
    rw [hsettings, ← hfetch]

theorem refreshes_up_to_three :
    let text := "1970-01-01 00:00:00 cpu 100.0% procs 0/0 sort CPU"
    let faulty := fun k => if k = 1 then Fetched.failed .unreadable else .text "\x7b\x7d"
    let s : Surroundings :=
      { file := fun _ => some "\x7b\x7d", defaultConfig := none, standardInput := "" }
    let args := ["watch", "sample", "--ticks", "3"]
    Invocation.ofArguments? args = some ⟨{}, .watch "sample" (some 3)⟩ ∧
    s.settings {} = {} ∧ ((start {}).run faulty 3).lines = [text, text] ∧
    run? s args = some (.ofWatch ((start {}).run (fun _ => .text "\x7b\x7d") 3)) := by
  intro text faulty s args
  have hargs : Invocation.ofArguments? args = some ⟨{}, .watch "sample" (some 3)⟩ := by
    decide +kernel
  have hsettings : s.settings {} = {} := by decide +kernel
  have hlines : (List.range (max 3 1)).filterMap (fun k => line? {} (faulty k)) = [text, text] := by
    decide +kernel
  obtain ⟨-, -, -, -, hfaulty, -⟩ := refreshes_up_to_limit {} faulty 3
  obtain ⟨-, -, -, -, -, -, hrun⟩ := refreshes_up_to_limit {} (fun _ => .text "\x7b\x7d") 3
  exact ⟨hargs, hsettings, hfaulty.trans hlines, hrun s args _ _ hargs hsettings fun _ => rfl⟩

/-- A watch that is to make no refresh makes one, and prints its line. -/
theorem none_asked_one_made :
    let w := (start {}).run (fun _ => .text "\x7b\x7d") 0
    let s : Surroundings :=
      { file := fun _ => some "\x7b\x7d", defaultConfig := none, standardInput := "" }
    w.done = 1 ∧ w.dashboard.requests = [none] ∧ ¬w.lines = [] ∧
      run? s ["watch", "sample", "--ticks", "0"] =
        some (.success "1970-01-01 00:00:00 cpu 100.0% procs 0/0 sort CPU\n") := by
  decide +kernel

end ActivityBoard.Watch
