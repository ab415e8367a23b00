import ActivityBoard.Proofs.Process.Join

namespace ActivityBoard

namespace Table

variable {α : Type} {pid : α → Nat} {rows rows' : List α}

/-- The last row of every pid, each once. -/
structure LastRows (pid : α → Nat) (rows last : List α) : Prop where
  nodup : (last.map pid).Nodup
  mem : ∀ row, row ∈ last ↔ IsLast pid rows (pid row) row

theorem lastRows_distinct (pid : α → Nat) (rows : List α) :
    LastRows pid rows (distinct pid rows) :=
  ⟨nodup_pids_distinct, fun _ => mem_distinct⟩

theorem latest?_of_perm (h : rows'.Perm rows) (hn : (rows.map pid).Nodup) (p : Nat) :
    latest? pid rows' p = latest? pid rows p := by
  have hn' : (rows'.map pid).Nodup := (h.map pid).nodup_iff.2 hn
  apply Option.ext
  intro row
  rw [latest?_eq_some_iff_of_nodup hn', latest?_eq_some_iff_of_nodup hn, h.mem_iff]

theorem total_perm (counter : α → Nat) (h : rows'.Perm rows) :
    total counter rows' = total counter rows := by
  rw [total_eq_sum, total_eq_sum]
  exact (h.map counter).sum_nat

end Table

namespace ProcessSummary

variable {rows rows' : List Identity} {records records' : List ProcessRecord}

def states (s : ProcessSummary) : ProcessSummary := { s with systemTime := 0, userTime := 0 }

/-- The times of the summary are those of the records. -/
structure AddsUp (s : ProcessSummary) (records : List ProcessRecord) : Prop where
  system : s.systemTime = (records.map fun r => r.cpu.system).sum
  user : s.userTime = (records.map fun r => r.cpu.user).sum

/-- The summary counts these rows by their states, and the threads of those that live. -/
structure Counts (s : ProcessSummary) (rows : List Identity) : Prop where
  processes : s.processes = rows.countP fun g => g.state ≠ "E"
  exited : s.exited = rows.countP fun g => g.state = "E"
  zombies : s.zombies = rows.countP fun g => g.state = "Z"
  running : s.running = ((rows.filter fun g => g.state ≠ "E").map Identity.running).sum
  sleeping : s.sleeping = ((rows.filter fun g => g.state ≠ "E").map Identity.sleeping).sum
  blocked : s.blocked = ((rows.filter fun g => g.state ≠ "E").map Identity.blocked).sum

theorem addsUp_tally (rows : List Identity) (records : List ProcessRecord) :
    (tally rows records).AddsUp records :=
  ⟨Table.total_eq_sum _ _, Table.total_eq_sum _ _⟩

theorem AddsUp.of_perm {s : ProcessSummary} (h : s.AddsUp records) (hr : records'.Perm records) :
    s.AddsUp records' where
  system := h.system.trans (hr.map _).sum_nat.symm
  user := h.user.trans (hr.map _).sum_nat.symm

theorem hasExited_eq (g : Identity) : g.hasExited = decide (g.state = "E") := by
  rw [Identity.hasExited, beq_eq_decide]

theorem living_eq (rows : List Identity) :
    rows.filter (fun g => !g.hasExited) = rows.filter fun g => g.state ≠ "E" := by
  apply List.filter_congr
  intro g _
  rw [hasExited_eq, decide_not]

theorem counts_tally (rows : List Identity) (records : List ProcessRecord) :
    (tally rows records).Counts rows where
  processes := by
    rw [List.countP_eq_length_filter, ← living_eq]
    rfl
  exited := by
    rw [List.countP_eq_length_filter, ← funext hasExited_eq]
    rfl
  zombies := by
    -- A zombie has not exited.
    have hzombie : ∀ g ∈ rows, (g.isZombie && !g.hasExited) = decide (g.state = "Z") := by
      intro g _
      by_cases hz : g.state = "Z" <;> simp [Identity.isZombie, Identity.hasExited, hz]
    rw [List.countP_eq_length_filter, ← List.filter_congr hzombie, ← List.filter_filter]
    rfl
  running := by
    rw [← living_eq, ← Table.total_eq_sum]
    rfl
  sleeping := by
    rw [← living_eq, ← Table.total_eq_sum]
    rfl
  blocked := by
    rw [← living_eq, ← Table.total_eq_sum]
    rfl

theorem tally_perm (h : rows'.Perm rows) (hr : records'.Perm records) :
    tally rows' records' = tally rows records := by
  have hliving := h.filter fun g => !g.hasExited
  rw [tally, tally, hliving.length_eq, (hliving.filter _).length_eq, (h.filter _).length_eq,
    Table.total_perm _ hliving, Table.total_perm _ hliving, Table.total_perm _ hliving,
    Table.total_perm _ hr, Table.total_perm _ hr]

variable {s : ProcessSummary}

theorem Counts.length_eq (h : s.Counts rows) : s.processes + s.exited = rows.length := by
  rw [h.processes, h.exited, List.length_eq_countP_add_countP fun g => decide (g.state ≠ "E")]
  simp

theorem Counts.zombies_le (h : s.Counts rows) : s.zombies ≤ s.processes := by
  rw [h.zombies, h.processes]
  apply List.countP_mono_left
  intro g _ hz
  rw [decide_eq_true_eq] at hz ⊢
  rw [hz]
  decide

end ProcessSummary

namespace ProcessTables

variable {t : ProcessTables} {capacity : Capacity} {settings : Settings} {out : Processes}

theorem summary_of_join (h : t.join capacity settings = .ok out) :
    out.summary = ProcessSummary.tally (Table.distinct Identity.pid t.identities)
      (t.unranked capacity settings.onlyProcesses) := by
  rw [(join_eq_ok_iff.1 h).2]
  rfl

theorem addsUp_processes (capacity : Capacity) (settings : Settings)
    (hroom : (t.identities.map Identity.pid).dedup.length ≤ settings.limits.processes) :
    (t.processes capacity settings).summary.AddsUp (t.processes capacity settings).records := by
  rw [records_processes capacity hroom]
  exact (ProcessSummary.addsUp_tally _ _).of_perm (ProcessRecord.ranked_perm _ _)

theorem addsUp_of_room {limits : Limits} (sort : SortMode)
    (h : t.join capacity settings = .ok out)
    (hroom : (t.identities.map Identity.pid).dedup.length ≤ limits.processes) :
    ∃ all, t.join capacity { settings with limits := limits, sort := sort } = .ok all ∧
      out.summary.AddsUp all.records := by
  refine ⟨_, join_eq_ok_iff.2 ⟨(join_eq_ok_iff.1 h).1, rfl⟩, ?_⟩
  rw [summary_of_join h]
  exact addsUp_processes capacity { settings with limits := limits, sort := sort } hroom

theorem failure?_of_perm {identities : List Identity} (h : identities.Perm t.identities)
    (policy : MissingPolicy) (hnone : t.failure? policy = none) :
    failure? { t with identities := identities } policy = none := by
  rw [failure?, List.findSome?_eq_none_iff] at hnone ⊢
  intro p hp
  have hrefused := hnone p ((h.map Identity.pid).mem_iff.1 hp)
  cases policy with
  | empty => rfl
  | fail => exact hrefused

theorem join_of_perm {identities : List Identity} (h : t.join capacity settings = .ok out)
    (hperm : identities.Perm t.identities) (hn : (t.identities.map Identity.pid).Nodup) :
    ∃ out', join { t with identities := identities } capacity settings = .ok out' ∧
      out'.summary = out.summary := by
  have hdistinct := Table.distinct_perm (Table.latest?_of_perm hperm hn)
  have hnone := failure?_of_perm hperm _ (join_eq_ok_iff.1 h).1
  refine ⟨_, join_eq_ok_iff.2 ⟨hnone, rfl⟩, ?_⟩
  rw [summary_of_join h]
  exact ProcessSummary.tally_perm hdistinct ((hdistinct.filter _).map _)

/-- The summary counts the pids of the identity table by their last rows, and so it does under all
settings. Its times are those of the records that the same join gives with room for all. If no pid
occurs twice, the order of the identities does not matter. -/
theorem summary_counts_identities (t : ProcessTables) (capacity : Capacity) (settings : Settings)
    (out : Processes) (h : t.join capacity settings = .ok out) :
    (∃ last, Table.LastRows Identity.pid t.identities last ∧ out.summary.Counts last) ∧
    out.summary.processes + out.summary.exited = (t.identities.map Identity.pid).dedup.length ∧
    out.summary.zombies ≤ out.summary.processes ∧
    (∀ capacity' settings' out', t.join capacity' settings' = .ok out' →
      out'.summary.states = out.summary.states) ∧
    (∀ limits sort, (t.identities.map Identity.pid).dedup.length ≤ limits.processes →
      ∃ all, t.join capacity { settings with limits := limits, sort := sort } = .ok all ∧
        out.summary.AddsUp all.records) ∧
    (∀ identities, identities.Perm t.identities → (t.identities.map Identity.pid).Nodup →
      ∃ out', join { t with identities := identities } capacity settings = .ok out' ∧
        out'.summary = out.summary) := by
  have hcounts : out.summary.Counts (Table.distinct Identity.pid t.identities) := by
    rw [summary_of_join h]
    exact ProcessSummary.counts_tally _ _
  refine ⟨⟨_, Table.lastRows_distinct _ _, hcounts⟩, ?_, hcounts.zombies_le, ?_, ?_, ?_⟩
  · rw [hcounts.length_eq, Table.length_distinct]
  · intro capacity' settings' out' h'
    rw [summary_of_join h, summary_of_join h']
    rfl
  · exact fun limits sort => addsUp_of_room sort h
  · exact fun identities hperm => join_of_perm h hperm

def assorted : ProcessTables where
  identities := [⟨4, "(busy)", "R", 4, 3, 0, "", 2, 1, 0, 1, []⟩,
    ⟨5, "(thread)", "S", 4, 1, 0, "", 0, 1, 0, 0, []⟩,
    ⟨6, "(gone)", "E", 6, 9, 1, "", 9, 9, 9, 1, []⟩,
    ⟨8, "(thread)", "D", 4, 1, 0, "", 0, 0, 1, 0, []⟩,
    ⟨7, "(dead)", "Z", 7, 1, 0, "", 0, 0, 0, 1, []⟩]
  cpu := [⟨4, 3, 4, 0, 4, 1, []⟩, ⟨5, 2, 5, 0, 4, 0, []⟩, ⟨6, 6, 1, 0, 6, 1, []⟩,
    ⟨8, 1, 1, 0, 4, 0, []⟩]
  memory := [⟨5, 20, 8, 0, 0, 0, 0, 0, 0, 0, 0, 0, []⟩]
  disk := [⟨8, 1, 2, 3, 4, 5, []⟩, ⟨6, 1, 1, 0, 0, 0, []⟩]

theorem summary_counts_identities_assorted :
    let capacity : Capacity := ⟨1000, 100, 512⟩
    let settings : Settings := { limits := { processes := 1 }, missing := .empty }
    ∃ out, assorted.join capacity settings = .ok out ∧ out.summary = ⟨4, 1, 1, 2, 2, 1, 5, 9⟩ ∧
      (∃ last, Table.LastRows Identity.pid assorted.identities last ∧ out.summary.Counts last) ∧
      out.summary.processes + out.summary.exited =
        (assorted.identities.map Identity.pid).dedup.length ∧
      out.summary.zombies ≤ out.summary.processes ∧
      (∃ out', assorted.join capacity { missing := .empty, onlyProcesses := false } = .ok out' ∧
        out'.summary ≠ out.summary ∧ out'.summary.states = out.summary.states) ∧
      (∃ all, assorted.join capacity { sort := .memory, missing := .empty } = .ok all ∧
        out.summary.AddsUp all.records) ∧
      ∃ out', join { assorted with identities := assorted.identities.reverse } capacity settings =
        .ok out' ∧ out'.summary = out.summary := by
  intro capacity settings
  have hjoin : assorted.join capacity settings = .ok (assorted.processes capacity settings) :=
    join_eq_ok_iff.2 ⟨rfl, rfl⟩
  have hthreads : assorted.join capacity { missing := .empty, onlyProcesses := false } = .ok _ :=
    join_eq_ok_iff.2 ⟨rfl, rfl⟩
  obtain ⟨hcounts, hlength, hzombies, hstates, htimes, hperm⟩ :=
    summary_counts_identities assorted capacity settings _ hjoin
  exact ⟨_, hjoin, by decide, hcounts, hlength, hzombies,
    ⟨_, hthreads, by decide, hstates _ _ _ hthreads⟩, htimes {} .memory (by decide),
    hperm _ (List.reverse_perm _) (by decide)⟩

end ProcessTables

end ActivityBoard
