import ActivityBoard.Proofs.Process.LastRows

/-!
A lenient join is the strict join of tables from which nothing is missing: each gets a row of zeros
for every pid of the identity table that has no row in it.
-/
namespace ActivityBoard

theorem firstSeen_append (l l' : List Nat) :
    firstSeen (l ++ l') = firstSeen l ++ (firstSeen l').filter (· ∉ l) := by
  induction l with
  | nil => simp [firstSeen]
  | cons n rest ih =>
    have hfilter : ((firstSeen l').filter (· ∉ rest)).filter (· ≠ n) =
        (firstSeen l').filter (· ∉ n :: rest) := by
      rw [List.filter_filter]
      apply List.filter_congr
      intro m _
      simp
    rw [List.cons_append, firstSeen, ih, List.filter_append, hfilter, firstSeen, List.cons_append]

theorem firstSeen_of_nodup {l : List Nat} (h : l.Nodup) : firstSeen l = l := by
  induction l with
  | nil => rfl
  | cons n rest ih =>
    obtain ⟨hn, hrest⟩ := List.nodup_cons.1 h
    rw [firstSeen, ih hrest, List.filter_eq_self.2]
    intro m hm
    have hne : m ≠ n := fun he => hn (he ▸ hm)
    simpa using hne

namespace Table

variable {α : Type} {pid : α → Nat} {absent : Nat → α} {rows : List α} {asked : List Nat} {p : Nat}

def missing (pid : α → Nat) (rows : List α) (asked : List Nat) : List Nat :=
  (firstSeen asked).filter (· ∉ rows.map pid)

/-- The table with a row for every pid, behind the rows that are there. -/
def completed (pid : α → Nat) (absent : Nat → α) (asked : List Nat) (rows : List α) : List α :=
  rows ++ (missing pid rows asked).map absent

theorem mem_missing : p ∈ missing pid rows asked ↔ p ∈ asked ∧ p ∉ rows.map pid := by
  rw [missing, List.mem_filter, mem_firstSeen, decide_eq_true_iff]

theorem nodup_missing : (missing pid rows asked).Nodup :=
  (nodup_firstSeen asked).filter _

theorem latest?_append (rows rows' : List α) (p : Nat) :
    latest? pid (rows ++ rows') p = (latest? pid rows' p).or (latest? pid rows p) := by
  rw [latest?, latest?, latest?, List.reverse_append, List.find?_append]

section Absent

variable (hpid : ∀ p, pid (absent p) = p)
include hpid

theorem map_pid_absent (ps : List Nat) : (ps.map absent).map pid = ps := by
  rw [List.map_map]
  exact (List.map_congr_left fun p _ => hpid p).trans (List.map_id ps)

theorem latest?_absent (ps : List Nat) (p : Nat) :
    latest? pid (ps.map absent) p = if p ∈ ps then some (absent p) else none := by
  induction ps with
  | nil => rfl
  | cons q ps ih =>
    rw [List.map_cons, latest?_cons, ih, hpid]
    by_cases hp : p ∈ ps
    · simp [hp]
    · by_cases hq : q = p
      · simp [hq, hp]
      · simp [hq, hp, Ne.symm hq]

theorem latest?_completed (asked : List Nat) (h : p ∈ rows.map pid) :
    latest? pid (completed pid absent asked rows) p = latest? pid rows p := by
  have hp : p ∉ missing pid rows asked := fun hm => (mem_missing.1 hm).2 h
  rw [completed, latest?_append, latest?_absent hpid, if_neg hp, Option.none_or]

theorem latest?_completed_missing (h : p ∈ missing pid rows asked) :
    latest? pid (completed pid absent asked rows) p = some (absent p) := by
  rw [completed, latest?_append, latest?_absent hpid, if_pos h, Option.some_or]

theorem rowOf_completed (rows : List α) (h : p ∈ asked) :
    rowOf pid absent (completed pid absent asked rows) p = rowOf pid absent rows p := by
  by_cases hp : p ∈ rows.map pid
  · exact rowOf_congr (latest?_completed hpid asked hp)
  · have hrow : latest? pid (completed pid absent asked rows) p = some (absent p) :=
      latest?_completed_missing hpid (mem_missing.2 ⟨h, hp⟩)
    rw [rowOf, rowOf, hrow, latest?_eq_none_iff.2 hp, Option.getD_some, Option.getD_none]

theorem mem_pids_completed (rows : List α) (h : p ∈ asked) :
    p ∈ (completed pid absent asked rows).map pid := by
  rw [completed, List.map_append, map_pid_absent hpid, List.mem_append, mem_missing]
  by_cases hp : p ∈ rows.map pid
  · exact .inl hp
  · exact .inr ⟨h, hp⟩

theorem pids_completed (asked : List Nat) (rows : List α) :
    pids pid (completed pid absent asked rows) = pids pid rows ++ missing pid rows asked := by
  have hmissing : (missing pid rows asked).filter (· ∉ rows.map pid) =
      missing pid rows asked := by
    rw [List.filter_eq_self]
    intro p hp
    exact decide_eq_true (mem_missing.1 hp).2
  rw [pids, pids, completed, List.map_append, map_pid_absent hpid, firstSeen_append,
    firstSeen_of_nodup nodup_missing, hmissing]

/-- The rows that count in a completed table: those that did, and then the ones of zeros. -/
theorem distinct_completed (asked : List Nat) (rows : List α) :
    distinct pid (completed pid absent asked rows) =
      distinct pid rows ++ (missing pid rows asked).map absent := by
  have hpresent : ∀ p ∈ pids pid rows,
      latest? pid (completed pid absent asked rows) p = latest? pid rows p := by
    intro p hp
    rw [pids, mem_firstSeen] at hp
    exact latest?_completed hpid asked hp
  have habsent : ∀ p ∈ missing pid rows asked,
      latest? pid (completed pid absent asked rows) p = some (absent p) :=
    fun p hp => latest?_completed_missing hpid hp
  rw [distinct, pids_completed hpid, List.filterMap_append, List.filterMap_congr hpresent,
    List.filterMap_congr habsent, ← distinct]
  exact congrArg _ (congrFun List.filterMap_eq_map _)

end Absent

end Table

namespace ProcessTables

variable {t : ProcessTables} {settings : Settings} {p : Nat}

def completed (t : ProcessTables) : ProcessTables :=
  let pids := t.identities.map Identity.pid
  { t with
    cpu := Table.completed CpuUse.pid CpuUse.none pids t.cpu
    memory := Table.completed MemoryUse.pid MemoryUse.none pids t.memory
    disk := Table.completed DiskUse.pid DiskUse.none pids t.disk }

theorem sameRows_completed (t : ProcessTables) : SameRows t t.completed where
  identities := rfl
  cpu _ hp := Table.rowOf_completed (fun _ => rfl) t.cpu hp
  memory _ hp := Table.rowOf_completed (fun _ => rfl) t.memory hp
  disk _ hp := Table.rowOf_completed (fun _ => rfl) t.disk hp

theorem transferred_completed (t : ProcessTables) : t.completed.transferred = t.transferred := by
  have hzero (ps : List Nat) :
      (ps.map DiskUse.none).foldr (fun d sum => d.transferred + sum) 0 = 0 := by
    induction ps with
    | nil => rfl
    | cons p ps ih =>
      rw [List.map_cons, List.foldr_cons, ih]
      rfl
  have hdistinct : Table.distinct DiskUse.pid t.completed.disk = Table.distinct DiskUse.pid t.disk ++
      (Table.missing DiskUse.pid t.disk (t.identities.map Identity.pid)).map DiskUse.none :=
    Table.distinct_completed (fun _ => rfl) _ t.disk
  rw [transferred, hdistinct, List.foldr_append, hzero, ← transferred]

theorem mem_pidsIn_completed (hp : t.Identified p) (table : UseTable) :
    p ∈ t.completed.pidsIn table := by
  cases table with
  | cpu => exact Table.mem_pids_completed (fun _ => rfl) t.cpu hp
  | memory => exact Table.mem_pids_completed (fun _ => rfl) t.memory hp
  | disk => exact Table.mem_pids_completed (fun _ => rfl) t.disk hp

theorem failure?_completed (t : ProcessTables) (policy : MissingPolicy) :
    t.completed.failure? policy = none := by
  rw [failure?, List.findSome?_eq_none_iff]
  intro p hp
  exact refused?_eq_none_iff.2 (.inr (mem_pidsIn_completed hp))

theorem join_empty (t : ProcessTables) (capacity : Capacity) (settings : Settings) :
    t.join capacity { settings with missing := .empty } = .ok (t.processes capacity settings) :=
  join_eq_ok_iff.2 ⟨failure?_empty, rfl⟩

/-- The lenient policy gives what the strict one gives of the completed tables, and both succeed. Of
the tables as they are the strict policy gives the same, or else an error. -/
theorem lenient_join_completes (t : ProcessTables) (capacity : Capacity) (settings : Settings) :
    (∃ out, t.join capacity { settings with missing := .empty } = .ok out ∧
      t.completed.join capacity { settings with missing := .fail } = .ok out) ∧
    ((∃ e, t.join capacity { settings with missing := .fail } = .error e) ∨
      t.join capacity { settings with missing := .fail } =
        t.join capacity { settings with missing := .empty }) := by
  constructor
  · refine ⟨_, t.join_empty capacity settings, join_eq_ok_iff.2 ⟨t.failure?_completed .fail, ?_⟩⟩
    exact ((sameRows_completed t).processes_eq (transferred_completed t)).symm
  · rw [join_eq, join_empty]
    cases t.failure? .fail with
    | some e => exact .inl ⟨e, rfl⟩
    | none => exact .inr rfl

-- A process that only the table of processor times lists.
example :
    let t : ProcessTables :=
      ⟨[⟨7, "(new)", "R", 7, 2, 0, "", 1, 1, 0, 1, []⟩], [⟨7, 30, 40, 1, 7, 1, []⟩], [], []⟩
    let joined (t : ProcessTables) (missing : MissingPolicy) :=
      (t.join ⟨1000, 100, 512⟩ { missing := missing }).map fun out => out.records.map fun r =>
        (r.identity.pid, r.cpuBusy.text, r.memoryBusy.text, r.diskBusy.text)
    joined t .fail = .error ⟨7, .memory⟩ ∧
      (joined t .empty).toOption = some [(7, "70.0", "0.0", "0.0")] ∧
      (joined t.completed .fail).toOption = some [(7, "70.0", "0.0", "0.0")] :=
  ⟨rfl, by decide +kernel, by decide +kernel⟩

end ProcessTables

end ActivityBoard
