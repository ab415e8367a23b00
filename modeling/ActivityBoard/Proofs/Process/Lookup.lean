import ActivityBoard.Process.Join
import ActivityBoard.Proofs.Process.Table

/-!
The join with its failures set apart: which row stands for a pid in each table, which records there
are where no row is missed, and which row is missed first.
-/
namespace ActivityBoard

def Table.rowOf {α : Type} (pid : α → Nat) (absent : Nat → α) (rows : List α) (p : Nat) : α :=
  (Table.latest? pid rows p).getD (absent p)

theorem Table.rowOf_congr {α : Type} {pid : α → Nat} {absent : Nat → α} {rows rows' : List α}
    {p : Nat} (h : Table.latest? pid rows' p = Table.latest? pid rows p) :
    Table.rowOf pid absent rows' p = Table.rowOf pid absent rows p :=
  congrArg (Option.getD · (absent p)) h

theorem mapM_eq_elim {α β ε : Type} {f : α → Except ε β} {refused : α → Option ε} {g : α → β}
    (h : ∀ a, f a = (refused a).elim (.ok (g a)) .error) (l : List α) :
    l.mapM f = (l.findSome? refused).elim (.ok (l.map g)) .error := by
  induction l with
  | nil => rfl
  | cons a rest ih =>
    rw [List.mapM_cons, ih, h, List.findSome?_cons]
    cases refused a with
    | some e => rfl
    | none => cases rest.findSome? refused <;> rfl

namespace ProcessTables

variable {α : Type} {t : ProcessTables} {p : Nat} {e : MissingEntry}

def pidsIn (t : ProcessTables) : UseTable → List Nat
  | .cpu => t.cpu.map CpuUse.pid
  | .memory => t.memory.map MemoryUse.pid
  | .disk => t.disk.map DiskUse.pid

/-- The first table without a row of `p`. -/
def gap? (t : ProcessTables) (p : Nat) : Option MissingEntry :=
  ([.cpu, .memory, .disk].find? fun table => p ∉ t.pidsIn table).map (MissingEntry.mk p)

/-- The missing row of `p` that the policy does not let pass. -/
def refused? (t : ProcessTables) (policy : MissingPolicy) (p : Nat) : Option MissingEntry :=
  match policy with
  | .fail => t.gap? p
  | .empty => none

/-- The missing row for which the join is given up. -/
def failure? (t : ProcessTables) (policy : MissingPolicy) : Option MissingEntry :=
  (t.identities.map Identity.pid).findSome? (t.refused? policy)

def joined (t : ProcessTables) (capacity : Capacity) (g : Identity) : ProcessRecord :=
  record capacity t.transferred g (Table.rowOf CpuUse.pid CpuUse.none t.cpu g.pid)
    (Table.rowOf MemoryUse.pid MemoryUse.none t.memory g.pid)
    (Table.rowOf DiskUse.pid DiskUse.none t.disk g.pid)

def chosen (t : ProcessTables) (onlyProcesses : Bool) : List Identity :=
  (Table.distinct Identity.pid t.identities).filter fun g => g.leads || !onlyProcesses

def unranked (t : ProcessTables) (capacity : Capacity) (onlyProcesses : Bool) :
    List ProcessRecord :=
  (t.chosen onlyProcesses).map (t.joined capacity)

def processes (t : ProcessTables) (capacity : Capacity) (settings : Settings) : Processes where
  records := (ProcessRecord.ranked settings.sort
    (t.unranked capacity settings.onlyProcesses)).take settings.limits.processes
  summary := ProcessSummary.tally (Table.distinct Identity.pid t.identities)
    (t.unranked capacity settings.onlyProcesses)

section Lookup

variable (table : UseTable) (pid : α → Nat) (rows : List α) (absent : Nat → α)

theorem lookup_of_mem (policy : MissingPolicy) (h : p ∈ rows.map pid) :
    lookup policy table pid rows absent p = .ok (Table.rowOf pid absent rows p) := by
  obtain ⟨row, hrow⟩ := Table.exists_isLast_iff.2 h
  simp only [lookup, Table.rowOf, Table.latest?_eq_some_iff.2 hrow, Option.getD_some]

theorem lookup_empty (p : Nat) :
    lookup .empty table pid rows absent p = .ok (Table.rowOf pid absent rows p) := by
  unfold lookup Table.rowOf
  cases Table.latest? pid rows p <;> rfl

theorem lookup_fail (h : p ∉ rows.map pid) :
    lookup .fail table pid rows absent p = .error ⟨p, table⟩ := by
  simp only [lookup, Table.latest?_eq_none_iff.2 h]

end Lookup

theorem recordOf_eq (t : ProcessTables) (capacity : Capacity) (policy : MissingPolicy)
    (g : Identity) : t.recordOf capacity policy g =
      (t.refused? policy g.pid).elim (.ok (t.joined capacity g)) .error := by
  unfold recordOf refused?
  cases policy with
  | empty =>
    rw [lookup_empty, lookup_empty, lookup_empty]
    rfl
  | fail =>
    unfold gap? pidsIn
    by_cases hc : g.pid ∈ t.cpu.map CpuUse.pid
    · rw [lookup_of_mem _ _ _ _ _ hc]
      by_cases hm : g.pid ∈ t.memory.map MemoryUse.pid
      · rw [lookup_of_mem _ _ _ _ _ hm]
        by_cases hd : g.pid ∈ t.disk.map DiskUse.pid
        · rw [lookup_of_mem _ _ _ _ _ hd]
          simp only [List.find?_cons, hc, hm, hd]
          rfl
        · rw [lookup_fail _ _ _ _ hd]
          simp only [List.find?_cons, hc, hm, hd]
          rfl
      · rw [lookup_fail _ _ _ _ hm]
        simp only [List.find?_cons, hc, hm]
        rfl
    · rw [lookup_fail _ _ _ _ hc]
      simp only [List.find?_cons, hc]
      rfl

theorem records_eq (t : ProcessTables) (capacity : Capacity) (policy : MissingPolicy) :
    t.records capacity policy = (t.failure? policy).elim
      (.ok ((Table.distinct Identity.pid t.identities).map (t.joined capacity))) .error := by
  have hpids : (Table.distinct Identity.pid t.identities).findSome?
      (fun g => t.refused? policy g.pid) = t.failure? policy := by
    rw [failure?, ← findSome?_firstSeen, ← Table.pids, ← Table.map_pid_distinct,
      List.findSome?_map]
    rfl
  rw [records, mapM_eq_elim (t.recordOf_eq capacity policy), hpids]

theorem join_eq (t : ProcessTables) (capacity : Capacity) (settings : Settings) :
    t.join capacity settings =
      (t.failure? settings.missing).elim (.ok (t.processes capacity settings)) .error := by
  rw [join, records_eq]
  cases t.failure? settings.missing with
  | some e => rfl
  | none =>
    change Except.ok _ = Except.ok _
    rw [List.filter_map]
    rfl

theorem join_eq_ok_iff {capacity : Capacity} {settings : Settings} {out : Processes} :
    t.join capacity settings = .ok out ↔
      t.failure? settings.missing = none ∧ out = t.processes capacity settings := by
  rw [join_eq]
  cases t.failure? settings.missing <;> simp [eq_comm]

theorem gap?_eq_none_iff : t.gap? p = none ↔ ∀ table, p ∈ t.pidsIn table := by
  simp only [gap?, Option.map_eq_none_iff, List.find?_eq_none, decide_eq_true_eq, not_not]
  constructor
  · intro h table
    exact h table (by cases table <;> simp)
  · exact fun h table _ => h table

theorem failure?_empty : t.failure? .empty = none := by
  rw [failure?, List.findSome?_eq_none_iff]
  exact fun _ _ => rfl

end ProcessTables

end ActivityBoard
