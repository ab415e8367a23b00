import ActivityBoard.Proofs.Process.Summary

/-!
Leaving threads out is a filter of the records. The threads are looked up all the same, so it
decides neither whether the join fails nor anything of the records that remain.
-/
namespace ActivityBoard

theorem ProcessRecord.filter_ranked (mode : SortMode) (p : ProcessRecord → Bool)
    (rows : List ProcessRecord) : (ranked mode rows).filter p = ranked mode (rows.filter p) := by
  cases mode with
  | cpu => exact ActivityBoard.filter_ranked (f := id) natLe_iff p rows
  | memory => exact ActivityBoard.filter_ranked (f := id) intLe_iff p rows
  | disk => exact ActivityBoard.filter_ranked (f := toLex) pairLe_iff p rows

namespace ProcessTables

theorem leads_eq (g : Identity) : g.leads = decide (g.isProcess = 1) := by
  rw [Identity.leads, beq_eq_decide]

theorem unranked_leaders (t : ProcessTables) (capacity : Capacity) :
    t.unranked capacity true =
      (t.unranked capacity false).filter fun r => r.identity.isProcess = 1 := by
  have hall : t.chosen false = Table.distinct Identity.pid t.identities :=
    List.filter_eq_self.2 fun g _ => Bool.or_true _
  have hleaders : t.chosen true =
      (Table.distinct Identity.pid t.identities).filter fun g => g.isProcess = 1 := by
    apply List.filter_congr
    intro g _
    rw [Bool.not_true, Bool.or_false, leads_eq]
  rw [unranked, unranked, hall, hleaders, List.filter_map]
  rfl

/-- If there is room for all pids of the identity table, a join that leaves threads out fails as one
that shows them does, or else gives the leaders among its records. The summaries differ in their
times alone, and these are the times of the records. -/
theorem leaders_of_join (t : ProcessTables) (capacity : Capacity) (settings : Settings)
    (hroom : (t.identities.map Identity.pid).dedup.length ≤ settings.limits.processes) :
    match t.join capacity { settings with onlyProcesses := true },
      t.join capacity { settings with onlyProcesses := false } with
    | .ok leaders, .ok all =>
      leaders.records = all.records.filter (fun r => r.identity.isProcess = 1) ∧
        leaders.summary.states = all.summary.states ∧
        leaders.summary.AddsUp leaders.records ∧ all.summary.AddsUp all.records
    | .error e, .error e' => e = e'
    | _, _ => False := by
  rw [join_eq, join_eq]
  cases hfailure : t.failure? settings.missing with
  | some e => rfl
  | none =>
    have hrecords (onlyProcesses : Bool) :
        (t.processes capacity { settings with onlyProcesses := onlyProcesses }).records =
          ProcessRecord.ranked settings.sort (t.unranked capacity onlyProcesses) :=
      records_processes capacity hroom
    refine ⟨?_, rfl, addsUp_processes capacity _ hroom, addsUp_processes capacity _ hroom⟩
    rw [hrecords, hrecords, ProcessRecord.filter_ranked, ← unranked_leaders]

theorem leaders_of_join_assorted :
    let capacity : Capacity := ⟨1000, 100, 512⟩
    let settings (onlyProcesses : Bool) : Settings :=
      { sort := .disk, onlyProcesses := onlyProcesses, missing := .empty }
    (assorted.identities.map Identity.pid).dedup.length ≤ (settings true).limits.processes ∧
      ∃ leaders all, assorted.join capacity (settings true) = .ok leaders ∧
        assorted.join capacity (settings false) = .ok all ∧
        leaders.summary.systemTime = 5 ∧ all.summary.systemTime = 11 ∧
        leaders.records = all.records.filter (fun r => r.identity.isProcess = 1) ∧
        leaders.summary.states = all.summary.states ∧
        leaders.summary.AddsUp leaders.records ∧ all.summary.AddsUp all.records := by
  intro capacity settings
  have hroom : (assorted.identities.map Identity.pid).dedup.length ≤ 200 := by decide
  have hleaders : assorted.join capacity (settings true) = .ok _ := join_eq_ok_iff.2 ⟨rfl, rfl⟩
  have hall : assorted.join capacity (settings false) = .ok _ := join_eq_ok_iff.2 ⟨rfl, rfl⟩
  have hjoin := leaders_of_join assorted capacity (settings true) hroom
  rw [hleaders, hall] at hjoin
  exact ⟨hroom, _, _, hleaders, hall, by decide, by decide, hjoin⟩

end ProcessTables

end ActivityBoard
