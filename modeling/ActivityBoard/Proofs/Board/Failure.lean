import ActivityBoard.Proofs.Board.Sample

namespace ActivityBoard

def UseTable.before : UseTable → List UseTable
  | .cpu => []
  | .memory => [.cpu]
  | .disk => [.cpu, .memory]

namespace ProcessTables

variable {t : ProcessTables} {p : Nat} {e : MissingEntry}

/-- The row is the first one missed: all identities in front have their rows, and the tables that
are asked before have one of this pid. -/
def FirstMissed (t : ProcessTables) (e : MissingEntry) : Prop :=
  e.pid ∉ t.pidsIn e.table ∧ (∀ table ∈ e.table.before, e.pid ∈ t.pidsIn table) ∧
    ∃ front g back, t.identities = front ++ g :: back ∧ g.pid = e.pid ∧
      ∀ g' ∈ front, ∀ table, g'.pid ∈ t.pidsIn table

theorem gap?_eq_some_iff : t.gap? p = some e ↔
    e.pid = p ∧ p ∉ t.pidsIn e.table ∧ ∀ table ∈ e.table.before, p ∈ t.pidsIn table := by
  obtain ⟨q, table⟩ := e
  rw [gap?]
  by_cases hc : p ∈ t.pidsIn .cpu
  · by_cases hm : p ∈ t.pidsIn .memory
    · by_cases hd : p ∈ t.pidsIn .disk
      · cases table <;> simp [UseTable.before, hc, hm, hd]
      · cases table <;> simp [UseTable.before, hc, hm, hd, eq_comm]
    · cases table <;> simp [UseTable.before, hc, hm, eq_comm]
  · cases table <;> simp [UseTable.before, hc, eq_comm]

theorem failure?_fail_eq_some_iff : t.failure? .fail = some e ↔ t.FirstMissed e := by
  rw [failure?, List.findSome?_eq_some_iff, FirstMissed]
  constructor
  · intro h
    obtain ⟨front, p, back, hpids, hp, hfront⟩ := h
    obtain ⟨rfl, hmissed, hbefore⟩ := gap?_eq_some_iff.1 hp
    obtain ⟨front', rest, hidentities, rfl, hrest⟩ := List.map_eq_append_iff.1 hpids
    obtain ⟨g, back', rfl, hg, _⟩ := List.map_eq_cons_iff.1 hrest
    refine ⟨hmissed, hbefore, front', g, back', hidentities, hg, ?_⟩
    intro g' hg'
    exact gap?_eq_none_iff.1 (hfront _ (List.mem_map_of_mem hg'))
  · intro h
    obtain ⟨hmissed, hbefore, front, g, back, hidentities, hg, hfront⟩ := h
    refine ⟨front.map Identity.pid, e.pid, back.map Identity.pid, ?_,
      gap?_eq_some_iff.2 ⟨rfl, hmissed, hbefore⟩, ?_⟩
    · rw [hidentities, List.map_append, List.map_cons, hg]
    · intro p hp
      obtain ⟨g', hg', rfl⟩ := List.mem_map.1 hp
      exact gap?_eq_none_iff.2 (hfront g' hg')

theorem failure?_fail_ne_none_iff :
    t.failure? .fail ≠ none ↔ ∃ g ∈ t.identities, ∃ table, g.pid ∉ t.pidsIn table := by
  rw [Ne, failure?, List.findSome?_eq_none_iff]
  simp [refused?, gap?_eq_none_iff]

end ProcessTables

namespace Board

theorem ofSample_eq_error_iff {s : Sample} {settings : Settings} {e : MissingEntry} :
    ofSample s settings = .error e ↔ s.tables.failure? settings.missing = some e := by
  rw [ofSample_eq]
  cases s.tables.failure? settings.missing <;> simp

/-- A sample has no board exactly if the policy is strict and some pid of the identity table, be it
of a thread or of a process that has exited, has no row in one of the other tables. The error is the
first such pid, with the first table that has no row of it. -/
theorem fails_at_first_missed (s : Sample) (settings : Settings) :
    ((∃ e, ofSample s settings = .error e) ↔ settings.missing = .fail ∧
      ∃ g ∈ s.identities, ∃ table, g.pid ∉ s.tables.pidsIn table) ∧
    (∀ e, ofSample s settings = .error e ↔
      settings.missing = .fail ∧ s.tables.FirstMissed e) ∧
    (settings.missing = .empty → ∃ board, ofSample s settings = .ok board) := by
  simp only [ofSample_eq_error_iff]
  cases hpolicy : settings.missing with
  | fail =>
    refine ⟨?_, ?_, ?_⟩
    · rw [← Option.isSome_iff_exists, ← Option.ne_none_iff_isSome,
        ProcessTables.failure?_fail_ne_none_iff]
      simp [Sample.tables]
    · intro e
      rw [ProcessTables.failure?_fail_eq_some_iff]
      simp
    · intro h
      cases h
  | empty =>
    have hnone : s.tables.failure? .empty = none := ProcessTables.failure?_empty
    refine ⟨?_, ?_, ?_⟩
    · simp [hnone]
    · intro e
      simp [hnone]
    · intro _
      exact ⟨_, ofSample_eq_ok_iff.2 ⟨by rw [hpolicy, hnone], rfl⟩⟩

end Board

end ActivityBoard
