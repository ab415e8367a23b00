import ActivityBoard.Rows
import Mathlib.Algebra.Ring.Nat
import Mathlib.Data.List.Dedup

namespace ActivityBoard

section FirstSeen

variable {β : Type} {l : List Nat} {n : Nat}

@[simp] theorem mem_firstSeen : n ∈ firstSeen l ↔ n ∈ l := by
  induction l with
  | nil => simp [firstSeen]
  | cons m rest ih =>
    rw [firstSeen, List.mem_cons, List.mem_cons, List.mem_filter, ih]
    by_cases h : n = m <;> simp [h]

theorem nodup_firstSeen (l : List Nat) : (firstSeen l).Nodup := by
  induction l with
  | nil => exact List.nodup_nil
  | cons m rest ih =>
    rw [firstSeen, List.nodup_cons]
    exact ⟨by simp, ih.filter _⟩

theorem length_firstSeen (l : List Nat) : (firstSeen l).length = l.dedup.length := by
  have hperm : (firstSeen l).Perm l.dedup := by
    rw [List.perm_ext_iff_of_nodup (nodup_firstSeen l) (List.nodup_dedup l)]
    simp
  exact hperm.length_eq

theorem firstSeen_pairwise_idxOf (l : List Nat) :
    (firstSeen l).Pairwise fun a b => l.idxOf a < l.idxOf b := by
  induction l with
  | nil => exact List.Pairwise.nil
  | cons m rest ih =>
    have hlater {a : Nat} (ha : a ∈ (firstSeen rest).filter (· ≠ m)) :
        (m :: rest).idxOf a = rest.idxOf a + 1 := by
      have hne : m ≠ a := by
        rw [List.mem_filter] at ha
        exact fun he => by simp [he] at ha
      exact List.idxOf_cons_ne rest hne
    rw [firstSeen, List.pairwise_cons]
    constructor
    · intro a ha
      rw [hlater ha, List.idxOf_cons_self]
      exact Nat.succ_pos _
    · refine (ih.filter _).imp_of_mem fun ha hb hab => ?_
      rw [hlater ha, hlater hb]
      exact Nat.succ_lt_succ hab

theorem findSome?_firstSeen (f : Nat → Option β) (l : List Nat) :
    (firstSeen l).findSome? f = l.findSome? f := by
  have hfilter {m : Nat} (hm : f m = none) (l : List Nat) :
      (l.filter (· ≠ m)).findSome? f = l.findSome? f := by
    induction l with
    | nil => rfl
    | cons n rest ih =>
      by_cases hn : n = m
      · rw [List.filter_cons_of_neg (by simpa using hn), ih, List.findSome?_cons, hn, hm]
      · rw [List.filter_cons_of_pos (by simpa using hn), List.findSome?_cons, ih,
          List.findSome?_cons]
  induction l with
  | nil => rfl
  | cons m rest ih =>
    rw [firstSeen, List.findSome?_cons, List.findSome?_cons]
    cases hm : f m with
    | none => rw [hfilter hm, ih]
    | some b => rfl

end FirstSeen

namespace Table

variable {α : Type} {pid : α → Nat} {asked : Nat → Prop} {rows rows' : List α} {row : α} {p : Nat}

def IsLast (pid : α → Nat) (rows : List α) (p : Nat) (row : α) : Prop :=
  pid row = p ∧ ∃ front back, rows = front ++ row :: back ∧ ∀ later ∈ back, pid later ≠ p

theorem IsLast.mem (h : IsLast pid rows p row) : row ∈ rows := by
  obtain ⟨_, front, back, rfl, _⟩ := h
  simp

theorem latest?_eq_some_iff : latest? pid rows p = some row ↔ IsLast pid rows p row := by
  rw [latest?, List.find?_eq_some_iff_append]
  constructor
  · intro h
    obtain ⟨hp, front, back, he, hfront⟩ := h
    have hrows : rows = back.reverse ++ row :: front.reverse := by
      simpa using congrArg List.reverse he
    refine ⟨by simpa using hp, _, _, hrows, ?_⟩
    intro later hl
    simpa using hfront later (List.mem_reverse.1 hl)
  · intro h
    obtain ⟨hp, front, back, rfl, hback⟩ := h
    refine ⟨by simpa using hp, back.reverse, front.reverse, by simp, ?_⟩
    intro later hl
    simpa using hback later (List.mem_reverse.1 hl)

theorem latest?_eq_none_iff : latest? pid rows p = none ↔ p ∉ rows.map pid := by
  simp [latest?]

theorem latest?_eq_some_iff_of_nodup (h : (rows.map pid).Nodup) :
    latest? pid rows p = some row ↔ row ∈ rows ∧ pid row = p := by
  rw [latest?_eq_some_iff]
  constructor
  · exact fun hlast => ⟨hlast.mem, hlast.1⟩
  · intro hrow
    obtain ⟨hmem, rfl⟩ := hrow
    obtain ⟨front, back, rfl⟩ := List.append_of_mem hmem
    refine ⟨rfl, front, back, rfl, ?_⟩
    intro later hl he
    rw [List.map_append, List.map_cons, List.nodup_append, List.nodup_cons] at h
    exact h.2.1.1 (he ▸ List.mem_map_of_mem hl)

theorem latest?_cons : latest? pid (row :: rows) p =
    (latest? pid rows p).or (if pid row = p then some row else none) := by
  rw [latest?, latest?, List.reverse_cons, List.find?_append, List.find?_singleton]
  simp

theorem exists_isLast_iff : (∃ row, IsLast pid rows p row) ↔ p ∈ rows.map pid := by
  rw [← not_iff_not, ← latest?_eq_none_iff, Option.eq_none_iff_forall_ne_some]
  simp [latest?_eq_some_iff]

theorem mem_pids_congr (h : latest? pid rows' p = latest? pid rows p) :
    p ∈ rows'.map pid ↔ p ∈ rows.map pid := by
  rw [← not_iff_not, ← latest?_eq_none_iff, ← latest?_eq_none_iff, h]

theorem map_pid_distinct : (distinct pid rows).map pid = pids pid rows := by
  have hpid : ∀ p ∈ pids pid rows, (latest? pid rows p).map pid = some p := by
    intro p hp
    rw [pids, mem_firstSeen, ← exists_isLast_iff] at hp
    obtain ⟨row, hrow⟩ := hp
    rw [latest?_eq_some_iff.2 hrow, Option.map_some, hrow.1]
  rw [distinct, List.map_filterMap, List.filterMap_congr hpid, List.filterMap_some]

theorem nodup_pids_distinct : ((distinct pid rows).map pid).Nodup := by
  rw [map_pid_distinct]
  exact nodup_firstSeen _

theorem nodup_distinct : (distinct pid rows).Nodup := nodup_pids_distinct.of_map pid

theorem length_distinct (pid : α → Nat) (rows : List α) :
    (distinct pid rows).length = (rows.map pid).dedup.length := by
  rw [← List.length_map pid, map_pid_distinct, pids, length_firstSeen]

theorem mem_distinct : row ∈ distinct pid rows ↔ IsLast pid rows (pid row) row := by
  rw [distinct, List.mem_filterMap, ← latest?_eq_some_iff]
  constructor
  · intro h
    obtain ⟨p, _, hrow⟩ := h
    rw [(latest?_eq_some_iff.1 hrow).1]
    exact hrow
  · intro h
    refine ⟨pid row, ?_, h⟩
    rw [pids, mem_firstSeen]
    exact List.mem_map_of_mem (latest?_eq_some_iff.1 h).mem

/-- The second table is the first one without some of its rows: rows that a later one of their pid
replaces, and rows of pids that nobody asks for. -/
inductive Thinned (pid : α → Nat) (asked : Nat → Prop) : List α → List α → Prop where
  | nil : Thinned pid asked [] []
  | keep {rows rows' : List α} (row : α) :
      Thinned pid asked rows rows' → Thinned pid asked (row :: rows) (row :: rows')
  | replaced {rows rows' : List α} (row : α) : pid row ∈ rows.map pid →
      Thinned pid asked rows rows' → Thinned pid asked (row :: rows) rows'
  | unasked {rows rows' : List α} (row : α) : ¬ asked (pid row) →
      Thinned pid asked rows rows' → Thinned pid asked (row :: rows) rows'

/-- What is left out is never the last row of a pid that somebody asks for. -/
theorem Thinned.latest?_eq (h : Thinned pid asked rows rows') (hp : asked p) :
    latest? pid rows' p = latest? pid rows p := by
  induction h with
  | nil => rfl
  | keep row _ ih => rw [latest?_cons, latest?_cons, ih]
  | @replaced rows rows' row hrow _ ih =>
    rw [latest?_cons, ih]
    -- The row that replaces this one is among `rows`, so their last row of `p` stays.
    by_cases he : pid row = p
    · obtain ⟨later, hl⟩ := exists_isLast_iff.2 (he ▸ hrow)
      rw [latest?_eq_some_iff.2 hl, Option.some_or]
    · rw [if_neg he, Option.or_none]
  | unasked row hrow _ ih =>
    have hne : pid row ≠ p := fun he => hrow (he ▸ hp)
    rw [latest?_cons, ih, if_neg hne, Option.or_none]

/-- Tables with the same last rows have the same rows that count, though not in one order. -/
theorem distinct_perm (h : ∀ p, latest? pid rows' p = latest? pid rows p) :
    (distinct pid rows').Perm (distinct pid rows) := by
  rw [List.perm_ext_iff_of_nodup nodup_distinct nodup_distinct]
  intro row
  rw [mem_distinct, mem_distinct, ← latest?_eq_some_iff, ← latest?_eq_some_iff, h]

theorem total_eq_sum (counter : α → Nat) (rows : List α) :
    total counter rows = (rows.map counter).sum := by
  rw [total, List.sum_eq_foldr, List.foldr_map]

theorem total_map {β : Type} (counter : β → Nat) (f : α → β) (rows : List α) :
    total counter (rows.map f) = total (fun row => counter (f row)) rows := by
  rw [total, total, List.foldr_map]

end Table

end ActivityBoard
