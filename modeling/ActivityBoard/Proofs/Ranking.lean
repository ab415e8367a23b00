import ActivityBoard.Rows
import Mathlib.Data.Prod.Lex
import Mathlib.Data.List.Perm.Subperm

/-!
A ranking that is cut keeps the rows of the greatest keys, and of those with the least of these keys
the ones that stand first. To leave rows out before a ranking or behind it is the same.
-/
namespace ActivityBoard

variable {α β κ ν : Type} [LinearOrder ν]

/-- A row goes before another by its key, or by its place where the keys are equal. -/
def Outranks (key : α → ν) (a b : α × Nat) : Prop :=
  key b.1 < key a.1 ∨ key b.1 = key a.1 ∧ a.2 < b.2

/-- Some of the rows with their places: the first `k` in the ranking by `key`. -/
structure Leading (key : α → ν) (k : Nat) (rows : List α) (kept : List (α × Nat)) : Prop where
  placed : kept.Subperm rows.zipIdx
  length : kept.length = min k rows.length
  ordered : kept.Pairwise (Outranks key)
  above : ∀ a ∈ kept, ∀ b ∈ rows.zipIdx, b ∉ kept → Outranks key a b

/-- The first `k` rows in the ranking by `key`. -/
def IsTop (key : α → ν) (k : Nat) (rows top : List α) : Prop :=
  ∃ kept, Leading key k rows kept ∧ kept.map Prod.fst = top

theorem natLe_iff (a b : Nat) : natLe a b = true ↔ a ≤ b := decide_eq_true_iff

theorem intLe_iff (a b : Int) : intLe a b = true ↔ a ≤ b := decide_eq_true_iff

theorem pairLe_iff (a b : Int × Nat) : pairLe a b = true ↔ toLex a ≤ toLex b := by
  rw [Prod.Lex.toLex_le_toLex]
  simp [pairLe]

theorem leading_take {key : α → ν} {rows : List α} {sorted : List (α × Nat)} (k : Nat)
    (hperm : sorted.Perm rows.zipIdx) (hpair : sorted.Pairwise (Outranks key)) :
    Leading key k rows (sorted.take k) where
  placed := (List.take_sublist k sorted).subperm.trans hperm.subperm
  length := by
    rw [List.length_take, hperm.length_eq, List.length_zipIdx]
  ordered := hpair.sublist (List.take_sublist k sorted)
  above := by
    intro a ha b hb hkept
    rw [← List.take_append_drop k sorted, List.pairwise_append] at hpair
    have hmem := hperm.mem_iff.2 hb
    rw [← List.take_append_drop k sorted, List.mem_append] at hmem
    exact hpair.2.2 a ha b (hmem.resolve_left hkept)

def Descending (key : α → ν) (rows : List α) : Prop :=
  rows.Pairwise fun a b => key b ≤ key a

theorem Descending.exists_eq_cons {key : α → ν} {a : α} {rows rows' : List α}
    (h : Descending key (a :: rows)) (h' : Descending key rows')
    (hties : ∀ k, rows'.filter (key · = k) = (a :: rows).filter (key · = k)) :
    ∃ rest, rows' = a :: rest := by
  have hmem {b : α} : b ∈ rows' ↔ b ∈ a :: rows := by
    have hb := congrArg (b ∈ ·) (hties (key b))
    simpa using hb
  cases rows' with
  | nil => exact absurd (hmem.2 List.mem_cons_self) List.not_mem_nil
  | cons b rest =>
    -- Both heads have the greatest key that there is, and its rows have one order.
    have hkey : key b = key a := by
      apply le_antisymm
      · obtain rfl | hb := List.mem_cons.1 (hmem.1 List.mem_cons_self)
        · exact le_rfl
        · exact List.rel_of_pairwise_cons h hb
      · obtain rfl | ha := List.mem_cons.1 (hmem.2 List.mem_cons_self)
        · exact le_rfl
        · exact List.rel_of_pairwise_cons h' ha
    have hhead := hties (key a)
    rw [List.filter_cons_of_pos (by simpa using hkey), List.filter_cons_of_pos (by simp)] at hhead
    rw [(List.cons.inj hhead).1]
    exact ⟨rest, rfl⟩

/-- Rows by descending keys are one list if the rows of each key are. -/
theorem Descending.eq_of_ties {key : α → ν} {rows rows' : List α} (h : Descending key rows)
    (h' : Descending key rows')
    (hties : ∀ k, rows'.filter (key · = k) = rows.filter (key · = k)) : rows' = rows := by
  induction rows generalizing rows' with
  | nil =>
    rw [List.eq_nil_iff_forall_not_mem]
    intro b hb
    have hnil := List.filter_eq_nil_iff.1 (hties (key b)) b hb
    simp at hnil
  | cons a rows ih =>
    obtain ⟨rest, rfl⟩ := h.exists_eq_cons h' hties
    congr 1
    apply ih h.of_cons h'.of_cons
    intro k
    have hk := hties k
    by_cases ha : key a = k
    · rw [List.filter_cons_of_pos (by simpa using ha),
        List.filter_cons_of_pos (by simpa using ha)] at hk
      exact (List.cons.inj hk).2
    · rwa [List.filter_cons_of_neg (by simpa using ha),
        List.filter_cons_of_neg (by simpa using ha)] at hk

section Sorted

variable {key : α → κ} {le : κ → κ → Bool} {f : κ → ν}

theorem le_trans_of_iff (key : α → κ) (hle : ∀ x y, le x y = true ↔ f x ≤ f y) (a b c : α)
    (hab : le (key b) (key a) = true) (hbc : le (key c) (key b) = true) :
    le (key c) (key a) = true := by
  rw [hle] at hab hbc ⊢
  exact hbc.trans hab

theorem le_total_of_iff (hle : ∀ x y, le x y = true ↔ f x ≤ f y) (a b : α) :
    (le (key b) (key a) || le (key a) (key b)) = true := by
  rw [Bool.or_eq_true, hle, hle]
  exact le_total _ _

theorem outranks_of_zipIdxLE (hle : ∀ x y, le x y = true ↔ f x ≤ f y) {a b : α × Nat}
    (h : List.zipIdxLE (fun a b => le (key b) (key a)) a b = true) (hne : a.2 ≠ b.2) :
    Outranks (fun a => f (key a)) a b := by
  unfold List.zipIdxLE at h
  split at h
  · rename_i hba
    split at h
    · rename_i hab
      have heq := le_antisymm ((hle _ _).1 hba) ((hle _ _).1 hab)
      exact .inr ⟨heq, lt_of_le_of_ne (of_decide_eq_true h) hne⟩
    · rename_i hab
      rw [hle, not_le] at hab
      exact .inl hab
  · cases h

theorem pairwise_places_ne {l : List (α × Nat)} {rows : List α} (h : l.Perm rows.zipIdx) :
    l.Pairwise fun a b => a.2 ≠ b.2 := by
  have hn : (rows.zipIdx.map Prod.snd).Nodup := by
    rw [List.zipIdx_map_snd]
    exact List.nodup_range'
  exact List.pairwise_map.1 ((h.map Prod.snd).nodup_iff.2 hn)

theorem pairwise_outranks_mergeSort (hle : ∀ x y, le x y = true ↔ f x ≤ f y) (rows : List α) :
    (rows.zipIdx.mergeSort (List.zipIdxLE fun a b => le (key b) (key a))).Pairwise
      (Outranks fun a => f (key a)) := by
  have hsorted := List.pairwise_mergeSort (List.zipIdxLE_trans (le_trans_of_iff key hle))
    (List.zipIdxLE_total (le_total_of_iff hle)) rows.zipIdx
  have hplaces := pairwise_places_ne (List.mergeSort_perm rows.zipIdx
    (List.zipIdxLE fun a b => le (key b) (key a)))
  exact (hsorted.and hplaces).imp fun h => outranks_of_zipIdxLE hle h.1 h.2

theorem isTop_ranked (hle : ∀ x y, le x y = true ↔ f x ≤ f y) (k : Nat) (rows : List α) :
    IsTop (fun a => f (key a)) k rows ((ranked key le rows).take k) := by
  refine ⟨_, leading_take k (List.mergeSort_perm _ _) (pairwise_outranks_mergeSort hle rows), ?_⟩
  -- A stable sort of rows is a sort of the rows with their places, which are then forgotten.
  rw [List.map_take]
  exact congrArg (List.take k) List.mergeSort_zipIdx

theorem ranked_perm (key : α → κ) (le : κ → κ → Bool) (rows : List α) :
    (ranked key le rows).Perm rows :=
  List.mergeSort_perm _ _

theorem descending_ranked (hle : ∀ x y, le x y = true ↔ f x ≤ f y) (rows : List α) :
    Descending (fun a => f (key a)) (ranked key le rows) := by
  have hsorted := List.pairwise_mergeSort (le_trans_of_iff key hle)
    (le_total_of_iff hle) rows
  exact hsorted.imp fun h => (hle _ _).1 h

theorem ties_ranked (hle : ∀ x y, le x y = true ↔ f x ≤ f y) (rows : List α) (k : ν) :
    (ranked key le rows).filter (fun a => f (key a) = k) =
      rows.filter fun a => f (key a) = k := by
  have htied : (rows.filter fun a => f (key a) = k).Pairwise fun a b =>
      le (key b) (key a) = true := by
    apply List.pairwise_of_forall_mem_list
    intro a ha b hb
    rw [hle, of_decide_eq_true (List.mem_filter.1 ha).2,
      of_decide_eq_true (List.mem_filter.1 hb).2]
  have hsublist := (List.sublist_mergeSort (le_trans_of_iff key hle) (le_total_of_iff hle) htied
    List.filter_sublist).filter fun a => decide (f (key a) = k)
  simp only [List.filter_filter, Bool.and_self] at hsublist
  exact (hsublist.eq_of_length ((ranked_perm key le rows).filter _).length_eq.symm).symm

theorem filter_ranked (hle : ∀ x y, le x y = true ↔ f x ≤ f y) (p : α → Bool) (rows : List α) :
    (ranked key le rows).filter p = ranked key le (rows.filter p) := by
  apply (descending_ranked hle (rows.filter p)).eq_of_ties ((descending_ranked hle rows).filter p)
  intro k
  rw [List.filter_comm, ties_ranked hle, ties_ranked hle, List.filter_comm]

theorem map_ranked (f : α → β) (key : α → κ) (key' : β → κ) (le : κ → κ → Bool) (rows : List α)
    (h : ∀ a ∈ rows, key' (f a) = key a) :
    (ranked key le rows).map f = ranked key' le (rows.map f) := by
  refine List.map_mergeSort fun a ha b hb => ?_
  rw [h a ha, h b hb]

end Sorted

theorem IsTop.congr {key key' : α → ν} {k : Nat} {rows top : List α} (h : IsTop key k rows top)
    (hk : ∀ a ∈ rows, key a = key' a) : IsTop key' k rows top := by
  obtain ⟨kept, hl, htop⟩ := h
  have hrow {a : α × Nat} (ha : a ∈ rows.zipIdx) : key a.1 = key' a.1 :=
    hk a.1 (List.fst_mem_of_mem_zipIdx ha)
  have hkept {a : α × Nat} (ha : a ∈ kept) : a ∈ rows.zipIdx := hl.placed.subset ha
  have hout {a b : α × Nat} (ha : a ∈ rows.zipIdx) (hb : b ∈ rows.zipIdx)
      (hab : Outranks key a b) : Outranks key' a b := by
    unfold Outranks at hab ⊢
    rwa [hrow ha, hrow hb] at hab
  refine ⟨kept, ⟨hl.placed, hl.length, ?_, ?_⟩, htop⟩
  · exact hl.ordered.imp_of_mem fun ha hb hab => hout (hkept ha) (hkept hb) hab
  · intro a ha b hb hn
    exact hout (hkept ha) hb (hl.above a ha b hb hn)

end ActivityBoard
