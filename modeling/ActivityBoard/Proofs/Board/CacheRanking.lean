import ActivityBoard.Board.Machine
import ActivityBoard.Proofs.Binary64.Sign
import ActivityBoard.Proofs.Metric
import ActivityBoard.Proofs.Ranking

/-!
The order of the cache domains. Their occupancies stand by their numbers; what is no number stands
where the negative infinity does, and of the two zeros the negative one comes behind the other.
-/
namespace ActivityBoard

namespace Binary64

variable {x y : Binary64}

/-- The place of a number among all others: that of its value, and of its sign if it is zero. What
is no number has the place of the negative infinity. -/
def standing : Binary64 → ℤ ×ₗ ℚ ×ₗ Bool
  | .nan => toLex (-1, toLex (0, false))
  | .infinity true => toLex (-1, toLex (0, false))
  | .infinity false => toLex (1, toLex (0, false))
  | x@(.finite ..) => toLex (0, toLex (x.value, !x.negative))

theorem toLex_finite_le_iff {v w : ℚ} {s t : Bool} :
    (toLex ((0 : ℤ), toLex (v, !s)) ≤ toLex ((0 : ℤ), toLex (w, !t))) ↔
      v < w ∨ v ≤ w ∧ (s = true ∨ t = false) := by
  have hsign : (!s) ≤ (!t) ↔ s = true ∨ t = false := by
    cases s <;> cases t <;> decide
  rw [Prod.Lex.toLex_le_toLex, Prod.Lex.toLex_le_toLex, hsign, le_iff_lt_or_eq]
  tauto

theorem toLex_finite_lt_iff {v w : ℚ} {s t : Bool} :
    (toLex ((0 : ℤ), toLex (v, !s)) < toLex ((0 : ℤ), toLex (w, !t))) ↔
      v < w ∨ v = w ∧ s = true ∧ t = false := by
  have hsign : (!s) < (!t) ↔ s = true ∧ t = false := by
    cases s <;> cases t <;> decide
  rw [Prod.Lex.toLex_lt_toLex, Prod.Lex.toLex_lt_toLex, hsign]
  simp

theorem rankLe_iff (hx : x ≠ .nan) (hy : y ≠ .nan) :
    rankLe x y = true ↔ x.standing ≤ y.standing := by
  obtain _ | s | ⟨s, m, e, h⟩ := x
  · exact absurd rfl hx
  · obtain _ | t | ⟨t, n, f, h'⟩ := y
    · exact absurd rfl hy
    · cases s <;> cases t <;> decide
    · cases s <;> simp [rankLe, lt, le, standing, negative, Prod.Lex.toLex_le_toLex]
  · obtain _ | t | ⟨t, n, f, h'⟩ := y
    · exact absurd rfl hy
    · cases t <;> simp [rankLe, lt, le, standing, negative, Prod.Lex.toLex_le_toLex]
    · rw [standing, standing, toLex_finite_le_iff]
      simp [rankLe, lt, le, negative]

theorem value_eq_and_negative_iff (hx : x.isFinite = true) (hy : y.isFinite = true) :
    x.value = y.value ∧ x.negative = true ∧ y.negative = false ↔
      x.isZero = true ∧ y.isZero = true ∧ x.negative = true ∧ y.negative = false := by
  rw [isZero_iff hx, isZero_iff hy]
  constructor
  · rintro ⟨heq, hneg, hpos⟩
    have hnonneg := value_nonneg_of_not_negative hpos
    have hnonpos : x.value ≤ 0 := by
      rw [value_eq_signed x, if_pos hneg]
      exact neg_nonpos.2 (abs_nonneg _)
    refine ⟨?_, ?_, hneg, hpos⟩ <;> linarith
  · rintro ⟨hx0, hy0, hneg, hpos⟩
    exact ⟨hx0.trans hy0.symm, hneg, hpos⟩

theorem standing_lt_iff (hx : x ≠ .nan) (hy : y ≠ .nan) : x.standing < y.standing ↔
    x < y ∨ x.isZero = true ∧ y.isZero = true ∧ x.negative = true ∧ y.negative = false := by
  obtain _ | s | ⟨s, m, e, h⟩ := x
  · exact absurd rfl hx
  · obtain _ | t | ⟨t, n, f, h'⟩ := y
    · exact absurd rfl hy
    · cases s <;> cases t <;> decide
    · have hlt : infinity s < finite t n f h' ↔ s = true := Iff.rfl
      cases s <;> simp [hlt, standing, isZero, Prod.Lex.toLex_lt_toLex]
  · obtain _ | t | ⟨t, n, f, h'⟩ := y
    · exact absurd rfl hy
    · have hlt : finite s m e h < infinity t ↔ (!t) = true := Iff.rfl
      cases t <;> simp [hlt, standing, isZero, Prod.Lex.toLex_lt_toLex]
    · rw [← value_eq_and_negative_iff rfl rfl, lt_iff_value_lt rfl rfl]
      exact toLex_finite_lt_iff

theorem not_lt_negative_infinity (x : Binary64) : ¬ x < infinity true := by
  obtain _ | (_ | _) | _ := x <;> exact Bool.false_ne_true

theorem ne_nan_of_lt (h : x < y) : x ≠ .nan ∧ y ≠ .nan := by
  constructor
  · rintro rfl
    cases h
  · rintro rfl
    cases x <;> cases h

theorem ne_nan_of_isZero (h : x.isZero = true) : x ≠ .nan := by
  rintro rfl
  cases h

end Binary64

namespace Metric

open Binary64

variable {m n : Metric}

def standing (m : Metric) : ℤ ×ₗ ℚ ×ₗ Bool := m.sortKey.standing

/-- A text that is no number, or one of `nan`. -/
def NotNumber : Metric → Prop
  | .number x => x = .nan
  | .malformed _ => True

/-- The first metric comes behind the second wherever they are listed: numbers by their order,
`-0` behind `0`, and what is no number behind all but the negative infinity. -/
inductive Below : Metric → Metric → Prop
  | lt {x y : Binary64} : x < y → Below (.number x) (.number y)
  | signed {x y : Binary64} : x.isZero = true → y.isZero = true → x.negative = true →
      y.negative = false → Below (.number x) (.number y)
  | notNumber {m : Metric} {y : Binary64} : m.NotNumber → .infinity true < y → Below m (.number y)

theorem sortKey_ne_nan (m : Metric) : m.sortKey ≠ .nan := by
  obtain (_ | _ | _) | _ := m <;> exact Binary64.noConfusion

theorem standing_number {x : Binary64} (hx : x ≠ .nan) :
    (number x).standing = x.standing := by
  cases x with
  | nan => exact absurd rfl hx
  | _ => rfl

theorem NotNumber.standing_eq (hm : m.NotNumber) :
    m.standing = (Binary64.infinity true).standing := by
  cases m with
  | number x =>
    obtain rfl : x = .nan := hm
    rfl
  | malformed text => rfl

theorem notNumber_or (m : Metric) : m.NotNumber ∨ ∃ x, x ≠ .nan ∧ m = .number x := by
  cases m with
  | number x =>
    by_cases hx : x = .nan
    · exact .inl hx
    · exact .inr ⟨x, hx, rfl⟩
  | malformed text => exact .inl trivial

theorem standing_lt_iff_below : m.standing < n.standing ↔ m.Below n := by
  constructor
  · intro h
    obtain hm | ⟨x, hx, rfl⟩ := notNumber_or m
    · rw [hm.standing_eq] at h
      obtain hn | ⟨y, hy, rfl⟩ := notNumber_or n
      · rw [hn.standing_eq] at h
        exact absurd h (lt_irrefl _)
      · rw [standing_number hy, standing_lt_iff (by decide) hy] at h
        obtain hlt | ⟨hzero, -⟩ := h
        · exact .notNumber hm hlt
        · cases hzero
    · rw [standing_number hx] at h
      obtain hn | ⟨y, hy, rfl⟩ := notNumber_or n
      · rw [hn.standing_eq, standing_lt_iff hx (by decide)] at h
        obtain hlt | ⟨-, hzero, -⟩ := h
        · exact absurd hlt (not_lt_negative_infinity x)
        · cases hzero
      · rw [standing_number hy, standing_lt_iff hx hy] at h
        obtain hlt | ⟨hx0, hy0, hneg, hpos⟩ := h
        · exact .lt hlt
        · exact .signed hx0 hy0 hneg hpos
  · intro h
    cases h with
    | @lt x y hlt =>
      obtain ⟨hx, hy⟩ := ne_nan_of_lt hlt
      rw [standing_number hx, standing_number hy, standing_lt_iff hx hy]
      exact .inl hlt
    | @signed x y hx hy hneg hpos =>
      have hx' := ne_nan_of_isZero hx
      have hy' := ne_nan_of_isZero hy
      rw [standing_number hx', standing_number hy', standing_lt_iff hx' hy']
      exact .inr ⟨hx, hy, hneg, hpos⟩
    | @notNumber m y hm hlt =>
      obtain ⟨hbottom, hy⟩ := ne_nan_of_lt hlt
      rw [hm.standing_eq, standing_number hy, standing_lt_iff hbottom hy]
      exact .inl hlt

end Metric

theorem isTop_cacheDomains (k : ℕ) (rows : List CacheDomain) :
    IsTop (fun c => c.occupancy.standing) k rows ((CacheDomain.ranked rows).take k) := by
  -- The comparison is no order on `nan`, which no key is.
  let key (c : CacheDomain) : { x : Binary64 // x ≠ .nan } :=
    ⟨c.occupancy.sortKey, c.occupancy.sortKey_ne_nan⟩
  have hle (x y : { x : Binary64 // x ≠ .nan }) :
      x.1.rankLe y.1 = true ↔ x.1.standing ≤ y.1.standing := Binary64.rankLe_iff x.2 y.2
  change IsTop (fun c => (key c).1.standing) k rows
    ((ranked key (fun x y => x.1.rankLe y.1) rows).take k)
  exact isTop_ranked hle k rows

/-- The cache domains of a board are the first ones by their occupancies. One that is no number is
behind every number but the negative infinity, with which it stands by the order of the rows. -/
theorem caches_by_occupancy (k : ℕ) (rows : List CacheDomain) :
    IsTop (fun c => c.occupancy.standing) k rows ((CacheDomain.ranked rows).take k) ∧
      ∀ m n : Metric, m.standing < n.standing ↔ m.Below n :=
  ⟨isTop_cacheDomains k rows, fun _ _ => Metric.standing_lt_iff_below⟩

theorem ranked_pair {α κ : Type} (key : α → κ) (le : κ → κ → Bool) (a b : α) :
    ranked key le [a, b] = if le (key b) (key a) then [a, b] else [b, a] := by
  rw [ranked, List.mergeSort]
  simp [List.merge]

/-- A row without a number stays before one with the number `-inf`, and of two rows whose numbers
are equal the first one comes second. -/
theorem malformed_before_number :
    (let malformed : CacheDomain := ⟨.ofText "n/a", []⟩
      let least : CacheDomain := ⟨.ofText "-inf", []⟩
      malformed.occupancy = .malformed "n/a" ∧ least.occupancy = .number (.infinity true) ∧
        CacheDomain.ranked [malformed, least] = [malformed, least]) ∧
    (let first : CacheDomain := ⟨.ofText "-0", []⟩
      let second : CacheDomain := ⟨.ofText "0", []⟩
      first.occupancy.Equal second.occupancy ∧
        CacheDomain.ranked [first, second] = [second, first]) := by
  refine ⟨⟨?_, ?_, ?_⟩, ⟨?_, ?_⟩⟩
  · decide +kernel
  · decide +kernel
  · rw [CacheDomain.ranked, ranked_pair, if_pos (by decide +kernel)]
  · exact ⟨by decide +kernel, by decide +kernel⟩
  · rw [CacheDomain.ranked, ranked_pair, if_neg (by decide +kernel)]

end ActivityBoard
